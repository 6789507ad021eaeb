import Iteron.Event
import Iteron.JsonScan
import Iteron.Lines
import Iteron.Table
import Iteron.Text
/-!
# WorkflowJournal — the outcome journal of one workflow run

A `started` and a `result` line for each completed agent call, written as one batch.  Opening reads the file of the run
line by line into the cache, skips what is no result line of this version, and appends after whatever the file ends with.
Serialization is a parameter (`Codec`), and so is what a write left behind when it failed.  The durability barrier, the
hit counters and the writer lock are left out.
-/
namespace Iteron.WorkflowJournal

def journalFormatVersion : Nat := 1

def newline : UInt8 := 10

/-- The replayable outcome of one `agent()` call. -/
inductive Outcome where
  | structured (value : Kernel.Json)
  | text (text : String)
  | null (reason : Option String)
  | unknown

structure Record where
  outcome : Outcome
  tokens : Nat
  toolCalls : Nat
  lastToolSummary : Option String

/-- One line in `journal.jsonl`. -/
inductive Line where
  | started (version : Nat) (key agentId : String)
  | result (version : Nat) (key agentId : String) (record : Record)
  | unknown

def textBytes (text : String) : List UInt8 := text.toByteArray.data.toList

def text? (bytes : List UInt8) : Option String :=
  if h : (ByteArray.mk bytes.toArray).IsValidUTF8 then some (String.fromUTF8 _ h) else none

/-- `serde_json::to_string` and `from_str` of journal lines. -/
structure Codec where
  toString : Line → String
  fromStr : String → Option Line

/-- What serialization promises of a line: one line of text, an object that starts with its tag, that reads back. -/
structure Codec.Carries (C : Codec) (line : Line) : Prop where
  roundTrip : C.fromStr (C.toString line) = some line
  oneLine : newline ∉ textBytes (C.toString line)
  notBlank : (C.toString line).toList.all Text.isWhitespace = false
  object : JsonScan.Object (textBytes (C.toString line))

/-- What it promises of any text: only a JSON text is read. -/
def Codec.Strict (C : Codec) : Prop :=
  ∀ text line, C.fromStr text = some line → JsonScan.run .start (textBytes text) = .closed

abbrev Cache := Std.ExtTreeMap String Record compare

def encodeLine (C : Codec) (line : Line) : List UInt8 := textBytes (C.toString line) ++ [newline]

/-- What ends a line of `BufRead::lines`: the newline, and a carriage return before it. -/
def stripCr (line : List UInt8) : List UInt8 := if line.getLast? = some 13 then line.dropLast else line

/-- `BufRead::lines`, before the bytes are checked to be text. -/
def lines (bytes : List UInt8) : List (List UInt8) :=
  let pieces := bytes.splitOn newline
  pieces.dropLast.map stripCr ++ (if pieces.getLast? = some [] then [] else pieces.getLast?.toList)

def insertLine (C : Codec) (cache : Cache) (text : String) : Cache :=
  if text.toList.all Text.isWhitespace then cache
  else match C.fromStr text with
    | some (.result version key _ record) => if version = journalFormatVersion then cache.insert key record else cache
    | _ => cache

inductive JournalError where
  | invalidData
  | failed (message : String)

/-- One line of the file; bytes that are no text end the load. -/
def loadLine (C : Codec) (cache : Cache) (line : List UInt8) : Except JournalError Cache :=
  match text? line with
  | none => .error .invalidData
  | some text => .ok (insertLine C cache text)

def loadRecords (C : Codec) (bytes : List UInt8) : Except JournalError Cache := (lines bytes).foldlM (loadLine C) ∅

structure Journal where
  cache : Cache
  failure : Option String

/-- `Journal::open` with the run's own journal as the one it resumes. -/
def Journal.open (C : Codec) (file : List UInt8) : Except JournalError Journal :=
  (loadRecords C file).map (fun cache => { cache := cache, failure := none })

def Journal.get (j : Journal) (key : String) : Option Record := j.cache[key]?

/-- How `write_all` and the barrier ended. -/
inductive Write where
  | done
  | failed (written : Nat) (message : String)

def started (key agentId : String) : Line := .started journalFormatVersion key agentId

def result (key agentId : String) (record : Record) : Line := .result journalFormatVersion key agentId record

def batch (C : Codec) (key agentId : String) (record : Record) : List UInt8 :=
  encodeLine C (started key agentId) ++ encodeLine C (result key agentId record)

/-- `Journal::record`, with the file it appends to. -/
def Journal.record (C : Codec) (j : Journal) (file : List UInt8) (key agentId : String) (record : Record)
    (write : Write) : Journal × List UInt8 × Except JournalError Unit :=
  match j.failure with
  | some message => (j, file, .error (.failed message))
  | none =>
    match write with
    | .failed written message =>
      ({ j with failure := some message }, file ++ (batch C key agentId record).take written, .error (.failed message))
    | .done => ({ j with cache := j.cache.insert key record }, file ++ batch C key agentId record, .ok ())

end Iteron.WorkflowJournal
