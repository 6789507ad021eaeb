import Iteron.Lines
import Iteron.PromotionState
/-!
# PromotionJournal — the hash-chained journal file and its replay

A record is one line of JSON; reading checks the chain, drops a torn last line and replays the rest.  Serialization is a
parameter (`Codec`).  The lock, the checks of the path and the identity of the file are left out.
-/
namespace Iteron.Promotion

open Refuse

def newline : UInt8 := 10
def maxPromotionJournalBytes : Nat := 268435456
def maxPromotionJournalRecordBytes : Nat := 2097152
def journalSchemaVersion : Nat := 3
def zeroHash : String := "0000000000000000000000000000000000000000000000000000000000000000"

/-- `serde_json` of records and of their contents. -/
structure Codec where
  record : JournalRecord → Bytes
  content : JournalContent → Bytes
  read : Bytes → Option JournalRecord

/-- What serialization promises of a record: it reads back, on one line. -/
structure Codec.Carries (C : Codec) (r : JournalRecord) : Prop where
  roundTrip : C.read (C.record r) = some r
  oneLine : newline ∉ C.record r

variable (A : Authority) (C : Codec)

def previousHash (records : List JournalRecord) : String :=
  match records.getLast? with
  | none => zeroHash
  | some record => record.recordHash

def verifyRecord (record : JournalRecord) (expectedSequence : Nat) (expectedPrevious : String) : Result Unit := do
  refuseIf (record.journalSchemaVersion ≠ journalSchemaVersion)
    (.unsupportedJournalSchema expectedSequence record.journalSchemaVersion)
  refuseIf ((C.content record.content).length > maxPromotionJournalRecordBytes)
    (.recordTooLarge (maxPromotionJournalRecordBytes + 1))
  refuseIf (record.sequence ≠ expectedSequence ∨ record.previousHash ≠ expectedPrevious ∨
    A.crypto.sha256 (C.content record.content) ≠ record.contentDigest ∨
    A.crypto.chainedHash record.previousHash record.sequence record.contentDigest ≠ record.recordHash)
    (.corruptJournal expectedSequence)

def readRecord (line : Bytes) : Result JournalRecord :=
  match C.read line with
  | none => .error (.json "invalid record")
  | some record => .ok record

/-- One terminated line of the journal, after the records before it. -/
def readLine (records : List JournalRecord) (line : Bytes) : Result (List JournalRecord) := do
  refuseIf (line.length + 1 > maxPromotionJournalRecordBytes) (.recordTooLarge (line.length + 1))
  refuseIf (records.length ≥ maxPromotionAuditEvents) .auditLimit
  let record ← readRecord C line
  verifyRecord A C record records.length (previousHash records)
  return records ++ [record]

/-- The terminated lines of a file, and what follows the last newline. -/
def terminated (file : Bytes) : List Bytes := (file.splitOn newline).dropLast

def tornTail (file : Bytes) : Bytes := (file.splitOn newline).getLastD []

def readRecords (file : Bytes) : Result (List JournalRecord) := do
  refuseIf (file.length > maxPromotionJournalBytes) (.journalTooLarge file.length)
  let records ← (terminated file).foldlM (readLine A C) []
  refuseIf ((tornTail file).length > maxPromotionJournalRecordBytes) (.recordTooLarge (tornTail file).length)
  return records

/-- The file after its records were read: a torn tail is cut off. -/
def cutTail (file : Bytes) : Bytes := Lines.image newline (terminated file)

/-- `PromotionAuthority::refresh`, and `open` once the configuration was checked. -/
def refresh (file : Bytes) : Result AuthorityState := do
  let records ← readRecords A C file
  replay A records

/-- The record that `PromotionJournal::append` writes for a content. -/
def nextRecord (records : List JournalRecord) (content : JournalContent) : JournalRecord :=
  let contentDigest := A.crypto.sha256 (C.content content)
  { journalSchemaVersion := journalSchemaVersion
    sequence := records.length
    previousHash := previousHash records
    recordHash := A.crypto.chainedHash (previousHash records) records.length contentDigest
    contentDigest := contentDigest
    content := content }

inductive Write where
  | done
  | failed (written : Nat) (message : String)

structure Journal where
  file : Bytes
  poisoned : Bool

/-- `PromotionJournal::append`; a failed write leaves a part of the line and poisons the writer. -/
def Journal.append (j : Journal) (content : JournalContent) (write : Write) : Journal × Result Unit :=
  if j.poisoned then (j, .error .writerPoisoned)
  else match readRecords A C j.file with
    | .error e => (j, .error e)
    | .ok records =>
      let file := cutTail j.file
      let line := C.record (nextRecord A C records content) ++ [newline]
      if records.length ≥ maxPromotionAuditEvents then ({ j with file }, .error .auditLimit)
      else if (C.content content).length > maxPromotionJournalRecordBytes ∨ line.length > maxPromotionJournalRecordBytes then
        ({ j with file }, .error (.recordTooLarge (maxPromotionJournalRecordBytes + 1)))
      else if file.length + line.length > maxPromotionJournalBytes then
        ({ j with file }, .error (.journalTooLarge (file.length + line.length)))
      else match write with
        | .failed written message => ({ file := file ++ line.take written, poisoned := true }, .error (.io message))
        | .done => ({ file := file ++ line, poisoned := false }, .ok ())

end Iteron.Promotion
