import Iteron.DagReduce
import Iteron.Lines
/-!
# DagStore — the append-only log of one task graph

A store prepares a command, appends its line and then projects it; opening reads the file back, drops a torn tail, checks
the genesis line and replays the rest.  Serialization is a parameter (`Codec`), and so is the outcome of an append: what
was written when it failed may be any part of the bytes.  The checks of paths, file types and locks are left out.
-/
namespace Iteron.Dag

open TaskDag

def newline : UInt8 := 10

def storeVersion : Nat := 1

def maxLogLineBytes : Nat := 262144

def maxLogBytes : Nat := 67108864

inductive StoredLine where
  | genesis (version : Nat) (config : Config) (configDigest : String)
  | command (entry : LogEntry)

/-- `serde_json::to_vec` and `from_slice` of stored lines. -/
structure Codec where
  encode : StoredLine → List UInt8
  decode : List UInt8 → Except String StoredLine

/-- What serialization promises of a line: it reads back, on one nonempty line of text. -/
structure Codec.Carries (C : Codec) (line : StoredLine) : Prop where
  roundTrip : C.decode (C.encode line) = .ok line
  oneLine : newline ∉ C.encode line
  nonempty : C.encode line ≠ []

def completePrefixLen (bytes : List UInt8) : Nat :=
  if bytes.getLast? = some newline then bytes.length
  else match bytes.reverse.findIdx? (fun byte => byte == newline) with
    | none => 0
    | some back => bytes.length - 1 - back + 1

def encodeLine (C : Codec) (line : StoredLine) : Except DagError (List UInt8) :=
  let encoded := C.encode line ++ [newline]
  if encoded.length > maxLogLineBytes then .error (.capacity "log line") else .ok encoded

inductive Append where
  | synced
  | failed (written : Nat) (reason : String)

structure TaskDagStore where
  file : List UInt8
  dag : TaskDag
  bytes : Nat
  recoveredTornBytes : Nat
  poisoned : Option String

namespace TaskDagStore

def genesis (H : Digests) (config : Config) : StoredLine := .genesis storeVersion config (H.config config)

def checkGenesis (C : Codec) (H : Digests) (config : Config) (head : String) (first : List UInt8) :
    Except DagError Unit :=
  if first.length > maxLogLineBytes then .error (.corrupt "genesis line exceeds its byte ceiling")
  else match C.decode first with
    | .error reason => .error (.serialization reason)
    | .ok (.command _) => .error (.corrupt "first record is not genesis")
    | .ok (.genesis version stored digest) =>
      if version ≠ storeVersion then .error (.corrupt ("unsupported store version " ++ toString version))
      else if stored ≠ config then .error (.corrupt "requested config differs from immutable genesis")
      else if H.config stored ≠ digest ∨ digest ≠ head then .error (.corrupt "genesis digest mismatch")
      else .ok ()

def replayLines (C : Codec) (H : Digests) : TaskDag → List (List UInt8) → Option (Except DagError TaskDag)
  | d, [] => some (.ok d)
  | d, raw :: lines =>
    if raw.length > maxLogLineBytes then some (.error (.corrupt "command line exceeds its byte ceiling"))
    else match C.decode raw with
      | .error reason => some (.error (.serialization reason))
      | .ok (.genesis ..) => some (.error (.corrupt "duplicate genesis record"))
      | .ok (.command entry) =>
        match d.replay H entry with
        | none => none
        | some (.error e) => some (.error e)
        | some (.ok d') => replayLines C H d' lines

/-- Open the log whose file holds `bytes`. -/
def openInner (C : Codec) (H : Digests) (config : Config) (bytes : List UInt8) :
    Option (Except DagError TaskDagStore) :=
  if bytes.length > maxLogBytes then
    some (.error (.corrupt ("log is " ++ toString bytes.length ++ " bytes, over the " ++ toString maxLogBytes ++
      "-byte ceiling")))
  else
    let retained := completePrefixLen bytes
    if bytes ≠ [] ∧ retained = 0 then some (.error (.corrupt "log has no durable newline-terminated genesis"))
    else match TaskDag.new H config with
      | .error e => some (.error e)
      | .ok dag =>
        if bytes = [] then
          match encodeLine C (genesis H config) with
          | .error e => some (.error e)
          | .ok encoded => some (.ok
            { file := encoded, dag := dag, bytes := encoded.length, recoveredTornBytes := 0, poisoned := none })
        else
          match ((bytes.take retained).splitOn newline).filter (fun line => !line.isEmpty) with
          | [] => some (.error (.corrupt "log has no genesis"))
          | first :: lines =>
            match checkGenesis C H config dag.headDigest first with
            | .error e => some (.error e)
            | .ok () =>
              match replayLines C H dag lines with
              | none => none
              | some (.error e) => some (.error e)
              | some (.ok dag) => some (.ok
                { file := bytes.take retained, dag := dag, bytes := retained,
                  recoveredTornBytes := bytes.length - retained, poisoned := none })

/-- The configuration is validated before the file is touched. -/
def openStore (C : Codec) (H : Digests) (config : Config) (bytes : List UInt8) : Option (Except DagError TaskDagStore) :=
  match config.validate with
  | .error reason => some (.error (.invalidConfig reason))
  | .ok () => openInner C H config bytes

/-- A failed append leaves what was written and poisons the store. -/
def poison (s : TaskDagStore) (encoded : List UInt8) (written : Nat) (reason : String) : TaskDagStore :=
  { s with file := s.file ++ encoded.take written, poisoned := some reason }

def submit (C : Codec) (H : Digests) (s : TaskDagStore) (commandId : Nat) (command : Command) (append : Append) :
    Option (TaskDagStore × Except DagError ApplyReceipt) :=
  match s.poisoned with
  | some reason => some (s, .error (.poisoned reason))
  | none =>
    match s.dag.prepare H commandId command with
    | .error e => some (s, .error e)
    | .ok (.replay receipt) => some (s, .ok receipt)
    | .ok (.new entry) =>
      match encodeLine C (.command entry) with
      | .error e => some (s, .error e)
      | .ok encoded =>
        if s.bytes + encoded.length > maxLogBytes then some (s, .error (.capacity "log bytes"))
        else match append with
          | .failed written reason => some (s.poison encoded written reason, .error (.durabilityUnknown reason))
          | .synced =>
            (s.dag.commit entry).map (fun dag =>
              ({ s with file := s.file ++ encoded, dag := dag, bytes := s.bytes + encoded.length },
                .ok { sequence := entry.sequence, replayed := false }))

/-- Prepare and apply a batch on a clone: the staged graph, the lines to append and the receipts. -/
def stage (C : Codec) (H : Digests) : TaskDag → List (Nat × Command) →
    Option (Except DagError (TaskDag × List UInt8 × List ApplyReceipt))
  | d, [] => some (.ok (d, [], []))
  | d, (commandId, command) :: rest =>
    match d.prepare H commandId command with
    | .error e => some (.error e)
    | .ok (.replay receipt) =>
      (stage C H d rest).map (fun r => r.map (fun p => (p.1, p.2.1, receipt :: p.2.2)))
    | .ok (.new entry) =>
      match encodeLine C (.command entry) with
      | .error e => some (.error e)
      | .ok line =>
        match d.commit entry with
        | none => none
        | some d' =>
          (stage C H d' rest).map (fun r => r.map (fun p =>
            (p.1, line ++ p.2.1, { sequence := entry.sequence, replayed := false } :: p.2.2)))

def submitBatch (C : Codec) (H : Digests) (s : TaskDagStore) (commands : List (Nat × Command)) (append : Append) :
    Option (TaskDagStore × Except DagError (List ApplyReceipt)) :=
  if commands = [] ∨ commands.length > 16 then
    some (s, .error (.invalid "command batch must contain 1..=16 entries"))
  else match s.poisoned with
    | some reason => some (s, .error (.poisoned reason))
    | none =>
      match stage C H s.dag commands with
      | none => none
      | some (.error e) => some (s, .error e)
      | some (.ok (staged, encoded, receipts)) =>
        if encoded = [] then some (s, .ok receipts)
        else if s.bytes + encoded.length > maxLogBytes then some (s, .error (.capacity "log bytes"))
        else match append with
          | .failed written reason => some (s.poison encoded written reason, .error (.durabilityUnknown reason))
          | .synced => some ({ s with file := s.file ++ encoded, dag := staged, bytes := s.bytes + encoded.length },
              .ok receipts)

end TaskDagStore
end Iteron.Dag
