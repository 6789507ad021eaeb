import Iteron.SessionEvents
import Iteron.Table
/-!
# SessionReplay — verified reads of a run and of what it was forked from

A journal is read line by line against its hash chain, and every read of one load is charged to one budget.  A fork
holds no lines of its parent: a load reads the parent up to the fork point first, and the parent of that before it.
Serialization and private content are left out: a line holds the event it encodes, and `readable` says whether it can
still be read.
-/
namespace Iteron.Session

open Refuse

inductive RecordError where
  | invalidRunId (reason : String)
  | io (message : String)
  | recordLineTooLarge (bytes : Nat)
  | rolloutTooLarge (bytes : Nat)
  | tooManyRecordLines
  | tooManyEvents
  | sequenceBroken (expected found : Nat)
  | tenantMismatch (seq : Nat) (expected found : String)
  | chainBroken (seq : Nat) (stored computed : String)
  | forkParentMismatch (parent : String) (forkedAt : Nat) (pinned actual : String)
  | genesisOrder (reason : String)
  | invalidSnapshot
  | refused (reason : String)
  deriving DecidableEq

def maxRecordLineBytes : Nat := 8388608

def maxRolloutBytes : Nat := 67108864

def maxRolloutEvents : Nat := 100000

def maxRolloutPhysicalLines : Nat := maxRolloutEvents + 1024

def maxForkDepth : Nat := 256

/-! ## Run ids -/

def deviceNumber (stem : List Char) (name : String) : Bool :=
  name.toList.isPrefixOf stem && (match stem.drop 3 with
    | [c] => decide ('1' ≤ c) && decide (c ≤ '9')
    | _ => false)

def reservedDevice (id : String) : Bool :=
  let stem := (id.toList.takeWhile (fun c => c ≠ '.')).map Char.toUpper
  [("CON").toList, ("PRN").toList, ("AUX").toList, ("NUL").toList].contains stem ||
    deviceNumber stem "COM" || deviceNumber stem "LPT"

/-- The check that the id is one normal path component never fires after these. -/
def validateRunId (id : String) : Except RecordError Unit := do
  refuseIf (id.isEmpty = true) (.invalidRunId "must not be empty")
  refuseIf (id.utf8ByteSize > 200) (.invalidRunId "is too long")
  refuseIf (id.toList.any Text.isControl = true) (.invalidRunId "must not contain control characters")
  refuseIf (id.toList.any (fun c => ['/', '\\', ':', '*', '?', '"', '<', '>', '|'].contains c) = true)
    (.invalidRunId "must be one portable filename component")
  refuseIf (id.toList.getLast? = some '.' ∨ id.toList.getLast? = some ' ') (.invalidRunId "must not end in a dot or space")
  refuseIf (reservedDevice id = true) (.invalidRunId "is a reserved device name")

/-! ## Journals -/

structure ChainLine where
  seq : Nat
  tenant : String
  prev : String
  hash : String
  payload : Event

/-- A complete physical line; a blank one has no content. -/
structure Line where
  bytes : Nat
  content : Option ChainLine

structure JournalFile where
  lines : List Line := []
  torn : Nat := 0

def JournalFile.length (file : JournalFile) : Nat := (file.lines.map Line.bytes).sum + file.torn

abbrev Store := Std.ExtTreeMap String JournalFile compare

/-- What the rest of the program computes: redaction, hashes, sizes, the bounds of events and floating point ceilings. -/
structure Env extends Redactor where
  hashLine : String → Nat → Event → String
  lineBytes : ChainLine → Nat
  readable : String → Event → Except RecordError Unit
  writable : Event → Except RecordError Unit
  validCheckpoint : TunablesCheckpoint → Bool
  usdValid : F64 → Bool
  legacyUsdToMicrousdFloor : F64 → Nat
  microusdToUsd : Nat → F64

def zeroHash : String := .ofList (List.replicate 64 '0')

/-! ## Genesis -/

structure GenesisTunablesState where
  rootParent : Option (Option String) := none
  checkpoint : Option TunablesCheckpoint := none

def isSha256 (value : String) : Bool := decide (value.toList.length = 64) && value.toList.all isHexDigit

def rootParentOf : EventKind → Option (Option String)
  | .runStart start =>
    match start.parentRun, start.forkedAt, start.parentHashAtSeq with
    | none, none, none => some none
    | some parent, some _, some hash =>
      if (validateRunId parent).toBool && isSha256 hash then some (some parent) else none
    | _, _, _ => none
  | _ => none

def validateInheritance (parent : Option String) (inherited : Option Inheritance) (checkpoint : TunablesCheckpoint) :
    Except RecordError Unit :=
  match parent, inherited with
  | none, none => .ok ()
  | none, some i =>
    if (validateRunId i.parentRun).toBool ∧ i.parentDigestSha256 = checkpoint.digestSha256 then .ok ()
    else .error (.genesisOrder "spawned child snapshot parent or digest binding is invalid")
  | some p, some i =>
    if i.parentRun = p ∧ i.parentDigestSha256 = checkpoint.digestSha256 then .ok ()
    else .error (.genesisOrder "fork snapshot parent or digest binding mismatches run_start")
  | some _, none => .error (.genesisOrder "fork snapshot omits parent snapshot binding")

def GenesisTunablesState.observe (E : Env) (state : GenesisTunablesState) (seq : Nat) (kind : EventKind) :
    Except RecordError GenesisTunablesState :=
  let state := if seq = 0 then { state with rootParent := rootParentOf kind } else state
  match kind with
  | .tunablesSnapshot checkpoint inheritedFrom => do
    refuseIf (seq ≠ 1 ∨ state.checkpoint.isSome = true) (.genesisOrder "snapshot is late or duplicated")
    match state.rootParent with
    | none => .error (.genesisOrder "physical seq 0 is not run_start")
    | some parent => do
      refuseIf (E.validCheckpoint checkpoint = false) .invalidSnapshot
      validateInheritance parent inheritedFrom checkpoint
      return { state with checkpoint := some checkpoint }
  | _ => .ok state

/-! ## Reading -/

structure Budget where
  bytes : Nat := 0
  physicalLines : Nat := 0
  events : Nat := 0
  expandedRuns : List String := []

structure ReadLine where
  seq : Nat
  tenant : String
  hash : String
  event : Event

def ReadLine.kind (line : ReadLine) : EventKind := line.event.kind

def ChainLine.read (cl : ChainLine) : ReadLine :=
  { seq := cl.seq, tenant := cl.tenant, hash := cl.hash, event := cl.payload }

structure Scan where
  lines : List ReadLine := []
  prev : String := zeroHash
  tenant : Option String := none
  genesis : GenesisTunablesState := {}

def ensureTenant (expected found : String) (seq : Nat) : Except RecordError Unit :=
  refuseIf (expected ≠ found) (.tenantMismatch seq expected found)

def chargeBytes (budget : Budget) (bytes : Nat) : Except RecordError Budget := do
  refuseIf (budget.bytes + bytes > maxRolloutBytes) (.rolloutTooLarge (budget.bytes + bytes))
  return { budget with bytes := budget.bytes + bytes }

def chargeLine (budget : Budget) (line : Line) : Except RecordError Budget := do
  refuseIf (line.bytes > maxRecordLineBytes) (.recordLineTooLarge line.bytes)
  let budget ← chargeBytes budget line.bytes
  refuseIf (budget.physicalLines + 1 > maxRolloutPhysicalLines) .tooManyRecordLines
  return { budget with physicalLines := budget.physicalLines + 1 }

def chargeEvent (budget : Budget) : Except RecordError Budget := do
  refuseIf (budget.events + 1 > maxRolloutEvents) .tooManyEvents
  return { budget with events := budget.events + 1 }

def verifyLine (E : Env) (scan : Scan) (cl : ChainLine) : Except RecordError Scan := do
  refuseIf (scan.lines.length + 1 > maxRolloutEvents) .tooManyEvents
  refuseIf (cl.seq ≠ scan.lines.length) (.sequenceBroken scan.lines.length cl.seq)
  ensureTenant (scan.tenant.getD cl.tenant) cl.tenant cl.seq
  refuseIf (E.hashLine cl.prev cl.seq cl.payload ≠ cl.hash ∨ cl.prev ≠ scan.prev)
    (.chainBroken cl.seq cl.hash (E.hashLine cl.prev cl.seq cl.payload))
  E.readable cl.tenant cl.payload
  let genesis ← scan.genesis.observe E cl.seq cl.payload.kind
  return { lines := scan.lines ++ [cl.read], prev := cl.hash, tenant := scan.tenant.or (some cl.tenant), genesis }

def visitLine (E : Env) (st : Scan × Budget) (line : Line) : Except RecordError (Scan × Budget) := do
  let budget ← chargeLine st.2 line
  match line.content with
  | none => return (st.1, budget)
  | some cl => do
    let budget ← chargeEvent budget
    let scan ← verifyLine E st.1 cl
    return (scan, budget)

/-- `read_chain_budgeted`. -/
def readChain (E : Env) (s : Store) (run : String) (budget : Budget) : Except RecordError (List ReadLine × Budget) :=
  match s[run]? with
  | none => .error (.io "not found")
  | some file => do
    refuseIf (budget.bytes + file.length > maxRolloutBytes) (.rolloutTooLarge (budget.bytes + file.length))
    let (scan, budget) ← file.lines.foldlM (visitLine E) ({}, budget)
    refuseIf (file.torn > maxRecordLineBytes) (.recordLineTooLarge file.torn)
    let budget ← chargeBytes budget file.torn
    return (scan.lines, budget)

/-! ## Forks -/

structure ScopedEvent where
  event : Event
  tenant : String
  runId : String

/-- What a forked run's first line says of its parent. -/
structure Edge where
  parent : String
  forkedAt : Nat
  parentHash : String

def edgeOf (lines : List ReadLine) : Option Edge :=
  match lines.head?.map ReadLine.kind with
  | some (.runStart start) => do
    let parent ← start.parentRun
    let forkedAt ← start.forkedAt
    let parentHash ← start.parentHashAtSeq
    return { parent := parent, forkedAt := forkedAt, parentHash := parentHash }
  | _ => none

def genesisTunablesEvent (lines : List ReadLine) : Option (TunablesCheckpoint × Option Inheritance) :=
  match (lines[1]?).map ReadLine.kind with
  | some (.tunablesSnapshot checkpoint inheritedFrom) => some (checkpoint, inheritedFrom)
  | _ => none

def genesisPolicyBundleEvent (lines : List ReadLine) : Option (Snapshot × Option Inheritance) :=
  match (lines[2]?).map ReadLine.kind with
  | some (.policyBundleSnapshot snapshot inheritedFrom) => some (snapshot, inheritedFrom)
  | _ => none

/-- A fork copies its parent's snapshot and names it, or neither has one. -/
def inherits {α : Type} [DecidableEq α] (digest : α → String) (parent : String) (child parentOwn : Option (α × Option Inheritance)) :
    Bool :=
  match child, parentOwn with
  | none, none => true
  | some (c, some binding), some (p, _) =>
    decide (binding.parentRun = parent ∧ binding.parentDigestSha256 = digest p ∧ c = p)
  | _, _ => false

def ensureCanExpand (budget : Budget) (run : String) : Except RecordError Unit :=
  refuseIf (run ∈ budget.expandedRuns) (.io ("cyclic fork chain repeats run " ++ run))

def beginExpand (budget : Budget) (run : String) : Except RecordError Budget := do
  ensureCanExpand budget run
  return { budget with expandedRuns := run :: budget.expandedRuns }

/-- The lines to expand: those handed in, or a read of the run. -/
def openLines (E : Env) (s : Store) (run : String) (budget : Budget) (preloaded : Option (List ReadLine)) :
    Except RecordError (List ReadLine × Budget) := do
  validateRunId run
  let budget ← beginExpand budget run
  match preloaded with
  | some lines => return (lines, budget)
  | none => readChain E s run budget

/-- Read the parent and check that it is the one the fork was taken from. -/
def parentLines (E : Env) (s : Store) (lines : List ReadLine) (edge : Edge) (budget : Budget) :
    Except RecordError (List ReadLine × Budget) := do
  ensureCanExpand budget edge.parent
  validateRunId edge.parent
  let (parent, budget) ← readChain E s edge.parent budget
  ensureTenant ((lines.head?.map ReadLine.tenant).getD "") ((parent.head?.map ReadLine.tenant).getD
    ((lines.head?.map ReadLine.tenant).getD "")) 0
  refuseIf (inherits TunablesCheckpoint.digestSha256 edge.parent (genesisTunablesEvent lines)
    (genesisTunablesEvent parent) = false)
    (.genesisOrder "fork tunables inheritance does not match the actual parent seq-1 snapshot")
  refuseIf (inherits Snapshot.digestSha256 edge.parent (genesisPolicyBundleEvent lines)
    (genesisPolicyBundleEvent parent) = false)
    (.genesisOrder "fork policy checkpoint inheritance does not match the parent genesis receipt")
  match parent.find? (fun l => l.seq = edge.forkedAt) with
  | none => .error (.io ("parent " ++ edge.parent ++ " has no seq " ++ toString edge.forkedAt))
  | some pinned => do
    refuseIf (pinned.hash ≠ edge.parentHash)
      (.forkParentMismatch edge.parent edge.forkedAt edge.parentHash pinned.hash)
    return (parent, budget)

def ownEvents (run : String) (upto : Option Nat) (lines : List ReadLine) : List ScopedEvent :=
  (lines.filter (fun l => upto.all (fun u => l.seq ≤ u))).map
    (fun l => { event := l.event, tenant := l.tenant, runId := run })

/-- `expand_scoped_from`; the first argument is how many more parents may be followed. -/
def expandScopedFrom (E : Env) (s : Store) :
    Nat → String → Option Nat → Budget → Option (List ReadLine) → Except RecordError (List ScopedEvent)
  | 0, run, upto, budget, preloaded => do
    let (lines, _) ← openLines E s run budget preloaded
    match edgeOf lines with
    | none => return ownEvents run upto lines
    | some _ => .error (.io ("fork chain for " ++ run ++ " exceeds max depth 256 (cyclic parent?)"))
  | remaining + 1, run, upto, budget, preloaded => do
    let (lines, budget) ← openLines E s run budget preloaded
    match edgeOf lines with
    | none => return ownEvents run upto lines
    | some edge => do
      let (parent, budget) ← parentLines E s lines edge budget
      let inherited ← expandScopedFrom E s remaining edge.parent (some edge.forkedAt) budget (some parent)
      return inherited ++ ownEvents run upto lines

def loadForkedScoped (E : Env) (s : Store) (run : String) : Except RecordError (List ScopedEvent) :=
  expandScopedFrom E s maxForkDepth run none {} none

def loadForked (E : Env) (s : Store) (run : String) : Except RecordError (List Event) :=
  (loadForkedScoped E s run).map (fun events => events.map ScopedEvent.event)

end Iteron.Session
