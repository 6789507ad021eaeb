import Iteron.SessionReplay
/-!
# SessionFork — taking a fork

A fork copies no lines.  It reads the parent once, projects the history up to the fork point, and starts the child with a
genesis that names the parent and pins its hash, followed by snapshots of what the history has in effect: the tunables
and policy checkpoints, the ceilings, effort, permissions and model.
-/
namespace Iteron.Session

open Refuse

/-! ## Appending -/

def JournalFile.chain (file : JournalFile) : List ChainLine := file.lines.filterMap Line.content

def JournalFile.lastHash (file : JournalFile) : String := (file.chain.getLast?.map ChainLine.hash).getD zeroHash

def isPolicyBundle : EventKind → Bool
  | .policyBundleSnapshot .. => true
  | _ => false

/-- The line an event becomes: redacted, stamped with its place and chained to the line before. -/
def chainLine (E : Env) (tenant : String) (file : JournalFile) (event : Event) : ChainLine :=
  let stamped := { event with seq := file.chain.length, kind := E.redactKind event.kind }
  { seq := file.chain.length, tenant := tenant, prev := file.lastHash,
    hash := E.hashLine file.lastHash file.chain.length stamped, payload := stamped }

/-- `Rollout::append` to a rollout that was just opened. -/
def append (E : Env) (tenant : String) (file : JournalFile) (event : Event) : Except RecordError JournalFile := do
  refuseIf (file.chain.length ≥ maxRolloutEvents) .tooManyEvents
  refuseIf (file.lines.length ≥ maxRolloutPhysicalLines) .tooManyRecordLines
  refuseIf (isPolicyBundle event.kind = true ∧ file.chain.length ≠ 2)
    (.genesisOrder "policy checkpoint must be physical sequence two")
  E.writable event
  let line := chainLine E tenant file event
  E.writable line.payload
  refuseIf (E.lineBytes line > maxRecordLineBytes) (.recordLineTooLarge (E.lineBytes line))
  refuseIf (file.length + E.lineBytes line > maxRolloutBytes) (.rolloutTooLarge (file.length + E.lineBytes line))
  return { lines := file.lines ++ [{ bytes := E.lineBytes line, content := some line }] }

/-! ## The child's first events -/

/-- The first line of a run as a start, or an empty one where it is something else. -/
def startOf (lines : List ReadLine) : RunStart :=
  match lines.head?.map ReadLine.kind with
  | some (.runStart start) => start
  | _ =>
    { cwd := "", model := "", effort := .medium, createdAt := 0, environment := none, parentRun := none,
      forkedAt := none, parentHashAtSeq := none, configDigest := "", agentDefinitionTag := none, maxUsd := none }

def environment? : EventKind → Option DurableEnvironmentContext
  | .runStart start => start.environment
  | _ => none

def selection? : EventKind → Option ModelSelection
  | .modelSelected selection => some selection
  | _ => none

def inheritedSelection (history : List Event) : Option ModelSelection :=
  (history.filterMap (fun e => selection? e.kind)).getLast?

def genesisStart (E : Env) (parent : String) (at_ createdAt : Nat) (lines : List ReadLine) (pinned : String)
    (history : List Event) : RunStart :=
  { cwd := (startOf lines).cwd
    model := ((inheritedSelection history).map ModelSelection.modelId).getD (startOf lines).model
    effort := (RuntimePolicyState.fromEvents history).effort
    createdAt := createdAt
    environment := (startOf lines).environment.or (history.reverse.findSome? (fun e => environment? e.kind))
    parentRun := some parent
    forkedAt := some at_
    parentHashAtSeq := some pinned
    configDigest := (startOf lines).configDigest
    agentDefinitionTag := (startOf lines).agentDefinitionTag
    maxUsd := (ceiling E.legacyUsdToMicrousdFloor history).map E.microusdToUsd }

def tunablesKind (parent : String) (lines : List ReadLine) : Option EventKind :=
  (genesisTunablesEvent lines).map (fun p => .tunablesSnapshot p.1 (some
    { parentRun := parent, parentDigestSha256 := p.1.digestSha256 }))

def policyBundleKind (parent : String) (lines : List ReadLine) : Option EventKind :=
  (genesisPolicyBundleEvent lines).map (fun p => .policyBundleSnapshot p.1 (some
    { parentRun := parent, parentDigestSha256 := p.1.digestSha256 }))

def forkKinds (E : Env) (parent : String) (at_ createdAt : Nat) (lines : List ReadLine) (pinned : String)
    (history : List Event) : List EventKind :=
  let policy := RuntimePolicyState.fromEvents history
  [EventKind.runStart (genesisStart E parent at_ createdAt lines pinned history)] ++
    (tunablesKind parent lines).toList ++ (policyBundleKind parent lines).toList ++
    ((ceiling E.legacyUsdToMicrousdFloor history).map (fun value => EventKind.usdCeilingChanged .fork value)).toList ++
    (policy.turnCeiling.map (fun value => EventKind.turnCeilingChanged .fork value)).toList ++
    [EventKind.effortChanged .fork policy.effort, .policyChanged .fork policy.permissionMode policy.permissionRules] ++
    ((inheritedSelection history).map .modelSelected).toList

/-- `append_genesis_checkpoint` first checks the two lines it writes as one batch. -/
def checkGenesis (E : Env) (file : JournalFile) (start : EventKind) (tunables : Option EventKind) :
    Except RecordError Unit :=
  match tunables with
  | none => .ok ()
  | some kind => do
    refuseIf (file.chain ≠ []) (.genesisOrder "genesis append requires an empty rollout and run_start")
    let state ← GenesisTunablesState.observe E {} 0 start
    let _ ← state.observe E 1 kind
    return ()

/-- `fork`, with the id the child was given and the time. -/
def fork (E : Env) (s : Store) (parent : String) (at_ : Nat) (tenant child : String) (createdAt : Nat) :
    Except RecordError Store := do
  validateRunId parent
  let (lines, budget) ← readChain E s parent {}
  ensureTenant tenant ((lines.head?.map ReadLine.tenant).getD tenant) 0
  match lines.find? (fun l => l.seq = at_) with
  | none => .error (.io ("cannot fork " ++ parent ++ " at seq " ++ toString at_ ++ ": beyond the parent tail"))
  | some pinned => do
    let logicalPrefix ← expandScopedFrom E s maxForkDepth parent (some at_) budget (some lines)
    let history := logicalPrefix.map ScopedEvent.event
    refuseIf (∃ usd ∈ legacyUsds history, E.usdValid usd = false)
      (.io "fork history contains an invalid max_usd ceiling")
    validateRunId child
    let file : JournalFile := { (s[child]?).getD {} with torn := 0 }
    checkGenesis E file (.runStart (genesisStart E parent at_ createdAt lines pinned.hash history))
      (tunablesKind parent lines)
    let file ← ((forkKinds E parent at_ createdAt lines pinned.hash history).map
      (fun kind => { seq := 0, turn := 0, kind := kind })).foldlM (append E tenant) file
    return s.insert child file

end Iteron.Session
