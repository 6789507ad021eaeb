import Iteron.Machine
import Iteron.Table
import Iteron.Text
/-!
# DagTypes — the task graph's data

Identities are the source's `u64`s, text limits are in UTF-8 bytes, and every ceiling a profile may tune stands at its
compiled value.  Budgets keep the `u32` of their turns; sums of the other amounts are checked against `u64`.
-/
namespace Iteron.Dag

open Machine Text

abbrev TaskId := Nat
abbrev AttemptId := Nat
abbrev MessageId := Nat
abbrev JoinId := Nat

inductive Actor where
  | controller
  | task (id : TaskId)
  deriving DecidableEq

inductive DagError where
  | invalidConfig (reason : String)
  | eventLimit
  | invalidCommandId
  | commandConflict (id : Nat)
  | unknownTask (id : TaskId)
  | duplicateTask (id : TaskId)
  | duplicateMessage (id : MessageId)
  | unknownMessage (id : MessageId)
  | duplicateJoin (id : JoinId)
  | capacity (kind : String)
  | authority (reason : String)
  | invalid (reason : String)
  | transition (task : TaskId) (reason : String)
  | budget (reason : String)
  | corrupt (reason : String)
  | serialization (reason : String)
  | durabilityUnknown (reason : String)
  | poisoned (reason : String)
  deriving DecidableEq

def DagError.display : DagError → String
  | .invalidConfig reason => "invalid task-DAG configuration: " ++ reason
  | .eventLimit => "task-DAG event limit reached"
  | .invalidCommandId => "command id must be non-zero"
  | .commandConflict id => "command id " ++ toString id ++ " was already used for a different command"
  | .unknownTask id => "task " ++ toString id ++ " does not exist"
  | .duplicateTask id => "task " ++ toString id ++ " already exists"
  | .duplicateMessage id => "message " ++ toString id ++ " already exists"
  | .unknownMessage id => "message " ++ toString id ++ " does not exist"
  | .duplicateJoin id => "join " ++ toString id ++ " already exists"
  | .capacity kind => "task-DAG " ++ kind ++ " limit reached"
  | .authority reason => "task-DAG authority refused command: " ++ reason
  | .invalid reason => "invalid task-DAG command: " ++ reason
  | .transition task reason => "invalid transition for task " ++ toString task ++ ": " ++ reason
  | .budget reason => "budget admission refused: " ++ reason
  | .corrupt reason => "task-DAG replay is corrupt: " ++ reason
  | .serialization reason => "task-DAG serialization failed: " ++ reason
  | .durabilityUnknown reason => "task-DAG append crossed dispatch but durability is unknown: " ++ reason
  | .poisoned reason => "task-DAG store is poisoned after a durability failure: " ++ reason

structure Limits where
  maxTasks : Nat := 256
  maxEdges : Nat := 2048
  maxMessages : Nat := 4096
  maxJoins : Nat := 256
  maxEvents : Nat := 32768
  maxDependencyDepth : Nat := 32
  maxHierarchyDepth : Nat := 16
  deriving DecidableEq

def validateLimit (value hard : Nat) (name : String) : Except String Unit :=
  if value = 0 then .error (name ++ " limit must be non-zero")
  else if value > hard then .error (name ++ " limit exceeds the hard ceiling")
  else .ok ()

def Limits.validate (l : Limits) : Except String Unit := do
  validateLimit l.maxTasks 1024 "task"
  validateLimit l.maxEdges 4096 "edge"
  validateLimit l.maxMessages 8192 "message"
  validateLimit l.maxJoins 512 "join"
  validateLimit l.maxEvents 65536 "event"
  validateLimit l.maxDependencyDepth 64 "dependency-depth"
  validateLimit l.maxHierarchyDepth 64 "hierarchy-depth"

structure BudgetUsage where
  turns : Nat := 0
  tokens : Nat := 0
  costMicrousd : Nat := 0
  wallMs : Nat := 0
  deriving DecidableEq

structure BudgetReservation where
  turns : Nat := 0
  tokens : Nat := 0
  costMicrousd : Nat := 0

def BudgetUsage.checkedAdd (u v : BudgetUsage) : Option BudgetUsage := do
  let turns ← Machine.checkedAdd u.turns v.turns
  let tokens ← Machine.checkedAdd u.tokens v.tokens
  let costMicrousd ← Machine.checkedAdd u.costMicrousd v.costMicrousd
  let wallMs ← Machine.checkedAdd u.wallMs v.wallMs
  return { turns, tokens, costMicrousd, wallMs }

def BudgetReservation.checkedAdd (u v : BudgetReservation) : Option BudgetReservation := do
  let turns ← Machine.checkedAdd u.turns v.turns
  let tokens ← Machine.checkedAdd u.tokens v.tokens
  let costMicrousd ← Machine.checkedAdd u.costMicrousd v.costMicrousd
  return { turns, tokens, costMicrousd }

structure TaskBudget where
  maxTurns : UInt32
  maxTokens : Nat
  maxCostMicrousd : Nat
  maxWallMs : Nat
  deriving DecidableEq

def TaskBudget.validate (b : TaskBudget) : Except String Unit :=
  if b.maxTurns.toNat > 1000000 then .error "turn budget exceeds the hard ceiling"
  else if b.maxTokens > 100000000000 then .error "token budget exceeds the hard ceiling"
  else if b.maxCostMicrousd > 100000000000000 then .error "cost budget exceeds the hard ceiling"
  else if b.maxWallMs > 2592000000 then .error "wall-clock budget exceeds the hard ceiling"
  else .ok ()

def TaskBudget.reservable (b : TaskBudget) : BudgetReservation :=
  { turns := b.maxTurns.toNat, tokens := b.maxTokens, costMicrousd := b.maxCostMicrousd }

def tryFromU32 (n : Nat) : Option UInt32 := if n < 4294967296 then some (.ofNat n) else none

def TaskBudget.remaining (b : TaskBudget) (usage : BudgetUsage) (reserved : BudgetReservation) : Option TaskBudget := do
  let turns ← checkedSub (← checkedSub b.maxTurns.toNat usage.turns) reserved.turns
  let maxTurns ← tryFromU32 turns
  let maxTokens ← checkedSub (← checkedSub b.maxTokens usage.tokens) reserved.tokens
  let maxCostMicrousd ← checkedSub (← checkedSub b.maxCostMicrousd usage.costMicrousd) reserved.costMicrousd
  let maxWallMs ← checkedSub b.maxWallMs usage.wallMs
  return { maxTurns, maxTokens, maxCostMicrousd, maxWallMs }

structure TaskSpec where
  id : TaskId
  declarationIndex : Option UInt32
  parent : Option TaskId
  dependencies : List TaskId
  label : String
  budget : TaskBudget
  deriving DecidableEq

inductive TaskState where
  | blocked
  | ready
  | running
  | cancelling (reason : String)
  | succeeded (resultDigest : String)
  | failed (code detail : String)
  | cancelled (reason : String)
  | skippedDependency (dependency : TaskId)
  deriving DecidableEq

def TaskState.isTerminal : TaskState → Bool
  | .succeeded _ | .failed .. | .cancelled _ | .skippedDependency _ => true
  | _ => false

def TaskState.isSucceeded : TaskState → Bool
  | .succeeded _ => true
  | _ => false

structure Task where
  spec : TaskSpec
  state : TaskState
  usage : BudgetUsage
  hierarchyDepth : Nat
  dependencyDepth : Nat
  inbox : List MessageId
  childReservations : BudgetReservation

inductive AttemptAssignment where
  | initial
  | retrySame
  | reassigned
  deriving DecidableEq

inductive AttemptRetryCause where
  | negativeTerminal
  | childFailure
  | schemaValidation
  deriving DecidableEq

inductive AttemptDisposition where
  | sole
  | winner
  | loser
  | negative
  | unknownEffect
  deriving DecidableEq

inductive AttemptCompletion where
  | succeeded
  | failed
  | cancelled
  | unknownEffect
  deriving DecidableEq

structure AttemptSpec where
  id : AttemptId
  task : TaskId
  retryOrdinal : UInt32
  siblingOrdinal : UInt32
  lineageVersion : Nat
  retryOf : Option AttemptId
  assignment : AttemptAssignment
  retryCause : Option AttemptRetryCause
  priorEvidenceDigest : Option String
  inputDigest : String
  deriving DecidableEq

inductive AttemptState where
  | registered
  | running
  | succeeded (resultDigest : String) (disposition : AttemptDisposition)
  | failed (code detail : String) (disposition : AttemptDisposition)
  | cancelled (reason : String) (disposition : AttemptDisposition)
  | unknownEffect (reason : String)
  deriving DecidableEq

def AttemptState.isTerminal : AttemptState → Bool
  | .registered | .running => false
  | _ => true

structure Attempt where
  spec : AttemptSpec
  state : AttemptState

inductive MessageKind where
  | instruction
  | steering
  | observation
  | result
  | control
  deriving DecidableEq

inductive DeliveryState where
  | pending
  | acknowledged
  deriving DecidableEq

structure TaskMessage where
  id : MessageId
  sender : Option TaskId
  recipient : TaskId
  kind : MessageKind
  payload : String
  delivery : DeliveryState
  deriving DecidableEq

inductive JoinPolicy where
  | allTerminal
  | allSucceeded
  deriving DecidableEq

structure JoinSpec where
  id : JoinId
  owner : Option TaskId
  members : List TaskId
  policy : JoinPolicy
  deriving DecidableEq

inductive Completion where
  | succeeded
  | failed
  | cancelled
  deriving DecidableEq

inductive Command where
  | createTask (actor : Actor) (spec : TaskSpec)
  | startTask (actor : Actor) (task : TaskId)
  | registerAttempt (actor : Actor) (attempt : AttemptSpec)
  | startAttempt (actor : Actor) (attempt : AttemptId)
  | completeAttempt (actor : Actor) (attempt : AttemptId) (completion : AttemptCompletion)
      (disposition : AttemptDisposition) (resultDigest code detail : Option String)
  | chargeBudget (actor : Actor) (task : TaskId) (delta : BudgetUsage)
  | sendMessage (actor : Actor) (message : TaskMessage)
  | acknowledgeMessage (actor : Actor) (message : MessageId)
  | registerJoin (actor : Actor) (join : JoinSpec)
  | requestCancel (actor : Actor) (task : TaskId) (reason : String)
  | completeTask (actor : Actor) (task : TaskId) (completion : Completion) (resultDigest code detail : Option String)
  deriving DecidableEq

/-! ## Text -/

def validateIdentifier (value : String) (maxBytes : Nat) (name : String) : Except String Unit :=
  if value.isEmpty || decide (value.utf8ByteSize > maxBytes) then
    .error (name ++ " is empty or over its byte limit")
  else if value.toList.any (fun c => isControl c || isBidiOverride c) then
    .error (name ++ " contains terminal-control or bidi-override characters")
  else .ok ()

def validDigest (value : String) : Bool := decide (value.utf8ByteSize = 64) && (Text.bytes value).all Text.isHexByte

structure Config where
  graphId : String
  limits : Limits
  budget : TaskBudget
  deriving DecidableEq

def Config.validate (c : Config) : Except String Unit := do
  validateIdentifier c.graphId 128 "graph id"
  c.limits.validate
  c.budget.validate

/-! ## The log and the graph -/

structure CommandReceipt where
  sequence : Nat
  commandDigest : String

structure ApplyReceipt where
  sequence : Nat
  replayed : Bool

structure LogEntry where
  version : Nat
  graphId : String
  sequence : Nat
  previousDigest : String
  commandId : Nat
  commandDigest : String
  command : Command
  entryDigest : String

/-- The SHA-256 digests of canonical JSON the graph binds itself to. -/
structure Digests where
  config : Config → String
  command : Command → String
  attemptState : AttemptState → String
  /-- Over every field of the entry but `entryDigest`. -/
  entry : (version : Nat) → (graphId : String) → (sequence : Nat) → (previousDigest : String) → (commandId : Nat) →
    (commandDigest : String) → Command → String

def Digests.entryDigest (H : Digests) (e : LogEntry) : String :=
  H.entry e.version e.graphId e.sequence e.previousDigest e.commandId e.commandDigest e.command

structure TaskDag where
  config : Config
  sequence : Nat
  headDigest : String
  tasks : Std.ExtTreeMap TaskId Task
  attempts : Std.ExtTreeMap AttemptId Attempt
  messages : Std.ExtTreeMap MessageId TaskMessage
  joins : Std.ExtTreeMap JoinId JoinSpec
  commands : Std.ExtTreeMap Nat CommandReceipt
  edgeCount : Nat
  rootReservations : BudgetReservation

def TaskDag.new (H : Digests) (config : Config) : Except DagError TaskDag :=
  match config.validate with
  | .error reason => .error (.invalidConfig reason)
  | .ok () => .ok
    { config := config, sequence := 0, headDigest := H.config config, tasks := ∅, attempts := ∅, messages := ∅,
      joins := ∅, commands := ∅, edgeCount := 0, rootReservations := {} }

end Iteron.Dag
