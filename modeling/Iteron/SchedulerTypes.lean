import Iteron.DagTypes
import Iteron.Refuse
/-!
# SchedulerTypes — the live scheduler's plan and what a snapshot must satisfy

Nodes are keyed by their identity in an ordered map.  `validateSnapshot` is the check every snapshot passes before it is
published and again when it is loaded.
-/
namespace Iteron.Scheduler

open Machine Refuse Text
open Dag (BudgetUsage TaskBudget)

def portVersion : Nat := 1
def maxPlanNodes : Nat := 512
def maxPlanEdges : Nat := 2048
def maxPlanDepth : Nat := 64
def maxPlanChanges : Nat := 512
def maxPlanRevisions : Nat := 1024
def maxSchedulerEvents : Nat := 65536
def maxPlanRequests : Nat := 8192
def maxNodeTaskBytes : Nat := 16384
def maxDiagnosticBytes : Nat := 2048

structure WorkflowConfig where
  workflowId : String
  budget : TaskBudget
  maxNodes : Nat
  maxEdges : Nat
  maxConcurrency : Nat
  startedAtUnixMs : Nat
  deadlineUnixMs : Nat
  deriving DecidableEq

structure WorkflowNode where
  id : Nat
  label : String
  task : String
  dependencies : List Nat
  assignedAgent : Nat
  inputDigest : String
  budget : TaskBudget

inductive PlanChange where
  | add (node : WorkflowNode)
  | replacePending (node : WorkflowNode)
  | removePending (nodeId : Nat)
  | retry (node : WorkflowNode)

structure Replan where
  expectedRevision : Nat
  changes : List PlanChange

structure TurnLease where
  agentId : Nat
  incarnation : Nat
  turn : Nat
  deriving DecidableEq

structure ScheduledTask where
  workflowId : String
  nodeId : Nat
  attempt : Nat
  inputDigest : String
  assignedAgent : Nat
  task : String
  budget : TaskBudget
  deadlineUnixMs : Nat

inductive NodeState where
  | pending
  | dispatching (attempt deadlineUnixMs : Nat)
  | running (attempt : Nat) (lease : TurnLease) (deadlineUnixMs : Nat)
  | cancelling (attempt : Nat) (lease : TurnLease) (deadlineUnixMs : Nat)
  | succeeded (attempt : Nat) (resultDigest : String)
  | failed (attempt : Nat) (detail : String)
  | cancelled (attempt : Nat) (detail : String)
  | recoveryRequired (attempt : Nat) (lease : Option TurnLease) (reason : String)
  | removed
  deriving DecidableEq

namespace NodeState

def active : NodeState → Bool
  | .dispatching _ _ | .running _ _ _ | .cancelling _ _ _ => true
  | _ => false

def lease : NodeState → Option TurnLease
  | .running _ lease _ | .cancelling _ lease _ => some lease
  | .recoveryRequired _ lease _ => lease
  | _ => none

def attempt : NodeState → Option Nat
  | .pending | .removed => none
  | .dispatching attempt _ | .running attempt _ _ | .cancelling attempt _ _ | .succeeded attempt _ | .failed attempt _
  | .cancelled attempt _ | .recoveryRequired attempt _ _ => some attempt

def isSucceeded : NodeState → Bool
  | .succeeded _ _ => true
  | _ => false

def isRecoveryRequired : NodeState → Bool
  | .recoveryRequired _ _ _ => true
  | _ => false

end NodeState

structure NodeRecord where
  node : WorkflowNode
  state : NodeState
  admittedTask : Option ScheduledTask
  nextAttempt : Nat
  usage : BudgetUsage
  attemptUsage : BudgetUsage
  reservedBudget : BudgetUsage

structure PlanReceipt where
  version : Nat
  revision : Nat
  sequence : Nat
  replayed : Bool

structure StoredReceipt where
  digest : String
  receipt : PlanReceipt

abbrev Nodes := Std.ExtTreeMap Nat NodeRecord compare

structure Snapshot where
  version : Nat
  config : WorkflowConfig
  sequence : Nat
  revision : Nat
  nodes : Nodes
  reserved : BudgetUsage
  receipts : Std.ExtTreeMap String StoredReceipt compare

inductive Completion where
  | succeeded (resultDigest : String)
  | failed (detail : String)
  | cancelled (detail : String)

inductive StoreError where
  | unavailable
  | outcomeUnknown
  | conflict
  deriving DecidableEq

inductive DispatchError where
  | notApplied (detail : String)
  | outcomeUnknown (detail : String)

inductive Error where
  | invalid (reason : String)
  | revisionConflict (expected actual : Nat)
  | requestConflict
  | capacity (kind : String)
  | budget (reason : String)
  | unknownNode (id : Nat)
  | transition (reason : String)
  | staleLease
  | poisoned
  | store (error : StoreError)
  | serialization

def orElseError {α : Type} (x : Option α) (e : Error) : Except Error α :=
  match x with
  | some a => .ok a
  | none => .error e

def isIdentifierChar (c : Char) : Bool := c.isAlphanum || c == '.' || c == '_' || c == '-'

def identifier (value : String) : Except Error Unit :=
  refuseIf (value.isEmpty = true ∨ value.utf8ByteSize > 128 ∨ value.toList.all isIdentifierChar = false)
    (.invalid "identifier must be bounded ASCII without path/control syntax")

def digest (value : String) : Except Error Unit :=
  refuseIf (lowerHex64 value = false) (.invalid "digest must be lowercase SHA-256")

def text (value : String) (max : Nat) : Except Error Unit :=
  refuseIf (value.isEmpty = true ∨ value.utf8ByteSize > max ∨ value.toList.contains (Char.ofNat 0) = true)
    (.invalid "text must be nonempty, bounded and contain no NUL")

def budget (value : TaskBudget) : Except Error Unit := do
  value.validate.mapError .budget
  refuseIf (value.maxTurns.toNat = 0 ∨ value.maxTokens = 0 ∨ value.maxWallMs = 0)
    (.budget "turn, token and wall budgets must be finite and positive")

def validateConfig (value : WorkflowConfig) : Except Error Unit := do
  identifier value.workflowId
  budget value.budget
  refuseIf (value.maxNodes = 0 ∨ value.maxNodes > maxPlanNodes ∨ value.maxEdges = 0 ∨ value.maxEdges > maxPlanEdges ∨
      value.maxConcurrency = 0 ∨ value.maxConcurrency > 64 ∨ value.startedAtUnixMs = 0 ∨
      (checkedSub value.deadlineUnixMs value.startedAtUnixMs).all
        (fun duration => duration == 0 || decide (duration > value.budget.maxWallMs)) = true)
    (.invalid "workflow limits are outside hard bounds")

def fits (value parent : TaskBudget) : Bool :=
  decide (value.maxTurns ≤ parent.maxTurns) && decide (value.maxTokens ≤ parent.maxTokens) &&
    decide (value.maxCostMicrousd ≤ parent.maxCostMicrousd) && decide (value.maxWallMs ≤ parent.maxWallMs)

def usageFits (value : BudgetUsage) (limit : TaskBudget) : Bool :=
  decide (value.turns ≤ limit.maxTurns.toNat) && decide (value.tokens ≤ limit.maxTokens) &&
    decide (value.costMicrousd ≤ limit.maxCostMicrousd) && decide (value.wallMs ≤ limit.maxWallMs)

/-- Turns, tokens and cost add up; parallel wall-clock times do not. -/
def addReservation (current : BudgetUsage) (limit child : TaskBudget) : Except Error BudgetUsage := do
  let turns ← orElseError (checkedAdd current.turns child.maxTurns.toNat) (.budget "turn overflow")
  let tokens ← orElseError (checkedAdd current.tokens child.maxTokens) (.budget "token overflow")
  let costMicrousd ← orElseError (checkedAdd current.costMicrousd child.maxCostMicrousd) (.budget "cost overflow")
  let next : BudgetUsage := { turns, tokens, costMicrousd, wallMs := max current.wallMs child.maxWallMs }
  refuseIf (usageFits next limit = false) (.budget "aggregate attempt reservations exceed graph ceiling")
  return next

def validateLease (value : TurnLease) (agent : Nat) : Except Error Unit :=
  refuseIf (value.agentId = 0 ∨ value.agentId ≠ agent ∨ value.incarnation = 0 ∨ value.turn = 0)
    (.invalid "controller lease does not match admitted agent")

def validateNode (value : WorkflowNode) (config : WorkflowConfig) : Except Error Unit := do
  refuseIf (value.id = 0 ∨ value.assignedAgent = 0) (.invalid "node and agent ids must be nonzero")
  text value.label 256
  refuseIf (value.label.toList.any isControl = true) (.invalid "label contains control text")
  text value.task maxNodeTaskBytes
  digest value.inputDigest
  budget value.budget
  refuseIf (fits value.budget config.budget = false) (.budget "node exceeds graph ceiling")
  refuseIf (value.dependencies.length > config.maxEdges) (.capacity "dependency")
  refuseIf (value.dependencies.any (fun id => id == 0 || id == value.id) = true ∨ ¬ value.dependencies.Nodup)
    (.invalid "dependencies contain zero, self or duplicate ids")

/-- The edges counted, the number of open dependencies of each node, and who depends on whom. -/
structure GraphIndex where
  edges : Nat
  indegree : Std.ExtTreeMap Nat Nat compare
  dependents : Std.ExtTreeMap Nat (List Nat) compare

def indexNode (nodes : Nodes) (config : WorkflowConfig) (g : GraphIndex) (entry : Nat × NodeRecord) :
    Except Error GraphIndex := do
  let (id, record) := entry
  validateNode record.node config
  refuseIf (id ≠ record.node.id) (.invalid "node key differs from identity")
  if record.state = .removed then return g
  else
    let edges := g.edges + record.node.dependencies.length
    refuseIf (edges > config.maxEdges) (.capacity "edge")
    refuseIf (record.node.dependencies.all
        (fun dependency => nodes[dependency]?.any (fun n => decide (n.state ≠ .removed))) = false)
      (.invalid "dependency refers to missing or removed work")
    return { edges
             indegree := g.indegree.insert id record.node.dependencies.length
             dependents := record.node.dependencies.foldl
               (fun m dependency => m.insert dependency ((m[dependency]?).getD [] ++ [id])) g.dependents }

/-- The stack of nodes without an open dependency, its top first, with their depths. -/
structure Sorting where
  ready : List (Nat × Nat)
  indegree : Std.ExtTreeMap Nat Nat compare
  depths : Std.ExtTreeMap Nat Nat compare

def releaseChild (depth : Nat) (s : Sorting) (child : Nat) : Except Error Sorting := do
  let maximum := max ((s.depths[child]?).getD 1) (depth + 1)
  let count ← orElseError s.indegree[child]? (.invalid "graph index is inconsistent")
  return { ready := if count - 1 = 0 then (child, maximum) :: s.ready else s.ready
           indegree := s.indegree.insert child (count - 1)
           depths := s.depths.insert child maximum }

/-- The nodes a topological sort visits.  A node is pushed once, when its last dependency is visited, so the fuel is the
number of nodes. -/
def sortFrom (dependents : Std.ExtTreeMap Nat (List Nat) compare) : Nat → Sorting → Except Error Nat
  | 0, _ => .ok 0
  | fuel + 1, s =>
    match s.ready with
    | [] => .ok 0
    | (id, depth) :: rest => do
      refuseIf (depth > maxPlanDepth) (.capacity "dependency depth")
      let s ← ((dependents[id]?).getD []).foldlM (releaseChild depth) { s with ready := rest }
      let visited ← sortFrom dependents fuel s
      return visited + 1

def validateGraph (nodes : Nodes) (config : WorkflowConfig) : Except Error Unit := do
  refuseIf (nodes.size > config.maxNodes) (.capacity "node")
  let g ← nodes.toList.foldlM (indexNode nodes config) ⟨0, ∅, ∅⟩
  let ready := g.indegree.toList.filterMap (fun p => if p.2 = 0 then some (p.1, 1) else none)
  let visited ← sortFrom g.dependents g.indegree.size ⟨ready.reverse, g.indegree, ∅⟩
  refuseIf (visited ≠ g.indegree.size) (.invalid "dependency cycle")

/-- The agents of active nodes and the reservations added up so far. -/
structure Tally where
  activeAgents : List Nat
  reserved : BudgetUsage

def addReserved (reserved added : BudgetUsage) : Except Error BudgetUsage := do
  let turns ← orElseError (checkedAdd reserved.turns added.turns) (.invalid "reservation overflow")
  let tokens ← orElseError (checkedAdd reserved.tokens added.tokens) (.invalid "reservation overflow")
  let costMicrousd ← orElseError (checkedAdd reserved.costMicrousd added.costMicrousd) (.invalid "reservation overflow")
  return { turns, tokens, costMicrousd, wallMs := max reserved.wallMs added.wallMs }

def admittedTaskDiffers (config : WorkflowConfig) (record : NodeRecord) (task : ScheduledTask) : Prop :=
  task.workflowId ≠ config.workflowId ∨ task.nodeId ≠ record.node.id ∨ some task.attempt ≠ record.state.attempt ∨
    task.inputDigest ≠ record.node.inputDigest ∨ task.assignedAgent ≠ record.node.assignedAgent ∨
    task.task ≠ record.node.task ∨ task.budget ≠ record.node.budget ∨ task.deadlineUnixMs ≤ config.startedAtUnixMs ∨
    task.deadlineUnixMs > config.deadlineUnixMs

instance (config : WorkflowConfig) (record : NodeRecord) (task : ScheduledTask) :
    Decidable (admittedTaskDiffers config record task) := by unfold admittedTaskDiffers; infer_instance

/-- The texts of a finished state, and the deadline and the agent of an active one. -/
def checkState (config : WorkflowConfig) (activeAgents : List Nat) (record : NodeRecord) : Except Error (List Nat) :=
  match record.state with
  | .succeeded _ resultDigest => do digest resultDigest; return activeAgents
  | .failed _ detail | .cancelled _ detail => do text detail maxDiagnosticBytes; return activeAgents
  | .recoveryRequired _ _ reason => do text reason maxDiagnosticBytes; return activeAgents
  | .dispatching _ deadline | .running _ _ deadline | .cancelling _ _ deadline => do
    refuseIf (deadline = 0 ∨ deadline > config.deadlineUnixMs) (.invalid "stored attempt deadline exceeds graph deadline")
    refuseIf (record.node.assignedAgent ∈ activeAgents) (.invalid "agent assigned two active workflow turns")
    return record.node.assignedAgent :: activeAgents
  | .pending | .removed => .ok activeAgents

def tallyRecord (config : WorkflowConfig) (t : Tally) (record : NodeRecord) : Except Error Tally := do
  let reserved ← addReserved t.reserved record.reservedBudget
  refuseIf (record.nextAttempt = 0 ∨ record.nextAttempt > maxSchedulerEvents + 1 ∨
      record.state.attempt.any (fun attempt => attempt == 0 || decide (attempt ≥ record.nextAttempt)) = true)
    (.invalid "stored attempt counter is inconsistent")
  record.state.lease.forM (fun handle => validateLease handle record.node.assignedAgent)
  record.admittedTask.forM (fun task => refuseIf (admittedTaskDiffers config record task)
    (.invalid "stored admitted task differs from its node/attempt"))
  let activeAgents ← checkState config t.activeAgents record
  refuseIf (record.attemptUsage.turns > record.usage.turns ∨ record.attemptUsage.tokens > record.usage.tokens ∨
      record.attemptUsage.costMicrousd > record.usage.costMicrousd ∨ record.attemptUsage.wallMs > record.usage.wallMs)
    (.invalid "stored attempt usage exceeds node usage")
  return { activeAgents, reserved }

def checkReceipt (value : Snapshot) (entry : String × StoredReceipt) : Except Error Unit := do
  identifier entry.1
  digest entry.2.digest
  refuseIf (entry.2.receipt.version ≠ portVersion ∨ entry.2.receipt.sequence > value.sequence ∨
      entry.2.receipt.revision > value.revision ∨ entry.2.receipt.replayed = true)
    (.invalid "stored request receipt is inconsistent")

def validateSnapshot (value : Snapshot) : Except Error Unit := do
  validateConfig value.config
  refuseIf (value.version ≠ portVersion ∨ value.sequence > maxSchedulerEvents ∨ value.revision > maxPlanRevisions ∨
      value.revision > value.sequence ∨ value.receipts.size > maxPlanRequests ∨
      usageFits value.reserved value.config.budget = false)
    (.invalid "stored scheduler is outside version/counter/budget bounds")
  validateGraph value.nodes value.config
  let t ← (Table.vals value.nodes).foldlM (tallyRecord value.config) ⟨[], {}⟩
  refuseIf (t.activeAgents.length > value.config.maxConcurrency ∨ t.reserved ≠ value.reserved)
    (.invalid "stored concurrency or aggregate reservation is inconsistent")
  value.receipts.toList.forM (checkReceipt value)

end Iteron.Scheduler
