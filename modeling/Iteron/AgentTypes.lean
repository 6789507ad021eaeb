import Iteron.Machine
import Iteron.Refuse
import Iteron.Table
import Iteron.Text
/-!
# AgentTypes — the durable state of the agent controller

One snapshot holds the tree of agents with their budgets, the mailbox, the request receipts, the workflow claims and the
physical provider reservations.  Amounts are the source's `u32`s and `u64`s as natural numbers.  Digests of encoded
values are the parameter `Hashes`.
-/
namespace Iteron.Agents

open Text

abbrev AgentId := Nat
abbrev MessageId := Nat

inductive ControllerStoreError where
  | unavailable
  | outcomeUnknown
  | conflict
  deriving DecidableEq

inductive ControllerError where
  | invalid (reason : String)
  | unknownAgent
  | unknownMessage
  | permission
  | staleEpoch
  | closed
  | recoveryRequired
  | capacity
  | budget
  | requestConflict
  | store (error : ControllerStoreError)
  | poisoned
  deriving DecidableEq

/-! ## Authority -/

inductive Capability where
  | readOnly
  | reversibleLocal
  | codeExecuting
  | trustMutating
  | irreversibleExternal

def Capability.bit : Capability → UInt8
  | .readOnly => 1
  | .reversibleLocal => 2
  | .codeExecuting => 4
  | .trustMutating => 8
  | .irreversibleExternal => 16

structure CapabilitySet where
  bits : UInt8
  deriving DecidableEq

def CapabilitySet.contains (s : CapabilitySet) (c : Capability) : Bool := (s.bits &&& c.bit) != 0

def CapabilitySet.isSubsetOf (s other : CapabilitySet) : Bool := (s.bits &&& other.bits) == s.bits

/-! ## The control vocabulary -/

def agentControlVersion : Nat := 1

def maxAgentTextBytes : Nat := 16384

def maxAgentLabelBytes : Nat := 128

def maxAgentWritePaths : Nat := 64

def maxAgentWritePathBytes : Nat := 2048

structure AgentEpoch where
  incarnation : Nat
  turn : Nat
  deriving DecidableEq

/-- Pairs of numbers are ordered by the first, then the second. -/
def AgentEpoch.cmp : AgentEpoch → AgentEpoch → Ordering :=
  compareLex (compareOn AgentEpoch.incarnation) (compareOn AgentEpoch.turn)

instance : Ord AgentEpoch := ⟨AgentEpoch.cmp⟩

instance : Std.TransOrd AgentEpoch :=
  inferInstanceAs (Std.TransCmp (compareLex (compareOn AgentEpoch.incarnation) (compareOn AgentEpoch.turn)))

structure AgentBudget where
  turns : Nat
  tokens : Nat
  costMicrousd : Nat
  wallMs : Nat
  deriving DecidableEq

def AgentBudget.validate (b : AgentBudget) : Except String Unit :=
  if b.turns = 0 ∨ b.tokens = 0 ∨ b.wallMs = 0 then
    .error "agent turn, token and wall budgets must be positive and bounded"
  else if b.turns > 1000000 ∨ b.tokens > 100000000000 ∨ b.costMicrousd > 100000000000000 ∨ b.wallMs > 2592000000 then
    .error "agent budget exceeds a hard envelope"
  else .ok ()

def AgentBudget.fitsWithin (b parent : AgentBudget) : Bool :=
  decide (b.turns ≤ parent.turns) && decide (b.tokens ≤ parent.tokens) &&
    decide (b.costMicrousd ≤ parent.costMicrousd) && decide (b.wallMs ≤ parent.wallMs)

structure AgentUsage where
  turns : Nat := 0
  tokens : Nat := 0
  costMicrousd : Nat := 0
  wallMs : Nat := 0
  deriving DecidableEq

def validateLabel (label : String) : Except String Unit :=
  if plain maxAgentLabelBytes label then .ok ()
  else .error "agent label is empty, oversized or contains control characters"

def isSeparator (c : Char) : Bool := c == '/' || c == '\\'

/-- A workspace-relative path: no absolute start, no drive, no empty or dotted part. -/
def validWritePath (path : String) : Bool :=
  plain maxAgentWritePathBytes path && !path.toList.head?.any isSeparator && !path.toList.contains ':' &&
    (path.toList.splitOnP isSeparator).all (fun part => part != ['.', '.'] && part != ['.'] && part != [])

def validateWritePaths (paths : List String) : Except String Unit :=
  if paths.length > maxAgentWritePaths ∨ paths.any (fun path => !validWritePath path) = true then
    .error "agent write paths must be bounded workspace-relative paths"
  else .ok ()

def validateText (text : String) : Except String Unit :=
  if text.toList.all isWhitespace = true ∨ text.utf8ByteSize > maxAgentTextBytes ∨ text.toList.contains '\x00' = true then
    .error "agent text is empty, oversized or contains NUL"
  else .ok ()

def validateEpoch (epoch : AgentEpoch) : Except String Unit :=
  if epoch.incarnation = 0 ∨ epoch.turn = 0 then .error "agent incarnation and turn must be non-zero" else .ok ()

inductive AgentState where
  | idle
  | running (epoch : AgentEpoch)
  | interrupting (epoch : AgentEpoch)
  | closing (epoch : AgentEpoch)
  | recoveryRequired (epoch : AgentEpoch)
  | closed
  deriving DecidableEq

def AgentState.epoch : AgentState → Option AgentEpoch
  | .running epoch | .interrupting epoch | .closing epoch | .recoveryRequired epoch => some epoch
  | .idle | .closed => none

inductive AgentMessageState where
  | accepted
  | delivered (epoch : AgentEpoch)
  | consumed (epoch : AgentEpoch)
  | rejected
  deriving DecidableEq

inductive AgentMessageKind where
  | message
  | task
  | steer
  deriving DecidableEq

/-- The durable view of an agent; of a partial output only its presence is read. -/
structure AgentView where
  agentId : AgentId
  parentId : Option AgentId
  label : String
  workspaceScope : String
  incarnation : Nat
  state : AgentState
  capabilities : CapabilitySet
  budget : AgentBudget
  writePaths : List String
  queuedMessages : Nat
  lastSummary : Option String
  hasPartialOutput : Bool
  usage : AgentUsage
  reserved : AgentUsage

inductive AgentActor where
  | operator
  | agent (id : AgentId)
  deriving DecidableEq

inductive AgentCommand where
  | spawn (parentId : AgentId) (label task : String) (capabilities : CapabilitySet) (budget : AgentBudget)
      (writePaths : List String)
  | sendMessage (agentId : AgentId) (text : String)
  | followupTask (agentId : AgentId) (text : String)
  | steer (agentId : AgentId) (epoch : AgentEpoch) (text : String)
  | interrupt (agentId : AgentId) (epoch : AgentEpoch)
  | close (agentId : AgentId) (includeDescendants : Bool)
  deriving DecidableEq

def AgentCommand.validate (c : AgentCommand) : Except String Unit := do
  let target ← match c with
    | .spawn parentId label task _ budget writePaths => do
      validateLabel label
      validateText task
      budget.validate
      validateWritePaths writePaths
      pure parentId
    | .sendMessage agentId text | .followupTask agentId text => do
      validateText text
      pure agentId
    | .steer agentId epoch text => do
      validateEpoch epoch
      validateText text
      pure agentId
    | .interrupt agentId epoch => do
      validateEpoch epoch
      pure agentId
    | .close agentId _ => pure agentId
  if target = 0 then .error "agent identity must be non-zero" else .ok ()

structure AgentControlReply where
  version : Nat
  revision : Nat
  agentId : AgentId
  messageId : Option MessageId
  state : AgentState
  replayed : Bool

/-! ## Engine executions -/

structure AgentEngineParentSource where
  tenant : String
  run : String
  providerScopeSha256 : String
  deriving DecidableEq

inductive AgentEngineOrigin where
  | directSubagent (parent : AgentEngineParentSource)
  | workflowChild (parent : AgentEngineParentSource) (workflowId : String) (taskId : Nat)
  deriving DecidableEq

def AgentEngineOrigin.parent : AgentEngineOrigin → AgentEngineParentSource
  | .directSubagent parent => parent
  | .workflowChild parent _ _ => parent

structure NativeChildContextRef where
  generationSha256 : String
  tenant : String
  run : String
  sequence : Nat
  deriving DecidableEq

structure AgentEngineExecution where
  profile : String
  profileDigest : String
  providerId : String
  modelId : String
  catalogDigest : String
  capabilityDigest : String
  origin : AgentEngineOrigin
  nativeContext : Option NativeChildContextRef
  deriving DecidableEq

/-! ## Provider reservations -/

structure ProviderRouteAttemptIdentity where
  routeId : String
  physicalAttempt : Nat
  maxCostReservationMicrousd : Option Nat

structure AgentProviderBudgetRequest where
  agentId : AgentId
  scopeSha256 : String
  epoch : Option AgentEpoch
  effectId : String
  turn : Nat
  route : ProviderRouteAttemptIdentity
  maxTokens : Nat
  maxCostMicrousd : Nat

inductive AgentProviderBudgetTerminal where
  | known (tokens costMicrousd : Nat)
  | notDispatched
  | unknown
  deriving DecidableEq

structure AgentProviderBudgetBaseline where
  usage : AgentUsage
  throughSequence : Nat
  historySha256 : String
  financialRoomMicrousd : Nat
  deriving DecidableEq

structure Binding where
  scopeSha256 : String
  baseline : Option AgentProviderBudgetBaseline
  deriving DecidableEq

structure Receipt where
  request : AgentProviderBudgetRequest
  turnDebit : Nat
  terminal : Option AgentProviderBudgetTerminal
  terminalSha256 : Option String

def Receipt.unresolved (r : Receipt) : Bool := r.terminal == none || r.terminal == some .unknown

structure ProviderBudgetState where
  bindings : Std.ExtTreeMap AgentId Binding
  receipts : Std.ExtTreeMap String Receipt
  recoveryRequired : Bool

/-! ## Cohorts, claims and messages -/

structure AgentCohortOrigin where
  version : Nat
  tenant : String
  runId : String
  configSha256 : String
  deriving DecidableEq

structure AgentCohortMainRun where
  tenant : String
  runId : String
  scopeSha256 : String
  admittedThroughSequence : Nat
  admissionSha256 : String
  deriving DecidableEq

structure CohortBindings where
  origin : Option AgentCohortOrigin
  mainRuns : Std.ExtTreeMap String AgentCohortMainRun

structure AgentWorkflowClaim where
  workflowId : String
  nodeId : Nat
  attempt : Nat
  inputDigest : String
  assignedAgent : AgentId
  task : String
  budget : AgentBudget
  deadlineUnixMs : Nat
  execution : Option AgentEngineExecution
  deriving DecidableEq

structure AgentWorkflowChildBinding where
  workflowId : String
  nodeId : Nat
  attempt : Nat
  inputDigest : String
  deadlineUnixMs : Nat
  execution : Option AgentEngineExecution

inductive AgentWorkflowTerminal where
  | succeeded
  | failed
  | cancelled
  | stoppedRecovery

structure AgentWorkflowCompletion where
  agentId : AgentId
  epoch : AgentEpoch
  summary : String
  usage : AgentUsage
  effectsKnown : Bool
  accountingKnown : Bool
  terminal : AgentWorkflowTerminal

structure WorkflowReceipt where
  claim : AgentWorkflowClaim
  epoch : AgentEpoch
  message : MessageId
  completion : Option AgentWorkflowCompletion

structure AgentMailboxMessage where
  id : MessageId
  sender : Option AgentId
  receiver : AgentId
  sequence : Nat
  kind : AgentMessageKind
  state : AgentMessageState
  text : Option String
  contentSha256 : String
  expectedEpoch : Option AgentEpoch
  deriving DecidableEq

structure AgentWorkflowLease where
  agent : AgentView
  epoch : AgentEpoch
  initial : List AgentMailboxMessage
  replayed : Bool

structure AgentMailbox where
  nextMessage : Nat
  maxPending : Nat
  messages : Std.ExtTreeMap MessageId AgentMailboxMessage

structure AgentWorkspaceWitness where
  workspaceIdentity : String
  baseHead : String
  parentIndexTree : String
  workingTree : String
  deriving DecidableEq

/-! ## The snapshot -/

structure AgentControllerConfig where
  workspaceScope : String
  rootCapabilities : CapabilitySet
  rootBudget : AgentBudget
  maxAgents : Nat
  maxPendingPerAgent : Nat
  deriving DecidableEq

structure AgentRecord where
  view : AgentView
  nextTurn : Nat
  activeTask : Option MessageId
  turnsUsed : Nat
  tokensUsed : Nat
  costUsed : Nat
  wallUsedMs : Nat
  runtimeStartedAtUnixMs : Option Nat
  nativeExecution : Option AgentEngineExecution
  reservedTurns : Nat
  reservedTokens : Nat
  reservedCost : Nat

structure RequestReceipt where
  digest : String
  reply : AgentControlReply

structure AgentControllerSnapshot where
  version : Nat
  config : AgentControllerConfig
  revision : Nat
  nextAgent : Nat
  agents : Std.ExtTreeMap AgentId AgentRecord
  mailbox : AgentMailbox
  receipts : Std.ExtTreeMap String RequestReceipt
  workflowClaims : Std.ExtTreeMap String WorkflowReceipt
  workspaceWitness : Option AgentWorkspaceWitness
  providerBudget : ProviderBudgetState
  cohortBindings : CohortBindings

/-- The SHA-256 digests of encoded values, and the length of an encoded snapshot. -/
structure Hashes where
  /-- Of a text, in hexadecimal. -/
  text : String → String
  /-- Of a provider scope and an effect, `key`. -/
  receiptKey : String → String → String
  /-- Of a tenant and a run, `provider_scope`. -/
  providerScope : String → String → String
  /-- Of a configuration, `config_sha`. -/
  config : AgentControllerConfig → String
  /-- Of a workflow, a node and an attempt, `AgentWorkflowClaim::key`. -/
  claimKey : String → Nat → Nat → String
  /-- Of a command. -/
  command : AgentCommand → String
  /-- Of a workflow child's command and binding. -/
  childRequest : AgentCommand → AgentWorkflowChildBinding → String
  /-- The bytes of a snapshot. -/
  snapshotBytes : AgentControllerSnapshot → Nat

end Iteron.Agents
