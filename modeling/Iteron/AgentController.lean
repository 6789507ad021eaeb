import Iteron.AgentProvider
/-!
# AgentController — the calls of the controller, its journal and its life

`prepare` is what a call does with the snapshot in memory.  `Controller.call` commits what it prepared: the snapshot is
validated, then compared and stored by the journal under its revision.  The journal may refuse, or lose the answer with
the snapshot stored or not; a controller that does not know what is stored is poisoned.  `open` reads the journal again
and quarantines every agent that was executing.
-/
namespace Iteron.Agents

open Machine Refuse Text

def maxAgentRequestIdBytes : Nat := 128

def maxSnapshotBytes : Nat := 33554432

def isRequestIdCharacter (c : Char) : Bool := c.isAlphanum || c == '.' || c == ':' || c == '_' || c == '-'

def validRequestId (requestId : String) : Bool :=
  !requestId.isEmpty && decide (requestId.utf8ByteSize ≤ maxAgentRequestIdBytes) &&
    requestId.toList.all isRequestIdCharacter

/-- The key of a request's receipt: its actor and its identity. -/
def requestKey (actor : AgentActor) (requestId : String) : String :=
  match actor with
  | .operator => "operator" ++ ":" ++ requestId
  | .agent id => "agent:" ++ toString id ++ ":" ++ requestId

def AgentActor.sender : AgentActor → Option AgentId
  | .operator => none
  | .agent id => some id

namespace AgentControllerSnapshot

variable (H : Hashes) (s : AgentControllerSnapshot)

/-! ## Children -/

def newRecord (id : AgentId) (parent : Option AgentId) (label : String) (config : AgentControllerConfig)
    (capabilities : CapabilitySet) (budget : AgentBudget) (writePaths : List String) : AgentRecord where
  view :=
    { agentId := id, parentId := parent, label := label, workspaceScope := config.workspaceScope, incarnation := 1,
      state := .idle, capabilities := capabilities, budget := budget, writePaths := writePaths, queuedMessages := 0,
      lastSummary := none, hasPartialOutput := false, usage := {}, reserved := {} }
  nextTurn := 1
  activeTask := none
  turnsUsed := 0
  tokensUsed := 0
  costUsed := 0
  wallUsedMs := 0
  runtimeStartedAtUnixMs := none
  nativeExecution := none
  reservedTurns := 0
  reservedTokens := 0
  reservedCost := 0

def reserve (record : AgentRecord) (budget : AgentBudget) : Except ControllerError AgentRecord := do
  let turns ← orElseError (checkedAdd32 record.reservedTurns budget.turns) .budget
  let tokens ← orElseError (checkedAdd record.reservedTokens budget.tokens) .budget
  let cost ← orElseError (checkedAdd record.reservedCost budget.costMicrousd) .budget
  refuseIf ((checkedAdd32 turns record.turnsUsed).all (fun total => decide (total > record.view.budget.turns)) = true ∨
      (checkedAdd tokens record.tokensUsed).all (fun total => decide (total > record.view.budget.tokens)) = true ∨
      (checkedAdd cost record.costUsed).all (fun total => decide (total > record.view.budget.costMicrousd)) = true)
    .budget
  pure { record with reservedTurns := turns, reservedTokens := tokens, reservedCost := cost }

def pathsOverlap (a b : String) : Bool := pathWithin a b || pathWithin b a

def overlaps (paths existing : List String) : Bool := existing.any (fun e => paths.any (fun p => pathsOverlap p e))

/-- An agent that still holds paths the new ones overlap; the parent and the root do not count. -/
def blocks (parentId : AgentId) (writePaths : List String) (agent : AgentRecord) : Bool :=
  agent.view.state != .closed && agent.view.agentId != parentId && agent.view.parentId.isSome &&
    overlaps writePaths agent.view.writePaths

def enqueue (actor : AgentActor) (receiver : AgentId) (text : String) (kind : AgentMessageKind)
    (expectedEpoch : Option AgentEpoch) : Except ControllerError (AgentControllerSnapshot × MessageId) := do
  let (mailbox, id) ← s.mailbox.enqueue H actor.sender receiver text kind expectedEpoch
  pure ({ s with mailbox := mailbox }, id)

/-- One child authority and lifetime reservation, for both kinds of spawn. -/
def prepareChildSpawn (actor : AgentActor) (command : AgentCommand) :
    Except ControllerError (AgentControllerSnapshot × AgentId × MessageId) :=
  match command with
  | .spawn parentId label task capabilities budget writePaths => do
    refuseIf (s.providerBudget.recoveryRequired = true) .recoveryRequired
    refuseIf (actor ≠ .operator ∧ actor ≠ .agent parentId) .permission
    s.checkOpen parentId
    let parent ← orElseError s.agents[parentId]? .unknownAgent
    refuseIf (capabilities.isSubsetOf parent.view.capabilities = false ∨ capabilities.contains .readOnly = false)
      .permission
    let depth ← s.depth parentId
    refuseIf (depth ≥ maxHierarchyDepth ∨ s.agents.size ≥ s.config.maxAgents) .capacity
    refuseIf (budget.fitsWithin parent.view.budget = false) .budget
    let reserved ← reserve parent budget
    refuseIf (parentId ≠ 1 ∧ covered writePaths parent.view.writePaths = false) .permission
    refuseIf (writePaths ≠ [] ∧ capabilities.contains .reversibleLocal = false) .permission
    let agents := s.agents.insert parentId reserved
    refuseIf ((Table.vals agents).any (blocks parentId writePaths) = true) .permission
    let id := s.nextAgent
    let nextAgent ← orElseError (checkedAdd s.nextAgent 1) .capacity
    let child := newRecord id (some parentId) label s.config capabilities budget writePaths
    let (next, message) ← { s with nextAgent := nextAgent, agents := agents.insert id child }.enqueue H actor id task
      .task none
    pure (next, id, message)
  | _ => .error (.invalid "workflow child requires a spawn declaration")

/-! ## Commands -/

def setState (id : AgentId) (record : AgentRecord) (state : AgentState) : AgentControllerSnapshot :=
  { s with agents := s.agents.insert id { record with view := { record.view with state := state } } }

def closeState : AgentState → Except ControllerError AgentState
  | .idle | .closed => .ok .closed
  | .recoveryRequired _ => .error .recoveryRequired
  | .running epoch | .interrupting epoch | .closing epoch => .ok (.closing epoch)

def closeOne (next : AgentControllerSnapshot) (id : AgentId) : Except ControllerError AgentControllerSnapshot := do
  let agent ← orElseError next.agents[id]? .unknownAgent
  let state ← closeState agent.view.state
  let closed := next.setState id agent state
  pure { closed with mailbox := closed.mailbox.rejectAccepted id }

def closeTargets (agentId : AgentId) (includeDescendants : Bool) : List AgentId :=
  s.agents.keys.filter (fun id => id == agentId || (includeDescendants && s.isDescendant id agentId))

def close (actor : AgentActor) (agentId : AgentId) (includeDescendants : Bool) :
    Except ControllerError AgentControllerSnapshot := do
  s.checkControl actor agentId
  refuseIf (includeDescendants = false ∧ (Table.vals s.agents).any
      (fun agent => agent.view.parentId == some agentId && agent.view.state != .closed) = true)
    (.invalid "closing an agent with live children requires explicit subtree close")
  (s.closeTargets agentId includeDescendants).foldlM closeOne s

/-- The command's effect, before the revision and the receipt. -/
def perform (actor : AgentActor) (command : AgentCommand) (native : Option AgentEngineExecution) :
    Except ControllerError (AgentControllerSnapshot × AgentId × Option MessageId) :=
  match command with
  | .spawn .. => do
    let (next, id, message) ← s.prepareChildSpawn H actor command
    let record ← orElseError next.agents[id]? .unknownAgent
    pure ({ next with agents := next.agents.insert id { record with nativeExecution := native } }, id, some message)
  | .sendMessage agentId text => do
    refuseIf (s.canMessage actor agentId = false) .permission
    s.checkOpen agentId
    let (next, message) ← s.enqueue H actor agentId text .message none
    pure (next, agentId, some message)
  | .followupTask agentId text => do
    refuseIf (agentId = 1) (.invalid "parent runtime tasks use its authenticated thread input port")
    s.checkControl actor agentId
    s.checkOpen agentId
    let (next, message) ← s.enqueue H actor agentId text .task none
    pure (next, agentId, some message)
  | .steer agentId epoch text => do
    s.checkControl actor agentId
    s.checkRunning agentId epoch
    let (next, message) ← s.enqueue H actor agentId text .steer (some epoch)
    pure (next, agentId, some message)
  | .interrupt agentId epoch => do
    s.checkControl actor agentId
    s.checkRunning agentId epoch
    let record ← orElseError s.agents[agentId]? .unknownAgent
    pure (s.setState agentId record (.interrupting epoch), agentId, none)
  | .close agentId includeDescendants => do
    let next ← s.close actor agentId includeDescendants
    pure (next, agentId, none)

/-- `execute_inner`. -/
def execute (actor : AgentActor) (requestId : String) (command : AgentCommand)
    (native : Option AgentEngineExecution) : Except ControllerError Prepared := do
  s.checkActor actor
  liftInvalid command.validate
  refuseIf (validRequestId requestId = false) (.invalid "invalid agent request identity")
  let key := requestKey actor requestId
  let digest := H.command command
  match s.receipts[key]? with
  | some prior =>
    refuseIf (prior.digest ≠ digest) .requestConflict
    pure (.answer (.control { prior.reply with replayed := true }))
  | none =>
    refuseIf (s.receipts.size ≥ maxReceipts) .capacity
    let (next, agentId, messageId) ← s.perform H actor command native
    let revision ← nextRevision s.revision
    let target ← orElseError next.agents[agentId]? .unknownAgent
    let reply : AgentControlReply :=
      { version := agentControlVersion, revision := revision, agentId := agentId, messageId := messageId,
        state := target.view.state, replayed := false }
    pure (.commit { next with revision := revision, receipts := next.receipts.insert key ⟨digest, reply⟩ }
      (.ok (.control reply)))

/-- `execute_with_native_child` after its first check; `execute` is the call without a binding. -/
def executeWithNativeChild (actor : AgentActor) (requestId : String) (command : AgentCommand)
    (binding : Option AgentEngineExecution) : Except ControllerError Prepared := do
  validateOption binding (fun binding =>
    match command with
    | .spawn parentId .. => do
      s.validateEngineOrigin H (.agent parentId) binding.origin
      binding.validate H
    | _ => .error .permission)
  s.execute H actor requestId command binding

/-! ## Turns -/

def exhausted (record : AgentRecord) : Bool :=
  (checkedAdd32 record.turnsUsed record.reservedTurns).all (fun used => decide (used ≥ record.view.budget.turns)) ||
    (checkedAdd record.tokensUsed record.reservedTokens).all (fun used => decide (used ≥ record.view.budget.tokens)) ||
    (checkedAdd record.costUsed record.reservedCost).all (fun used => decide (used > record.view.budget.costMicrousd)) ||
    decide (record.wallUsedMs ≥ record.view.budget.wallMs)

def nextEpoch (record : AgentRecord) : AgentEpoch := ⟨record.view.incarnation, record.nextTurn⟩

/-- The record of an agent whose next epoch begins with a task. -/
def startTurn (record : AgentRecord) (turnsUsed : Nat) (task : MessageId) (started : Option Nat) :
    Except ControllerError AgentRecord := do
  let nextTurn ← orElseError (checkedAdd record.nextTurn 1) .capacity
  pure { record with
    nextTurn := nextTurn, turnsUsed := turnsUsed, activeTask := some task, runtimeStartedAtUnixMs := started,
    view := { record.view with state := .running (nextEpoch record) } }

def beginTurn (id : AgentId) (started : Option Nat) : Except ControllerError Prepared := do
  refuseIf (s.providerBudget.recoveryRequired = true) .recoveryRequired
  refuseIf (id = 1) (.invalid "parent runtime is not a retained child runner")
  s.checkOpen id
  let record ← orElseError s.agents[id]? .unknownAgent
  if record.view.state ≠ .idle then pure (.answer (.epoch none))
  else match s.mailbox.pendingTask id with
    | none => pure (.answer (.epoch none))
    | some task => do
      refuseIf (exhausted record = true) .budget
      let running ← startTurn record (record.turnsUsed + 1) task started
      let revision ← nextRevision s.revision
      pure (.commit { s with agents := s.agents.insert id running, revision := revision }
        (.ok (.epoch (some (nextEpoch record)))))

def beginParentRuntimeTurn (source : String) (started : Nat) : Except ControllerError Prepared := do
  refuseIf (started = 0) (.invalid "parent runtime clock anchor is missing")
  refuseIf (s.providerBudget.recoveryRequired = true) .recoveryRequired
  s.checkOpen 1
  let record ← orElseError s.agents[1]? .unknownAgent
  -- a quarantined root is refused by `checkOpen` already
  refuseIf (record.view.state ≠ .idle) .staleEpoch
  refuseIf (exhausted record = true) .budget
  let (next, task) ← s.enqueue H .operator 1 source .task none
  let turnsUsed ← orElseError (checkedAdd32 record.turnsUsed 1) .budget
  let running ← startTurn record turnsUsed task (some started)
  let revision ← nextRevision s.revision
  pure (.commit { next with agents := next.agents.insert 1 running, revision := revision }
    (.ok (.epoch (some (nextEpoch record)))))

def remaining (record : AgentRecord) : AgentBudget where
  turns := record.view.budget.turns - record.turnsUsed - record.reservedTurns
  tokens := record.view.budget.tokens - record.tokensUsed - record.reservedTokens
  costMicrousd := record.view.budget.costMicrousd - record.costUsed - record.reservedCost
  wallMs := record.view.budget.wallMs - record.wallUsedMs

/-- The view a lease gives: the claim's envelope on top of what was used. -/
def leaseView (view : AgentView) (budget : AgentBudget) : AgentView :=
  { view with
    reserved := {}
    budget :=
      { turns := min (view.usage.turns - 1 + budget.turns) u32Max, tokens := saturatingAdd view.usage.tokens budget.tokens,
        costMicrousd := saturatingAdd view.usage.costMicrousd budget.costMicrousd,
        wallMs := saturatingAdd view.usage.wallMs budget.wallMs } }

def existingWorkflowLease (claim : AgentWorkflowClaim) : Except ControllerError (Option AgentWorkflowLease) := do
  claim.validate H
  match s.workflowClaims[claim.key H]? with
  | none => pure none
  | some receipt =>
    refuseIf (receipt.claim ≠ claim) .requestConflict
    refuseIf (receipt.completion.isSome = true) .recoveryRequired
    let agent ← s.inspect .operator claim.assignedAgent
    refuseIf (agent.state ≠ .running receipt.epoch) .recoveryRequired
    pure (some { agent := agent, epoch := receipt.epoch, initial := [], replayed := true })

/-- Enqueue a task, start its epoch and deliver it, in one snapshot. -/
def admitTask (id : AgentId) (record : AgentRecord) (turnsUsed : Nat) (message : MessageId) (now : Nat) (key : String)
    (claim : AgentWorkflowClaim) : Except ControllerError (AgentControllerSnapshot × List AgentMailboxMessage) := do
  let running ← startTurn record turnsUsed message (some now)
  let epoch := nextEpoch record
  let (mailbox, initial) := s.mailbox.deliver id epoch (some message) true
  let revision ← nextRevision s.revision
  pure ({ s with
    agents := s.agents.insert id running, mailbox := mailbox, revision := revision
    workflowClaims := s.workflowClaims.insert key ⟨claim, epoch, message, none⟩ }, initial)

def claimWorkflowTask (claim : AgentWorkflowClaim) (now : Nat) : Except ControllerError Prepared := do
  match ← s.existingWorkflowLease H claim with
  | some lease => pure (.answer (.lease lease))
  | none =>
    refuseIf (s.providerBudget.recoveryRequired = true) .recoveryRequired
    refuseIf (claim.assignedAgent = 1) (.invalid "workflow nodes need an admitted child agent")
    refuseIf (now = 0 ∨ claim.deadlineUnixMs ≤ now) .budget
    refuseIf (s.workflowClaims.size ≥ maxReceipts) .capacity
    s.checkOpen claim.assignedAgent
    let record ← orElseError s.agents[claim.assignedAgent]? .unknownAgent
    refuseIf (record.view.state ≠ .idle ∨ s.mailbox.pendingCount claim.assignedAgent > 0)
      (.invalid "workflow agent is busy or has pending inputs")
    refuseIf (claim.budget.fitsWithin (remaining record) = false) .budget
    let (queued, message) ← s.enqueue H .operator claim.assignedAgent claim.task .task none
    let turnsUsed ← orElseError (checkedAdd32 record.turnsUsed 1) .budget
    let (next, initial) ← queued.admitTask claim.assignedAgent record turnsUsed message now (claim.key H) claim
    pure (.commit next (do
      let agent ← next.inspect .operator claim.assignedAgent
      pure (.lease { agent := leaseView agent claim.budget, epoch := nextEpoch record, initial := initial,
                     replayed := false })))

/-- `engine_child_identity`: the claim of a child not yet assigned. -/
def engineChildIdentity (actor : AgentActor) (requestId : String) (spawn : AgentCommand)
    (binding : AgentWorkflowChildBinding) : Except ControllerError AgentWorkflowClaim := do
  liftInvalid spawn.validate
  validateOption binding.execution (fun execution => do
    execution.validate H
    s.validateEngineOrigin H actor execution.origin
    match execution.origin with
    | .workflowChild _ workflowId taskId =>
      refuseIf (workflowId ≠ binding.workflowId ∨ taskId ≠ binding.nodeId) .requestConflict
    | .directSubagent _ => pure ())
  match spawn with
  | .spawn _ _ task _ budget _ =>
    let claim : AgentWorkflowClaim :=
      { workflowId := binding.workflowId, nodeId := binding.nodeId, attempt := binding.attempt,
        inputDigest := binding.inputDigest, assignedAgent := 1, task := task, budget := budget,
        deadlineUnixMs := binding.deadlineUnixMs, execution := binding.execution }
    claim.validate H
    refuseIf (validRequestId requestId = false) (.invalid "invalid workflow child request identity")
    pure claim
  | _ => .error (.invalid "workflow child requires spawn")

def existingWorkflowChild (actor : AgentActor) (claim : AgentWorkflowClaim) (prior : RequestReceipt) (digest : String) :
    Except ControllerError Reply := do
  refuseIf (prior.digest ≠ digest) .requestConflict
  let receipt ← orElseError s.workflowClaims[claim.key H]? .recoveryRequired
  refuseIf (receipt.claim.budget.wallMs = 0 ∨ receipt.claim.budget.wallMs > claim.budget.wallMs) .requestConflict
  let claim := { claim with
    assignedAgent := prior.reply.agentId, budget := { claim.budget with wallMs := receipt.claim.budget.wallMs } }
  refuseIf (receipt.claim ≠ claim) .requestConflict
  let agent ← s.inspect actor claim.assignedAgent
  pure (.childLease claim { agent := agent, epoch := receipt.epoch, initial := [], replayed := true })

def spawnWorkflowChild (actor : AgentActor) (requestId : String) (spawn : AgentCommand)
    (binding : AgentWorkflowChildBinding) (now : Nat) : Except ControllerError Prepared := do
  s.checkActor actor
  let claim ← s.engineChildIdentity H actor requestId spawn binding
  let key := requestKey actor requestId
  let digest := H.childRequest spawn binding
  match s.receipts[key]? with
  | some prior => do
    let reply ← s.existingWorkflowChild H actor claim prior digest
    pure (.answer reply)
  | none =>
    refuseIf (s.workflowClaims.contains (claim.key H) = true) .requestConflict
    refuseIf (s.providerBudget.recoveryRequired = true) .recoveryRequired
    refuseIf (now = 0 ∨ claim.deadlineUnixMs ≤ now) .budget
    let budget := { claim.budget with wallMs := min claim.budget.wallMs (claim.deadlineUnixMs - now) }
    refuseIf (s.receipts.size ≥ maxReceipts ∨ s.workflowClaims.size ≥ maxReceipts) .capacity
    let (spawned, id, message) ← s.prepareChildSpawn H actor spawn
    let claim := { claim with assignedAgent := id, budget := budget }
    let record ← orElseError spawned.agents[id]? .unknownAgent
    let (next, initial) ← spawned.admitTask id record 1 message now (claim.key H) claim
    let reply : AgentControlReply :=
      { version := agentControlVersion, revision := next.revision, agentId := id, messageId := some message,
        state := .running (nextEpoch record), replayed := false }
    let next := { next with receipts := next.receipts.insert key ⟨digest, reply⟩ }
    pure (.commit next (do
      let agent ← next.inspect actor id
      let agent := { agent with budget := { agent.budget with wallMs := budget.wallMs } }
      pure (.childLease claim { agent := agent, epoch := nextEpoch record, initial := initial, replayed := false })))

/-! ## Safe points and settlement -/

def deliver (id : AgentId) (epoch : AgentEpoch) (starting : Bool) : Except ControllerError Prepared := do
  s.checkRunning id epoch
  let record ← orElseError s.agents[id]? .unknownAgent
  let (mailbox, delivered) := s.mailbox.deliver id epoch record.activeTask starting
  -- a delivery changes nothing but messages
  if mailbox.messages.toList = s.mailbox.messages.toList then pure (.answer (.messages delivered))
  else do
    let revision ← nextRevision s.revision
    pure (.commit { s with mailbox := mailbox, revision := revision } (.ok (.messages delivered)))

def markConsumed (id : AgentId) (epoch : AgentEpoch) (messages : List MessageId) : Except ControllerError Prepared := do
  s.checkRunning id epoch
  if messages.isEmpty then pure (.answer .done)
  else do
    let mailbox ← s.mailbox.markConsumed id epoch messages
    let revision ← nextRevision s.revision
    pure (.commit { s with mailbox := mailbox, revision := revision } (.ok .done))

/-- The record with what the epoch used; the first turn was counted when it began. -/
def settleUsage (record : AgentRecord) (usage : AgentUsage) (physical : Bool) : Except ControllerError AgentRecord := do
  let record ← if physical then pure record else do
    let turns ← orElseError (checkedAdd32 record.turnsUsed (usage.turns - 1)) .budget
    let tokens ← orElseError (checkedAdd record.tokensUsed usage.tokens) .budget
    let cost ← orElseError (checkedAdd record.costUsed usage.costMicrousd) .budget
    pure { record with turnsUsed := turns, tokensUsed := tokens, costUsed := cost }
  let wall ← orElseError (checkedAdd record.wallUsedMs usage.wallMs) .budget
  pure { record with wallUsedMs := wall }

def finishedState (epoch : AgentEpoch) (known : Bool) : AgentState → AgentState
  | .closing _ => if known then .closed else .recoveryRequired epoch
  | _ => if known then .idle else .recoveryRequired epoch

def finishTurn (id : AgentId) (epoch : AgentEpoch) (summary : String) (usage : AgentUsage)
    (effectsKnown accountingKnown : Bool) (terminal : AgentWorkflowTerminal) : Except ControllerError Prepared := do
  refuseIf (summary.utf8ByteSize > maxAgentTextBytes ∨ summary.toList.contains '\x00' = true) .capacity
  let current ← orElseError s.agents[id]? .unknownAgent
  refuseIf (current.view.state.epoch ≠ some epoch ∨ current.view.state = .recoveryRequired epoch) .staleEpoch
  let (usage, physical, receiptsKnown) ← s.settlementUsage id epoch usage
  let accountingKnown := accountingKnown && receiptsKnown
  let record ← settleUsage current usage physical
  let withinBudget := s.settlementFits id epoch usage && usageFits record
  let known := effectsKnown && accountingKnown && withinBudget
  let record := { record with
    view := { record.view with
      lastSummary := some summary, state := finishedState epoch known record.view.state }
    activeTask := if known then none else record.activeTask
    runtimeStartedAtUnixMs := if known then none else record.runtimeStartedAtUnixMs }
  let revision ← nextRevision s.revision
  pure (.commit { s with
    agents := s.agents.insert id record
    workflowClaims := s.recordCompletion id epoch summary usage effectsKnown (accountingKnown && withinBudget) terminal
    mailbox := s.mailbox.settleEpoch id epoch current.activeTask
    revision := revision } (.ok .done))

def addRecovered (record : AgentRecord) (usage : AgentUsage) : Except ControllerError AgentRecord := do
  let turns ← orElseError (checkedAdd32 record.turnsUsed usage.turns) .budget
  let tokens ← orElseError (checkedAdd record.tokensUsed usage.tokens) .budget
  let cost ← orElseError (checkedAdd record.costUsed usage.costMicrousd) .budget
  let wall ← orElseError (checkedAdd record.wallUsedMs usage.wallMs) .budget
  pure { record with turnsUsed := turns, tokensUsed := tokens, costUsed := cost, wallUsedMs := wall }

def reconcileStopped (id : AgentId) (epoch : AgentEpoch) (effectsKnown close : Bool) (usage : AgentUsage) :
    Except ControllerError Prepared := do
  refuseIf (effectsKnown = false) .recoveryRequired
  let current ← orElseError s.agents[id]? .unknownAgent
  refuseIf (current.view.state ≠ .recoveryRequired epoch) .staleEpoch
  s.validateRecovery id epoch usage
  refuseIf (current.runtimeStartedAtUnixMs.isSome = true ∧ usage.wallMs = 0)
    (.invalid "recovery needs measured incremental elapsed usage")
  let record ← addRecovered current usage
  refuseIf (close = false ∧ usageFits record = false) .budget
  let incarnation ← orElseError (checkedAdd record.view.incarnation 1) .capacity
  let stopped := { record with
    activeTask := none, runtimeStartedAtUnixMs := none,
    view := { record.view with incarnation := incarnation, state := if close then .closed else .idle } }
  let claims ← s.recoverCompletion id epoch usage
  let revision ← nextRevision s.revision
  pure (.commit { s with
    agents := s.agents.insert id stopped
    workflowClaims := claims
    mailbox := s.mailbox.reconcile id current.activeTask close
    revision := revision } (.ok .done))

end AgentControllerSnapshot

/-! ## The controller -/

inductive Call where
  | execute (actor : AgentActor) (requestId : String) (command : AgentCommand) (native : Option AgentEngineExecution)
  | beginTurn (id : AgentId) (started : Option Nat)
  | beginParentRuntimeTurn (source : String) (started : Nat)
  | claimWorkflowTask (claim : AgentWorkflowClaim) (now : Nat)
  | spawnWorkflowChild (actor : AgentActor) (requestId : String) (spawn : AgentCommand)
      (binding : AgentWorkflowChildBinding) (now : Nat)
  | deliver (id : AgentId) (epoch : AgentEpoch) (starting : Bool)
  | markConsumed (id : AgentId) (epoch : AgentEpoch) (messages : List MessageId)
  | finishTurn (id : AgentId) (epoch : AgentEpoch) (summary : String) (usage : AgentUsage)
      (effectsKnown accountingKnown : Bool) (terminal : AgentWorkflowTerminal)
  | reconcileStopped (id : AgentId) (epoch : AgentEpoch) (effectsKnown close : Bool) (usage : AgentUsage)
  | bindProviderBudget (id : AgentId) (scope : String)
  | setProviderBudgetBaseline (scope : String) (baseline : AgentProviderBudgetBaseline)
  | reserveProviderBudget (request : AgentProviderBudgetRequest)
  | settleProviderBudget (id : AgentId) (scope effect : String) (route : ProviderRouteAttemptIdentity)
      (terminal : AgentProviderBudgetTerminal) (terminalSha256 : String)
  | bindCohortOrigin (origin : AgentCohortOrigin)
  | attachCohortMainRun (run : AgentCohortMainRun)
  | recordWorkspaceWitness (expected : Option AgentWorkspaceWitness) (witness : AgentWorkspaceWitness)

/-- What is refused before the controller looks whether it is live. -/
def precheck : Call → Except ControllerError Unit
  | .execute _ _ command (some _) =>
    match command with
    | .spawn .. => .ok ()
    | _ => .error .permission
  | .beginTurn _ started => refuseIf (started = some 0) (.invalid "runtime clock anchor is missing")
  | _ => .ok ()

def prepare (H : Hashes) (s : AgentControllerSnapshot) : Call → Except ControllerError Prepared
  | .execute actor requestId command native => s.executeWithNativeChild H actor requestId command native
  | .beginTurn id started => s.beginTurn id started
  | .beginParentRuntimeTurn source started => s.beginParentRuntimeTurn H source started
  | .claimWorkflowTask claim now => s.claimWorkflowTask H claim now
  | .spawnWorkflowChild actor requestId spawn binding now => s.spawnWorkflowChild H actor requestId spawn binding now
  | .deliver id epoch starting => s.deliver id epoch starting
  | .markConsumed id epoch messages => s.markConsumed id epoch messages
  | .finishTurn id epoch summary usage effectsKnown accountingKnown terminal =>
    s.finishTurn id epoch summary usage effectsKnown accountingKnown terminal
  | .reconcileStopped id epoch effectsKnown close usage => s.reconcileStopped id epoch effectsKnown close usage
  | .bindProviderBudget id scope => s.bindProviderBudget id scope
  | .setProviderBudgetBaseline scope baseline => s.setProviderBudgetBaseline scope baseline
  | .reserveProviderBudget request => s.reserveProviderBudget H request
  | .settleProviderBudget id scope effect route terminal terminalSha256 =>
    s.settleProviderBudget H id scope effect route terminal terminalSha256
  | .bindCohortOrigin origin => s.bindCohortOrigin H origin
  | .attachCohortMainRun run => s.attachCohortMainRun H run
  | .recordWorkspaceWitness expected witness => s.recordWorkspaceWitness expected witness

/-- How the journal answers a commit whose revision it accepts. -/
inductive Outcome where
  | done
  | refused
  | unknown (stored : Bool)

def followingRevision : Option Nat → Nat
  | none => 0
  | some revision => saturatingAdd revision 1

/-- `AgentFileJournal::commit`: compare the durable revision, then replace the file. -/
def journalCommit (durable : Option AgentControllerSnapshot) (expected : Option Nat) (next : AgentControllerSnapshot)
    (outcome : Outcome) : Option AgentControllerSnapshot × Except ControllerStoreError Unit :=
  if durable.map (fun s => s.revision) ≠ expected then (durable, .error .conflict)
  else if next.revision ≠ followingRevision expected then (durable, .error .conflict)
  else match outcome with
    | .done => (some next, .ok ())
    | .refused => (durable, .error .unavailable)
    | .unknown stored => (if stored then some next else durable, .error .outcomeUnknown)

structure Controller where
  snapshot : AgentControllerSnapshot
  poisoned : Bool

namespace Controller

/-- The journal, the controller and the result after a commit. -/
def commit (H : Hashes) (durable : Option AgentControllerSnapshot) (c : Controller) (next : AgentControllerSnapshot)
    (outcome : Outcome) : Option AgentControllerSnapshot × Controller × Except ControllerError Unit :=
  match next.validateSnapshot H with
  | .error e => (durable, c, .error e)
  | .ok () =>
    if H.snapshotBytes next > maxSnapshotBytes then (durable, c, .error .capacity)
    else match journalCommit durable (some c.snapshot.revision) next outcome with
      | (durable, .ok ()) => (durable, { c with snapshot := next }, .ok ())
      | (durable, .error .unavailable) => (durable, c, .error (.store .unavailable))
      | (durable, .error e) => (durable, { c with poisoned := true }, .error (.store e))

def call (H : Hashes) (durable : Option AgentControllerSnapshot) (c : Controller) (call : Call) (outcome : Outcome) :
    Option AgentControllerSnapshot × Controller × Except ControllerError Reply :=
  match precheck call with
  | .error e => (durable, c, .error e)
  | .ok () =>
    if c.poisoned then (durable, c, .error .poisoned)
    else match prepare H c.snapshot call with
      | .error e => (durable, c, .error e)
      | .ok (.answer reply) => (durable, c, .ok reply)
      | .ok (.commit next reply) =>
        match c.commit H durable next outcome with
        | (durable, c, .ok ()) => (durable, c, reply)
        | (durable, c, .error e) => (durable, c, .error e)

def genesis (config : AgentControllerConfig) : AgentControllerSnapshot where
  version := agentControlVersion
  config := config
  revision := 0
  nextAgent := 2
  agents := (∅ : Std.ExtTreeMap AgentId AgentRecord).insert 1
    (AgentControllerSnapshot.newRecord 1 none "root" config config.rootCapabilities config.rootBudget [])
  mailbox := ⟨1, config.maxPendingPerAgent, ∅⟩
  receipts := ∅
  workflowClaims := ∅
  workspaceWitness := none
  providerBudget := ⟨∅, ∅, false⟩
  cohortBindings := ⟨none, ∅⟩

/-- `provider_budget::reopen`. -/
def mustReopen (state : ProviderBudgetState) : Bool :=
  (Table.vals state.receipts).any Receipt.unresolved && !state.recoveryRequired

def quarantined : AgentState → AgentState
  | .running epoch | .interrupting epoch | .closing epoch => .recoveryRequired epoch
  | state => state

theorem quarantined_epoch (state : AgentState) : (quarantined state).epoch = state.epoch := by
  cases state <;> rfl

/-- The loaded snapshot as a fresh process takes it up, before its revision. -/
def quarantine (s : AgentControllerSnapshot) : AgentControllerSnapshot :=
  { s with
    agents := s.agents.map (fun _ record =>
      { record with view := { record.view with state := quarantined record.view.state } })
    providerBudget := { s.providerBudget with
      recoveryRequired := s.providerBudget.recoveryRequired || mustReopen s.providerBudget } }

def mustQuarantine (s : AgentControllerSnapshot) : Bool :=
  mustReopen s.providerBudget || (Table.vals s.agents).any (fun r => quarantined r.view.state != r.view.state)

/-- Load the durable snapshot, or make the first one durable. -/
def load (H : Hashes) (durable : Option AgentControllerSnapshot) (config : AgentControllerConfig)
    (failure : Option ControllerStoreError) (outcome : Outcome) :
    Option AgentControllerSnapshot × Except ControllerError AgentControllerSnapshot :=
  match failure, durable with
  | some e, _ => (durable, .error (.store e))
  | none, some s =>
    (durable, do
      s.validateSnapshot H
      refuseIf (s.config ≠ config) (.invalid "controller configuration differs from durable genesis")
      pure s)
  | none, none =>
    match journalCommit durable none (genesis config) outcome with
    | (durable, .ok ()) => (durable, .ok (genesis config))
    | (durable, .error e) => (durable, .error (.store e))

/-- `AgentController::open`, with the journal's answers to the load and to its two commits. -/
def «open» (H : Hashes) (durable : Option AgentControllerSnapshot) (config : AgentControllerConfig)
    (failure : Option ControllerStoreError) (first second : Outcome) :
    Option AgentControllerSnapshot × Except ControllerError Controller :=
  match config.validate with
  | .error e => (durable, .error e)
  | .ok () =>
    match load H durable config failure first with
    | (durable, .error e) => (durable, .error e)
    | (durable, .ok s) =>
      if mustQuarantine s then
        match nextRevision s.revision with
        | .error e => (durable, .error e)
        | .ok revision =>
          let next := { quarantine s with revision := revision }
          match journalCommit durable (some s.revision) next second with
          | (durable, .ok ()) => (durable, .ok ⟨next, false⟩)
          | (durable, .error e) => (durable, .error (.store e))
      else (durable, .ok ⟨s, false⟩)

end Controller
end Iteron.Agents
