import Iteron.AgentTypes
/-!
# AgentValidate — which snapshots the controller takes up

`validateSnapshot` refuses a durable snapshot with the first check it fails, in the order the source makes them.  Loops
over maps go in key order.  Nothing here changes the snapshot.
-/
namespace Iteron.Agents

open Machine Refuse Text

def maxAgents : Nat := 64

def maxReceipts : Nat := 8192

def maxHierarchyDepth : Nat := 16

def maxRevision : Nat := 65536

def maxProviderReceipts : Nat := 8192

def maxCohortMainRuns : Nat := 16

def maxMessages : Nat := 4096

def liftInvalid {α : Type} : Except String α → Except ControllerError α
  | .ok a => .ok a
  | .error reason => .error (.invalid reason)

def orElseError {α : Type} (x : Option α) (e : ControllerError) : Except ControllerError α :=
  match x with
  | some a => .ok a
  | none => .error e

def validateOption {α : Type} (x : Option α) (check : α → Except ControllerError Unit) : Except ControllerError Unit :=
  match x with
  | some a => check a
  | none => .ok ()

def AgentControllerConfig.validate (c : AgentControllerConfig) : Except ControllerError Unit := do
  liftInvalid c.rootBudget.validate
  refuseIf (plain 256 c.workspaceScope = false ∨ c.maxAgents = 0 ∨ c.maxAgents > Agents.maxAgents ∨
      c.maxPendingPerAgent = 0 ∨ c.maxPendingPerAgent > 128 ∨ c.rootCapabilities.contains .readOnly = false)
    (.invalid "invalid controller scope, capacity or root authority")

/-! ## Engine executions -/

def AgentEngineParentSource.validate (H : Hashes) (p : AgentEngineParentSource) : Except ControllerError Unit := do
  forM [p.tenant, p.run] (fun value =>
    refuseIf (plain 512 value = false) (ControllerError.invalid "invalid engine physical parent identity"))
  refuseIf (p.providerScopeSha256 ≠ H.providerScope p.tenant p.run) .requestConflict

def AgentEngineOrigin.validate (H : Hashes) (o : AgentEngineOrigin) : Except ControllerError Unit := do
  o.parent.validate H
  match o with
  | .directSubagent _ => pure ()
  | .workflowChild _ workflowId taskId =>
    refuseIf (plain 128 workflowId = false ∨ taskId = 0) (.invalid "invalid engine workflow cost origin")

def NativeChildContextRef.validate (r : NativeChildContextRef) : Except String Unit := do
  refuseIf (shaIdentity r.generationSha256 = false) "invalid native child context reference digest"
  forM [r.tenant, r.run] (fun text =>
    refuseIf (plain 512 text = false) "invalid native child context reference scope")

def isProfileCharacter (c : Char) : Bool := c.isAlphanum || c == '.' || c == '_' || c == '-'

def AgentEngineExecution.validate (H : Hashes) (x : AgentEngineExecution) : Except ControllerError Unit := do
  x.origin.validate H
  validateOption x.nativeContext (fun reference => do
    liftInvalid reference.validate
    refuseIf (reference.tenant ≠ x.origin.parent.tenant ∨ reference.run ≠ x.origin.parent.run) .requestConflict)
  refuseIf (x.profile.isEmpty = true ∨ x.profile.utf8ByteSize > 128 ∨ x.profile.toList.all isProfileCharacter = false ∨
      shaIdentity x.profileDigest = false)
    (.invalid "invalid engine profile identity")
  forM [x.providerId, x.modelId] (fun value =>
    refuseIf (plain 512 value = false) (ControllerError.invalid "invalid engine native route identity"))
  forM [x.catalogDigest, x.capabilityDigest] (fun value =>
    refuseIf (value.isEmpty = false ∧ shaIdentity value = false) (ControllerError.invalid "invalid engine route evidence"))

/-! ## Provider reservations -/

def ProviderRouteAttemptIdentity.validate (r : ProviderRouteAttemptIdentity) : Except String Unit := do
  refuseIf (shaIdentity r.routeId = false) "provider route attempt route_id must be a canonical SHA-256 identity"
  refuseIf (r.physicalAttempt = 0) "provider route attempt physical_attempt must be one-based"

def AgentProviderBudgetRequest.validate (r : AgentProviderBudgetRequest) : Except ControllerError Unit := do
  refuseIf (r.agentId = 0 ∨ shaIdentity r.scopeSha256 = false ∨ plain 256 r.effectId = false ∨
      r.maxTokens > 1000000000000 ∨ r.maxCostMicrousd > 1000000000000)
    (.invalid "invalid physical provider budget envelope")
  liftInvalid r.route.validate
  refuseIf (r.route.maxCostReservationMicrousd ≠ some r.maxCostMicrousd)
    (.invalid "physical cost reservation is not bound to provider identity")
  validateOption r.epoch (fun epoch => liftInvalid (validateEpoch epoch))

namespace AgentControllerSnapshot

variable (H : Hashes) (s : AgentControllerSnapshot)

def primaryProviderScopeOwner (scope : String) : Option AgentId :=
  (s.providerBudget.bindings.toList.find? (fun p => p.2.scopeSha256 == scope)).map Prod.fst

def cohortRootScope (scope : String) : Bool := s.cohortBindings.mainRuns.contains scope

/-- The owner of a provider scope: the agent bound to it, or the root for an attached main run. -/
def scopeOwner (scope : String) : Option AgentId :=
  match s.primaryProviderScopeOwner scope with
  | some owner => some owner
  | none => if s.cohortRootScope scope then some 1 else none

def providerBudgetBaseline (scope : String) : Except ControllerError (Option AgentProviderBudgetBaseline) :=
  match s.providerBudget.bindings[1]? with
  | none => .ok none
  | some binding => if binding.scopeSha256 ≠ scope then .error .requestConflict else .ok binding.baseline

def unresolvedOf (id : AgentId) : List Receipt :=
  (Table.vals s.providerBudget.receipts).filter (fun r => r.request.agentId == id && r.unresolved)

def addPending (sum : Nat × Nat) (receipt : Receipt) : Except ControllerError (Nat × Nat) := do
  let tokens ← orElseError (checkedAdd sum.1 receipt.request.maxTokens) .budget
  let cost ← orElseError (checkedAdd sum.2 receipt.request.maxCostMicrousd) .budget
  pure (tokens, cost)

/-- What the unresolved receipts of an agent may still spend. -/
def pending (id : AgentId) : Except ControllerError (Nat × Nat) := (s.unresolvedOf id).foldlM addPending (0, 0)

def validateBinding (scopes : List String) (p : AgentId × Binding) : Except ControllerError (List String) := do
  refuseIf (s.agents.contains p.1 = false ∨ shaIdentity p.2.scopeSha256 = false)
    (.invalid "invalid provider scope binding")
  refuseIf (p.2.scopeSha256 ∈ scopes) (.invalid "provider run assigned to multiple agents")
  validateOption p.2.baseline (fun baseline =>
    refuseIf (p.1 ≠ 1 ∨ shaIdentity baseline.historySha256 = false ∨ baseline.usage.wallMs ≠ 0 ∨
        baseline.usage.turns > 1000000 ∨ baseline.usage.tokens > 1000000000000 ∨
        baseline.usage.costMicrousd > 1000000000000 ∨ s.config.rootBudget.costMicrousd > baseline.financialRoomMicrousd)
      (.invalid "invalid immutable provider genesis baseline"))
  pure (p.2.scopeSha256 :: scopes)

def groupCmp : AgentId × Option AgentEpoch → AgentId × Option AgentEpoch → Ordering :=
  compareLex (compareOn Prod.fst) (compareOn Prod.snd)

instance : Std.TransCmp groupCmp :=
  inferInstanceAs (Std.TransCmp (compareLex (compareOn Prod.fst) (compareOn Prod.snd)))

/-- What the loop over receipts collects: physical attempts, receipts and debits of each group, known spending. -/
structure Tally where
  physical : List (String × Nat × Nat) := []
  epochs : Std.ExtTreeMap (AgentId × Option AgentEpoch) (Nat × Nat) groupCmp := ∅
  known : Std.ExtTreeMap AgentId (Nat × Nat) := ∅

def validateReceipt (tally : Tally) (p : String × Receipt) : Except ControllerError Tally := do
  let receipt := p.2
  let request := receipt.request
  request.validate
  refuseIf (p.1 ≠ H.receiptKey request.scopeSha256 request.effectId ∨ receipt.turnDebit > 1 ∨
      s.agents.contains request.agentId = false ∨
      (match s.providerBudget.bindings[request.agentId]? with
        | none => true
        | some binding => binding.scopeSha256 != request.scopeSha256 &&
            !(request.agentId == 1 && s.cohortRootScope request.scopeSha256)) = true ∨
      receipt.terminal.isSome ≠ receipt.terminalSha256.isSome ∨
      receipt.terminalSha256.any (fun digest => !shaIdentity digest) = true)
    (.invalid "invalid physical provider budget receipt")
  let record ← orElseError s.agents[request.agentId]? .unknownAgent
  refuseIf ((match request.epoch with
      | none => request.agentId == 1 && receipt.turnDebit == 1
      | some epoch => decide (epoch.incarnation ≤ record.view.incarnation) && decide (epoch.turn < record.nextTurn)) =
        false)
    (.invalid "physical receipt has invalid agent epoch ownership")
  let attempt := (request.scopeSha256, request.turn, request.route.physicalAttempt)
  refuseIf (attempt ∈ tally.physical) .requestConflict
  let group := (request.agentId, request.epoch)
  let old := tally.epochs.getD group (0, 0)
  let count ← orElseError (checkedAdd32 old.1 1) .budget
  let debit ← orElseError (checkedAdd32 old.2 receipt.turnDebit) .budget
  let tally := { tally with physical := attempt :: tally.physical, epochs := tally.epochs.insert group (count, debit) }
  match receipt.terminal with
  | some (.known tokens cost) =>
    refuseIf (tokens > request.maxTokens ∨ cost > request.maxCostMicrousd) .budget
    let total := tally.known.getD request.agentId (0, 0)
    let tokens ← orElseError (checkedAdd total.1 tokens) .budget
    let cost ← orElseError (checkedAdd total.2 cost) .budget
    pure { tally with known := tally.known.insert request.agentId (tokens, cost) }
  | _ => pure tally

/-- One group: each epoch claims one turn of its own, and every further receipt is debited. -/
def validateGroup (turns : Std.ExtTreeMap AgentId Nat) (p : (AgentId × Option AgentEpoch) × (Nat × Nat)) :
    Except ControllerError (Std.ExtTreeMap AgentId Nat) := do
  refuseIf (p.2.2 ≠ if p.1.2.isSome then p.2.1 - 1 else p.2.1)
    (.invalid "physical turn debit disagrees with epoch claim")
  let total ← orElseError (checkedAdd32 (turns.getD p.1.1 0) p.2.1) .budget
  pure (turns.insert p.1.1 total)

def validateProviderBudget : Except ControllerError Unit := do
  refuseIf (s.providerBudget.bindings.size > s.config.maxAgents ∨ s.providerBudget.receipts.size > maxProviderReceipts)
    .capacity
  let _ ← s.providerBudget.bindings.toList.foldlM s.validateBinding []
  let tally ← s.providerBudget.receipts.toList.foldlM (s.validateReceipt H) {}
  let turns ← tally.epochs.toList.foldlM validateGroup ∅
  -- every receipt names a known agent by now
  forM turns.toList (fun p =>
    refuseIf (s.agents[p.1]?.any (fun record => decide (p.2 > record.turnsUsed)) = true)
      (ControllerError.invalid "physical turn receipts exceed durable usage"))
  forM tally.known.toList (fun p =>
    refuseIf (s.agents[p.1]?.any
        (fun record => decide (p.2.1 > record.tokensUsed) || decide (p.2.2 > record.costUsed)) = true)
      (ControllerError.invalid "physical terminals exceed durable usage"))
  refuseIf ((Table.vals s.providerBudget.receipts).any (fun r => r.terminal == some .unknown) = true ∧
      s.providerBudget.recoveryRequired = false)
    (.invalid "unknown provider usage reopened budget")

end AgentControllerSnapshot

/-! ## Cohorts and the workspace witness -/

def validateTenant (tenant : String) : Except String Unit := refuseIf (plain 256 tenant = false) "invalid cohort tenant"

def validateRun (name : String) : Except String Unit := do
  refuseIf (plain 128 name = false ∨ name = "." ∨ name = ".." ∨ name.toList.getLast? = some '.' ∨
      name.toList.getLast? = some ' ' ∨
      name.toList.any (fun c => ['/', '\\', ':', '*', '?', '"', '<', '>', '|'].contains c) = true)
    "invalid cohort portable run component"
  let stem := (name.toList.takeWhile (fun c => c != '.')).map Char.toUpper
  refuseIf (stem = ['C', 'O', 'N'] ∨ stem = ['P', 'R', 'N'] ∨ stem = ['A', 'U', 'X'] ∨ stem = ['N', 'U', 'L'] ∨
      ((stem.take 3 = ['C', 'O', 'M'] ∨ stem.take 3 = ['L', 'P', 'T']) ∧ stem.length = 4 ∧
        stem.getLast?.any (fun c => decide ('1' ≤ c) && decide (c ≤ '9')) = true))
    "cohort run is a reserved device name"

def AgentCohortOrigin.validate (o : AgentCohortOrigin) : Except String Unit := do
  refuseIf (o.version ≠ 1 ∨ shaIdentity o.configSha256 = false) "invalid cohort installation version or commitment"
  validateTenant o.tenant
  validateRun o.runId

def AgentCohortMainRun.validate (H : Hashes) (r : AgentCohortMainRun) : Except String Unit := do
  validateTenant r.tenant
  validateRun r.runId
  refuseIf (r.admittedThroughSequence = 0 ∨ shaIdentity r.admissionSha256 = false ∨
      r.scopeSha256 ≠ H.providerScope r.tenant r.runId)
    "invalid cohort physical run admission"

/-- `str::parse::<u64>` succeeds. -/
def parsesU64 (part : List Char) : Bool :=
  let digits := if part.head? = some '+' then part.tail else part
  digits != [] && digits.all Char.isDigit &&
    decide (digits.foldl (fun n c => n * 10 + (c.toNat - 48)) 0 ≤ u64Max)

def validTree (id : String) : Bool :=
  (id.utf8ByteSize == 40 || id.utf8ByteSize == 64) && (bytes id).all isHexByte

def AgentWorkspaceWitness.validate (w : AgentWorkspaceWitness) : Except ControllerError Unit := do
  let identity := w.workspaceIdentity.toList.splitOn ':'
  refuseIf (identity.length ≠ 3 ∨ identity.head? ≠ some ['u', 'n', 'i', 'x'] ∨
      identity.tail.any (fun part => !parsesU64 part) = true)
    (.invalid "invalid isolated writer workspace identity")
  refuseIf (validTree w.baseHead = false ∨ validTree w.parentIndexTree = false ∨ validTree w.workingTree = false ∨
      w.baseHead.utf8ByteSize ≠ w.parentIndexTree.utf8ByteSize ∨ w.baseHead.utf8ByteSize ≠ w.workingTree.utf8ByteSize)
    (.invalid "invalid isolated writer tree witness")

/-! ## Claims and the mailbox -/

def AgentWorkflowClaim.validate (H : Hashes) (c : AgentWorkflowClaim) : Except ControllerError Unit := do
  refuseIf (plain 128 c.workflowId = false ∨ c.nodeId = 0 ∨ c.attempt = 0 ∨ c.assignedAgent = 0 ∨
      lowerHex64 c.inputDigest = false)
    (.invalid "invalid workflow attribution")
  liftInvalid (validateText c.task)
  validateOption c.execution (fun execution => execution.validate H)
  liftInvalid c.budget.validate

def AgentWorkflowClaim.key (H : Hashes) (c : AgentWorkflowClaim) : String := H.claimKey c.workflowId c.nodeId c.attempt

namespace AgentMailbox

def message (m : AgentMailbox) (id : MessageId) : Option AgentMailboxMessage := m.messages[id]?

def isPending (state : AgentMessageState) : Bool :=
  match state with
  | .accepted | .delivered _ => true
  | _ => false

def pendingCount (m : AgentMailbox) (id : AgentId) : Nat :=
  ((Table.vals m.messages).filter (fun message => message.receiver == id && isPending message.state)).length

/-- A delivery names a valid epoch, and the one the message expected. -/
def badDelivery (message : AgentMailboxMessage) : Bool :=
  match message.state with
  | .delivered epoch | .consumed epoch =>
    !(validateEpoch epoch).isOk || message.expectedEpoch.any (fun expected => expected != epoch)
  | _ => false

def isSettled (state : AgentMessageState) : Bool :=
  match state with
  | .consumed _ | .rejected => true
  | _ => false

def validateMessage (H : Hashes) (agentIds : List AgentId) (id : MessageId) (message : AgentMailboxMessage) :
    Except ControllerError Unit := do
  refuseIf (id = 0 ∨ id ≠ message.id ∨ message.sequence ≠ id ∨ message.receiver ∉ agentIds ∨
      message.sender.any (fun sender => !agentIds.contains sender) = true ∨ lowerHex64 message.contentSha256 = false ∨
      message.text.any (fun text => decide (text.utf8ByteSize > maxAgentTextBytes) || !(validateText text).isOk) = true ∨
      decide (message.kind = .steer) ≠ message.expectedEpoch.isSome ∨
      message.expectedEpoch.any (fun epoch => !(validateEpoch epoch).isOk) = true ∨ badDelivery message = true ∨
      (isSettled message.state = true ∧ message.text.isSome = true))
    (.invalid "invalid durable mailbox message")
  match message.text with
  | some text => refuseIf (H.text text ≠ message.contentSha256) (.invalid "durable mailbox content digest mismatch")
  | none => refuseIf (isPending message.state = true) (.invalid "pending durable mailbox payload is missing")

def validate (H : Hashes) (m : AgentMailbox) (agentIds : List AgentId) (expectedPending : Nat) :
    Except ControllerError Unit := do
  refuseIf (m.messages.size > maxMessages ∨ m.maxPending ≠ expectedPending ∨
      m.nextMessage ≤ m.messages.keys.foldl max 0)
    (.invalid "invalid durable mailbox envelope")
  forM m.messages.toList (fun p => validateMessage H agentIds p.1 p.2)
  refuseIf (agentIds.any (fun id => decide (m.pendingCount id > m.maxPending)) = true) .capacity

end AgentMailbox

namespace AgentControllerSnapshot

variable (H : Hashes) (s : AgentControllerSnapshot)

def validateCohort : Except ControllerError Unit := do
  refuseIf (s.cohortBindings.mainRuns.size ≥ maxCohortMainRuns) .capacity
  match s.cohortBindings.origin with
  | none =>
    refuseIf (s.cohortBindings.mainRuns.isEmpty = false) (.invalid "cohort physical bindings lack their origin")
  | some origin =>
    liftInvalid origin.validate
    refuseIf (origin.configSha256 ≠ H.config s.config)
      (.invalid "cohort origin differs from durable financial genesis")
    let baseline ← s.providerBudgetBaseline (H.providerScope origin.tenant origin.runId)
    refuseIf (baseline.isNone = true) (.invalid "cohort origin differs from durable financial genesis")
    forM s.cohortBindings.mainRuns.toList (fun p => do
      liftInvalid (p.2.validate H)
      refuseIf (p.1 ≠ p.2.scopeSha256 ∨ p.2.tenant ≠ origin.tenant ∨ p.2.runId = origin.runId ∨
          (s.primaryProviderScopeOwner p.1).isSome = true)
        (ControllerError.invalid "invalid cohort fork physical scope ownership"))
    refuseIf (s.agents.contains 1 = false) .unknownAgent

def validateWitness : Except ControllerError Unit :=
  validateOption s.workspaceWitness (fun witness => do
    witness.validate
    refuseIf (s.config.rootCapabilities.contains .reversibleLocal = false)
      (.invalid "writer witness lacks inherited write authority"))

def validateClaim (key : String) (receipt : WorkflowReceipt) : Except ControllerError Unit := do
  receipt.claim.validate H
  let record ← orElseError s.agents[receipt.claim.assignedAgent]? .unknownAgent
  validateOption receipt.claim.execution (fun execution =>
    refuseIf (record.view.parentId ≠ s.scopeOwner execution.origin.parent.providerScopeSha256)
      (.invalid "durable child execution has a foreign native parent"))
  let message ← orElseError (s.mailbox.message receipt.message) .unknownMessage
  refuseIf (key ≠ receipt.claim.key H ∨ receipt.claim.budget.fitsWithin record.view.budget = false ∨
      receipt.epoch.turn = 0 ∨ receipt.epoch.turn ≥ record.nextTurn ∨ receipt.epoch.incarnation = 0 ∨
      receipt.epoch.incarnation > record.view.incarnation ∨ receipt.claim.deadlineUnixMs = 0 ∨
      message.receiver ≠ record.view.agentId ∨ message.kind ≠ .task ∨
      message.contentSha256 ≠ H.text receipt.claim.task)
    (.invalid "invalid durable workflow claim")
  match receipt.completion with
  | some completion =>
    refuseIf (completion.agentId ≠ record.view.agentId ∨ completion.epoch ≠ receipt.epoch ∨
        completion.summary.utf8ByteSize > maxAgentTextBytes ∨ completion.summary.toList.contains '\x00' = true ∨
        completion.usage.turns = 0 ∨
        (completion.accountingKnown = false ∧ (match record.view.state with
          | .recoveryRequired _ => true
          | _ => false) = false))
      (.invalid "invalid durable workflow completion")
  | none =>
    refuseIf (record.view.state.epoch ≠ some receipt.epoch) (.invalid "unsettled workflow lost its runtime epoch")

def validateClaims : Except ControllerError Unit := do
  refuseIf (s.workflowClaims.size > maxReceipts) .capacity
  forM s.workflowClaims.toList (fun p => s.validateClaim H p.1 p.2)

/-! ## One agent -/

def pathWithin (path parent : String) : Bool :=
  let normal := fun c => if c = '\\' then '/' else c
  let path := path.toList.map normal
  let parent := parent.toList.map normal
  path == parent || (parent.isPrefixOf path && (path.drop parent.length).head? == some '/')

def validateIdentity (id : AgentId) (record : AgentRecord) : Except ControllerError Unit := do
  refuseIf (id = 0 ∨ id ≠ record.view.agentId ∨ record.view.incarnation = 0 ∨ record.nextTurn = 0 ∨
      record.nextTurn > record.turnsUsed + 1 ∨ record.view.capabilities.contains .readOnly = false ∨
      record.view.queuedMessages ≠ 0 ∨ record.view.hasPartialOutput = true ∨ record.view.usage ≠ {} ∨
      record.view.reserved ≠ {} ∨ record.view.workspaceScope ≠ s.config.workspaceScope ∨
      record.view.capabilities.isSubsetOf s.config.rootCapabilities = false ∨
      record.view.budget.fitsWithin s.config.rootBudget = false ∨
      record.view.lastSummary.any
        (fun text => decide (text.utf8ByteSize > maxAgentTextBytes) || text.toList.contains '\x00') = true)
    (.invalid "invalid durable agent identity or authority")
  liftInvalid record.view.budget.validate
  liftInvalid (validateLabel record.view.label)
  liftInvalid (validateWritePaths record.view.writePaths)
  refuseIf (record.view.writePaths ≠ [] ∧ record.view.capabilities.contains .reversibleLocal = false)
    (.invalid "durable writer has no write authority")

def reservedFits (record : AgentRecord) : Bool :=
  decide (record.reservedTurns ≤ record.view.budget.turns) && decide (record.reservedTokens ≤ record.view.budget.tokens) &&
    decide (record.reservedCost ≤ record.view.budget.costMicrousd)

/-- What was used and what is reserved fit the budget together. -/
def usageFits (record : AgentRecord) : Bool :=
  (checkedAdd32 record.turnsUsed record.reservedTurns).any (fun used => decide (used ≤ record.view.budget.turns)) &&
    (checkedAdd record.tokensUsed record.reservedTokens).any (fun used => decide (used ≤ record.view.budget.tokens)) &&
    (checkedAdd record.costUsed record.reservedCost).any (fun used => decide (used ≤ record.view.budget.costMicrousd)) &&
    decide (record.wallUsedMs ≤ record.view.budget.wallMs)

def mayExceed (state : AgentState) : Bool :=
  match state with
  | .recoveryRequired _ | .closed => true
  | _ => false

def childrenOf (id : AgentId) : List AgentRecord :=
  (Table.vals s.agents).filter (fun child => child.view.parentId == some id)

def addChild (held : Nat × Nat × Nat) (child : AgentRecord) : Except ControllerError (Nat × Nat × Nat) := do
  let turns ← orElseError (checkedAdd32 held.1 child.view.budget.turns) .budget
  let tokens ← orElseError (checkedAdd held.2.1 child.view.budget.tokens) .budget
  let cost ← orElseError (checkedAdd held.2.2 child.view.budget.costMicrousd) .budget
  pure (turns, tokens, cost)

/-- What an agent's children and its unresolved receipts hold of its budget. -/
def reservation (id : AgentId) : Except ControllerError (Nat × Nat × Nat) := do
  let held ← (s.childrenOf id).foldlM addChild (0, 0, 0)
  let pending ← s.pending id
  let tokens ← orElseError (checkedAdd held.2.1 pending.1) .budget
  let cost ← orElseError (checkedAdd held.2.2 pending.2) .budget
  pure (held.1, tokens, cost)

def validateReservations (id : AgentId) (record : AgentRecord) : Except ControllerError Unit := do
  refuseIf (reservedFits record = false ∨ (usageFits record = false ∧ mayExceed record.view.state = false))
    (.invalid "durable budget exceeds reservation envelope")
  let reservation ← s.reservation id
  refuseIf (reservation ≠ (record.reservedTurns, record.reservedTokens, record.reservedCost))
    (.invalid "durable budget reservations disagree with child ownership")

def validateRoot (id : AgentId) (record : AgentRecord) : Except ControllerError Unit := do
  refuseIf (decide (id = 1) ≠ record.view.parentId.isNone) (.invalid "invalid durable root identity")
  refuseIf (id = 1 ∧ (record.view.capabilities ≠ s.config.rootCapabilities ∨
      record.view.budget ≠ s.config.rootBudget ∨ record.view.writePaths ≠ []))
    (.invalid "durable root differs from genesis authority")

def validateNativeExecution (record : AgentRecord) : Except ControllerError Unit :=
  validateOption record.nativeExecution (fun execution => do
    execution.validate H
    refuseIf (record.view.parentId.isNone = true ∨
        s.scopeOwner execution.origin.parent.providerScopeSha256 ≠ record.view.parentId)
      (.invalid "ordinary native child source owner differs"))

def covered (paths allowed : List String) : Bool := paths.all (fun path => allowed.any (fun a => pathWithin path a))

/-- Walk to the root, checking that no agent exceeds its parent. -/
def validateAncestry : Nat → AgentId → Except ControllerError Unit
  | 0, _ => .error (.invalid "cyclic or too deep durable hierarchy")
  | fuel + 1, id => do
    let current ← orElseError s.agents[id]? (.invalid "missing durable parent")
    match current.view.parentId with
    | none => pure ()
    | some parent =>
      let parentRecord ← orElseError s.agents[parent]? (.invalid "missing durable parent")
      refuseIf (current.view.capabilities.isSubsetOf parentRecord.view.capabilities = false ∨
          current.view.budget.fitsWithin parentRecord.view.budget = false ∨
          (parent ≠ 1 ∧ covered current.view.writePaths parentRecord.view.writePaths = false))
        (.invalid "durable child exceeds parent authority")
      validateAncestry fuel parent

def validateRuntime (id : AgentId) (record : AgentRecord) : Except ControllerError Unit :=
  match record.view.state.epoch with
  | some epoch => do
    refuseIf (record.runtimeStartedAtUnixMs = some 0) (.invalid "invalid durable runtime clock anchor")
    refuseIf (epoch.incarnation ≠ record.view.incarnation ∨ epoch.turn = 0 ∨ epoch.turn ≥ record.nextTurn)
      (.invalid "invalid durable active epoch")
    let task ← orElseError (record.activeTask.bind s.mailbox.message) (.invalid "durable active task is missing")
    refuseIf (task.receiver ≠ id ∨ task.kind ≠ .task) (.invalid "durable active task has the wrong owner")
  | none =>
    refuseIf (record.activeTask.isSome = true ∨ record.runtimeStartedAtUnixMs.isSome = true)
      (.invalid "idle agent retains an active task")

def validateAgent (id : AgentId) (record : AgentRecord) : Except ControllerError Unit := do
  s.validateIdentity id record
  s.validateReservations id record
  s.validateRoot id record
  s.validateNativeExecution H record
  s.validateAncestry (maxHierarchyDepth + 1) id
  s.validateRuntime id record

/-! ## The snapshot -/

def validateRequestReceipt (receipt : RequestReceipt) : Except ControllerError Unit :=
  refuseIf (lowerHex64 receipt.digest = false ∨ receipt.reply.version ≠ agentControlVersion ∨
      receipt.reply.revision = 0 ∨ receipt.reply.revision > s.revision ∨ receipt.reply.replayed = true ∨
      s.agents.contains receipt.reply.agentId = false ∨
      receipt.reply.messageId.any (fun id =>
        (s.mailbox.message id).all (fun message => message.receiver != receipt.reply.agentId)) = true)
    (.invalid "invalid durable request receipt")

def validateSnapshot : Except ControllerError Unit := do
  s.config.validate
  s.validateProviderBudget H
  s.validateCohort H
  s.validateWitness
  refuseIf (s.version ≠ agentControlVersion ∨ s.revision > maxRevision ∨ s.agents.size > s.config.maxAgents ∨
      s.receipts.size > maxReceipts ∨ s.agents.contains 1 = false ∨ s.nextAgent ≤ s.agents.keys.foldl max 0)
    (.invalid "invalid controller snapshot envelope")
  forM s.agents.toList (fun p => s.validateAgent H p.1 p.2)
  s.validateClaims H
  s.mailbox.validate H s.agents.keys s.config.maxPendingPerAgent
  forM (Table.vals s.receipts) s.validateRequestReceipt

end AgentControllerSnapshot
end Iteron.Agents
