import Iteron.AgentMailbox
/-!
# AgentProvider — physical provider accounting and the host's bindings

Each call of the controller reads one snapshot and either answers from it or prepares the next one to commit
(`Prepared`).  This module has the checks the calls share and the calls of the provider budget, the cohort and the
workspace witness; none of these moves an agent to another state or touches the mailbox.
-/
namespace Iteron.Agents

open Machine Refuse Text

inductive Reply where
  | done
  | control (reply : AgentControlReply)
  | epoch (epoch : Option AgentEpoch)
  | messages (delivered : List AgentMailboxMessage)
  | lease (lease : AgentWorkflowLease)
  | childLease (claim : AgentWorkflowClaim) (lease : AgentWorkflowLease)

def Reply.handedOut : Reply → List AgentMailboxMessage
  | .messages delivered => delivered
  | .lease given => given.initial
  | .childLease _ given => given.initial
  | _ => []

/-- A call that passed its checks: an answer from the snapshot as it is, or a snapshot to commit and what is returned
once it is durable. -/
inductive Prepared where
  | answer (reply : Reply)
  | commit (next : AgentControllerSnapshot) (reply : Except ControllerError Reply)

def nextRevision (revision : Nat) : Except ControllerError Nat :=
  orElseError ((checkedAdd revision 1).filter (fun next => decide (next ≤ maxRevision))) .capacity

namespace AgentControllerSnapshot

variable (H : Hashes) (s : AgentControllerSnapshot)

/-! ## Checks -/

def checkOpen (id : AgentId) : Except ControllerError Unit := do
  let record ← orElseError s.agents[id]? .unknownAgent
  match record.view.state with
  | .closed | .closing _ => .error .closed
  | .recoveryRequired _ => .error .recoveryRequired
  | .idle | .running _ | .interrupting _ => .ok ()

def checkActor : AgentActor → Except ControllerError Unit
  | .operator => .ok ()
  | .agent id => s.checkOpen id

def checkRunning (id : AgentId) (epoch : AgentEpoch) : Except ControllerError Unit := do
  let record ← orElseError s.agents[id]? .unknownAgent
  refuseIf (record.view.state ≠ .running epoch) .staleEpoch

def isDescendantIn : Nat → AgentId → AgentId → Bool
  | 0, _, _ => false
  | fuel + 1, child, parent =>
    match s.agents[child]?.bind (fun record => record.view.parentId) with
    | none => false
    | some next => next == parent || isDescendantIn fuel next parent

def isDescendant (child parent : AgentId) : Bool := s.isDescendantIn maxHierarchyDepth child parent

def depthFrom : Nat → Nat → AgentId → Except ControllerError Nat
  | 0, _, _ => .error (.invalid "agent hierarchy is cyclic or too deep")
  | fuel + 1, depth, id => do
    let record ← orElseError s.agents[id]? .unknownAgent
    match record.view.parentId with
    | some parent => depthFrom fuel (depth + 1) parent
    | none => pure depth

def depth (id : AgentId) : Except ControllerError Nat := s.depthFrom (maxHierarchyDepth + 1) 0 id

def checkControl (actor : AgentActor) (target : AgentId) : Except ControllerError Unit := do
  refuseIf (s.agents.contains target = false) .unknownAgent
  match actor with
  | .operator => pure ()
  | .agent sender => refuseIf (sender = target ∨ s.isDescendant target sender = false) .permission

def canMessage (actor : AgentActor) (target : AgentId) : Bool :=
  s.agents[target]?.any (fun receiver =>
    match actor with
    | .operator => true
    | .agent sender => s.agents[sender]?.any (fun source =>
        source.view.workspaceScope == receiver.view.workspaceScope &&
          (sender == target || source.view.parentId == some target || receiver.view.parentId == some sender ||
            (source.view.parentId.isSome && source.view.parentId == receiver.view.parentId))))

def project (record : AgentRecord) : AgentView :=
  { record.view with
    queuedMessages := s.mailbox.pendingCount record.view.agentId
    reserved := ⟨record.reservedTurns, record.reservedTokens, record.reservedCost, 0⟩
    usage := ⟨record.turnsUsed, record.tokensUsed, record.costUsed, record.wallUsedMs⟩ }

def inspect (actor : AgentActor) (id : AgentId) : Except ControllerError AgentView := do
  s.checkActor actor
  refuseIf (s.canMessage actor id = false) .permission
  let record ← orElseError s.agents[id]? .unknownAgent
  pure (s.project record)

def validateEngineOrigin (actor : AgentActor) (origin : AgentEngineOrigin) : Except ControllerError Unit := do
  s.checkActor actor
  origin.validate H
  match actor with
  | .operator => .error .permission
  | .agent parent =>
    refuseIf (s.scopeOwner origin.parent.providerScopeSha256 ≠ some parent) .permission
    s.checkOpen parent

/-! ## What an epoch used -/

/-- The physical receipts of one epoch of an agent, or of the root outside its epochs. -/
def epochReceipts (id : AgentId) (epoch : Option AgentEpoch) : List Receipt :=
  (Table.vals s.providerBudget.receipts).filter (fun r => r.request.agentId == id && r.request.epoch == epoch)

def addKnown (usage : AgentUsage) (receipt : Receipt) : Except ControllerError AgentUsage :=
  match receipt.terminal with
  | some (.known tokens cost) => do
    let tokens ← orElseError (checkedAdd usage.tokens tokens) .budget
    let cost ← orElseError (checkedAdd usage.costMicrousd cost) .budget
    pure { usage with tokens := tokens, costMicrousd := cost }
  | _ => pure usage

def epochUsage (id : AgentId) (epoch : AgentEpoch) : Except ControllerError (Option AgentUsage) :=
  let receipts := s.epochReceipts id (some epoch)
  if receipts.isEmpty then pure none
  else do
    let usage ← receipts.foldlM addKnown { turns := receipts.length }
    pure (some usage)

/-- The usage to settle, whether it is from physical receipts, and whether all of these are known. -/
def settlementUsage (id : AgentId) (epoch : AgentEpoch) (supplied : AgentUsage) :
    Except ControllerError (AgentUsage × Bool × Bool) := do
  match ← s.epochUsage id epoch with
  | none => pure (supplied, false, true)
  | some usage =>
    pure ({ usage with wallMs := supplied.wallMs }, true, !(s.epochReceipts id (some epoch)).any Receipt.unresolved)

def validateRecovery (id : AgentId) (epoch : AgentEpoch) (supplied : AgentUsage) : Except ControllerError Unit := do
  let usage ← s.epochUsage id epoch
  refuseIf (usage.isSome = true ∧ (supplied.turns ≠ 0 ∨ supplied.tokens ≠ 0 ∨ supplied.costMicrousd ≠ 0 ∨
      (s.epochReceipts id (some epoch)).any Receipt.unresolved = true))
    .recoveryRequired

def claimsOf (id : AgentId) (epoch : AgentEpoch) (receipt : WorkflowReceipt) : Bool :=
  receipt.claim.assignedAgent == id && receipt.epoch == epoch

def settlementFits (id : AgentId) (epoch : AgentEpoch) (usage : AgentUsage) : Bool :=
  ((Table.vals s.workflowClaims).filter (claimsOf id epoch)).all (fun receipt =>
    decide (usage.turns ≤ receipt.claim.budget.turns) && decide (usage.tokens ≤ receipt.claim.budget.tokens) &&
      decide (usage.costMicrousd ≤ receipt.claim.budget.costMicrousd) &&
      decide (usage.wallMs ≤ receipt.claim.budget.wallMs))

def recordCompletion (id : AgentId) (epoch : AgentEpoch) (summary : String) (usage : AgentUsage)
    (effectsKnown accountingKnown : Bool) (terminal : AgentWorkflowTerminal) :
    Std.ExtTreeMap String WorkflowReceipt :=
  let completion : AgentWorkflowCompletion :=
    { agentId := id, epoch := epoch, summary := summary, usage := { usage with turns := max usage.turns 1 },
      effectsKnown := effectsKnown, accountingKnown := accountingKnown, terminal := terminal }
  s.workflowClaims.map (fun _ receipt =>
    if claimsOf id epoch receipt then { receipt with completion := some completion } else receipt)

def recoveredCompletion (id : AgentId) (epoch : AgentEpoch) (additional : AgentUsage) (physical : Option AgentUsage)
    (completion : Option AgentWorkflowCompletion) : Except ControllerError AgentWorkflowCompletion := do
  let completion := completion.getD
    { agentId := id, epoch := epoch, summary := "Runtime effects reconciled after restart", usage := { turns := 1 },
      effectsKnown := false, accountingKnown := false, terminal := .stoppedRecovery }
  let turns ← orElseError (checkedAdd32 completion.usage.turns additional.turns) .budget
  let tokens ← orElseError (checkedAdd completion.usage.tokens additional.tokens) .budget
  let cost ← orElseError (checkedAdd completion.usage.costMicrousd additional.costMicrousd) .budget
  let usage : AgentUsage := match physical with
    | some usage => { usage with wallMs := completion.usage.wallMs }
    | none => ⟨turns, tokens, cost, completion.usage.wallMs⟩
  let wall ← orElseError (checkedAdd usage.wallMs additional.wallMs) .budget
  pure { completion with
    usage := { usage with wallMs := wall }, effectsKnown := true, accountingKnown := true, terminal := .stoppedRecovery }

def recoverCompletion (id : AgentId) (epoch : AgentEpoch) (additional : AgentUsage) :
    Except ControllerError (Std.ExtTreeMap String WorkflowReceipt) := do
  let physical ← s.epochUsage id epoch
  s.workflowClaims.toList.foldlM (fun claims p =>
    if claimsOf id epoch p.2 then do
      let completion ← recoveredCompletion id epoch additional physical p.2.completion
      pure (claims.insert p.1 { p.2 with completion := some completion })
    else pure claims) s.workflowClaims

/-! ## Provider calls -/

def bindProviderBudget (id : AgentId) (scope : String) : Except ControllerError Prepared := do
  refuseIf (shaIdentity scope = false ∨ s.agents.contains id = false) (.invalid "invalid provider budget run binding")
  match s.providerBudget.bindings[id]? with
  | some binding =>
    refuseIf (binding.scopeSha256 ≠ scope ∧ (id ≠ 1 ∨ s.cohortRootScope scope = false)) .requestConflict
    pure (.answer .done)
  | none =>
    refuseIf (s.cohortRootScope scope = true ∨
        (Table.vals s.providerBudget.bindings).any (fun binding => binding.scopeSha256 == scope) = true)
      .permission
    let revision ← nextRevision s.revision
    pure (.commit { s with
      providerBudget := { s.providerBudget with bindings := s.providerBudget.bindings.insert id ⟨scope, none⟩ }
      revision := revision } (.ok .done))

/-- The second half of `bind_provider_budget_baseline`, after `bind_provider_budget` of the root. -/
def setProviderBudgetBaseline (scope : String) (baseline : AgentProviderBudgetBaseline) :
    Except ControllerError Prepared := do
  match ← s.providerBudgetBaseline scope with
  | some existing =>
    refuseIf (existing ≠ baseline) .requestConflict
    pure (.answer .done)
  | none =>
    refuseIf ((Table.vals s.providerBudget.receipts).any (fun r => r.request.agentId == 1) = true) .recoveryRequired
    let binding ← orElseError s.providerBudget.bindings[1]? .requestConflict
    let revision ← nextRevision s.revision
    pure (.commit { s with
      providerBudget := { s.providerBudget with
        bindings := s.providerBudget.bindings.insert 1 { binding with baseline := some baseline } }
      revision := revision } (.ok .done))

def providerTaskBudget (id : AgentId) (epoch : AgentEpoch) : Option AgentBudget :=
  ((Table.vals s.workflowClaims).find? (claimsOf id epoch)).map (fun receipt => receipt.claim.budget)

/-- What a receipt may have cost: its terminal, or its whole reservation. -/
def addAdmitted (usage : AgentUsage) (receipt : Receipt) : Except ControllerError AgentUsage := do
  let spent := match receipt.terminal with
    | some (.known tokens cost) => (tokens, cost)
    | some .notDispatched => (0, 0)
    | _ => (receipt.request.maxTokens, receipt.request.maxCostMicrousd)
  let tokens ← orElseError (checkedAdd usage.tokens spent.1) .budget
  let cost ← orElseError (checkedAdd usage.costMicrousd spent.2) .budget
  pure { usage with tokens := tokens, costMicrousd := cost }

def checkTaskBudget (request : AgentProviderBudgetRequest) (prior : List Receipt) : Except ControllerError Unit :=
  validateOption (request.epoch.bind (s.providerTaskBudget request.agentId)) (fun budget => do
    let used ← prior.foldlM addAdmitted { turns := prior.length }
    refuseIf (used.turns ≥ budget.turns ∨
        (checkedAdd used.tokens request.maxTokens).all (fun tokens => decide (tokens > budget.tokens)) = true ∨
        (checkedAdd used.costMicrousd request.maxCostMicrousd).all (fun cost => decide (cost > budget.costMicrousd)) = true)
      .budget)

def reserveProviderBudget (request : AgentProviderBudgetRequest) : Except ControllerError Prepared := do
  request.validate
  refuseIf (s.providerBudget.recoveryRequired = true) .recoveryRequired
  refuseIf ((s.providerBudget.bindings[request.agentId]?.all (fun binding =>
      binding.scopeSha256 != request.scopeSha256 &&
        !(request.agentId == 1 && s.cohortRootScope request.scopeSha256))) = true) .permission
  let identity := H.receiptKey request.scopeSha256 request.effectId
  refuseIf (s.providerBudget.receipts.contains identity = true) .requestConflict
  refuseIf (s.providerBudget.receipts.size ≥ maxProviderReceipts) .capacity
  let record ← orElseError s.agents[request.agentId]? .unknownAgent
  refuseIf ((match request.epoch with
      | some epoch => record.view.state == .running epoch
      | none => request.agentId == 1 && record.view.state == .idle) = false)
    .staleEpoch
  let prior := s.epochReceipts request.agentId request.epoch
  refuseIf ((Table.vals s.providerBudget.receipts).any (fun receipt =>
      receipt.request.scopeSha256 == request.scopeSha256 && receipt.request.turn == request.turn &&
        receipt.request.route.physicalAttempt == request.route.physicalAttempt) = true) .requestConflict
  let debit := if request.epoch.isSome ∧ prior.isEmpty then 0 else 1
  refuseIf (((checkedAdd32 record.turnsUsed record.reservedTurns).bind (fun used => checkedAdd32 used debit)).all
        (fun used => decide (used > record.view.budget.turns)) = true ∨
      ((checkedAdd record.tokensUsed record.reservedTokens).bind (fun used => checkedAdd used request.maxTokens)).all
        (fun used => decide (used > record.view.budget.tokens)) = true ∨
      ((checkedAdd record.costUsed record.reservedCost).bind (fun used => checkedAdd used request.maxCostMicrousd)).all
        (fun used => decide (used > record.view.budget.costMicrousd)) = true)
    .budget
  s.checkTaskBudget request prior
  let turnsUsed ← orElseError (checkedAdd32 record.turnsUsed debit) .budget
  let reservedTokens ← orElseError (checkedAdd record.reservedTokens request.maxTokens) .budget
  let reservedCost ← orElseError (checkedAdd record.reservedCost request.maxCostMicrousd) .budget
  let revision ← nextRevision s.revision
  pure (.commit { s with
    agents := s.agents.insert request.agentId
      { record with turnsUsed := turnsUsed, reservedTokens := reservedTokens, reservedCost := reservedCost }
    providerBudget := { s.providerBudget with
      receipts := s.providerBudget.receipts.insert identity ⟨request, debit, none, none⟩ }
    revision := revision } (.ok .done))

/-- Release a reservation on its terminal; an unknown one keeps it. -/
def releaseReservation (agents : Std.ExtTreeMap AgentId AgentRecord) (id : AgentId)
    (request : AgentProviderBudgetRequest) (terminal : AgentProviderBudgetTerminal) :
    Except ControllerError (Std.ExtTreeMap AgentId AgentRecord) :=
  if terminal = .unknown then pure agents
  else do
    let record ← orElseError agents[id]? .unknownAgent
    let reservedTokens ← orElseError (checkedSub record.reservedTokens request.maxTokens) .budget
    let reservedCost ← orElseError (checkedSub record.reservedCost request.maxCostMicrousd) .budget
    let spent := match terminal with
      | .known tokens cost => (tokens, cost)
      | _ => (0, 0)
    let tokensUsed ← orElseError (checkedAdd record.tokensUsed spent.1) .budget
    let costUsed ← orElseError (checkedAdd record.costUsed spent.2) .budget
    pure (agents.insert id { record with
      reservedTokens := reservedTokens, reservedCost := reservedCost, tokensUsed := tokensUsed, costUsed := costUsed })

def overReservation (request : AgentProviderBudgetRequest) : AgentProviderBudgetTerminal → Bool
  | .known tokens cost => decide (tokens > request.maxTokens) || decide (cost > request.maxCostMicrousd)
  | _ => false

/-- A terminal above its reservation is made durable as unknown, and refused. -/
def settleProviderBudget (id : AgentId) (scope effect : String) (route : ProviderRouteAttemptIdentity)
    (terminal : AgentProviderBudgetTerminal) (terminalSha256 : String) : Except ControllerError Prepared := do
  refuseIf (shaIdentity scope = false ∨ shaIdentity terminalSha256 = false)
    (.invalid "invalid provider settlement witness")
  let identity := H.receiptKey scope effect
  match s.providerBudget.receipts[identity]? with
  | none =>
    refuseIf (terminal ≠ .notDispatched) .requestConflict
    pure (.answer .done)
  | some prior =>
    refuseIf (prior.request.agentId ≠ id ∨ prior.request.scopeSha256 ≠ scope) .permission
    refuseIf (prior.request.route.routeId ≠ route.routeId ∨
        prior.request.route.physicalAttempt ≠ route.physicalAttempt ∨
        (terminal ≠ .notDispatched ∧ prior.request.route.maxCostReservationMicrousd ≠ route.maxCostReservationMicrousd))
      .requestConflict
    if prior.terminal = some terminal ∧ prior.terminalSha256 = some terminalSha256 then pure (.answer .done)
    else do
      refuseIf (prior.terminal.isSome = true ∧ prior.terminal ≠ some .unknown) .requestConflict
      if overReservation prior.request terminal then do
        let receipts := s.providerBudget.receipts.insert identity
          { prior with terminal := some .unknown, terminalSha256 := some terminalSha256 }
        let revision ← nextRevision s.revision
        pure (.commit { s with
          providerBudget := { s.providerBudget with receipts := receipts, recoveryRequired := true }
          revision := revision } (.error .budget))
      else do
        let agents ← releaseReservation s.agents id prior.request terminal
        let receipts := s.providerBudget.receipts.insert identity
          { prior with terminal := some terminal, terminalSha256 := some terminalSha256 }
        let revision ← nextRevision s.revision
        pure (.commit { s with
          agents := agents
          providerBudget := { s.providerBudget with
            receipts := receipts
            recoveryRequired := (Table.vals receipts).any (fun r => r.terminal == some .unknown) ||
              (s.providerBudget.recoveryRequired && (Table.vals receipts).any Receipt.unresolved) }
          revision := revision } (.ok .done))

/-! ## Cohort and workspace calls -/

def bindCohortOrigin (origin : AgentCohortOrigin) : Except ControllerError Prepared := do
  liftInvalid origin.validate
  match s.cohortBindings.origin with
  | some existing =>
    refuseIf (existing ≠ origin) .requestConflict
    pure (.answer .done)
  | none =>
    refuseIf (origin.configSha256 ≠ H.config s.config) .requestConflict
    let baseline ← s.providerBudgetBaseline (H.providerScope origin.tenant origin.runId)
    refuseIf (baseline.isNone = true) .requestConflict
    let revision ← nextRevision s.revision
    pure (.commit { s with
      cohortBindings := { s.cohortBindings with origin := some origin }
      revision := revision } (.ok .done))

def attachCohortMainRun (run : AgentCohortMainRun) : Except ControllerError Prepared := do
  liftInvalid (run.validate H)
  let origin ← orElseError s.cohortBindings.origin .recoveryRequired
  refuseIf (run.tenant ≠ origin.tenant ∨ run.runId = origin.runId) .requestConflict
  match s.cohortBindings.mainRuns[run.scopeSha256]? with
  | some existing =>
    refuseIf (existing ≠ run) .requestConflict
    pure (.answer .done)
  | none =>
    refuseIf (s.providerBudget.recoveryRequired = true ∨
        (Table.vals s.agents).any (fun agent => agent.view.state.epoch.isSome) = true) .recoveryRequired
    s.checkOpen 1
    refuseIf (s.cohortBindings.mainRuns.size ≥ maxCohortMainRuns - 1 ∨ (s.scopeOwner run.scopeSha256).isSome = true)
      .capacity
    let revision ← nextRevision s.revision
    pure (.commit { s with
      cohortBindings := { s.cohortBindings with mainRuns := s.cohortBindings.mainRuns.insert run.scopeSha256 run }
      revision := revision } (.ok .done))

/-- The one call that commits under the revision it read. -/
def recordWorkspaceWitness (expected : Option AgentWorkspaceWitness) (witness : AgentWorkspaceWitness) :
    Except ControllerError Prepared := do
  witness.validate
  refuseIf (s.config.rootCapabilities.contains .reversibleLocal = false) .permission
  refuseIf (s.workspaceWitness ≠ expected) .requestConflict
  validateOption expected (fun prior =>
    refuseIf (prior.workspaceIdentity ≠ witness.workspaceIdentity ∨ prior.baseHead ≠ witness.baseHead ∨
        prior.parentIndexTree ≠ witness.parentIndexTree)
      (.invalid "isolated writer changed its immutable repository baseline"))
  if expected = some witness then pure (.answer .done)
  else pure (.commit { s with workspaceWitness := some witness } (.ok .done))

end AgentControllerSnapshot
end Iteron.Agents
