import Iteron.CostPhysical
/-!
# CostReplay — the journal's events against the ledger

The replay of one journal: turns and their bindings, the projection that follows a turn's end, and the metrics of the
children.  A call that fails ends the replay, so only the state after an accepted event is kept.
-/
namespace Iteron.Cost

open Machine (saturatingAdd)
open Refuse (refuseIf)

inductive EventKind where
  | childAccountingPending (effectId : String)
  | childAccountingResolved (effectId : String)
  | turnStart
  | turnEnd (usage : Usage)
  | modelSelected (route : PricingRoute)
  | rateCardBound (rateCard : SignedRateCard)
  | costProjected (projection : CostProjection)
  | toolDone (isError : Bool)
  /-- `stamp` is the argument `provider_pricing_at_unix_secs`: absent, not a `u64`, or its value. -/
  | effectIntent (id tool : String) (stamp : Option (Option Nat)) (attempt : Option AttemptIdentity)
  | effectDone (id tool : String) (accounting : Option AttemptAccounting)
  | effectFailed (id tool : String) (accounting : Option AttemptAccounting)
  | effectUnknown (id tool : String) (accounting : Option AttemptAccounting)
  | subagentSpawned (subRun : String)
  | childStarted (workflowId : String) (taskId : Nat) (subRun : String)
  | subagentFinished (subRun : String) (metrics : WorkflowMetrics)
  | childFinished (workflowId : String) (taskId : Nat) (subRun : Option String) (metrics : WorkflowMetrics)
  | other
deriving DecidableEq

/-- One call of `observe`: the event, its tenant and its run. -/
structure Input where
  tenant : String
  run : String
  turn : Nat
  kind : EventKind

namespace Input

def scope (i : Input) : Scope := (i.tenant, i.run, i.turn)

def isSealed (i : Input) : Bool :=
  match i.kind with
  | .effectIntent _ tool stamp _ => tool == "provider" && stamp.isSome
  | _ => false

def isProjection (i : Input) : Bool :=
  match i.kind with
  | .costProjected _ => true
  | _ => false

def isBinding (i : Input) : Bool :=
  match i.kind with
  | .modelSelected _ => true
  | .rateCardBound _ => true
  | _ => false

end Input

structure OpenProviderTurn where
  providerAttempt : Nat
  route : Option PricingRoute
  rateCardDigest : Option String
  bindingEpoch : Nat

structure PendingTurn where
  usage : Usage
  route : PricingRoute
  identity : CostProjectionIdentity
  rateCardDigest : Option String

/-- A `PricingReplay` with the ledger it is fed. -/
structure Replay where
  selectedRoute : Option PricingRoute := none
  boundRateCards : List (String × SignedRateCard) := []
  activeRateCard : Option String := none
  bindingEpoch : Nat := 0
  openProviderTurns : List (Scope × OpenProviderTurn) := []
  physical : Option Physical := none
  pendingPhysical : Option TurnProof := none
  pendingTurn : Option PendingTurn := none
  openSubRuns : List String := []
  workflowAdmissions : List ((String × Nat) × String) := []
  workflowSubRuns : List (String × (String × Nat)) := []
  terminalSubRuns : List String := []
  workflowTasks : List (String × Nat) := []
  consumedProjectionIdentities : List CostProjectionIdentity := []
  consumedProjectionDigests : List String := []
  ledger : Ledger := {}

variable (H : Hashes) (pricing : Option Port)

namespace Replay

/-! ## Before the event's own case -/

def clearPending (r : Replay) (i : Input) : Replay :=
  if i.isProjection then r else { r with pendingTurn := none, pendingPhysical := none }

/-- A sealed intent starts the physical matcher and retires the run's older open turns. -/
def sealTurn (r : Replay) (i : Input) : Replay :=
  if i.isSealed then
    { r with
      physical := some (r.physical.getD {})
      openProviderTurns := r.openProviderTurns.filter fun p =>
        p.1.1 ≠ i.tenant || p.1.2.1 ≠ i.run || decide (i.turn ≤ p.1.2.2) }
  else r

def observePhysical (r : Replay) (i : Input) : Result Replay :=
  match r.physical with
  | none => pure r
  | some ph =>
    match i.kind with
    | .effectIntent id tool (some stamp) attempt =>
      if tool = "provider" then do
        let ph ← ph.openAttempt H i.scope id stamp attempt r.selectedRoute r.activeRateCard
        pure { r with physical := some ph }
      else pure r
    | .effectDone id tool accounting =>
      if tool = "provider" then do
        let ph ← ph.closeAttempt H i.scope id accounting false
        pure { r with physical := some ph }
      else pure r
    | .effectFailed id tool accounting =>
      if tool = "provider" then do
        let ph ← ph.closeAttempt H i.scope id accounting false
        pure { r with physical := some ph }
      else pure r
    | .effectUnknown id tool accounting =>
      if tool = "provider" then do
        let ph ← ph.closeAttempt H i.scope id accounting true
        pure { r with physical := some ph }
      else pure r
    | _ => pure r

/-! ## Turns and bindings -/

def startTurn (r : Replay) (s : Scope) : Replay :=
  let ledger := r.ledger.attempt
  { r with
    ledger
    openProviderTurns :=
      if (get r.openProviderTurns s).isSome then r.openProviderTurns
      else put r.openProviderTurns s
        { providerAttempt := ledger.providerAttempts
          route := r.selectedRoute
          rateCardDigest := r.activeRateCard
          bindingEpoch := r.bindingEpoch } }

/-- The logical match of a turn's end: its start is open under the binding that is still current. -/
def logicalMatch (r : Replay) (s : Scope) (usage : Usage) (o : OpenProviderTurn) : Option PendingTurn :=
  if o.bindingEpoch = r.bindingEpoch then
    o.route.map fun route =>
      { usage, route
        identity :=
          { tenantId := s.1, runId := s.2.1, turnId := s.2.2, providerAttempt := o.providerAttempt, attribution := none }
        rateCardDigest := o.rateCardDigest }
  else none

def endTurn (r : Replay) (s : Scope) (usage : Usage) : Replay :=
  let started := get r.openProviderTurns s
  let finished := r.physical.map (fun ph => ph.finish s usage)
  { r with
    ledger := r.ledger.replayTurn usage
    openProviderTurns := drop r.openProviderTurns s
    physical := finished.map Prod.fst
    -- a physical terminal is insufficient without its logical start
    pendingPhysical := started.bind (fun _ => finished.bind Prod.snd)
    pendingTurn := started.bind (r.logicalMatch s usage) }

def selectModel (r : Replay) (route : PricingRoute) : Replay :=
  { r with bindingEpoch := saturatingAdd r.bindingEpoch 1, selectedRoute := some route, activeRateCard := none }

def bindRateCard (r : Replay) (card : SignedRateCard) : Result Replay := do
  let r := { r with bindingEpoch := saturatingAdd r.bindingEpoch 1, activeRateCard := none }
  validateRateCardDigest H card
  if r.selectedRoute ≠ some card.rateCard.route then pure r
  else
    match pricing with
    | none => pure r
    | some port =>
      match port.verifyRateCard card with
      | .ok () => pure { r with
          boundRateCards := put r.boundRateCards card.rateCardDigest card
          activeRateCard := some card.rateCardDigest }
      | .error .untrustedRateCard => pure r
      | .error e => .error e

/-! ## Projections -/

/-- The occurrence is consumed before any trust decision. -/
def consume (r : Replay) (identity : CostProjectionIdentity) (projection : CostProjection) : Replay :=
  { r with
    consumedProjectionIdentities := identity :: r.consumedProjectionIdentities
    consumedProjectionDigests := projection.projectionDigest :: r.consumedProjectionDigests }

def charge (r : Replay) (projection : CostProjection) : Result Replay := do
  let ledger ← (r.ledger.applyCostProjection H projection).mapError (fun _ => PricingError.workflowEvidenceMismatch)
  pure { r with ledger }

def projectPhysical (r : Replay) (proof : TurnProof) (projection : CostProjection) : Result Replay := do
  let bound ← demand (proof.matchingBinding projection) .projectionIdentityMismatch
  let identity ← demand projection.identity .missingProjectionIdentity
  let r := { r.consume identity projection with pendingPhysical := none, pendingTurn := none }
  match bound, pricing with
  | true, some port => do
    port.verifyProjectionByDigest projection
    r.charge H projection
  | _, _ => pure r

def projectLogical (r : Replay) (projection : CostProjection) : Result Replay := do
  let pending ← demand (r.pendingTurn.filter fun p => p.usage = projection.usage && p.route = projection.route)
    .projectionNotAdjacent
  let r := { r with pendingTurn := none }
  match projection.identity with
  | none => pure { r with ledger := r.ledger.markLegacyUnattributed }
  | some identity => do
    refuseIf (identity.tenantId ≠ pending.identity.tenantId ∨ identity.runId ≠ pending.identity.runId ∨
      identity.turnId ≠ pending.identity.turnId ∨ identity.providerAttempt ≠ pending.identity.providerAttempt)
      .projectionIdentityMismatch
    let r := r.consume identity projection
    if pending.rateCardDigest ≠ some projection.rateCardDigest then pure r
    else
      match get r.boundRateCards projection.rateCardDigest, pricing with
      | some card, some port => do
        port.verifyProjection card projection
        r.charge H projection
      | _, _ => pure r

def project (r : Replay) (projection : CostProjection) : Result Replay := do
  validateProjectionDigest H projection
  refuseIf ((projection.identity.any fun identity => decide (identity ∈ r.consumedProjectionIdentities)) = true ∨
    projection.projectionDigest ∈ r.consumedProjectionDigests) .duplicateProjection
  match r.pendingPhysical with
  | some proof => r.projectPhysical H pricing proof projection
  | none => r.projectLogical H pricing projection

/-! ## Children -/

/-- `HashSet::insert`, with the ledger counting a new child. -/
def openSubRun (r : Replay) (subRun : String) : Replay :=
  if subRun ∈ r.openSubRuns then r
  else { r with openSubRuns := subRun :: r.openSubRuns, ledger := r.ledger.admitChildAttribution }

def closeSubRun (r : Replay) (subRun : String) : Replay :=
  if subRun ∈ r.openSubRuns then
    { r with
      openSubRuns := r.openSubRuns.filter (· ≠ subRun)
      ledger := r.ledger.resolveChildAttribution }
  else r

def startChild (r : Replay) (task : String × Nat) (subRun : String) : Result Replay := do
  refuseIf ((get r.workflowAdmissions task).any (fun existing => decide (existing ≠ subRun)) = true)
    .workflowEvidenceMismatch
  refuseIf ((get r.workflowSubRuns subRun).any (fun existing => decide (existing ≠ task)) = true)
    .workflowEvidenceMismatch
  pure (openSubRun
    { r with
      workflowAdmissions := put r.workflowAdmissions task subRun
      workflowSubRuns := put r.workflowSubRuns subRun task } subRun)

/-- The checks of a child's projections against its terminal. -/
def checkChildProjections (port : Port) (tenant subRun : String) (attribution : CostAttribution) :
    List (Nat × Nat) → List String → List CostProjection → Result Unit
  | _, _, [] => pure ()
  | attempts, digests, projection :: rest => do
    let identity ← demand projection.identity .missingProjectionIdentity
    refuseIf (identity.tenantId ≠ tenant ∨ identity.runId ≠ subRun ∨ identity.attribution ≠ some attribution ∨
      identity.providerAttempt = 0 ∨ (identity.turnId, identity.providerAttempt) ∈ attempts ∨
      projection.projectionDigest ∈ digests) .projectionIdentityMismatch
    port.verifyProjectionByDigest projection
    checkChildProjections port tenant subRun attribution ((identity.turnId, identity.providerAttempt) :: attempts)
      (projection.projectionDigest :: digests) rest

def observeWorkflowMetrics (ledger : Ledger) (tenant subRun : String) (attribution : CostAttribution)
    (metrics : WorkflowMetrics) : Result Ledger :=
  match metrics.cost, pricing with
  | some cost, some port => do
    refuseIf (metrics.completedTurns = 0 ∨ maxWorkflowCostProjections < metrics.completedTurns ∨
      cost.projections.length ≠ metrics.completedTurns) .workflowEvidenceMismatch
    if cost.projections.any (fun projection => projection.identity.isNone) then
      pure (ledger.mergeWorkflowMetrics metrics)
    else do
      checkChildProjections port tenant subRun attribution [] [] cost.projections
      (ledger.mergeVerifiedWorkflowMetrics H metrics).mapError (fun _ => PricingError.workflowEvidenceMismatch)
  | _, _ => pure (ledger.mergeWorkflowMetrics metrics)

def finishSubagent (r : Replay) (i : Input) (subRun : String) (metrics : WorkflowMetrics) : Result Replay := do
  refuseIf (subRun ∈ r.terminalSubRuns) .duplicateWorkflowTerminal
  let ledger ← observeWorkflowMetrics H pricing r.ledger i.tenant subRun (.directSubagent i.run subRun) metrics
  let r := closeSubRun { r with ledger } subRun
  pure { r with terminalSubRuns := subRun :: r.terminalSubRuns }

/-- The ledger of a finished child, and its run resolved and terminal. -/
def settleChild (r : Replay) (i : Input) (task : String × Nat) (metrics : WorkflowMetrics) :
    Option String → Result Replay
  | none => pure { r with ledger := r.ledger.mergeWorkflowMetrics metrics }
  | some subRun => do
    let ledger ← observeWorkflowMetrics H pricing r.ledger i.tenant subRun
      (.workflowChild i.run task.1 task.2 subRun) metrics
    let r := closeSubRun { r with ledger } subRun
    pure { r with terminalSubRuns := subRun :: r.terminalSubRuns }

def finishChild (r : Replay) (i : Input) (task : String × Nat) (subRun : Option String) (metrics : WorkflowMetrics) :
    Result Replay := do
  refuseIf (task ∈ r.workflowTasks ∨ (subRun.any fun s => decide (s ∈ r.terminalSubRuns)) = true)
    .duplicateWorkflowTerminal
  refuseIf (metrics.cost.isSome ∧ subRun = none) .workflowEvidenceMismatch
  refuseIf ((get r.workflowAdmissions task).isSome ∧ subRun = none) .workflowEvidenceMismatch
  refuseIf ((get r.workflowAdmissions task).any (fun admitted => subRun.any (fun s => decide (admitted ≠ s))) = true)
    .workflowEvidenceMismatch
  let r ← settleChild H pricing r i task metrics subRun
  pure { r with workflowTasks := task :: r.workflowTasks }

/-! ## `observe` -/

def observeKind (r : Replay) (i : Input) : Result Replay :=
  match i.kind with
  | .childAccountingPending effectId => do
    let ledger ← (r.ledger.beginChildAccounting effectId).mapError PricingError.invalidField
    pure { r with ledger }
  | .childAccountingResolved effectId => do
    let ledger ← (r.ledger.resolveChildAccounting effectId).mapError PricingError.invalidField
    pure { r with ledger }
  | .turnStart => pure (r.startTurn i.scope)
  | .turnEnd usage => pure (r.endTurn i.scope usage)
  | .modelSelected route => pure (r.selectModel route)
  | .rateCardBound card => r.bindRateCard H pricing card
  | .costProjected projection => r.project H pricing projection
  | .toolDone isError => pure { r with ledger := r.ledger.replayTool isError }
  | .effectUnknown _ _ _ => pure { r with ledger := r.ledger.replayTool true }
  | .subagentSpawned subRun => pure (r.openSubRun subRun)
  | .childStarted workflowId taskId subRun => r.startChild (workflowId, taskId) subRun
  | .subagentFinished subRun metrics => r.finishSubagent H pricing i subRun metrics
  | .childFinished workflowId taskId subRun metrics => r.finishChild H pricing i (workflowId, taskId) subRun metrics
  | _ => pure r

def observe (r : Replay) (i : Input) : Result Replay := do
  let r ← ((r.clearPending i).sealTurn i).observePhysical H i
  r.observeKind H pricing i

def replay (r : Replay) (es : List Input) : Result Replay := es.foldlM (observe H pricing) r

end Replay

end Iteron.Cost
