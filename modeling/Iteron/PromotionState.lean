import Iteron.PromotionTypes
/-!
# PromotionState — the replay reducer of the promotion journal and its checks

`apply` is the reducer.  Before it a replay verifies the authorization of the record and the attestations its event
carries (`verifyRecord`); `replay` folds both over the records of a journal.  The audit events are left out.
-/
namespace Iteron.Promotion

open Refuse

structure CandidateState where
  identity : CandidateIdentity
  stage : DeploymentStage
  permit : Option StagePermit

structure AuthorityState where
  activeBundleDigest : Option String
  bundles : Std.ExtTreeMap String DeploymentBundle compare
  candidates : Std.ExtTreeMap String CandidateState compare
  usedAuthorizations : Std.ExtTreeMap String Unit compare

def AuthorityState.start : AuthorityState := ⟨none, ∅, ∅, ∅⟩

/-- `checkpoint_evaluations`: the primary evaluation and the others. -/
def CandidateIdentity.evaluations (i : CandidateIdentity) : List EvaluationIdentity := i.primary :: i.additionalEvaluations

def CandidateIdentity.slots (i : CandidateIdentity) : List String := i.evaluations.map (fun e => e.candidatePolicy.slot)

def evaluatedSlots (i : CandidateIdentity) : Result Slots := do
  refuseIf (¬ i.slots.Nodup) .lineageMismatch
  return .ofList i.slots compare

def evaluationsAreCanonical (i : CandidateIdentity) (changed required : Slots) : Bool :=
  i.slots == changed.toList ++ required.toList.filter (fun slot => !changed.contains slot)

def evaluatorsAreIndependent (i : CandidateIdentity) (bundle : PolicyBundle) : Bool :=
  i.evaluations.all (fun e =>
    e.evaluatorId != i.bundleId && !(bundle.policies.map (fun p => p.policyId)).contains e.evaluatorId)

namespace AuthorityState

variable (A : Authority)

def active (s : AuthorityState) : Result (String × DeploymentBundle) :=
  match s.activeBundleDigest with
  | none => .error .missingBaseline
  | some digest =>
    match s.bundles[digest]? with
    | none => .error .missingBaseline
    | some bundle => .ok (digest, bundle)

def applyBootstrap (s : AuthorityState) (request : PromotionRequest) (bundle : DeploymentBundle) :
    Result AuthorityState := do
  refuseIf (request.operation ≠ .bootstrap ∨ request.candidateBundleDigest ≠ bundle.bundle.digest) .invalidRequestTransition
  refuseIf (s.activeBundleDigest.isSome = true ∨ s.bundles.isEmpty = false) .alreadyBootstrapped
  bundle.validate A
  return { s with
    activeBundleDigest := some bundle.bundle.digest
    bundles := s.bundles.insert bundle.bundle.digest bundle }

/-- The request and the identity of an admission name its bundle. -/
def namesBundle (request : PromotionRequest) (bundle : DeploymentBundle) (identity : CandidateIdentity) : Result Unit :=
  refuseIf (request.operation ≠ .admitCandidate ∨ request.candidateBundleDigest ≠ bundle.bundle.digest ∨
    identity.bundleDigest ≠ bundle.bundle.digest ∨ identity.bundleId ≠ bundle.bundle.bundleId) .invalidRequestTransition

/-- There is room for a candidate, and its digest and its bundle id are new. -/
def room (s : AuthorityState) (identity : CandidateIdentity) : Result Unit := do
  refuseIf (s.candidates.size ≥ maxPromotionCandidates) .candidateLimit
  refuseIf (s.candidates.contains identity.bundleDigest = true ∨ s.bundles.contains identity.bundleDigest = true ∨
    (Table.vals s.bundles).any (fun stored => stored.bundle.bundleId == identity.bundleId) = true) .candidateConflict

def register (s : AuthorityState) (bundle : DeploymentBundle) (identity : CandidateIdentity) : AuthorityState :=
  { s with
    bundles := s.bundles.insert identity.bundleDigest bundle
    candidates := s.candidates.insert identity.bundleDigest ⟨identity, .candidate, none⟩ }

def applyCandidate (s : AuthorityState) (request : PromotionRequest) (bundle : DeploymentBundle)
    (identity : CandidateIdentity) : Result AuthorityState := do
  namesBundle request bundle identity
  bundle.validate A
  s.room identity
  let (digest, active) ← s.active
  let slot := identity.primary.candidatePolicy.slot
  refuseIf (identity.additionalEvaluations ≠ [] ∨
    (changedDeploymentSlots A active bundle).toList ≠ (oneSlot slot).toList ∨
    (changedPolicySlots active.bundle bundle.bundle).toList ≠ (oneSlot slot).toList) .lineageMismatch
  refuseIf (identity.baselineBundleDigest ≠ digest ∨ identity.rollbackBundleId ≠ active.bundle.bundleId ∨
    bundle.bundle.rollbackTo ≠ some identity.rollbackBundleId ∨
    bundle.bundle.policyFor slot ≠ some identity.primary.candidatePolicy ∨
    identity.primary.parentPolicy ≠ active.bundle.policyFor slot) .lineageMismatch
  return s.register bundle identity

/-- The attestation of an admitted candidate repeats its identity. -/
def heldOutMatches (identity : CandidateIdentity) (heldOut : SignedHeldOutEvaluation) : Result Unit :=
  refuseIf (heldOut.report.candidate ≠ identity.primary.candidatePolicy ∨
    heldOut.report.artifactDigest ≠ identity.primary.artifactDigest ∨
    heldOut.report.trainingDatasetDigest ≠ identity.primary.trainingDatasetDigest ∨
    heldOut.report.evaluationSuiteDigest ≠ identity.primary.evaluationSuiteDigest ∨
    heldOut.evaluatorId ≠ identity.primary.evaluatorId ∨
    heldOut.report.evidence.baseModel ≠ identity.primary.baseModel) .evaluationIdentityMismatch

/-- The slots of a checkpoint admission: required, changed, evaluated, attested and covered by a policy alike. -/
def slotsAgree (active : DeploymentBundle) (checkpoint : PolicyCheckpoint) (identity : CandidateIdentity)
    (policies : AdmissionPolicies) (attestations : List SignedCheckpointEvaluation) : Result Unit := do
  let evaluated ← evaluatedSlots identity
  let activeCheckpoint ← (PolicyCheckpoint.fromDeployment A active).mapError (fun _ => .lineageMismatch)
  let changed := activeCheckpoint.changedSlots checkpoint
  let required := checkpoint.freshHeldOutSlots
  let attested : Slots := .ofList (attestations.map (fun a => a.report.candidate.slot)) compare
  refuseIf (required.isEmpty = true ∨ changed.isEmpty = true ∨ evaluated.toList ≠ required.toList ∨
    evaluationsAreCanonical identity changed required = false ∨
    evaluatorsAreIndependent identity checkpoint.bundle = false ∨ attested.toList ≠ required.toList ∨
    policies.keys ≠ required.toList ∨ changed.toList.all (fun slot => required.contains slot) = false) .lineageMismatch

def evaluationMatches (active bundle : DeploymentBundle) (checkpoint : PolicyCheckpoint) (e : EvaluationIdentity) :
    Result Unit :=
  let slot := e.candidatePolicy.slot
  refuseIf (bundle.bundle.policyFor slot ≠ some e.candidatePolicy ∨ e.parentPolicy ≠ active.bundle.policyFor slot ∨
    (checkpoint.manifestFor slot).map (fun m => m.policy) ≠ some e.candidatePolicy) .lineageMismatch

def applyCheckpointCandidate (s : AuthorityState) (request : PromotionRequest) (checkpoint : PolicyCheckpoint)
    (identity : CandidateIdentity) (policies : AdmissionPolicies) (attestations : List SignedCheckpointEvaluation) :
    Result AuthorityState := do
  (checkpoint.validate A).mapError (fun _ => .lineageMismatch)
  let bundle ← checkpoint.deploymentBundleUnchecked A
  namesBundle request bundle identity
  s.room identity
  let (digest, active) ← s.active
  slotsAgree A active checkpoint identity policies attestations
  refuseIf (identity.baselineBundleDigest ≠ digest ∨ identity.rollbackBundleId ≠ active.bundle.bundleId ∨
    bundle.bundle.rollbackTo ≠ some identity.rollbackBundleId) .lineageMismatch
  identity.evaluations.forM (evaluationMatches active bundle checkpoint)
  return s.register bundle identity

def expectedOperation : DeploymentStage → DeploymentStage → Option PromotionOperation
  | .candidate, .shadow => some .enterShadow
  | .shadow, .canary => some .completeShadow
  | .canary, .active => some .completeCanary
  | _, _ => none

def lookup (s : AuthorityState) (digest : String) : Result CandidateState :=
  match s.candidates[digest]? with
  | none => .error .candidateNotFound
  | some candidate => .ok candidate

def applyTransition (s : AuthorityState) (request : PromotionRequest) (digest : String) (source target : DeploymentStage)
    (permit : Option StagePermit) (attested : Bool) : Result AuthorityState := do
  refuseIf (expectedOperation source target ≠ some request.operation ∨ request.candidateBundleDigest ≠ digest ∨
    request.expectedFrom ≠ some source ∨ request.target ≠ target ∨ attested ≠ decide (source ≠ .candidate) ∨
    permit.isSome ≠ decide (target ≠ .active)) .invalidRequestTransition
  let candidate ← s.lookup digest
  refuseIf (candidate.stage ≠ source) .stageMismatch
  refuseIf (s.activeBundleDigest ≠ some candidate.identity.baselineBundleDigest) .lineageMismatch
  refuseIf (permit.any (fun p => p.candidateBundleDigest != digest || p.stage != target) = true) .stageMismatch
  return { s with
    candidates := s.candidates.insert digest { candidate with stage := target, permit }
    activeBundleDigest := if target = .active then some digest else s.activeBundleDigest }

def refusalOperation : DeploymentStage → Option PromotionOperation
  | .shadow => some .completeShadow
  | .canary => some .completeCanary
  | _ => none

def applyRefusal (s : AuthorityState) (request : PromotionRequest) (digest : String) (stage : DeploymentStage)
    (codes : List RefusalCode) (attestedDigest : String) : Result AuthorityState := do
  refuseIf (request.candidateBundleDigest ≠ digest ∨ request.expectedFrom ≠ some stage ∨
    refusalOperation stage ≠ some request.operation ∨ codes = [] ∨ codes.length > 6 ∨ digest ≠ attestedDigest)
    .invalidRequestTransition
  let candidate ← s.lookup digest
  refuseIf (candidate.stage ≠ stage) .stageMismatch
  return s

def applyRollback (s : AuthorityState) (request : PromotionRequest) (digest : String) (source : DeploymentStage)
    (restoredId restoredDigest : String) : Result AuthorityState := do
  refuseIf (request.operation ≠ .rollback ∨ request.candidateBundleDigest ≠ digest ∨ request.expectedFrom ≠ some source ∨
    request.target ≠ .rolledBack) .invalidRequestTransition
  let candidate ← s.lookup digest
  refuseIf (candidate.stage ≠ source ∨ candidate.identity.rollbackBundleId ≠ restoredId ∨
    candidate.identity.baselineBundleDigest ≠ restoredDigest) .lineageMismatch
  refuseIf (s.activeBundleDigest ≠ some (if source = .active then digest else restoredDigest)) .lineageMismatch
  refuseIf ((s.bundles[restoredDigest]?).map (fun b => b.bundle.bundleId) ≠ some restoredId) .lineageMismatch
  return { s with
    candidates := s.candidates.insert digest { candidate with stage := .rolledBack, permit := none }
    activeBundleDigest := some restoredDigest }

def applyEvent (s : AuthorityState) (request : PromotionRequest) : JournalEvent → Result AuthorityState
  | .bootstrapped bundle => s.applyBootstrap A request bundle
  | .candidateAdmitted bundle identity heldOut => do
    let s ← s.applyCandidate A request bundle identity
    heldOutMatches identity heldOut
    return s
  | .checkpointCandidateAdmitted checkpoint identity policies attestations =>
    s.applyCheckpointCandidate A request checkpoint identity policies attestations
  | .stageTransition digest source target permit attestation =>
    s.applyTransition request digest source target permit attestation.isSome
  | .stageRefused digest stage codes attestation =>
    s.applyRefusal request digest stage codes attestation.observation.candidateBundleDigest
  | .rolledBack digest source restoredId restoredDigest => s.applyRollback request digest source restoredId restoredDigest

def apply (s : AuthorityState) (record : JournalRecord) : Result AuthorityState := do
  let request := record.content.request
  request.validate
  refuseIf (s.usedAuthorizations.contains request.authorizationId = true) .authorizationReplay
  let s' : AuthorityState := { s with usedAuthorizations := s.usedAuthorizations.insert request.authorizationId () }
  s'.applyEvent A request record.content.event

end AuthorityState

section Verify

variable (A : Authority)

def requireEvaluator (evaluatorId ownerId : String) : Result EvaluatorTrustAnchor :=
  match A.evaluatorAnchors[evaluatorId]? with
  | none => .error .independentEvaluationRequired
  | some anchor => if anchor.suiteOwnerId ≠ ownerId then .error .independentEvaluationRequired else .ok anchor

def requireParty (partyId : String) : Result PromotionTrustAnchor :=
  match A.promotionAnchors[partyId]? with
  | none => .error .unauthorized
  | some anchor => .ok anchor

def verifyAuthorization (request : PromotionRequest) (authorization : PromotionAuthorization) : Result Unit := do
  request.validate
  let anchor ← requireParty A authorization.partyId
  refuseIf (request.operation.requiredRole ∉ anchor.roles) .unauthorized
  let expected ← A.crypto.authorization anchor A.authorityId A.policyDigest request
  refuseIf (expected ≠ authorization.signature) .unauthorized

def verifyRecordAuthorization (content : JournalContent) : Result Unit := do
  refuseIf (content.authorityId ≠ A.authorityId ∨ content.policyDigest ≠ A.policyDigest) .unauthorized
  verifyAuthorization A content.request ⟨content.authorizingParty, content.authorizationSignature⟩

def assessCandidate (evidence : PromotionEvidence) : Result Unit :=
  match A.checks.assess .candidate evidence with
  | .eligibleForReleaseReview .shadow => .ok ()
  | .reject reasons => .error (.promotionRefused reasons)
  | _ => .error (.promotionRefused ["assessor did not return the authorized next stage"])

def verifyHeldOutWithoutSuite (identity : CandidateIdentity) (baseline : PolicyRef) (heldOut : SignedHeldOutEvaluation) :
    Result Unit := do
  let e := identity.primary
  let anchor ← requireEvaluator A heldOut.evaluatorId e.evaluationOwnerId
  let expected ← A.crypto.heldOut anchor heldOut.report
  refuseIf (heldOut.evaluatorId = e.candidatePolicy.policyId ∨ heldOut.evaluatorId = identity.bundleId ∨
    expected ≠ heldOut.signature ∨ heldOut.report.candidate ≠ e.candidatePolicy ∨
    heldOut.report.artifactDigest ≠ e.artifactDigest ∨ heldOut.report.trainingDatasetDigest ≠ e.trainingDatasetDigest ∨
    heldOut.report.evaluationSuiteDigest ≠ e.evaluationSuiteDigest ∨ heldOut.report.evidence.baseModel ≠ e.baseModel ∨
    heldOut.report.evidence.baseline ≠ baseline ∨ heldOut.report.evidence.candidate ≠ e.candidatePolicy)
    .independentEvaluationRequired
  assessCandidate A heldOut.report.evidence

/-- The digest of the evaluated slots, which must be valid slots within the bound. -/
def evaluationSetDigest (slots : Slots) : Result String := do
  refuseIf (slots.isEmpty = true ∨ slots.size > maxPoliciesPerBundle ∨ slots.toList.all slotValid = false) .lineageMismatch
  A.crypto.slots slots.toList

def suiteMatches (e : EvaluationIdentity) (suite : EvaluationSuite) : Bool :=
  suite.ownerId == e.evaluationOwnerId && suite.digest == e.evaluationSuiteDigest

def verifyCheckpointHeldOut (deployment : PolicyBundle) (slots : Slots) (e : EvaluationIdentity) (baseline : PolicyRef)
    (manifest : PolicyManifest) (policy : String) (suite : Option EvaluationSuite) (a : SignedCheckpointEvaluation) :
    Result Unit := do
  A.checks.heldOutReport a.report
  let manifestDigest ← A.crypto.manifest manifest
  let policyDigest ← A.crypto.admissionPolicy policy
  let setDigest ← evaluationSetDigest A slots
  refuseIf (suite.any (fun s => !suiteMatches e s) = true) .evaluationIdentityMismatch
  let anchor ← requireEvaluator A a.evaluatorId e.evaluationOwnerId
  let expected ← A.crypto.checkpoint anchor a
  refuseIf (a.evaluatorId = e.candidatePolicy.policyId ∨ a.evaluatorId = deployment.bundleId ∨ a.evaluatorId ≠ e.evaluatorId ∨
    expected ≠ a.signature ∨ a.checkpointDigest ≠ deployment.digest ∨ a.evaluationSetDigest ≠ setDigest ∨
    a.manifestDigest ≠ manifestDigest ∨ a.admissionPolicyDigest ≠ policyDigest ∨ a.report.candidate ≠ e.candidatePolicy ∨
    a.report.artifactDigest ≠ e.artifactDigest ∨ a.report.trainingDatasetDigest ≠ e.trainingDatasetDigest ∨
    a.report.evaluationSuiteDigest ≠ e.evaluationSuiteDigest ∨ a.report.evidence.baseModel ≠ e.baseModel ∨
    a.report.evidence.baseline ≠ baseline ∨ a.report.evidence.candidate ≠ e.candidatePolicy ∨
    manifest.policy ≠ e.candidatePolicy ∨ manifest.policy.digest ≠ e.artifactDigest ∨
    manifest.trainingDatasetDigest ≠ e.trainingDatasetDigest ∨ manifest.evaluationSuiteDigest ≠ e.evaluationSuiteDigest ∨
    manifest.baseModel ≠ e.baseModel) .independentEvaluationRequired
  assessCandidate A a.report.evidence

def orMismatch {α : Type} : Option α → Result α
  | none => .error .lineageMismatch
  | some a => .ok a

def baselinePolicyFor (s : AuthorityState) (identity : CandidateIdentity) : Result PolicyRef :=
  orMismatch ((s.bundles[identity.baselineBundleDigest]?).bind
    (fun b => b.bundle.policyFor identity.primary.candidatePolicy.slot))

def stageTrafficInvalid (o : StageObservation) : DeploymentStage → Bool
  | .shadow => o.trafficBasisPoints != 0
  | .canary => o.trafficBasisPoints == 0
  | _ => true

def outOfBounds (o : StageObservation) (permit : StagePermit) : Bool :=
  o.permitDigest != permit.digest || o.candidateBundleDigest != permit.candidateBundleDigest || o.stage != permit.stage ||
    o.executedWorkUnits == 0 || decide (o.executedWorkUnits > permit.limits.maxWorkUnits) || o.peakConcurrency == 0 ||
    decide (o.peakConcurrency > permit.limits.maxConcurrency) || o.durationMs == 0 ||
    decide (o.durationMs > permit.limits.maxDurationMs) ||
    decide (o.trafficBasisPoints > permit.limits.maxTrafficBasisPoints) || stageTrafficInvalid o permit.stage

def invariantFailed (policy : PromotionControlPolicy) (e : PromotionEvidence) : Bool :=
  decide (e.candidateSafetyViolations > 0) || decide (e.candidatePolicyViolations > 0) || e.trainEvalOverlap ||
    (policy.requireReplayEquivalence && !e.replayEquivalencePassed) ||
    (policy.requireSandboxSuite && !e.sandboxSuitePassed) ||
    policy.requiredInvariantSuites.any (fun suite => e.invariantSuites[suite]? != some true)

def assessmentCode (stage target : DeploymentStage) (e : PromotionEvidence) : Option RefusalCode :=
  match A.checks.assess stage e with
  | .eligibleForReleaseReview next => if next = target then none else some .promotionThreshold
  | .reject _ => if invariantFailed A.policy e then some .invariantSuite else some .promotionThreshold

def stageRefusalCodes (s : AuthorityState) (candidate : CandidateState) (permit : StagePermit) (target : DeploymentStage)
    (signedObservation : SignedStageObservation) : Result (List RefusalCode) := do
  let e := candidate.identity.primary
  let o := signedObservation.observation
  let anchor ← requireEvaluator A signedObservation.evaluatorId e.evaluationOwnerId
  let expected ← A.crypto.stageResult anchor o
  refuseIf (signedObservation.evaluatorId = e.candidatePolicy.policyId ∨
    signedObservation.evaluatorId = candidate.identity.bundleId ∨ signedObservation.evaluatorId ≠ e.evaluatorId ∨
    expected ≠ signedObservation.signature) .independentEvaluationRequired
  let issued ← issuePermit A candidate.identity.bundleDigest permit.stage
  refuseIf (issued.digest ≠ permit.digest) .independentEvaluationRequired
  let baseline ← baselinePolicyFor s candidate.identity
  let code := assessmentCode A candidate.stage target o.evidence
  let present : RefusalCode → Bool
    | .stageBounds => outOfBounds o issued
    | .invariantSuite => o.evidence.baseline != baseline || o.evidence.candidate != e.candidatePolicy ||
        o.evidence.baseModel != e.baseModel || code == some .invariantSuite
    | .budgetPolicy => decide (o.costMicrousd > issued.limits.maxCostMicrousd)
    | .securityPolicy => o.appliedSecurityPolicyDigest != issued.securityPolicyDigest
    | .durabilityPolicy => o.appliedDurabilityPolicyDigest != issued.durabilityPolicyDigest
    | .promotionThreshold => code == some .promotionThreshold
  return [.stageBounds, .invariantSuite, .budgetPolicy, .securityPolicy, .durabilityPolicy, .promotionThreshold].filter present

def checkCandidate (s : AuthorityState) (identity : CandidateIdentity) (heldOut : SignedHeldOutEvaluation) : Result Unit := do
  let (_, active) ← s.active
  let baseline ← orMismatch (active.bundle.policyFor identity.primary.candidatePolicy.slot)
  verifyHeldOutWithoutSuite A identity baseline heldOut

def checkAttestation (active : DeploymentBundle) (deployment : DeploymentBundle) (checkpoint : PolicyCheckpoint)
    (identity : CandidateIdentity) (policies : AdmissionPolicies) (a : SignedCheckpointEvaluation) : Result Unit := do
  let slot := a.report.candidate.slot
  let manifest ← orMismatch (checkpoint.manifestFor slot)
  let policy ← orMismatch policies[slot]?
  A.checks.admission policy manifest
  let evaluation ← orMismatch (identity.evaluations.find? (fun e => e.candidatePolicy.slot == slot))
  let baseline ← orMismatch (active.bundle.policyFor slot)
  verifyCheckpointHeldOut A deployment.bundle checkpoint.freshHeldOutSlots evaluation baseline manifest policy none a

def checkCheckpoint (s : AuthorityState) (checkpoint : PolicyCheckpoint) (identity : CandidateIdentity)
    (policies : AdmissionPolicies) (attestations : List SignedCheckpointEvaluation) : Result Unit := do
  (checkpoint.validate A).mapError (fun _ => .lineageMismatch)
  let (_, active) ← s.active
  AuthorityState.slotsAgree A active checkpoint identity policies attestations
  refuseIf (attestations.length ≠ checkpoint.freshHeldOutSlots.size) .lineageMismatch
  let deployment ← checkpoint.deploymentBundleUnchecked A
  attestations.forM (checkAttestation A active deployment checkpoint identity policies)

def permitOf (candidate : CandidateState) : Result StagePermit :=
  match candidate.permit with
  | none => .error .stageMismatch
  | some permit => .ok permit

def checkTransition (s : AuthorityState) (sequence : Nat) (digest : String) (source target : DeploymentStage)
    (observation : SignedStageObservation) : Result Unit := do
  let candidate ← s.lookup digest
  let permit ← permitOf candidate
  refuseIf (candidate.stage ≠ source) (.corruptJournal sequence)
  let codes ← stageRefusalCodes A s candidate permit target observation
  refuseIf (codes ≠ []) (.corruptJournal sequence)

/-- The stage after the one an observation was refused at. -/
def refusalTarget : DeploymentStage → Result DeploymentStage
  | .shadow => .ok .canary
  | .canary => .ok .active
  | _ => .error .stageMismatch

def checkRefusal (s : AuthorityState) (sequence : Nat) (digest : String) (stage : DeploymentStage)
    (codes : List RefusalCode) (observation : SignedStageObservation) : Result Unit := do
  let candidate ← s.lookup digest
  let permit ← permitOf candidate
  let target ← refusalTarget stage
  let found ← stageRefusalCodes A s candidate permit target observation
  refuseIf (found ≠ codes) (.corruptJournal sequence)

/-- What a replay verifies of an event before the reducer sees it. -/
def checkEvent (s : AuthorityState) (sequence : Nat) : JournalEvent → Result Unit
  | .candidateAdmitted _ identity heldOut => checkCandidate A s identity heldOut
  | .checkpointCandidateAdmitted checkpoint identity policies attestations =>
    checkCheckpoint A s checkpoint identity policies attestations
  | .stageTransition digest source target _ (some observation) => checkTransition A s sequence digest source target observation
  | .stageRefused digest stage codes observation => checkRefusal A s sequence digest stage codes observation
  | _ => .ok ()

/-- One record of `PromotionAuthority::refresh`. -/
def replayRecord (s : AuthorityState) (record : JournalRecord) : Result AuthorityState := do
  verifyRecordAuthorization A record.content
  checkEvent A s record.sequence record.content.event
  s.apply A record

def replay (records : List JournalRecord) : Result AuthorityState := records.foldlM (replayRecord A) .start

end Verify

end Iteron.Promotion
