import Iteron.PromotionJournal
import Mathlib.Data.List.Sort
/-!
# PromotionAuthority — the operations of the promotion authority

An operation refreshes the state from the journal, checks its arguments against it, appends one record and refreshes
again.  What it checks and which event it appends is a function of the state (`Op.event`).  The verifier, the dataset
registry and the private storage give each candidate its verified inputs or refuse it.
-/
namespace Iteron.Promotion

open Refuse

/-- What the verifier read off a candidate's manifest and artifact. -/
structure VerifiedCandidateInputs where
  artifactDigest : String
  trainingDatasetDigest : Option String
  evaluationSuiteDigest : String
  baseModel : BaseModelId

structure CandidateAdmission where
  manifest : PolicyManifest
  inputs : Result VerifiedCandidateInputs
  suite : EvaluationSuite
  heldOut : SignedHeldOutEvaluation
  deployment : DeploymentBundle

/-- `CheckpointCandidateAdmission`. -/
structure SlotAdmission where
  policy : String
  inputs : Result VerifiedCandidateInputs
  suite : EvaluationSuite
  heldOut : SignedCheckpointEvaluation

inductive Op where
  | bootstrap (baseline : DeploymentBundle)
  | admitCandidate (c : CandidateAdmission)
  | admitCheckpointCandidate (checkpoint : PolicyCheckpoint) (admissions : Std.ExtTreeMap String SlotAdmission compare)
  | enterShadow
  | completeShadow (observation : SignedStageObservation)
  | completeCanary (observation : SignedStageObservation)
  | rollback

section Events

variable (A : Authority) (s : AuthorityState) (request : PromotionRequest) (authorization : PromotionAuthorization)

def prepareAuthorized (operation : PromotionOperation) : Result Unit := do
  refuseIf (request.operation ≠ operation) .invalidRequestTransition
  refuseIf (s.usedAuthorizations.contains request.authorizationId = true) .authorizationReplay
  verifyAuthorization A request authorization

def bootstrapEvent (baseline : DeploymentBundle) : Result JournalEvent := do
  prepareAuthorized A s request authorization .bootstrap
  baseline.validate A
  refuseIf (request.candidateBundleDigest ≠ baseline.bundle.digest) .invalidRequestTransition
  refuseIf (s.activeBundleDigest.isSome = true) .alreadyBootstrapped
  return .bootstrapped baseline

def verifyHeldOut (identity : CandidateIdentity) (baseline : PolicyRef) (suite : EvaluationSuite)
    (heldOut : SignedHeldOutEvaluation) : Result Unit := do
  refuseIf (suiteMatches identity.primary suite = false) .evaluationIdentityMismatch
  verifyHeldOutWithoutSuite A identity baseline heldOut

def candidateIdentity (c : CandidateAdmission) (active : DeploymentBundle) (verified : VerifiedCandidateInputs) :
    CandidateIdentity :=
  { bundleId := c.deployment.bundle.bundleId
    bundleDigest := c.deployment.bundle.digest
    rollbackBundleId := active.bundle.bundleId
    baselineBundleDigest := active.bundle.digest
    primary :=
      { candidatePolicy := c.manifest.policy
        parentPolicy := c.manifest.parent
        artifactDigest := verified.artifactDigest
        trainingDatasetDigest := verified.trainingDatasetDigest
        evaluationSuiteDigest := verified.evaluationSuiteDigest
        baseModel := verified.baseModel
        evaluationOwnerId := c.suite.ownerId
        evaluatorId := c.heldOut.evaluatorId }
    additionalEvaluations := [] }

def admitCandidateEvent (c : CandidateAdmission) : Result JournalEvent := do
  prepareAuthorized A s request authorization .admitCandidate
  let (_, active) ← s.active
  c.deployment.validate A
  contract (A.checks.manifest c.manifest)
  let slot := c.manifest.policy.slot
  refuseIf (request.candidateBundleDigest ≠ c.deployment.bundle.digest ∨
    c.deployment.bundle.policyFor slot ≠ some c.manifest.policy ∨
    c.deployment.bundle.rollbackTo ≠ some active.bundle.bundleId ∨
    (changedDeploymentSlots A active c.deployment).toList ≠ (oneSlot slot).toList ∨
    (changedPolicySlots active.bundle c.deployment.bundle).toList ≠ (oneSlot slot).toList) .lineageMismatch
  let verified ← c.inputs
  let baseline ← orMismatch (active.bundle.policyFor slot)
  refuseIf (c.manifest.parent ≠ some baseline) .lineageMismatch
  let identity := candidateIdentity c active verified
  verifyHeldOut A identity baseline c.suite c.heldOut
  return .candidateAdmitted c.deployment identity c.heldOut

/-- One slot of a checkpoint admission; its parent is the policy of the active deployment. -/
def evaluateSlot (active deployment : DeploymentBundle) (checkpoint : PolicyCheckpoint) (entry : String × SlotAdmission) :
    Result EvaluationIdentity := do
  let (slot, a) := entry
  let manifest ← orMismatch (checkpoint.manifestFor slot)
  A.checks.admission a.policy manifest
  let verified ← a.inputs
  let baseline ← orMismatch (active.bundle.policyFor slot)
  let e : EvaluationIdentity :=
    { candidatePolicy := manifest.policy
      parentPolicy := some baseline
      artifactDigest := verified.artifactDigest
      trainingDatasetDigest := verified.trainingDatasetDigest
      evaluationSuiteDigest := verified.evaluationSuiteDigest
      baseModel := verified.baseModel
      evaluationOwnerId := a.suite.ownerId
      evaluatorId := a.heldOut.evaluatorId }
  verifyCheckpointHeldOut A deployment.bundle checkpoint.freshHeldOutSlots e baseline manifest a.policy (some a.suite) a.heldOut
  return e

/-- Changed slots come first, each part in the order of the slots. -/
def slotLe (changed : Slots) (left right : String) : Bool :=
  if changed.contains left = changed.contains right then (compare left right).isLE else changed.contains left

def sortEvaluations (changed : Slots) (evaluations : List EvaluationIdentity) : List EvaluationIdentity :=
  evaluations.insertionSort (fun a b => slotLe changed a.candidatePolicy.slot b.candidatePolicy.slot = true)

def checkpointIdentity (deployment active : DeploymentBundle) (primary : EvaluationIdentity)
    (others : List EvaluationIdentity) : CandidateIdentity :=
  { bundleId := deployment.bundle.bundleId
    bundleDigest := deployment.bundle.digest
    rollbackBundleId := active.bundle.bundleId
    baselineBundleDigest := active.bundle.digest
    primary := primary
    additionalEvaluations := others }

/-- The event of a checkpoint admission whose slots were evaluated. -/
def checkpointEvent (checkpoint : PolicyCheckpoint) (admissions : Std.ExtTreeMap String SlotAdmission compare)
    (deployment active : DeploymentBundle) : List EvaluationIdentity → Result JournalEvent
  | [] => .error .freshHeldOutRequired
  | primary :: others => do
    let identity := checkpointIdentity deployment active primary others
    refuseIf (evaluatorsAreIndependent identity deployment.bundle = false) .independentEvaluationRequired
    return .checkpointCandidateAdmitted checkpoint identity (admissions.map (fun _ a => a.policy))
      ((Table.vals admissions).map (fun a => a.heldOut))

def admitCheckpointEvent (checkpoint : PolicyCheckpoint) (admissions : Std.ExtTreeMap String SlotAdmission compare) :
    Result JournalEvent := do
  prepareAuthorized A s request authorization .admitCandidate
  (checkpoint.validate A).mapError (fun _ => .lineageMismatch)
  let (_, active) ← s.active
  let deployment ← checkpoint.deploymentBundleUnchecked A
  let activeCheckpoint ← (PolicyCheckpoint.fromDeployment A active).mapError (fun _ => .lineageMismatch)
  let required := checkpoint.freshHeldOutSlots
  let changed := activeCheckpoint.changedSlots checkpoint
  refuseIf (required.isEmpty = true ∨ changed.isEmpty = true ∨ admissions.keys ≠ required.toList ∨
    changed.toList.all (fun slot => required.contains slot) = false ∨
    request.candidateBundleDigest ≠ deployment.bundle.digest ∨
    deployment.bundle.rollbackTo ≠ some active.bundle.bundleId) .lineageMismatch
  let evaluations ← admissions.toList.mapM (evaluateSlot A active deployment checkpoint)
  checkpointEvent checkpoint admissions deployment active (sortEvaluations changed evaluations)

def requireStage (digest : String) (stage : DeploymentStage) : Result CandidateState := do
  let candidate ← s.lookup digest
  refuseIf (candidate.stage ≠ stage) .stageMismatch
  refuseIf ((stage = .candidate ∨ stage = .shadow ∨ stage = .canary) ∧
    s.activeBundleDigest ≠ some candidate.identity.baselineBundleDigest) .lineageMismatch
  return candidate

def enterShadowEvent : Result JournalEvent := do
  prepareAuthorized A s request authorization .enterShadow
  let _ ← requireStage s request.candidateBundleDigest .candidate
  let permit ← issuePermit A request.candidateBundleDigest .shadow
  return .stageTransition request.candidateBundleDigest .candidate .shadow (some permit) none

/-- The permit of the next stage; the active stage has none. -/
def nextPermit (digest : String) (target : DeploymentStage) : Result (Option StagePermit) :=
  if target = .active then .ok none else (issuePermit A digest target).map some

/-- What an observation with these refusal codes is recorded as. -/
def completion (digest : String) (source target : DeploymentStage) (observation : SignedStageObservation) :
    List RefusalCode → Result JournalEvent
  | [] => (nextPermit A digest target).map (fun next => .stageTransition digest source target next (some observation))
  | codes => .ok (.stageRefused digest source codes observation)

/-- `complete_bounded_stage`. -/
def completeEvent (observation : SignedStageObservation) (source target : DeploymentStage) (operation : PromotionOperation) :
    Result JournalEvent := do
  prepareAuthorized A s request authorization operation
  let candidate ← requireStage s request.candidateBundleDigest source
  let permit ← permitOf candidate
  let codes ← stageRefusalCodes A s candidate permit target observation
  completion A request.candidateBundleDigest source target observation codes

def rollbackSource : Result DeploymentStage :=
  match request.expectedFrom with
  | none => .error .invalidRequestTransition
  | some source => .ok source

def rollbackEvent : Result JournalEvent := do
  prepareAuthorized A s request authorization .rollback
  let source ← rollbackSource request
  let candidate ← s.lookup request.candidateBundleDigest
  refuseIf (candidate.stage ≠ source) .stageMismatch
  refuseIf (s.activeBundleDigest ≠ some (if source = .active then request.candidateBundleDigest
    else candidate.identity.baselineBundleDigest)) .lineageMismatch
  let restored ← orMismatch s.bundles[candidate.identity.baselineBundleDigest]?
  return .rolledBack request.candidateBundleDigest source restored.bundle.bundleId restored.bundle.digest

def Op.event : Op → Result JournalEvent
  | .bootstrap baseline => bootstrapEvent A s request authorization baseline
  | .admitCandidate c => admitCandidateEvent A s request authorization c
  | .admitCheckpointCandidate checkpoint admissions => admitCheckpointEvent A s request authorization checkpoint admissions
  | .enterShadow => enterShadowEvent A s request authorization
  | .completeShadow observation => completeEvent A s request authorization observation .shadow .canary .completeShadow
  | .completeCanary observation => completeEvent A s request authorization observation .canary .active .completeCanary
  | .rollback => rollbackEvent A s request authorization

end Events

section Run

variable (A : Authority) (C : Codec)

structure PromotionAuthority where
  journal : Journal
  state : AuthorityState

/-- `PromotionAuthority::refresh`: the state changes only when every record is accepted. -/
def PromotionAuthority.refresh (p : PromotionAuthority) : PromotionAuthority × Result Unit :=
  match readRecords A C p.journal.file with
  | .error e => (p, .error e)
  | .ok records =>
    let p := { p with journal := { p.journal with file := cutTail p.journal.file } }
    match replay A records with
    | .error e => (p, .error e)
    | .ok state => ({ p with state }, .ok ())

/-- The content `PromotionAuthority::append` writes for an event. -/
def contentOf (request : PromotionRequest) (authorization : PromotionAuthorization) (event : JournalEvent) : JournalContent :=
  ⟨A.authorityId, A.policyDigest, request, authorization.partyId, authorization.signature, event⟩

/-- A refused observation is recorded, and then reported. -/
def reported : JournalEvent → Result Unit
  | .stageRefused .. => .error .stageRefused
  | _ => .ok ()

structure Call where
  request : PromotionRequest
  authorization : PromotionAuthorization
  op : Op
  write : Write

def PromotionAuthority.append (p : PromotionAuthority) (call : Call) (event : JournalEvent) : PromotionAuthority × Result Unit :=
  match p.journal.append A C (contentOf A call.request call.authorization event) call.write with
  | (journal, .error e) => ({ p with journal }, .error e)
  | (journal, .ok ()) =>
    match PromotionAuthority.refresh A C { p with journal } with
    | (p, .error e) => (p, .error e)
    | (p, .ok ()) => (p, reported event)

def PromotionAuthority.execute (p : PromotionAuthority) (call : Call) : PromotionAuthority × Result Unit :=
  match p.refresh A C with
  | (p, .error e) => (p, .error e)
  | (p, .ok ()) =>
    match call.op.event A p.state call.request call.authorization with
    | .error e => (p, .error e)
    | .ok event => p.append A C call event

/-- Dropping the authority and opening its journal again. -/
def PromotionAuthority.reopen (p : PromotionAuthority) : PromotionAuthority :=
  (PromotionAuthority.refresh A C ⟨⟨p.journal.file, false⟩, .start⟩).1

inductive Move where
  | call (c : Call)
  | reopen

def PromotionAuthority.move (p : PromotionAuthority) : Move → PromotionAuthority
  | .call c => (p.execute A C c).1
  | .reopen => p.reopen A C

def PromotionAuthority.run (p : PromotionAuthority) (moves : List Move) : PromotionAuthority :=
  moves.foldl (PromotionAuthority.move A C) p

/-- The authority `open` returns for a file. -/
def PromotionAuthority.open (file : Bytes) : PromotionAuthority := PromotionAuthority.reopen A C ⟨⟨file, false⟩, .start⟩

end Run

end Iteron.Promotion
