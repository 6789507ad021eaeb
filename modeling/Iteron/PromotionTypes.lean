import Iteron.Refuse
import Iteron.Table
import Iteron.Text
/-!
# PromotionTypes — bundles, requests and signed evaluations of the promotion authority

Serialization, digests and signatures are parameters (`Crypto`), and so are the promotion gate, the admission policy of a
manifest and the manifest's own validation (`Checks`).  The numbers of a confidence interval are read by the gate only.
-/
namespace Iteron.Promotion

open Refuse Text

abbrev Bytes := List UInt8

abbrev Slots := Std.ExtTreeSet String compare

def maxShortStringBytes : Nat := 256
def maxPoliciesPerBundle : Nat := 128
def maxDeploymentBundleBytes : Nat := 262144
def maxPromotionCandidates : Nat := 256
def maxPromotionAuditEvents : Nat := 8192

inductive ContractError where
  | invalidSlot
  | invalidDigest
  | missingIdentity
  | invalidBundleIdentity
  | duplicateSlot (slot : String)
  | missingField (field : String)
  | stringTooLong (field : String) (limit actual : Nat)
  | collectionTooLarge (field : String) (limit actual : Nat)
  | other (message : String)

inductive PromotionAuthorityError where
  | io (message : String)
  | json (message : String)
  | contract (error : ContractError)
  /-- The verifier, the dataset registry, the private storage or the manifest's admission policy refused the inputs. -/
  | inputs (message : String)
  | invalidIdentity
  | invalidBundleBytes (actual : Nat)
  | bundleDigestMismatch
  | invalidRequestTransition
  | evaluationIdentityMismatch
  | independentEvaluationRequired
  | unauthorized
  | authorizationReplay
  | alreadyBootstrapped
  | missingBaseline
  | candidateLimit
  | candidateConflict
  | lineageMismatch
  | freshHeldOutRequired
  | candidateNotFound
  | stageMismatch
  | stageRefused
  | promotionRefused (reasons : List String)
  | corruptJournal (sequence : Nat)
  | unsupportedJournalSchema (sequence found : Nat)
  | auditLimit
  | journalTooLarge (actual : Nat)
  | recordTooLarge (actual : Nat)
  | writerPoisoned

abbrev Result := Except PromotionAuthorityError

def blank (value : String) : Bool := value.toList.all isWhitespace

def validateDigest (value : String) : Except ContractError Unit := refuseIf (lowerHex64 value = false) .invalidDigest

def validateString (field value : String) (limit : Nat) : Except ContractError Unit :=
  refuseIf (value.utf8ByteSize > limit) (.stringTooLong field limit value.utf8ByteSize)

def validateNonemptyString (field value : String) (limit : Nat) : Except ContractError Unit := do
  refuseIf (blank value = true) (.missingField field)
  validateString field value limit

def contract {α : Type} (check : Except ContractError α) : Result α := check.mapError .contract

def checkedIdentity (field value : String) : Result Unit := do
  contract (validateNonemptyString field value maxShortStringBytes)
  refuseIf (value.toList.any isControl = true) .invalidIdentity

/-- `StrategySlot::new`. -/
def slotValid (value : String) : Bool :=
  !value.isEmpty && decide (value.utf8ByteSize ≤ 128) &&
    value.toList.all (fun c => (decide ('a' ≤ c) && decide (c ≤ 'z')) || (decide ('0' ≤ c) && decide (c ≤ '9')) ||
      c == '/' || c == '_' || c == '-' || c == '.') &&
    value.toList.head? != some '/' && value.toList.getLast? != some '/' &&
    !(value.toList.zip (value.toList.drop 1)).contains ('/', '/')

structure PolicyRef where
  slot : String
  policyId : String
  version : String
  digest : String
  deriving DecidableEq

def PolicyRef.validate (p : PolicyRef) : Except ContractError Unit := do
  refuseIf (slotValid p.slot = false) .invalidSlot
  refuseIf (blank p.policyId = true ∨ blank p.version = true) .missingIdentity
  validateString "policy.policy_id" p.policyId maxShortStringBytes
  validateString "policy.version" p.version maxShortStringBytes
  validateDigest p.digest

structure PolicyBundle where
  bundleId : String
  digest : String
  policies : List PolicyRef
  rollbackTo : Option String
  deriving DecidableEq

def validatePolicies : List String → List PolicyRef → Except ContractError Unit
  | _, [] => .ok ()
  | slots, policy :: rest => do
    policy.validate
    refuseIf (policy.slot ∈ slots) (.duplicateSlot policy.slot)
    validatePolicies (policy.slot :: slots) rest

def PolicyBundle.validate (b : PolicyBundle) : Except ContractError Unit := do
  refuseIf (blank b.bundleId = true ∨ b.policies = []) .invalidBundleIdentity
  validateString "policy_bundle.bundle_id" b.bundleId maxShortStringBytes
  refuseIf (b.policies.length > maxPoliciesPerBundle)
    (.collectionTooLarge "policy_bundle.policies" maxPoliciesPerBundle b.policies.length)
  b.rollbackTo.forM (fun id => validateNonemptyString "policy_bundle.rollback_to" id maxShortStringBytes)
  validateDigest b.digest
  validatePolicies [] b.policies

def PolicyBundle.policyFor (b : PolicyBundle) (slot : String) : Option PolicyRef :=
  b.policies.find? (fun p => p.slot == slot)

structure DeploymentBundle where
  bundle : PolicyBundle
  bytes : Bytes
  deriving DecidableEq

structure BaseModelId where
  modelFamily : String
  modelId : String
  modelDigest : String
  deriving DecidableEq

/-- The fields the authority compares; `rest` holds the others. -/
structure PolicyManifest where
  policy : PolicyRef
  parent : Option PolicyRef
  trainingDatasetDigest : Option String
  evaluationSuiteDigest : String
  baseModel : BaseModelId
  rest : String
  deriving DecidableEq

abbrev Manifests := Std.ExtTreeMap String PolicyManifest compare

structure PolicyCheckpoint where
  bundle : PolicyBundle
  manifests : Manifests
  deploymentBytes : Bytes
  freshHeldOutSlots : Slots

/-- `numbers` are the confidence intervals and the count of paired tasks. -/
structure PromotionEvidence where
  baseline : PolicyRef
  candidate : PolicyRef
  baseModel : BaseModelId
  numbers : String
  candidateSafetyViolations : Nat
  candidatePolicyViolations : Nat
  trainEvalOverlap : Bool
  replayEquivalencePassed : Bool
  sandboxSuitePassed : Bool
  invariantSuites : Std.ExtTreeMap String Bool compare

inductive DeploymentStage where
  | candidate
  | shadow
  | canary
  | active
  | retired
  | rolledBack
  deriving DecidableEq

inductive PromotionAssessment where
  | eligibleForReleaseReview (suggestedNext : DeploymentStage)
  | reject (reasons : List String)

inductive PromotionOperation where
  | bootstrap
  | admitCandidate
  | enterShadow
  | completeShadow
  | completeCanary
  | rollback
  deriving DecidableEq

inductive PromotionRole where
  | bootstrap
  | admitCandidate
  | advanceStage
  | rollback
  deriving DecidableEq

def PromotionOperation.requiredRole : PromotionOperation → PromotionRole
  | .bootstrap => .bootstrap
  | .admitCandidate => .admitCandidate
  | .enterShadow | .completeShadow | .completeCanary => .advanceStage
  | .rollback => .rollback

structure PromotionRequest where
  authorizationId : String
  operation : PromotionOperation
  candidateBundleDigest : String
  expectedFrom : Option DeploymentStage
  target : DeploymentStage

def validTransition : PromotionOperation → Option DeploymentStage → DeploymentStage → Bool
  | .bootstrap, none, .active => true
  | .admitCandidate, none, .candidate => true
  | .enterShadow, some .candidate, .shadow => true
  | .completeShadow, some .shadow, .canary => true
  | .completeCanary, some .canary, .active => true
  | .rollback, some .shadow, .rolledBack | .rollback, some .canary, .rolledBack | .rollback, some .active, .rolledBack => true
  | _, _, _ => false

def PromotionRequest.validate (r : PromotionRequest) : Result Unit := do
  checkedIdentity "promotion.authorization_id" r.authorizationId
  contract (validateDigest r.candidateBundleDigest)
  refuseIf (validTransition r.operation r.expectedFrom r.target = false) .invalidRequestTransition

structure PromotionAuthorization where
  partyId : String
  signature : String

structure PromotionTrustAnchor where
  partyId : String
  roles : List PromotionRole
  key : Bytes

structure EvaluatorTrustAnchor where
  evaluatorId : String
  suiteOwnerId : String
  key : Bytes

structure HeldOutEvaluation where
  candidate : PolicyRef
  artifactDigest : String
  trainingDatasetDigest : Option String
  evaluationSuiteDigest : String
  evidence : PromotionEvidence

structure SignedHeldOutEvaluation where
  evaluatorId : String
  report : HeldOutEvaluation
  signature : String

structure SignedCheckpointEvaluation where
  evaluatorId : String
  checkpointDigest : String
  evaluationSetDigest : String
  manifestDigest : String
  admissionPolicyDigest : String
  report : HeldOutEvaluation
  signature : String

structure StageLimits where
  maxWorkUnits : Nat
  maxConcurrency : Nat
  maxDurationMs : Nat
  maxTrafficBasisPoints : Nat
  maxCostMicrousd : Nat

structure StagePermit where
  digest : String
  authorityId : String
  policyDigest : String
  candidateBundleDigest : String
  stage : DeploymentStage
  limits : StageLimits
  securityPolicyDigest : String
  durabilityPolicyDigest : String

structure StageObservation where
  permitDigest : String
  candidateBundleDigest : String
  stage : DeploymentStage
  executedWorkUnits : Nat
  peakConcurrency : Nat
  durationMs : Nat
  trafficBasisPoints : Nat
  costMicrousd : Nat
  appliedSecurityPolicyDigest : String
  appliedDurabilityPolicyDigest : String
  evidence : PromotionEvidence

structure SignedStageObservation where
  evaluatorId : String
  observation : StageObservation
  signature : String

/-- `CheckpointEvaluationIdentity`; the fields of a candidate's primary evaluation are the same. -/
structure EvaluationIdentity where
  candidatePolicy : PolicyRef
  parentPolicy : Option PolicyRef
  artifactDigest : String
  trainingDatasetDigest : Option String
  evaluationSuiteDigest : String
  baseModel : BaseModelId
  evaluationOwnerId : String
  evaluatorId : String

structure CandidateIdentity where
  bundleId : String
  bundleDigest : String
  rollbackBundleId : String
  baselineBundleDigest : String
  primary : EvaluationIdentity
  additionalEvaluations : List EvaluationIdentity

inductive RefusalCode where
  | stageBounds
  | invariantSuite
  | budgetPolicy
  | securityPolicy
  | durabilityPolicy
  | promotionThreshold
  deriving DecidableEq

abbrev AdmissionPolicies := Std.ExtTreeMap String String compare

/-- An admission policy is its serialized text. -/
inductive JournalEvent where
  | bootstrapped (bundle : DeploymentBundle)
  | candidateAdmitted (bundle : DeploymentBundle) (identity : CandidateIdentity) (heldOut : SignedHeldOutEvaluation)
  | checkpointCandidateAdmitted (checkpoint : PolicyCheckpoint) (identity : CandidateIdentity)
      (admissionPolicies : AdmissionPolicies) (attestations : List SignedCheckpointEvaluation)
  | stageTransition (candidateBundleDigest : String) (source target : DeploymentStage) (permit : Option StagePermit)
      (attestation : Option SignedStageObservation)
  | stageRefused (candidateBundleDigest : String) (stage : DeploymentStage) (codes : List RefusalCode)
      (attestation : SignedStageObservation)
  | rolledBack (candidateBundleDigest : String) (source : DeploymentStage) (restoredBundleId restoredBundleDigest : String)

structure JournalContent where
  authorityId : String
  policyDigest : String
  request : PromotionRequest
  authorizingParty : String
  authorizationSignature : String
  event : JournalEvent

structure JournalRecord where
  journalSchemaVersion : Nat
  sequence : Nat
  previousHash : String
  recordHash : String
  contentDigest : String
  content : JournalContent

structure EvaluationSuite where
  ownerId : String
  digest : String

/-- `PromotionControlPolicy`, with what the authority reads of its gate. -/
structure PromotionControlPolicy where
  shadow : StageLimits
  canary : StageLimits
  securityPolicyDigest : String
  durabilityPolicyDigest : String
  requireReplayEquivalence : Bool
  requireSandboxSuite : Bool
  requiredInvariantSuites : List String

def PromotionControlPolicy.limits (p : PromotionControlPolicy) : DeploymentStage → Option StageLimits
  | .shadow => some p.shadow
  | .canary => some p.canary
  | _ => none

/-- Digests and signatures of serialized values; a value too large to serialize has none. -/
structure Crypto where
  sha256 : Bytes → String
  authorization : PromotionTrustAnchor → String → String → PromotionRequest → Result String
  heldOut : EvaluatorTrustAnchor → HeldOutEvaluation → Result String
  checkpoint : EvaluatorTrustAnchor → SignedCheckpointEvaluation → Result String
  stageResult : EvaluatorTrustAnchor → StageObservation → Result String
  permit : String → String → String → DeploymentStage → StageLimits → String → String → Result String
  manifest : PolicyManifest → Result String
  admissionPolicy : String → Result String
  slots : List String → Result String
  chainedHash : String → Nat → String → String

/-- The checks of values that the authority passes on unread. -/
structure Checks where
  assess : DeploymentStage → PromotionEvidence → PromotionAssessment
  manifest : PolicyManifest → Except ContractError Unit
  /-- `ManifestAdmissionPolicy::assess`. -/
  admission : String → PolicyManifest → Result Unit
  heldOutReport : HeldOutEvaluation → Result Unit
  /-- `canonical_deployment_bytes` and the reading of them: the bundle id, the rollback target and the manifests. -/
  canonicalBytes : String → Option String → Manifests → Result Bytes
  deploymentContent : Bytes → Result (Nat × String × Option String × Manifests)

structure Authority where
  crypto : Crypto
  checks : Checks
  authorityId : String
  policy : PromotionControlPolicy
  policyDigest : String
  promotionAnchors : Std.ExtTreeMap String PromotionTrustAnchor compare
  evaluatorAnchors : Std.ExtTreeMap String EvaluatorTrustAnchor compare

variable (A : Authority)

/-- `DeploymentBundle::new`. -/
def deploymentNew (bundle : PolicyBundle) (bytes : Bytes) : Result DeploymentBundle := do
  contract bundle.validate
  refuseIf (bytes = [] ∨ bytes.length > maxDeploymentBundleBytes) (.invalidBundleBytes bytes.length)
  refuseIf (A.crypto.sha256 bytes ≠ bundle.digest) .bundleDigestMismatch
  return { bundle, bytes }

def DeploymentBundle.validate (d : DeploymentBundle) : Result Unit := do
  let _ ← deploymentNew A d.bundle d.bytes
  return ()

namespace PolicyCheckpoint

def checkManifest (c : PolicyCheckpoint) (policy : PolicyRef) : Result Unit :=
  match c.manifests[policy.slot]? with
  | none => .error .lineageMismatch
  | some manifest => do
    contract (A.checks.manifest manifest)
    refuseIf (manifest.policy ≠ policy) .lineageMismatch

/-- The errors of the checkpoint algebra are one error to the authority. -/
def validate (c : PolicyCheckpoint) : Result Unit := do
  contract c.bundle.validate
  refuseIf (A.crypto.sha256 c.deploymentBytes ≠ c.bundle.digest) .lineageMismatch
  let canonical ← A.checks.canonicalBytes c.bundle.bundleId c.bundle.rollbackTo c.manifests
  refuseIf (c.deploymentBytes ≠ canonical) .lineageMismatch
  refuseIf (c.manifests.size ≠ c.bundle.policies.length) .lineageMismatch
  c.bundle.policies.forM (checkManifest A c)
  refuseIf (c.bundle.policies ≠ (Table.vals c.manifests).map (fun m => m.policy)) .lineageMismatch
  refuseIf (c.freshHeldOutSlots.toList.all (fun slot => c.manifests.contains slot) = false) .lineageMismatch

def manifestFor (c : PolicyCheckpoint) (slot : String) : Option PolicyManifest := c.manifests[slot]?

def deploymentBundleUnchecked (c : PolicyCheckpoint) : Result DeploymentBundle :=
  deploymentNew A c.bundle c.deploymentBytes

def checkEntry (entry : String × PolicyManifest) : Result Unit := do
  contract (A.checks.manifest entry.2)
  refuseIf (entry.1 ≠ entry.2.policy.slot) .lineageMismatch

def build (bundleId : String) (rollbackTo : Option String) (manifests : Manifests) : Result PolicyCheckpoint := do
  refuseIf (manifests.isEmpty = true) .lineageMismatch
  manifests.toList.forM (checkEntry A)
  let bytes ← A.checks.canonicalBytes bundleId rollbackTo manifests
  let checkpoint : PolicyCheckpoint :=
    { bundle := { bundleId, digest := A.crypto.sha256 bytes, policies := (Table.vals manifests).map (fun m => m.policy),
                  rollbackTo },
      manifests, deploymentBytes := bytes, freshHeldOutSlots := ∅ }
  checkpoint.validate A
  return checkpoint

def fromDeployment (d : DeploymentBundle) : Result PolicyCheckpoint := do
  let (schema, bundleId, rollbackTo, manifests) ← A.checks.deploymentContent d.bytes
  refuseIf (schema ≠ 1) .lineageMismatch
  let checkpoint ← build A bundleId rollbackTo manifests
  refuseIf (checkpoint.bundle ≠ d.bundle ∨ checkpoint.deploymentBytes ≠ d.bytes) .lineageMismatch
  return checkpoint

def changedSlots (before after : PolicyCheckpoint) : Slots :=
  .ofList ((before.manifests.keys ++ after.manifests.keys).filter
    (fun slot => before.manifests[slot]? ≠ after.manifests[slot]?)) compare

end PolicyCheckpoint

def changedPolicySlots (before after : PolicyBundle) : Slots :=
  .ofList ((before.policies.map (fun p => p.slot) ++ after.policies.map (fun p => p.slot)).filter
    (fun slot => before.policyFor slot ≠ after.policyFor slot)) compare

def changedDeploymentSlots (before after : DeploymentBundle) : Slots :=
  match PolicyCheckpoint.fromDeployment A before, PolicyCheckpoint.fromDeployment A after with
  | .ok before, .ok after => before.changedSlots after
  | _, _ => changedPolicySlots before.bundle after.bundle

def oneSlot (slot : String) : Slots := .ofList [slot] compare

/-- `StagePermit::issue`. -/
def issuePermit (candidateBundleDigest : String) (stage : DeploymentStage) : Result StagePermit :=
  match A.policy.limits stage with
  | none => .error .invalidRequestTransition
  | some limits => do
    let digest ← A.crypto.permit A.authorityId A.policyDigest candidateBundleDigest stage limits A.policy.securityPolicyDigest
      A.policy.durabilityPolicyDigest
    return { digest, authorityId := A.authorityId, policyDigest := A.policyDigest, candidateBundleDigest, stage, limits,
             securityPolicyDigest := A.policy.securityPolicyDigest,
             durabilityPolicyDigest := A.policy.durabilityPolicyDigest }

end Iteron.Promotion
