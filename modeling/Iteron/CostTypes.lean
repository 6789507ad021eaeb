import Iteron.Machine
import Iteron.Refuse
import Iteron.Text
/-!
# CostTypes — signed cost evidence and the ledger it advances

Rate cards and projections are content-addressed; `Hashes` stands for the SHA-256 labels of their canonical bytes and
`Port` for the trusted pricing strategy.  The ledger keeps what the replay reads or advances.
-/
namespace Iteron.Cost

open Machine (checkedAdd saturatingAdd u32Max)
open Refuse (refuseIf)

inductive PricingError where
  | invalidField (field : String)
  | invalidDigest
  | invalidSignature
  | invalidSigningKey
  | digestMismatch
  | signatureMismatch
  | thinkingExceedsOutput
  | amountOverflow
  | untrustedRateCard
  | rateCardNotYetValid
  | rateCardExpired
  | ambiguousRateCard
  | duplicateRateCard
  | rateCardManifestTooLarge
  | projectionNotAdjacent
  | missingProjectionIdentity
  | projectionIdentityMismatch
  | duplicateProjection
  | workflowEvidenceMismatch
  | duplicateWorkflowTerminal
deriving DecidableEq

abbrev Result := Except PricingError

def demand {α : Type} (o : Option α) (e : PricingError) : Result α :=
  match o with
  | none => .error e
  | some v => .ok v

theorem demand_eq_ok {α : Type} {o : Option α} {e : PricingError} {v : α} : demand o e = .ok v ↔ o = some v := by
  cases o <;> simp [demand]

def saturatingAdd32 (a b : Nat) : Nat := min (a + b) u32Max

structure Usage where
  input : Nat := 0
  output : Nat := 0
  cacheCreation : Nat := 0
  cacheRead : Nat := 0
  thinking : Nat := 0
deriving DecidableEq

def Usage.add (u o : Usage) : Usage where
  input := saturatingAdd u.input o.input
  output := saturatingAdd u.output o.output
  cacheCreation := saturatingAdd u.cacheCreation o.cacheCreation
  cacheRead := saturatingAdd u.cacheRead o.cacheRead
  thinking := saturatingAdd u.thinking o.thinking

structure PricingRoute where
  providerId : String
  modelId : String
  catalogDigest : String
  capabilityDigest : String
deriving DecidableEq

structure TokenRateCard where
  inputMicrousdPerMillion : Nat
  outputMicrousdPerMillion : Nat
  cacheCreationMicrousdPerMillion : Nat
  cacheReadMicrousdPerMillion : Nat
  thinkingMicrousdPerMillion : Nat
deriving DecidableEq

structure RateCard where
  route : PricingRoute
  provenance : String
  issuedAtUnixSecs : Nat
  expiresAtUnixSecs : Nat
  rates : TokenRateCard
deriving DecidableEq

structure SignedRateCard where
  rateCard : RateCard
  signerId : String
  rateCardDigest : String
  signature : String
deriving DecidableEq

inductive CostAttribution where
  | directSubagent (parentRunId subRun : String)
  | workflowChild (parentRunId workflowId : String) (taskId : Nat) (subRun : String)
deriving DecidableEq

structure CostProjectionIdentity where
  tenantId : String
  runId : String
  turnId : Nat
  providerAttempt : Nat
  attribution : Option CostAttribution
deriving DecidableEq

structure CostProjection where
  identity : Option CostProjectionIdentity
  route : PricingRoute
  usage : Usage
  amountMicrousd : Nat
  projectedAtUnixSecs : Nat
  rateCardDigest : String
  signerId : String
  projectionDigest : String
  signature : String
deriving DecidableEq

structure Hashes where
  rateCard : RateCard → String
  projection : CostProjection → String
  /-- Of a route's `provider:model` text. -/
  route : String → String
  /-- Of a set of rate-card digests, in order. -/
  cardSet : List String → String

structure Port where
  verifyRateCard : SignedRateCard → Result Unit
  verifyProjection : SignedRateCard → CostProjection → Result Unit
  verifyProjectionByDigest : CostProjection → Result Unit

/-! ## Validation -/

def validateContextIdentifier (field value : String) (maxBytes : Nat) : Result Unit :=
  refuseIf (value.isEmpty || decide (maxBytes < value.utf8ByteSize) || value.toList.any Text.isControl)
    (.invalidField field)

def validateIdentifier (field value : String) (maxBytes : Nat) : Result Unit :=
  refuseIf (value.isEmpty || decide (maxBytes < value.utf8ByteSize) ||
    value.toList.any (fun c => Text.isControl c || Text.isWhitespace c)) (.invalidField field)

def stripPrefix (p value : String) : Option (List UInt8) :=
  if (Text.bytes p).isPrefixOf (Text.bytes value) then some ((Text.bytes value).drop p.utf8ByteSize) else none

def prefixedHex (p value : String) : Bool :=
  match stripPrefix p value with
  | none => false
  | some hex => decide (hex.length = 64) && hex.all Text.isHexByte

def validateRouteDigest (field value : String) : Result Unit :=
  refuseIf (!prefixedHex "sha256:" value) (.invalidField field)

def validateRoute (route : PricingRoute) : Result Unit := do
  validateIdentifier "provider_id" route.providerId 64
  validateIdentifier "model_id" route.modelId 512
  validateRouteDigest "catalog_digest" route.catalogDigest
  validateRouteDigest "capability_digest" route.capabilityDigest

def validateRateCard (card : RateCard) : Result Unit := do
  validateRoute card.route
  validateContextIdentifier "provenance" card.provenance 512
  refuseIf (card.expiresAtUnixSecs ≤ card.issuedAtUnixSecs) (.invalidField "rate_card_validity")

def validateAttribution (runId : String) : Option CostAttribution → Result Unit
  | none => .ok ()
  | some (.directSubagent parentRunId subRun) => do
    validateContextIdentifier "parent_run_id" parentRunId 200
    validateContextIdentifier "sub_run" subRun 200
    refuseIf (subRun ≠ runId) (.invalidField "sub_run_identity")
  | some (.workflowChild parentRunId workflowId _ subRun) => do
    validateContextIdentifier "parent_run_id" parentRunId 200
    validateContextIdentifier "workflow_id" workflowId 512
    validateContextIdentifier "sub_run" subRun 200
    refuseIf (subRun ≠ runId) (.invalidField "sub_run_identity")

def validateProjectionIdentity (identity : CostProjectionIdentity) : Result Unit := do
  validateContextIdentifier "tenant_id" identity.tenantId 512
  validateContextIdentifier "run_id" identity.runId 200
  refuseIf (identity.providerAttempt = 0) (.invalidField "provider_attempt")
  validateAttribution identity.runId identity.attribution

variable (H : Hashes)

def validateRateCardDigest (signed : SignedRateCard) : Result Unit := do
  validateRateCard signed.rateCard
  validateIdentifier "signer_id" signed.signerId 128
  refuseIf (!prefixedHex "sha256:" signed.rateCardDigest) .invalidDigest
  refuseIf (!prefixedHex "hmac-sha256:" signed.signature) .invalidSignature
  refuseIf (H.rateCard signed.rateCard ≠ signed.rateCardDigest) .digestMismatch

def validateProjectionDigest (projection : CostProjection) : Result Unit := do
  validateRoute projection.route
  projection.identity.forM validateProjectionIdentity
  validateIdentifier "signer_id" projection.signerId 128
  refuseIf (!prefixedHex "sha256:" projection.rateCardDigest) .invalidDigest
  refuseIf (!prefixedHex "sha256:" projection.projectionDigest) .invalidDigest
  refuseIf (!prefixedHex "hmac-sha256:" projection.signature) .invalidSignature
  refuseIf (H.projection projection ≠ projection.projectionDigest) .digestMismatch

/-! ## The ledger -/

structure WorkflowCostEvidence where
  amountMicrousd : Nat
  rateCardDigest : String
  projections : List CostProjection
deriving DecidableEq

structure WorkflowMetrics where
  providerAttempts : Nat
  completedTurns : Nat
  usage : Usage
  toolCalls : Nat
  toolErrors : Nat
  cost : Option WorkflowCostEvidence
deriving DecidableEq

structure Ledger where
  providerAttempts : Nat := 0
  turns : Nat := 0
  usage : Usage := {}
  localUsage : Usage := {}
  childUsage : Usage := {}
  lastTurnUsage : Option Usage := none
  toolCalls : Nat := 0
  toolErrors : Nat := 0
  pricedTurns : Nat := 0
  amountMicrousd : Nat := 0
  amountOverflowed : Bool := false
  legacyUnattributed : Bool := false
  rateCardDigests : List String := []
  costProjections : List CostProjection := []
  unresolvedChildAttributions : Nat := 0
  pendingChildAccounting : List String := []
  childAccountingEvidenceLost : Bool := false

/-- `BTreeSet::insert`. -/
def insertSorted (d : String) : List String → List String
  | [] => [d]
  | e :: l => if d = e then e :: l else if d < e then d :: e :: l else e :: insertSorted d l

def maxWorkflowCostProjections : Nat := 1024

namespace Ledger

def attempt (l : Ledger) : Ledger := { l with providerAttempts := saturatingAdd32 l.providerAttempts 1 }

def replayTurn (l : Ledger) (usage : Usage) : Ledger :=
  { l with
    turns := saturatingAdd32 l.turns 1
    usage := l.usage.add usage
    localUsage := l.localUsage.add usage
    lastTurnUsage := some usage }

def replayTool (l : Ledger) (isError : Bool) : Ledger :=
  { l with
    toolCalls := saturatingAdd l.toolCalls 1
    toolErrors := if isError then saturatingAdd l.toolErrors 1 else l.toolErrors }

def markLegacyUnattributed (l : Ledger) : Ledger := { l with legacyUnattributed := true }

def admitChildAttribution (l : Ledger) : Ledger :=
  { l with unresolvedChildAttributions := saturatingAdd32 l.unresolvedChildAttributions 1 }

def resolveChildAttribution (l : Ledger) : Ledger :=
  { l with unresolvedChildAttributions := l.unresolvedChildAttributions - 1 }

def beginChildAccounting (l : Ledger) (effect : String) : Except String Ledger := do
  refuseIf (effect.isEmpty || decide (256 < effect.utf8ByteSize) || effect.toList.any Text.isControl)
    "invalid child accounting identity"
  refuseIf (effect ∉ l.pendingChildAccounting ∧ 64 ≤ l.pendingChildAccounting.length) "child accounting pending bound"
  pure { l with pendingChildAccounting := insertSorted effect l.pendingChildAccounting }

def resolveChildAccounting (l : Ledger) (effect : String) : Except String Ledger := do
  refuseIf (effect ∉ l.pendingChildAccounting) "child accounting resolution has no exact pending identity"
  pure { l with pendingChildAccounting := l.pendingChildAccounting.filter (· ≠ effect) }

/-- Fixed-point addition to the total; an overflow is remembered and leaves it. -/
def addAmount (l : Ledger) (amount : Nat) : Ledger :=
  match checkedAdd l.amountMicrousd amount with
  | some total => { l with amountMicrousd := total }
  | none => { l with amountOverflowed := true }

def applyCostProjection (l : Ledger) (projection : CostProjection) : Except String Ledger := do
  (validateProjectionDigest H projection).mapError (fun _ => "invalid pricing projection digest")
  refuseIf (l.turns ≤ l.pricedTurns) "pricing projection has no unpriced completed turn"
  refuseIf (l.lastTurnUsage ≠ some projection.usage) "pricing projection usage does not match the completed turn"
  let l := { l with pricedTurns := saturatingAdd32 l.pricedTurns 1 }
  let l := l.addAmount projection.amountMicrousd
  pure { l with
    rateCardDigests := insertSorted projection.rateCardDigest l.rateCardDigests
    costProjections := l.costProjections ++ [projection] }

/-- The additive metrics of one child, without its money. -/
def mergeWorkflowMetrics (l : Ledger) (child : WorkflowMetrics) : Ledger :=
  { l with
    providerAttempts := saturatingAdd32 l.providerAttempts child.providerAttempts
    turns := saturatingAdd32 l.turns child.completedTurns
    usage := l.usage.add child.usage
    childUsage := l.childUsage.add child.usage
    toolCalls := saturatingAdd l.toolCalls child.toolCalls
    toolErrors := saturatingAdd l.toolErrors child.toolErrors }

def combinedRateCardDigest : List String → String
  | [only] => only
  | digests => H.cardSet digests

def mergeVerifiedWorkflowMetrics (l : Ledger) (child : WorkflowMetrics) : Except String Ledger := do
  match child.cost with
  | none => .error "missing workflow cost evidence"
  | some cost => do
    refuseIf (child.completedTurns = 0 ∨ cost.projections.length ≠ child.completedTurns ∨
      maxWorkflowCostProjections < cost.projections.length) "workflow projection cardinality mismatch"
    cost.projections.forM fun projection =>
      (validateProjectionDigest H projection).mapError (fun _ => "invalid workflow projection digest")
    let usage := cost.projections.foldl (fun u projection => u.add projection.usage) {}
    let amount := cost.projections.foldl
      (fun current projection => current.bind (checkedAdd · projection.amountMicrousd)) (some 0)
    let digests := cost.projections.foldl (fun ds projection => insertSorted projection.rateCardDigest ds) []
    let merged := l.mergeWorkflowMetrics child
    let merged := { merged with
      pricedTurns := saturatingAdd32 l.pricedTurns child.completedTurns
      rateCardDigests := digests.foldl (fun ds d => insertSorted d ds) l.rateCardDigests
      costProjections := l.costProjections ++ cost.projections }
    match amount with
    | none => pure { merged with amountOverflowed := true }
    | some total => do
      refuseIf (usage ≠ child.usage ∨ total ≠ cost.amountMicrousd ∨
        combinedRateCardDigest H digests ≠ cost.rateCardDigest) "workflow pricing aggregate mismatch"
      pure (merged.addAmount cost.amountMicrousd)

end Ledger

end Iteron.Cost
