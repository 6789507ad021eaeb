import Iteron.CostTypes
/-!
# CostPhysical — sealed physical attempts and their terminals

A provider intent that carries its pricing stamp opens a scope of its tenant, run and turn; each terminal closes one
attempt, and only when all are closed does the turn's end carry their known projections.
-/
namespace Iteron.Cost

open Refuse (refuseIf)

/-! ## Keyed entries -/

section
variable {K V : Type} [DecidableEq K]

def get (l : List (K × V)) (k : K) : Option V := (l.find? (fun p => p.1 = k)).map Prod.snd

def drop (l : List (K × V)) (k : K) : List (K × V) := l.filter (fun p => p.1 ≠ k)

def put (l : List (K × V)) (k : K) (v : V) : List (K × V) := (k, v) :: drop l k

variable {l : List (K × V)} {k : K}

theorem mem_of_get {v : V} (h : get l k = some v) : (k, v) ∈ l := by
  obtain ⟨p, hp, rfl⟩ := Option.map_eq_some_iff.1 h
  have hk : p.1 = k := by simpa using List.find?_some hp
  exact hk ▸ List.mem_of_find?_eq_some hp

theorem get_eq_none (h : get l k = none) : ∀ p ∈ l, p.1 ≠ k := by
  intro p hp
  simpa using List.find?_eq_none.1 (Option.map_eq_none_iff.1 h) p hp

variable {p : K × V}

theorem mem_put {v : V} (h : p ∈ put l k v) : p = (k, v) ∨ p ∈ l ∧ p.1 ≠ k := by
  rcases List.mem_cons.1 h with h | h
  · exact .inl h
  · obtain ⟨hl, hk⟩ := List.mem_filter.1 h
    exact .inr ⟨hl, by simpa using hk⟩

theorem mem_drop (h : p ∈ drop l k) : p ∈ l ∧ p.1 ≠ k := by
  obtain ⟨hl, hk⟩ := List.mem_filter.1 h
  exact ⟨hl, by simpa using hk⟩

end

/-! ## Attempts -/

structure AttemptIdentity where
  routeId : String
  physicalAttempt : Nat
  maxCostReservationMicrousd : Option Nat
deriving DecidableEq

def AttemptIdentity.validate (a : AttemptIdentity) : Except String Unit := do
  refuseIf (!Text.shaIdentity a.routeId) "provider route attempt route_id must be a canonical SHA-256 identity"
  refuseIf (a.physicalAttempt = 0) "provider route attempt physical_attempt must be one-based"

inductive UsageTruth where
  | known (usage : Usage)
  | unknown
  | notDispatched
deriving DecidableEq

inductive CostTruth where
  | known (amountMicrousd : Nat) (rateCardDigest : String) (projection : Option CostProjection)
  | unknown
  | notDispatched
deriving DecidableEq

structure AttemptAccounting where
  identity : AttemptIdentity
  usage : UsageTruth
  cost : CostTruth
deriving DecidableEq

def AttemptAccounting.validate (a : AttemptAccounting) : Except String Unit := do
  a.identity.validate
  match a.usage, a.cost with
  | .notDispatched, .notDispatched => pure ()
  | .notDispatched, _ => .error "provider route attempt not-dispatched truth must be paired"
  | _, .notDispatched => .error "provider route attempt not-dispatched truth must be paired"
  | .unknown, .known _ _ _ => .error "known provider route cost requires known complete usage"
  | .known usage, .known amount digest projection => do
    refuseIf (!prefixedHex "sha256:" digest) "known provider route cost has an invalid rate-card digest"
    refuseIf (projection.any fun p =>
        decide (p.amountMicrousd ≠ amount ∨ p.rateCardDigest ≠ digest ∨ p.usage ≠ usage))
      "known provider route cost proof does not match its terminal summary"
    refuseIf (a.identity.maxCostReservationMicrousd.any fun reserved => decide (reserved < amount))
      "known provider route cost exceeds its pre-dispatch reservation"
  | _, _ => pure ()

abbrev Scope := String × String × Nat

structure Admission where
  identity : AttemptIdentity
  pricingAt : Nat
  route : Option PricingRoute
  card : Option String
  closed : Bool := false

structure OpenScope where
  attempts : List (String × Admission) := []
  ordinals : List Nat := []
  known : List (CostProjection × Bool) := []

structure ModernRun where
  firstTurn : Nat
  latestTurn : Nat

structure Physical where
  scopes : List (Scope × OpenScope) := []
  modernRuns : List ((String × String) × ModernRun) := []

structure TurnProof where
  usage : Usage
  candidates : List (CostProjection × Bool)

def TurnProof.matchingBinding (proof : TurnProof) (projection : CostProjection) : Option Bool :=
  if proof.usage ≠ projection.usage then none
  else (proof.candidates.find? (fun c => c.1 = projection)).map Prod.snd

def maxScopes : Nat := 256

def maxAttemptsPerScope : Nat := 256

variable (H : Hashes)

def routeHash (route : PricingRoute) : String := H.route (route.providerId ++ ":" ++ route.modelId)

def validScope (s : Scope) : Result Unit :=
  refuseIf (s.1.isEmpty || decide (512 < s.1.utf8ByteSize) || s.2.1.isEmpty || decide (200 < s.2.1.utf8ByteSize) ||
    (s.1.toList ++ s.2.1.toList).any Text.isControl) (.invalidField "physical_pricing_scope")

namespace Physical

/-- A newer sealed turn of the run retires the scopes of its older turns that are fully closed. -/
def retire (ph : Physical) (s : Scope) : List (Scope × OpenScope) :=
  ph.scopes.filter fun p => p.1.1 ≠ s.1 || p.1.2.1 ≠ s.2.1 || decide (s.2.2 ≤ p.1.2.2) ||
    p.2.attempts.any (fun a => !a.2.closed)

def openAttempt (ph : Physical) (s : Scope) (id : String) (stamp : Option Nat) (attempt : Option AttemptIdentity)
    (route : Option PricingRoute) (card : Option String) : Result Physical := do
  validScope s
  refuseIf (id.isEmpty || decide (256 < id.utf8ByteSize)) (.invalidField "physical_effect_id")
  let pricingAt ← demand stamp (.invalidField "physical_pricing_admission")
  let identity ← demand attempt .projectionIdentityMismatch
  identity.validate.mapError (fun _ => PricingError.projectionIdentityMismatch)
  route.forM fun route => do
    validateRoute route
    refuseIf (routeHash H route ≠ identity.routeId) .projectionIdentityMismatch
  refuseIf ((get ph.modernRuns (s.1, s.2.1)).isNone ∧ maxScopes ≤ ph.modernRuns.length)
    (.invalidField "physical_pricing_run_bound")
  let frontier := (get ph.modernRuns (s.1, s.2.1)).getD { firstTurn := s.2.2, latestTurn := s.2.2 }
  refuseIf (s.2.2 < frontier.latestTurn) .projectionIdentityMismatch
  let scopes := ph.retire s
  refuseIf ((get scopes s).isNone ∧ maxScopes ≤ scopes.length) (.invalidField "physical_pricing_scope_bound")
  let scope := (get scopes s).getD {}
  refuseIf (maxAttemptsPerScope ≤ scope.attempts.length ∨ (get scope.attempts id).isSome ∨
    identity.physicalAttempt ∈ scope.ordinals) .duplicateProjection
  pure
    { modernRuns := put ph.modernRuns (s.1, s.2.1) { frontier with latestTurn := s.2.2 }
      scopes := put scopes s
        { scope with
          attempts := put scope.attempts id { identity, pricingAt, route, card }
          ordinals := identity.physicalAttempt :: scope.ordinals } }

/-- What a known projection of a terminal must agree with. -/
def mismatched (s : Scope) (admission : Admission) (usage : Usage) (amount : Nat) (digest : String)
    (identity : CostProjectionIdentity) (projection : CostProjection) : Prop :=
  identity.tenantId ≠ s.1 ∨ identity.runId ≠ s.2.1 ∨ identity.turnId ≠ s.2.2 ∨
    identity.providerAttempt ≠ admission.identity.physicalAttempt ∨
    projection.projectedAtUnixSecs ≠ admission.pricingAt ∨ projection.usage ≠ usage ∨
    projection.amountMicrousd ≠ amount ∨ projection.rateCardDigest ≠ digest ∨
    routeHash H projection.route ≠ admission.identity.routeId ∨
    (admission.route.any fun route => decide (route ≠ projection.route)) = true ∨
    (admission.card.any fun card => decide (card ≠ projection.rateCardDigest)) = true

instance (s : Scope) (admission : Admission) (usage : Usage) (amount : Nat) (digest : String)
    (identity : CostProjectionIdentity) (projection : CostProjection) :
    Decidable (mismatched H s admission usage amount digest identity projection) :=
  inferInstanceAs (Decidable (_ ∨ _))

/-- The projection a closed attempt leaves known, if its terminal is definite. -/
def knownProjection (s : Scope) (admission : Admission) (accounting : AttemptAccounting) (unobserved : Bool) :
    Result (List (CostProjection × Bool)) :=
  if unobserved then pure []
  else
    match accounting.usage, accounting.cost with
    | .known usage, .known amount digest (some projection) => do
      validateProjectionDigest H projection
      let identity ← demand projection.identity .missingProjectionIdentity
      refuseIf (mismatched H s admission usage amount digest identity projection) .projectionIdentityMismatch
      pure [(projection, admission.route.isSome && admission.card.isSome)]
    | _, _ => pure []

/-- A terminal of the attempt; a scope or an attempt that is not open is left alone. -/
def closeAttempt (ph : Physical) (s : Scope) (id : String) (accounting : Option AttemptAccounting)
    (unobserved : Bool) : Result Physical :=
  match get ph.scopes s with
  | none => pure ph
  | some scope =>
    match get scope.attempts id with
    | none => pure ph
    | some admission => do
      refuseIf (admission.closed = true) .duplicateProjection
      let accounting ← demand accounting .projectionIdentityMismatch
      accounting.validate.mapError (fun _ => PricingError.projectionIdentityMismatch)
      let zero := accounting.usage = .notDispatched ∧ accounting.cost = .notDispatched
      refuseIf (accounting.identity.routeId ≠ admission.identity.routeId ∨
        accounting.identity.physicalAttempt ≠ admission.identity.physicalAttempt ∨
        (accounting.identity.maxCostReservationMicrousd ≠ admission.identity.maxCostReservationMicrousd ∧
          ¬ (zero ∧ accounting.identity.maxCostReservationMicrousd = none))) .projectionIdentityMismatch
      let known ← knownProjection H s admission accounting unobserved
      pure { ph with
        scopes := put ph.scopes s
          { scope with
            attempts := put scope.attempts id { admission with closed := true }
            known := scope.known ++ known } }

def finish (ph : Physical) (s : Scope) (usage : Usage) : Physical × Option TurnProof :=
  match get ph.scopes s with
  | some scope =>
    if scope.attempts.any (fun a => !a.2.closed) then (ph, some { usage, candidates := [] })
    else ({ ph with scopes := drop ph.scopes s }, some { usage, candidates := scope.known })
  | none =>
    (ph, (get ph.modernRuns (s.1, s.2.1)).bind fun frontier =>
      if frontier.firstTurn ≤ s.2.2 then some { usage, candidates := [] } else none)

end Physical

end Iteron.Cost
