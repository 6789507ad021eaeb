import Iteron.Machine
import Iteron.Refuse
import Iteron.Table
/-!
# Governor — admission of attempts to provider routes

One decision before each physical attempt, from what is in flight on the route, its circuit and the quota last
observed, and one observation after it.  An observation names the route only.  Times are in nanoseconds of one clock.
-/
namespace Iteron.Governor

open Refuse (refuseIf)

def maxRouteIdBytes : Nat := 640

def maxGovernedRoutes : Nat := 32

def maxHedgeDuplicates : Nat := 8

def probeAdmissionCeiling : Nat := 1

def minAdmissionCeiling : Nat := 1

def ceilingRecheckDelay : Nat := 10000000

/-! ## Policy -/

inductive GovernorPolicyError where
  | concurrency
  | objectiveWeightSum
  | circuit
  | hedge
  | routeCount
  | routeIdentity
deriving DecidableEq

structure ObjectiveWeights where
  qualityMillionths : Nat := 600000
  costMillionths : Nat := 200000
  latencyMillionths : Nat := 200000

structure CircuitPolicy where
  failureThreshold : Nat := 3
  openFor : Nat := 30000000000
  halfOpenProbes : Nat := 1
  successThreshold : Nat := 1

inductive UnknownQuotaPolicy where
  | conservative
  | reject

structure RateAdmissionPolicy where
  minimumRemainingRequests : Nat := 0
  minimumRemainingTokens : Nat := 0
  resetWaitMax : Nat := 0
  unknownQuota : UnknownQuotaPolicy := .conservative

structure HedgePolicy where
  enabled : Bool := false
  maxDuplicates : Nat := 0
  idempotentOnly : Bool := true

structure GovernorPolicy where
  maxInFlightPerRoute : Nat := 4
  objectives : ObjectiveWeights := {}
  circuit : CircuitPolicy := {}
  rateAdmission : RateAdmissionPolicy := {}
  hedge : HedgePolicy := {}

def GovernorPolicy.validate (policy : GovernorPolicy) : Except GovernorPolicyError GovernorPolicy := do
  refuseIf (policy.maxInFlightPerRoute = 0 ∨ policy.maxInFlightPerRoute > 1024) .concurrency
  refuseIf (policy.objectives.qualityMillionths + policy.objectives.costMillionths +
    policy.objectives.latencyMillionths ≠ 1000000) .objectiveWeightSum
  refuseIf (policy.circuit.failureThreshold = 0 ∨ policy.circuit.openFor = 0 ∨ policy.circuit.halfOpenProbes = 0 ∨
    policy.circuit.successThreshold = 0) .circuit
  refuseIf (policy.hedge.maxDuplicates > maxHedgeDuplicates ∨
    (policy.hedge.enabled ∧ (¬ policy.hedge.idempotentOnly ∨ policy.hedge.maxDuplicates = 0))) .hedge
  pure policy

/-! ## Routes -/

inductive AdmissionReason where
  | unknownRoute
  | ceiling
  | quotaUnknown
  | quotaExhausted
  | circuitOpen
  | circuitHalfOpen

inductive CircuitTransition where
  | none
  | opened
  | halfOpened
  | closed
deriving DecidableEq

inductive Admission where
  | admitted (transition : CircuitTransition)
  | deferred (wait : Nat) (reason : AdmissionReason)
  | rejected (reason : AdmissionReason)

structure RateLimitSnapshot where
  requestsRemaining : Option Nat := none
  tokensRemaining : Option Nat := none
  requestsReset : Option Nat := none
  tokensReset : Option Nat := none

structure ObservedRateLimit where
  snapshot : RateLimitSnapshot
  observedAt : Nat

inductive CircuitState where
  | closed (failures : Nat)
  | open (untilAt : Nat)
  | halfOpen (successes probes : Nat)

structure RouteState where
  inFlight : Nat := 0
  rate : Option ObservedRateLimit := none
  circuit : CircuitState := .closed 0

def saturatingAdd16 (a b : Nat) : Nat := min (a + b) 65535

def refreshCircuit (route : RouteState) (now : Nat) : RouteState × CircuitTransition :=
  match route.circuit with
  | .open untilAt =>
    if now ≥ untilAt then ({ route with circuit := .halfOpen 0 0 }, .halfOpened) else (route, .none)
  | _ => (route, .none)

/-- `chain` and `max` of the two resets. -/
def RateLimitSnapshot.advertisedReset (snapshot : RateLimitSnapshot) : Option Nat :=
  match snapshot.requestsReset, snapshot.tokensReset with
  | some a, some b => some (max a b)
  | some a, none => some a
  | none, b => b

def RateLimitSnapshot.low (policy : RateAdmissionPolicy) (snapshot : RateLimitSnapshot) : Bool :=
  snapshot.requestsRemaining.any (fun remaining => remaining < policy.minimumRemainingRequests) ||
    snapshot.tokensRemaining.any (fun remaining => remaining < policy.minimumRemainingTokens)

def quotaDecision (route : RouteState) (policy : RateAdmissionPolicy) (now ceiling : Nat) : Except Admission Nat :=
  match route.rate with
  | none =>
    match policy.unknownQuota with
    | .conservative => .ok (min ceiling probeAdmissionCeiling)
    | .reject => .error (.rejected .quotaUnknown)
  | some rate =>
    let elapsed := now - rate.observedAt
    let advertisedReset := rate.snapshot.advertisedReset
    if advertisedReset.any (fun reset => elapsed ≥ reset) then .ok (min ceiling probeAdmissionCeiling)
    else
      let ceiling :=
        match rate.snapshot.requestsRemaining with
        | some remaining => min ceiling (max remaining minAdmissionCeiling)
        | none => ceiling
      if rate.snapshot.low policy = false then .ok ceiling
      else
        let wait := advertisedReset.getD 0 - elapsed
        if wait ≠ 0 ∧ wait ≤ policy.resetWaitMax then .error (.deferred wait .quotaExhausted)
        else .error (.rejected .quotaExhausted)

def GovernorPolicy.probeLimit (policy : GovernorPolicy) : Nat :=
  min policy.maxInFlightPerRoute policy.circuit.halfOpenProbes

/-- `admit` on a route whose circuit was refreshed and is not open. -/
def admitUnder (policy : GovernorPolicy) (route : RouteState) (transition : CircuitTransition) (now ceiling : Nat)
    (admitted : CircuitState) : RouteState × Admission :=
  match quotaDecision route policy.rateAdmission now ceiling with
  | .error admission => (route, admission)
  | .ok ceiling =>
    if route.inFlight ≥ ceiling then (route, .deferred ceilingRecheckDelay .ceiling)
    else ({ route with inFlight := route.inFlight + 1, circuit := admitted }, .admitted transition)

def admitRoute (policy : GovernorPolicy) (route : RouteState) (now : Nat) : RouteState × Admission :=
  let refreshed := refreshCircuit route now
  match refreshed.1.circuit with
  | .open _ => (refreshed.1, .rejected .circuitOpen)
  | .halfOpen successes probes =>
    if probes ≥ policy.probeLimit then (refreshed.1, .rejected .circuitHalfOpen)
    else
      admitUnder policy refreshed.1 refreshed.2 now policy.probeLimit (.halfOpen successes (saturatingAdd16 probes 1))
  | .closed failures =>
    admitUnder policy refreshed.1 refreshed.2 now policy.maxInFlightPerRoute (.closed failures)

def successOn (policy : GovernorPolicy) (route : RouteState) : RouteState × CircuitTransition :=
  match route.circuit with
  | .closed _ => ({ route with circuit := .closed 0 }, .none)
  | .halfOpen successes probes =>
    let successes := saturatingAdd16 successes 1
    if successes ≥ policy.circuit.successThreshold then ({ route with circuit := .closed 0 }, .closed)
    else ({ route with circuit := .halfOpen successes probes }, .none)
  | .open _ => (route, .none)

def failed (policy : GovernorPolicy) (route : RouteState) (failures now : Nat) : RouteState × CircuitTransition :=
  if failures ≥ policy.circuit.failureThreshold then
    ({ route with circuit := .open (now + policy.circuit.openFor) }, .opened)
  else ({ route with circuit := .closed failures }, .none)

def failureOn (policy : GovernorPolicy) (route : RouteState) (now : Nat) : RouteState × CircuitTransition :=
  match route.circuit with
  | .closed failures => failed policy route (saturatingAdd16 failures 1) now
  | .halfOpen _ _ => failed policy route policy.circuit.failureThreshold now
  | .open _ => (route, .none)

/-! ## The governor and the permits it gave out -/

/-- The routes of a validated policy, the permits not yet released with their routes, and the number of the next. -/
structure ProviderGovernor where
  policy : GovernorPolicy
  routes : Std.ExtTreeMap String RouteState compare := ∅
  permits : List (Nat × String) := []
  nextAttempt : Nat := 0

def isControl (c : Char) : Bool := c.toNat < 32 || (127 ≤ c.toNat && c.toNat ≤ 159)

namespace ProviderGovernor

/-- The routes a governor starts with, one after the other. -/
def addRoutes : List String → ProviderGovernor → Except GovernorPolicyError ProviderGovernor
  | [], g => .ok g
  | id :: ids, g =>
    if id.isEmpty ∨ id.utf8ByteSize > maxRouteIdBytes ∨ g.routes.contains id then .error .routeIdentity
    else addRoutes ids { g with routes := g.routes.insert id {} }

def new (policy : GovernorPolicy) (ids : List String) : Except GovernorPolicyError ProviderGovernor := do
  let policy ← policy.validate
  refuseIf (ids = [] ∨ ids.length > maxGovernedRoutes) .routeCount
  addRoutes ids { policy := policy }

def registerRoute (g : ProviderGovernor) (routeId : String) : ProviderGovernor × Except GovernorPolicyError Bool :=
  if routeId.isEmpty ∨ routeId.utf8ByteSize > maxRouteIdBytes ∨ routeId.toList.any isControl then
    (g, .error .routeIdentity)
  else if g.routes.contains routeId then (g, .ok false)
  else if g.routes.size ≥ maxGovernedRoutes then (g, .error .routeCount)
  else ({ g with routes := g.routes.insert routeId {} }, .ok true)

def unregisterIdleRoute (g : ProviderGovernor) (routeId : String) : ProviderGovernor × Bool :=
  if g.routes[routeId]?.any (fun route => route.inFlight = 0) then
    ({ g with routes := g.routes.erase routeId }, true)
  else (g, false)

def admitAt (g : ProviderGovernor) (routeId : String) (now : Nat) : ProviderGovernor × Admission :=
  match g.routes[routeId]? with
  | none => (g, .rejected .unknownRoute)
  | some route =>
    let decided := admitRoute g.policy route now
    let g := { g with routes := g.routes.insert routeId decided.1 }
    match decided.2 with
    | .admitted transition =>
      ({ g with permits := (g.nextAttempt, routeId) :: g.permits, nextAttempt := g.nextAttempt + 1 },
        .admitted transition)
    | admission => (g, admission)

/-- A permit released, or dropped; a second time it is not there any more. -/
def release (g : ProviderGovernor) (attempt : Nat) : ProviderGovernor :=
  match g.permits.find? (fun p => p.1 = attempt) with
  | none => g
  | some permit =>
    let g := { g with permits := g.permits.eraseP (fun p => p.1 = attempt) }
    match g.routes[permit.2]? with
    | none => g
    | some route => { g with routes := g.routes.insert permit.2 { route with inFlight := route.inFlight - 1 } }

def observeRateLimit (g : ProviderGovernor) (routeId : String) (snapshot : RateLimitSnapshot) (now : Nat) :
    ProviderGovernor :=
  match g.routes[routeId]? with
  | none => g
  | some route => { g with routes := g.routes.insert routeId { route with rate := some ⟨snapshot, now⟩ } }

def observeSuccess (g : ProviderGovernor) (routeId : String) : ProviderGovernor × CircuitTransition :=
  match g.routes[routeId]? with
  | none => (g, .none)
  | some route =>
    ({ g with routes := g.routes.insert routeId (successOn g.policy route).1 }, (successOn g.policy route).2)

def observeFailure (g : ProviderGovernor) (routeId : String) (now : Nat) : ProviderGovernor × CircuitTransition :=
  match g.routes[routeId]? with
  | none => (g, .none)
  | some route =>
    ({ g with routes := g.routes.insert routeId (failureOn g.policy route now).1 }, (failureOn g.policy route now).2)

end ProviderGovernor

/-- A call; the attempt an observation is about is known to the caller alone. -/
inductive GovernorCall where
  | registerRoute (routeId : String)
  | unregisterIdleRoute (routeId : String)
  | admitAt (routeId : String) (now : Nat)
  | release (attempt : Nat)
  | observeRateLimit (routeId : String) (snapshot : RateLimitSnapshot) (now : Nat)
  | observeSuccess (routeId : String) (attempt : Nat)
  | observeFailure (routeId : String) (attempt now : Nat)

def ProviderGovernor.serve (g : ProviderGovernor) : GovernorCall → ProviderGovernor
  | .registerRoute routeId => (g.registerRoute routeId).1
  | .unregisterIdleRoute routeId => (g.unregisterIdleRoute routeId).1
  | .admitAt routeId now => (g.admitAt routeId now).1
  | .release attempt => g.release attempt
  | .observeRateLimit routeId snapshot now => g.observeRateLimit routeId snapshot now
  | .observeSuccess routeId _ => (g.observeSuccess routeId).1
  | .observeFailure routeId _ now => (g.observeFailure routeId now).1

end Iteron.Governor
