import Iteron.GovernorRun
/-!
# GovernorLockout — when a route can still be admitted

A route with nothing in flight is refused for good in two cases: its half-open period has used up its probes and none of
them was observed to end, or its quota was last seen low with no time at which it refills.
-/
namespace Iteron.Governor

def exhausted (policy : GovernorPolicy) (route : RouteState) : Bool :=
  match route.circuit with
  | .halfOpen _ probes => policy.probeLimit ≤ probes
  | _ => false

def RateLimitSnapshot.hopeless (policy : RateAdmissionPolicy) (snapshot : RateLimitSnapshot) : Bool :=
  snapshot.low policy && snapshot.advertisedReset.isNone

def starved (policy : GovernorPolicy) (route : RouteState) : Bool :=
  route.rate.any (fun rate => rate.snapshot.hopeless policy.rateAdmission)

def Admissible (g : ProviderGovernor) (routeId : String) : Prop :=
  ∃ from_, ∀ now, from_ ≤ now → ∃ transition, (g.admitAt routeId now).2 = .admitted transition

/-! ## One route -/

/-- When the open period and the advertised reset of a route are over. -/
def settledAt (route : RouteState) : Nat :=
  max (match route.circuit with
    | .open untilAt => untilAt
    | _ => 0) (match route.rate with
    | some rate => rate.observedAt + rate.snapshot.advertisedReset.getD 0
    | none => 0)

section

variable {policy : GovernorPolicy} {route : RouteState} {now : Nat}

theorem quotaDecision_of_settled (hunknown : policy.rateAdmission.unknownQuota = .conservative)
    (hstarved : starved policy route = false) {ceiling : Nat} (hceiling : 1 ≤ ceiling)
    (hnow : ∀ rate, route.rate = some rate → rate.observedAt + rate.snapshot.advertisedReset.getD 0 ≤ now) :
    ∃ ceiling', quotaDecision route policy.rateAdmission now ceiling = .ok ceiling' ∧ 1 ≤ ceiling' := by
  have hprobe : 1 ≤ min ceiling probeAdmissionCeiling := Nat.le_min.2 ⟨hceiling, Nat.le_refl 1⟩
  unfold quotaDecision
  split
  · rw [hunknown]
    exact ⟨_, rfl, hprobe⟩
  · rename_i rate hrate
    have helapsed := hnow rate hrate
    cases hreset : rate.snapshot.advertisedReset with
    | some reset =>
      rw [hreset, Option.getD_some] at helapsed
      have hover : (some reset).any (fun reset => decide (now - rate.observedAt ≥ reset)) = true := by
        rw [Option.any_some, decide_eq_true_eq]
        omega
      rw [if_pos hover]
      exact ⟨_, rfl, hprobe⟩
    | none =>
      have hlow : rate.snapshot.low policy.rateAdmission = false := by
        simpa [starved, hrate, RateLimitSnapshot.hopeless, hreset] using hstarved
      rw [if_neg (by simp), if_pos hlow]
      refine ⟨_, rfl, ?_⟩
      split
      · exact Nat.le_min.2 ⟨hceiling, Nat.le_max_right _ _⟩
      · exact hceiling

theorem quotaDecision_of_starved (hstarved : starved policy route = true) (now ceiling : Nat) :
    ∃ a, quotaDecision route policy.rateAdmission now ceiling = .error a := by
  obtain ⟨_, hrate, hhopeless⟩ := (Option.any_eq_true _ _).1 hstarved
  unfold RateLimitSnapshot.hopeless at hhopeless
  rw [Bool.and_eq_true, Option.isNone_iff_eq_none] at hhopeless
  unfold quotaDecision
  rw [hrate]
  dsimp only
  rw [hhopeless.2, if_neg (by simp), if_neg (by rw [hhopeless.1]; simp)]
  split
  · exact ⟨_, rfl⟩
  · exact ⟨_, rfl⟩

variable {transition : CircuitTransition} {circuit : CircuitState}

theorem admitUnder_of_settled {ceiling : Nat} (hunknown : policy.rateAdmission.unknownQuota = .conservative)
    (hstarved : starved policy route = false) (hceiling : 1 ≤ ceiling) (hidle : route.inFlight = 0)
    (hnow : ∀ rate, route.rate = some rate → rate.observedAt + rate.snapshot.advertisedReset.getD 0 ≤ now) :
    (admitUnder policy route transition now ceiling circuit).2 = .admitted transition := by
  obtain ⟨_, hquota, _⟩ := quotaDecision_of_settled hunknown hstarved hceiling hnow
  unfold admitUnder
  rw [hquota]
  dsimp only
  rw [if_neg (by omega)]

theorem admitUnder_of_starved {ceiling : Nat} (hstarved : starved policy route = true) (transition' : CircuitTransition)
    : (admitUnder policy route transition now ceiling circuit).2 ≠ .admitted transition' := by
  obtain ⟨a, hquota⟩ := quotaDecision_of_starved hstarved now ceiling
  unfold admitUnder
  rw [hquota]
  exact quotaDecision_error hquota transition'

theorem refreshCircuit_rate (route : RouteState) (now : Nat) : (refreshCircuit route now).1.rate = route.rate := by
  unfold refreshCircuit
  split
  · split
    · rfl
    · rfl
  · rfl

theorem starved_refreshed (route : RouteState) (now : Nat) :
    starved policy (refreshCircuit route now).1 = starved policy route := by
  rw [starved, refreshCircuit_rate, starved]

theorem admitRoute_of_settled (hmax : 1 ≤ policy.maxInFlightPerRoute) (hprobes : 1 ≤ policy.circuit.halfOpenProbes)
    (hunknown : policy.rateAdmission.unknownQuota = .conservative) (hidle : route.inFlight = 0)
    (hexhausted : exhausted policy route = false) (hstarved : starved policy route = false)
    (hnow : settledAt route ≤ now) : ∃ transition, (admitRoute policy route now).2 = .admitted transition := by
  have hlimit : 1 ≤ policy.probeLimit := Nat.le_min.2 ⟨hmax, hprobes⟩
  have hrate : ∀ rate, (refreshCircuit route now).1.rate = some rate →
      rate.observedAt + rate.snapshot.advertisedReset.getD 0 ≤ now := by
    intro rate hrate
    rw [refreshCircuit_rate] at hrate
    refine Nat.le_trans ?_ hnow
    unfold settledAt
    rw [hrate]
    exact Nat.le_max_right _ _
  have hidle' : (refreshCircuit route now).1.inFlight = 0 := by rw [refreshCircuit_inFlight, hidle]
  have hstarved' : starved policy (refreshCircuit route now).1 = false := by rw [starved_refreshed, hstarved]
  unfold admitRoute
  dsimp only
  split
  · rename_i untilAt hopen
    -- an open circuit was refreshed: its time has come
    exfalso
    unfold refreshCircuit at hopen
    split at hopen
    · rename_i untilAt' hcircuit
      have huntil : untilAt' ≤ now := by
        refine Nat.le_trans ?_ hnow
        unfold settledAt
        rw [hcircuit]
        exact Nat.le_max_left _ _
      rw [if_pos huntil] at hopen
      cases hopen
    · rename_i hother
      exact hother untilAt hopen
  · rename_i successes probes hhalf
    have hprobe : probes < policy.probeLimit := by
      unfold refreshCircuit at hhalf
      split at hhalf
      · split at hhalf
        · obtain ⟨-, rfl⟩ := CircuitState.halfOpen.inj hhalf
          exact hlimit
        · rename_i hcircuit _
          rw [hcircuit] at hhalf
          cases hhalf
      · unfold exhausted at hexhausted
        rw [hhalf] at hexhausted
        simpa using hexhausted
    rw [if_neg (by omega)]
    exact ⟨_, admitUnder_of_settled hunknown hstarved' hlimit hidle' hrate⟩
  · exact ⟨_, admitUnder_of_settled hunknown hstarved' hmax hidle' hrate⟩

theorem admitRoute_of_exhausted (hexhausted : exhausted policy route = true) (now : Nat)
    (transition : CircuitTransition) : (admitRoute policy route now).2 ≠ .admitted transition := by
  unfold exhausted at hexhausted
  split at hexhausted
  · rename_i successes probes hcircuit
    have hrefresh : refreshCircuit route now = (route, .none) := by
      unfold refreshCircuit
      rw [hcircuit]
    unfold admitRoute
    rw [hrefresh]
    dsimp only
    rw [hcircuit]
    dsimp only
    rw [if_pos (by simpa using hexhausted)]
    intro hadmitted
    cases hadmitted
  · cases hexhausted

theorem admitRoute_of_starved (hstarved : starved policy route = true) (now : Nat) (transition : CircuitTransition) :
    (admitRoute policy route now).2 ≠ .admitted transition := by
  have hstarved' : starved policy (refreshCircuit route now).1 = true := by rw [starved_refreshed, hstarved]
  unfold admitRoute
  dsimp only
  split
  · intro hadmitted
    cases hadmitted
  · split
    · intro hadmitted
      cases hadmitted
    · exact admitUnder_of_starved hstarved' transition
  · exact admitUnder_of_starved hstarved' transition

end

/-! ## A governor -/

section

variable {policy : GovernorPolicy} {g : ProviderGovernor} {h : List GovernorEvent} {routeId : String} {route : RouteState}

theorem admit_answer (hroute : g.routes[routeId]? = some route) (now : Nat) :
    (g.admitAt routeId now).2 = (admitRoute g.policy route now).2 := by
  unfold ProviderGovernor.admitAt
  rw [hroute]
  dsimp only
  split
  · rename_i transition hadmitted
    exact hadmitted.symm
  · rfl

/-- **When a route with nothing in flight can still be admitted.** -/
theorem admissible_iff (hpolicy : g.policy = policy) (hmax : 1 ≤ policy.maxInFlightPerRoute)
    (hprobes : 1 ≤ policy.circuit.halfOpenProbes) (hunknown : policy.rateAdmission.unknownQuota = .conservative)
    (hroute : g.routes[routeId]? = some route) (hidle : route.inFlight = 0) :
    Admissible g routeId ↔ exhausted policy route = false ∧ starved policy route = false := by
  constructor
  · rintro ⟨from_, hadmitted⟩
    obtain ⟨transition, hanswer⟩ := hadmitted from_ (Nat.le_refl _)
    rw [admit_answer hroute, hpolicy] at hanswer
    constructor
    · by_contra hexhausted
      exact admitRoute_of_exhausted (Bool.eq_true_of_not_eq_false hexhausted) from_ transition hanswer
    · by_contra hstarved
      exact admitRoute_of_starved (Bool.eq_true_of_not_eq_false hstarved) from_ transition hanswer
  · rintro ⟨hexhausted, hstarved⟩
    refine ⟨settledAt route, fun now hnow => ?_⟩
    rw [admit_answer hroute, hpolicy]
    exact admitRoute_of_settled hmax hprobes hunknown hidle hexhausted hstarved hnow

/-! ## Runs -/

/-- The last permit of a route is not released while the route is refused for good, and a route with nothing in flight
is not told of a low quota without a reset. -/
def Unlocking (g : ProviderGovernor) : GovernorCall → Prop
  | .release attempt => ∀ permit, g.permits.find? (fun p => p.1 = attempt) = some permit →
    ∀ route, g.routes[permit.2]? = some route → route.inFlight = 1 →
      exhausted g.policy route = false ∧ starved g.policy route = false
  | .observeRateLimit routeId snapshot _ => ∀ route, g.routes[routeId]? = some route → route.inFlight = 0 →
    snapshot.hopeless g.policy.rateAdmission = false
  | _ => True

def Open (policy : GovernorPolicy) (g : ProviderGovernor) : Prop :=
  ∀ (routeId : String) (route : RouteState), g.routes[routeId]? = some route → route.inFlight = 0 →
    exhausted policy route = false ∧ starved policy route = false

variable {g' : ProviderGovernor}

theorem Open.insert (ho : Open policy g) (hroutes : g'.routes = g.routes.insert routeId route)
    (hroute : route.inFlight = 0 → exhausted policy route = false ∧ starved policy route = false) : Open policy g' := by
  intro id route' hroute' hidle
  rw [hroutes] at hroute'
  rcases Table.insert_eq_some hroute' with ⟨-, rfl⟩ | ⟨-, hroute'⟩
  · exact hroute hidle
  · exact ho id route' hroute' hidle

theorem exhausted_refreshed (hlimit : 1 ≤ policy.probeLimit) (hexhausted : exhausted policy route = false) (now : Nat) :
    exhausted policy (refreshCircuit route now).1 = false := by
  unfold refreshCircuit
  split
  · split
    · simp only [exhausted, decide_eq_false_iff_not, Nat.not_le]
      exact hlimit
    · exact hexhausted
  · exact hexhausted

theorem Open.admitAt (ho : Open policy g) (hpolicy : g.policy = policy) (hlimit : 1 ≤ policy.probeLimit) (routeId : String)
    (now : Nat) : Open policy (g.admitAt routeId now).1 := by
  unfold ProviderGovernor.admitAt
  split
  · exact ho
  · rename_i route hroute
    rw [hpolicy]
    have hdecided := @decided_admitRoute policy route now
    generalize admitRoute policy route now = result at hdecided ⊢
    cases hdecided with
    | refused a ha =>
      have hopen : Open policy { g with routes := g.routes.insert routeId (refreshCircuit route now).1 } := by
        refine ho.insert rfl (fun hidle => ?_)
        rw [refreshCircuit_inFlight] at hidle
        obtain ⟨hexhausted, hstarved⟩ := ho routeId route hroute hidle
        exact ⟨exhausted_refreshed hlimit hexhausted now, by rw [starved_refreshed, hstarved]⟩
      cases a with
      | admitted transition => exact (ha transition rfl).elim
      | deferred _ reason => exact hopen
      | rejected reason => exact hopen
    | admitted _ transition _ _ =>
      exact ho.insert rfl (fun hidle => absurd hidle (Nat.succ_ne_zero _))

theorem Open.release (hr : Ruled policy g h) (ho : Open policy g) (attempt : Nat)
    (hmeets : Unlocking g (.release attempt)) : Open policy (g.release attempt) := by
  unfold ProviderGovernor.release
  split
  · exact ho
  · rename_i permit hfind
    dsimp only
    split
    · exact ho
    · rename_i route hroute
      refine ho.insert rfl (fun hidle => ?_)
      have hone : route.inFlight = 1 := by
        have htaken := outstanding_eraseP hfind permit.2
        rw [if_pos rfl] at htaken
        have hpermits := (hr.respected.inFlight permit.2 route hroute).1
        unfold outstanding at hpermits
        dsimp only at hidle
        omega
      have hsame := hmeets permit hfind route hroute hone
      rw [hr.same] at hsame
      exact hsame

theorem Open.observeRateLimit (ho : Open policy g) (hpolicy : g.policy = policy) (routeId : String)
    (snapshot : RateLimitSnapshot) (now : Nat) (hmeets : Unlocking g (.observeRateLimit routeId snapshot now)) :
    Open policy (g.observeRateLimit routeId snapshot now) := by
  unfold ProviderGovernor.observeRateLimit
  split
  · exact ho
  · rename_i route hroute
    refine ho.insert rfl (fun hidle => ⟨(ho routeId route hroute hidle).1, ?_⟩)
    rw [← hpolicy]
    exact hmeets route hroute hidle

theorem Open.observeSuccess (ho : Open policy g) (routeId : String) :
    Open policy (g.observeSuccess routeId).1 := by
  unfold ProviderGovernor.observeSuccess
  split
  · exact ho
  · rename_i route hroute
    refine ho.insert rfl ?_
    have hkept := ho routeId route hroute
    unfold successOn
    split
    · exact fun hidle => ⟨rfl, (hkept hidle).2⟩
    · rename_i successes probes hcircuit
      dsimp only
      split
      · exact fun hidle => ⟨rfl, (hkept hidle).2⟩
      · intro hidle
        refine ⟨?_, (hkept hidle).2⟩
        have hexhausted := (hkept hidle).1
        unfold exhausted at hexhausted
        rw [hcircuit] at hexhausted
        exact hexhausted
    · exact hkept

theorem Open.observeFailure (ho : Open policy g) (routeId : String) (now : Nat) :
    Open policy (g.observeFailure routeId now).1 := by
  unfold ProviderGovernor.observeFailure
  split
  · exact ho
  · rename_i route hroute
    refine ho.insert rfl ?_
    have hkept := ho routeId route hroute
    unfold failureOn failed
    split
    · split <;> exact fun hidle => ⟨rfl, (hkept hidle).2⟩
    · split <;> exact fun hidle => ⟨rfl, (hkept hidle).2⟩
    · exact hkept

theorem Open.serve (hr : Ruled policy g h) (hlimit : 1 ≤ policy.probeLimit) (ho : Open policy g) (call : GovernorCall)
    (hmeets : Unlocking g call) : Open policy (g.serve call) := by
  cases call with
  | registerRoute routeId =>
    simp only [ProviderGovernor.serve, ProviderGovernor.registerRoute]
    split
    · exact ho
    · split
      · exact ho
      · split
        · exact ho
        · exact ho.insert rfl (fun _ => ⟨rfl, rfl⟩)
  | unregisterIdleRoute routeId =>
    simp only [ProviderGovernor.serve, ProviderGovernor.unregisterIdleRoute]
    split
    · intro id route hroute hidle
      rw [Table.get_erase] at hroute
      split at hroute
      · cases hroute
      · exact ho id route hroute hidle
    · exact ho
  | admitAt routeId now => exact ho.admitAt hr.same hlimit routeId now
  | release attempt => exact Open.release hr ho attempt hmeets
  | observeRateLimit routeId snapshot now => exact ho.observeRateLimit hr.same routeId snapshot now hmeets
  | observeSuccess routeId attempt => exact ho.observeSuccess routeId
  | observeFailure routeId attempt now => exact ho.observeFailure routeId now

theorem open_addRoutes {ids : List String} (ho : Open policy g) (hadd : ProviderGovernor.addRoutes ids g = .ok g') :
    Open policy g' := by
  induction ids generalizing g with
  | nil =>
    cases hadd
    exact ho
  | cons _ ids ih =>
    unfold ProviderGovernor.addRoutes at hadd
    split at hadd
    · cases hadd
    · exact ih (ho.insert rfl (fun _ => ⟨rfl, rfl⟩)) hadd

theorem Governed.valid {meets : ProviderGovernor → GovernorCall → Prop} (hg : Governed policy meets g h) :
    1 ≤ policy.maxInFlightPerRoute ∧ 1 ≤ policy.circuit.halfOpenProbes := by
  induction hg with
  | new _ g hnew =>
    unfold ProviderGovernor.new at hnew
    simp only [Refuse.bind_eq_ok] at hnew
    obtain ⟨_, hvalid, -⟩ := hnew
    exact ⟨(validate_eq_ok hvalid).2.1, (validate_eq_ok hvalid).2.2.2⟩
  | serve g h _ _ _ ih => exact ih

theorem Governed.open (hg : Governed policy Unlocking g h) : Open policy g := by
  induction hg with
  | new _ g hnew =>
    unfold ProviderGovernor.new at hnew
    simp only [Refuse.bind_eq_ok] at hnew
    obtain ⟨_, _, _, _, hadd⟩ := hnew
    refine open_addRoutes ?_ hadd
    intro id route hroute
    simp at hroute
  | serve g h call hg hmeets ih =>
    exact Open.serve hg.ruled (Nat.le_min.2 hg.valid) ih call hmeets

end

/-- **Never locked out for good.**  A route with nothing in flight can be admitted at every time from some time on,
exactly when its half-open period still has a probe and its quota was not left low without a reset; and it always can in
a run in which no last permit is released in such a state. -/
theorem never_locked_out (policy : GovernorPolicy) (hunknown : policy.rateAdmission.unknownQuota = .conservative) :
    (∀ meets g h (routeId : String) (route : RouteState), Governed policy meets g h → g.routes[routeId]? = some route →
      outstanding g routeId = 0 →
      (Admissible g routeId ↔ exhausted policy route = false ∧ starved policy route = false)) ∧
    (∀ g h (routeId : String) (route : RouteState), Governed policy Unlocking g h → g.routes[routeId]? = some route →
      outstanding g routeId = 0 → Admissible g routeId) := by
  have hiff : ∀ meets g h (routeId : String) (route : RouteState), Governed policy meets g h → g.routes[routeId]? = some route →
      outstanding g routeId = 0 →
      (Admissible g routeId ↔ exhausted policy route = false ∧ starved policy route = false) := by
    intro meets g h routeId route hg hroute hnone
    have hr := hg.ruled
    have hidle := (hr.respected.inFlight routeId route hroute).1.trans hnone
    exact admissible_iff hr.same hg.valid.1 hg.valid.2 hunknown hroute hidle
  refine ⟨hiff, fun g h routeId route hg hroute hnone => ?_⟩
  have hidle := (hg.ruled.respected.inFlight routeId route hroute).1.trans hnone
  exact (hiff Unlocking g h routeId route hg hroute hnone).2 (hg.open routeId route hroute hidle)

/-- A route whose one attempt was released. -/
theorem never_locked_out_released :
    Admissible ((sampleGovernor.1.serve (.admitAt "p:m" 0)).serve (.release 0)) "p:m" := by
  have hrun : Governed samplePolicy Unlocking ((sampleGovernor.1.serve (.admitAt "p:m" 0)).serve (.release 0)) _ :=
    .serve _ _ (.release 0) (.serve _ _ (.admitAt "p:m" 0) (.new ["p:m"] sampleGovernor.1 rfl) trivial) (by
      intro permit hfind route hroute _
      obtain rfl : (0, "p:m") = permit := Option.some.inj hfind
      obtain rfl : (⟨1, none, .closed 0⟩ : RouteState) = route := Option.some.inj hroute
      exact ⟨rfl, rfl⟩)
  exact (never_locked_out samplePolicy rfl).2 _ _ "p:m" ⟨0, none, .closed 0⟩ hrun rfl rfl

def defaultGovernor : ProviderGovernor × List GovernorEvent :=
  ({ policy := {}, routes := (∅ : Std.ExtTreeMap String RouteState compare).insert "p:m" {} }, [.registered "p:m"])

/-- The default policy: three failures, and a probe that is interrupted. -/
def interruptedProbe : List GovernorCall :=
  [.observeFailure "p:m" 0 0, .observeFailure "p:m" 1 0, .observeFailure "p:m" 2 0, .admitAt "p:m" 30000000000, .release 0]

/-- An interrupted probe leaves a route that is never admitted again. -/
theorem not_never_locked_out : ¬ ∀ policy g h (routeId : String) (route : RouteState),
    policy.rateAdmission.unknownQuota = .conservative → Governed policy (fun _ _ => True) g h →
    g.routes[routeId]? = some route → outstanding g routeId = 0 → Admissible g routeId := by
  intro hall
  have hrun := @Governed.foldl {} interruptedProbe defaultGovernor (.new ["p:m"] defaultGovernor.1 rfl)
  have hroute : (interruptedProbe.foldl govern defaultGovernor).1.routes["p:m"]? = some ⟨0, none, .halfOpen 0 1⟩ := by
    rfl
  have hadmissible := hall {} _ _ "p:m" ⟨0, none, .halfOpen 0 1⟩ rfl hrun hroute rfl
  rw [admissible_iff hrun.ruled.same hrun.valid.1 hrun.valid.2 rfl hroute rfl] at hadmissible
  cases hadmissible.1

end Iteron.Governor
