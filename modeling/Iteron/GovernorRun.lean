import Iteron.Governor
import Iteron.History
/-!
# GovernorRun — periods of a circuit and the attempts admitted in them

The history of a governor, newest first: what its answers said of each route's circuit, the attempts it admitted and the
successes it was told of.
-/
namespace Iteron.Governor

open History (Last Each Stretch)

/-! ## History -/

inductive GovernorEvent where
  | registered (routeId : String)
  | unregistered (routeId : String)
  | opened (routeId : String) (untilAt : Nat)
  | halfOpened (routeId : String) (now : Nat)
  | closed (routeId : String)
  | admitted (routeId : String) (attempt now : Nat)
  | succeeded (routeId : String) (attempt : Nat)
deriving DecidableEq

namespace GovernorEvent

def turns (routeId : String) : GovernorEvent → Bool
  | .registered id => id = routeId
  | .unregistered id => id = routeId
  | .opened id _ => id = routeId
  | .halfOpened id _ => id = routeId
  | .closed id => id = routeId
  | _ => false

def isAdmitted (routeId : String) : GovernorEvent → Bool
  | .admitted id _ _ => id = routeId
  | _ => false

def isSucceeded (routeId : String) : GovernorEvent → Bool
  | .succeeded id _ => id = routeId
  | _ => false

def about : GovernorEvent → String
  | .registered id => id
  | .unregistered id => id
  | .opened id _ => id
  | .halfOpened id _ => id
  | .closed id => id
  | .admitted id _ _ => id
  | .succeeded id _ => id

end GovernorEvent

def governorEvents (g : ProviderGovernor) : GovernorCall → List GovernorEvent
  | .registerRoute routeId => if (g.registerRoute routeId).2 = .ok true then [.registered routeId] else []
  | .unregisterIdleRoute routeId => if (g.unregisterIdleRoute routeId).2 then [.unregistered routeId] else []
  | .admitAt routeId now =>
    (match (g.admitAt routeId now).2 with
      | .admitted _ => [.admitted routeId g.nextAttempt now]
      | _ => []) ++
      if (g.routes[routeId]?.any (fun route => (refreshCircuit route now).2 = .halfOpened)) then
        [.halfOpened routeId now]
      else []
  | .release _ => []
  | .observeRateLimit _ _ _ => []
  | .observeSuccess routeId attempt =>
    (if (g.observeSuccess routeId).2 = .closed then [.closed routeId] else []) ++ [.succeeded routeId attempt]
  | .observeFailure routeId _ now =>
    if (g.observeFailure routeId now).2 = .opened then [.opened routeId (now + g.policy.circuit.openFor)] else []

/-- The states of a governor whose calls all met a condition, with their histories. -/
inductive Governed (policy : GovernorPolicy) (meets : ProviderGovernor → GovernorCall → Prop) :
    ProviderGovernor → List GovernorEvent → Prop
  | new (ids : List String) (g : ProviderGovernor) (h : ProviderGovernor.new policy ids = .ok g) :
    Governed policy meets g (ids.reverse.map .registered)
  | serve (g : ProviderGovernor) (h : List GovernorEvent) (call : GovernorCall) (hg : Governed policy meets g h)
    (hcall : meets g call) : Governed policy meets (g.serve call) (governorEvents g call ++ h)

def outstanding (g : ProviderGovernor) (routeId : String) : Nat := g.permits.countP (fun p => p.2 = routeId)

structure Logged (policy : GovernorPolicy) (h : List GovernorEvent) : Prop where
  opened : Each (fun e before => ∀ routeId attempt now, e = .admitted routeId attempt now →
    ¬ ∃ period untilAt earlier, Last (GovernorEvent.turns routeId) before period (.opened routeId untilAt) earlier) h
  reopened : Each (fun e before => ∀ routeId now, e = .halfOpened routeId now →
    ∃ period untilAt earlier, Last (GovernorEvent.turns routeId) before period (.opened routeId untilAt) earlier ∧
      untilAt ≤ now) h
  probes : Stretch (fun period before => ∀ routeId now earlier, before = .halfOpened routeId now :: earlier →
    (∀ e ∈ period, e.turns routeId = false) →
    period.countP (GovernorEvent.isAdmitted routeId) ≤ min policy.maxInFlightPerRoute policy.circuit.halfOpenProbes) h
  closed : Each (fun e before => ∀ routeId, e = .closed routeId →
    ∃ period now earlier, Last (GovernorEvent.turns routeId) before period (.halfOpened routeId now) earlier ∧
      policy.circuit.successThreshold ≤ period.countP (GovernorEvent.isSucceeded routeId)) h

/-- **What an admission respects.** -/
structure Respected (policy : GovernorPolicy) (g : ProviderGovernor) (h : List GovernorEvent) : Prop where
  inFlight : ∀ routeId route, g.routes[routeId]? = some route →
    route.inFlight = outstanding g routeId ∧ route.inFlight ≤ policy.maxInFlightPerRoute
  logged : Logged policy h

/-! ## The invariant -/

def InPeriod (policy : GovernorPolicy) (h : List GovernorEvent) (routeId : String) : CircuitState → Prop
  | .closed _ => ∃ period e earlier, Last (GovernorEvent.turns routeId) h period e earlier ∧
    (e = .registered routeId ∨ e = .closed routeId)
  | .open untilAt => ∃ period earlier, Last (GovernorEvent.turns routeId) h period (.opened routeId untilAt) earlier
  | .halfOpen successes probes => ∃ period now earlier,
    Last (GovernorEvent.turns routeId) h period (.halfOpened routeId now) earlier ∧
      period.countP (GovernorEvent.isAdmitted routeId) = probes ∧
      successes ≤ period.countP (GovernorEvent.isSucceeded routeId) ∧ probes ≤ policy.probeLimit

structure Ruled (policy : GovernorPolicy) (g : ProviderGovernor) (h : List GovernorEvent) : Prop where
  same : g.policy = policy
  small : policy.maxInFlightPerRoute ≤ 1024
  respected : Respected policy g h
  absent : ∀ routeId, g.routes[routeId]? = none → outstanding g routeId = 0
  inPeriod : ∀ routeId route, g.routes[routeId]? = some route → InPeriod policy h routeId route.circuit

section

variable {policy : GovernorPolicy} {g g' : ProviderGovernor} {h : List GovernorEvent} {routeId : String}

/-! ## One event more -/

structure Fits (policy : GovernorPolicy) (h : List GovernorEvent) (e : GovernorEvent) : Prop where
  admitted : ∀ routeId attempt now, e = .admitted routeId attempt now → ∃ circuit, InPeriod policy h routeId circuit ∧
    (∀ untilAt, circuit ≠ .open untilAt) ∧ ∀ successes probes, circuit = .halfOpen successes probes →
      probes < policy.probeLimit
  reopened : ∀ routeId now, e = .halfOpened routeId now → ∃ untilAt, InPeriod policy h routeId (.open untilAt) ∧
    untilAt ≤ now
  closed : ∀ routeId, e = .closed routeId → ∃ successes probes, InPeriod policy h routeId (.halfOpen successes probes) ∧
    policy.circuit.successThreshold ≤ successes

theorem turns_opened (routeId : String) (untilAt : Nat) : (GovernorEvent.opened routeId untilAt).turns routeId = true :=
  decide_eq_true rfl

theorem turns_halfOpened (routeId : String) (now : Nat) : (GovernorEvent.halfOpened routeId now).turns routeId = true :=
  decide_eq_true rfl

variable {e : GovernorEvent}

theorem turns_calm (he : e = .registered routeId ∨ e = .closed routeId) : e.turns routeId = true := by
  rcases he with rfl | rfl
  · exact decide_eq_true rfl
  · exact decide_eq_true rfl

variable {circuit : CircuitState}

theorem InPeriod.not_open (hp : InPeriod policy h routeId circuit)
    (hopen : ∀ untilAt, circuit ≠ .open untilAt) {period earlier : List GovernorEvent} {untilAt : Nat}
    (hlast : Last (GovernorEvent.turns routeId) h period (.opened routeId untilAt) earlier) : False := by
  cases circuit with
  | closed _ =>
    obtain ⟨_, e, _, hlast', he⟩ := hp
    obtain ⟨-, heq, -⟩ := hlast.unique hlast' (turns_opened routeId untilAt) (turns_calm he)
    rcases he with rfl | rfl
    · cases heq
    · cases heq
  | «open» untilAt' => exact hopen untilAt' rfl
  | halfOpen _ _ =>
    obtain ⟨_, now, _, hlast', -⟩ := hp
    obtain ⟨-, heq, -⟩ := hlast.unique hlast' (turns_opened routeId untilAt) (turns_halfOpened routeId now)
    cases heq

variable {now : Nat}

theorem InPeriod.counted (hp : InPeriod policy h routeId circuit) {period earlier : List GovernorEvent}
    (hlast : Last (GovernorEvent.turns routeId) h period (.halfOpened routeId now) earlier) :
    ∃ successes, circuit = .halfOpen successes (period.countP (GovernorEvent.isAdmitted routeId)) := by
  cases circuit with
  | closed _ =>
    obtain ⟨_, e, _, hlast', he⟩ := hp
    obtain ⟨-, heq, -⟩ := hlast.unique hlast' (turns_halfOpened routeId now) (turns_calm he)
    rcases he with rfl | rfl
    · cases heq
    · cases heq
  | «open» untilAt =>
    obtain ⟨_, _, hlast'⟩ := hp
    obtain ⟨-, heq, -⟩ := hlast.unique hlast' (turns_halfOpened routeId now) (turns_opened routeId untilAt)
    cases heq
  | halfOpen successes _ =>
    obtain ⟨_, now', _, hlast', hcount, -⟩ := hp
    obtain ⟨rfl, -, -⟩ := hlast.unique hlast' (turns_halfOpened routeId now) (turns_halfOpened routeId now')
    exact ⟨successes, by rw [hcount]⟩

theorem Logged.cons {e : GovernorEvent} (hl : Logged policy h) (hf : Fits policy h e) : Logged policy (e :: h) := by
  refine ⟨hl.opened.cons ?_, hl.reopened.cons ?_, hl.probes.cons ?_, hl.closed.cons ?_⟩
  · intro routeId attempt now he
    obtain ⟨circuit, hp, hopen, -⟩ := hf.admitted routeId attempt now he
    rintro ⟨period, untilAt, earlier, hlast⟩
    exact hp.not_open hopen hlast
  · intro routeId now he
    obtain ⟨untilAt, ⟨period, earlier, hlast⟩, huntil⟩ := hf.reopened routeId now he
    exact ⟨period, untilAt, earlier, hlast, huntil⟩
  · intro period before heq routeId now earlier hbefore hcalm
    cases period with
    | nil => exact Nat.zero_le _
    | cons x period =>
      cases heq
      subst hbefore
      have hcalm' : ∀ y ∈ period, y.turns routeId = false := fun y hy => hcalm y (.tail _ hy)
      rw [List.countP_cons]
      by_cases hadmitted : e.isAdmitted routeId = true
      · obtain ⟨attempt, now', rfl⟩ : ∃ attempt now', e = .admitted routeId attempt now' := by
          cases e with
          | admitted id attempt now' =>
            have hid : id = routeId := by simpa [GovernorEvent.isAdmitted] using hadmitted
            exact ⟨attempt, now', by rw [hid]⟩
          | _ => simp [GovernorEvent.isAdmitted] at hadmitted
        obtain ⟨circuit, hp, -, hprobes⟩ := hf.admitted routeId attempt now' rfl
        obtain ⟨successes, rfl⟩ := hp.counted ⟨rfl, hcalm'⟩
        rw [if_pos hadmitted]
        exact hprobes successes _ rfl
      · rw [if_neg hadmitted]
        exact hl.probes [] period _ rfl routeId now earlier rfl hcalm'
  · intro routeId he
    obtain ⟨successes, _, ⟨period, now, earlier, hlast, -, hsuccesses, -⟩, hthreshold⟩ := hf.closed routeId he
    exact ⟨period, now, earlier, hlast, Nat.le_trans hthreshold hsuccesses⟩

/-! ## Periods of a route -/

theorem GovernorEvent.foreign (he : e.about ≠ routeId) :
    e.turns routeId = false ∧ e.isAdmitted routeId = false ∧ e.isSucceeded routeId = false := by
  cases e <;> simp_all [GovernorEvent.about, GovernorEvent.turns, GovernorEvent.isAdmitted, GovernorEvent.isSucceeded]

theorem InPeriod.goes_on {circuit' : CircuitState} (hp : InPeriod policy h routeId circuit) (hturns : e.turns routeId = false)
    (hclosed : ∀ failures, circuit = .closed failures → ∃ failures', circuit' = .closed failures')
    (hopen : ∀ untilAt, circuit = .open untilAt → circuit' = .open untilAt)
    (hhalf : ∀ successes probes, circuit = .halfOpen successes probes → ∃ successes', circuit' = .halfOpen successes'
      (probes + if e.isAdmitted routeId then 1 else 0) ∧ successes' ≤ successes + (if e.isSucceeded routeId then 1 else 0) ∧
      probes + (if e.isAdmitted routeId then 1 else 0) ≤ policy.probeLimit) :
    InPeriod policy (e :: h) routeId circuit' := by
  cases circuit with
  | closed failures =>
    obtain ⟨failures', rfl⟩ := hclosed failures rfl
    obtain ⟨period, x, earlier, hlast, hx⟩ := hp
    exact ⟨_, x, earlier, hlast.cons hturns, hx⟩
  | «open» untilAt =>
    rw [hopen untilAt rfl]
    obtain ⟨period, earlier, hlast⟩ := hp
    exact ⟨_, earlier, hlast.cons hturns⟩
  | halfOpen successes probes =>
    obtain ⟨successes', rfl, _, hprobes⟩ := hhalf successes probes rfl
    obtain ⟨period, now, earlier, hlast, hcount, _, -⟩ := hp
    refine ⟨_, now, earlier, hlast.cons hturns, ?_, ?_, hprobes⟩
    · rw [List.countP_cons, hcount]
    · rw [List.countP_cons]
      omega

theorem InPeriod.other (hp : InPeriod policy h routeId circuit)
    (he : e.about ≠ routeId) : InPeriod policy (e :: h) routeId circuit := by
  obtain ⟨hturns, hadmitted, _⟩ := GovernorEvent.foreign he
  refine hp.goes_on hturns (fun failures hc => ⟨failures, hc⟩) (fun untilAt hc => hc) ?_
  intro successes probes hc
  subst hc
  obtain ⟨-, -, -, -, -, -, hprobes⟩ := hp
  refine ⟨successes, ?_, ?_, ?_⟩
  · rw [if_neg (by rw [hadmitted]; decide), Nat.add_zero]
  · exact Nat.le_add_right _ _
  · rw [if_neg (by rw [hadmitted]; decide), Nat.add_zero]
    exact hprobes

theorem inPeriod_registered (h : List GovernorEvent) (routeId : String) (failures : Nat) :
    InPeriod policy (.registered routeId :: h) routeId (.closed failures) :=
  ⟨[], .registered routeId, h, History.last_head _ _ h, .inl rfl⟩

theorem inPeriod_closed (h : List GovernorEvent) (routeId : String) (failures : Nat) :
    InPeriod policy (.closed routeId :: h) routeId (.closed failures) :=
  ⟨[], .closed routeId, h, History.last_head _ _ h, .inr rfl⟩

theorem inPeriod_opened (h : List GovernorEvent) (routeId : String) (untilAt : Nat) :
    InPeriod policy (.opened routeId untilAt :: h) routeId (.open untilAt) :=
  ⟨[], h, History.last_head _ _ h⟩

theorem inPeriod_halfOpened (h : List GovernorEvent) (routeId : String) (now : Nat) :
    InPeriod policy (.halfOpened routeId now :: h) routeId (.halfOpen 0 0) :=
  ⟨[], now, h, History.last_head _ _ h, rfl, Nat.le_refl 0, Nat.zero_le _⟩

/-! ## Calls that touch one route -/

theorem Ruled.update {route : RouteState} {events : List GovernorEvent} (hr : Ruled policy g h)
    (hpolicy : g'.policy = g.policy) (hroutes : g'.routes = g.routes.insert routeId route)
    (hevents : ∀ e ∈ events, e.about = routeId) (hlogged : Logged policy (events ++ h))
    (hperiod : InPeriod policy (events ++ h) routeId route.circuit)
    (hpermits : route.inFlight = outstanding g' routeId) (hmax : route.inFlight ≤ policy.maxInFlightPerRoute)
    (hother : ∀ id, id ≠ routeId → outstanding g' id = outstanding g id) : Ruled policy g' (events ++ h) := by
  have hframe : ∀ (events : List GovernorEvent), (∀ e ∈ events, e.about = routeId) → ∀ id circuit, id ≠ routeId →
      InPeriod policy h id circuit → InPeriod policy (events ++ h) id circuit := by
    intro events hevents id circuit hid hp
    induction events with
    | nil => exact hp
    | cons e events ih =>
      refine (ih (fun x hx => hevents x (.tail _ hx))).other ?_
      rw [hevents e List.mem_cons_self]
      exact hid.symm
  refine ⟨hpolicy.trans hr.same, hr.small, ⟨?_, hlogged⟩, ?_, ?_⟩
  · intro id route' hroute'
    rw [hroutes] at hroute'
    rcases Table.insert_eq_some hroute' with ⟨rfl, rfl⟩ | ⟨hne, hroute'⟩
    · exact ⟨hpermits, hmax⟩
    · rw [hother id hne.symm]
      exact hr.respected.inFlight id route' hroute'
  · intro id hnone
    rw [hroutes, Table.get_insert] at hnone
    split at hnone
    · cases hnone
    · rename_i hne
      rw [hother id (Ne.symm hne)]
      exact hr.absent id hnone
  · intro id route' hroute'
    rw [hroutes] at hroute'
    rcases Table.insert_eq_some hroute' with ⟨rfl, rfl⟩ | ⟨hne, hroute'⟩
    · exact hperiod
    · exact hframe events hevents id _ hne.symm (hr.inPeriod id route' hroute')

theorem fits_plain (hadmitted : ∀ id attempt now, e ≠ .admitted id attempt now)
    (hreopened : ∀ id now, e ≠ .halfOpened id now) (hclosed : ∀ id, e ≠ .closed id) : Fits policy h e :=
  ⟨fun id attempt now he => (hadmitted id attempt now he).elim, fun id now he => (hreopened id now he).elim,
    fun id he => (hclosed id he).elim⟩

theorem Ruled.registerRoute (hr : Ruled policy g h) (routeId : String) :
    Ruled policy (g.serve (.registerRoute routeId)) (governorEvents g (.registerRoute routeId) ++ h) := by
  simp only [ProviderGovernor.serve, governorEvents]
  generalize hcall : g.registerRoute routeId = result
  unfold ProviderGovernor.registerRoute at hcall
  split at hcall
  · obtain rfl := hcall
    exact hr
  · split at hcall
    · obtain rfl := hcall
      exact hr
    · rename_i hcontains
      split at hcall
      · obtain rfl := hcall
        exact hr
      · obtain rfl := hcall
        have hnone : g.routes[routeId]? = none := (Table.contains_eq_false _ _).1 (Bool.eq_false_iff.2 hcontains)
        refine hr.update rfl rfl ?_ ?_ (inPeriod_registered h routeId 0) (hr.absent routeId hnone).symm (Nat.zero_le _)
          (fun id _ => rfl)
        · intro e he
          rw [List.mem_singleton.1 he]
          rfl
        · refine hr.respected.logged.cons (fits_plain ?_ ?_ ?_)
          · intro id attempt now he
            cases he
          · intro id now he
            cases he
          · intro id he
            cases he

theorem Ruled.unregisterIdleRoute (hr : Ruled policy g h) (routeId : String) :
    Ruled policy (g.serve (.unregisterIdleRoute routeId)) (governorEvents g (.unregisterIdleRoute routeId) ++ h) := by
  simp only [ProviderGovernor.serve, governorEvents, ProviderGovernor.unregisterIdleRoute]
  split
  · rename_i hidle
    have hkept : ∀ (id : String) (route : RouteState), (g.routes.erase routeId)[id]? = some route →
        routeId ≠ id ∧ g.routes[id]? = some route := by
      intro id route hroute
      rw [Table.get_erase] at hroute
      split at hroute
      · cases hroute
      · rename_i hne
        exact ⟨hne, hroute⟩
    refine ⟨hr.same, hr.small, ⟨?_, ?_⟩, ?_, ?_⟩
    · intro id route hroute
      exact hr.respected.inFlight id route (hkept id route hroute).2
    · refine hr.respected.logged.cons (fits_plain ?_ ?_ ?_)
      · intro id attempt now he
        cases he
      · intro id now he
        cases he
      · intro id he
        cases he
    · intro id hnone
      rw [Table.get_erase] at hnone
      split at hnone
      · rename_i hid
        obtain ⟨route, hroute, hzero⟩ := (Option.any_eq_true _ _).1 hidle
        rw [← hid]
        rw [decide_eq_true_eq, (hr.respected.inFlight routeId route hroute).1] at hzero
        exact hzero
      · exact hr.absent id hnone
    · intro id route hroute
      obtain ⟨hne, hroute⟩ := hkept id route hroute
      exact (hr.inPeriod id route hroute).other hne
  · exact hr

/-! ## Admission -/

variable {route : RouteState} {ceiling : Nat} {rates : RateAdmissionPolicy}

theorem quotaDecision_le {ceiling' : Nat} (hq : quotaDecision route rates now ceiling = .ok ceiling') :
    ceiling' ≤ ceiling := by
  unfold quotaDecision at hq
  split at hq
  · split at hq
    · rw [← Except.ok.inj hq]
      exact Nat.min_le_left _ _
    · cases hq
  · dsimp only at hq
    split at hq
    · rw [← Except.ok.inj hq]
      exact Nat.min_le_left _ _
    · split at hq
      · rw [← Except.ok.inj hq]
        split
        · exact Nat.min_le_left _ _
        · exact Nat.le_refl _
      · split at hq
        · cases hq
        · cases hq

theorem quotaDecision_error {a : Admission} (hq : quotaDecision route rates now ceiling = .error a)
    (transition : CircuitTransition) : a ≠ .admitted transition := by
  rintro rfl
  unfold quotaDecision at hq
  split at hq
  · split at hq
    · cases hq
    · cases hq
  · dsimp only at hq
    split at hq
    · cases hq
    · split at hq
      · cases hq
      · split at hq
        · cases hq
        · cases hq

inductive Probed (policy : GovernorPolicy) : CircuitState → CircuitState → Prop
  | closed (failures : Nat) : Probed policy (.closed failures) (.closed failures)
  | halfOpen (successes probes : Nat) (h : probes < policy.probeLimit) :
    Probed policy (.halfOpen successes probes) (.halfOpen successes (saturatingAdd16 probes 1))

inductive Decided (policy : GovernorPolicy) (refreshed : RouteState) : RouteState × Admission → Prop
  | refused (a : Admission) (h : ∀ transition, a ≠ .admitted transition) : Decided policy refreshed (refreshed, a)
  | admitted (circuit : CircuitState) (transition : CircuitTransition) (hprobed : Probed policy refreshed.circuit circuit)
    (hroom : refreshed.inFlight < policy.maxInFlightPerRoute) :
    Decided policy refreshed
      ({ refreshed with inFlight := refreshed.inFlight + 1, circuit := circuit }, .admitted transition)

theorem decided_admitUnder {transition : CircuitTransition} (hprobed : Probed policy route.circuit circuit)
    (hceiling : ceiling ≤ policy.maxInFlightPerRoute) :
    Decided policy route (admitUnder policy route transition now ceiling circuit) := by
  unfold admitUnder
  split
  · rename_i a hq
    exact .refused a (quotaDecision_error hq)
  · rename_i ceiling' hq
    split
    · exact .refused _ (fun _ ha => by cases ha)
    · rename_i hroom
      exact .admitted circuit transition hprobed
        (Nat.lt_of_lt_of_le (Nat.lt_of_not_le hroom) (Nat.le_trans (quotaDecision_le hq) hceiling))

theorem decided_admitRoute (route : RouteState) (now : Nat) :
    Decided policy (refreshCircuit route now).1 (admitRoute policy route now) := by
  unfold admitRoute
  dsimp only
  split
  · exact .refused _ (fun _ ha => by cases ha)
  · rename_i successes probes hcircuit
    split
    · exact .refused _ (fun _ ha => by cases ha)
    · rename_i hprobes
      refine decided_admitUnder ?_ (Nat.min_le_left _ _)
      rw [hcircuit]
      exact .halfOpen successes probes (Nat.lt_of_not_le hprobes)
  · rename_i failures hcircuit
    refine decided_admitUnder ?_ (Nat.le_refl _)
    rw [hcircuit]
    exact .closed failures

def refreshEvents (route : RouteState) (routeId : String) (now : Nat) : List GovernorEvent :=
  if (refreshCircuit route now).2 = .halfOpened then [.halfOpened routeId now] else []

theorem refreshCircuit_inFlight (route : RouteState) (now : Nat) :
    (refreshCircuit route now).1.inFlight = route.inFlight := by
  unfold refreshCircuit
  split
  · split
    · rfl
    · rfl
  · rfl

theorem refreshed {route : RouteState} (hl : Logged policy h) (hp : InPeriod policy h routeId route.circuit) (now : Nat) :
    Logged policy (refreshEvents route routeId now ++ h) ∧
      InPeriod policy (refreshEvents route routeId now ++ h) routeId (refreshCircuit route now).1.circuit := by
  unfold refreshEvents refreshCircuit
  split
  · rename_i untilAt hcircuit
    split
    · rename_i huntil
      refine ⟨hl.cons ⟨?_, ?_, ?_⟩, inPeriod_halfOpened h routeId now⟩
      · intro id attempt now' he
        cases he
      · intro id now' he
        obtain ⟨rfl, rfl⟩ := GovernorEvent.halfOpened.inj he
        rw [hcircuit] at hp
        exact ⟨untilAt, hp, huntil⟩
      · intro id he
        cases he
    · exact ⟨hl, hp⟩
  · exact ⟨hl, hp⟩

theorem saturatingAdd16_succ {n : Nat} (hn : n < 1024) : saturatingAdd16 n 1 = n + 1 := by
  unfold saturatingAdd16
  omega

theorem admitted_fits {circuit' : CircuitState} (hsmall : policy.maxInFlightPerRoute ≤ 1024)
    (hp : InPeriod policy h routeId circuit) (hprobed : Probed policy circuit circuit') (attempt now : Nat) :
    Fits policy h (.admitted routeId attempt now) ∧
      InPeriod policy (.admitted routeId attempt now :: h) routeId circuit' := by
  have hself : (GovernorEvent.admitted routeId attempt now).isAdmitted routeId = true := by
    simp [GovernorEvent.isAdmitted]
  constructor
  · refine ⟨?_, ?_, ?_⟩
    · intro id attempt' now' he
      obtain ⟨rfl, -, -⟩ := GovernorEvent.admitted.inj he
      refine ⟨circuit, hp, ?_, ?_⟩
      · rintro untilAt rfl
        cases hprobed
      · rintro successes probes rfl
        cases hprobed with
        | halfOpen _ _ hlimit => exact hlimit
    · intro id now' he
      cases he
    · intro id he
      cases he
  · refine hp.goes_on rfl ?_ ?_ ?_
    · rintro failures rfl
      cases hprobed with
      | closed => exact ⟨failures, rfl⟩
    · rintro untilAt rfl
      cases hprobed
    · rintro successes probes rfl
      cases hprobed with
      | halfOpen _ _ hlimit =>
        rw [if_pos hself]
        have hmax : policy.probeLimit ≤ 1024 := Nat.le_trans (Nat.min_le_left _ _) hsmall
        rw [saturatingAdd16_succ (Nat.lt_of_lt_of_le hlimit hmax)]
        exact ⟨successes, rfl, Nat.le_add_right _ _, hlimit⟩

theorem Ruled.admitAt (hr : Ruled policy g h) (routeId : String) (now : Nat) :
    Ruled policy (g.serve (.admitAt routeId now)) (governorEvents g (.admitAt routeId now) ++ h) := by
  simp only [ProviderGovernor.serve, governorEvents]
  cases hroute : g.routes[routeId]? with
  | none =>
    have hanswer : g.admitAt routeId now = (g, .rejected .unknownRoute) := by
      unfold ProviderGovernor.admitAt
      rw [hroute]
    rw [hanswer]
    exact hr
  | some route =>
    obtain ⟨hlogged, hperiod⟩ := @refreshed policy h routeId route hr.respected.logged (hr.inPeriod routeId route hroute) now
    obtain ⟨hpermits, hmax⟩ := hr.respected.inFlight routeId route hroute
    have hflight := refreshCircuit_inFlight route now
    have hevents : (if Option.any (fun route => decide ((refreshCircuit route now).2 = .halfOpened)) (some route) = true
        then [GovernorEvent.halfOpened routeId now] else []) = refreshEvents route routeId now := by
      simp [refreshEvents]
    have habout : ∀ e ∈ refreshEvents route routeId now, e.about = routeId := by
      intro e he
      unfold refreshEvents at he
      split at he
      · rw [List.mem_singleton.1 he]
        rfl
      · cases he
    rw [hevents]
    have hdecided := @decided_admitRoute policy route now
    unfold ProviderGovernor.admitAt
    rw [hroute, hr.same]
    dsimp only
    generalize hresult : admitRoute policy route now = result at hdecided ⊢
    cases hdecided with
    | refused a ha =>
      cases a with
      | admitted transition => exact (ha transition rfl).elim
      | deferred _ reason =>
        refine hr.update hr.same.symm rfl habout hlogged hperiod ?_ (by rw [hflight]; exact hmax) (fun id _ => rfl)
        rw [hflight]
        exact hpermits
      | rejected reason =>
        refine hr.update hr.same.symm rfl habout hlogged hperiod ?_ (by rw [hflight]; exact hmax) (fun id _ => rfl)
        rw [hflight]
        exact hpermits
    | admitted _ transition hprobed hroom =>
      obtain ⟨hfits, hperiod'⟩ := admitted_fits hr.small hperiod hprobed g.nextAttempt now
      refine hr.update hr.same.symm rfl ?_ (hlogged.cons hfits) hperiod' ?_ hroom ?_
      · intro e he
        rcases List.mem_cons.1 he with rfl | he
        · rfl
        · exact habout e he
      · dsimp only [outstanding]
        rw [List.countP_cons_of_pos (by simp), hflight, hpermits]
        rfl
      · intro id hid
        dsimp only [outstanding]
        rw [List.countP_cons_of_neg (by simpa using hid.symm)]

/-! ## Releases and observations -/

theorem Ruled.observeRateLimit (hr : Ruled policy g h) (routeId : String) (snapshot : RateLimitSnapshot) (now : Nat) :
    Ruled policy (g.serve (.observeRateLimit routeId snapshot now)) h := by
  simp only [ProviderGovernor.serve, ProviderGovernor.observeRateLimit]
  split
  · exact hr
  · rename_i route hroute
    obtain ⟨hpermits, hmax⟩ := hr.respected.inFlight routeId route hroute
    exact @Ruled.update policy g _ h routeId { route with rate := some ⟨snapshot, now⟩ } [] hr rfl rfl
      (fun e he => absurd he List.not_mem_nil) hr.respected.logged (hr.inPeriod routeId route hroute) hpermits hmax
      (fun id _ => rfl)

theorem outstanding_eraseP {permits : List (Nat × String)} {attempt : Nat} {permit : Nat × String}
    (hfind : permits.find? (fun p => p.1 = attempt) = some permit) (id : String) : permits.countP (fun p => p.2 = id) =
      (permits.eraseP (fun p => p.1 = attempt)).countP (fun p => p.2 = id) + if permit.2 = id then 1 else 0 := by
  induction permits with
  | nil => cases hfind
  | cons p permits ih =>
    rw [List.find?_cons] at hfind
    by_cases hp : p.1 = attempt
    · rw [decide_eq_true hp] at hfind
      cases hfind
      rw [List.eraseP_cons_of_pos (by simp [hp]), List.countP_cons]
      simp
    · rw [decide_eq_false hp] at hfind
      rw [List.eraseP_cons_of_neg (by simp [hp]), List.countP_cons, List.countP_cons, ih hfind]
      omega

theorem Ruled.release (hr : Ruled policy g h) (attempt : Nat) : Ruled policy (g.serve (.release attempt)) h := by
  simp only [ProviderGovernor.serve, ProviderGovernor.release]
  split
  · exact hr
  · rename_i permit hfind
    have htaken := outstanding_eraseP hfind
    split
    · rename_i hnone
      have hzero := hr.absent permit.2 hnone
      have hself := htaken permit.2
      rw [if_pos rfl] at hself
      unfold outstanding at hzero
      omega
    · rename_i route hroute
      obtain ⟨hpermits, hmax⟩ := hr.respected.inFlight permit.2 route hroute
      refine @Ruled.update policy g _ h permit.2 { route with inFlight := route.inFlight - 1 } [] hr rfl rfl
        (fun e he => absurd he List.not_mem_nil) hr.respected.logged (hr.inPeriod permit.2 route hroute) ?_
        (Nat.le_trans (Nat.sub_le _ _) hmax) ?_
      · have hself := htaken permit.2
        rw [if_pos rfl] at hself
        unfold outstanding at hpermits ⊢
        dsimp only
        omega
      · intro id hid
        have hother := htaken id
        rw [if_neg hid.symm] at hother
        exact hother.symm

theorem succeeded_period {circuit circuit' : CircuitState} (hp : InPeriod policy h routeId circuit) (attempt : Nat)
    (hclosed : ∀ failures, circuit = .closed failures → ∃ failures', circuit' = .closed failures')
    (hopen : ∀ untilAt, circuit = .open untilAt → circuit' = .open untilAt)
    (hhalf : ∀ successes probes, circuit = .halfOpen successes probes →
      circuit' = .halfOpen (saturatingAdd16 successes 1) probes) :
    InPeriod policy (.succeeded routeId attempt :: h) routeId circuit' := by
  refine hp.goes_on rfl hclosed hopen ?_
  rintro successes probes rfl
  obtain ⟨-, -, -, -, -, -, hprobes⟩ := hp
  have hself : (GovernorEvent.succeeded routeId attempt).isSucceeded routeId = true := by
    simp [GovernorEvent.isSucceeded]
  rw [if_pos hself, hhalf successes probes rfl]
  exact ⟨saturatingAdd16 successes 1, rfl, Nat.min_le_left _ _, hprobes⟩

theorem fits_succeeded (id : String) (attempt : Nat) : Fits policy h (.succeeded id attempt) := by
  refine fits_plain ?_ ?_ ?_
  · intro id' attempt' now he
    cases he
  · intro id' now he
    cases he
  · intro id' he
    cases he

theorem Ruled.observeSuccess (hr : Ruled policy g h) (routeId : String) (attempt : Nat) :
    Ruled policy (g.serve (.observeSuccess routeId attempt)) (governorEvents g (.observeSuccess routeId attempt) ++ h) := by
  have hlogged : Logged policy (.succeeded routeId attempt :: h) := hr.respected.logged.cons (fits_succeeded _ _)
  simp only [ProviderGovernor.serve, governorEvents]
  cases hroute : g.routes[routeId]? with
  | none =>
    have hcall : g.observeSuccess routeId = (g, .none) := by
      unfold ProviderGovernor.observeSuccess
      rw [hroute]
    rw [hcall, if_neg (by simp)]
    refine ⟨hr.same, hr.small, ⟨hr.respected.inFlight, hlogged⟩, hr.absent, ?_⟩
    intro id route hid
    refine (hr.inPeriod id route hid).other ?_
    rintro rfl
    rw [show GovernorEvent.about (.succeeded routeId attempt) = routeId from rfl, hroute] at hid
    cases hid
  | some route =>
    have hcall : g.observeSuccess routeId =
        ({ g with routes := g.routes.insert routeId (successOn g.policy route).1 }, (successOn g.policy route).2) := by
      unfold ProviderGovernor.observeSuccess
      rw [hroute]
    obtain ⟨hpermits, hmax⟩ := hr.respected.inFlight routeId route hroute
    have hp := hr.inPeriod routeId route hroute
    have habout : ∀ e ∈ [GovernorEvent.closed routeId, .succeeded routeId attempt], e.about = routeId := by
      simp [GovernorEvent.about]
    rw [hcall, hr.same]
    generalize hresult : successOn policy route = result
    unfold successOn at hresult
    split at hresult
    · rename_i failures hcircuit
      obtain rfl := hresult
      refine hr.update hr.same.symm rfl (fun e he => habout e (.tail _ he)) hlogged ?_ hpermits hmax (fun id _ => rfl)
      rw [hcircuit] at hp
      refine succeeded_period hp attempt (fun _ _ => ⟨0, rfl⟩) ?_ ?_
      · intro untilAt hc
        cases hc
      · intro successes probes hc
        cases hc
    · rename_i successes probes hcircuit
      rw [hcircuit] at hp
      have hp' := @succeeded_period policy h routeId (.halfOpen successes probes)
        (.halfOpen (saturatingAdd16 successes 1) probes) hp attempt ?_ ?_ ?_
      · dsimp only at hresult
        split at hresult
        · rename_i hthreshold
          obtain rfl := hresult
          refine hr.update hr.same.symm rfl habout (hlogged.cons ⟨?_, ?_, ?_⟩) (inPeriod_closed _ routeId 0) hpermits hmax
            (fun id _ => rfl)
          · intro id attempt' now he
            cases he
          · intro id now he
            cases he
          · intro id he
            obtain rfl := GovernorEvent.closed.inj he
            exact ⟨_, probes, hp', hthreshold⟩
        · obtain rfl := hresult
          exact hr.update hr.same.symm rfl (fun e he => habout e (.tail _ he)) hlogged hp' hpermits hmax
            (fun id _ => rfl)
      · intro failures hc
        cases hc
      · intro untilAt hc
        cases hc
      · intro successes' probes' hc
        obtain ⟨rfl, rfl⟩ := CircuitState.halfOpen.inj hc
        rfl
    · rename_i untilAt hcircuit
      obtain rfl := hresult
      refine hr.update hr.same.symm rfl (fun e he => habout e (.tail _ he)) hlogged ?_ hpermits hmax (fun id _ => rfl)
      refine succeeded_period hp attempt (fun failures hc => ⟨failures, hc⟩) (fun _ hc => hc) ?_
      intro successes probes hc
      rw [hcircuit] at hc
      cases hc

theorem Ruled.observeFailure (hr : Ruled policy g h) (routeId : String) (attempt now : Nat) :
    Ruled policy (g.serve (.observeFailure routeId attempt now))
      (governorEvents g (.observeFailure routeId attempt now) ++ h) := by
  simp only [ProviderGovernor.serve, governorEvents]
  cases hroute : g.routes[routeId]? with
  | none =>
    have hcall : g.observeFailure routeId now = (g, .none) := by
      unfold ProviderGovernor.observeFailure
      rw [hroute]
    rw [hcall, if_neg (by simp)]
    exact hr
  | some route =>
    have hcall : g.observeFailure routeId now =
        ({ g with routes := g.routes.insert routeId (failureOn g.policy route now).1 },
          (failureOn g.policy route now).2) := by
      unfold ProviderGovernor.observeFailure
      rw [hroute]
    obtain ⟨hpermits, hmax⟩ := hr.respected.inFlight routeId route hroute
    have hp := hr.inPeriod routeId route hroute
    have hopened : ∀ route' : RouteState, route'.inFlight = route.inFlight →
        route'.circuit = .open (now + policy.circuit.openFor) →
        Ruled policy { g with routes := g.routes.insert routeId route' }
          ([.opened routeId (now + policy.circuit.openFor)] ++ h) := by
      intro route' hflight hcircuit
      refine hr.update rfl rfl ?_ (hr.respected.logged.cons (fits_plain ?_ ?_ ?_)) ?_ ?_ (by rw [hflight]; exact hmax)
        (fun id _ => rfl)
      · intro e he
        rw [List.mem_singleton.1 he]
        rfl
      · intro id attempt' now' he
        cases he
      · intro id now' he
        cases he
      · intro id he
        cases he
      · rw [hcircuit]
        exact inPeriod_opened h routeId _
      · rw [hflight]
        exact hpermits
    rw [hr.same] at hopened
    rw [hcall, hr.same]
    generalize hresult : failureOn policy route now = result
    unfold failureOn failed at hresult
    split at hresult
    · rename_i failures hcircuit
      split at hresult
      · obtain rfl := hresult
        exact hopened { route with circuit := .open (now + policy.circuit.openFor) } rfl rfl
      · obtain rfl := hresult
        refine hr.update hr.same.symm rfl (fun e he => absurd he List.not_mem_nil) hr.respected.logged ?_ hpermits hmax
          (fun id _ => rfl)
        rw [hcircuit] at hp
        exact hp
    · rw [if_pos (Nat.le_refl _)] at hresult
      obtain rfl := hresult
      exact hopened { route with circuit := .open (now + policy.circuit.openFor) } rfl rfl
    · obtain rfl := hresult
      exact hr.update hr.same.symm rfl (fun e he => absurd he List.not_mem_nil) hr.respected.logged hp hpermits hmax
        (fun id _ => rfl)

/-! ## Runs -/

variable {ids : List String}

theorem ruled_addRoutes (hr : Ruled policy g h) (hadd : ProviderGovernor.addRoutes ids g = .ok g') :
    Ruled policy g' (ids.reverse.map .registered ++ h) := by
  induction ids generalizing g h with
  | nil =>
    cases hadd
    exact hr
  | cons id ids ih =>
    unfold ProviderGovernor.addRoutes at hadd
    split at hadd
    · cases hadd
    · rename_i hid
      have hcontains : g.routes.contains id = false := Bool.eq_false_iff.2 (fun hc => hid (.inr (.inr hc)))
      have hnone : g.routes[id]? = none := (Table.contains_eq_false _ _).1 hcontains
      have hnext : Ruled policy { g with routes := g.routes.insert id {} } ([.registered id] ++ h) := by
        refine hr.update rfl rfl ?_ (hr.respected.logged.cons (fits_plain ?_ ?_ ?_)) (inPeriod_registered h id 0)
          (hr.absent id hnone).symm (Nat.zero_le _) (fun _ _ => rfl)
        · intro e he
          rw [List.mem_singleton.1 he]
          rfl
        · intro id' attempt now he
          cases he
        · intro id' now he
          cases he
        · intro id' he
          cases he
      have hrest := ih hnext hadd
      rw [List.reverse_cons, List.map_append, List.append_assoc]
      exact hrest

theorem logged_nil (policy : GovernorPolicy) : Logged policy [] := by
  refine ⟨History.each_nil _, History.each_nil _, History.stretch_nil ?_, History.each_nil _⟩
  intro routeId now earlier hbefore
  cases hbefore

theorem validate_eq_ok {policy policy' : GovernorPolicy} (hv : policy.validate = .ok policy') :
    policy' = policy ∧ 1 ≤ policy.maxInFlightPerRoute ∧ policy.maxInFlightPerRoute ≤ 1024 ∧
      1 ≤ policy.circuit.halfOpenProbes := by
  unfold GovernorPolicy.validate at hv
  simp only [Refuse.bind_eq_ok, Refuse.refuseIf_eq_ok, Refuse.pure_eq_ok] at hv
  obtain ⟨_, _, _, _, _, _, _, _, rfl⟩ := hv
  exact ⟨rfl, by omega, by omega, by omega⟩

theorem ruled_new (hnew : ProviderGovernor.new policy ids = .ok g) : Ruled policy g (ids.reverse.map .registered) := by
  unfold ProviderGovernor.new at hnew
  simp only [Refuse.bind_eq_ok] at hnew
  obtain ⟨policy', hvalid, _, _, hadd⟩ := hnew
  obtain ⟨rfl, -, hmax, -⟩ := validate_eq_ok hvalid
  have hnone : ∀ (id : String) (route : RouteState),
      ({ policy := policy' } : ProviderGovernor).routes[id]? = some route → False := by
    intro id route hroute
    simp at hroute
  have hempty : Ruled policy' { policy := policy' } [] :=
    ⟨rfl, hmax, ⟨fun id route hroute => (hnone id route hroute).elim, logged_nil policy'⟩, fun _ _ => rfl,
      fun id route hroute => (hnone id route hroute).elim⟩
  have hadded := ruled_addRoutes hempty hadd
  rw [List.append_nil] at hadded
  exact hadded

theorem Ruled.serve (hr : Ruled policy g h) (call : GovernorCall) :
    Ruled policy (g.serve call) (governorEvents g call ++ h) := by
  cases call with
  | registerRoute routeId => exact hr.registerRoute routeId
  | unregisterIdleRoute routeId => exact hr.unregisterIdleRoute routeId
  | admitAt routeId now => exact hr.admitAt routeId now
  | release attempt => exact hr.release attempt
  | observeRateLimit routeId snapshot now => exact hr.observeRateLimit routeId snapshot now
  | observeSuccess routeId attempt => exact hr.observeSuccess routeId attempt
  | observeFailure routeId attempt now => exact hr.observeFailure routeId attempt now

theorem Governed.ruled {meets : ProviderGovernor → GovernorCall → Prop} (hg : Governed policy meets g h) :
    Ruled policy g h := by
  induction hg with
  | new _ g hnew => exact ruled_new hnew
  | serve g h call _ _ ih => exact ih.serve call

end

/-- **In every state of a governor** a route's attempts in flight are its permits not yet released and no more than the
policy allows, nothing is admitted in an open period, a half-open period begins when the open one is over and admits no
more attempts than its probes, and a circuit closes only after enough successes observed in its half-open period. -/
theorem admission_respected (policy : GovernorPolicy) (g : ProviderGovernor) (h : List GovernorEvent)
    (hg : Governed policy (fun _ _ => True) g h) : Respected policy g h := hg.ruled.respected

/-! ## A late success -/

def govern (p : ProviderGovernor × List GovernorEvent) (call : GovernorCall) : ProviderGovernor × List GovernorEvent :=
  (p.1.serve call, governorEvents p.1 call ++ p.2)

theorem Governed.foldl {policy : GovernorPolicy} : ∀ (calls : List GovernorCall)
    (p : ProviderGovernor × List GovernorEvent), Governed policy (fun _ _ => True) p.1 p.2 →
    Governed policy (fun _ _ => True) (calls.foldl govern p).1 (calls.foldl govern p).2
  | [], _, hp => hp
  | call :: calls, p, hp => Governed.foldl calls (govern p call) (.serve p.1 p.2 call hp trivial)

def samplePolicy : GovernorPolicy where
  maxInFlightPerRoute := 2
  circuit := { failureThreshold := 1, openFor := 5 }

def sampleGovernor : ProviderGovernor × List GovernorEvent :=
  ({ policy := samplePolicy, routes := (∅ : Std.ExtTreeMap String RouteState compare).insert "p:m" {} },
    [.registered "p:m"])

/-- Two attempts, one fails and the other succeeds only when the open period is over. -/
def lateSuccess : List GovernorCall :=
  [.observeRateLimit "p:m" { requestsRemaining := some 100 } 0, .admitAt "p:m" 0, .admitAt "p:m" 0,
    .observeFailure "p:m" 1 0, .release 1, .admitAt "p:m" 5, .observeSuccess "p:m" 0]

theorem governed_lateSuccess : Governed samplePolicy (fun _ _ => True) (lateSuccess.foldl govern sampleGovernor).1
      (lateSuccess.foldl govern sampleGovernor).2 :=
  Governed.foldl lateSuccess sampleGovernor (.new ["p:m"] sampleGovernor.1 rfl)

/-- The late success closes the circuit. -/
theorem admission_respected_late :
    Respected samplePolicy (lateSuccess.foldl govern sampleGovernor).1 (lateSuccess.foldl govern sampleGovernor).2 ∧
      .closed "p:m" ∈ (lateSuccess.foldl govern sampleGovernor).2 :=
  ⟨admission_respected samplePolicy _ _ governed_lateSuccess, by decide⟩

/-- A circuit closes only after enough successes of attempts admitted in its half-open period. -/
def ClosesOnProbes (policy : GovernorPolicy) (h : List GovernorEvent) : Prop :=
  Each (fun e before => ∀ routeId, e = .closed routeId →
    ∃ period now earlier, Last (GovernorEvent.turns routeId) before period (.halfOpened routeId now) earlier ∧
      ∃ attempts : List Nat, attempts.Nodup ∧ policy.circuit.successThreshold ≤ attempts.length ∧
        ∀ attempt ∈ attempts, .succeeded routeId attempt ∈ period ∧ ∃ now, .admitted routeId attempt now ∈ period) h

/-- An attempt admitted before the open period may close the circuit after it. -/
theorem not_closes_on_probes : ¬ ∀ policy g h, Governed policy (fun _ _ => True) g h → ClosesOnProbes policy h := by
  intro hall
  have hcloses := hall samplePolicy _ _ governed_lateSuccess
  have hhistory : (lateSuccess.foldl govern sampleGovernor).2 = [.closed "p:m", .succeeded "p:m" 0, .halfOpened "p:m" 5,
      .opened "p:m" 5, .admitted "p:m" 1 0, .admitted "p:m" 0 0, .registered "p:m"] := by decide +kernel
  obtain ⟨period, _, _, hlast, attempts, -, hmany, hattempts⟩ := hcloses [] _ _ hhistory "p:m" rfl
  have hlate : Last (GovernorEvent.turns "p:m") _ [.succeeded "p:m" 0] (.halfOpened "p:m" 5)
      [.opened "p:m" 5, .admitted "p:m" 1 0, .admitted "p:m" 0 0, .registered "p:m"] := ⟨rfl, by decide⟩
  obtain ⟨rfl, -, -⟩ := hlast.unique hlate (turns_halfOpened _ _) (turns_halfOpened _ _)
  cases attempts with
  | nil => cases hmany
  | cons attempt attempts =>
    obtain ⟨-, _, hadmitted⟩ := hattempts attempt (.head _)
    simp at hadmitted

end Iteron.Governor
