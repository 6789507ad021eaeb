import Iteron.SchedulerMoves
import Mathlib.Algebra.Order.BigOperators.Group.List
import Mathlib.Algebra.Order.Ring.Nat
/-!
# SchedulerLaw — what every snapshot of the scheduler satisfies

`Lawful` is the invariant: the validation every publication passes, and three facts it does not check — attempts below
the counter, dependencies of started nodes succeeded, and usage covered by reservations.  `Lawful.safe` is what follows
for a snapshot, and `Lawful.moves` that an operation keeps it.
-/
namespace Iteron.Scheduler

open Machine Refuse
open Dag (BudgetUsage TaskBudget)

def NodeState.started : NodeState → Bool
  | .dispatching _ _ | .running _ _ _ | .cancelling _ _ _ | .recoveryRequired _ _ _ | .succeeded _ _ => true
  | _ => false

/-- Reservations grow with every attempt and usage with every report: between them stands what the open attempt may
still use. -/
structure RecordLaw (r : NodeRecord) : Prop where
  fresh : ∀ a : Nat, r.state.attempt = some a → a < r.nextAttempt
  unbilled : r.state.active = true → ∀ m : Meter, m.used r.attemptUsage = 0
  covered : r.state.active = true ∨ r.state.isRecoveryRequired = true →
    ∀ m : Meter, m.used r.usage + m.limit r.node.budget ≤ m.used r.reservedBudget + m.used r.attemptUsage
  settled : r.state.isRecoveryRequired = false → ∀ m : Meter, m.used r.usage ≤ m.used r.reservedBudget

structure Lawful (s : Snapshot) : Prop where
  valid : validateSnapshot s = .ok ()
  records : ∀ (id : Nat) (r : NodeRecord), s.nodes[id]? = some r → RecordLaw r
  dependencies : ∀ (id : Nat) (r : NodeRecord), s.nodes[id]? = some r → r.state.started = true →
    s.DependenciesMet r.node

section Moves

variable {s s' : Snapshot} {report : Option Report} {id : Nat}

variable {state : NodeState} {attempt : Nat} {completion : Completion}

theorem completionState_attempt {state' : NodeState} (h : completionState state attempt completion = .ok state') :
    state'.attempt = some attempt ∧ state'.active = false ∧ state'.isRecoveryRequired = false := by
  cases completion with
  | succeeded _ =>
    simp only [completionState, bind_eq_ok] at h
    obtain ⟨_, _, h⟩ := h
    cases state <;> simp only [pure_eq_ok, reduceCtorEq] at h
    all_goals
      subst h
      exact ⟨rfl, rfl, rfl⟩
  | failed detail =>
    simp only [completionState, bind_eq_ok, pure_eq_ok] at h
    obtain ⟨_, _, rfl⟩ := h
    exact ⟨rfl, rfl, rfl⟩
  | cancelled detail =>
    simp only [completionState, bind_eq_ok, pure_eq_ok] at h
    obtain ⟨_, _, rfl⟩ := h
    exact ⟨rfl, rfl, rfl⟩

theorem settleable_open (h : state.settleable = true) : state.active = true ∨ state.isRecoveryRequired = true := by
  cases state <;> first | exact .inl rfl | exact .inr rfl | cases h

theorem RecordLaw.fresh_record (node : WorkflowNode) : RecordLaw (freshRecord node) where
  fresh := fun a h => by cases h
  unbilled := fun h => by cases h
  covered := fun h => by rcases h with h | h <;> cases h
  settled := fun _ m => Nat.le_refl _

variable {r r' : NodeRecord}

theorem RecordLaw.closed (h : RecordLaw r) (hopen : r.state.isRecoveryRequired = false)
    (hattempt : ∀ a : Nat, r'.state.attempt = some a → a < r'.nextAttempt) (hactive : r'.state.active = false)
    (hrecovery : r'.state.isRecoveryRequired = false) (husage : r'.usage = r.usage)
    (hreserved : r'.reservedBudget = r.reservedBudget) : RecordLaw r' where
  fresh := hattempt
  unbilled := fun ha => by rw [hactive] at ha; cases ha
  covered := fun ha => by
    rw [hactive, hrecovery] at ha
    rcases ha with ha | ha <;> cases ha
  settled := fun _ m => by
    rw [husage, hreserved]
    exact h.settled hopen m

theorem RecordLaw.dispatched (h : RecordLaw r) (hpending : r.state = .pending)
    {task : Option ScheduledTask} {reserved : BudgetUsage}
    (hreserved : ∀ m : Meter, m.used reserved = m.used r.reservedBudget + m.limit r.node.budget)
    (hafter : AfterDispatch r.nextAttempt state) :
    RecordLaw { r with nextAttempt := r.nextAttempt + 1, state, attemptUsage := {}, reservedBudget := reserved
                       admittedTask := task } where
  fresh := fun a ha => by
    cases hafter <;>
    · simp only [NodeState.attempt, Option.some.injEq] at ha
      exact ha ▸ Nat.lt_succ_self _
  unbilled := fun _ m => m.used_zero
  covered := fun _ m => by
    have hused := h.settled (by rw [hpending]; rfl) m
    simp only [m.used_zero, hreserved m]
    omega
  settled := fun _ m => by
    have hused := h.settled (by rw [hpending]; rfl) m
    simp only [hreserved m]
    omega

theorem RecordLaw.underway (h : RecordLaw r) (hactive : r.state.active = true)
    (hattempt : r.state.attempt = some attempt) (hstate : state.attempt = some attempt) :
    RecordLaw { r with state } where
  fresh := fun a ha => by
    rw [hstate, ← hattempt] at ha
    exact h.fresh a ha
  unbilled := fun _ => h.unbilled hactive
  covered := fun _ => h.covered (.inl hactive)
  settled := fun _ m => by
    have hcovered := h.covered (.inl hactive) m
    rw [h.unbilled hactive m] at hcovered
    show m.used r.usage ≤ m.used r.reservedBudget
    omega

theorem RecordLaw.unresolved (h : RecordLaw r) (hopen : r.state.settleable = true)
    (hattempt : r.state.attempt = some attempt) {usage total : BudgetUsage} (hcharges : Charges r usage total)
    (lease : Option TurnLease) (reason : String) :
    RecordLaw { r with usage := total, attemptUsage := usage, state := .recoveryRequired attempt lease reason } where
  fresh := fun a ha => h.fresh a (hattempt.trans ha)
  unbilled := fun ha => by cases ha
  covered := fun _ m => by
    have hcovered := h.covered (settleable_open hopen) m
    have hcharged := hcharges.charged m
    show m.used total + m.limit r.node.budget ≤ m.used r.reservedBudget + m.used usage
    omega
  settled := fun ha => by cases ha

theorem RecordLaw.finished (h : RecordLaw r) (hopen : r.state.settleable = true)
    (hattempt : r.state.attempt = some attempt) {usage total : BudgetUsage} (hcharges : Charges r usage total)
    (hfits : usageFits usage r.node.budget = true) (hcompletion : completionState r.state attempt completion = .ok state) :
    RecordLaw { r with usage := total, attemptUsage := usage, state } := by
  obtain ⟨hstate, hactive, hrecovery⟩ := completionState_attempt hcompletion
  refine ⟨fun a ha => h.fresh a (hattempt.trans (hstate.symm.trans ha)), fun ha => ?_, fun ha => ?_, fun _ m => ?_⟩
  · exact absurd ha (by simp [hactive])
  · exact absurd ha (by simp [hactive, hrecovery])
  · have hcovered := h.covered (settleable_open hopen) m
    have hcharged := hcharges.charged m
    have hlimit := usageFits_meter hfits m
    show m.used total ≤ m.used r.reservedBudget
    omega

theorem afterInterrupt_attempt {deadline : Nat} {lease : TurnLease}
    (h : AfterInterrupt attempt lease deadline state) : state.attempt = some attempt := by
  cases h <;> rfl

variable {y x : Option NodeRecord}

theorem Move.recordLaw (h : Move s report id x y) (hx : ∀ r, x = some r → RecordLaw r) :
    ∀ r', y = some r' → RecordLaw r' := by
  intro r' hy
  cases h with
  | same => exact hx r' hy
  | added node => exact Option.some.inj hy ▸ .fresh_record node
  | replaced r node hpending =>
    cases hy
    have hr := hx r rfl
    exact hr.closed (by rw [hpending]; rfl) hr.fresh (by simp only [hpending]; rfl) (by simp only [hpending]; rfl) rfl rfl
  | removed r hpending =>
    cases hy
    exact (hx r rfl).closed (by rw [hpending]; rfl) (fun a ha => by cases ha) rfl rfl rfl rfl
  | retried r node _ _ _ hrecovery =>
    cases hy
    exact (hx r rfl).closed hrecovery (fun a ha => by cases ha) rfl rfl rfl rfl
  | dispatched r state _ _ hpending _ hreserved hafter =>
    cases hy
    exact (hx r rfl).dispatched hpending hreserved hafter
  | interrupted r state attempt lease _ hrunning hafter =>
    cases hy
    exact (hx r rfl).underway (by rw [hrunning]; rfl) (by rw [hrunning]; rfl) (afterInterrupt_attempt hafter)
  | unresolved r attempt lease reason usage total hopen hattempt hcharges =>
    cases hy
    exact (hx r rfl).unresolved hopen hattempt hcharges lease reason
  | settled r attempt _ state usage total hopen hattempt hcharges _ hfits hcompletion =>
    cases hy
    exact (hx r rfl).finished hopen hattempt hcharges hfits hcompletion
  | recovered r attempt reason hactive hattempt =>
    cases hy
    exact (hx r rfl).underway hactive hattempt rfl

/-- What no operation takes back: attempts, usage and reservations only grow, and a node that was removed or has succeeded
stays as it is. -/
structure NodeRecord.Onward (r r' : NodeRecord) : Prop where
  attempts : r.nextAttempt ≤ r'.nextAttempt
  usage : ∀ m : Meter, m.used r.usage ≤ m.used r'.usage
  reserved : ∀ m : Meter, m.used r.reservedBudget ≤ m.used r'.reservedBudget
  final : r.state = .removed ∨ r.state.isSucceeded = true → r' = r

theorem NodeRecord.Onward.refl (r : NodeRecord) : r.Onward r := ⟨le_rfl, fun _ => le_rfl, fun _ => le_rfl, fun _ => rfl⟩

theorem NodeRecord.Onward.trans {r₁ r₂ r₃ : NodeRecord} (h : r₁.Onward r₂) (h' : r₂.Onward r₃) : r₁.Onward r₃ where
  attempts := h.attempts.trans h'.attempts
  usage m := (h.usage m).trans (h'.usage m)
  reserved m := (h.reserved m).trans (h'.reserved m)
  final hfinal := by
    obtain rfl := h.final hfinal
    exact h'.final hfinal

theorem Move.onward (h : Move s report id (some r) y) : ∃ r', y = some r' ∧ r.Onward r' := by
  -- a node that may still change is pending, can be retried or has an attempt under way
  have hopen (hstate : r.state = .pending ∨ r.state.settleable = true ∨ r.state.active = true ∨
      r.state.attempt.isSome = true ∧ r.state.isSucceeded = false) {r' : NodeRecord} :
      r.state = .removed ∨ r.state.isSucceeded = true → r' = r := by
    cases hr : r.state <;> simp [hr, NodeState.isSucceeded, NodeState.settleable, NodeState.active, NodeState.attempt] at hstate ⊢
  have hcharged {usage total : BudgetUsage} (hc : Charges r usage total) (m : Meter) : m.used r.usage ≤ m.used total := by
    have hgrows := hc.grows m
    have hcharged := hc.charged m
    omega
  cases h with
  | same => exact ⟨r, rfl, .refl r⟩
  | replaced _ _ hp => exact ⟨_, rfl, le_rfl, fun _ => le_rfl, fun _ => le_rfl, hopen (.inl hp)⟩
  | removed _ hp => exact ⟨_, rfl, le_rfl, fun _ => le_rfl, fun _ => le_rfl, hopen (.inl hp)⟩
  | retried _ _ ha _ hs => exact ⟨_, rfl, le_rfl, fun _ => le_rfl, fun _ => le_rfl, hopen (.inr (.inr (.inr ⟨ha, hs⟩)))⟩
  | dispatched _ _ _ _ hp _ hreserved =>
    exact ⟨_, rfl, Nat.le_succ _, fun _ => le_rfl, fun m => by rw [hreserved m]; exact Nat.le_add_right _ _, hopen (.inl hp)⟩
  | interrupted _ _ _ _ _ hp =>
    exact ⟨_, rfl, le_rfl, fun _ => le_rfl, fun _ => le_rfl, hopen (.inr (.inl (by rw [hp]; rfl)))⟩
  | unresolved _ _ _ _ _ _ hs _ hc => exact ⟨_, rfl, le_rfl, hcharged hc, fun _ => le_rfl, hopen (.inr (.inl hs))⟩
  | settled _ _ _ _ _ _ hs _ hc => exact ⟨_, rfl, le_rfl, hcharged hc, fun _ => le_rfl, hopen (.inr (.inl hs))⟩
  | recovered _ _ _ ha => exact ⟨_, rfl, le_rfl, fun _ => le_rfl, fun _ => le_rfl, hopen (.inr (.inr (.inl ha)))⟩

theorem Move.succeeded (h : Move s report id (some r) y) (hr : r.state.isSucceeded = true) : y = some r := by
  obtain ⟨_, rfl, honward⟩ := h.onward
  rw [honward.final (.inr hr)]

theorem active_started (h : state.active = true ∨ state.isRecoveryRequired = true) : state.started = true := by
  cases state <;> first | rfl | (rcases h with h | h <;> cases h)

theorem Move.started (h : Move s report id x (some r'))
    (hx : ∀ r, x = some r → r.state.started = true → s.DependenciesMet r.node) (hr' : r'.state.started = true) :
    s.DependenciesMet r'.node := by
  cases h with
  | same => exact hx r' rfl hr'
  | added node => cases hr'
  | replaced r node hp => rw [hp] at hr'; cases hr'
  | removed => cases hr'
  | retried => cases hr'
  | dispatched _ _ _ _ _ hmet => exact hmet
  | interrupted r _ _ _ _ hrunning => exact hx r rfl (by rw [hrunning]; rfl)
  | unresolved r _ _ _ _ _ hopen => exact hx r rfl (active_started (settleable_open hopen))
  | settled r _ _ _ _ _ hopen => exact hx r rfl (active_started (settleable_open hopen))
  | recovered r _ _ hactive => exact hx r rfl (active_started (.inl hactive))

/-- The plan a run leaves behind holds every node it held, further on. -/
structure Snapshot.Onward (s s' : Snapshot) : Prop where
  config : s'.config = s.config
  node : ∀ (id : Nat) (r : NodeRecord), s.nodes[id]? = some r → ∃ r', s'.nodes[id]? = some r' ∧ r.Onward r'

theorem Snapshot.Onward.refl (s : Snapshot) : s.Onward s := ⟨rfl, fun _ r hr => ⟨r, hr, .refl r⟩⟩

theorem Moves.onward (h : Moves s report s') : s.Onward s' where
  config := h.config
  node id r hr := by
    have hmove := h.node id
    rw [hr] at hmove
    exact hmove.onward

/-- **An operation keeps the law** when what it published passed validation. -/
theorem Lawful.moves (h : Lawful s) (hmoves : Moves s report s') (hvalid : validateSnapshot s' = .ok ()) : Lawful s' where
  valid := hvalid
  records := fun id r' hr' => (hmoves.node id).recordLaw (fun r hr => h.records id r hr) r' hr'
  dependencies := fun id r' hr' hstarted d hd => by
    have hmove := hmoves.node id
    rw [hr'] at hmove
    obtain ⟨rd, hrd, hsucceeded⟩ := hmove.started (fun r hr => h.dependencies id r hr) hstarted d hd
    have hdep := hmoves.node d
    rw [hrd] at hdep
    exact ⟨rd, hdep.succeeded hsucceeded, hsucceeded⟩

theorem lawful_new {config : WorkflowConfig} (h : validateSnapshot (newSnapshot config) = .ok ()) :
    Lawful (newSnapshot config) where
  valid := h
  records := fun id r hr => by simp [newSnapshot] at hr
  dependencies := fun id r hr => by simp [newSnapshot] at hr

end Moves

section Validated

variable {s : Snapshot} {config : WorkflowConfig}

theorem checkState_eq_ok {agents agents' : List Nat} {r : NodeRecord} (h : checkState config agents r = .ok agents') :
    if r.state.active = true then r.node.assignedAgent ∉ agents ∧ agents' = r.node.assignedAgent :: agents
    else agents' = agents := by
  unfold checkState at h
  cases hstate : r.state <;> simp only [hstate, bind_eq_ok, pure_eq_ok, refuseIf_eq_ok, Except.ok.injEq] at h <;>
    simp only [NodeState.active, reduceIte, Bool.false_eq_true]
  case pending => exact h.symm
  case removed => exact h.symm
  case dispatching =>
    obtain ⟨_, _, _, hfree, h⟩ := h
    exact ⟨hfree, h.symm⟩
  case running =>
    obtain ⟨_, _, _, hfree, h⟩ := h
    exact ⟨hfree, h.symm⟩
  case cancelling =>
    obtain ⟨_, _, _, hfree, h⟩ := h
    exact ⟨hfree, h.symm⟩
  all_goals
    obtain ⟨_, _, h⟩ := h
    exact h.symm

theorem tallyRecord_eq_ok {t t' : Tally} {r : NodeRecord} (h : tallyRecord config t r = .ok t') :
    addReserved t.reserved r.reservedBudget = .ok t'.reserved ∧ checkState config t.activeAgents r = .ok t'.activeAgents := by
  simp only [tallyRecord, bind_eq_ok, pure_eq_ok] at h
  obtain ⟨_, hreserved, _, _, _, _, _, _, _, hagents, _, _, rfl⟩ := h
  exact ⟨hreserved, hagents⟩

theorem tally_agents : ∀ {l : List NodeRecord} {t t' : Tally}, t.activeAgents.Nodup → l.foldlM (tallyRecord config) t = .ok t' →
    t'.activeAgents = ((l.filter (fun r => r.state.active)).map (fun r => r.node.assignedAgent)).reverse ++ t.activeAgents ∧
      t'.activeAgents.Nodup
  | [], t, t', hn, h => by
    rw [List.foldlM_nil, pure_eq_ok] at h
    rw [← h]
    exact ⟨rfl, hn⟩
  | r :: l, t, t', hn, h => by
    rw [List.foldlM_cons, bind_eq_ok] at h
    obtain ⟨t1, hone, hrest⟩ := h
    have hcheck := checkState_eq_ok (tallyRecord_eq_ok hone).2
    by_cases hactive : r.state.active = true
    · rw [if_pos hactive] at hcheck
      have hn1 : t1.activeAgents.Nodup := by
        rw [hcheck.2]
        exact List.nodup_cons.2 ⟨hcheck.1, hn⟩
      obtain ⟨heq, hnodup⟩ := tally_agents hn1 hrest
      refine ⟨?_, hnodup⟩
      rw [heq, hcheck.2]
      simp [hactive]
    · rw [if_neg hactive] at hcheck
      obtain ⟨heq, hnodup⟩ := tally_agents (hcheck ▸ hn) hrest
      refine ⟨?_, hnodup⟩
      rw [heq, hcheck]
      simp [hactive]

theorem validateSnapshot_eq_ok (h : validateSnapshot s = .ok ()) :
    s.activeNodes.length ≤ s.config.maxConcurrency ∧ (s.activeNodes.map (fun r => r.node.assignedAgent)).Nodup ∧
    (∀ m : Meter, ((Table.vals s.nodes).map (fun r => m.used r.reservedBudget)).sum ≤ m.limit s.config.budget) := by
  simp only [validateSnapshot, bind_eq_ok, refuseIf_eq_ok, not_or, not_not, Bool.not_eq_false, not_lt] at h
  obtain ⟨_, _, _, hbounds, _, _, t, ht, _, ⟨hlength, hreserved⟩, _⟩ := h
  obtain ⟨hagents, hnodup⟩ := tally_agents List.nodup_nil ht
  rw [List.append_nil] at hagents
  rw [hagents] at hlength hnodup
  rw [List.length_reverse, List.length_map] at hlength
  refine ⟨hlength, List.nodup_reverse.1 hnodup, fun m => ?_⟩
  have hsum := foldlM_measure (fun t : Tally => m.used t.reserved) (fun r : NodeRecord => m.used r.reservedBudget)
    (fun t r t' hone => addReserved_meter (tallyRecord_eq_ok hone).1 m) ht
  simp only [Meter.used_zero, Nat.zero_add] at hsum
  rw [← hsum, hreserved]
  exact usageFits_meter hbounds.2.2.2.2.2 m

/-- What a snapshot never shows, however the scheduler got there. -/
structure Safe (s : Snapshot) : Prop where
  concurrency : s.activeNodes.length ≤ s.config.maxConcurrency
  exclusive : ∀ (id id' : Nat) (r r' : NodeRecord), s.nodes[id]? = some r → s.nodes[id']? = some r' →
    r.state.active = true → r'.state.active = true → id ≠ id' → r.node.assignedAgent ≠ r'.node.assignedAgent
  dependencies : ∀ (id : Nat) (r : NodeRecord), s.nodes[id]? = some r → r.state.started = true →
    s.DependenciesMet r.node
  budget : (∀ (id : Nat) (r : NodeRecord), s.nodes[id]? = some r → r.state.isRecoveryRequired = false) →
    ∀ m : Meter, ((Table.vals s.nodes).map (fun r => m.used r.usage)).sum ≤ m.limit s.config.budget

theorem Lawful.safe (h : Lawful s) : Safe s := by
  obtain ⟨hconcurrency, hagents, hreserved⟩ := validateSnapshot_eq_ok h.valid
  refine ⟨hconcurrency, fun id id' r r' hr hr' ha ha' hne heq => hne ?_, h.dependencies, fun hno m => ?_⟩
  · have hentries : ((s.nodes.toList.filter (fun p => p.2.state.active)).map (fun p => p.2.node.assignedAgent)).Nodup := by
      rw [Snapshot.activeNodes, Table.vals, List.filter_map, List.map_map] at hagents
      exact hagents
    have hmem : (id, r) ∈ s.nodes.toList.filter (fun p => p.2.state.active) :=
      List.mem_filter.2 ⟨(Table.mem_toList s.nodes id r).2 hr, ha⟩
    have hmem' : (id', r') ∈ s.nodes.toList.filter (fun p => p.2.state.active) :=
      List.mem_filter.2 ⟨(Table.mem_toList s.nodes id' r').2 hr', ha'⟩
    exact congrArg Prod.fst (List.inj_on_of_nodup_map hentries hmem hmem' heq)
  · refine Nat.le_trans (List.sum_le_sum (fun r hr => ?_)) (hreserved m)
    obtain ⟨id, hid⟩ := (Table.mem_vals s.nodes r).1 hr
    exact (h.records id r hid).settled (hno id r hid) m

end Validated

end Iteron.Scheduler
