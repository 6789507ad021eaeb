import Iteron.DagReduce
/-!
# DagResolve — what resolution does to blocked tasks

Resolution only moves blocked tasks, to ready or skipped, and stops where no blocked task can move (`resolveBlocked_settled`).
The tasks it leaves unsuccessful are exactly the doomed ones: those already unsuccessful, and the blocked ones that
depend on a doomed one (`resolveBlocked_bad`).
-/
namespace Iteron.Dag
namespace TaskDag

def succeededIn (t : Tasks) (id : TaskId) : Bool := (t[id]?).any (fun x => x.state.isSucceeded)

def badIn (t : Tasks) (id : TaskId) : Bool := (t[id]?).any (fun x => x.state.isTerminal && !x.state.isSucceeded)

def Settled (t : Tasks) : Prop :=
  ∀ (k : TaskId) (x : Task), t[k]? = some x → x.state = .blocked → initialState t x.spec.dependencies = .blocked

variable {t : Tasks} {k : TaskId}

theorem badIn_iff :
    badIn t k = true ↔ ∃ x, t[k]? = some x ∧ x.state.isTerminal = true ∧ x.state.isSucceeded = false := by
  unfold badIn
  cases t[k]? with
  | none => simp
  | some x => simp

theorem succeededIn_iff : succeededIn t k = true ↔ ∃ x, t[k]? = some x ∧ x.state.isSucceeded = true := by
  unfold succeededIn
  cases t[k]? with
  | none => simp
  | some x => simp

theorem isTerminal_of_isSucceeded {s : TaskState} (h : s.isSucceeded = true) : s.isTerminal = true := by
  cases s <;> first | rfl | cases h

theorem not_succeededIn_of_badIn (h : badIn t k = true) : succeededIn t k = false := by
  obtain ⟨x, hx, -, hs⟩ := badIn_iff.1 h
  simp [succeededIn, hx, hs]

/-! ## The state dependencies leave a task in -/

theorem initialState_cases (t : Tasks) (ds : List TaskId) :
    (∃ e ∈ ds, initialState t ds = .skippedDependency e ∧ badIn t e = true) ∨
    (initialState t ds = .ready ∧ ∀ e ∈ ds, succeededIn t e = true) ∨
    (initialState t ds = .blocked ∧ (∀ e ∈ ds, badIn t e = false) ∧ ∃ e ∈ ds, succeededIn t e = false) := by
  unfold initialState
  cases hf : ds.find? (fun id => (t[id]?).any (fun x => x.state.isTerminal && !x.state.isSucceeded)) with
  | some e => exact .inl ⟨e, List.mem_of_find?_eq_some hf, rfl, List.find?_some hf⟩
  | none =>
    have hbad : ∀ e ∈ ds, badIn t e = false := fun e he => by
      have := List.find?_eq_none.1 hf e he
      simpa [badIn] using this
    by_cases hall : ds.all (fun id => (t[id]?).any (fun x => x.state.isSucceeded)) = true
    · exact .inr (.inl ⟨if_pos hall, fun e he => List.all_eq_true.1 hall e he⟩)
    · refine .inr (.inr ⟨if_neg hall, hbad, ?_⟩)
      simp only [List.all_eq_true, not_forall] at hall
      obtain ⟨e, he, hne⟩ := hall
      exact ⟨e, he, by simpa [succeededIn] using hne⟩

theorem initialState_eq_blocked {ds : List TaskId} :
    initialState t ds = .blocked ↔ (∀ e ∈ ds, badIn t e = false) ∧ ∃ e ∈ ds, succeededIn t e = false := by
  rcases initialState_cases t ds with ⟨e, he, hs, hb⟩ | ⟨hs, hall⟩ | ⟨hs, hnb, hns⟩
  · rw [hs]
    refine ⟨fun h => (by cases h), fun h => ?_⟩
    rw [h.1 e he] at hb
    cases hb
  · rw [hs]
    refine ⟨fun h => (by cases h), fun ⟨_, e, he, hne⟩ => ?_⟩
    rw [hall e he] at hne
    cases hne
  · rw [hs]
    exact ⟨fun _ => ⟨hnb, hns⟩, fun _ => rfl⟩

/-! ## One round -/

theorem resolvePass_get (t : Tasks) (k : TaskId) : (resolvePass t)[k]? = (t[k]?).map (resolveTask t) := by
  unfold resolvePass
  rw [Table.get_map]

variable {x : Task}

theorem resolvePass_of_not_blocked (h : t[k]? = some x) (hb : x.state ≠ .blocked) : (resolvePass t)[k]? = some x := by
  rw [resolvePass_get, h, Option.map_some, resolveTask, if_neg hb]

theorem resolvePass_of_blocked (h : t[k]? = some x) (hb : x.state = .blocked) :
    (resolvePass t)[k]? = some { x with state := initialState t x.spec.dependencies } := by
  rw [resolvePass_get, h, Option.map_some, resolveTask, if_pos hb]

theorem settled_of_transitions (h : transitions t = []) : Settled t := by
  intro k x hk hb
  by_contra hne
  have hmem : (k, x) ∈ t.toList := (Table.mem_toList t k x).2 hk
  unfold transitions at h
  rw [List.filterMap_eq_nil_iff] at h
  have := h _ hmem
  simp [hb, hne] at this

theorem Settled.transitions {t : Tasks} (h : Settled t) : transitions t = [] := by
  unfold Dag.TaskDag.transitions
  rw [List.filterMap_eq_nil_iff]
  rintro ⟨k, x⟩ hmem
  rw [if_neg]
  rintro ⟨hb, hne⟩
  exact hne (h k x ((Table.mem_toList t k x).1 hmem) hb)

/-! ## All rounds -/

/-- **What resolution may do to a table**: it touches blocked tasks only, and only their state. -/
structure Resolves (t t' : Tasks) : Prop where
  none : ∀ k : TaskId, t[k]? = none → t'[k]? = none
  kept : ∀ (k : TaskId) (x : Task), t[k]? = some x → x.state ≠ .blocked → t'[k]? = some x
  moved : ∀ (k : TaskId) (x : Task), t[k]? = some x → x.state = .blocked → ∃ s, t'[k]? = some { x with state := s } ∧
    (s = .blocked ∨ (s = .ready ∧ ∀ e ∈ x.spec.dependencies, succeededIn t' e = true) ∨
      ∃ e ∈ x.spec.dependencies, s = .skippedDependency e ∧ badIn t' e = true)

variable {t' : Tasks}

theorem Resolves.of_some (h : Resolves t t') {x' : Task} (hk : t'[k]? = some x') :
    ∃ x, t[k]? = some x ∧ ((x.state ≠ .blocked ∧ x' = x) ∨ (x.state = .blocked ∧ ∃ s, x' = { x with state := s } ∧
      (s = .blocked ∨ s = .ready ∨ ∃ e, s = .skippedDependency e))) := by
  cases hx : t[k]? with
  | none => rw [h.none k hx] at hk; cases hk
  | some x =>
    refine ⟨x, rfl, ?_⟩
    by_cases hb : x.state = .blocked
    · obtain ⟨s, hs, hcase⟩ := h.moved k x hx hb
      rw [hk] at hs
      refine .inr ⟨hb, s, Option.some.inj hs, ?_⟩
      rcases hcase with hs | ⟨hs, -⟩ | ⟨e, -, hs, -⟩
      · exact .inl hs
      · exact .inr (.inl hs)
      · exact .inr (.inr ⟨e, hs⟩)
    · rw [h.kept k x hx hb] at hk
      exact .inl ⟨hb, (Option.some.inj hk).symm⟩

theorem Resolves.refl (t : Tasks) : Resolves t t where
  none _ h := h
  kept _ _ h _ := h
  moved _ x h hb := ⟨x.state, h, .inl hb⟩

theorem Resolves.succeededIn {t t' : Tasks} (h : Resolves t t') {k : TaskId} (hs : succeededIn t k = true) :
    succeededIn t' k = true := by
  obtain ⟨x, hk, hx⟩ := succeededIn_iff.1 hs
  exact succeededIn_iff.2 ⟨x, h.kept k x hk (fun hb => by rw [hb] at hx; cases hx), hx⟩

theorem Resolves.badIn {t t' : Tasks} (h : Resolves t t') {k : TaskId} (hs : badIn t k = true) : badIn t' k = true := by
  obtain ⟨x, hk, hx, hn⟩ := badIn_iff.1 hs
  exact badIn_iff.2 ⟨x, h.kept k x hk (fun hb => by rw [hb] at hx; cases hx), hx, hn⟩

theorem Resolves.pass (h : Resolves (resolvePass t) t') : Resolves t t' := by
  have hkept : ∀ (k : TaskId) (x : Task), t[k]? = some x → x.state ≠ .blocked → t'[k]? = some x := fun k x hk hb =>
    h.kept k x (resolvePass_of_not_blocked hk hb) hb
  have hsucc : ∀ e : TaskId, Dag.TaskDag.succeededIn t e = true → Dag.TaskDag.succeededIn t' e = true := by
    intro e he
    obtain ⟨x, hk, hx⟩ := succeededIn_iff.1 he
    exact succeededIn_iff.2 ⟨x, hkept e x hk (fun hb => by rw [hb] at hx; cases hx), hx⟩
  have hbad : ∀ e : TaskId, Dag.TaskDag.badIn t e = true → Dag.TaskDag.badIn t' e = true := by
    intro e he
    obtain ⟨x, hk, hx, hn⟩ := badIn_iff.1 he
    exact badIn_iff.2 ⟨x, hkept e x hk (fun hb => by rw [hb] at hx; cases hx), hx, hn⟩
  refine ⟨fun k hk => h.none k (by rw [resolvePass_get, hk]; rfl), hkept, fun k x hk hb => ?_⟩
  have hpass := resolvePass_of_blocked hk hb
  rcases initialState_cases t x.spec.dependencies with ⟨e, he, hs, hbe⟩ | ⟨hs, hall⟩ | ⟨hs, -, -⟩
  · rw [hs] at hpass
    exact ⟨_, h.kept k _ hpass (by simp), .inr (.inr ⟨e, he, rfl, hbad e hbe⟩)⟩
  · rw [hs] at hpass
    exact ⟨_, h.kept k _ hpass (by simp), .inr (.inl ⟨rfl, fun e he => hsucc e (hall e he)⟩)⟩
  · rw [hs] at hpass
    exact h.moved k { x with state := .blocked } hpass rfl

theorem resolveRounds_resolves : ∀ (n : Nat) (t : Tasks), Resolves t (resolveRounds n t)
  | 0, t => .refl t
  | n + 1, t => by
    unfold resolveRounds
    by_cases h : transitions t = []
    · rw [if_pos h]
      exact .refl t
    · rw [if_neg h]
      exact (resolveRounds_resolves n (resolvePass t)).pass

/-! ## The rounds suffice -/

def blockedCount (t : Tasks) : Nat := t.toList.countP (fun p => decide (p.2.state = .blocked))

theorem countP_lt {α : Type} {p q : α → Bool} : ∀ {l : List α}, (∀ a ∈ l, q a = true → p a = true) →
    (∃ a ∈ l, p a = true ∧ q a = false) → l.countP q < l.countP p
  | [], _, ⟨a, ha, _⟩ => by cases ha
  | b :: l, hle, ⟨a, ha, hp, hq⟩ => by
    have hmono : l.countP q ≤ l.countP p :=
      List.countP_mono_left (fun x hx => hle x (.tail _ hx))
    rw [List.countP_cons, List.countP_cons]
    rcases List.mem_cons.1 ha with rfl | ha
    · simp only [hp, hq, if_true, Bool.false_eq_true, if_false]
      omega
    · have ih := countP_lt (fun x hx => hle x (.tail _ hx)) ⟨a, ha, hp, hq⟩
      have hb := hle b (.head _)
      by_cases hqb : q b = true
      · simp only [hqb, hb hqb, if_true]
        omega
      · simp only [hqb, Bool.false_eq_true, if_false]
        omega

theorem blockedCount_pass (h : transitions t ≠ []) : blockedCount (resolvePass t) < blockedCount t := by
  unfold blockedCount resolvePass
  rw [Std.ExtTreeMap.toList_map, List.countP_map]
  obtain ⟨k, hk⟩ := List.exists_mem_of_ne_nil _ h
  obtain ⟨⟨k', x⟩, hmem, hx⟩ := List.mem_filterMap.1 hk
  have hmoves : x.state = .blocked ∧ initialState t x.spec.dependencies ≠ .blocked := by
    by_contra hne
    rw [if_neg hne] at hx
    cases hx
  refine countP_lt (fun p _ hq => ?_) ⟨(k', x), hmem, by simpa using hmoves.1, ?_⟩
  · by_cases hb : p.2.state = .blocked
    · simpa using hb
    · simp only [Function.comp, resolveTask, if_neg hb] at hq
      exact hq
  · simp only [Function.comp, resolveTask, if_pos hmoves.1]
    simpa using hmoves.2

theorem transitions_of_blockedCount (h : blockedCount t = 0) : transitions t = [] := by
  unfold transitions
  rw [List.filterMap_eq_nil_iff]
  intro p hp
  have := List.countP_eq_zero.1 h p hp
  simp only [decide_eq_true_eq] at this
  simp [this]

theorem resolveRounds_settled : ∀ (n : Nat) (t : Tasks), blockedCount t ≤ n → Settled (resolveRounds n t)
  | 0, t, h => settled_of_transitions (transitions_of_blockedCount (Nat.le_zero.1 h))
  | n + 1, t, h => by
    unfold resolveRounds
    by_cases ht : transitions t = []
    · rw [if_pos ht]
      exact settled_of_transitions ht
    · rw [if_neg ht]
      have hlt := blockedCount_pass ht
      exact resolveRounds_settled n _ (by omega)

theorem resolveBlocked_resolves (t : Tasks) : Resolves t (resolveBlocked t) := resolveRounds_resolves _ t

/-- **Resolution reaches its fixpoint**: one round per task is enough. -/
theorem resolveBlocked_settled (t : Tasks) : Settled (resolveBlocked t) := by
  refine resolveRounds_settled _ t ?_
  exact le_trans List.countP_le_length (Nat.le_of_eq Std.ExtTreeMap.length_toList)

theorem Settled.resolveBlocked {t : Tasks} (h : Settled t) : resolveBlocked t = t := by
  unfold Dag.TaskDag.resolveBlocked
  cases t.size with
  | zero => rfl
  | succ n =>
    unfold resolveRounds
    rw [if_pos h.transitions]

/-! ## The doomed -/

/-- Unsuccessful, or blocked behind something doomed. -/
inductive Doomed (t : Tasks) : TaskId → Prop
  | bad (k : TaskId) : badIn t k = true → Doomed t k
  | dep (k e : TaskId) (x : Task) : t[k]? = some x → x.state = .blocked → e ∈ x.spec.dependencies → Doomed t e →
      Doomed t k

theorem Doomed.of_pass (h : Doomed (resolvePass t) k) : Doomed t k := by
  induction h with
  | bad k hb =>
    obtain ⟨y, hy, hterm, hns⟩ := badIn_iff.1 hb
    cases hk : t[k]? with
    | none => rw [resolvePass_get, hk] at hy; cases hy
    | some x =>
      by_cases hblocked : x.state = .blocked
      · rw [resolvePass_of_blocked hk hblocked] at hy
        rcases initialState_cases t x.spec.dependencies with ⟨e, he, hs, hbe⟩ | ⟨hs, -⟩ | ⟨hs, -, -⟩
        · exact .dep k e x hk hblocked he (.bad e hbe)
        · cases hy; rw [hs] at hterm; cases hterm
        · cases hy; rw [hs] at hterm; cases hterm
      · rw [resolvePass_of_not_blocked hk hblocked] at hy
        exact .bad k (badIn_iff.2 ⟨y, by rw [hk, hy], hterm, hns⟩)
  | dep k e y hy hb he _ ih =>
    cases hk : t[k]? with
    | none => rw [resolvePass_get, hk] at hy; cases hy
    | some x =>
      by_cases hblocked : x.state = .blocked
      · rw [resolvePass_of_blocked hk hblocked] at hy
        cases hy
        exact .dep k e x hk hblocked he ih
      · rw [resolvePass_of_not_blocked hk hblocked] at hy
        cases hy
        cases hblocked hb

theorem Doomed.of_rounds : ∀ (n : Nat) {t : Tasks} {k : TaskId}, Doomed (resolveRounds n t) k → Doomed t k
  | 0, _, _, h => h
  | n + 1, t, k, h => by
    unfold resolveRounds at h
    by_cases ht : transitions t = []
    · rw [if_pos ht] at h
      exact h
    · rw [if_neg ht] at h
      exact (Doomed.of_rounds n h).of_pass

theorem Settled.badIn_of_doomed (hset : Settled t) (h : Doomed t k) : badIn t k = true := by
  induction h with
  | bad k hb => exact hb
  | dep k e x hk hb he _ ih =>
    rcases initialState_cases t x.spec.dependencies with ⟨_, -, hs, -⟩ | ⟨hs, -⟩ | ⟨-, hnb, -⟩
    · rw [hset k x hk hb] at hs; cases hs
    · rw [hset k x hk hb] at hs; cases hs
    · rw [hnb e he] at ih; cases ih

theorem Resolves.doomed (h : Resolves t t') (hset : Settled t') (hd : Doomed t k) : Dag.TaskDag.badIn t' k = true := by
  induction hd with
  | bad k hb => exact h.badIn hb
  | dep k e x hk hb he _ ih =>
    obtain ⟨s, hs, hcase⟩ := h.moved k x hk hb
    rcases hcase with rfl | ⟨rfl, hall⟩ | ⟨_, -, rfl, -⟩
    · exact hset.badIn_of_doomed (.dep k e _ hs rfl he (.bad e ih))
    · exact absurd (hall e he) (by simp [not_succeededIn_of_badIn ih])
    · exact badIn_iff.2 ⟨_, hs, rfl, rfl⟩

/-- **Resolution leaves exactly the doomed unsuccessful.** -/
theorem resolveBlocked_bad (t : Tasks) (k : TaskId) : badIn (resolveBlocked t) k = true ↔ Doomed t k :=
  ⟨fun h => Doomed.of_rounds _ (.bad k h), fun h => (resolveBlocked_resolves t).doomed (resolveBlocked_settled t) h⟩

end TaskDag
end Iteron.Dag
