import Iteron.DagHierarchy
import Mathlib.Order.Bounds.Basic
/-!
# DagFixpoint — dependencies decide where a task may stand

In a reachable table every task stands where its dependencies put it: a blocked one still waits for an open dependency
and has no unsuccessful one, one that got past readiness has only successful dependencies, and a skipped one names an
unsuccessful dependency of its own (`Granted`).  The recorded depth is the longest chain of dependencies (`Ranked`).
-/
namespace Iteron.Dag
namespace TaskDag

/-- The states a task can only take once its dependencies succeeded. -/
def granted : TaskState → Bool
  | .ready | .running | .cancelling _ | .succeeded _ | .failed .. => true
  | _ => false

/-- **Where dependencies let tasks stand**, in a table whose blocked tasks are settled. -/
structure Granted (t : Tasks) : Prop where
  granted : ∀ (k : TaskId) (x : Task), t[k]? = some x → granted x.state = true →
    ∀ e ∈ x.spec.dependencies, succeededIn t e = true
  skipped : ∀ (k : TaskId) (x : Task) (e : TaskId), t[k]? = some x → x.state = .skippedDependency e →
    e ∈ x.spec.dependencies ∧ badIn t e = true

theorem granted_new : Granted ∅ := by
  refine ⟨fun k x hk => ?_, fun k x e hk => ?_⟩
  · cases hk
  · cases hk

/-- One table after another: what ended stays ended the way it did. -/
structure Later (t t' : Tasks) : Prop where
  succeeded : ∀ e : TaskId, succeededIn t e = true → succeededIn t' e = true
  bad : ∀ e : TaskId, badIn t e = true → badIn t' e = true

variable {t t' : Tasks}

theorem Later.trans {t'' : Tasks} (h : Later t t') (h' : Later t' t'') : Later t t'' :=
  ⟨fun e he => h'.succeeded e (h.succeeded e he), fun e he => h'.bad e (h.bad e he)⟩

theorem Later.of_same (h : SameBy view t t') : Later t t' :=
  ⟨fun e he => by rw [succeededIn_congr h.phase]; exact he, fun e he => by rw [badIn_congr h.phase]; exact he⟩

theorem later_resolveBlocked (t : Tasks) : Later t (resolveBlocked t) :=
  ⟨fun _ he => (resolveBlocked_resolves t).succeededIn he, fun _ he => (resolveBlocked_resolves t).badIn he⟩

variable {k : TaskId}

theorem later_insert (y : Task) (h : ∀ x, t[k]? = some x → x.state.isTerminal = false) : Later t (t.insert k y) := by
  refine ⟨fun e he => ?_, fun e he => ?_⟩
  · obtain ⟨x, hx, hs⟩ := succeededIn_iff.1 he
    rw [succeededIn_insert_ne]
    · exact he
    · rintro rfl
      have := h x hx
      rw [isTerminal_of_isSucceeded hs] at this
      cases this
  · obtain ⟨x, hx, hterm, -⟩ := badIn_iff.1 he
    rw [badIn_insert_ne]
    · exact he
    · rintro rfl
      have := h x hx
      rw [hterm] at this
      cases this

variable {s : TaskState}

theorem cancelState_of_isTerminal (reason : String) (h : s.isTerminal = true) : cancelState reason s = s := by
  cases s <;> first | rfl | cases h

theorem later_cancelTasks (d : TaskDag) (task : TaskId) (reason : String) : Later d.tasks (d.cancelTasks task reason) := by
  have hkeep : ∀ (e : TaskId) (x : Task), d.tasks[e]? = some x → x.state.isTerminal = true →
      (d.cancelTasks task reason)[e]? = some x := by
    intro e x hx hterm
    rw [cancelTasks_get, hx, Option.map_some, cancelState_of_isTerminal reason hterm]
    split <;> rfl
  refine ⟨fun e he => ?_, fun e he => ?_⟩
  · obtain ⟨x, hx, hs⟩ := succeededIn_iff.1 he
    exact succeededIn_iff.2 ⟨x, hkeep e x hx (isTerminal_of_isSucceeded hs), hs⟩
  · obtain ⟨x, hx, hterm, hs⟩ := badIn_iff.1 he
    exact badIn_iff.2 ⟨x, hkeep e x hx hterm, hterm, hs⟩

/-! ## Commands keep it -/

theorem Granted.resolve (h : Granted t) : Granted (resolveBlocked t) := by
  have hres := resolveBlocked_resolves t
  have hlater := later_resolveBlocked t
  refine ⟨fun k x' hk hg => ?_, fun k x' e hk hs => ?_⟩
  · obtain ⟨x, hx, hcase⟩ := hres.of_some hk
    rcases hcase with ⟨-, rfl⟩ | ⟨hb, s, rfl, -⟩
    · exact fun e he => hlater.succeeded e (h.granted k _ hx hg e he)
    · obtain ⟨s', hs', hmoved⟩ := hres.moved k x hx hb
      obtain rfl : s = s' := by
        have heq := Option.some.inj (hk.symm.trans hs')
        exact congrArg Task.state heq
      rcases hmoved with rfl | ⟨-, hall⟩ | ⟨e', -, rfl, -⟩
      · cases hg
      · exact hall
      · cases hg
  · obtain ⟨x, hx, hcase⟩ := hres.of_some hk
    rcases hcase with ⟨-, rfl⟩ | ⟨hb, s, rfl, -⟩
    · obtain ⟨he, hbad⟩ := h.skipped k _ e hx hs
      exact ⟨he, hlater.bad e hbad⟩
    · obtain ⟨s', hs', hmoved⟩ := hres.moved k x hx hb
      obtain rfl : s = s' := by
        have heq := Option.some.inj (hk.symm.trans hs')
        exact congrArg Task.state heq
      obtain rfl : s = .skippedDependency e := hs
      rcases hmoved with heq | ⟨heq, -⟩ | ⟨e', he', heq, hbad⟩
      · cases heq
      · cases heq
      · cases heq
        exact ⟨he', hbad⟩

theorem Granted.congr (h : Granted t) (hs : SameBy view t t') : Granted t' := by
  have hlater := Later.of_same hs
  refine ⟨fun k x hk hg e he => ?_, fun k x e hk hskip => ?_⟩
  · obtain ⟨y, hy, hxy⟩ := hs.symm.of_some hk
    simp only [view, Prod.mk.injEq] at hxy
    exact hlater.succeeded e (h.granted k y hy (by rw [hxy.2.2]; exact hg) e (by rw [hxy.1]; exact he))
  · obtain ⟨y, hy, hxy⟩ := hs.symm.of_some hk
    simp only [view, Prod.mk.injEq] at hxy
    obtain ⟨he, hbad⟩ := h.skipped k y e hy (by rw [hxy.2.2]; exact hskip)
    exact ⟨by rw [← hxy.1]; exact he, hlater.bad e hbad⟩

variable {x : Task}

theorem Granted.move (h : Granted t) (hx : t[k]? = some x) (hopen : x.state.isTerminal = false)
    (hgrant : Dag.TaskDag.granted x.state = true) (hskip : ∀ e, s ≠ .skippedDependency e) :
    Granted (t.insert k { x with state := s }) := by
  have hlater : Later t (t.insert k { x with state := s }) :=
    later_insert _ (fun y hy => by rw [hx] at hy; cases hy; exact hopen)
  refine ⟨fun j y hj hg e he => ?_, fun j y e hj hs => ?_⟩
  · rcases Table.insert_eq_some hj with ⟨rfl, rfl⟩ | ⟨-, hj⟩
    · exact hlater.succeeded e (h.granted k x hx hgrant e he)
    · exact hlater.succeeded e (h.granted j y hj hg e he)
  · rcases Table.insert_eq_some hj with ⟨rfl, rfl⟩ | ⟨-, hj⟩
    · exact absurd hs (hskip e)
    · obtain ⟨he, hbad⟩ := h.skipped j y e hj hs
      exact ⟨he, hlater.bad e hbad⟩

variable {d : TaskDag} {spec : TaskSpec}

theorem Granted.create (h : Granted d.tasks) (hok : CreateOk d spec) (hs : SameBy view d.tasks t) :
    Granted (t.insert spec.id (d.newTask spec)) := by
  have hfresh : t[spec.id]? = none := by
    have := hs spec.id
    rw [hok.fresh] at this
    simpa using this
  have hlater : Later d.tasks (t.insert spec.id (d.newTask spec)) :=
    (Later.of_same hs).trans (later_insert _ (fun y hy => by rw [hfresh] at hy; cases hy))
  refine ⟨fun j y hj hg e he => ?_, fun j y e hj hskip => ?_⟩
  · rcases Table.insert_eq_some hj with ⟨rfl, rfl⟩ | ⟨-, hj⟩
    · rcases initialState_cases d.tasks (sortIds spec.dependencies) with ⟨e', -, hst, -⟩ | ⟨-, hall⟩ | ⟨hst, -, -⟩
      · rw [show (d.newTask spec).state = .skippedDependency e' from hst] at hg
        cases hg
      · exact hlater.succeeded e (hall e he)
      · rw [show (d.newTask spec).state = .blocked from hst] at hg
        cases hg
    · obtain ⟨z, hz, hyz⟩ := hs.symm.of_some hj
      simp only [view, Prod.mk.injEq] at hyz
      exact hlater.succeeded e (h.granted j z hz (by rw [hyz.2.2]; exact hg) e (by rw [hyz.1]; exact he))
  · rcases Table.insert_eq_some hj with ⟨rfl, rfl⟩ | ⟨-, hj⟩
    · rcases initialState_cases d.tasks (sortIds spec.dependencies) with ⟨e', he', hst, hbad⟩ | ⟨hst, -⟩ | ⟨hst, -, -⟩
      · obtain rfl : e' = e := TaskState.skippedDependency.inj (hst.symm.trans hskip)
        exact ⟨he', hlater.bad e' hbad⟩
      · cases hst.symm.trans hskip
      · cases hst.symm.trans hskip
    · obtain ⟨z, hz, hyz⟩ := hs.symm.of_some hj
      simp only [view, Prod.mk.injEq] at hyz
      obtain ⟨he, hbad⟩ := h.skipped j z e hz (by rw [hyz.2.2]; exact hskip)
      exact ⟨by rw [← hyz.1]; exact he, hlater.bad e hbad⟩

theorem Granted.cancel (h : Granted d.tasks) (task : TaskId) (reason : String) :
    Granted (d.cancelTasks task reason) := by
  have hlater := later_cancelTasks d task reason
  have hback : ∀ (k : TaskId) (x' : Task), (d.cancelTasks task reason)[k]? = some x' → ∃ x, d.tasks[k]? = some x ∧
      x'.spec = x.spec ∧ (x'.state = x.state ∨ x'.state = cancelState reason x.state) := by
    intro k x' hk
    rw [cancelTasks_get] at hk
    obtain ⟨x, hx, rfl⟩ := Option.map_eq_some_iff.1 hk
    split
    · exact ⟨x, hx, rfl, .inr rfl⟩
    · exact ⟨x, hx, rfl, .inl rfl⟩
  refine ⟨fun k x' hk hg e he => ?_, fun k x' e hk hskip => ?_⟩
  · obtain ⟨x, hx, hspec, hst⟩ := hback k x' hk
    have hgx : Dag.TaskDag.granted x.state = true := by
      rcases hst with hst | hst
      · rw [← hst]
        exact hg
      · rw [hst] at hg
        cases hs : x.state <;> rw [hs] at hg <;> first | rfl | cases hg
    exact hlater.succeeded e (h.granted k x hx hgx e (by rw [← hspec]; exact he))
  · obtain ⟨x, hx, hspec, hst⟩ := hback k x' hk
    have hxs : x.state = .skippedDependency e := by
      rcases hst with hst | hst
      · rw [← hst]
        exact hskip
      · rw [hst] at hskip
        cases hs : x.state <;> rw [hs] at hskip <;> first | exact hskip | cases hskip
    obtain ⟨he, hbad⟩ := h.skipped k x e hx hxs
    exact ⟨by rw [hspec]; exact he, hlater.bad e hbad⟩

variable {completion : Completion}

theorem taskTerminal_not_skipped {current : Option TaskState} {digest code detail : Option String}
    (h : taskTerminal current completion digest code detail = some s) (e : TaskId) : s ≠ .skippedDependency e := by
  rintro rfl
  cases completion with
  | succeeded =>
    obtain ⟨_, -, heq⟩ := Option.map_eq_some_iff.1 h
    cases heq
  | failed =>
    obtain ⟨_, -, heq⟩ := Option.map_eq_some_iff.1 h
    cases heq
  | cancelled =>
    simp only [taskTerminal] at h
    split at h
    · cases h
    · obtain ⟨_, -, heq⟩ := Option.map_eq_some_iff.1 h
      cases heq

variable {H : Digests}

theorem complete_tasks {d' : TaskDag} {id : Nat} {actor : Actor} {task : TaskId} {digest code detail : Option String}
    {r : ApplyReceipt} (h : d.apply H id (.completeTask actor task completion digest code detail) = some (.ok (d', r))) :
    d' = d ∨ ∃ x s, CompleteOk d task x ∧ (∀ e, s ≠ .skippedDependency e) ∧
      d'.tasks = resolveBlocked (d.tasks.insert task { x with state := s }) := by
  rcases apply_new h with rfl | ⟨hvalid, _, ha, htasks, -⟩
  · exact .inl rfl
  · obtain ⟨x, hx⟩ := validateCompletion_ok hvalid
    simp only [applyValidated, setState, hx.found, Option.bind_eq_bind, Option.bind_eq_some_iff, Option.map_some,
      Option.some.injEq, Option.pure_def] at ha
    obtain ⟨s, hs, _, rfl, rfl⟩ := ha
    exact .inr ⟨x, s, hx, taskTerminal_not_skipped hs, htasks⟩

theorem granted_of_isAdmitted (h : s.isAdmitted = true) : granted s = true ∧ s.isTerminal = false := by
  cases s <;> first | exact ⟨rfl, rfl⟩ | cases h

variable {allowed : TaskDag → Command → Prop} {config : Config}

/-- **Every reachable table stands where its dependencies put it.** -/
theorem Reaches.granted (h : Reaches H allowed config d) : Granted d.tasks := by
  induction h with
  | new d hd =>
    unfold TaskDag.new at hd
    split at hd
    · cases hd
    · cases hd
      exact granted_new
  | step d d' _ c r hd _ happly ih =>
    rcases apply_step happly with rfl | ⟨a, hs, htasks, -⟩
    · exact ih
    · have hstate := stateStep_of hd.shape hs
      rw [← htasks] at hstate
      generalize htab : d'.tasks = t at hstate
      cases hstate with
      | same c t hsame => exact ih.congr hsame
      | created actor _ t hok hsame => exact ih.create hok hsame
      | started actor task x hx hready _ =>
        exact ih.move hx (by rw [hready]; rfl) (by rw [hready]; rfl) (fun e => by simp)
      | cancelled actor task reason hok => exact (ih.cancel task reason).resolve
      | completed actor task _ _ _ _ _ _ _ _ _ =>
        rcases complete_tasks happly with rfl | ⟨x, s, hok, hskip, heq⟩
        · rw [← htab]
          exact ih
        · rw [← htab, heq]
          obtain ⟨hgrant, hopen⟩ := granted_of_isAdmitted hok.admitted
          exact (ih.move hok.found hopen hgrant hskip).resolve

/-! ## Depth -/

/-- A chain of `n` dependencies below a task. -/
inductive DependencyChain (t : Tasks) : TaskId → Nat → Prop
  | here (k : TaskId) : DependencyChain t k 0
  | next (k e : TaskId) (x : Task) (n : Nat) : t[k]? = some x → e ∈ x.spec.dependencies → DependencyChain t e n →
      DependencyChain t k (n + 1)

def rank (x : Task) : List TaskId × Nat := (x.spec.dependencies, x.dependencyDepth)

def Ranked (t : Tasks) : Prop := ∀ (k : TaskId) (x : Task), t[k]? = some x →
  (∀ e ∈ x.spec.dependencies, ∃ y, t[e]? = some y ∧ y.dependencyDepth + 1 ≤ x.dependencyDepth) ∧
  (x.dependencyDepth = 0 ∨
    ∃ e ∈ x.spec.dependencies, ∃ y, t[e]? = some y ∧ x.dependencyDepth = y.dependencyDepth + 1)

theorem Ranked.carry {u : Tasks} (h : Ranked t) (hs : SameBy rank t t') (hk : t'[k]? = some x)
    (hto : ∀ (e : TaskId) (y : Task), t[e]? = some y → ∃ z, u[e]? = some z ∧ z.dependencyDepth = y.dependencyDepth) :
    (∀ e ∈ x.spec.dependencies, ∃ y, u[e]? = some y ∧ y.dependencyDepth + 1 ≤ x.dependencyDepth) ∧ (x.dependencyDepth = 0 ∨
      ∃ e ∈ x.spec.dependencies, ∃ y, u[e]? = some y ∧ x.dependencyDepth = y.dependencyDepth + 1) := by
  obtain ⟨y, hy, hxy⟩ := hs.symm.of_some hk
  simp only [rank, Prod.mk.injEq] at hxy
  obtain ⟨hall, hdeep⟩ := h k y hy
  rw [hxy.1, hxy.2] at hall hdeep
  refine ⟨fun e he => ?_, hdeep.imp id ?_⟩
  · obtain ⟨z, hz, _⟩ := hall e he
    obtain ⟨w, hw, hwz⟩ := hto e z hz
    exact ⟨w, hw, by omega⟩
  · rintro ⟨e, he, z, hz, _⟩
    obtain ⟨w, hw, hwz⟩ := hto e z hz
    exact ⟨e, he, w, hw, by omega⟩

theorem Ranked.congr (h : Ranked t) (hs : SameBy rank t t') : Ranked t' := by
  refine fun k x hk => h.carry hs hk (fun e y hy => ?_)
  obtain ⟨z, hz, hzy⟩ := hs.of_some hy
  exact ⟨z, hz, congrArg Prod.snd hzy⟩

theorem Ranked.create (h : Ranked d.tasks) (hok : CreateOk d spec) (hs : SameBy rank d.tasks t) :
    Ranked (t.insert spec.id (d.newTask spec)) := by
  have hold : ∀ (e : TaskId) (y : Task), d.tasks[e]? = some y → ∃ z, (t.insert spec.id (d.newTask spec))[e]? = some z ∧
      z.dependencyDepth = y.dependencyDepth := by
    intro e y hy
    obtain ⟨z, hz, hzy⟩ := hs.of_some hy
    rw [Table.get_insert, if_neg (fun he => by rw [← he, hok.fresh] at hy; cases hy)]
    exact ⟨z, hz, congrArg Prod.snd hzy⟩
  intro k x hk
  rcases Table.insert_eq_some hk with ⟨rfl, rfl⟩ | ⟨-, hk⟩
  · -- the new task's depth is computed from its dependencies
    generalize hdepths : ((sortIds spec.dependencies).filterMap (fun id => d.tasks[id]?)).map
      (fun y => y.dependencyDepth + 1) = depths
    have hnew : (d.newTask spec).dependencyDepth = depths.max?.getD 0 := by rw [← hdepths]; rfl
    have hmem : ∀ n, n ∈ depths ↔ ∃ e ∈ sortIds spec.dependencies, ∃ y, d.tasks[e]? = some y ∧ y.dependencyDepth + 1 = n := by
      intro n
      rw [← hdepths]
      simp only [List.mem_map, List.mem_filterMap]
      constructor
      · rintro ⟨y, ⟨e, he, hy⟩, rfl⟩
        exact ⟨e, he, y, hy, rfl⟩
      · rintro ⟨e, he, y, hy, rfl⟩
        exact ⟨y, ⟨e, he, hy⟩, rfl⟩
    rw [hnew]
    cases hmax : depths.max? with
    | none =>
      have hnil : depths = [] := List.max?_eq_none_iff.1 hmax
      refine ⟨fun e he => ?_, .inl rfl⟩
      obtain ⟨y, hy⟩ := hok.dependencies e (mem_sortIds.1 he)
      have : y.dependencyDepth + 1 ∈ depths := (hmem _).2 ⟨e, he, y, hy, rfl⟩
      rw [hnil] at this
      cases this
    | some m =>
      obtain ⟨hm, hle⟩ := List.max?_eq_some_iff.1 hmax
      refine ⟨fun e he => ?_, .inr ?_⟩
      · obtain ⟨y, hy⟩ := hok.dependencies e (mem_sortIds.1 he)
        obtain ⟨z, hz, hzy⟩ := hold e y hy
        have := hle _ ((hmem _).2 ⟨e, he, y, hy, rfl⟩)
        exact ⟨z, hz, by rw [hzy]; exact this⟩
      · obtain ⟨e, he, y, hy, heq⟩ := (hmem m).1 hm
        obtain ⟨z, hz, hzy⟩ := hold e y hy
        exact ⟨e, he, z, hz, by rw [hzy]; exact heq.symm⟩
  · exact h.carry hs hk hold

theorem ranked_step {a : TaskDag} {c : Command} (h : Ranked d.tasks) (hs : TaskStep d c a) : Ranked a.tasks := by
  have hres : ∀ t : Tasks, Ranked t → Ranked (resolveBlocked t) := fun t ht =>
    ht.congr (sameBy_resolveBlocked (fun _ _ => rfl) t)
  cases hs with
  | root actor spec r edges hok hp hr => exact hres _ (h.create hok (fun _ => rfl))
  | child actor spec p x r edges hok hp hx hr => exact hres _ (h.create hok (.insert hx _ rfl))
  | started actor task x hx _ _ => exact h.congr (.insert hx _ rfl)
  | charged actor task _ _ x hx _ _ => exact h.congr (.insert hx _ rfl)
  | messaged actor _ x hx => exact h.congr (.insert hx _ rfl)
  | cancelled actor task reason hok => exact hres _ (h.congr (sameBy_cancelTasks (fun _ _ => rfl) d task reason))
  | completed actor task _ _ _ _ x s hok ht _ => exact hres _ (h.congr (.insert hok.found _ rfl))
  | elsewhere c a ht _ hr =>
    rw [ht]
    exact h

theorem Reaches.ranked (h : Reaches H allowed config d) : Ranked d.tasks :=
  Reaches.invariant (P := fun _ t _ => Ranked t) (fun k x hk => by rw [Std.ExtTreeMap.getElem?_empty] at hk; cases hk)
    (fun _ _ _ _ hd hs => ranked_step hd hs) h

theorem Ranked.chain_le (h : Ranked t) {n : Nat} (hc : DependencyChain t k n) :
    ∀ x, t[k]? = some x → n ≤ x.dependencyDepth := by
  induction hc with
  | here k => exact fun x _ => Nat.zero_le _
  | next k e y n hk he _ ih =>
    intro x hx
    rw [hk] at hx
    cases hx
    obtain ⟨z, hz, _⟩ := (h k y hk).1 e he
    have := ih z hz
    omega

theorem Ranked.exists_chain {t : Tasks} (h : Ranked t) : ∀ (n : Nat) (k : TaskId) (x : Task), t[k]? = some x →
    x.dependencyDepth = n → DependencyChain t k n
  | 0, k, _, _, _ => .here k
  | n + 1, k, x, hk, hn => by
    rcases (h k x hk).2 with _ | ⟨e, he, y, hy, _⟩
    · omega
    · exact .next k e x n hk he (exists_chain h n e y hy (by omega))

/-- **Dependency resolution reaches its fixpoint in every reachable graph.**  A blocked task has no unsuccessful
dependency and waits for an open one; a task past readiness has only successful ones; a skipped task names an
unsuccessful one; the recorded depth is the longest chain of dependencies.  The bounded rounds settle any table, with
every task doomed by its dependencies unsuccessful. -/
theorem dependency_fixpoint {H : Digests} {config : Config} {d : TaskDag} (h : Reachable H config d) :
    (∀ (k : TaskId) (x : Task), d.tasks[k]? = some x →
      (x.state = .blocked → (∀ e ∈ x.spec.dependencies, badIn d.tasks e = false) ∧
        ∃ e ∈ x.spec.dependencies, ∃ y, d.tasks[e]? = some y ∧ y.state.isTerminal = false) ∧
      (granted x.state = true → ∀ e ∈ x.spec.dependencies, succeededIn d.tasks e = true) ∧
      (∀ e, x.state = .skippedDependency e → e ∈ x.spec.dependencies ∧ badIn d.tasks e = true) ∧
      IsGreatest {n | DependencyChain d.tasks k n} x.dependencyDepth) ∧
    ∀ t : Tasks, Settled (resolveBlocked t) ∧ ∀ k, badIn (resolveBlocked t) k = true ↔ Doomed t k := by
  have hshape := Reaches.shape h
  have hgranted := Reaches.granted h
  have hranked := Reaches.ranked h
  refine ⟨fun k x hk => ⟨fun hb => ?_, hgranted.granted k x hk, fun e => hgranted.skipped k x e hk, ?_⟩,
    fun t => ⟨resolveBlocked_settled t, resolveBlocked_bad t⟩⟩
  · obtain ⟨hnb, e, he, hns⟩ := initialState_eq_blocked.1 (hshape.settled k x hk hb)
    obtain ⟨y, hy⟩ := hshape.dependencies k x hk e he
    refine ⟨hnb, e, he, y, hy, ?_⟩
    have hbad := hnb e he
    simp only [badIn, succeededIn, hy, Option.any_some] at hbad hns
    rw [hns] at hbad
    simpa using hbad
  · exact ⟨hranked.exists_chain _ k x hk rfl, fun n hn => hranked.chain_le hn x hk⟩

/-- Task 3 waits for task 2, which waits for task 1; task 1 fails, and one command skips both. -/
def cascadeRun : List Command :=
  [sampleTask 1 none [] 3, sampleTask 2 none [1] 3, sampleTask 3 none [2] 1, .startTask .controller 1,
    .completeTask .controller 1 .failed none (some "exit") none]

theorem dependency_fixpoint_cascade : ∃ d, Reachable sampleDigests sampleConfig d ∧
    (d.tasks[(3 : TaskId)]?).map (fun x => (x.state, x.dependencyDepth)) = some (.skippedDependency 2, 2) ∧
    badIn d.tasks 2 = true := by
  obtain ⟨d, hd, hstate⟩ : ∃ d, runAll sampleDigests sampleConfig cascadeRun = some d ∧
      (d.tasks[(3 : TaskId)]?).map (fun x => (x.state, x.dependencyDepth)) = some (.skippedDependency 2, 2) :=
    Option.map_eq_some_iff.1 (by rfl : (runAll sampleDigests sampleConfig cascadeRun).map
      (fun d => (d.tasks[(3 : TaskId)]?).map (fun x => (x.state, x.dependencyDepth))) =
      some (some (.skippedDependency 2, 2)))
  have hreach := reachable_of_runAll hd
  obtain ⟨x, hx, hxs⟩ := Option.map_eq_some_iff.1 hstate
  have hskip := ((dependency_fixpoint hreach).1 3 x hx).2.2.1 2 (congrArg Prod.fst hxs)
  exact ⟨d, hreach, hstate, hskip.2⟩

end TaskDag
end Iteron.Dag
