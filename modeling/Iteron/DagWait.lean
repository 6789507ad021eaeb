import Iteron.Acyclic
import Iteron.DagHierarchy
/-!
# DagWait — tasks that wait for each other

A task with work left has milestones ahead: to start, if it has not, and to end.  `Waits` is what they wait for: an
unstarted task starts before it ends, after its unstarted parent starts and after its open dependencies end, and a task
ends after its open children.  Creation refuses a dependency that waits for the parent along dependencies and children
only; a wait through an unstarted parent escapes it (`Entangles`).  Where no creation entangles and no task is orphaned,
the waits stay acyclic, and some task can always start or end (`deadlock_free`).
-/
namespace Iteron.Dag
namespace TaskDag

open Relation Refuse

inductive Milestone where
  | start (k : TaskId)
  | done (k : TaskId)
  deriving DecidableEq

def unstarted : TaskState → Bool
  | .blocked | .ready => true
  | _ => false

inductive Waits (t : Tasks) : Milestone → Milestone → Prop
  | own (k : TaskId) (x : Task) : t[k]? = some x → unstarted x.state = true → Waits t (.done k) (.start k)
  | parent (k p : TaskId) (x y : Task) : t[k]? = some x → unstarted x.state = true → x.spec.parent = some p →
      t[p]? = some y → unstarted y.state = true → Waits t (.start k) (.start p)
  | dependency (k e : TaskId) (x y : Task) : t[k]? = some x → x.state = .blocked → e ∈ x.spec.dependencies →
      t[e]? = some y → y.state.isTerminal = false → Waits t (.start k) (.done e)
  | child (k j : TaskId) (x y : Task) : t[k]? = some x → x.state.isTerminal = false → t[j]? = some y →
      y.spec.parent = some k → y.state.isTerminal = false → Waits t (.done k) (.done j)

/-- The creation gives a child a dependency whose end waits for the end of the parent. -/
def Entangles (d : TaskDag) (c : Command) : Prop :=
  match c with
  | .createTask _ spec => ∃ (p e : TaskId) (y : Task), spec.parent = some p ∧ e ∈ spec.dependencies ∧
      d.tasks[e]? = some y ∧ y.state.isTerminal = false ∧ ReflTransGen (Waits d.tasks) (.done e) (.done p)
  | _ => False

/-! ## Commands that only advance -/

/-- States move on: nothing unblocks into blocked, starts back or reopens. -/
def Advances (t t' : Tasks) : Prop := ∀ (k : TaskId) (x' : Task), t'[k]? = some x' → ∃ x, t[k]? = some x ∧
  x'.spec = x.spec ∧ (x'.state = .blocked → x.state = .blocked) ∧
  (unstarted x'.state = true → unstarted x.state = true) ∧
  (x'.state.isTerminal = false → x.state.isTerminal = false)

variable {t t' : Tasks}

theorem Advances.trans {t'' : Tasks} (h : Advances t t') (h' : Advances t' t'') : Advances t t'' := by
  intro k z hz
  obtain ⟨y, hy, h1, h2, h3, h4⟩ := h' k z hz
  obtain ⟨x, hx, g1, g2, g3, g4⟩ := h k y hy
  exact ⟨x, hx, h1.trans g1, fun hb => g2 (h2 hb), fun hu => g3 (h3 hu), fun ho => g4 (h4 ho)⟩

theorem SameBy.advances (h : SameBy view t t') : Advances t t' := by
  intro k x' hx'
  obtain ⟨x, hx, hxx⟩ := h.symm.of_some hx'
  simp only [view, Prod.mk.injEq] at hxx
  exact ⟨x, hx, hxx.1.symm, fun hb => by rw [hxx.2.2, hb], fun hu => by rw [hxx.2.2, hu], fun ho => by rw [hxx.2.2, ho]⟩

variable {k : TaskId} {x : Task}

theorem advances_insert {s : TaskState} (hx : t[k]? = some x)
    (hopen : x.state.isTerminal = false) (hs : unstarted s = false) : Advances t (t.insert k { x with state := s }) := by
  intro j y hj
  rcases Table.insert_eq_some hj with ⟨rfl, rfl⟩ | ⟨-, hj⟩
  · refine ⟨x, hx, rfl, fun hb => ?_, fun hu => ?_, fun _ => hopen⟩
    · rw [show s = .blocked from hb] at hs
      cases hs
    · rw [show unstarted s = true from hu] at hs
      cases hs
  · exact ⟨y, hj, rfl, id, id, id⟩

theorem advances_cancelTasks (d : TaskDag) (task : TaskId) (reason : String) :
    Advances d.tasks (d.cancelTasks task reason) := by
  intro k x' hx'
  rw [cancelTasks_get] at hx'
  obtain ⟨x, hx, rfl⟩ := Option.map_eq_some_iff.1 hx'
  refine ⟨x, hx, ?_⟩
  by_cases hsub : d.isAncestorOrSelf task k = true
  · rw [if_pos hsub]
    refine ⟨rfl, fun hb => ?_, fun hu => ?_, isTerminal_cancelState⟩
    · cases hs : x.state <;> simp [hs, cancelState] at hb
    · cases hs : x.state <;> simp [hs, cancelState, unstarted] at hu
  · rw [if_neg hsub]
    exact ⟨rfl, id, id, id⟩

theorem advances_resolveBlocked (t : Tasks) : Advances t (resolveBlocked t) := by
  intro k x' hx'
  obtain ⟨x, hx, hcase⟩ := (resolveBlocked_resolves t).of_some hx'
  refine ⟨x, hx, ?_⟩
  rcases hcase with ⟨-, rfl⟩ | ⟨hb, s, rfl, -⟩
  · exact ⟨rfl, id, id, id⟩
  · rw [hb]
    exact ⟨rfl, fun _ => rfl, fun _ => rfl, fun _ => rfl⟩

theorem Advances.waits (h : Advances t t') {a b : Milestone} (hw : Waits t' a b) : Waits t a b := by
  cases hw with
  | own k x hk hu =>
    obtain ⟨y, hy, -, -, hs, -⟩ := h k x hk
    exact .own k y hy (hs hu)
  | parent k p x y hk hu hp hy hv =>
    obtain ⟨x', hx', hspec, -, hs, -⟩ := h k x hk
    obtain ⟨y', hy', -, -, hs', -⟩ := h p y hy
    exact .parent k p x' y' hx' (hs hu) (by rw [← hspec, hp]) hy' (hs' hv)
  | dependency k e x y hk hb he hy ho =>
    obtain ⟨x', hx', hspec, hs, -, -⟩ := h k x hk
    obtain ⟨y', hy', -, -, -, hs'⟩ := h e y hy
    exact .dependency k e x' y' hx' (hs hb) (by rw [← hspec]; exact he) hy' (hs' ho)
  | child k j x y hk ho hj hp ho' =>
    obtain ⟨x', hx', -, -, -, hs⟩ := h k x hk
    obtain ⟨y', hy', hspec, -, -, hs'⟩ := h j y hj
    exact .child k j x' y' hx' (hs ho) hy' (by rw [← hspec, hp]) (hs' ho')

/-! ## Creation -/

def startWaits (d : TaskDag) (spec : TaskSpec) (b : Milestone) : Prop :=
  (∃ p y, spec.parent = some p ∧ b = .start p ∧ d.tasks[p]? = some y ∧ unstarted y.state = true) ∨
    ∃ (e : TaskId) (y : Task), e ∈ spec.dependencies ∧ b = .done e ∧ d.tasks[e]? = some y ∧ y.state.isTerminal = false

variable {d : TaskDag}

theorem waits_create {actor : Actor} {spec : TaskSpec} (hshape : Shape d.config d.tasks)
    (hacyc : Acyclic (Waits d.tasks)) (hok : CreateOk d spec) (hs : SameBy view d.tasks t)
    (hno : ¬ Entangles d (.createTask actor spec)) :
    Acyclic.Extends (Waits d.tasks) (Waits (t.insert spec.id (d.newTask spec))) (.done spec.id) (.start spec.id)
      (fun a => ∃ p, spec.parent = some p ∧ a = .done p) (startWaits d spec) := by
  have hne : ∀ (e : TaskId) (y : Task), d.tasks[e]? = some y → e ≠ spec.id := by
    rintro e y hy rfl
    rw [hok.fresh] at hy
    cases hy
  have hold : ∀ (k : TaskId) (x : Task), t[k]? = some x → ∃ y, d.tasks[k]? = some y ∧ y.spec = x.spec ∧
      y.state = x.state := by
    intro k x hk
    obtain ⟨y, hy, hyx⟩ := hs.symm.of_some hk
    simp only [view, Prod.mk.injEq] at hyx
    exact ⟨y, hy, hyx.1, hyx.2.2⟩
  -- a parent is an old task, so it is not the new one
  have hparent : ∀ {k p : TaskId} {x : Task}, (t.insert spec.id (d.newTask spec))[k]? = some x → x.spec.parent = some p →
      p ≠ spec.id := by
    intro k p x hk hp
    rcases Table.insert_eq_some hk with ⟨rfl, rfl⟩ | ⟨-, hk⟩
    · obtain ⟨z, hz, -⟩ := hok.parent p hp
      exact hne p z hz
    · obtain ⟨x', hx', hspec, -⟩ := hold k x hk
      obtain ⟨z, hz, -⟩ := hshape.parent k x' p hx' (by rw [hspec, hp])
      exact hne p z hz
  refine ⟨by simp, fun a b hw => ?_, ?_, ?_, ?_⟩
  · cases hw with
    | own k x hk hu =>
      rcases Table.insert_eq_some hk with ⟨rfl, rfl⟩ | ⟨hne', hk⟩
      · exact .inr (.inr (.inl ⟨rfl, rfl⟩))
      · obtain ⟨y, hy, -, hst⟩ := hold k x hk
        exact .inl ⟨by simpa using hne'.symm, by simp, by simp, by simpa using hne'.symm, .own k y hy (by rw [hst, hu])⟩
    | parent k p x y hk hu hp hy hv =>
      have hpne := hparent hk hp
      rcases Table.insert_eq_some hy with ⟨hpe, -⟩ | ⟨-, hy⟩
      · cases hpne hpe.symm
      · obtain ⟨y', hy', -, hsty⟩ := hold p y hy
        rcases Table.insert_eq_some hk with ⟨rfl, rfl⟩ | ⟨hne', hk⟩
        · exact .inr (.inr (.inr ⟨rfl, .inl ⟨p, y', hp, rfl, hy', by rw [hsty, hv]⟩⟩))
        · obtain ⟨x', hx', hspec, hstx⟩ := hold k x hk
          exact .inl ⟨by simp, by simpa using hne'.symm, by simp, by simpa using hpne,
            .parent k p x' y' hx' (by rw [hstx, hu]) (by rw [hspec, hp]) hy' (by rw [hsty, hv])⟩
    | dependency k e x y hk hb he hy ho =>
      have heold : ∃ z, d.tasks[e]? = some z := by
        rcases Table.insert_eq_some hk with ⟨rfl, rfl⟩ | ⟨-, hk⟩
        · exact hok.dependencies e (mem_sortIds.1 he)
        · obtain ⟨x', hx', hspec, -⟩ := hold k x hk
          exact hshape.dependencies k x' hx' e (by rw [hspec]; exact he)
      obtain ⟨z, hz⟩ := heold
      have hene := hne e z hz
      rcases Table.insert_eq_some hy with ⟨hee, -⟩ | ⟨-, hy⟩
      · cases hene hee.symm
      · obtain ⟨y', hy', -, hsty⟩ := hold e y hy
        rcases Table.insert_eq_some hk with ⟨rfl, rfl⟩ | ⟨hne', hk⟩
        · exact .inr (.inr (.inr ⟨rfl, .inr ⟨e, y', mem_sortIds.1 he, rfl, hy', by rw [hsty, ho]⟩⟩))
        · obtain ⟨x', hx', hspec, hstx⟩ := hold k x hk
          exact .inl ⟨by simp, by simpa using hne'.symm, by simpa using hene, by simp,
            .dependency k e x' y' hx' (by rw [hstx, hb]) (by rw [hspec]; exact he) hy' (by rw [hsty, ho])⟩
    | child k j x y hk ho hj hp ho' =>
      have hkne := hparent hj hp
      rcases Table.insert_eq_some hk with ⟨hke, -⟩ | ⟨-, hk⟩
      · cases hkne hke.symm
      · obtain ⟨x', hx', -, hstx⟩ := hold k x hk
        rcases Table.insert_eq_some hj with ⟨rfl, rfl⟩ | ⟨hne', hj⟩
        · exact .inr (.inl ⟨⟨k, hp, rfl⟩, rfl⟩)
        · obtain ⟨y', hy', hspec, hsty⟩ := hold j y hj
          exact .inl ⟨by simpa using hkne, by simp, by simpa using hne'.symm, by simp,
            .child k j x' y' hx' (by rw [hstx, ho]) hy' (by rw [hspec, hp]) (by rw [hsty, ho'])⟩
  · rintro a ⟨p, hp, rfl⟩
    obtain ⟨x, hx, -⟩ := hok.parent p hp
    exact ⟨by simpa using hne p x hx, by simp⟩
  · rintro b (⟨p, y, -, rfl, hy, -⟩ | ⟨e, y, -, rfl, hy, -⟩)
    · exact ⟨by simp, by simpa using hne p y hy⟩
    · exact ⟨by simpa using hne e y hy, by simp⟩
  · rintro b a (⟨p, y, hp, rfl, hy, hu⟩ | ⟨e, y, he, rfl, hy, ho⟩) ⟨q, hq, rfl⟩ hpath
    · rw [hp] at hq
      cases hq
      exact hacyc (.start p) (TransGen.tail' hpath (.own p y hy hu))
    · exact hno ⟨q, e, y, hq, he, hy, ho, hpath⟩

/-! ## Runs -/

variable {c : Command}

theorem acyclic_step (hshape : Shape d.config d.tasks) (hacyc : Acyclic (Waits d.tasks)) (hno : ¬ Entangles d c)
    (hs : StateStep d c t) : Acyclic (Waits t) := by
  cases hs with
  | same c t hs => exact hacyc.mono (fun _ _ hw => hs.advances.waits hw)
  | created actor _ t hok hs => exact hacyc.extend (waits_create hshape hacyc hok hs hno)
  | started actor task x hx hready _ =>
    have hadv : Advances d.tasks (d.tasks.insert task { x with state := .running }) :=
      advances_insert hx (by rw [hready]; rfl) rfl
    exact hacyc.mono (fun _ _ hw => hadv.waits hw)
  | cancelled actor task reason hok =>
    have hadv := (advances_cancelTasks d task reason).trans (advances_resolveBlocked _)
    exact hacyc.mono (fun _ _ hw => hadv.waits hw)
  | completed actor task _ _ _ _ x s hok hterm _ =>
    have hopen : x.state.isTerminal = false := by
      have hadm := hok.admitted
      cases hx : x.state <;> rw [hx] at hadm <;> first | rfl | cases hadm
    have hs : unstarted s = false := by
      cases s <;> first | rfl | cases hterm
    have hadv := (advances_insert hok.found hopen hs).trans (advances_resolveBlocked _)
    exact hacyc.mono (fun _ _ hw => hadv.waits hw)

/-- Every requested cancellation carries a reason the acknowledgement may repeat. -/
def ReasonsVisible (t : Tasks) : Prop := ∀ (k : TaskId) (x : Task) (reason : String), t[k]? = some x →
  x.state = .cancelling reason → validateVisible reason maxReasonBytes "cancel reason" = .ok ()

theorem reasonsVisible_step (h : ReasonsVisible d.tasks) (hs : StateStep d c t) : ReasonsVisible t := by
  have hresolve : ∀ t : Tasks, ReasonsVisible t → ReasonsVisible (resolveBlocked t) := by
    intro t ht k x' reason hk hc
    obtain ⟨x, hx, ⟨-, rfl⟩ | ⟨-, s, rfl, hs⟩⟩ := (resolveBlocked_resolves t).of_some hk
    · exact ht k x' reason hx hc
    · rcases hs with rfl | rfl | ⟨e, rfl⟩ <;> cases hc
  cases hs with
  | same c t hs =>
    intro k x reason hk hc
    obtain ⟨y, hy, hyx⟩ := hs.symm.of_some hk
    simp only [view, Prod.mk.injEq] at hyx
    exact h k y reason hy (by rw [hyx.2.2, hc])
  | created actor spec t hok hs =>
    intro k x reason hk hc
    rcases Table.insert_eq_some hk with ⟨rfl, rfl⟩ | ⟨-, hk⟩
    · have hnew := initialState_not_admitted d.tasks (sortIds spec.dependencies)
      rw [show initialState d.tasks (sortIds spec.dependencies) = .cancelling reason from hc] at hnew
      cases hnew
    · obtain ⟨y, hy, hyx⟩ := hs.symm.of_some hk
      simp only [view, Prod.mk.injEq] at hyx
      exact h k y reason hy (by rw [hyx.2.2, hc])
  | started actor task x hx _ _ =>
    intro k y reason hk hc
    rcases Table.insert_eq_some hk with ⟨rfl, rfl⟩ | ⟨-, hk⟩
    · cases hc
    · exact h k y reason hk hc
  | cancelled actor task reason hok =>
    refine hresolve _ (fun k x' r hk hc => ?_)
    rw [cancelTasks_get] at hk
    obtain ⟨x, hx, rfl⟩ := Option.map_eq_some_iff.1 hk
    by_cases hsub : d.isAncestorOrSelf task k = true
    · rw [if_pos hsub] at hc
      cases hst : x.state with
      | running =>
        simp only [hst, cancelState, TaskState.cancelling.injEq] at hc
        rw [← hc]
        exact hok.visible
      | cancelling r' =>
        simp only [hst, cancelState, TaskState.cancelling.injEq] at hc
        rw [← hc]
        exact h k x r' hx hst
      | _ => simp [hst, cancelState] at hc
    · rw [if_neg hsub] at hc
      exact h k x r hx hc
  | completed actor task _ _ _ _ x s hok hterm _ =>
    refine hresolve _ (fun k y r hk hc => ?_)
    rcases Table.insert_eq_some hk with ⟨rfl, rfl⟩ | ⟨-, hk⟩
    · rw [show s = .cancelling r from hc] at hterm
      cases hterm
    · exact h k y r hk hc

/-- No command of the run leaves an orphan or entangles its waits. -/
def Untangled (d : TaskDag) (c : Command) : Prop := ¬ Orphans d c ∧ ¬ Entangles d c

structure WaitLaw (config : Config) (t : Tasks) : Prop where
  shape : Shape config t
  nests : Nests t
  acyclic : Acyclic (Waits t)
  visible : ReasonsVisible t

theorem waitLaw_new (config : Config) : WaitLaw config ∅ := by
  have hnone : ∀ (k : TaskId) (x : Task), (∅ : Tasks)[k]? ≠ some x := fun k x hk => by
    cases hk
  refine ⟨shape_new config, fun j y k x hj => absurd hj (hnone j y), fun a ha => ?_,
    fun k x r hk => absurd hk (hnone k x)⟩
  obtain ⟨b, hw, -⟩ := TransGen.head'_iff.1 ha
  cases hw with
  | own k x hk => exact hnone k x hk
  | parent k p x y hk => exact hnone k x hk
  | dependency k e x y hk => exact hnone k x hk
  | child k j x y hk => exact hnone k x hk

theorem Reaches.waitLaw {H : Digests} {config : Config} (h : Reaches H Untangled config d) : WaitLaw d.config d.tasks :=
  Reaches.invariant (P := fun c t _ => WaitLaw c t) (waitLaw_new config) (fun _ _ _ hok hd hs => by
      have hstep := stateStep_of hd.shape hs
      rw [step_config hs]
      exact ⟨shape_step hd.shape hstep, nests_step hd.shape hd.nests hok.1 hstep,
        acyclic_step hd.shape hd.acyclic hok.2 hstep, reasonsVisible_step hd.visible hstep⟩) h

/-! ## Some task can move -/

def milestones (t : Tasks) : Finset Milestone :=
  ((Table.keys t).filter (fun k => (t[k]?).any (fun x => unstarted x.state))).image .start ∪
    ((Table.keys t).filter (fun k => (t[k]?).any (fun x => !x.state.isTerminal))).image .done

theorem start_mem_milestones : .start k ∈ milestones t ↔ ∃ x, t[k]? = some x ∧ unstarted x.state = true := by
  unfold milestones
  simp only [Finset.mem_union, Finset.mem_image, Finset.mem_filter, Table.mem_keys, Option.any_eq_true,
    Milestone.start.injEq, reduceCtorEq, and_false, exists_false, or_false, exists_eq_right]
  constructor
  · rintro ⟨-, x, hx, hu⟩
    exact ⟨x, hx, hu⟩
  · rintro ⟨x, hx, hu⟩
    exact ⟨⟨x, hx⟩, x, hx, hu⟩

theorem done_mem_milestones : .done k ∈ milestones t ↔ ∃ x, t[k]? = some x ∧ x.state.isTerminal = false := by
  unfold milestones
  simp only [Finset.mem_union, Finset.mem_image, Finset.mem_filter, Table.mem_keys, Option.any_eq_true,
    Milestone.done.injEq, reduceCtorEq, and_false, exists_false, false_or, exists_eq_right, Bool.not_eq_true']
  constructor
  · rintro ⟨-, x, hx, hu⟩
    exact ⟨x, hx, hu⟩
  · rintro ⟨x, hx, hu⟩
    exact ⟨⟨x, hx⟩, x, hx, hu⟩

theorem Waits.mem {a b : Milestone} (h : Waits t a b) : b ∈ milestones t := by
  cases h with
  | own k x hk hu => exact start_mem_milestones.2 ⟨x, hk, hu⟩
  | parent k p x y hk hu hp hy hv => exact start_mem_milestones.2 ⟨y, hy, hv⟩
  | dependency k e x y hk _ _ hy ho => exact done_mem_milestones.2 ⟨y, hy, ho⟩
  | child k j x y hk ho hj hp ho' => exact done_mem_milestones.2 ⟨y, hj, ho'⟩

theorem WaitLaw.start_accepted (h : WaitLaw d.config d.tasks)
    (hx : d.tasks[k]? = some x) (hu : unstarted x.state = true) (hlast : ∀ b, ¬ Waits d.tasks (.start k) b) :
    d.validateStart .controller k = .ok () := by
  have hready : x.state = .ready := by
    cases hs : x.state with
    | ready => rfl
    | blocked =>
      -- a blocked task has a dependency that neither succeeded nor ended badly, hence one that is open
      exfalso
      obtain ⟨hnb, e, he, hns⟩ := initialState_eq_blocked.1 (h.shape.settled k x hx hs)
      obtain ⟨y, hy⟩ := h.shape.dependencies k x hx e he
      have hopen : y.state.isTerminal = false := by
        have h1 := hnb e he
        unfold badIn at h1
        unfold succeededIn at hns
        rw [hy] at h1 hns
        simp only [Option.any_some] at h1 hns
        rw [hns] at h1
        simpa using h1
      exact hlast _ (.dependency k e x y hx hs he hy hopen)
    | _ => rw [hs] at hu; cases hu
  have hparent : ∀ p, x.spec.parent = some p → ∃ y, d.tasks[p]? = some y ∧ y.state = .running := by
    intro p hp
    obtain ⟨y, hy, -⟩ := h.shape.parent k x p hx hp
    refine ⟨y, hy, ?_⟩
    have hclosed := (h.nests.closed h.shape).unstarted k p y x ⟨x, hx, hp⟩ hx (.inr hready) hy
    rcases hclosed with hb | hr | hrun
    · cases hlast _ (.parent k p x y hx hu hp hy (by rw [hb]; rfl))
    · cases hlast _ (.parent k p x y hx hu hp hy (by rw [hr]; rfl))
    · exact hrun
  unfold validateStart
  simp only [bind_eq_ok, refuseIf_eq_ok, requireTask_eq_ok, not_not]
  refine ⟨(), trivial, x, hx, (), hready, ?_⟩
  cases hp : x.spec.parent with
  | none => rfl
  | some p =>
    obtain ⟨y, hy, hrun⟩ := hparent p hp
    simp only [bind_eq_ok, refuseIf_eq_ok, requireTask_eq_ok, not_not]
    exact ⟨y, hy, hrun⟩

/-- The completion the controller may always offer an admitted task. -/
def closing (state : TaskState) : Completion × Option String × Option String :=
  match state with
  | .cancelling reason => (.cancelled, none, some reason)
  | _ => (.failed, some "failed", none)

theorem validateVisible_name {value : String} {maxBytes : Nat} {name name' : String}
    (h : validateVisible value maxBytes name = .ok ()) : validateVisible value maxBytes name' = .ok () := by
  unfold validateVisible at h ⊢
  simpa only [bind_eq_ok, refuseIf_eq_ok] using h

theorem WaitLaw.done_accepted (h : WaitLaw d.config d.tasks)
    (hx : d.tasks[k]? = some x) (hopen : x.state.isTerminal = false) (hlast : ∀ b, ¬ Waits d.tasks (.done k) b)
    (hattempts : ∀ (a : AttemptId) (att : Attempt), d.attempts[a]? = some att → att.state.isTerminal = true) :
    d.validateCompletion .controller k (closing x.state).1 none (closing x.state).2.1 (closing x.state).2.2 = .ok () := by
  have hadm : x.state.isAdmitted = true := by
    cases hs : x.state with
    | running => rfl
    | cancelling r => rfl
    | blocked => cases hlast _ (.own k x hx (by rw [hs]; rfl))
    | ready => cases hlast _ (.own k x hx (by rw [hs]; rfl))
    | _ => rw [hs] at hopen; cases hopen
  have hchild : d.hasOpenChild k = false := by
    unfold hasOpenChild
    rw [List.any_eq_false]
    intro y hy hboth
    obtain ⟨j, hj⟩ := (Table.mem_vals _ y).1 hy
    simp only [Bool.and_eq_true, beq_iff_eq, Bool.not_eq_true'] at hboth
    exact hlast _ (.child k j x y hx hopen hj hboth.1 hboth.2)
  have hattempt : d.hasOpenAttempt k = false := by
    unfold hasOpenAttempt
    rw [List.any_eq_false]
    intro a ha hboth
    obtain ⟨i, hi⟩ := (Table.mem_vals _ a).1 ha
    simp only [Bool.and_eq_true, Bool.not_eq_true'] at hboth
    rw [hattempts i a hi] at hboth
    cases hboth.2
  unfold validateCompletion authorizeTaskOrController
  simp only [bind_eq_ok, refuseIf_eq_ok, requireTask_eq_ok, hchild, hattempt]
  refine ⟨(), trivial, x, hx, (), by simp [hadm], (), by simp, (), by simp, ?_⟩
  cases hs : x.state with
  | running => exact ⟨(), rfl, by decide⟩
  | cancelling r =>
    have hvis := h.visible k x r hx hs
    refine ⟨(), by simp [closing, validateAcknowledgement, bind_eq_ok], ?_⟩
    simp only [closing, validateTerminal, orElseError, bind_eq_ok]
    exact ⟨r, rfl, (), validateVisible_name hvis, by simp⟩
  | _ => rw [hs] at hadm; cases hadm

/-- **No deadlock**: in every run in which no command leaves an orphan or entangles the waits, whenever a task has work
left and no attempt is open, the controller can start or complete some task. -/
theorem deadlock_free {H : Digests} {config : Config} {d : TaskDag} (h : Reaches H Untangled config d)
    (hopen : ∃ (k : TaskId) (x : Task), d.tasks[k]? = some x ∧ x.state.isTerminal = false)
    (hattempts : ∀ (a : AttemptId) (att : Attempt), d.attempts[a]? = some att → att.state.isTerminal = true) :
    (∃ k, d.validateCommand H (.startTask .controller k) = .ok ()) ∨ ∃ k completion digest code detail,
        d.validateCommand H (.completeTask .controller k completion digest code detail) = .ok () := by
  have hlaw := h.waitLaw
  obtain ⟨k, x, hx, ho⟩ := hopen
  obtain ⟨m, hm, hlast⟩ := hlaw.acyclic.exists_last ⟨.done k, done_mem_milestones.2 ⟨x, hx, ho⟩⟩
  have hlast' : ∀ b, ¬ Waits d.tasks m b := fun b hb => hlast b hb.mem hb
  cases m with
  | start j =>
    obtain ⟨y, hy, hu⟩ := start_mem_milestones.1 hm
    exact .inl ⟨j, hlaw.start_accepted hy hu hlast'⟩
  | done j =>
    obtain ⟨y, hy, hu⟩ := done_mem_milestones.1 hm
    exact .inr ⟨j, _, _, _, _, hlaw.done_accepted hy hu hlast' hattempts⟩

theorem deadlock_free_startedFamily : ∃ d, Reaches sampleDigests Untangled sampleConfig d ∧
    (d.tasks[(2 : TaskId)]?).map Task.state = some .running ∧
    ((∃ k, d.validateCommand sampleDigests (.startTask .controller k) = .ok ()) ∨ ∃ k completion digest code detail,
        d.validateCommand sampleDigests (.completeTask .controller k completion digest code detail) = .ok ()) := by
  obtain ⟨d, hd, hstate⟩ : ∃ d, runAll sampleDigests sampleConfig startedFamily = some d ∧
      ((d.tasks[(2 : TaskId)]?).map Task.state, d.attempts.toList) = (some .running, []) :=
    Option.map_eq_some_iff.1 (by rfl : (runAll sampleDigests sampleConfig startedFamily).map
      (fun d => ((d.tasks[(2 : TaskId)]?).map Task.state, d.attempts.toList)) = some (some .running, []))
  obtain ⟨htwo, hnone⟩ := Prod.mk.inj hstate
  have hreach : Reaches sampleDigests Untangled sampleConfig d := by
    refine Reaches.of_runAll (fun c hc d => ⟨not_orphans (fun k hk => ?_), fun he => ?_⟩) hd
    · simp only [startedFamily, sampleTask, List.mem_cons, List.not_mem_nil, or_false] at hc
      rcases hc with rfl | rfl | rfl | rfl <;> exact hk
    · simp only [startedFamily, sampleTask, List.mem_cons, List.not_mem_nil, or_false] at hc
      rcases hc with rfl | rfl | rfl | rfl
      · obtain ⟨p, e, y, -, hmem, -⟩ := he
        cases hmem
      · obtain ⟨p, e, y, -, hmem, -⟩ := he
        cases hmem
      · exact he
      · exact he
  obtain ⟨x, hx, hxs⟩ := Option.map_eq_some_iff.1 htwo
  refine ⟨d, hreach, htwo, deadlock_free hreach ⟨2, x, hx, by rw [hxs]; rfl⟩ (fun a att ha => ?_)⟩
  have hmem := (Table.mem_toList d.attempts a att).2 ha
  rw [hnone] at hmem
  cases hmem

/-- Task 1 waits for its child 4, which waits for task 3, whose parent 2 waits for task 1. -/
def entangledRun : List Command :=
  [sampleTask 1 none [] 3, sampleTask 2 none [1] 3, sampleTask 3 (some 2) [] 1, sampleTask 4 (some 1) [3] 1,
    .startTask .controller 1]

theorem deadlocked_entangled : ∃ d, Reachable sampleDigests sampleConfig d ∧
    (∃ (k : TaskId) (x : Task), d.tasks[k]? = some x ∧ x.state.isTerminal = false) ∧
    (∀ (a : AttemptId) (att : Attempt), d.attempts[a]? = some att → att.state.isTerminal = true) ∧
    ¬ ((∃ k, d.validateCommand sampleDigests (.startTask .controller k) = .ok ()) ∨ ∃ k completion digest code detail,
        d.validateCommand sampleDigests (.completeTask .controller k completion digest code detail) = .ok ()) := by
  obtain ⟨d, hd, hstate⟩ : ∃ d, runAll sampleDigests sampleConfig entangledRun = some d ∧
      (d.tasks.toList.map (fun p => (p.1, p.2.state, p.2.spec.parent)), d.attempts.toList) =
        ([(1, .running, none), (2, .blocked, none), (3, .ready, some 2), (4, .blocked, some 1)], []) :=
    Option.map_eq_some_iff.1 (by rfl : (runAll sampleDigests sampleConfig entangledRun).map
      (fun d => (d.tasks.toList.map (fun p => (p.1, p.2.state, p.2.spec.parent)), d.attempts.toList)) =
      some ([(1, .running, none), (2, .blocked, none), (3, .ready, some 2), (4, .blocked, some 1)], []))
  obtain ⟨htasks, hnone⟩ := Prod.mk.inj hstate
  have hlist : ∀ (k : TaskId) (x : Task), d.tasks[k]? = some x → (k, x.state, x.spec.parent) ∈
      [(1, .running, none), (2, .blocked, none), (3, .ready, some 2), (4, TaskState.blocked, some 1)] := by
    intro k x hk
    rw [← htasks]
    exact List.mem_map.2 ⟨(k, x), (Table.mem_toList _ k x).2 hk, rfl⟩
  have hget : ∀ v ∈ [(1, TaskState.running, none), (2, .blocked, none), (3, .ready, some 2), (4, .blocked, some 1)],
      ∃ x, d.tasks[v.1]? = some x ∧ x.state = v.2.1 ∧ x.spec.parent = v.2.2 := by
    intro v hv
    rw [← htasks] at hv
    obtain ⟨⟨k, x⟩, hmem, rfl⟩ := List.mem_map.1 hv
    exact ⟨x, (Table.mem_toList _ k x).1 hmem, rfl, rfl⟩
  refine ⟨d, reachable_of_runAll hd, ?_, fun a att ha => ?_, ?_⟩
  · obtain ⟨x, hx, hs, -⟩ := hget (1, .running, none) (by simp)
    exact ⟨1, x, hx, by rw [hs]; rfl⟩
  · have hmem := (Table.mem_toList d.attempts a att).2 ha
    rw [hnone] at hmem
    cases hmem
  · rintro (⟨k, hk⟩ | ⟨k, completion, digest, code, detail, hk⟩)
    · -- only task 3 is ready, and its parent is blocked
      obtain ⟨x, hx, hready, hparent⟩ := validateStart_ok hk
      obtain ⟨y, hy, hys, -⟩ := hget (2, .blocked, none) (by simp)
      have hin := hlist k x hx
      rw [hready] at hin
      simp only [List.mem_cons, Prod.mk.injEq, reduceCtorEq, false_and, and_false, List.not_mem_nil, or_false,
        false_or, true_and] at hin
      obtain ⟨z, hz, hrun⟩ := hparent 2 hin.2
      rw [hy] at hz
      cases hz
      rw [hys] at hrun
      cases hrun
    · -- only task 1 is admitted, and its child 4 is open
      obtain ⟨x, hok⟩ := validateCompletion_ok hk
      obtain ⟨y, hy, hys, hyp⟩ := hget (4, .blocked, some 1) (by simp)
      have hin := hlist k x hok.found
      have hadm := hok.admitted
      simp only [List.mem_cons, Prod.mk.injEq, List.not_mem_nil, or_false] at hin
      rcases hin with ⟨rfl, -, -⟩ | ⟨-, hs, -⟩ | ⟨-, hs, -⟩ | ⟨-, hs, -⟩
      · have hterm := hok.child_terminal hy hyp
        rw [hys] at hterm
        cases hterm
      · rw [hs] at hadm
        cases hadm
      · rw [hs] at hadm
        cases hadm
      · rw [hs] at hadm
        cases hadm

end TaskDag
end Iteron.Dag
