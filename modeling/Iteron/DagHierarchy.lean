import Iteron.DagStep
/-!
# DagHierarchy — parents and children

Reachable tables have a shape no command breaks: parents and dependencies exist, depths count ancestors, nothing blocked
could move.  That a parent's state bounds its children's (`nested`) is kept by every command but one kind: a failure or
a cancellation that skips a blocked task leaves the children of that task behind (`Orphans`).
-/
namespace Iteron.Dag
namespace TaskDag

/-! ## Shape -/

structure Shape (config : Config) (t : Tasks) : Prop where
  parent : ∀ (k : TaskId) (x : Task) (p : TaskId), t[k]? = some x → x.spec.parent = some p →
    ∃ y, t[p]? = some y ∧ x.hierarchyDepth = y.hierarchyDepth + 1
  depth : ∀ (k : TaskId) (x : Task), t[k]? = some x → x.hierarchyDepth ≤ config.limits.maxHierarchyDepth
  dependencies : ∀ (k : TaskId) (x : Task), t[k]? = some x → ∀ e ∈ x.spec.dependencies, ∃ y, t[e]? = some y
  settled : Settled t

def form (x : Task) : TaskSpec × Nat := (x.spec, x.hierarchyDepth)

def phase (x : Task) : List TaskId × Bool × Bool × Bool :=
  (x.spec.dependencies, x.state.isTerminal, x.state.isSucceeded, decide (x.state = .blocked))

variable {t t' : Tasks}

theorem badIn_congr (h : SameBy phase t t') (k : TaskId) : badIn t' k = badIn t k :=
  h.any (fun p => p.2.1 && !p.2.2.1) k

theorem succeededIn_congr (h : SameBy phase t t') (k : TaskId) : succeededIn t' k = succeededIn t k :=
  h.any (fun p => p.2.2.1) k

theorem Settled.congr (h : Settled t) (hs : SameBy phase t t') : Settled t' := by
  intro k x hk hb
  obtain ⟨y, hy, hxy⟩ := hs.symm.of_some hk
  simp only [phase, Prod.mk.injEq, decide_eq_decide] at hxy
  obtain ⟨hnb, e, he, hne⟩ := initialState_eq_blocked.1 (h k y hy (hxy.2.2.2.2 hb))
  rw [hxy.1] at hnb he
  exact initialState_eq_blocked.2 ⟨fun e he => by rw [badIn_congr hs]; exact hnb e he, e, he,
    by rw [succeededIn_congr hs]; exact hne⟩

variable {config : Config}

theorem Shape.congr (h : Shape config t) (hs : SameBy form t t') (hset : Settled t') : Shape config t' := by
  refine ⟨fun k x p hk hp => ?_, fun k x hk => ?_, fun k x hk e he => ?_, hset⟩
  · obtain ⟨y, hy, hxy⟩ := hs.symm.of_some hk
    simp only [form, Prod.mk.injEq] at hxy
    obtain ⟨z, hz, hd⟩ := h.parent k y p hy (by rw [hxy.1, hp])
    obtain ⟨w, hw, hzw⟩ := hs.of_some hz
    simp only [form, Prod.mk.injEq] at hzw
    exact ⟨w, hw, by rw [← hxy.2, hd, hzw.2]⟩
  · obtain ⟨y, hy, hxy⟩ := hs.symm.of_some hk
    simp only [form, Prod.mk.injEq] at hxy
    rw [← hxy.2]
    exact h.depth k y hy
  · obtain ⟨y, hy, hxy⟩ := hs.symm.of_some hk
    simp only [form, Prod.mk.injEq] at hxy
    obtain ⟨z, hz⟩ := h.dependencies k y hy e (by rw [hxy.1]; exact he)
    obtain ⟨w, hw, -⟩ := hs.of_some hz
    exact ⟨w, hw⟩

/-! ## Steps, as states see them -/

def view (x : Task) : TaskSpec × Nat × TaskState := (x.spec, x.hierarchyDepth, x.state)

theorem SameBy.form {t t' : Tasks} (h : SameBy view t t') : SameBy form t t' := h.map (fun v => (v.1, v.2.1))

theorem SameBy.phase {t t' : Tasks} (h : SameBy view t t') : SameBy phase t t' :=
  h.map (fun v => (v.1.dependencies, v.2.2.isTerminal, v.2.2.isSucceeded, decide (v.2.2 = .blocked)))

inductive StateStep (d : TaskDag) : Command → Tasks → Prop
  | same (c : Command) (t : Tasks) : SameBy view d.tasks t → StateStep d c t
  | created (actor : Actor) (spec : TaskSpec) (t : Tasks) : CreateOk d spec → SameBy view d.tasks t →
      StateStep d (.createTask actor spec) (t.insert spec.id (d.newTask spec))
  | started (actor : Actor) (task : TaskId) (x : Task) : d.tasks[task]? = some x → x.state = .ready →
      (∀ p, x.spec.parent = some p → ∃ y, d.tasks[p]? = some y ∧ y.state = .running) →
      StateStep d (.startTask actor task) (d.tasks.insert task { x with state := .running })
  | cancelled (actor : Actor) (task : TaskId) (reason : String) : CancelOk d task reason →
      StateStep d (.requestCancel actor task reason) (resolveBlocked (d.cancelTasks task reason))
  | completed (actor : Actor) (task : TaskId) (completion : Completion) (digest code detail : Option String) (x : Task)
      (state : TaskState) : CompleteOk d task x → state.isTerminal = true →
      (state.isSucceeded = true ↔ completion = .succeeded) →
      StateStep d (.completeTask actor task completion digest code detail)
        (resolveBlocked (d.tasks.insert task { x with state := state }))

variable {e : TaskId}

theorem mem_sortIds {ids : List TaskId} : e ∈ sortIds ids ↔ e ∈ ids := List.mem_insertionSort _

variable {k : TaskId}

theorem badIn_insert_ne (h : k ≠ e) (x : Task) : badIn (t.insert k x) e = badIn t e := by
  unfold badIn
  rw [Table.get_insert, if_neg h]

theorem succeededIn_insert_ne (h : k ≠ e) (x : Task) : succeededIn (t.insert k x) e = succeededIn t e := by
  unfold succeededIn
  rw [Table.get_insert, if_neg h]

variable {d : TaskDag} {spec : TaskSpec}

/-- A new task moves nothing: it starts where its dependencies leave it, and nothing depends on it. -/
theorem Shape.settled_create (h : Shape d.config d.tasks)
    (hok : CreateOk d spec) (hs : SameBy view d.tasks t) : Settled (t.insert spec.id (d.newTask spec)) := by
  have hne : ∀ e : TaskId, (∃ y, d.tasks[e]? = some y) → spec.id ≠ e := by
    rintro e ⟨y, hy⟩ rfl
    rw [hok.fresh] at hy
    cases hy
  -- the dependencies are old tasks, on which old and new table agree
  have hkeep : ∀ ds : List TaskId, (∀ e ∈ ds, ∃ y, d.tasks[e]? = some y) → initialState d.tasks ds = .blocked →
      initialState (t.insert spec.id (d.newTask spec)) ds = .blocked := by
    intro ds hds hb
    obtain ⟨hnb, e, he, hns⟩ := initialState_eq_blocked.1 hb
    refine initialState_eq_blocked.2 ⟨fun e he => ?_, e, he, ?_⟩
    · rw [badIn_insert_ne (hne e (hds e he)), badIn_congr hs.phase]
      exact hnb e he
    · rw [succeededIn_insert_ne (hne e (hds e he)), succeededIn_congr hs.phase]
      exact hns
  intro k x hk hb
  rcases Table.insert_eq_some hk with ⟨rfl, rfl⟩ | ⟨-, hk⟩
  · exact hkeep _ (fun e he => hok.dependencies e (mem_sortIds.1 he)) hb
  · obtain ⟨y, hy, hxy⟩ := hs.symm.of_some hk
    simp only [view, Prod.mk.injEq] at hxy
    rw [← hxy.1]
    exact hkeep _ (h.dependencies k y hy) (h.settled k y hy (by rw [hxy.2.2, hb]))

variable {c : Command}

theorem stateStep_of {a : TaskDag} (h : Shape d.config d.tasks) (hs : TaskStep d c a) : StateStep d c a.tasks := by
  cases hs with
  | root actor spec r edges hok hp hr =>
    rw [(h.settled_create hok (fun _ => rfl)).resolveBlocked]
    exact .created actor spec d.tasks hok (fun _ => rfl)
  | child actor spec p x r edges hok hp hx hr =>
    have hsame : SameBy view d.tasks (d.tasks.insert p { x with childReservations := r }) := .insert hx _ rfl
    rw [(h.settled_create hok hsame).resolveBlocked]
    exact .created actor spec _ hok hsame
  | started actor task x hx hready hparent => exact .started actor task x hx hready hparent
  | charged actor task _ _ x hx _ _ => exact .same _ _ (.insert hx _ rfl)
  | messaged actor _ x hx => exact .same _ _ (.insert hx _ rfl)
  | cancelled actor task reason hok => exact .cancelled actor task reason hok
  | completed actor task completion digest code detail x s hok ht hsucc =>
    exact .completed actor task completion digest code detail x s hok ht hsucc
  | elsewhere c a ht _ hr =>
    rw [ht]
    exact .same _ _ (fun _ => rfl)

theorem shape_new (config : Config) : Shape config ∅ := by
  have hnone : ∀ (k : TaskId) (x : Task), (∅ : Tasks)[k]? ≠ some x := fun k x hk => by
    cases hk
  exact ⟨fun k x _ hk => absurd hk (hnone k x), fun k x hk => absurd hk (hnone k x), fun k x hk => absurd hk (hnone k x),
    fun k x hk => absurd hk (hnone k x)⟩

theorem Shape.create (h : Shape d.config d.tasks) (hok : CreateOk d spec)
    (hs : SameBy view d.tasks t) : Shape d.config (t.insert spec.id (d.newTask spec)) := by
  have hold : ∀ (e : TaskId) (y : Task), d.tasks[e]? = some y → ∃ z, (t.insert spec.id (d.newTask spec))[e]? = some z ∧
      z.hierarchyDepth = y.hierarchyDepth := by
    intro e y hy
    obtain ⟨z, hz, hzy⟩ := hs.of_some hy
    simp only [view, Prod.mk.injEq] at hzy
    rw [Table.get_insert, if_neg (fun he => by rw [← he, hok.fresh] at hy; cases hy)]
    exact ⟨z, hz, hzy.2.1⟩
  refine ⟨fun k x p hk hp => ?_, fun k x hk => ?_, fun k x hk e he => ?_, h.settled_create hok hs⟩
  · rcases Table.insert_eq_some hk with ⟨rfl, rfl⟩ | ⟨-, hk⟩
    · obtain ⟨y, hy, -⟩ := hok.parent p hp
      obtain ⟨z, hz, hd⟩ := hold p y hy
      refine ⟨z, hz, ?_⟩
      rw [hd]
      simp [newTask, show spec.parent = some p from hp, hy]
    · obtain ⟨y, hy, hxy⟩ := hs.symm.of_some hk
      simp only [view, Prod.mk.injEq] at hxy
      obtain ⟨z, hz, hd⟩ := h.parent k y p hy (by rw [hxy.1, hp])
      obtain ⟨w, hw, hdw⟩ := hold p z hz
      exact ⟨w, hw, by rw [← hxy.2.1, hd, hdw]⟩
  · rcases Table.insert_eq_some hk with ⟨rfl, rfl⟩ | ⟨-, hk⟩
    · cases hp : spec.parent with
      | none => simp [newTask, hp]
      | some p =>
        obtain ⟨y, hy, -, -, hd, -⟩ := hok.parent p hp
        simpa [newTask, hp, hy] using hd
    · obtain ⟨y, hy, hxy⟩ := hs.symm.of_some hk
      simp only [view, Prod.mk.injEq] at hxy
      rw [← hxy.2.1]
      exact h.depth k y hy
  · have hex : ∃ y, d.tasks[e]? = some y := by
      rcases Table.insert_eq_some hk with ⟨rfl, rfl⟩ | ⟨-, hk⟩
      · exact hok.dependencies e (mem_sortIds.1 he)
      · obtain ⟨y, hy, hxy⟩ := hs.symm.of_some hk
        simp only [view, Prod.mk.injEq] at hxy
        exact h.dependencies k y hy e (by rw [hxy.1]; exact he)
    obtain ⟨y, hy⟩ := hex
    obtain ⟨z, hz, -⟩ := hold e y hy
    exact ⟨z, hz⟩

theorem shape_step (h : Shape d.config d.tasks) (hs : StateStep d c t) : Shape d.config t := by
  cases hs with
  | same c t hs => exact h.congr hs.form (h.settled.congr hs.phase)
  | created actor _ t hok hs => exact h.create hok hs
  | started actor task x hx hready _ =>
    exact h.congr (.insert hx _ rfl) (h.settled.congr (.insert hx _ (by simp [phase, hready]; decide)))
  | cancelled actor task reason hok =>
    exact h.congr ((sameBy_cancelTasks (fun _ _ => rfl) d task reason).trans (sameBy_resolveBlocked (fun _ _ => rfl) _))
      (resolveBlocked_settled _)
  | completed actor task _ _ _ _ x s hok _ _ =>
    exact h.congr ((SameBy.insert hok.found { x with state := s } rfl).trans (sameBy_resolveBlocked (fun _ _ => rfl) _))
      (resolveBlocked_settled _)

/-! ## The ancestor walk -/

theorem ancestorWalk_fuel {d : TaskDag} (h : Shape d.config d.tasks) (a : TaskId) : ∀ (fuel fuel' : Nat) (k : TaskId)
    (x : Task), d.tasks[k]? = some x → x.hierarchyDepth < fuel → x.hierarchyDepth < fuel' →
    d.ancestorWalk a fuel k = d.ancestorWalk a fuel' k
  | 0, _, _, _, _, hlt, _ => by omega
  | _, 0, _, _, _, _, hlt => by omega
  | fuel + 1, fuel' + 1, k, x, hk, hlt, hlt' => by
    unfold ancestorWalk
    by_cases ha : a = k
    · rw [if_pos ha, if_pos ha]
    · rw [if_neg ha, if_neg ha, hk, Option.bind_some]
      cases hp : x.spec.parent with
      | none => rfl
      | some p =>
        obtain ⟨y, hy, _⟩ := h.parent k x p hk hp
        exact ancestorWalk_fuel h a fuel fuel' p y hy (by omega) (by omega)

variable {y : Task}

theorem Shape.isAncestorOrSelf_child (h : Shape d.config d.tasks) {a j : TaskId} (hj : d.tasks[j]? = some y)
    (hp : y.spec.parent = some k) (ha : d.isAncestorOrSelf a k = true) : d.isAncestorOrSelf a j = true := by
  obtain ⟨x, hx, _⟩ := h.parent j y k hj hp
  have hdepth := h.depth j y hj
  unfold isAncestorOrSelf at ha ⊢
  rw [ancestorWalk]
  by_cases haj : a = j
  · rw [if_pos haj]
  · rw [if_neg haj, hj, Option.bind_some, hp, ← ha]
    exact ancestorWalk_fuel h a _ _ k x hx (by omega) (by omega)

/-! ## What a parent's state allows its children -/

/-- Children are unstarted or terminal under an unstarted parent, cancelling or terminal under a cancelling one, and
terminal under a terminal one. -/
def nested : TaskState → TaskState → Bool
  | .running, _ => true
  | .blocked, s | .ready, s => !s.isAdmitted
  | .cancelling _, s => s.isTerminal || (s matches .cancelling _)
  | _, s => s.isTerminal

def Nests (t : Tasks) : Prop := ∀ (j : TaskId) (y : Task) (k : TaskId) (x : Task), t[j]? = some y →
  y.spec.parent = some k → t[k]? = some x → nested x.state y.state = true

variable {s : TaskState}

theorem nested_of_isTerminal (a : TaskState) (h : s.isTerminal = true) : nested a s = true := by
  cases a <;> cases s <;> first | rfl | cases h

variable {a : TaskState}

theorem isTerminal_of_nested (h : nested a s = true) (ha : a.isTerminal = true) : s.isTerminal = true := by
  cases a <;> first | exact h | cases ha

theorem isAdmitted_of_nested (h : nested a s = true) (hs : s.isAdmitted = true) : a.isAdmitted = true := by
  cases a <;> cases s <;> first | rfl | (cases h; done) | cases hs

theorem nested_ready (h : nested a .blocked = true) : nested a .ready = true := by
  cases a <;> first | rfl | cases h

theorem nested_cancelState (reason : String) (h : nested a s = true) : nested a (cancelState reason s) = true := by
  cases a <;> cases s <;> first | rfl | cases h

theorem nested_cancelState_both (reason : String) (h : nested a s = true) :
    nested (cancelState reason a) (cancelState reason s) = true := by
  cases a <;> cases s <;> first | rfl | cases h

theorem Nests.congr (h : Nests t) (hs : SameBy view t t') : Nests t' := by
  intro j y k x hj hp hk
  obtain ⟨y', hy', hyy⟩ := hs.symm.of_some hj
  obtain ⟨x', hx', hxx⟩ := hs.symm.of_some hk
  simp only [view, Prod.mk.injEq] at hyy hxx
  rw [← hyy.2.2, ← hxx.2.2]
  exact h j y' k x' hy' (by rw [hyy.1, hp]) hx'

theorem Nests.resolve (h : Nests t) (hdoomed : ∀ (k : TaskId) (x : Task) (j : TaskId) (y : Task),
    t[k]? = some x → x.state = .blocked → Doomed t k → t[j]? = some y → y.spec.parent = some k →
    y.state.isTerminal = false → Doomed t j) : Nests (resolveBlocked t) := by
  have hres := resolveBlocked_resolves t
  intro j y' k x' hj hp hk
  obtain ⟨y, hy, hycase⟩ := hres.of_some hj
  obtain ⟨x, hx, hxcase⟩ := hres.of_some hk
  have hpar : y.spec.parent = some k := by
    rcases hycase with ⟨-, rfl⟩ | ⟨-, s, rfl, -⟩
    · exact hp
    · exact hp
  have hnest := h j y k x hy hpar hx
  have hchild : nested x.state y'.state = true := by
    rcases hycase with ⟨-, rfl⟩ | ⟨hyb, s, rfl, hs⟩
    · exact hnest
    · rw [hyb] at hnest
      rcases hs with rfl | rfl | ⟨e, rfl⟩
      · exact hnest
      · exact nested_ready hnest
      · exact nested_of_isTerminal _ rfl
  rcases hxcase with ⟨-, rfl⟩ | ⟨hxb, s, rfl, hs⟩
  · exact hchild
  · rcases hs with rfl | rfl | ⟨e, rfl⟩
    · rw [hxb] at hchild
      exact hchild
    · rw [hxb] at hchild
      exact hchild
    · by_cases hopen : y.state.isTerminal = true
      · rcases hycase with ⟨-, rfl⟩ | ⟨hyb, -⟩
        · exact hopen
        · rw [hyb] at hopen
          cases hopen
      · have hk' : Doomed t k := (resolveBlocked_bad t k).1 (badIn_iff.2 ⟨_, hk, rfl, rfl⟩)
        have hj' := hdoomed k x j y hx hxb hk' hy hpar (Bool.not_eq_true _ ▸ hopen)
        obtain ⟨z, hz, hterm, -⟩ := badIn_iff.1 ((resolveBlocked_bad t j).2 hj')
        rw [hj] at hz
        cases hz
        exact hterm

/-! ## What a command ends without success -/

def strikes (d : TaskDag) (c : Command) (k : TaskId) : Prop :=
  match c with
  | .completeTask _ task completion _ _ _ => k = task ∧ completion ≠ .succeeded
  | .requestCancel _ task _ => d.isAncestorOrSelf task k = true ∧
      ∃ x, d.tasks[k]? = some x ∧ (x.state = .blocked ∨ x.state = .ready)
  | _ => False

/-- The tasks a command ends without success, by itself or through their dependencies. -/
inductive DoomedBy (d : TaskDag) (c : Command) : TaskId → Prop
  | struck (k : TaskId) : strikes d c k → DoomedBy d c k
  | dep (k e : TaskId) (x : Task) : d.tasks[k]? = some x → x.state = .blocked → e ∈ x.spec.dependencies →
      DoomedBy d c e → DoomedBy d c k

/-- The command skips a blocked task and leaves a direct child of it open. -/
def Orphans (d : TaskDag) (c : Command) : Prop :=
  ∃ (k : TaskId) (x : Task) (j : TaskId) (y : Task), d.tasks[k]? = some x ∧ x.state = .blocked ∧ DoomedBy d c k ∧
    d.tasks[j]? = some y ∧ y.spec.parent = some k ∧ y.state.isTerminal = false ∧ ¬ DoomedBy d c j

variable {x : Task}

theorem Settled.not_badIn (h : Settled t) (hk : t[k]? = some x)
    (hb : x.state = .blocked) (he : e ∈ x.spec.dependencies) : badIn t e = false :=
  (initialState_eq_blocked.1 (h k x hk hb)).1 e he

theorem not_badIn_of_blocked (hk : t[k]? = some x) (hb : x.state = .blocked) : badIn t k = false := by
  unfold badIn
  rw [hk]
  simp [hb, TaskState.isTerminal]

theorem cancelTasks_get (d : TaskDag) (task : TaskId) (reason : String) (k : TaskId) :
    (d.cancelTasks task reason)[k]? = (d.tasks[k]?).map
      (fun t => if d.isAncestorOrSelf task k then { t with state := cancelState reason t.state } else t) := by
  unfold cancelTasks
  rw [Table.get_map]

theorem doomed_cancelTasks {d : TaskDag} (hset : Settled d.tasks) {actor : Actor} {task : TaskId} {reason : String}
    {k : TaskId} (h : Doomed (d.cancelTasks task reason) k) :
    badIn d.tasks k = true ∨ DoomedBy d (.requestCancel actor task reason) k := by
  induction h with
  | bad k hb =>
    obtain ⟨x', hx', hterm, hns⟩ := badIn_iff.1 hb
    rw [cancelTasks_get] at hx'
    obtain ⟨x, hx, rfl⟩ := Option.map_eq_some_iff.1 hx'
    by_cases hsub : d.isAncestorOrSelf task k = true
    · rw [if_pos hsub] at hterm hns
      cases hs : x.state with
      | blocked => exact .inr (.struck k ⟨hsub, x, hx, .inl hs⟩)
      | ready => exact .inr (.struck k ⟨hsub, x, hx, .inr hs⟩)
      | running => simp [hs, cancelState, TaskState.isTerminal] at hterm
      | _ => exact .inl (badIn_iff.2 ⟨x, hx, by simpa [hs, cancelState] using hterm,
          by simpa [hs, cancelState] using hns⟩)
    · rw [if_neg hsub] at hterm hns
      exact .inl (badIn_iff.2 ⟨x, hx, hterm, hns⟩)
  | dep k e x' hx' hb he _ ih =>
    rw [cancelTasks_get] at hx'
    obtain ⟨x, hx, rfl⟩ := Option.map_eq_some_iff.1 hx'
    by_cases hsub : d.isAncestorOrSelf task k = true
    · rw [if_pos hsub] at hb
      cases hs : x.state <;> simp [hs, cancelState] at hb
    · rw [if_neg hsub] at hb he
      rcases ih with ih | ih
      · rw [hset.not_badIn hx hb he] at ih
        cases ih
      · exact .inr (.dep k e x hx hb he ih)

variable {actor : Actor} {task : TaskId}

theorem DoomedBy.cancelTasks {reason : String}
    (h : DoomedBy d (.requestCancel actor task reason) k) : Doomed (d.cancelTasks task reason) k := by
  have hbad : ∀ (k : TaskId) (x : Task), d.isAncestorOrSelf task k = true → d.tasks[k]? = some x →
      (x.state = .blocked ∨ x.state = .ready) → Doomed (d.cancelTasks task reason) k := by
    intro k x hsub hx hs
    refine .bad k (badIn_iff.2 ⟨{ x with state := .cancelled reason }, ?_, rfl, rfl⟩)
    rw [cancelTasks_get, hx, Option.map_some, if_pos hsub]
    rcases hs with hs | hs <;> rw [hs] <;> rfl
  induction h with
  | struck k hs =>
    obtain ⟨hsub, x, hx, hs⟩ := hs
    exact hbad k x hsub hx hs
  | dep k e x hx hb he _ ih =>
    by_cases hsub : d.isAncestorOrSelf task k = true
    · exact hbad k x hsub hx (.inl hb)
    · exact .dep k e x (by rw [cancelTasks_get, hx, Option.map_some, if_neg hsub]) hb he ih

variable {completion : Completion}

theorem doomed_completed (hset : Settled d.tasks) {digest code detail : Option String} (hterm : s.isTerminal = true)
    (hsucc : s.isSucceeded = true ↔ completion = .succeeded) (h : Doomed (d.tasks.insert task { x with state := s }) k)
    : badIn d.tasks k = true ∨ DoomedBy d (.completeTask actor task completion digest code detail) k := by
  induction h with
  | bad k hb =>
    obtain ⟨x', hx', ht, hns⟩ := badIn_iff.1 hb
    rcases Table.insert_eq_some hx' with ⟨rfl, rfl⟩ | ⟨-, hx'⟩
    · refine .inr (.struck task ⟨rfl, fun hc => ?_⟩)
      rw [show s.isSucceeded = false from hns] at hsucc
      exact absurd (hsucc.2 hc) (by simp)
    · exact .inl (badIn_iff.2 ⟨x', hx', ht, hns⟩)
  | dep k e x' hx' hb he _ ih =>
    rcases Table.insert_eq_some hx' with ⟨rfl, rfl⟩ | ⟨-, hx'⟩
    · rw [show s = .blocked from hb] at hterm
      cases hterm
    · rcases ih with ih | ih
      · rw [hset.not_badIn hx' hb he] at ih
        cases ih
      · exact .inr (.dep k e x' hx' hb he ih)

theorem DoomedBy.completed {digest code detail : Option String} (hok : CompleteOk d task x)
    (hterm : s.isTerminal = true) (hsucc : s.isSucceeded = true ↔ completion = .succeeded)
    (h : DoomedBy d (.completeTask actor task completion digest code detail) k) :
    Doomed (d.tasks.insert task { x with state := s }) k := by
  induction h with
  | struck k hs =>
    obtain ⟨rfl, hc⟩ := hs
    refine .bad k (badIn_iff.2 ⟨{ x with state := s }, by rw [Table.get_insert, if_pos rfl], hterm, ?_⟩)
    exact Bool.not_eq_true _ ▸ fun hs => hc (hsucc.1 hs)
  | dep k e y hy hb he _ ih =>
    refine .dep k e y ?_ hb he ih
    rw [Table.get_insert, if_neg]
    · exact hy
    · rintro rfl
      have hadm := hok.admitted
      rw [hok.found] at hy
      cases hy
      rw [hb] at hadm
      cases hadm

/-! ## Steps keep the nesting -/

theorem CompleteOk.child_terminal (h : CompleteOk d task x) {j : TaskId} (hj : d.tasks[j]? = some y)
    (hp : y.spec.parent = some task) : y.state.isTerminal = true := by
  have hno := h.noOpenChild
  have hone := List.any_eq_false.1 hno y ((Table.mem_vals _ y).2 ⟨j, hj⟩)
  simpa [hp] using hone

theorem initialState_not_admitted (t : Tasks) (ds : List TaskId) : (initialState t ds).isAdmitted = false := by
  rcases initialState_cases t ds with ⟨e, -, hs, -⟩ | ⟨hs, -⟩ | ⟨hs, -, -⟩ <;> rw [hs] <;> rfl

theorem Nests.create (h : Nests d.tasks) (hshape : Shape d.config d.tasks)
    (hok : CreateOk d spec) (hs : SameBy view d.tasks t) : Nests (t.insert spec.id (d.newTask spec)) := by
  intro j y k x hj hp hk
  rcases Table.insert_eq_some hk with ⟨rfl, rfl⟩ | ⟨-, hk⟩
  · -- nothing is a child of the new task
    exfalso
    rcases Table.insert_eq_some hj with ⟨rfl, rfl⟩ | ⟨-, hj⟩
    · obtain ⟨z, hz, -⟩ := hok.parent spec.id hp
      rw [hok.fresh] at hz
      cases hz
    · obtain ⟨y', hy', hyy⟩ := hs.symm.of_some hj
      simp only [view, Prod.mk.injEq] at hyy
      obtain ⟨z, hz, -⟩ := hshape.parent j y' spec.id hy' (by rw [hyy.1, hp])
      rw [hok.fresh] at hz
      cases hz
  · rcases Table.insert_eq_some hj with ⟨rfl, rfl⟩ | ⟨-, hj⟩
    · obtain ⟨z, hz, hopen, hcanc, -⟩ := hok.parent k hp
      obtain ⟨_, hz', hzz⟩ := hs.of_some hz
      rw [hk] at hz'
      cases hz'
      simp only [view, Prod.mk.injEq] at hzz
      have hnew : (d.newTask spec).state.isAdmitted = false := initialState_not_admitted _ _
      rw [hzz.2.2]
      cases hzs : z.state with
      | running => rfl
      | blocked => simp [nested, hnew]
      | ready => simp [nested, hnew]
      | cancelling r => cases hcanc r hzs
      | _ =>
        rw [hzs] at hopen
        cases hopen
    · exact h.congr hs j y k x hj hp hk

theorem Nests.start {d : TaskDag} {task : TaskId} {x : Task} (h : Nests d.tasks)
    (hparent : ∀ p, x.spec.parent = some p → ∃ y, d.tasks[p]? = some y ∧ y.state = .running) :
    Nests (d.tasks.insert task { x with state := .running }) := by
  intro j y k z hj hp hk
  rcases Table.insert_eq_some hk with ⟨rfl, rfl⟩ | ⟨-, hk⟩
  · rfl
  · rcases Table.insert_eq_some hj with ⟨rfl, rfl⟩ | ⟨-, hj⟩
    · obtain ⟨w, hw, hrun⟩ := hparent k hp
      rw [hk] at hw
      cases hw
      rw [hrun]
      rfl
    · exact h j y k z hj hp hk

theorem Nests.cancelTasks (h : Nests d.tasks) (hshape : Shape d.config d.tasks) (task : TaskId)
    (reason : String) : Nests (d.cancelTasks task reason) := by
  intro j y' k x' hj hp hk
  rw [cancelTasks_get] at hj hk
  obtain ⟨y, hy, rfl⟩ := Option.map_eq_some_iff.1 hj
  obtain ⟨x, hx, rfl⟩ := Option.map_eq_some_iff.1 hk
  have hpar : y.spec.parent = some k := by
    by_cases hsub : d.isAncestorOrSelf task j = true
    · rw [if_pos hsub] at hp
      exact hp
    · rw [if_neg hsub] at hp
      exact hp
  have hnest := h j y k x hy hpar hx
  by_cases hsub : d.isAncestorOrSelf task k = true
  · rw [if_pos hsub, if_pos (hshape.isAncestorOrSelf_child hy hpar hsub)]
    exact nested_cancelState_both reason hnest
  · rw [if_neg hsub]
    by_cases hsubj : d.isAncestorOrSelf task j = true
    · rw [if_pos hsubj]
      exact nested_cancelState reason hnest
    · rw [if_neg hsubj]
      exact hnest

theorem Nests.complete (h : Nests d.tasks)
    (hok : CompleteOk d task x) (hterm : s.isTerminal = true) : Nests (d.tasks.insert task { x with state := s }) := by
  intro j y k z hj hp hk
  rcases Table.insert_eq_some hj with ⟨rfl, rfl⟩ | ⟨-, hj⟩
  · exact nested_of_isTerminal _ hterm
  · rcases Table.insert_eq_some hk with ⟨rfl, rfl⟩ | ⟨-, hk⟩
    · exact nested_of_isTerminal _ (hok.child_terminal hj hp)
    · exact h j y k z hj hp hk

theorem isTerminal_cancelState {reason : String} (h : (cancelState reason s).isTerminal = false) :
    s.isTerminal = false := by
  cases s <;> first | rfl | exact h

/-- **A command that leaves no orphan keeps the nesting.** -/
theorem nests_step (hshape : Shape d.config d.tasks) (h : Nests d.tasks)
    (hno : ¬ Orphans d c) (hs : StateStep d c t) : Nests t := by
  cases hs with
  | same c t hs => exact h.congr hs
  | created actor _ t hok hs => exact h.create hshape hok hs
  | started actor task x _ _ hparent => exact h.start hparent
  | cancelled actor task reason hok =>
    refine (h.cancelTasks hshape task reason).resolve (fun k x' j y' hk hb hd hj hp hopen => ?_)
    rw [cancelTasks_get] at hk hj
    obtain ⟨x, hx, rfl⟩ := Option.map_eq_some_iff.1 hk
    obtain ⟨y, hy, rfl⟩ := Option.map_eq_some_iff.1 hj
    have hxb : x.state = .blocked := by
      by_cases hsub : d.isAncestorOrSelf task k = true
      · rw [if_pos hsub] at hb
        cases hs : x.state <;> simp [hs, cancelState] at hb
      · rw [if_neg hsub] at hb
        exact hb
    have hy' : y.spec.parent = some k ∧ y.state.isTerminal = false := by
      by_cases hsub : d.isAncestorOrSelf task j = true
      · rw [if_pos hsub] at hp hopen
        exact ⟨hp, isTerminal_cancelState hopen⟩
      · rw [if_neg hsub] at hp hopen
        exact ⟨hp, hopen⟩
    rcases @doomed_cancelTasks d hshape.settled actor _ _ _ hd with hbad | hd
    · rw [not_badIn_of_blocked hx hxb] at hbad
      cases hbad
    · by_contra hj
      exact hno ⟨k, x, j, y, hx, hxb, hd, hy, hy'.1, hy'.2, fun hdj => hj hdj.cancelTasks⟩
  | completed actor task _ _ _ _ x s hok hterm hsucc =>
    refine (h.complete hok hterm).resolve (fun k z j y hk hb hd hj hp hopen => ?_)
    rcases Table.insert_eq_some hk with ⟨rfl, rfl⟩ | ⟨-, hk⟩
    · rw [show s = .blocked from hb] at hterm
      cases hterm
    · rcases Table.insert_eq_some hj with ⟨rfl, rfl⟩ | ⟨-, hj⟩
      · rw [show s.isTerminal = false from hopen] at hterm
        cases hterm
      · rcases doomed_completed hshape.settled hterm hsucc hd with hbad | hd
        · rw [not_badIn_of_blocked hk hb] at hbad
          cases hbad
        · by_contra hdj
          exact hno ⟨k, z, j, y, hk, hb, hd, hj, hp, hopen, fun h' => hdj (h'.completed hok hterm hsucc)⟩

/-! ## Runs -/

variable {H : Digests}

theorem Reaches.shape {allowed : TaskDag → Command → Prop} (h : Reaches H allowed config d) : Shape d.config d.tasks :=
  Reaches.invariant (P := fun c t _ => Shape c t) (shape_new config)
    (fun _ _ _ _ hd hs => step_config hs ▸ shape_step hd (stateStep_of hd hs)) h

theorem Reaches.nests (h : Reaches H (fun d c => ¬ Orphans d c) config d) : Nests d.tasks := by
  have hinv : Shape d.config d.tasks ∧ Nests d.tasks :=
    Reaches.invariant (P := fun c t _ => Shape c t ∧ Nests t)
      ⟨shape_new config, fun j y k x hj => by rw [Std.ExtTreeMap.getElem?_empty] at hj; cases hj⟩
      (fun _ _ _ hno hd hs => ⟨step_config hs ▸ shape_step hd.1 (stateStep_of hd.1 hs),
        nests_step hd.1 hd.2 hno (stateStep_of hd.1 hs)⟩) h
  exact hinv.2

/-- `j` is a direct child of `k`. -/
def ChildOf (t : Tasks) (j k : TaskId) : Prop := ∃ y, t[j]? = some y ∧ y.spec.parent = some k

def Descends (t : Tasks) : TaskId → TaskId → Prop := Relation.TransGen (ChildOf t)

/-- A terminal task has no open descendant, every ancestor of an admitted task is admitted, and a task that has not
started has a parent that may still run. -/
structure HierarchyClosed (t : Tasks) : Prop where
  terminal : ∀ (j k : TaskId) (x y : Task), Descends t j k → t[k]? = some x → x.state.isTerminal = true →
    t[j]? = some y → y.state.isTerminal = true
  admitted : ∀ (j k : TaskId) (y : Task), Descends t j k → t[j]? = some y → y.state.isAdmitted = true →
    ∃ x, t[k]? = some x ∧ x.state.isAdmitted = true
  unstarted : ∀ (j k : TaskId) (x y : Task), ChildOf t j k → t[j]? = some y → y.state = .blocked ∨ y.state = .ready →
    t[k]? = some x → x.state = .blocked ∨ x.state = .ready ∨ x.state = .running

theorem Nests.closed (h : Nests t) (hshape : Shape config t) : HierarchyClosed t := by
  refine ⟨fun j k x y hd hk ht hj => ?_, fun j k y hd hj ha => ?_, fun j k x y hd hj hy hk => ?_⟩
  · induction hd generalizing x with
    | single hc =>
      obtain ⟨y', hy', hp⟩ := hc
      rw [hj] at hy'
      cases hy'
      exact isTerminal_of_nested (h j y _ x hj hp hk) ht
    | tail _ hc ih =>
      obtain ⟨z, hz, hp⟩ := hc
      exact ih z hz (isTerminal_of_nested (h _ z _ x hz hp hk) ht)
  · induction hd with
    | single hc =>
      obtain ⟨y', hy', hp⟩ := hc
      rw [hj] at hy'
      cases hy'
      obtain ⟨x, hx, -⟩ := hshape.parent j y _ hj hp
      exact ⟨x, hx, isAdmitted_of_nested (h j y _ x hj hp hx) ha⟩
    | tail _ hc ih =>
      obtain ⟨z, hz, hza⟩ := ih
      obtain ⟨_, hz', hp⟩ := hc
      rw [hz] at hz'
      cases hz'
      obtain ⟨x, hx, -⟩ := hshape.parent _ z _ hz hp
      exact ⟨x, hx, isAdmitted_of_nested (h _ z _ x hz hp hx) hza⟩
  · obtain ⟨y', hy', hp⟩ := hd
    rw [hj] at hy'
    cases hy'
    have hn := h j y k x hj hp hk
    cases hx : x.state with
    | blocked => exact .inl rfl
    | ready => exact .inr (.inl rfl)
    | running => exact .inr (.inr rfl)
    | _ => rcases hy with hy | hy <;> rw [hx, hy] at hn <;> cases hn

/-- **The hierarchy stays closed** in every run in which no command skips a blocked task and leaves a child of it
open. -/
theorem hierarchy_closed {H : Digests} {config : Config} {d : TaskDag}
    (h : Reaches H (fun d c => ¬ Orphans d c) config d) : HierarchyClosed d.tasks := h.nests.closed h.shape

theorem not_orphans (h : ∀ k, ¬ strikes d c k) : ¬ Orphans d c := by
  have hnone : ∀ k, ¬ DoomedBy d c k := by
    intro k hk
    induction hk with
    | struck k hs => exact h k hs
    | dep k e x _ _ _ _ ih => exact ih
  rintro ⟨k, x, j, y, -, -, hk, -⟩
  exact hnone k hk

def startedFamily : List Command :=
  [sampleTask 1 none [] 3, sampleTask 2 (some 1) [] 1, .startTask .controller 1, .startTask .controller 2]

theorem hierarchy_closed_startedFamily : ∃ d, Reaches sampleDigests (fun d c => ¬ Orphans d c) sampleConfig d ∧
    (d.tasks[(2 : TaskId)]?).map Task.state = some .running ∧ HierarchyClosed d.tasks := by
  obtain ⟨d, hd, hstate⟩ : ∃ d, runAll sampleDigests sampleConfig startedFamily = some d ∧
      (d.tasks[(2 : TaskId)]?).map Task.state = some .running :=
    Option.map_eq_some_iff.1 (by rfl : (runAll sampleDigests sampleConfig startedFamily).map
      (fun d => (d.tasks[(2 : TaskId)]?).map Task.state) = some (some .running))
  have hreach : Reaches sampleDigests (fun d c => ¬ Orphans d c) sampleConfig d := by
    refine Reaches.of_runAll (fun c hc d => not_orphans (fun k hk => ?_)) hd
    simp only [startedFamily, sampleTask, List.mem_cons, List.not_mem_nil, or_false] at hc
    rcases hc with rfl | rfl | rfl | rfl <;> exact hk
  exact ⟨d, hreach, hstate, hierarchy_closed hreach⟩

/-- Task 3 waits under task 2, which waits for task 1; task 1 fails. -/
def orphaningRun : List Command :=
  [sampleTask 1 none [] 3, sampleTask 2 none [1] 3, sampleTask 3 (some 2) [] 1, .startTask .controller 1,
    .completeTask .controller 1 .failed none (some "exit") none]

theorem not_hierarchyClosed_orphaned : ∃ d, Reachable sampleDigests sampleConfig d ∧ ¬ HierarchyClosed d.tasks := by
  obtain ⟨d, hd, hstate⟩ : ∃ d, runAll sampleDigests sampleConfig orphaningRun = some d ∧
      ((d.tasks[(2 : TaskId)]?).map Task.state, (d.tasks[(3 : TaskId)]?).map (fun x => (x.spec.parent, x.state))) =
        (some (.skippedDependency 1), some (some 2, .ready)) :=
    Option.map_eq_some_iff.1 (by rfl : (runAll sampleDigests sampleConfig orphaningRun).map
      (fun d => ((d.tasks[(2 : TaskId)]?).map Task.state,
        (d.tasks[(3 : TaskId)]?).map (fun x => (x.spec.parent, x.state)))) =
      some (some (.skippedDependency 1), some (some 2, .ready)))
  obtain ⟨htwo, hthree⟩ := Prod.mk.inj hstate
  obtain ⟨x, hx, hxs⟩ := Option.map_eq_some_iff.1 htwo
  obtain ⟨y, hy, hys⟩ := Option.map_eq_some_iff.1 hthree
  obtain ⟨hp, hys⟩ := Prod.mk.inj hys
  refine ⟨d, reachable_of_runAll hd, fun hclosed => ?_⟩
  have hterm := hclosed.terminal 3 2 x y (.single ⟨y, hy, hp⟩) hx (by rw [hxs]; rfl) hy
  rw [hys] at hterm
  cases hterm

end TaskDag
end Iteron.Dag
