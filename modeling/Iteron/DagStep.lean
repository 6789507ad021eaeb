import Iteron.DagResolve
/-!
# DagStep — everything an accepted command does

`TaskStep` lists what each accepted command does to the task table, with what its validation established of the graph
before it.  Invariants of runs are proved against this list; nothing after this module unfolds a validation again.
-/
namespace Iteron.Dag
namespace TaskDag

open Machine Refuse

@[simp] theorem orElseError_eq_ok {α : Type} {x : Option α} {e : DagError} {a : α} :
    orElseError x e = .ok a ↔ x = some a := by
  cases x <;> simp [orElseError]

@[simp] theorem requireTask_eq_ok {d : TaskDag} {id : TaskId} {t : Task} :
    d.requireTask id = .ok t ↔ d.tasks[id]? = some t := by
  exact orElseError_eq_ok

/-! ## Creation -/

structure CreateOk (d : TaskDag) (spec : TaskSpec) : Prop where
  fresh : d.tasks[spec.id]? = none
  parent : ∀ p, spec.parent = some p → ∃ x, d.tasks[p]? = some x ∧ x.state.isTerminal = false ∧
    (∀ reason, x.state ≠ .cancelling reason) ∧ x.hierarchyDepth + 1 ≤ d.config.limits.maxHierarchyDepth ∧
    budgetFits x.spec.budget x.usage x.childReservations spec.budget.reservable = .ok ()
  root : spec.parent = none → budgetFits d.config.budget {} d.rootReservations spec.budget.reservable = .ok ()
  dependencies : ∀ e ∈ spec.dependencies, ∃ y, d.tasks[e]? = some y

variable {d : TaskDag} {actor : Actor}

theorem reservationOwner_ok {parent : Option TaskId}
    {r : Nat × TaskBudget × BudgetUsage × BudgetReservation} (h : d.reservationOwner actor parent = .ok r) :
    (∃ p x, parent = some p ∧ d.tasks[p]? = some x ∧ x.state.isTerminal = false ∧ (∀ reason, x.state ≠ .cancelling reason) ∧
      r = (x.hierarchyDepth + 1, x.spec.budget, x.usage, x.childReservations)) ∨
    (parent = none ∧ r = (0, d.config.budget, {}, d.rootReservations)) := by
  cases parent with
  | none =>
    simp only [reservationOwner, bind_eq_ok, pure_eq_ok] at h
    obtain ⟨_, -, rfl⟩ := h
    exact .inr ⟨rfl, rfl⟩
  | some p =>
    simp only [reservationOwner, bind_eq_ok, pure_eq_ok, requireTask_eq_ok, refuseIf_eq_ok] at h
    obtain ⟨x, hx, _, hopen, _, -, rfl⟩ := h
    refine .inl ⟨p, x, rfl, hx, ?_, fun reason hc => ?_, rfl⟩
    · simpa using fun ht => hopen (.inl ht)
    · exact hopen (.inr (by rw [hc]))

variable {spec : TaskSpec}

theorem mem_dependencySet {e : TaskId} : e ∈ dependencySet spec ↔ e ∈ spec.dependencies := by
  unfold dependencySet
  rw [Std.ExtTreeSet.mem_toList, Std.ExtTreeSet.mem_ofList, List.contains_iff_mem]

theorem validateCreate_ok (h : d.validateCreate actor spec = .ok ()) : CreateOk d spec := by
  simp only [validateCreate, bind_eq_ok, refuseIf_eq_ok, orElseError_eq_ok] at h
  obtain ⟨_, -, _, hfresh, _, -, _, -, _, -, _, -, _, -, _, -, _, -, ⟨_, _, _, _⟩, howner, _, _,
    _, hfits, _, -, _, -, _, hdeps, -⟩ := h
  have hget : d.tasks[spec.id]? = none := (Table.contains_eq_false _ _).1 (Bool.not_eq_true _ ▸ hfresh)
  have hexists : ∀ e ∈ spec.dependencies, ∃ y, d.tasks[e]? = some y := by
    intro e he
    have hone := forM_ok hdeps e (mem_dependencySet.2 he)
    simp only [validateDependency, bind_eq_ok, requireTask_eq_ok] at hone
    obtain ⟨_, -, y, hy, -⟩ := hone
    exact ⟨y, hy⟩
  rcases reservationOwner_ok howner with ⟨p, x, hp, hx, hterm, hcanc, heq⟩ | ⟨hp, heq⟩
  · cases heq
    refine ⟨hget, fun q hq => ?_, fun hn => absurd (hp.symm.trans hn) (by simp), hexists⟩
    rw [hp] at hq
    cases hq
    exact ⟨x, hx, hterm, hcanc, by omega, hfits⟩
  · cases heq
    exact ⟨hget, fun q hq => absurd (hp.symm.trans hq) (by simp), fun _ => hfits, hexists⟩

/-! ## The list -/

structure CompleteOk (d : TaskDag) (task : TaskId) (x : Task) : Prop where
  found : d.tasks[task]? = some x
  admitted : x.state.isAdmitted = true
  noOpenChild : d.hasOpenChild task = false

structure CancelOk (d : TaskDag) (task : TaskId) (reason : String) : Prop where
  found : ∃ x, d.tasks[task]? = some x ∧ x.state.isTerminal = false ∧ ∀ r, x.state ≠ .cancelling r
  visible : validateVisible reason maxReasonBytes "cancel reason" = .ok ()

def cancelTasks (d : TaskDag) (task : TaskId) (reason : String) : Tasks :=
  d.tasks.map (fun id t => if d.isAncestorOrSelf task id then { t with state := cancelState reason t.state } else t)

/-- **Everything an accepted command does to the tasks and the root reservation.** -/
inductive TaskStep (d : TaskDag) : Command → TaskDag → Prop
  | root (actor : Actor) (spec : TaskSpec) (reserved : BudgetReservation) (edges : Nat) : CreateOk d spec →
      spec.parent = none → d.rootReservations.checkedAdd spec.budget.reservable = some reserved →
      TaskStep d (.createTask actor spec)
        { d with tasks := resolveBlocked (d.tasks.insert spec.id (d.newTask spec)), edgeCount := edges,
                 rootReservations := reserved }
  | child (actor : Actor) (spec : TaskSpec) (p : TaskId) (x : Task) (reserved : BudgetReservation) (edges : Nat) :
      CreateOk d spec → spec.parent = some p → d.tasks[p]? = some x →
      x.childReservations.checkedAdd spec.budget.reservable = some reserved →
      TaskStep d (.createTask actor spec)
        { d with
          tasks := resolveBlocked
            ((d.tasks.insert p { x with childReservations := reserved }).insert spec.id (d.newTask spec))
          edgeCount := edges }
  | started (actor : Actor) (task : TaskId) (x : Task) : d.tasks[task]? = some x → x.state = .ready →
      (∀ p, x.spec.parent = some p → ∃ y, d.tasks[p]? = some y ∧ y.state = .running) →
      TaskStep d (.startTask actor task) { d with tasks := d.tasks.insert task { x with state := .running } }
  | charged (actor : Actor) (task : TaskId) (delta usage : BudgetUsage) (x : Task) : d.tasks[task]? = some x →
      x.usage.checkedAdd delta = some usage →
      budgetFits x.spec.budget usage x.childReservations {} = .ok () →
      TaskStep d (.chargeBudget actor task delta) { d with tasks := d.tasks.insert task { x with usage := usage } }
  | messaged (actor : Actor) (message : TaskMessage) (x : Task) : d.tasks[message.recipient]? = some x →
      TaskStep d (.sendMessage actor message)
        { d with tasks := d.tasks.insert message.recipient { x with inbox := x.inbox ++ [message.id] },
                 messages := d.messages.insert message.id message }
  | cancelled (actor : Actor) (task : TaskId) (reason : String) : CancelOk d task reason →
      TaskStep d (.requestCancel actor task reason) { d with tasks := resolveBlocked (d.cancelTasks task reason) }
  | completed (actor : Actor) (task : TaskId) (completion : Completion) (digest code detail : Option String) (x : Task)
      (state : TaskState) : CompleteOk d task x → state.isTerminal = true →
      (state.isSucceeded = true ↔ completion = .succeeded) →
      TaskStep d (.completeTask actor task completion digest code detail)
        { d with tasks := resolveBlocked (d.tasks.insert task { x with state := state }) }
  /-- The commands of attempts, messages and joins that touch no task. -/
  | elsewhere (c : Command) (d' : TaskDag) : d'.tasks = d.tasks → d'.config = d.config →
      d'.rootReservations = d.rootReservations →
      (∀ actor task reason, c ≠ .requestCancel actor task reason) →
      (∀ actor task completion digest code detail, c ≠ .completeTask actor task completion digest code detail) →
      TaskStep d c d'

/-! ## What steps keep -/

section SameBy

variable {γ : Type} {f : Task → γ}

/-- The same tasks, up to what `f` does not see. -/
def SameBy (f : Task → γ) (t t' : Tasks) : Prop := ∀ k : TaskId, (t'[k]?).map f = (t[k]?).map f

variable {t t' : Tasks}

theorem SameBy.trans {t'' : Tasks} (h : SameBy f t t') (h' : SameBy f t' t'') : SameBy f t t'' := fun k =>
  (h' k).trans (h k)

theorem SameBy.symm (h : SameBy f t t') : SameBy f t' t := fun k => (h k).symm

variable {k : TaskId}

theorem SameBy.of_some (h : SameBy f t t') {x : Task} (hk : t[k]? = some x) : ∃ y, t'[k]? = some y ∧ f y = f x := by
  have hs := h k
  rw [hk, Option.map_some] at hs
  exact Option.map_eq_some_iff.1 hs

theorem SameBy.map {δ : Type} (h : SameBy f t t') (g : γ → δ) : SameBy (fun x => g (f x)) t t' := by
  intro k
  have hs := congrArg (fun a => a.map g) (h k)
  simpa only [Option.map_map, Function.comp_def] using hs

theorem SameBy.any (h : SameBy f t t') (p : γ → Bool) (k : TaskId) :
    (t'[k]?).any (fun x => p (f x)) = (t[k]?).any (fun x => p (f x)) := by
  have hs := congrArg (fun a => a.any p) (h k)
  simpa only [Option.any_map, Function.comp_def] using hs

theorem SameBy.insert {x : Task} (hk : t[k]? = some x) (y : Task) (h : f y = f x) : SameBy f t (t.insert k y) := by
  intro j
  rw [Table.get_insert]
  by_cases hj : k = j
  · subst hj
    rw [if_pos rfl, hk, Option.map_some, Option.map_some, h]
  · rw [if_neg hj]

theorem SameBy.insert_both (h : SameBy f t t') (k : TaskId) (x : Task) : SameBy f (t.insert k x) (t'.insert k x) := by
  intro j
  rw [Table.get_insert, Table.get_insert]
  by_cases hj : k = j
  · rw [if_pos hj, if_pos hj]
  · rw [if_neg hj, if_neg hj, h j]

variable (hf : ∀ (x : Task) (s : TaskState), f { x with state := s } = f x)

include hf

theorem sameBy_resolveBlocked (t : Tasks) : SameBy f t (resolveBlocked t) := by
  intro k
  cases hk : t[k]? with
  | none => rw [(resolveBlocked_resolves t).none k hk]
  | some x =>
    by_cases hb : x.state = .blocked
    · obtain ⟨s, hs, -⟩ := (resolveBlocked_resolves t).moved k x hk hb
      rw [hs, Option.map_some, hf, Option.map_some]
    · rw [(resolveBlocked_resolves t).kept k x hk hb]

theorem sameBy_cancelTasks (d : TaskDag) (task : TaskId) (reason : String) :
    SameBy f d.tasks (d.cancelTasks task reason) := by
  intro j
  unfold cancelTasks
  rw [Table.get_map, Option.map_map]
  congr 1
  funext x
  split
  · exact hf x _
  · rfl

end SameBy

/-! ## Budgets that fit -/

theorem reservation_checkedAdd {u v r : BudgetReservation} (h : u.checkedAdd v = some r) :
    r.turns = u.turns + v.turns ∧ r.tokens = u.tokens + v.tokens ∧ r.costMicrousd = u.costMicrousd + v.costMicrousd := by
  simp only [BudgetReservation.checkedAdd, Option.bind_eq_bind, Option.bind_eq_some_iff, Option.pure_def,
    Option.some.injEq] at h
  obtain ⟨_, h1, _, h2, _, h3, rfl⟩ := h
  exact ⟨checkedAdd_eq_some h1, checkedAdd_eq_some h2, checkedAdd_eq_some h3⟩

theorem budgetFits_ok {limit : TaskBudget} {usage : BudgetUsage} {reserved requested : BudgetReservation}
    (h : budgetFits limit usage reserved requested = .ok ()) :
    ∃ r, reserved.checkedAdd requested = some r ∧ usage.turns + r.turns ≤ limit.maxTurns.toNat ∧
      usage.tokens + r.tokens ≤ limit.maxTokens ∧ usage.costMicrousd + r.costMicrousd ≤ limit.maxCostMicrousd ∧
      usage.wallMs ≤ limit.maxWallMs := by
  simp only [budgetFits, bind_eq_ok, orElseError_eq_ok, refuseIf_eq_ok] at h
  obtain ⟨r, hr, _, h1, _, _, _, h3, _, _, _, h5, _, _, _⟩ := h
  have e1 := checkedAdd_eq_some h1
  have e2 := checkedAdd_eq_some h3
  have e3 := checkedAdd_eq_some h5
  exact ⟨r, hr, by omega, by omega, by omega, by omega⟩

/-! ## Accepted commands apply -/

theorem create_applies (h : d.validateCreate actor spec = .ok ()) :
    ∃ a, d.applyCreate spec = some a ∧ TaskStep d (.createTask actor spec) a := by
  have hok := validateCreate_ok h
  cases hp : spec.parent with
  | none =>
    obtain ⟨r, hr, -⟩ := budgetFits_ok (hok.root hp)
    refine ⟨_, ?_, .root actor spec r (d.edgeCount + (spec.dependencies.length + spec.parent.isSome.toNat)) hok hp hr⟩
    simp [applyCreate, reserveFromOwner, hp, hr]
  | some p =>
    obtain ⟨x, hx, -, -, -, hfits⟩ := hok.parent p hp
    obtain ⟨r, hr, -⟩ := budgetFits_ok hfits
    refine ⟨_, ?_,
      .child actor spec p x r (d.edgeCount + (spec.dependencies.length + spec.parent.isSome.toNat)) hok hp hx hr⟩
    simp [applyCreate, reserveFromOwner, hp, hx, hr]

variable {task : TaskId}

theorem validateStart_ok (h : d.validateStart actor task = .ok ()) : ∃ x, d.tasks[task]? = some x ∧ x.state = .ready ∧
      ∀ p, x.spec.parent = some p → ∃ y, d.tasks[p]? = some y ∧ y.state = .running := by
  simp only [validateStart, bind_eq_ok, refuseIf_eq_ok, requireTask_eq_ok, not_not] at h
  obtain ⟨_, -, x, hx, _, hready, hparent⟩ := h
  refine ⟨x, hx, hready, fun p hp => ?_⟩
  rw [hp] at hparent
  simp only [bind_eq_ok, requireTask_eq_ok, refuseIf_eq_ok, not_not] at hparent
  exact hparent

theorem start_applies (h : d.validateStart actor task = .ok ()) :
    ∃ a, d.applyValidated (.startTask actor task) = some a ∧ TaskStep d (.startTask actor task) a := by
  obtain ⟨x, hx, hready, hparent⟩ := validateStart_ok h
  refine ⟨{ d with tasks := d.tasks.insert task { x with state := .running } }, ?_,
    .started actor task x hx hready hparent⟩
  simp [applyValidated, setState, hx]

theorem charge_applies {delta : BudgetUsage} (h : d.validateCharge actor task delta = .ok ()) :
    ∃ a, d.applyValidated (.chargeBudget actor task delta) = some a ∧
      TaskStep d (.chargeBudget actor task delta) a := by
  simp only [validateCharge, bind_eq_ok, refuseIf_eq_ok, requireTask_eq_ok, orElseError_eq_ok] at h
  obtain ⟨_, -, x, hx, _, -, _, -, usage, hu, hfits⟩ := h
  refine ⟨{ d with tasks := d.tasks.insert task { x with usage := usage } }, ?_,
    .charged actor task delta usage x hx hu hfits⟩
  simp [applyValidated, hx, hu]

theorem message_applies {message : TaskMessage} (h : d.validateMessage actor message = .ok ()) :
    ∃ a, d.applyValidated (.sendMessage actor message) = some a ∧ TaskStep d (.sendMessage actor message) a := by
  simp only [validateMessage, bind_eq_ok, requireTask_eq_ok] at h
  obtain ⟨_, -, _, -, _, -, _, -, _, -, x, hx, -⟩ := h
  refine ⟨_, ?_, .messaged actor message x hx⟩
  simp [applyValidated, hx]

theorem cancel_applies {reason : String} (h : d.validateCancel actor task reason = .ok ()) :
    ∃ a, d.applyValidated (.requestCancel actor task reason) = some a ∧
      TaskStep d (.requestCancel actor task reason) a := by
  simp only [validateCancel, bind_eq_ok, refuseIf_eq_ok, requireTask_eq_ok] at h
  obtain ⟨x, hx, _, hopen, _, hvis, -⟩ := h
  refine ⟨_, rfl, .cancelled actor task reason ⟨⟨x, hx, ?_, fun r hr => ?_⟩, hvis⟩⟩
  · simpa using fun ht => hopen (.inl ht)
  · exact hopen (.inr (by rw [hr]))

variable {completion : Completion} {digest code detail : Option String}

theorem taskTerminal_of_ok (current : Option TaskState) (h : validateTerminal completion digest code detail = .ok ()) :
    ∃ s, taskTerminal current completion digest code detail = some s ∧ s.isTerminal = true ∧
      (s.isSucceeded = true ↔ completion = .succeeded) := by
  cases completion with
  | succeeded =>
    simp only [validateTerminal, refuseIf_eq_ok, not_or, Bool.not_eq_false] at h
    cases digest with
    | none => simp at h
    | some v => exact ⟨.succeeded v, rfl, rfl, by simp [TaskState.isSucceeded]⟩
  | failed =>
    simp only [validateTerminal, bind_eq_ok, orElseError_eq_ok] at h
    obtain ⟨c, rfl, -⟩ := h
    exact ⟨.failed c (detail.getD ""), rfl, rfl, by simp [TaskState.isSucceeded]⟩
  | cancelled =>
    simp only [validateTerminal, bind_eq_ok, orElseError_eq_ok] at h
    obtain ⟨_, rfl, -⟩ := h
    simp only [taskTerminal]
    split
    · exact ⟨_, rfl, rfl, by simp [TaskState.isSucceeded]⟩
    · exact ⟨_, rfl, rfl, by simp [TaskState.isSucceeded]⟩

section

variable (h : d.validateCompletion actor task completion digest code detail = .ok ())
include h

theorem validateCompletion_ok : ∃ x, CompleteOk d task x := by
  simp only [validateCompletion, bind_eq_ok, refuseIf_eq_ok, requireTask_eq_ok, Bool.not_eq_false,
    Bool.not_eq_true] at h
  obtain ⟨_, -, x, hx, _, hadm, _, hchild, -⟩ := h
  exact ⟨x, hx, hadm, hchild⟩

theorem complete_applies : ∃ a, d.applyValidated (.completeTask actor task completion digest code detail) = some a ∧
      TaskStep d (.completeTask actor task completion digest code detail) a := by
  obtain ⟨x, hok⟩ := validateCompletion_ok h
  simp only [validateCompletion, bind_eq_ok] at h
  obtain ⟨_, -, _, -, _, -, _, -, _, -, _, -, hterm⟩ := h
  obtain ⟨s, hs, hst, hsucc⟩ := taskTerminal_of_ok (some x.state) hterm
  refine ⟨_, ?_, .completed actor task completion digest code detail x s hok hst hsucc⟩
  simp [applyValidated, hs, setState, hok.found]

end

theorem attempt_applies {attempt : AttemptId} {completion : AttemptCompletion} {disposition : AttemptDisposition}
    (h : d.validateAttemptCompletion actor attempt completion disposition digest code detail = .ok ()) :
    ∃ a s, d.attempts[attempt]? = some a ∧ attemptTerminal completion disposition digest code detail = some s := by
  simp only [validateAttemptCompletion, bind_eq_ok, refuseIf_eq_ok, requireAttempt, orElseError_eq_ok] at h
  obtain ⟨_, -, a, ha, _, -, hrest⟩ := h
  refine ⟨a, ?_⟩
  cases completion with
  | succeeded =>
    cases digest with
    | none => simp at hrest
    | some v => exact ⟨_, ha, rfl⟩
  | failed =>
    simp only [bind_eq_ok, orElseError_eq_ok] at hrest
    obtain ⟨c, rfl, -⟩ := hrest
    exact ⟨_, ha, rfl⟩
  | cancelled =>
    simp only [bind_eq_ok, orElseError_eq_ok] at hrest
    obtain ⟨reason, rfl, -⟩ := hrest
    exact ⟨_, ha, rfl⟩
  | unknownEffect =>
    simp only [bind_eq_ok, orElseError_eq_ok] at hrest
    obtain ⟨reason, rfl, -⟩ := hrest
    exact ⟨_, ha, rfl⟩

variable {H : Digests} {c : Command}

/-- **An accepted command applies**: none of the application's assertions fails, and it does one of the listed things. -/
theorem validated_applies (h : d.validateCommand H c = .ok ()) : ∃ a, d.applyValidated c = some a ∧ TaskStep d c a := by
  cases c with
  | createTask actor _ => exact create_applies h
  | startTask actor task => exact start_applies h
  | chargeBudget actor task _ => exact charge_applies h
  | sendMessage actor message => exact message_applies h
  | requestCancel actor task _ => exact cancel_applies h
  | completeTask actor task completion digest code detail => exact complete_applies h
  | registerAttempt actor attempt =>
    exact ⟨_, rfl, .elsewhere _ _ rfl rfl rfl (by simp) (by simp)⟩
  | registerJoin actor _ => exact ⟨_, rfl, .elsewhere _ _ rfl rfl rfl (by simp) (by simp)⟩
  | startAttempt actor attempt =>
    simp only [validateCommand, validateStartAttempt, bind_eq_ok, requireAttempt, orElseError_eq_ok] at h
    obtain ⟨_, -, a, ha, -⟩ := h
    exact ⟨{ d with attempts := d.attempts.insert attempt { a with state := .running } },
      by simp [applyValidated, setAttemptState, ha], .elsewhere _ _ rfl rfl rfl (by simp) (by simp)⟩
  | completeAttempt actor attempt completion _ digest code detail =>
    obtain ⟨a, s, ha, hs⟩ := attempt_applies h
    exact ⟨{ d with attempts := d.attempts.insert attempt { a with state := s } },
      by simp [applyValidated, setAttemptState, hs, ha], .elsewhere _ _ rfl rfl rfl (by simp) (by simp)⟩
  | acknowledgeMessage actor message =>
    simp only [validateCommand, validateAcknowledge, bind_eq_ok, orElseError_eq_ok] at h
    obtain ⟨m, hm, -⟩ := h
    exact ⟨{ d with messages := d.messages.insert message { m with delivery := .acknowledged } },
      by simp [applyValidated, hm], .elsewhere _ _ rfl rfl rfl (by simp) (by simp)⟩

/-! ## Runs -/

structure PrepareOk (H : Digests) (d : TaskDag) (id : Nat) (c : Command) (entry : LogEntry) : Prop where
  nonzero : id ≠ 0
  shape : d.validateCommandShape c = .ok ()
  fresh : d.commands[id]? = none
  room : d.sequence < d.config.limits.maxEvents
  valid : d.validateCommand H c = .ok ()
  entry : entry = entryOf H d id c

variable {id : Nat}

theorem prepare_new {entry : LogEntry} (h : d.prepare H id c = .ok (.new entry)) : PrepareOk H d id c entry := by
  unfold prepare at h
  by_cases hid : id = 0
  · rw [if_pos hid] at h
    cases h
  · rw [if_neg hid] at h
    cases hshape : d.validateCommandShape c with
    | error e => rw [hshape] at h; cases h
    | ok u =>
      rw [hshape] at h
      cases hget : d.commands[id]? with
      | some _ =>
        rw [hget] at h
        dsimp only at h
        split at h <;> cases h
      | none =>
        rw [hget] at h
        by_cases hroom : d.sequence ≥ d.config.limits.maxEvents
        · rw [if_pos hroom] at h
          cases h
        · rw [if_neg hroom] at h
          cases hvalid : d.validateCommand H c with
          | error e => rw [hvalid] at h; cases h
          | ok u =>
            rw [hvalid] at h
            cases h
            exact ⟨hid, hshape, hget, by omega, hvalid, rfl⟩

/-- An accepted command was known, and changes nothing, or is new and changes the graph as `applyValidated` does. -/
theorem apply_new {d' : TaskDag} {r : ApplyReceipt} (h : d.apply H id c = some (.ok (d', r))) :
    d' = d ∨ (d.validateCommand H c = .ok () ∧ ∃ a, d.applyValidated c = some a ∧ d'.tasks = a.tasks ∧
      d'.attempts = a.attempts ∧ d'.config = a.config ∧ d'.rootReservations = a.rootReservations) := by
  unfold apply at h
  cases hp : d.prepare H id c with
  | error e => rw [hp] at h; cases h
  | ok prepared =>
    rw [hp] at h
    cases prepared with
    | replay _ => cases h; exact .inl rfl
    | new _ =>
      have hok := prepare_new hp
      obtain ⟨_, hd1, hr⟩ := Option.map_eq_some_iff.1 h
      cases hr
      rw [hok.entry] at hd1
      obtain ⟨a, ha, hcommit⟩ := Option.bind_eq_some_iff.1 hd1
      cases hcommit
      exact .inr ⟨hok.valid, a, ha, rfl, rfl, rfl, rfl⟩

theorem apply_step {d' : TaskDag} {r : ApplyReceipt} (h : d.apply H id c = some (.ok (d', r))) :
    d' = d ∨ ∃ a, TaskStep d c a ∧ d'.tasks = a.tasks ∧ d'.config = a.config ∧
      d'.rootReservations = a.rootReservations := by
  rcases apply_new h with rfl | ⟨hvalid, a, ha, htasks, -, hconfig, hroots⟩
  · exact .inl rfl
  · obtain ⟨_, ha', hstep⟩ := validated_applies hvalid
    cases ha.symm.trans ha'
    exact .inr ⟨a, hstep, htasks, hconfig, hroots⟩

theorem step_config {a : TaskDag} (hs : TaskStep d c a) : a.config = d.config := by
  cases hs with
  | elsewhere c a _ hc _ => exact hc
  | _ => rfl

variable {config : Config} {allowed : TaskDag → Command → Prop}

/-- **The invariant rule of runs.** -/
theorem Reaches.invariant {P : Config → Tasks → BudgetReservation → Prop} (hnew : P config ∅ {})
    (hstep : ∀ (d : TaskDag) (c : Command) (a : TaskDag), allowed d c → P d.config d.tasks d.rootReservations → TaskStep d c a → P a.config a.tasks a.rootReservations)
    (h : Reaches H allowed config d) : P d.config d.tasks d.rootReservations := by
  induction h with
  | new d hd =>
    unfold TaskDag.new at hd
    split at hd
    · cases hd
    · cases hd
      exact hnew
  | step d _ _ c r _ hallowed happly ih =>
    rcases apply_step happly with rfl | ⟨a, hs, h1, h2, h3⟩
    · exact ih
    · rw [h1, h2, h3]
      exact hstep d c a hallowed ih hs

/-! ## Runs of given commands -/

/-- Submit the commands in order under increasing ids; `none` when one is refused. -/
def submitAll (H : Digests) : TaskDag → Nat → List Command → Option TaskDag
  | d, _, [] => some d
  | d, id, c :: cs =>
    match d.apply H id c with
    | some (.ok (d', _)) => submitAll H d' (id + 1) cs
    | _ => none

def runAll (H : Digests) (config : Config) (cs : List Command) : Option TaskDag :=
  match TaskDag.new H config with
  | .ok d => submitAll H d 1 cs
  | .error _ => none

theorem Reaches.submitAll {H : Digests} {config : Config} :
    ∀ (cs : List Command) {d d' : TaskDag} {id : Nat}, (∀ c ∈ cs, ∀ d, allowed d c) → Reaches H allowed config d →
    submitAll H d id cs = some d' → Reaches H allowed config d'
  | [], _, _, _, _, hd, h => by
    cases h
    exact hd
  | c :: cs, d, d', id, hall, hd, h => by
    unfold Dag.TaskDag.submitAll at h
    split at h
    · exact Reaches.submitAll cs (fun c hc => hall c (.tail _ hc)) (.step d _ id c _ hd (hall c (.head _) d) ‹_›) h
    · cases h

variable {cs : List Command}

theorem Reaches.of_runAll (hall : ∀ c ∈ cs, ∀ d, allowed d c) (h : runAll H config cs = some d) :
    Reaches H allowed config d := by
  unfold runAll at h
  split at h
  · exact Reaches.submitAll cs hall (.new _ ‹_›) h
  · cases h

theorem reachable_of_runAll (h : runAll H config cs = some d) :
    Reachable H config d := Reaches.of_runAll (fun _ _ _ => trivial) h

/-- Digests for runs in which none is compared with another. -/
def sampleDigests : Digests :=
  { config := fun _ => "", command := fun _ => "", attemptState := fun _ => "", entry := fun _ _ _ _ _ _ _ => "" }

def sampleConfig : Config :=
  { graphId := "graph", limits := {},
    budget := { maxTurns := 10, maxTokens := 100, maxCostMicrousd := 100, maxWallMs := 1000 } }

/-- A creation by the controller with `share` tenths of the sample budget. -/
def sampleTask (id : TaskId) (parent : Option TaskId) (dependencies : List TaskId) (share : UInt32) : Command :=
  .createTask .controller
    { id := id, declarationIndex := none, parent := parent, dependencies := dependencies, label := "task",
      budget := { maxTurns := share, maxTokens := 10 * share.toNat, maxCostMicrousd := 10 * share.toNat,
                  maxWallMs := 100 * share.toNat } }

end TaskDag
end Iteron.Dag
