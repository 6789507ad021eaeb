import Iteron.DagHierarchy
import Iteron.DagLedgerRun
import Iteron.WorkflowReason
/-!
# DagOrphans — what a ledger's log may leave open

The operations of a live ledger journal batches of commands; a crash cuts the log at any command.  Whatever was cut off,
no task of such a log has a parent, waits blocked or is being cancelled, and the task of an open attempt is running
(`Flat`).
-/
namespace Iteron.Dag
namespace ExecutionLedger

open Machine Refuse TaskDag

/-! ## Operations -/

/-- The operations of a live ledger, with the ids its counters hand out. -/
inductive Operation where
  | beginTask (id : TaskId) (index : UInt32) (inputDigest : String) (dependencies : List TaskId) (message : MessageId)
  | beginAttempt (id : AttemptId) (task : TaskId) (retryOrdinal siblingOrdinal : UInt32) (assignment : AttemptAssignment)
      (retryOf : Option AttemptId) (retryCause : Option AttemptRetryCause) (inputDigest : String)
  | recordSpeculativeWinner (task : TaskId) (attempt : AttemptId) (resultDigest : String) (message : MessageId)
  | finishAttempt (task : TaskId) (attempt : AttemptId) (tokens elapsedMs : Nat) (terminal : WorkflowAgent.AttemptTerminal)
  | finishTaskSuccess (task : TaskId) (digest : String)
  | finishTaskFailure (task : TaskId) (code detail : String)

/-- A message the controller sends and acknowledges for the task. -/
def controllerMessage (id : MessageId) (task : TaskId) (kind : MessageKind) (payload : String) : List Command :=
  [.sendMessage .controller
      { id := id, sender := none, recipient := task, kind := kind, payload := payload, delivery := .pending },
    .acknowledgeMessage .controller id]

/-- The evidence a retry cites: the digest of its predecessor's state. -/
def priorEvidence (H : Digests) (d : TaskDag) : Option AttemptId → Except String (Option String)
  | none => .ok none
  | some prior =>
    match d.attempts[prior]? with
    | some a => .ok (some (H.attemptState a.state))
    | none => .error ("retry predecessor attempt " ++ toString prior ++ " does not exist")

/-- The batch an operation journals; the dependencies of a new task are the durable tasks of earlier declarations. -/
def Operation.commands (H : Digests) (budget : TaskBudget) (d : TaskDag) : Operation → Except String (List Command)
  | .beginTask id index inputDigest dependencies message => do
    refuseIf (validDigest inputDigest = false) "task input digest must be exactly 64 hexadecimal bytes"
    let failed ← WorkflowAgent.World.failedDependency d.tasks dependencies
    let create := Command.createTask .controller
      { id := id, declarationIndex := some index, parent := none, dependencies := dependencies,
        label := "workflow-agent-" ++ toString index.toNat, budget := budget }
    if failed.isSome then pure [create]
    else pure (create :: controllerMessage message id .instruction ("input_sha256:" ++ inputDigest) ++
      [.startTask .controller id])
  | .beginAttempt id task retryOrdinal siblingOrdinal assignment retryOf retryCause inputDigest => do
    let evidence ← priorEvidence H d retryOf
    pure [.registerAttempt .controller
        { id := id, task := task, retryOrdinal := retryOrdinal, siblingOrdinal := siblingOrdinal, lineageVersion := 1,
          retryOf := retryOf, assignment := assignment, retryCause := retryCause, priorEvidenceDigest := evidence,
          inputDigest := inputDigest },
      .startAttempt .controller id]
  | .recordSpeculativeWinner task attempt resultDigest message => do
    refuseIf (validDigest resultDigest = false) "speculative winner digest must be exactly 64 hexadecimal bytes"
    refuseIf ((d.attempts[attempt]?).any (fun a => a.spec.task == task && a.state == .running) = false)
      "speculative winner is not a running attempt of this task"
    pure (controllerMessage message task .control ("speculative_winner:attempt=" ++ toString attempt ++
      ":result_sha256=" ++ resultDigest))
  | .finishAttempt task attempt tokens elapsedMs terminal =>
    .ok (WorkflowAgent.finishAttempt task attempt tokens elapsedMs terminal)
  | .finishTaskSuccess task digest => .ok [.completeTask .controller task .succeeded (some digest) none none]
  | .finishTaskFailure task code detail => .ok [WorkflowAgent.finishTaskFailure task code detail]

inductive Batch (H : Digests) : TaskDag → List (Nat × Command) → TaskDag → Prop
  | nil (d : TaskDag) : Batch H d [] d
  | cons (d d1 d2 : TaskDag) (id : Nat) (c : Command) (rest : List (Nat × Command)) (receipt : ApplyReceipt) :
      d.apply H id c = some (.ok (d1, receipt)) → Batch H d1 rest d2 → Batch H d ((id, c) :: rest) d2

/-- The graphs of logs that operations wrote, under any command ids. -/
inductive Ledgered (H : Digests) (config : Config) (budget : TaskBudget) : TaskDag → Prop
  | new (d : TaskDag) : TaskDag.new H config = .ok d → Ledgered H config budget d
  | operation (d d' : TaskDag) (op : Operation) (commands : List (Nat × Command)) : Ledgered H config budget d →
      op.commands H budget d = .ok (commands.map Prod.snd) → Batch H d commands d' → Ledgered H config budget d'

/-- The graph of such a log, cut after any of its commands. -/
def Cut (H : Digests) (config : Config) (budget : TaskBudget) (d : TaskDag) : Prop :=
  ∃ d0 op kept lost d1, Ledgered H config budget d0 ∧ Operation.commands H budget d0 op = .ok ((kept ++ lost).map Prod.snd) ∧
    Batch H d0 kept d ∧ Batch H d lost d1

/-! ## Flat graphs -/

/-- **What a cut log leaves.** -/
structure Flat (d : TaskDag) : Prop where
  id : ∀ (k : TaskId) (x : Task), d.tasks[k]? = some x → x.spec.id = k
  parent : ∀ (k : TaskId) (x : Task), d.tasks[k]? = some x → x.spec.parent = none ∧ x.childReservations = {}
  state : ∀ (k : TaskId) (x : Task), d.tasks[k]? = some x → x.state ≠ .blocked ∧ ∀ reason, x.state ≠ .cancelling reason
  fits : ∀ (k : TaskId) (x : Task), d.tasks[k]? = some x →
    budgetFits x.spec.budget x.usage {} {} = .ok () ∧ x.usage.wallMs ≤ u64Max
  attemptId : ∀ (i : AttemptId) (a : Attempt), d.attempts[i]? = some a → a.spec.id = i
  attempt : ∀ (i : AttemptId) (a : Attempt), d.attempts[i]? = some a → a.state.isTerminal = false →
    ∃ x, d.tasks[a.spec.task]? = some x ∧ x.state = .running

variable {d d' : TaskDag}

theorem Flat.congr (h : Flat d) (htasks : d'.tasks = d.tasks) (hattempts : d'.attempts = d.attempts) : Flat d' := by
  refine ⟨?_, ?_, ?_, ?_, ?_, ?_⟩
  · rw [htasks]; exact h.id
  · rw [htasks]; exact h.parent
  · rw [htasks]; exact h.state
  · rw [htasks]; exact h.fits
  · rw [hattempts]; exact h.attemptId
  · rw [htasks, hattempts]; exact h.attempt

theorem resolveBlocked_of_none {t : Tasks} (h : ∀ (k : TaskId) (x : Task), t[k]? = some x → x.state ≠ .blocked) :
    resolveBlocked t = t :=
  Settled.resolveBlocked (fun k x hk hb => absurd hb (h k x hk))

theorem Flat.setTask (h : Flat d) {k : TaskId} {y : Task} (hid : y.spec.id = k)
    (hparent : y.spec.parent = none ∧ y.childReservations = {}) (hblocked : y.state ≠ .blocked)
    (hcancelling : ∀ reason, y.state ≠ .cancelling reason)
    (hfits : budgetFits y.spec.budget y.usage {} {} = .ok () ∧ y.usage.wallMs ≤ u64Max)
    (hopen : ∀ x, d.tasks[k]? = some x → x.state = .running → y.state = .running ∨
      ∀ (i : AttemptId) (a : Attempt), d.attempts[i]? = some a → a.spec.task = k → a.state.isTerminal = true) :
    Flat { d with tasks := d.tasks.insert k y } := by
  refine ⟨fun j x hj => ?_, fun j x hj => ?_, fun j x hj => ?_, fun j x hj => ?_, h.attemptId, fun i a hi hterm => ?_⟩
  · rcases Table.insert_eq_some hj with ⟨rfl, rfl⟩ | ⟨-, hj⟩
    · exact hid
    · exact h.id j x hj
  · rcases Table.insert_eq_some hj with ⟨rfl, rfl⟩ | ⟨-, hj⟩
    · exact hparent
    · exact h.parent j x hj
  · rcases Table.insert_eq_some hj with ⟨rfl, rfl⟩ | ⟨-, hj⟩
    · exact ⟨hblocked, hcancelling⟩
    · exact h.state j x hj
  · rcases Table.insert_eq_some hj with ⟨rfl, rfl⟩ | ⟨-, hj⟩
    · exact hfits
    · exact h.fits j x hj
  · obtain ⟨x, hx, hrun⟩ := h.attempt i a hi hterm
    rw [Table.get_insert]
    by_cases hk : k = a.spec.task
    · subst hk
      rw [if_pos rfl]
      rcases hopen x hx hrun with hy | hclosed
      · exact ⟨y, rfl, hy⟩
      · rw [hclosed i a hi rfl] at hterm
        cases hterm
    · rw [if_neg hk]
      exact ⟨x, hx, hrun⟩

theorem Flat.setAttempt (h : Flat d) {i : AttemptId} {b : Attempt} (hid : b.spec.id = i)
    (hrun : b.state.isTerminal = false → ∃ x, d.tasks[b.spec.task]? = some x ∧ x.state = .running) :
    Flat { d with attempts := d.attempts.insert i b } := by
  refine ⟨h.id, h.parent, h.state, h.fits, fun j a hj => ?_, fun j a hj hterm => ?_⟩
  · rcases Table.insert_eq_some hj with ⟨rfl, rfl⟩ | ⟨-, hj⟩
    · exact hid
    · exact h.attemptId j a hj
  · rcases Table.insert_eq_some hj with ⟨rfl, rfl⟩ | ⟨-, hj⟩
    · exact hrun hterm
    · exact h.attempt j a hj hterm

/-- The commands that operations journal: a task is created without a parent and after its dependencies ended. -/
def Plain (d : TaskDag) : Command → Prop
  | .createTask _ spec => spec.parent = none ∧ ∀ e ∈ spec.dependencies, ∃ y, d.tasks[e]? = some y ∧ y.state.isTerminal = true
  | .completeTask _ _ completion _ _ _ => completion ≠ .cancelled
  | .requestCancel .. | .registerJoin .. => False
  | _ => True

theorem budgetFits_zero (b : TaskBudget) : budgetFits b {} {} {} = .ok () := by
  simp [budgetFits, BudgetReservation.checkedAdd, checkedAdd, orElseError, refuseIf, u64Max, bind_eq_ok]

theorem wallMs_le_of_checkedAdd {u v r : BudgetUsage} (h : u.checkedAdd v = some r) : r.wallMs ≤ u64Max := by
  simp only [BudgetUsage.checkedAdd, Option.bind_eq_bind, Option.bind_eq_some_iff, Option.pure_def,
    Option.some.injEq] at h
  obtain ⟨_, -, _, -, _, -, _, hwall, rfl⟩ := h
  unfold Machine.checkedAdd at hwall
  split at hwall
  · rename_i hle
    cases hwall
    exact hle
  · cases hwall

variable {H : Digests} {c : Command}

theorem Flat.step {a : TaskDag} (h : Flat d) (hplain : Plain d c)
    (hvalid : d.validateCommand H c = .ok ()) (happly : d.applyValidated c = some a) : Flat a := by
  cases c with
  | requestCancel actor task reason => exact hplain.elim
  | registerJoin actor _ => exact hplain.elim
  | createTask actor spec =>
    obtain ⟨hparent, hdeps⟩ := hplain
    have hok := validateCreate_ok hvalid
    have hnew : (d.newTask spec).state ≠ .blocked := by
      intro hb
      obtain ⟨hnb, e, he, hns⟩ := initialState_eq_blocked.1 hb
      obtain ⟨y, hy, hterm⟩ := hdeps e (mem_sortIds.1 he)
      have hbad := hnb e he
      simp only [badIn, succeededIn, hy, Option.any_some, hterm, Bool.true_and] at hbad hns
      rw [hns] at hbad
      cases hbad
    have hset : Flat { d with tasks := d.tasks.insert spec.id (d.newTask spec) } := by
      refine h.setTask rfl ⟨hparent, rfl⟩ hnew (fun reason hc => ?_) ⟨budgetFits_zero _, Nat.zero_le _⟩ (fun x hx => ?_)
      · have hc : initialState d.tasks (sortIds spec.dependencies) = .cancelling reason := hc
        have hadm := initialState_not_admitted d.tasks (sortIds spec.dependencies)
        rw [hc] at hadm
        cases hadm
      · rw [hok.fresh] at hx
        cases hx
    obtain ⟨_, hres⟩ : ∃ r, d.reserveFromOwner spec.parent spec.budget.reservable = some (d.tasks, r) := by
      obtain ⟨r, hr, -⟩ := budgetFits_ok (hok.root hparent)
      exact ⟨r, by simp [reserveFromOwner, hparent, hr]⟩
    simp only [applyValidated, applyCreate, hres, Option.bind_eq_bind, Option.bind_some, Option.pure_def,
      Option.some.injEq] at happly
    rw [resolveBlocked_of_none (fun k x hk => (hset.state k x hk).1)] at happly
    exact hset.congr (by rw [← happly]) (by rw [← happly])
  | startTask actor task =>
    obtain ⟨x, hx, _, -⟩ := validateStart_ok hvalid
    simp only [applyValidated, setState, hx, Option.map_some, Option.bind_eq_bind, Option.bind_some, Option.pure_def,
      Option.some.injEq] at happly
    subst happly
    exact h.setTask (h.id task x hx) (h.parent task x hx) (by simp) (by simp) (h.fits task x hx) (fun _ _ _ => .inl rfl)
  | registerAttempt actor attempt =>
    simp only [validateCommand, validateAttemptRegistration, bind_eq_ok, refuseIf_eq_ok, requireTask_eq_ok, not_not]
      at hvalid
    obtain ⟨_, -, _, -, _, -, _, -, x, hx, _, hrun, -⟩ := hvalid
    cases happly
    exact h.setAttempt rfl (fun _ => ⟨x, hx, hrun⟩)
  | startAttempt actor attempt =>
    simp only [validateCommand, validateStartAttempt, bind_eq_ok, refuseIf_eq_ok, requireAttempt, orElseError_eq_ok,
      requireTask_eq_ok, not_not] at hvalid
    obtain ⟨_, -, b, hb, _, -, x, hx, hrun⟩ := hvalid
    simp only [applyValidated, setAttemptState, hb, Option.bind_eq_bind, Option.bind_some, Option.pure_def,
      Option.some.injEq] at happly
    subst happly
    exact h.setAttempt (h.attemptId attempt b hb) (fun _ => ⟨x, hx, hrun⟩)
  | completeAttempt actor attempt completion _ digest code detail =>
    obtain ⟨b, s, hb, hs⟩ := attempt_applies hvalid
    simp only [applyValidated, hs, setAttemptState, hb, Option.bind_eq_bind, Option.bind_some, Option.pure_def,
      Option.some.injEq] at happly
    subst happly
    refine h.setAttempt (h.attemptId attempt b hb) (fun hopen => ?_)
    cases completion <;> obtain ⟨_, -, rfl⟩ := Option.map_eq_some_iff.1 hs <;> cases hopen
  | chargeBudget actor task _ =>
    simp only [validateCommand, validateCharge, bind_eq_ok, refuseIf_eq_ok, requireTask_eq_ok, orElseError_eq_ok] at hvalid
    obtain ⟨_, -, x, hx, _, hadm, _, -, _, hu, hfits⟩ := hvalid
    simp only [applyValidated, hx, hu, Option.bind_eq_bind, Option.bind_some, Option.pure_def, Option.some.injEq] at happly
    subst happly
    have hparent := h.parent task x hx
    rw [hparent.2] at hfits
    exact h.setTask (h.id task x hx) hparent (h.state task x hx).1 (h.state task x hx).2 ⟨hfits, wallMs_le_of_checkedAdd hu⟩
      (fun y hy hrun => .inl (by rw [hx] at hy; cases hy; exact hrun))
  | sendMessage actor message =>
    simp only [validateCommand, validateMessage, bind_eq_ok, requireTask_eq_ok] at hvalid
    obtain ⟨_, -, _, -, _, -, _, -, _, -, x, hx, -⟩ := hvalid
    simp only [applyValidated, hx, Option.bind_eq_bind, Option.bind_some, Option.pure_def, Option.some.injEq] at happly
    have hset := h.setTask (y := { x with inbox := x.inbox ++ [message.id] }) (h.id _ x hx) (h.parent _ x hx)
      (h.state _ x hx).1 (h.state _ x hx).2 (h.fits _ x hx)
      (fun y hy hrun => .inl (by rw [hx] at hy; cases hy; exact hrun))
    exact hset.congr (by rw [← happly]) (by rw [← happly])
  | acknowledgeMessage actor message =>
    simp only [validateCommand, validateAcknowledge, bind_eq_ok, orElseError_eq_ok] at hvalid
    obtain ⟨m, hm, -⟩ := hvalid
    simp only [applyValidated, hm, Option.bind_eq_bind, Option.bind_some, Option.pure_def, Option.some.injEq] at happly
    exact h.congr (by rw [← happly]) (by rw [← happly])
  | completeTask actor task completion digest code detail =>
    have hattempts : d.hasOpenAttempt task = false := by
      simp only [validateCommand, validateCompletion, bind_eq_ok, refuseIf_eq_ok, Bool.not_eq_true] at hvalid
      obtain ⟨_, -, _, -, _, -, _, -, _, hopen, -⟩ := hvalid
      exact hopen
    obtain ⟨x, hok⟩ := validateCompletion_ok hvalid
    simp only [applyValidated, setState, hok.found, Option.bind_eq_bind, Option.bind_eq_some_iff, Option.map_some,
      Option.some.injEq, Option.pure_def] at happly
    obtain ⟨s, hs, _, rfl, rfl⟩ := happly
    obtain ⟨hblocked, hcancelling⟩ : s ≠ .blocked ∧ ∀ reason, s ≠ .cancelling reason := by
      cases completion with
      | cancelled => cases hplain rfl
      | succeeded =>
        obtain ⟨_, -, rfl⟩ := Option.map_eq_some_iff.1 hs
        exact ⟨by simp, by simp⟩
      | failed =>
        obtain ⟨_, -, rfl⟩ := Option.map_eq_some_iff.1 hs
        exact ⟨by simp, by simp⟩
    have hset : Flat { d with tasks := d.tasks.insert task { x with state := s } } := by
      refine h.setTask (h.id task x hok.found) (h.parent task x hok.found) hblocked hcancelling (h.fits task x hok.found)
        (fun _ _ _ => .inr (fun i a hi htask => ?_))
      have hnone := List.any_eq_false.1 hattempts a ((Table.mem_vals _ _).2 ⟨i, hi⟩)
      simpa [htask] using hnone
    rw [resolveBlocked_of_none (fun k y hk => (hset.state k y hk).1)]
    exact hset

/-! ## Logs of operations -/

variable {id : Nat} {r : ApplyReceipt}

theorem flat_apply (h : Flat d) (hplain : Plain d c) (happly : d.apply H id c = some (.ok (d', r))) : Flat d' := by
  rcases apply_new happly with rfl | ⟨hvalid, a, ha, htasks, hattempts, -⟩
  · exact h
  · exact (h.step hplain hvalid ha).congr htasks hattempts

/-- The commands that need nothing of the graph to be plain. -/
def Simple (c : Command) : Prop := ∀ d, Plain d c

theorem flat_batch {commands : List (Nat × Command)} (h : Flat d)
    (hbatch : Batch H d commands d') (hsimple : ∀ c ∈ commands.map Prod.snd, Simple c) : Flat d' := by
  induction hbatch with
  | nil d => exact h
  | cons d _ _ _ c _ _ happly _ ih =>
    exact ih (flat_apply h (hsimple c (by simp) d) happly) (fun c hc => hsimple c (by simp [hc]))

theorem exists_of_mapM {ε α β : Type} {f : α → Except ε β} {l : List α} {bs : List β} (h : l.mapM f = .ok bs) {a : α}
    (ha : a ∈ l) : ∃ b ∈ bs, f a = .ok b := by
  have hall := mapM_ok h
  clear h
  induction hall with
  | nil => cases ha
  | cons hab _ ih =>
    rcases List.mem_cons.1 ha with rfl | ha
    · exact ⟨_, .head _, hab⟩
    · obtain ⟨b, hb, hf⟩ := ih ha
      exact ⟨b, .tail _ hb, hf⟩

theorem failedDependency_terminal {tasks : Tasks} {dependencies : List TaskId} {failed : Option TaskId}
    (h : WorkflowAgent.World.failedDependency tasks dependencies = .ok failed) :
    ∀ e ∈ dependencies, ∃ y, tasks[e]? = some y ∧ y.state.isTerminal = true := by
  simp only [WorkflowAgent.World.failedDependency, bind_eq_ok, refuseIf_eq_ok, not_exists, not_and,
    Bool.not_eq_false] at h
  obtain ⟨_, hstates, _, hterm, -⟩ := h
  intro e he
  obtain ⟨p, hmem, hp⟩ := exists_of_mapM hstates he
  unfold WorkflowAgent.World.taskState at hp
  split at hp
  · rename_i y hy
    cases hp
    exact ⟨y, hy, hterm _ hmem⟩
  · cases hp

variable {budget : TaskBudget} {op : Operation}

theorem commands_plain {commands : List Command} (h : op.commands H budget d = .ok commands) :
    ∃ c rest, commands = c :: rest ∧ Plain d c ∧ ∀ c ∈ rest, Simple c := by
  cases op with
  | beginTask id _ inputDigest _ message =>
    simp only [Operation.commands, bind_eq_ok] at h
    obtain ⟨_, -, _, hfailed, h⟩ := h
    have hdeps := failedDependency_terminal hfailed
    split at h
    · cases h
      exact ⟨_, [], rfl, ⟨rfl, hdeps⟩, by simp⟩
    · cases h
      refine ⟨_, [_, _, _], rfl, ⟨rfl, hdeps⟩, fun c hc d => ?_⟩
      simp only [List.mem_cons, List.not_mem_nil, or_false] at hc
      rcases hc with rfl | rfl | rfl <;> exact trivial
  | beginAttempt id task _ _ _ _ _ inputDigest =>
    simp only [Operation.commands, bind_eq_ok, pure_eq_ok] at h
    obtain ⟨_, -, rfl⟩ := h
    exact ⟨_, _, rfl, trivial, fun c hc d => by rw [List.mem_singleton.1 hc]; exact trivial⟩
  | recordSpeculativeWinner task attempt _ message =>
    simp only [Operation.commands, bind_eq_ok, pure_eq_ok] at h
    obtain ⟨_, -, _, -, rfl⟩ := h
    exact ⟨_, _, rfl, trivial, fun c hc d => by rw [List.mem_singleton.1 hc]; exact trivial⟩
  | finishAttempt task attempt _ _ terminal =>
    cases h
    refine ⟨_, _, rfl, trivial, fun c hc d => ?_⟩
    rw [List.mem_singleton.1 hc]
    cases terminal <;> exact trivial
  | finishTaskSuccess task _ =>
    cases h
    exact ⟨_, [], rfl, by simp [Plain], by simp⟩
  | finishTaskFailure task _ _ =>
    cases h
    exact ⟨_, [], rfl, by simp [Plain, WorkflowAgent.finishTaskFailure, WorkflowAgent.World.finishCommand], by simp⟩

theorem flat_operation {kept lost : List (Nat × Command)} (h : Flat d)
    (hop : op.commands H budget d = .ok ((kept ++ lost).map Prod.snd)) (hbatch : Batch H d kept d') : Flat d' := by
  obtain ⟨c, _, heq, hplain, hsimple⟩ := commands_plain hop
  cases hbatch with
  | nil => exact h
  | cons d _ _ _ _ kept _ happly htail =>
    obtain ⟨rfl, rfl⟩ := heq
    exact flat_batch (flat_apply h hplain happly) htail (fun c hc => hsimple c (by simp [hc]))

variable {config : Config}

theorem Ledgered.flat (h : Ledgered H config budget d) : Flat d := by
  induction h with
  | new d hd =>
    unfold TaskDag.new at hd
    split at hd
    · cases hd
    · cases hd
      refine ⟨?_, ?_, ?_, ?_, ?_, ?_⟩ <;> intro k x hk <;> simp at hk
  | operation d _ op commands _ hop hbatch ih =>
    have hop' : op.commands H budget d = .ok ((commands ++ []).map Prod.snd) := by simpa using hop
    exact flat_operation ih hop' hbatch

theorem Cut.flat (h : Cut H config budget d) : Flat d := by
  obtain ⟨_, _, _, _, _, hd0, hop, hkept, -⟩ := h
  exact flat_operation hd0.flat hop hkept

end ExecutionLedger
end Iteron.Dag
