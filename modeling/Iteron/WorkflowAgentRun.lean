import Iteron.WorkflowAgent
import Iteron.DagHierarchy
/-!
# WorkflowAgentRun — what a dependency's answer says of its task

A call that was admitted in this run has a task under its own declaration, and once it is answered the task is at its
end, successful when and only when the script saw an outcome (`PhaseLaw`).  A call answered from the journal has no such
task of this run, so what a later call finds under its declaration is left over from another one, or nothing.
-/
namespace Iteron.WorkflowAgent

open Dag TaskDag Refuse

/-! ## Tasks at their end stay as they are -/

def Ends (t t' : Tasks) : Prop := ∀ (k : TaskId) (x : Task), t[k]? = some x → x.state.isTerminal = true →
  ∃ x', t'[k]? = some x' ∧ x'.state = x.state

theorem Ends.refl (t : Tasks) : Ends t t := fun _ x hk _ => ⟨x, hk, rfl⟩

variable {t : Tasks}

theorem Ends.trans {t' t'' : Tasks} (h : Ends t t') (h' : Ends t' t'') : Ends t t'' := by
  intro k x hk hx
  obtain ⟨y, hy, hyx⟩ := h k x hk hx
  obtain ⟨z, hz, hzy⟩ := h' k y hy (by rw [hyx]; exact hx)
  exact ⟨z, hz, hzy.trans hyx⟩

theorem Ends.badIn {t t' : Tasks} (h : Ends t t') {k : TaskId} (hk : badIn t k = true) : badIn t' k = true := by
  obtain ⟨x, hx, hterm, hsucc⟩ := badIn_iff.1 hk
  obtain ⟨y, hy, hyx⟩ := h k x hx hterm
  exact badIn_iff.2 ⟨y, hy, by rw [hyx]; exact hterm, by rw [hyx]; exact hsucc⟩

theorem Ends.succeededIn {t t' : Tasks} (h : Ends t t') {k : TaskId} (hk : succeededIn t k = true) : succeededIn t' k = true := by
  obtain ⟨x, hx, hsucc⟩ := succeededIn_iff.1 hk
  obtain ⟨y, hy, hyx⟩ := h k x hx (isTerminal_of_isSucceeded hsucc)
  exact succeededIn_iff.2 ⟨y, hy, by rw [hyx]; exact hsucc⟩

variable {k : TaskId}

theorem ends_insert (y : Task)
    (h : ∀ x, t[k]? = some x → x.state.isTerminal = true → y.state = x.state) : Ends t (t.insert k y) := by
  intro j x hj hx
  rw [Table.get_insert]
  by_cases hkj : k = j
  · subst hkj
    exact ⟨y, if_pos rfl, h x hj hx⟩
  · exact ⟨x, by rw [if_neg hkj]; exact hj, rfl⟩

variable {x : Task}

theorem ends_insert_open (y : Task) (hk : t[k]? = some x) (hopen : x.state.isTerminal = false) : Ends t (t.insert k y) := by
  refine ends_insert y (fun x' hx' hterm => ?_)
  rw [hk] at hx'
  cases hx'
  rw [hopen] at hterm
  cases hterm

theorem ends_insert_same (y : Task) (hk : t[k]? = some x) (hs : y.state = x.state) : Ends t (t.insert k y) := by
  refine ends_insert y (fun x' hx' _ => ?_)
  rw [hk] at hx'
  cases hx'
  exact hs

theorem ends_insert_fresh (y : Task) (hk : t[k]? = none) : Ends t (t.insert k y) :=
  ends_insert y (fun x hx _ => by rw [hk] at hx; cases hx)

theorem ends_resolveBlocked (t : Tasks) : Ends t (resolveBlocked t) := by
  intro k x hk hx
  refine ⟨x, (resolveBlocked_resolves t).kept k x hk (fun hb => ?_), rfl⟩
  rw [hb] at hx
  cases hx

theorem ends_cancelTasks (d : TaskDag) (task : TaskId) (reason : String) : Ends d.tasks (d.cancelTasks task reason) := by
  intro k x hk hx
  rw [cancelTasks_get, hk]
  refine ⟨_, rfl, ?_⟩
  simp only
  by_cases hsub : d.isAncestorOrSelf task k = true
  · rw [if_pos hsub]
    cases hs : x.state <;> simp [hs, TaskState.isTerminal] at hx <;> rfl
  · rw [if_neg hsub]

variable {d : TaskDag} {c : Command}

theorem ends_step {a : TaskDag} (hs : TaskStep d c a) : Ends d.tasks a.tasks := by
  cases hs with
  | root actor spec reserved edges hok hparent hadd =>
    exact (ends_insert_fresh _ hok.fresh).trans (ends_resolveBlocked _)
  | child actor spec p x reserved edges hok hparent hx hadd =>
    have hfresh : (d.tasks.insert p { x with childReservations := reserved })[spec.id]? = none := by
      rw [Table.get_insert, if_neg]
      · exact hok.fresh
      · rintro rfl
        rw [hok.fresh] at hx
        cases hx
    have hp := ends_insert_same { x with childReservations := reserved } hx rfl
    exact (hp.trans (ends_insert_fresh _ hfresh)).trans (ends_resolveBlocked _)
  | started actor task x hx hready _ => exact ends_insert_open _ hx (by rw [hready]; rfl)
  | charged actor task _ _ x hx _ _ => exact ends_insert_same _ hx rfl
  | messaged actor _ x hx => exact ends_insert_same _ hx rfl
  | cancelled actor task reason hok => exact (ends_cancelTasks d task reason).trans (ends_resolveBlocked _)
  | completed actor task _ _ _ _ x _ hok _ _ =>
    refine (ends_insert_open _ hok.found ?_).trans (ends_resolveBlocked _)
    have hadm := hok.admitted
    cases hs : x.state <;> simp [hs, TaskState.isAdmitted] at hadm <;> rfl
  | elsewhere c _ htasks _ _ _ _ =>
    rw [htasks]
    exact .refl _

variable {H : Digests} {d' : TaskDag}

theorem accept_step (h : accept H d c = some d') : TaskStep d c d' := by
  unfold accept at h
  split at h
  · obtain ⟨a, ha, hs⟩ := validated_applies ‹_›
    rw [ha] at h
    cases h
    exact hs
  · cases h

/-- **A task ends once**: no command of the log moves a task that is at its end, neither a cancellation above it nor what
its dependencies come to. -/
theorem task_ends_once (H : Digests) (d d' : TaskDag) (es : List LogEntry) (h : Chain H d es d') : Ends d.tasks d'.tasks := by
  induction h with
  | nil d => exact .refl _
  | cons d1 d2 _ e es hp hc _ ih =>
    rcases apply_step (apply_of_commit hp hc) with rfl | ⟨a, hstep, htasks, -⟩
    · exact ih
    · exact (htasks ▸ ends_step hstep).trans ih

/-- A child failed; then its parent is cancelled. -/
theorem task_ends_once_failed : ∃ d d' es, Chain sampleDigests d es d' ∧ es ≠ [] ∧
    (d.tasks[2]?).any (fun x => x.state.isTerminal) = true ∧ Ends d.tasks d'.tasks := by
  obtain ⟨d, hend, hcancel⟩ : ∃ d, (d.tasks[2]?).any (fun x => x.state.isTerminal) = true ∧
      d.prepare sampleDigests 9 (.requestCancel .controller 1 "stop") =
        .ok (.new (entryOf sampleDigests d 9 (.requestCancel .controller 1 "stop"))) :=
    ⟨(runAll sampleDigests sampleConfig [sampleTask 1 none [] 5, sampleTask 2 (some 1) [] 2, .startTask .controller 1,
      .startTask .controller 2, .completeTask .controller 2 .failed none (some "exit") none]).get (by rfl), by rfl, by rfl⟩
  obtain ⟨d', hd'⟩ := commit_of_prepare hcancel
  have hchain := Chain.single hcancel hd'
  exact ⟨d, d', _, hchain, List.cons_ne_nil _ _, hend, task_ends_once _ _ _ _ hchain⟩

theorem ends_acceptAll {H : Digests} : ∀ (cs : List Command) {d d' : TaskDag}, acceptAll H d cs = some d' → Ends d.tasks d'.tasks
  | [], d, d', h => by
    cases h
    exact .refl _
  | c :: cs, d, d', h => by
    obtain ⟨a, ha, hrest⟩ := Option.bind_eq_some_iff.1 h
    exact (ends_step (accept_step ha)).trans (ends_acceptAll cs hrest)

theorem badIn_create {actor : Actor} {spec : TaskSpec} {e : TaskId} (h : accept H d (.createTask actor spec) = some d')
    (hroot : spec.parent = none) (he : e ∈ spec.dependencies) (hbad : badIn d.tasks e = true) :
    badIn d'.tasks spec.id = true := by
  have hd : d'.tasks = resolveBlocked (d.tasks.insert spec.id (d.newTask spec)) := by
    unfold accept at h
    split at h
    · simp only [applyValidated, applyCreate, reserveFromOwner, hroot, Option.bind_eq_bind,
        Option.bind_eq_some_iff, Option.pure_def, Option.some.injEq] at h
      obtain ⟨p, ⟨r, -, rfl⟩, rfl⟩ := h
      rfl
    · cases h
  rw [hd]
  refine (resolveBlocked_resolves _).badIn ?_
  have hstate : ∃ f, (d.newTask spec).state = .skippedDependency f := by
    have he' : e ∈ sortIds spec.dependencies := mem_sortIds.2 he
    rcases initialState_cases d.tasks (sortIds spec.dependencies) with ⟨f, -, hf, -⟩ | ⟨-, hall⟩ | ⟨-, hall, -⟩
    · exact ⟨f, hf⟩
    · exact absurd (hall e he') (by rw [not_succeededIn_of_badIn hbad]; simp)
    · exact absurd (hall e he') (by rw [hbad]; simp)
  obtain ⟨f, hf⟩ := hstate
  exact badIn_iff.2 ⟨d.newTask spec, by rw [Table.get_insert, if_pos rfl], by rw [hf]; rfl, by rw [hf]; rfl⟩

/-! ## Admission -/

variable {tasks : Tasks} {id : TaskId}

theorem taskState_eq_ok {p : TaskId × TaskState} :
    World.taskState tasks id = .ok p ↔ p.1 = id ∧ ∃ x, tasks[id]? = some x ∧ x.state = p.2 := by
  obtain ⟨_, s⟩ := p
  unfold World.taskState
  cases tasks[id]? with
  | none => simp
  | some x =>
    simp only [Except.ok.injEq, Prod.mk.injEq, Option.some.injEq, exists_eq_left']
    exact and_congr_left' eq_comm

variable {dependencies : List TaskId}

theorem mem_states {states : List (TaskId × TaskState)}
    (h : dependencies.mapM (World.taskState tasks) = .ok states) (p : TaskId × TaskState) :
    p ∈ states ↔ p.1 ∈ dependencies ∧ ∃ x, tasks[p.1]? = some x ∧ x.state = p.2 := by
  rw [mem_mapM h]
  constructor
  · rintro ⟨_, hid, heq⟩
    obtain ⟨rfl, hx⟩ := taskState_eq_ok.1 heq
    exact ⟨hid, hx⟩
  · rintro ⟨hid, hx⟩
    exact ⟨p.1, hid, taskState_eq_ok.2 ⟨rfl, hx⟩⟩

variable {table : Std.ExtTreeMap Nat TaskId}

theorem failedDependency_some {f : TaskId}
    (h : World.failedDependency tasks dependencies = .ok (some f)) : f ∈ dependencies ∧ badIn tasks f = true := by
  simp only [World.failedDependency, bind_eq_ok, refuseIf_eq_ok, pure_eq_ok] at h
  obtain ⟨_, hstates, _, hterm, hfailed⟩ := h
  obtain ⟨⟨_, s⟩, hfind, rfl⟩ := Option.map_eq_some_iff.1 hfailed
  have hmem := List.mem_of_find?_eq_some hfind
  have hbad := List.find?_some hfind
  obtain ⟨hid, x, hx, rfl⟩ := (mem_states hstates _).1 hmem
  have hend : x.state.isTerminal = true := by simpa using fun hf => hterm ⟨_, hmem, hf⟩
  exact ⟨hid, badIn_iff.2 ⟨x, hx, hend, by simpa using hbad⟩⟩

variable {dependencies : List Nat}

def backed (w : World) (d : Nat) (envelope : Envelope) : Bool :=
  (w.declarationTasks[d]?).any (fun id => if envelope.isNull then badIn w.dag.tasks id else succeededIn w.dag.tasks id)

/-- The task is to succeed when and only when the script will see an outcome. -/
def Settlement.Fits (s : Settlement) : Prop := s.envelope.isNull = false ↔ ∃ digest, s.finish = .success digest

def PhaseLaw (w : World) (n : Nat) : Phase → Prop
  | .creating _ dependencies (some f) => f ∈ dependencies ∧ badIn w.dag.tasks f = true
  | .created id (some _) => badIn w.dag.tasks id = true
  | .skipping id _ => w.declarationTasks[n]? = some id ∧ badIn w.dag.tasks id = true
  | .running id => w.declarationTasks[n]? = some id
  | .journaling id s => w.declarationTasks[n]? = some id ∧ s.Fits
  | .finishing id s => w.declarationTasks[n]? = some id ∧ s.Fits
  | .answered .refused _ => w.cancelled = true
  | .answered .skipped envelope => backed w n envelope = true
  | .answered .settled envelope => backed w n envelope = true
  | _ => True

structure Keeps (w w' : World) (n : Nat) : Prop where
  calls : ∀ m, m ≠ n → w'.calls[m]? = w.calls[m]?
  declarations : ∀ m, m ≠ n → w'.declarationTasks[m]? = w.declarationTasks[m]?
  ends : Ends w.dag.tasks w'.dag.tasks
  cancelled : w.cancelled = true → w'.cancelled = true
  index : w.index ≤ w'.index

variable {w w' : World} {m : Nat} {envelope : Envelope}

theorem backed_kept (hdecl : w'.declarationTasks[m]? = w.declarationTasks[m]?) (hends : Ends w.dag.tasks w'.dag.tasks)
    (h : backed w m envelope = true) : backed w' m envelope = true := by
  unfold backed at h ⊢
  rw [hdecl]
  cases hid : w.declarationTasks[m]? with
  | none => simp [hid] at h
  | some _ =>
    simp only [hid, Option.any_some] at h ⊢
    by_cases hn : envelope.isNull = true
    · rw [if_pos hn] at h ⊢
      exact hends.badIn h
    · rw [if_neg hn] at h ⊢
      exact hends.succeededIn h

variable {n : Nat} {phase : Phase}

theorem PhaseLaw.kept (hk : Keeps w w' n) (hm : m ≠ n) (h : PhaseLaw w m phase) : PhaseLaw w' m phase := by
  have hdecl := hk.declarations m hm
  cases phase with
  | called | missed | resolved => trivial
  | creating id _ failed =>
    cases failed with
    | none => trivial
    | some f => exact ⟨h.1, hk.ends.badIn h.2⟩
  | created id failed =>
    cases failed with
    | none => trivial
    | some f => exact hk.ends.badIn h
  | skipping id _ => exact ⟨hdecl.trans h.1, hk.ends.badIn h.2⟩
  | running id => exact hdecl.trans h
  | journaling id s | finishing id s => exact ⟨hdecl.trans h.1, h.2⟩
  | answered answer _ =>
    cases answer with
    | replayed => trivial
    | refused => exact hk.cancelled h
    | skipped | settled => exact backed_kept hdecl hk.ends h

/-! ## What one step does -/

theorem keeps_refl (w : World) (n : Nat) : Keeps w w n := ⟨fun _ _ => rfl, fun _ _ => rfl, .refl _, id, le_refl _⟩

structure Lands (w w' : World) (n : Nat) (arg : String) (phase : Phase) : Prop where
  call : w'.calls[n]? = some { arg := arg, phase := phase }
  law : PhaseLaw w' n phase
  keeps : Keeps w w' n

theorem lands_setPhase {w w₁ : World} {n : Nat} {arg : String} (hk : Keeps w w₁ n) (hlaw : PhaseLaw w₁ n phase) :
    Lands w (w₁.setPhase n arg phase) n arg phase where
  call := by
    show (w₁.calls.insert n _)[n]? = _
    rw [Table.get_insert, if_pos rfl]
  law := hlaw
  keeps :=
    { calls := fun m hm => by
        show (w₁.calls.insert n _)[m]? = _
        rw [Table.get_insert, if_neg hm.symm]
        exact hk.calls m hm
      declarations := hk.declarations
      ends := hk.ends
      cancelled := hk.cancelled
      index := hk.index }

variable {arg : String}

theorem lands_refuse {w₁ : World} (hk : Keeps w w₁ n) :
    Lands w (w₁.refuse n arg) n arg (.answered .refused (.null "task DAG admission failed")) := by
  have hk' : Keeps w { w₁ with cancelled := true } n := ⟨hk.calls, hk.declarations, hk.ends, fun _ => rfl, hk.index⟩
  exact lands_setPhase hk' rfl

theorem keeps_dag (h : Ends w.dag.tasks d.tasks) : Keeps w { w with dag := d } n :=
  ⟨fun _ _ => rfl, fun _ _ => rfl, h, id, le_refl _⟩

theorem keeps_journal (E : Env) (w : World) (n : Nat) (arg : String) (record : WorkflowJournal.Record) :
    Keeps w (w.journalRecord E arg record) n := by
  unfold World.journalRecord
  split
  · exact ⟨fun _ _ => rfl, fun _ _ => rfl, .refl _, id, le_refl _⟩
  · exact keeps_refl w n

theorem settle_fits (E : Env) (arg : String) (live : Live) : (E.settle arg live).Fits := by
  unfold Env.settle Settlement.Fits
  split
  · simp [refusal, Envelope.isNull]
  · split_ifs
    · simp [refusal, Envelope.isNull]
    · simp [refusal, Envelope.isNull]
    · split
      · simp [Envelope.isNull]
      · cases live <;> simp [Live.record, envelopeFor, nullRecord, Env.finishForRecord, Envelope.isNull]

variable {s : Settlement}

theorem backed_finish (hdecl : w.declarationTasks[n]? = some id) (hfits : s.Fits)
    (h : accept H w.dag (World.finishCommand id s.finish) = some d) : backed { w with dag := d } n s.envelope = true := by
  have hbad : ∀ code detail, s.finish = .failure code detail → badIn d.tasks id = true := by
    intro code detail hf
    rw [hf] at h
    cases accept_step h with
    | completed _ _ _ _ _ _ x state hok hterm hsucc =>
      refine (resolveBlocked_resolves _).badIn (badIn_iff.2 ⟨_, by rw [Table.get_insert, if_pos rfl], hterm, ?_⟩)
      simpa using hsucc
    | elsewhere _ _ _ _ _ _ hne => cases hne _ _ _ _ _ _ rfl
  have hgood : ∀ digest, s.finish = .success digest → succeededIn d.tasks id = true := by
    intro digest hf
    rw [hf] at h
    cases accept_step h with
    | completed _ _ _ _ _ _ x state hok hterm hsucc =>
      refine (resolveBlocked_resolves _).succeededIn (succeededIn_iff.2 ⟨_, by rw [Table.get_insert, if_pos rfl], ?_⟩)
      simpa using hsucc
    | elsewhere _ _ _ _ _ _ hne => cases hne _ _ _ _ _ _ rfl
  unfold backed
  simp only [hdecl, Option.any_some]
  cases hs : s.finish with
  | success digest =>
    rw [if_neg (by rw [hfits.2 ⟨digest, hs⟩]; simp)]
    exact hgood digest hs
  | failure code detail =>
    have hnull : s.envelope.isNull = true := by
      by_contra hne
      obtain ⟨digest, hd⟩ := hfits.1 (by simpa using hne)
      rw [hs] at hd
      cases hd
    rw [if_pos hnull]
    exact hbad code detail hs

inductive Follows (E : Env) (w : World) (n : Nat) (arg : String) : Phase → Phase → Prop
  | missed : Follows E w n arg .called .missed
  | replayed (envelope : Envelope) : Follows E w n arg .called (.answered .replayed envelope)
  | resolved (ids : List TaskId) :
      World.dependencyTasks w.declarationTasks n (E.digestBytes arg) (E.dependencies arg) = .ok ids →
      Follows E w n arg .missed (.resolved ids)
  | unresolved (e : String) (envelope : Envelope) :
      World.dependencyTasks w.declarationTasks n (E.digestBytes arg) (E.dependencies arg) = .error e →
      Follows E w n arg .missed (.answered .refused envelope)
  | creating (id : TaskId) (ids : List TaskId) (failed : Option TaskId) :
      World.failedDependency w.dag.tasks ids = .ok failed →
      Follows E w n arg (.resolved ids) (.creating id ids failed)
  | unready (ids : List TaskId) (e : String) (envelope : Envelope) :
      World.failedDependency w.dag.tasks ids = .error e →
      Follows E w n arg (.resolved ids) (.answered .refused envelope)
  | tooMany (ids : List TaskId) (envelope : Envelope) : 4294967296 ≤ n →
      Follows E w n arg (.resolved ids) (.answered .refused envelope)
  | created (id : TaskId) (ids : List TaskId) (failed : Option TaskId) :
      Follows E w n arg (.creating id ids failed) (.created id failed)
  | skipping (id dependency : TaskId) : Follows E w n arg (.created id (some dependency)) (.skipping id dependency)
  | running (id : TaskId) : Follows E w n arg (.created id none) (.running id)
  | skipped (id dependency : TaskId) (envelope : Envelope) :
      Follows E w n arg (.skipping id dependency) (.answered .skipped envelope)
  | journaling (id : TaskId) (s : Settlement) : Follows E w n arg (.running id) (.journaling id s)
  | finishing (id : TaskId) (s : Settlement) : Follows E w n arg (.journaling id s) (.finishing id s)
  | settled (id : TaskId) (s : Settlement) : Follows E w n arg (.finishing id s) (.answered .settled s.envelope)

theorem lookup_lands (E : Env) (w : World) (n : Nat) (arg : String) :
    ∃ phase, Lands w (w.lookup E n arg) n arg phase ∧ Follows E w n arg .called phase := by
  unfold World.lookup
  split
  · exact ⟨_, lands_setPhase (keeps_refl w n) trivial, .missed⟩
  · split
    · exact ⟨_, lands_setPhase (keeps_refl w n) trivial, .replayed _⟩
    · exact ⟨_, lands_setPhase (keeps_refl w n) trivial, .missed⟩

theorem resolve_lands (E : Env) (w : World) (n : Nat) (arg : String) :
    ∃ phase, Lands w (w.resolve E n arg) n arg phase ∧ Follows E w n arg .missed phase := by
  unfold World.resolve
  split
  · exact ⟨_, lands_setPhase (keeps_refl w n) trivial, .resolved _ ‹_›⟩
  · exact ⟨_, lands_refuse (keeps_refl w n), .unresolved _ _ ‹_›⟩

theorem inspect_lands (E : Env) (w : World) (n : Nat) (arg : String) (ids : List TaskId) :
    ∃ phase, Lands w (w.inspect n arg ids) n arg phase ∧ Follows E w n arg (.resolved ids) phase := by
  have hk : Keeps w { w with nextTask := Machine.wrappingAdd w.nextTask 1 } n :=
    ⟨fun _ _ => rfl, fun _ _ => rfl, .refl _, id, le_refl _⟩
  unfold World.inspect
  split
  · exact ⟨_, lands_refuse (keeps_refl w n), .unready _ _ _ ‹_›⟩
  · rename_i failed hfailed
    by_cases hn : n < 4294967296
    · simp only [if_pos hn]
      refine ⟨_, lands_setPhase hk ?_, .creating _ _ _ hfailed⟩
      cases failed with
      | none => trivial
      | some f => exact failedDependency_some hfailed
    · simp only [if_neg hn]
      exact ⟨_, lands_refuse hk, .tooMany _ _ (not_lt.1 hn)⟩

variable {E : Env} {failed : Option TaskId}

theorem create_lands {ids : List TaskId} (hlaw : PhaseLaw w n (.creating id ids failed))
    (h : w.create E n arg id ids failed = some w') :
    ∃ phase, Lands w w' n arg phase ∧ Follows E w n arg (.creating id ids failed) phase := by
  refine ⟨.created id failed, ?_, .created id ids failed⟩
  cases failed with
  | some f =>
    obtain ⟨d, hd, rfl⟩ := Option.map_eq_some_iff.1 h
    refine lands_setPhase (keeps_dag (ends_step (accept_step hd))) ?_
    exact badIn_create hd rfl hlaw.1 hlaw.2
  | none =>
    obtain ⟨d, hd, rfl⟩ := Option.map_eq_some_iff.1 h
    have hk : Keeps w { w with dag := d, nextMessage := Machine.wrappingAdd w.nextMessage 1 } n :=
      ⟨fun _ _ => rfl, fun _ _ => rfl, ends_acceptAll _ hd, fun h => h, le_refl _⟩
    exact lands_setPhase hk trivial

theorem declare_lands (hlaw : PhaseLaw w n (.created id failed)) :
    ∃ phase, Lands w (w.declare n arg id failed) n arg phase ∧ Follows E w n arg (.created id failed) phase := by
  have hself : (w.declarationTasks.insert n id)[n]? = some id := by rw [Table.get_insert, if_pos rfl]
  have hk : Keeps w { w with declarationTasks := w.declarationTasks.insert n id } n :=
    { calls := fun _ _ => rfl
      declarations := fun m hm => by
        rw [Table.get_insert, if_neg hm.symm]
      ends := .refl _
      cancelled := fun h => h
      index := le_refl _ }
  cases failed with
  | some f => exact ⟨_, lands_setPhase hk ⟨hself, hlaw⟩, .skipping id f⟩
  | none => exact ⟨_, lands_setPhase hk hself, .running id⟩

theorem recordSkip_lands {dependency : TaskId} (hlaw : PhaseLaw w n (.skipping id dependency)) :
    ∃ phase, Lands w (w.recordSkip E n arg id dependency) n arg phase ∧ Follows E w n arg (.skipping id dependency) phase := by
  have hk := keeps_journal E w n arg (nullRecord (some (World.skipReason id dependency)))
  refine ⟨_, lands_setPhase hk ?_, .skipped _ _ _⟩
  have hback : backed w n (.null (World.skipReason id dependency)) = true := by
    unfold backed
    rw [hlaw.1]
    exact hlaw.2
  refine backed_kept ?_ hk.ends hback
  unfold World.journalRecord
  split <;> rfl

theorem recordOutcome_lands (hlaw : PhaseLaw w n (.journaling id s)) :
    ∃ phase, Lands w (w.recordOutcome E n arg id s) n arg phase ∧ Follows E w n arg (.journaling id s) phase := by
  refine ⟨.finishing id s, ?_, .finishing id s⟩
  unfold World.recordOutcome
  split
  · rename_i record _
    refine lands_setPhase (keeps_journal E w n arg record) ⟨?_, hlaw.2⟩
    unfold World.journalRecord
    split <;> exact hlaw.1
  · exact lands_setPhase (keeps_refl w n) hlaw

theorem advance_lands {live : Live} {call : Call} (hc : w.calls[n]? = some call)
    (hlaw : PhaseLaw w n call.phase) (h : w.advance E n live = some w') :
    ∃ phase, Lands w w' n call.arg phase ∧ Follows E w n call.arg call.phase phase := by
  obtain ⟨arg, phase⟩ := call
  unfold World.advance at h
  rw [hc] at h
  cases phase with
  | called =>
    cases h
    exact lookup_lands E w n arg
  | missed =>
    cases h
    exact resolve_lands E w n arg
  | resolved ids =>
    cases h
    exact inspect_lands E w n arg ids
  | creating id ids failed => exact create_lands hlaw h
  | created id failed =>
    cases h
    exact declare_lands hlaw
  | skipping id _ =>
    cases h
    exact recordSkip_lands hlaw
  | running id =>
    cases h
    exact ⟨_, lands_setPhase (keeps_refl w n) ⟨hlaw, settle_fits E arg live⟩, .journaling _ _⟩
  | journaling id s =>
    cases h
    exact recordOutcome_lands hlaw
  | finishing id s =>
    obtain ⟨d, hd, rfl⟩ := Option.map_eq_some_iff.1 h
    refine ⟨_, lands_setPhase (keeps_dag (ends_step (accept_step hd))) ?_, .settled id s⟩
    exact backed_finish hlaw.1 hlaw.2 hd
  | answered _ _ => cases h

/-! ## What holds in every run -/

structure RunLaw (w : World) : Prop where
  phases : ∀ n call, w.calls[n]? = some call → PhaseLaw w n call.phase
  indices : ∀ n call, w.calls[n]? = some call → 0 < n ∧ n ≤ w.index

def returned (w : World) (d : Nat) : Option Envelope :=
  (w.calls[d]?).bind (fun call =>
    match call.phase with
    | .answered _ envelope => some envelope
    | _ => none)

theorem returned_eq_some {d : Nat} :
    returned w d = some envelope ↔ ∃ arg answer, w.calls[d]? = some ⟨arg, .answered answer envelope⟩ := by
  unfold returned
  constructor
  · intro h
    obtain ⟨⟨arg, phase⟩, hc, hphase⟩ := Option.bind_eq_some_iff.1 h
    cases phase with
    | answered answer _ =>
      cases hphase
      exact ⟨arg, answer, hc⟩
    | _ => cases hphase
  · rintro ⟨arg, answer, hc⟩
    rw [hc]
    rfl

variable {event : Event}

theorem step_cases (hlaw : RunLaw w) (h : step E w event = some w') (hne : event ≠ .resume) :
    (∃ m arg phase, Lands w w' m arg phase ∧ (0 < m ∧ m ≤ w'.index) ∧ returned w m = none ∧
      ∀ call, w.calls[m]? = some call → call.arg = arg ∧ Follows E w m arg call.phase phase) ∨
    (w'.calls = w.calls ∧ ∀ n, Keeps w w' n) := by
  cases event with
  | resume => cases hne rfl
  | call arg =>
    cases h
    have hnone : w.calls[w.index + 1]? = none := by
      cases hc : w.calls[w.index + 1]? with
      | none => rfl
      | some call =>
        have := (hlaw.indices _ _ hc).2
        omega
    have hk : Keeps w { w with index := w.index + 1 } (w.index + 1) :=
      ⟨fun _ _ => rfl, fun _ _ => rfl, .refl _, id, Nat.le_succ _⟩
    refine .inl ⟨w.index + 1, arg, .called, lands_setPhase hk trivial, ⟨Nat.succ_pos _, le_refl _⟩, ?_, ?_⟩
    · simp [returned, hnone]
    · intro call hc
      rw [hnone] at hc
      cases hc
  | advance n _ =>
    cases hc : w.calls[n]? with
    | none => simp [step, World.advance, hc] at h
    | some call =>
      obtain ⟨phase, hlands, hfollows⟩ := advance_lands hc (hlaw.phases n call hc) h
      have hidx := hlaw.indices n call hc
      refine .inl ⟨n, call.arg, phase, hlands, ⟨hidx.1, hidx.2.trans hlands.keeps.index⟩, ?_, fun call' hc' => ?_⟩
      · cases hr : returned w n with
        | none => rfl
        | some _ =>
          obtain ⟨arg, answer, hc'⟩ := returned_eq_some.1 hr
          rw [hc] at hc'
          cases hc'
          cases hfollows
      · rw [hc] at hc'
        cases hc'
        exact ⟨rfl, hfollows⟩
  | attempt c =>
    simp only [step] at h
    split_ifs at h
    obtain ⟨d, hd, rfl⟩ := Option.map_eq_some_iff.1 h
    exact .inr ⟨rfl, fun n => keeps_dag (ends_step (accept_step hd))⟩

/-- Whether the task was found to be skipped, once that is decided. -/
def Phase.skips : Phase → Option Bool
  | .creating _ _ failed => some failed.isSome
  | .created _ failed => some failed.isSome
  | .skipping .. => some true
  | .running _ => some false
  | .journaling .. => some false
  | .finishing .. => some false
  | .answered .skipped _ => some true
  | .answered .settled _ => some false
  | _ => none

def Phase.isRefused : Phase → Bool
  | .answered .refused _ => true
  | _ => false

/-- The script has the answers of the dependencies, and their tasks ended accordingly. -/
def Ready (w₀ w : World) (dependencies : List Nat) : Prop :=
  ∀ d ∈ dependencies, ∃ envelope, returned w₀ d = some envelope ∧ returned w d = some envelope ∧
    backed w d envelope = true

/-- What the admission of a call with these dependencies has come to. -/
def Admission (w : World) (dependencies : List Nat) (null : Prop) : Phase → Prop
  | .resolved ids => ∀ id, id ∈ ids ↔ ∃ d ∈ dependencies, w.declarationTasks[d]? = some id
  | phase => phase.isRefused = false ∧ ∀ skipped, phase.skips = some skipped → (skipped = true ↔ null)

variable {w₀ : World}

theorem Ready.task (h : Ready w₀ w dependencies) {d : Nat}
    (hd : d ∈ dependencies) : ∃ id envelope, w.declarationTasks[d]? = some id ∧ returned w₀ d = some envelope ∧
      (badIn w.dag.tasks id = true ∨ succeededIn w.dag.tasks id = true) ∧
      (badIn w.dag.tasks id = true ↔ envelope.isNull = true) := by
  obtain ⟨envelope, hret, -, hback⟩ := h d hd
  unfold backed at hback
  cases hid : w.declarationTasks[d]? with
  | none => simp [hid] at hback
  | some id =>
    refine ⟨id, envelope, rfl, hret, ?_⟩
    simp only [hid, Option.any_some] at hback
    by_cases hn : envelope.isNull = true
    · rw [if_pos hn] at hback
      exact ⟨.inl hback, fun _ => hn, fun _ => hback⟩
    · rw [if_neg hn] at hback
      refine ⟨.inr hback, fun hb => ?_, fun hn' => absurd hn' hn⟩
      rw [not_succeededIn_of_badIn hb] at hback
      cases hback

theorem Admission.congr {null : Prop} (hdecl : ∀ d ∈ dependencies, w'.declarationTasks[d]? = w.declarationTasks[d]?)
    (h : Admission w dependencies null phase) : Admission w' dependencies null phase := by
  cases phase with
  | resolved _ =>
    intro id
    rw [h id]
    refine exists_congr (fun d => and_congr_right (fun hd => ?_))
    rw [hdecl d hd]
  | _ => exact h

/-- The dependencies are named once each, the run goes on, and each answer that came from the journal is the outcome of
the task its declaration has in the graph. -/
structure Backs (E : Env) (w : World) (n : Nat) (arg : String) : Prop where
  once : (E.dependencies arg).Nodup
  small : n < 4294967296
  live : w.cancelled = false
  replayed : ∀ d ∈ E.dependencies arg, ∀ text envelope, w.calls[d]? = some ⟨text, .answered .replayed envelope⟩ →
    backed w d envelope = true

theorem Backs.ready (h : Backs E w n arg) (hlaw : RunLaw w)
    (hreturned : ∀ d ∈ E.dependencies arg, ∃ envelope, returned w d = some envelope) : Ready w w (E.dependencies arg) := by
  intro d hd
  obtain ⟨envelope, hret⟩ := hreturned d hd
  refine ⟨envelope, hret, hret, ?_⟩
  obtain ⟨text, answer, hc⟩ := returned_eq_some.1 hret
  have hphase := hlaw.phases d _ hc
  cases answer with
  | replayed => exact h.replayed d hd text envelope hc
  | skipped | settled => exact hphase
  | refused =>
    have hcancelled : w.cancelled = true := hphase
    rw [h.live] at hcancelled
    cases hcancelled

theorem Ready.kept (h : Ready w₀ w dependencies)
    (hk : Keeps w w' m) (hm : ∀ d ∈ dependencies, d ≠ m) : Ready w₀ w' dependencies := by
  intro d hd
  obtain ⟨envelope, hret0, hret, hback⟩ := h d hd
  refine ⟨envelope, hret0, ?_, backed_kept (hk.declarations d (hm d hd)) hk.ends hback⟩
  unfold returned at hret ⊢
  rw [hk.calls d (hm d hd)]
  exact hret

namespace Sample

/-- What `agent(prompt, { dependsOn })` sends. -/
def wireCall (prompt dependsOn : String) : String :=
  "\x7b\"prompt\":\"" ++ prompt ++ "\",\"label\":null,\"phase\":null,\"model\":null,\"effort\":null," ++
    "\"agentType\":null,\"speculativeSiblings\":null,\"dependsOn\":" ++ dependsOn ++
    ",\"quorumGroup\":null,\"schema\":null\x7d"

def decode (text : String) : Option RawCall :=
  if text = wireCall "A" "null" then some { prompt := "A" }
  else if text = wireCall "B" "[1]" then some { prompt := "B", dependsOn := some [1] }
  else if text = wireCall "B" "[2]" then some { prompt := "B", dependsOn := some [2] }
  else none

def agentKey (raw : RawCall) : String :=
  if raw.prompt = "A" then "v2:35c92e2e01163080e30c51bb768b6c8d07f12431e3a67b79a121e3f5c925765a"
  else if raw.dependsOn = some [1] then "v2:bc8b6a1e08f11824e16bf361bb0846d9df1f5a2999db0dcafffcf8ee88c72cab"
  else "v2:7b599f33bea5eafa6aa9781ebf28ebe5c4ea48a2115ddedd71125ce202ff37cb"

def doneText : String := "\x7b\"outcome\":\x7b\"t\":\"text\",\"text\":\"done\"\x7d,\"tokens\":7,\"tool_calls\":0\x7d"

def digestBytes (text : String) : String :=
  if text = wireCall "A" "null" then "a857336eb4ee3b561ee15386b0cb58c5493a250a1e928cb21e581957fa653534"
  else if text = wireCall "B" "[1]" then "6c0e67bef54ca9482b586546c5bd09fd83ff10bb1ef70eee3fa7336e9f7f971b"
  else if text = wireCall "B" "[2]" then "5a83b59843bcc4303d689c1fa8d2251520f7bbe4df835910fded7fe6e176d9ad"
  else "7b4ec2adc25c2da1239684c0c17b80d9fd183eb2b6703c8ad49440a677dd22f1"

def env : Env :=
  { decode := decode
    agentKey := agentKey
    rejectedAgentKey := fun _ code => code
    digestBytes := digestBytes
    digestBytes_valid := by
      intro text
      unfold digestBytes
      split_ifs <;> rfl
    recordText := fun _ => doneText
    maxSiblings := 0
    digests := sampleDigests
    taskBudget := { maxTurns := 1, maxTokens := 10, maxCostMicrousd := 10, maxWallMs := 100 } }

/-- The run of events from a fresh graph and an empty journal. -/
def run (events : List Event) : Option World :=
  match TaskDag.new env.digests sampleConfig with
  | .ok d => (World.openRun env d ∅).bind (fun w => events.foldlM (step env) w)
  | .error _ => none

/-- Eight steps take a call from its journal miss to its answer. -/
def live (n : Nat) (outcome : Live) : List Event := List.replicate 8 (.advance n outcome)

def done : Live := .text "done" 7 0 none

end Sample

namespace Sample

def first : List Event := .call (wireCall "A" "null") :: live 1 done

/-- The same call twice: the second is answered from the journal. -/
def twice : List Event := first ++ [Event.call (wireCall "A" "null"), .advance 2 done]

def steps (n count : Nat) (w : World) : Option World := (List.replicate count (.advance n done)).foldlM (step env) w

theorem evaluated : (env.dependencies (wireCall "B" "[1]") = [1] ∧
      (run first).any (fun w₁ => let w := w₁.call (wireCall "B" "[1]")
        decide (w₁.index = 1) && !w₁.cancelled && (returned w 1).any (backed w 1) && (steps 2 4 w).isSome) = true) ∧
    env.dependencies (wireCall "B" "[2]") = [2] ∧
    (run twice).any (fun w₁ => let w := w₁.call (wireCall "B" "[2]")
      decide (w₁.index = 2) && (returned w 2).any (fun envelope => !envelope.isNull) &&
      (steps 3 2 w).any (fun w => w.cancelled &&
        (w.calls[3]?).any (fun call => decide (call.arg = wireCall "B" "[2]") && call.phase.isRefused))) = true := by
  decide +kernel

end Sample

end Iteron.WorkflowAgent
