import Iteron.DagBudget
import Iteron.DagOrphans
/-!
# DagReconcile — ending what a cut log left open

Reconciliation charges every open attempt one more turn, ends it with an unknown effect, and then ends every open task.
Each command it submits is accepted on a flat graph (`attempts_end`, `tasks_end`) as long as the turns of a task leave
room for its open attempts, those of an attempt that was already charged when the log was cut included.
-/
namespace Iteron.Dag
namespace ExecutionLedger

open Machine Refuse TaskDag

variable {C : Codec} {H : Digests} {io : Nat → Append}

/-! ## Room in the log -/

/-- The log takes the commands under successive ids, as far as they are accepted: fresh ids, and event and byte capacity
for every entry. -/
def Room (C : Codec) (H : Digests) (io : Nat → Append) : TaskDagStore → Nat → List Command → Prop
  | _, _, [] => True
  | s, next, c :: cs =>
    s.poisoned = none ∧ (next ≠ 0 ∧ next < u64Max ∧ FreshId s.dag next) ∧
    s.dag.sequence < s.dag.config.limits.maxEvents ∧
    (∃ line, encodeLine C (.command (entryOf H s.dag next c)) = .ok line ∧ s.bytes + line.length ≤ maxLogBytes) ∧
    io next = .synced ∧
    ∀ s' receipt, s.submit C H next c (io next) = some (s', .ok receipt) → Room C H io s' (next + 1) cs

structure Capacity (C : Codec) (H : Digests) (io : Nat → Append) (s : TaskDagStore) (next : Nat) : Prop where
  attempts : Room C H io s next ((Table.vals s.dag.attempts).flatMap attemptRecovery)
  tasks : ∀ s' next', submitRecovery C H io s next ((Table.vals s.dag.attempts).flatMap attemptRecovery) =
    some (s', next', .ok ()) → Room C H io s' next' ((Table.vals s'.dag.tasks).flatMap taskRecovery)

variable {s : TaskDagStore} {next : Nat} {cs : List Command} {c : Command}

theorem submitRecovery_valid {a : TaskDag} (hroom : Room C H io s next (c :: cs))
    (hshape : s.dag.validateCommandShape c = .ok ()) (hvalid : s.dag.validateCommand H c = .ok ())
    (happly : s.dag.applyValidated c = some a) :
    ∃ s', submitRecovery C H io s next (c :: cs) = submitRecovery C H io s' (next + 1) cs ∧
      Room C H io s' (next + 1) cs ∧ s'.dag.tasks = a.tasks ∧ s'.dag.attempts = a.attempts := by
  obtain ⟨hpoisoned, ⟨hid, _, hfresh⟩, _, ⟨_, hline, _⟩, hio, hnext⟩ := hroom
  have hprepare : s.dag.prepare H next c = .ok (.new (entryOf H s.dag next c)) := by
    unfold prepare
    rw [if_neg hid, hshape]
    simp only [show s.dag.commands[next]? = none from hfresh]
    rw [if_neg (by omega), hvalid]
  have hcommit : s.dag.commit (entryOf H s.dag next c) = some
      { a with
        sequence := s.dag.sequence + 1
        headDigest := (entryOf H s.dag next c).entryDigest
        commands := s.dag.commands.insert next
          { sequence := s.dag.sequence + 1, commandDigest := H.command c } } := by
    simp [commit, entryOf, happly]
  have hsubmit : ∃ s', s.submit C H next c (io next) =
      some (s', .ok { sequence := s.dag.sequence + 1, replayed := false }) ∧
      s'.dag.tasks = a.tasks ∧ s'.dag.attempts = a.attempts := by
    unfold TaskDagStore.submit
    rw [hpoisoned, hprepare]
    simp only [hline]
    rw [if_neg (by omega), hio]
    simp only [hcommit]
    exact ⟨_, rfl, rfl, rfl⟩
  obtain ⟨s', hs', htasks, hattempts⟩ := hsubmit
  have hadd : saturatingAdd next 1 = next + 1 := by
    unfold saturatingAdd
    omega
  refine ⟨s', ?_, hnext s' _ hs', htasks, hattempts⟩
  rw [submitRecovery, hs']
  simp only [hadd]

/-! ## Attempts -/

def lostText : String := "prior controller exited without an attempt receipt"

def endAttempt (ids : List AttemptId) (i : AttemptId) (a : Attempt) : Attempt :=
  if i ∈ ids ∧ a.state.isTerminal = false then { a with state := .unknownEffect lostText } else a

def chargeTurns (n : Nat) (x : Task) : Task := { x with usage := { x.usage with turns := x.usage.turns + n } }

def openIn (attempts : List Attempt) (k : TaskId) : Nat :=
  (attempts.filter (fun a => a.spec.task == k && !a.state.isTerminal)).length

theorem endAttempt_cons_ne {ids : List AttemptId} {i j : AttemptId} (h : j ≠ i) :
    endAttempt (j :: ids) i = endAttempt ids i := by
  funext a
  simp [endAttempt, Ne.symm h]

variable {x : Task}

theorem budgetFits_turn (h : budgetFits x.spec.budget x.usage {} {} = .ok () ∧ x.usage.wallMs ≤ u64Max)
    (hroom : x.usage.turns + 1 ≤ x.spec.budget.maxTurns.toNat) :
    x.usage.checkedAdd { turns := 1 } = some (chargeTurns 1 x).usage ∧
      budgetFits x.spec.budget (chargeTurns 1 x).usage {} {} = .ok () := by
  obtain ⟨hfits, hwall⟩ := h
  simp only [budgetFits, bind_eq_ok, orElseError_eq_ok, refuseIf_eq_ok] at hfits
  obtain ⟨r, hr, turns, _, _, _, _, h3, _, _, _, h5, _, _, h7⟩ := hfits
  obtain rfl : r = {} := checkedAdd_empty hr
  have hturns := x.spec.budget.maxTurns.toNat_lt
  have htokens : x.usage.tokens ≤ u64Max := by
    unfold Machine.checkedAdd at h3
    split at h3
    · assumption
    · cases h3
  have hcost : x.usage.costMicrousd ≤ u64Max := by
    unfold Machine.checkedAdd at h5
    split at h5
    · assumption
    · cases h5
  have hmax : u64Max = 18446744073709551615 := rfl
  have hturn : Machine.checkedAdd x.usage.turns 1 = some (x.usage.turns + 1) := if_pos (by omega)
  have hturn0 : Machine.checkedAdd (x.usage.turns + 1) 0 = some (x.usage.turns + 1) := if_pos (by omega)
  have htoken0 : Machine.checkedAdd x.usage.tokens 0 = some x.usage.tokens := if_pos htokens
  have hcost0 : Machine.checkedAdd x.usage.costMicrousd 0 = some x.usage.costMicrousd := if_pos hcost
  have hwall0 : Machine.checkedAdd x.usage.wallMs 0 = some x.usage.wallMs := if_pos hwall
  constructor
  · simp [BudgetUsage.checkedAdd, hturn, htoken0, hcost0, hwall0, chargeTurns]
  · simp only [budgetFits, bind_eq_ok, orElseError_eq_ok, refuseIf_eq_ok]
    refine ⟨{}, rfl, _, hturn0, (), by omega, _, htoken0, (), ?_, _, hcost0, (), ?_, h7⟩
    · have := checkedAdd_eq_some h3
      simp only [Nat.add_zero] at this
      omega
    · have := checkedAdd_eq_some h5
      simp only [Nat.add_zero] at this
      omega

def settleAttempt (a : Attempt) : List Command :=
  [.chargeBudget .controller a.spec.task { turns := 1 },
    .completeAttempt .controller a.spec.id .unknownEffect .unknownEffect none none (some lostText)]

theorem settle_running (a : Attempt) (h : Flat s.dag)
    (ha : s.dag.attempts[a.spec.id]? = some a) (hrun : a.state = .running) (hx : s.dag.tasks[a.spec.task]? = some x)
    (hstate : x.state = .running) (hturns : x.usage.turns + 1 ≤ x.spec.budget.maxTurns.toNat)
    (hroom : Room C H io s next (settleAttempt a ++ cs)) :
    ∃ s' next', submitRecovery C H io s next (settleAttempt a ++ cs) = submitRecovery C H io s' next' cs ∧
      Room C H io s' next' cs ∧ Flat s'.dag ∧ s'.dag.tasks = s.dag.tasks.insert a.spec.task (chargeTurns 1 x) ∧
      s'.dag.attempts = s.dag.attempts.insert a.spec.id { a with state := .unknownEffect lostText } := by
  obtain ⟨hadd, hfits⟩ := budgetFits_turn (h.fits _ x hx) hturns
  rw [show settleAttempt a ++ cs = .chargeBudget .controller a.spec.task { turns := 1 } ::
    .completeAttempt .controller a.spec.id .unknownEffect .unknownEffect none none (some lostText) :: cs from rfl]
    at hroom ⊢
  -- the charge
  have hcharge : s.dag.validateCommand H (.chargeBudget .controller a.spec.task { turns := 1 }) = .ok () := by
    simp only [validateCommand, validateCharge, bind_eq_ok, refuseIf_eq_ok, requireTask_eq_ok, orElseError_eq_ok]
    refine ⟨(), by simp, x, hx, (), by simp [hstate, TaskState.isAdmitted], (), by decide, _, hadd, ?_⟩
    rw [(h.parent _ x hx).2]
    exact hfits
  have hcharged : s.dag.applyValidated (.chargeBudget .controller a.spec.task { turns := 1 }) = some
      { s.dag with tasks := s.dag.tasks.insert a.spec.task (chargeTurns 1 x) } := by
    simp [applyValidated, hx, hadd, chargeTurns]
  obtain ⟨s1, hsub1, hroom1, htasks1, hattempts1⟩ := submitRecovery_valid hroom rfl hcharge hcharged
  have hflat1 : Flat s1.dag := (h.step (by exact trivial) hcharge hcharged).congr htasks1 hattempts1
  -- the terminal
  have ha1 : s1.dag.attempts[a.spec.id]? = some a := by
    rw [hattempts1]
    exact ha
  have hend : s1.dag.validateCommand H (.completeAttempt .controller a.spec.id .unknownEffect .unknownEffect none none
      (some lostText)) = .ok () := by
    have hvisible : validateVisible lostText maxReasonBytes "unknown-effect reason" = .ok () := by
      rw [validateVisible, lostText, String.toList_ofList]
      rfl
    simp only [validateCommand, validateAttemptCompletion, bind_eq_ok, refuseIf_eq_ok, requireAttempt, orElseError_eq_ok]
    exact ⟨(), by simp, a, ha1, (), by simp [hrun], _, rfl, (), hvisible, by simp⟩
  have hended : s1.dag.applyValidated (.completeAttempt .controller a.spec.id .unknownEffect .unknownEffect none none
      (some lostText)) = some
      { s1.dag with attempts := s1.dag.attempts.insert a.spec.id { a with state := .unknownEffect lostText } } := by
    simp [applyValidated, attemptTerminal, setAttemptState, ha1]
  have hshape : s1.dag.validateCommandShape (.completeAttempt .controller a.spec.id .unknownEffect .unknownEffect none none
      (some lostText)) = .ok () := by
    rfl
  obtain ⟨s2, hsub2, hroom2, htasks2, hattempts2⟩ := submitRecovery_valid hroom1 hshape hend hended
  refine ⟨s2, next + 1 + 1, ?_, hroom2, (hflat1.step (by exact trivial) hend hended).congr htasks2 hattempts2, ?_, ?_⟩
  · rw [hsub1, hsub2]
  · rw [htasks2]
    exact htasks1
  · rw [hattempts2]
    exact congrArg (fun t => t.insert a.spec.id { a with state := .unknownEffect lostText }) hattempts1

theorem insert_insert_attempt (t : Std.ExtTreeMap AttemptId Attempt) (i : AttemptId) (a b : Attempt) :
    (t.insert i a).insert i b = t.insert i b := by
  refine Std.ExtTreeMap.ext_getElem? (fun {j} => ?_)
  rw [Table.get_insert, Table.get_insert, Table.get_insert]
  by_cases hj : i = j
  · rw [if_pos hj, if_pos hj]
  · rw [if_neg hj, if_neg hj, if_neg hj]

theorem settle_open {a : Attempt} (h : Flat s.dag)
    (ha : s.dag.attempts[a.spec.id]? = some a) (hopen : a.state.isTerminal = false)
    (hx : s.dag.tasks[a.spec.task]? = some x) (hstate : x.state = .running)
    (hturns : x.usage.turns + 1 ≤ x.spec.budget.maxTurns.toNat) (hroom : Room C H io s next (attemptRecovery a ++ cs)) :
    ∃ s' next', submitRecovery C H io s next (attemptRecovery a ++ cs) = submitRecovery C H io s' next' cs ∧
      Room C H io s' next' cs ∧ Flat s'.dag ∧ s'.dag.tasks = s.dag.tasks.insert a.spec.task (chargeTurns 1 x) ∧
      s'.dag.attempts = s.dag.attempts.insert a.spec.id { a with state := .unknownEffect lostText } := by
  have hcases : a.state = .running ∨ a.state = .registered := by
    cases hs : a.state with
    | running => exact .inl rfl
    | registered => exact .inr rfl
    | _ => rw [hs] at hopen; cases hopen
  rcases hcases with hrun | hreg
  · have hcommands : attemptRecovery a = settleAttempt a := by
      simp [attemptRecovery, settleAttempt, hrun, AttemptState.isTerminal, lostText]
    rw [hcommands] at hroom ⊢
    exact settle_running a h ha hrun hx hstate hturns hroom
  · have hcommands : attemptRecovery a ++ cs = .startAttempt .controller a.spec.id :: (settleAttempt a ++ cs) := by
      simp [attemptRecovery, settleAttempt, hreg, AttemptState.isTerminal, lostText]
    rw [hcommands] at hroom ⊢
    have hstart : s.dag.validateCommand H (.startAttempt .controller a.spec.id) = .ok () := by
      simp only [validateCommand, validateStartAttempt, bind_eq_ok, refuseIf_eq_ok, requireAttempt, orElseError_eq_ok,
        requireTask_eq_ok]
      exact ⟨(), by simp, a, ha, (), by simp [hreg], x, hx, by simp [hstate]⟩
    have hstarted : s.dag.applyValidated (.startAttempt .controller a.spec.id) = some
        { s.dag with attempts := s.dag.attempts.insert a.spec.id { a with state := .running } } := by
      simp [applyValidated, setAttemptState, ha]
    obtain ⟨s1, hsub1, hroom1, htasks1, hattempts1⟩ := submitRecovery_valid hroom rfl hstart hstarted
    have hflat1 : Flat s1.dag := (h.step (by exact trivial) hstart hstarted).congr htasks1 hattempts1
    have ha1 : s1.dag.attempts[a.spec.id]? = some { a with state := .running } := by
      rw [hattempts1]
      rw [Table.get_insert, if_pos rfl]
    obtain ⟨s2, next2, hsub2, hroom2, hflat2, htasks2, hattempts2⟩ :=
      settle_running { a with state := .running } hflat1 ha1 rfl (by rw [htasks1]; exact hx) hstate hturns hroom1
    refine ⟨s2, next2, hsub1.trans hsub2, hroom2, hflat2, ?_, ?_⟩
    · rw [htasks2, htasks1]
    · rw [hattempts2, hattempts1]
      exact insert_insert_attempt _ _ _ _

/-- **Every attempt is ended and charged one turn**: by induction on the attempts the snapshot holds. -/
theorem attempts_end : ∀ (as : List Attempt) (s : TaskDagStore) (next : Nat), Flat s.dag →
    (as.map (fun a => a.spec.id)).Nodup → (∀ a ∈ as, s.dag.attempts[a.spec.id]? = some a) →
    (∀ (k : TaskId) (x : Task), s.dag.tasks[k]? = some x → x.usage.turns + openIn as k ≤ x.spec.budget.maxTurns.toNat) →
    Room C H io s next (as.flatMap attemptRecovery) →
    ∃ s' next', submitRecovery C H io s next (as.flatMap attemptRecovery) = some (s', next', .ok ()) ∧ Flat s'.dag ∧
      (∀ k : TaskId, s'.dag.tasks[k]? = (s.dag.tasks[k]?).map (chargeTurns (openIn as k))) ∧
      ∀ i : AttemptId, s'.dag.attempts[i]? = (s.dag.attempts[i]?).map (endAttempt (as.map (fun a => a.spec.id)) i)
  | [], s, next, hflat, _, _, _, _ => by
    refine ⟨s, next, rfl, hflat, fun k => ?_, fun i => ?_⟩
    · rw [show chargeTurns (openIn [] k) = id from rfl, Option.map_id]
      rfl
    · rw [show endAttempt ([].map (fun a : Attempt => a.spec.id)) i = id from by funext a; simp [endAttempt], Option.map_id]
      rfl
  | a :: as, s, next, hflat, hnodup, hmem, hturns, hroom => by
    have hhead := hmem a (.head _)
    obtain ⟨hnotin, hnodup⟩ := List.nodup_cons.1 hnodup
    rw [List.flatMap_cons] at hroom ⊢
    by_cases hterm : a.state.isTerminal = true
    · -- an attempt that ended is passed over
      have hnone : attemptRecovery a = [] := by simp [attemptRecovery, hterm]
      have hopen : ∀ k, openIn (a :: as) k = openIn as k := fun k => by simp [openIn, hterm]
      rw [hnone, List.nil_append] at hroom ⊢
      obtain ⟨s', next', hsub, hflat', htasks, hattempts⟩ := attempts_end as s next hflat hnodup
        (fun b hb => hmem b (.tail _ hb)) (fun k x hx => by rw [← hopen]; exact hturns k x hx) hroom
      refine ⟨s', next', hsub, hflat', fun k => by rw [hopen]; exact htasks k, fun i => ?_⟩
      rw [hattempts]
      by_cases hi : a.spec.id = i
      · subst hi
        rw [hhead]
        simp [endAttempt, hterm]
      · rw [List.map_cons, endAttempt_cons_ne hi]
    · have hopen : a.state.isTerminal = false := by simpa using hterm
      obtain ⟨x, hx, hstate⟩ := hflat.attempt _ a hhead hopen
      have hcount : ∀ k, openIn (a :: as) k = openIn as k + if a.spec.task = k then 1 else 0 := by
        intro k
        by_cases hk : a.spec.task = k
        · simp [openIn, hopen, hk]
        · simp [openIn, hk]
      have hroomTurn : x.usage.turns + 1 ≤ x.spec.budget.maxTurns.toNat := by
        have := hturns _ x hx
        rw [hcount, if_pos rfl] at this
        omega
      obtain ⟨s1, next1, hsub1, hroom1, hflat1, htasks1, hattempts1⟩ :=
        settle_open hflat hhead hopen hx hstate hroomTurn hroom
      have hmem1 : ∀ b ∈ as, s1.dag.attempts[b.spec.id]? = some b := by
        intro b hb
        rw [hattempts1, Table.get_insert, if_neg]
        · exact hmem b (.tail _ hb)
        · intro heq
          exact hnotin (List.mem_map.2 ⟨b, hb, heq.symm⟩)
      have hturns1 : ∀ (k : TaskId) (y : Task), s1.dag.tasks[k]? = some y →
          y.usage.turns + openIn as k ≤ y.spec.budget.maxTurns.toNat := by
        intro k y hy
        rw [htasks1] at hy
        rcases Table.insert_eq_some hy with ⟨rfl, rfl⟩ | ⟨hne, hy⟩
        · have := hturns _ x hx
          rw [hcount, if_pos rfl] at this
          simp only [chargeTurns]
          omega
        · have := hturns k y hy
          rw [hcount, if_neg hne] at this
          exact this
      obtain ⟨s', next', hsub, hflat', htasks, hattempts⟩ := attempts_end as s1 next1 hflat1 hnodup hmem1 hturns1 hroom1
      refine ⟨s', next', hsub1.trans hsub, hflat', fun k => ?_, fun i => ?_⟩
      · rw [htasks, htasks1, Table.get_insert, hcount]
        by_cases hk : a.spec.task = k
        · subst hk
          rw [if_pos rfl, if_pos rfl, hx]
          simp [chargeTurns]
          omega
        · rw [if_neg hk, if_neg hk]
          rfl
      · rw [hattempts, hattempts1, Table.get_insert]
        by_cases hi : a.spec.id = i
        · subst hi
          have hleft : endAttempt (as.map (fun a => a.spec.id)) a.spec.id { a with state := .unknownEffect lostText } =
              { a with state := .unknownEffect lostText } := if_neg (by simp [AttemptState.isTerminal])
          have hright : endAttempt ((a :: as).map (fun a => a.spec.id)) a.spec.id a =
              { a with state := .unknownEffect lostText } := if_pos ⟨by simp, hopen⟩
          rw [if_pos rfl, hhead, Option.map_some, Option.map_some, hleft, hright]
        · rw [if_neg hi, List.map_cons, endAttempt_cons_ne hi]

/-! ## Tasks -/

/-- What reconciliation makes of an open task that is not blocked or cancelling. -/
def endState : TaskState → TaskState
  | .running => .failed "orphan_recovered" "prior controller exited before the task terminal"
  | .ready => .cancelled "prior controller exited before task admission"
  | state => state

theorem endState_of_isTerminal {s : TaskState} (h : s.isTerminal = true) : endState s = s := by
  cases s <;> first | rfl | cases h

theorem isTerminal_endState {s : TaskState} (hb : s ≠ .blocked) (hc : ∀ reason, s ≠ .cancelling reason) :
    (endState s).isTerminal = true := by
  cases s with
  | blocked => cases hb rfl
  | cancelling reason => cases hc reason rfl
  | _ => rfl

def endTask (ids : List TaskId) (k : TaskId) (x : Task) : Task := if k ∈ ids then { x with state := endState x.state } else x

variable {k : TaskId}

theorem endTask_cons_ne {ids : List TaskId} {j : TaskId} (h : j ≠ k) : endTask (j :: ids) k = endTask ids k := by
  funext x
  simp [endTask, Ne.symm h]

variable {d : TaskDag}

theorem isAncestorOrSelf_flat (h : Flat d) (a k : TaskId) : d.isAncestorOrSelf a k = decide (a = k) := by
  unfold isAncestorOrSelf ancestorWalk
  by_cases hak : a = k
  · simp [hak]
  · rw [if_neg hak]
    have hnone : (d.tasks[k]?).bind (fun task => task.spec.parent) = none := by
      cases hk : d.tasks[k]? with
      | none => rfl
      | some x => exact (h.parent k x hk).1
    rw [hnone]
    simp [hak]

theorem cancelTasks_flat (h : Flat d) (hk : d.tasks[k]? = some x) (reason : String) :
    d.cancelTasks k reason = d.tasks.insert k { x with state := cancelState reason x.state } := by
  refine Std.ExtTreeMap.ext_getElem? (fun {j} => ?_)
  rw [cancelTasks_get, Table.get_insert]
  simp only [isAncestorOrSelf_flat h]
  by_cases hj : k = j
  · subst hj
    simp [hk]
  · simp [hj]

theorem end_open (h : Flat s.dag)
    (hattempts : ∀ (i : AttemptId) (a : Attempt), s.dag.attempts[i]? = some a → a.state.isTerminal = true)
    (hx : s.dag.tasks[x.spec.id]? = some x) (hroom : Room C H io s next (taskRecovery x ++ cs)) :
    ∃ s' next', submitRecovery C H io s next (taskRecovery x ++ cs) = submitRecovery C H io s' next' cs ∧
      Room C H io s' next' cs ∧ Flat s'.dag ∧ s'.dag.attempts = s.dag.attempts ∧ ∀ k : TaskId, s'.dag.tasks[k]? =
        if x.spec.id = k then some { x with state := endState x.state } else s.dag.tasks[k]? := by
  have hflat := h.state _ x hx
  cases hstate : x.state with
  | blocked => cases hflat.1 hstate
  | cancelling reason => cases hflat.2 reason hstate
  | running =>
    have hcommands : taskRecovery x = [.completeTask .controller x.spec.id .failed none (some "orphan_recovered")
        (some "prior controller exited before the task terminal")] := by rw [taskRecovery, hstate]
    rw [hcommands, List.singleton_append] at hroom ⊢
    have hterminal : validateTerminal .failed none (some "orphan_recovered")
        (some "prior controller exited before the task terminal") = .ok () := by rfl
    have hvalid : s.dag.validateCommand H (.completeTask .controller x.spec.id .failed none (some "orphan_recovered")
        (some "prior controller exited before the task terminal")) = .ok () := by
      have hchild : s.dag.hasOpenChild x.spec.id = false := by
        refine List.any_eq_false.2 (fun y hy => ?_)
        obtain ⟨k, hk⟩ := (Table.mem_vals _ _).1 hy
        simp [(h.parent k y hk).1]
      have hattempt : s.dag.hasOpenAttempt x.spec.id = false := by
        refine List.any_eq_false.2 (fun a ha => ?_)
        obtain ⟨i, hi⟩ := (Table.mem_vals _ _).1 ha
        simp [hattempts i a hi]
      simp only [validateCommand, validateCompletion, bind_eq_ok, refuseIf_eq_ok, requireTask_eq_ok]
      refine ⟨(), rfl, x, hx, (), by simp [hstate, TaskState.isAdmitted], (), by simp [hchild], (), by simp [hattempt], (),
        by rw [hstate]; rfl, ?_⟩
      exact hterminal
    have happly : s.dag.applyValidated (.completeTask .controller x.spec.id .failed none (some "orphan_recovered")
        (some "prior controller exited before the task terminal")) = some
        { s.dag with tasks := resolveBlocked (s.dag.tasks.insert x.spec.id { x with state := endState x.state }) } := by
      simp [applyValidated, taskTerminal, setState, hx, hstate, endState]
    have hshape : s.dag.validateCommandShape (.completeTask .controller x.spec.id .failed none (some "orphan_recovered")
        (some "prior controller exited before the task terminal")) = .ok () := by
      rfl
    obtain ⟨s1, hsub, hroom1, htasks, hatt⟩ := submitRecovery_valid hroom hshape hvalid happly
    have hflat1 : Flat s1.dag := (h.step (by simp [Plain]) hvalid happly).congr htasks hatt
    refine ⟨s1, next + 1, hsub, hroom1, hflat1, hatt, fun k => ?_⟩
    rw [htasks]
    rw [resolveBlocked_of_none, Table.get_insert, hstate]
    intro j y hj
    rcases Table.insert_eq_some hj with ⟨rfl, rfl⟩ | ⟨-, hj⟩
    · simp [hstate, endState]
    · exact (h.state j y hj).1
  | ready =>
    have hcommands : taskRecovery x = [.requestCancel .controller x.spec.id
        "prior controller exited before task admission"] := by rw [taskRecovery, hstate]
    rw [hcommands, List.singleton_append] at hroom ⊢
    have hvalid : s.dag.validateCommand H (.requestCancel .controller x.spec.id
        "prior controller exited before task admission") = .ok () := by
      have hvisible : validateVisible "prior controller exited before task admission" maxReasonBytes "cancel reason" =
        .ok () := by
        rw [validateVisible, String.toList_ofList]
        rfl
      simp only [validateCommand, validateCancel, bind_eq_ok, refuseIf_eq_ok, requireTask_eq_ok]
      exact ⟨x, hx, (), by simp [hstate, TaskState.isTerminal], (), hvisible, rfl⟩
    have hset : Flat { s.dag with tasks := s.dag.tasks.insert x.spec.id { x with state := endState x.state } } := by
      refine h.setTask rfl (h.parent _ x hx) (by simp [hstate, endState]) (by simp [hstate, endState]) (h.fits _ x hx)
        (fun y hy hrun => ?_)
      rw [hx] at hy
      cases hy
      rw [hstate] at hrun
      cases hrun
    have happly : s.dag.applyValidated (.requestCancel .controller x.spec.id
        "prior controller exited before task admission") = some
        { s.dag with tasks := s.dag.tasks.insert x.spec.id { x with state := endState x.state } } := by
      have hcancel := cancelTasks_flat h hx "prior controller exited before task admission"
      rw [hstate] at hcancel
      rw [show s.dag.applyValidated (.requestCancel .controller x.spec.id
        "prior controller exited before task admission") = some { s.dag with tasks := resolveBlocked (s.dag.cancelTasks
          x.spec.id "prior controller exited before task admission") } from rfl, hcancel, resolveBlocked_of_none, hstate]
      · rfl
      · intro j y hj
        rcases Table.insert_eq_some hj with ⟨rfl, rfl⟩ | ⟨-, hj⟩
        · simp [cancelState]
        · exact (h.state j y hj).1
    have hshape : s.dag.validateCommandShape (.requestCancel .controller x.spec.id
        "prior controller exited before task admission") = .ok () := by
      simp only [validateCommandShape, refuseIf_eq_ok]
      decide
    obtain ⟨s1, hsub, hroom1, htasks, hatt⟩ := submitRecovery_valid hroom hshape hvalid happly
    refine ⟨s1, next + 1, hsub, hroom1, hset.congr htasks hatt, hatt, fun k => ?_⟩
    rw [htasks, Table.get_insert, hstate]
  | _ =>
    have hnone : taskRecovery x = [] := by rw [taskRecovery, hstate]
    have hsame : { x with state := endState x.state } = x := by rw [endState_of_isTerminal (by rw [hstate]; rfl)]
    rw [hnone, List.nil_append] at hroom ⊢
    refine ⟨s, next, rfl, hroom, h, rfl, fun k => ?_⟩
    rw [← hstate, hsame]
    by_cases hk : x.spec.id = k
    · rw [if_pos hk, ← hk, hx]
    · rw [if_neg hk]

/-- **Every task is ended**: by induction on the tasks the snapshot holds, none of which another's end changes. -/
theorem tasks_end : ∀ (xs : List Task) (s : TaskDagStore) (next : Nat), Flat s.dag →
    (∀ (i : AttemptId) (a : Attempt), s.dag.attempts[i]? = some a → a.state.isTerminal = true) →
    (xs.map (fun x => x.spec.id)).Nodup → (∀ x ∈ xs, s.dag.tasks[x.spec.id]? = some x) →
    Room C H io s next (xs.flatMap taskRecovery) →
    ∃ s' next', submitRecovery C H io s next (xs.flatMap taskRecovery) = some (s', next', .ok ()) ∧
      s'.dag.attempts = s.dag.attempts ∧
      ∀ k : TaskId, s'.dag.tasks[k]? = (s.dag.tasks[k]?).map (endTask (xs.map (fun x => x.spec.id)) k)
  | [], s, next, _, _, _, _, _ => by
    refine ⟨s, next, rfl, rfl, fun k => ?_⟩
    rw [show endTask ([].map (fun x : Task => x.spec.id)) k = id from by funext x; simp [endTask], Option.map_id]
    rfl
  | x :: xs, s, next, hflat, hattempts, hnodup, hmem, hroom => by
    have hhead := hmem x (.head _)
    obtain ⟨hnotin, hnodup⟩ := List.nodup_cons.1 hnodup
    rw [List.flatMap_cons] at hroom ⊢
    obtain ⟨s1, next1, hsub1, hroom1, hflat1, hattempts1, htasks1⟩ := end_open hflat hattempts hhead hroom
    have hmem1 : ∀ y ∈ xs, s1.dag.tasks[y.spec.id]? = some y := by
      intro y hy
      rw [htasks1, if_neg]
      · exact hmem y (.tail _ hy)
      · intro heq
        exact hnotin (List.mem_map.2 ⟨y, hy, heq.symm⟩)
    obtain ⟨s', next', hsub, hatt, htasks⟩ := tasks_end xs s1 next1 hflat1 (by rw [hattempts1]; exact hattempts) hnodup
      hmem1 hroom1
    refine ⟨s', next', hsub1.trans hsub, hatt.trans hattempts1, fun k => ?_⟩
    rw [htasks, htasks1]
    by_cases hk : x.spec.id = k
    · subst hk
      have hleft : endTask (xs.map (fun x => x.spec.id)) x.spec.id { x with state := endState x.state } =
          { x with state := endState x.state } := if_neg hnotin
      have hright : endTask ((x :: xs).map (fun x => x.spec.id)) x.spec.id x = { x with state := endState x.state } :=
        if_pos (by simp)
      rw [if_pos rfl, hhead, Option.map_some, Option.map_some, hleft, hright]
    · rw [if_neg hk, List.map_cons, endTask_cons_ne hk]

/-! ## The reconciliation -/

def openAttempts (d : TaskDag) (k : TaskId) : Nat := openIn (Table.vals d.attempts) k

/-- **Everything is ended once**: the reconciliation succeeds, ends every attempt and every task, leaves those that had
ended as they were, gives every open attempt an unknown effect and charges it one turn; and another one does nothing. -/
def Reconciled (C : Codec) (H : Digests) (io : Nat → Append) (s : TaskDagStore) (next : Nat) : Prop :=
  ∃ s' next', reconcileNonterminal C H io s next = some (s', next', .ok ()) ∧
    (∀ i : AttemptId, s'.dag.attempts[i]? = (s.dag.attempts[i]?).map
      (fun a => if a.state.isTerminal then a else { a with state := .unknownEffect lostText })) ∧
    (∀ (k : TaskId) (x' : Task), s'.dag.tasks[k]? = some x' → x'.state.isTerminal = true) ∧
    (∀ (k : TaskId) (x : Task), s.dag.tasks[k]? = some x → ∃ x', s'.dag.tasks[k]? = some x' ∧ x'.spec = x.spec ∧
      x'.usage = { x.usage with turns := x.usage.turns + openAttempts s.dag k } ∧ (x.state.isTerminal = true → x' = x)) ∧
    ∀ io' again, reconcileNonterminal C H io' s' again = some (s', again, .ok ())

theorem nodup_ids {α β : Type} {cmp : α → α → Ordering} [Std.TransCmp cmp] [Std.LawfulEqCmp cmp]
    {t : Std.ExtTreeMap α β cmp} {f : β → α} (h : ∀ (k : α) (v : β), t[k]? = some v → f v = k) :
    ((Table.vals t).map f).Nodup := by
  have hkeys : (Table.vals t).map f = t.keys := by
    rw [← Std.ExtTreeMap.map_fst_toList_eq_keys, Table.vals, List.map_map]
    exact List.map_congr_left (fun p hp => h p.1 p.2 ((Table.mem_toList _ _ _).1 hp))
  rw [hkeys]
  exact Std.ExtTreeMap.nodup_keys

theorem openAttempts_eq_zero (h : Flat d) (hk : d.tasks[k]? = some x)
    (hterm : x.state.isTerminal = true) : openAttempts d k = 0 := by
  unfold openAttempts openIn
  rw [List.length_eq_zero_iff, List.filter_eq_nil_iff]
  intro a ha hopen
  obtain ⟨i, hi⟩ := (Table.mem_vals _ _).1 ha
  simp only [Bool.and_eq_true, beq_iff_eq, Bool.not_eq_true'] at hopen
  obtain ⟨y, hy, hrun⟩ := h.attempt i a hi hopen.2
  rw [hopen.1, hk] at hy
  cases hy
  rw [hrun] at hterm
  cases hterm

/-- **On a flat graph with turns left for its open attempts everything is ended.** -/
theorem reconciled_of_room (h : Flat s.dag) (hcap : Capacity C H io s next)
    (hturns : ∀ (k : TaskId) (x : Task), s.dag.tasks[k]? = some x →
      x.usage.turns + openAttempts s.dag k ≤ x.spec.budget.maxTurns.toNat) : Reconciled C H io s next := by
  obtain ⟨s1, next1, hsub1, hflat1, htasks1, hattempts1⟩ := attempts_end _ s next h (nodup_ids h.attemptId)
    (fun a ha => by
      obtain ⟨i, hi⟩ := (Table.mem_vals _ _).1 ha
      rw [h.attemptId i a hi]
      exact hi) hturns hcap.attempts
  -- every attempt of the table was read
  have hended : ∀ i : AttemptId, s1.dag.attempts[i]? = (s.dag.attempts[i]?).map
      (fun a => if a.state.isTerminal then a else { a with state := .unknownEffect lostText }) := by
    intro i
    rw [hattempts1]
    cases hi : s.dag.attempts[i]? with
    | none => rfl
    | some a =>
      have hmem : i ∈ (Table.vals s.dag.attempts).map (fun a => a.spec.id) :=
        List.mem_map.2 ⟨a, (Table.mem_vals _ _).2 ⟨i, hi⟩, h.attemptId i a hi⟩
      rw [Option.map_some, Option.map_some, endAttempt]
      by_cases hterm : a.state.isTerminal = true
      · simp [hterm]
      · simp [hterm, hmem]
  have hterminal : ∀ (i : AttemptId) (a : Attempt), s1.dag.attempts[i]? = some a → a.state.isTerminal = true := by
    intro i a hi
    rw [hended] at hi
    obtain ⟨b, -, rfl⟩ := Option.map_eq_some_iff.1 hi
    split
    · assumption
    · rfl
  obtain ⟨s2, next2, hsub2, hattempts2, htasks2⟩ := tasks_end _ s1 next1 hflat1 hterminal (nodup_ids hflat1.id)
    (fun x hx => by
      obtain ⟨k, hk⟩ := (Table.mem_vals _ _).1 hx
      rw [hflat1.id k x hk]
      exact hk) (hcap.tasks s1 next1 hsub1)
  have hfinal : ∀ k : TaskId, s2.dag.tasks[k]? =
      (s1.dag.tasks[k]?).map (fun x => { x with state := endState x.state }) := by
    intro k
    rw [htasks2]
    cases hk : s1.dag.tasks[k]? with
    | none => rfl
    | some x =>
      have hmem : k ∈ (Table.vals s1.dag.tasks).map (fun x => x.spec.id) :=
        List.mem_map.2 ⟨x, (Table.mem_vals _ _).2 ⟨k, hk⟩, hflat1.id k x hk⟩
      rw [Option.map_some, Option.map_some, endTask, if_pos hmem]
  have hdone : ∀ (k : TaskId) (x' : Task), s2.dag.tasks[k]? = some x' → x'.state.isTerminal = true := by
    intro k x' hk
    rw [hfinal] at hk
    obtain ⟨x, hx, rfl⟩ := Option.map_eq_some_iff.1 hk
    exact isTerminal_endState (hflat1.state k x hx).1 (hflat1.state k x hx).2
  refine ⟨s2, next2, ?_, fun i => by rw [hattempts2]; exact hended i, hdone, fun k x hk => ?_, fun io' again => ?_⟩
  · unfold reconcileNonterminal
    rw [hsub1]
    exact hsub2
  · refine ⟨{ chargeTurns (openAttempts s.dag k) x with state := endState x.state }, ?_, rfl, rfl, fun hterm => ?_⟩
    · rw [hfinal, htasks1, hk]
      rfl
    · rw [openAttempts_eq_zero h hk hterm, endState_of_isTerminal hterm]
      rfl
  · refine reconcile_nothing (List.flatMap_eq_nil_iff.2 (fun a ha => ?_)) (List.flatMap_eq_nil_iff.2 (fun x hx => ?_))
    · obtain ⟨i, hi⟩ := (Table.mem_vals _ _).1 ha
      rw [hattempts2] at hi
      simp [attemptRecovery, hterminal i a hi]
    · obtain ⟨k, hk⟩ := (Table.mem_vals _ _).1 hx
      have hterm := hdone k x hk
      unfold taskRecovery
      cases hs : x.state <;> rw [hs] at hterm <;> first | rfl | cases hterm

/-! ## Reachability -/

variable {config : Config} {d' : TaskDag}

theorem batch_reachable {commands : List (Nat × Command)} (h : Reachable H config d) (hbatch : Batch H d commands d') :
    Reachable H config d' := by
  induction hbatch with
  | nil d => exact h
  | cons d d1 _ id c _ receipt happly _ ih => exact ih (.step d d1 id c receipt h trivial happly)

variable {budget : TaskBudget}

theorem Cut.reachable (h : Cut H config budget d) : Reachable H config d := by
  obtain ⟨_, op, _, _, _, hd0, -, hkept, -⟩ := h
  refine batch_reachable ?_ hkept
  clear hkept
  induction hd0 with
  | new d hd => exact .new d hd
  | operation d _ op _ _ _ hbatch ih => exact batch_reachable ih hbatch

variable {id : Nat}

theorem submit_reachable {s' : TaskDagStore} {append : Append} {r : Except DagError ApplyReceipt}
    (h : Reachable H config s.dag) (hs : s.submit C H id c append = some (s', r)) : Reachable H config s'.dag := by
  rcases submit_outcome hs with ⟨hdag, -⟩ | ⟨e, hp, hc, -⟩
  · rw [hdag]
    exact h
  · refine .step s.dag s'.dag id c { sequence := e.sequence, replayed := false } h trivial ?_
    unfold TaskDag.apply
    rw [hp]
    simp only [hc, Option.map_some]

theorem submitRecovery_reachable {config : Config} : ∀ {cs : List Command} {s s' : TaskDagStore} {next next' : Nat}
    {r : Except DagError Unit}, submitRecovery C H io s next cs = some (s', next', r) → Reachable H config s.dag →
    Reachable H config s'.dag
  | [], _, _, _, _, _, h, hs => by
    cases h
    exact hs
  | c :: cs, s, s', next, next', r, h, hs => by
    obtain ⟨e, hsub, -, -⟩ | ⟨_, _, hsub, hrest⟩ := submitRecovery_cons h
    · exact submit_reachable hs hsub
    · exact submitRecovery_reachable hrest (submit_reachable hs hsub)

/-- **When a cut log can be reconciled**: exactly when every task has turns left for its open attempts. -/
theorem orphans_reconciled {config : Config} {budget : TaskBudget} {s : TaskDagStore} {next : Nat}
    (hcut : Cut H config budget s.dag) (hcap : Capacity C H io s next) :
    Reconciled C H io s next ↔ ∀ (k : TaskId) (x : Task), s.dag.tasks[k]? = some x →
      x.usage.turns + openAttempts s.dag k ≤ x.spec.budget.maxTurns.toNat := by
  constructor
  · rintro ⟨s', _, hrec, -, -, htasks, -⟩ k x hk
    have hreach : Reachable H config s'.dag := by
      obtain ⟨_, _, _, hfirst, heq | ⟨-, hlast⟩⟩ := reconcile_cases hrec
      · cases heq
        exact submitRecovery_reachable hfirst hcut.reachable
      · exact submitRecovery_reachable hlast (submitRecovery_reachable hfirst hcut.reachable)
    obtain ⟨x', hx', hspec, husage, -⟩ := htasks k x hk
    -- the accounts of every reachable graph stay within their budgets
    have hfits := hreach.budgetLaw.2.fits k x' hx' .turns
    simp only [amountUsed, ceiling, amountReserved, TaskBudget.reservable, husage, hspec] at hfits
    omega
  · exact reconciled_of_room hcut.flat hcap

/-! ## Two crashes -/

def oneTurn : TaskBudget := { maxTurns := 1, maxTokens := 10, maxCostMicrousd := 10, maxWallMs := 100 }

def sampleInput : String := .ofList (List.replicate 64 'a')

def beginFirst : Operation := .beginTask 1 1 sampleInput [] 1

/-- The line of the recovery's cancellation, as it is written. -/
def orphanText : String :=
  "\x7b\"record\":\"command\",\"entry\":\x7b\"version\":1,\"graph_id\":\"graph\",\"sequence\":2,\"previous_digest\":\"\"," ++
  "\"command_id\":2,\"command_digest\":\"\",\"command\":\x7b\"command\":\"request_cancel\",\"actor\":\"controller\"," ++
  "\"task\":1,\"reason\":\"prior controller exited before task admission\"\x7d,\"entry_digest\":\"\"\x7d\x7d"

def orphanCodec : Codec := { encode := fun _ => Text.bytes orphanText, decode := fun _ => .error "not a line" }

def storeOf (d : TaskDag) : TaskDagStore := { file := [], dag := d, bytes := 0, recoveredTornBytes := 0, poisoned := none }

theorem batch_of_submitAll : ∀ (cs : List Command) {d d' : TaskDag} {id : Nat}, submitAll H d id cs = some d' →
    ∃ commands : List (Nat × Command), commands.map Prod.snd = cs ∧ Batch H d commands d'
  | [], d, d', id, h => by
    cases h
    exact ⟨[], rfl, .nil d⟩
  | c :: cs, d, d', id, h => by
    unfold submitAll at h
    split at h
    · rename_i d1 receipt happly
      obtain ⟨commands, hmap, hbatch⟩ := batch_of_submitAll cs h
      exact ⟨(id, c) :: commands, by rw [List.map_cons, hmap], .cons d d1 d' id c commands receipt happly hbatch⟩
    · cases h

variable {d1 : TaskDag}

theorem cut_of_submitAll {d0 : TaskDag} (op : Operation) {id' : Nat}
    {kept lost : List Command} (h : Ledgered H config budget d0) (hop : op.commands H budget d0 = .ok (kept ++ lost))
    (hkept : submitAll H d0 id kept = some d) (hlost : submitAll H d id' lost = some d1) : Cut H config budget d := by
  obtain ⟨a, rfl, ha⟩ := batch_of_submitAll kept hkept
  obtain ⟨b, rfl, hb⟩ := batch_of_submitAll lost hlost
  exact ⟨d0, op, a, b, d1, h, by rw [List.map_append]; exact hop, ha, hb⟩

theorem ledgered_of_submitAll (op : Operation) {commands : List Command} (h : Ledgered H config budget d)
    (hop : op.commands H budget d = .ok commands) (hall : submitAll H d id commands = some d') :
    Ledgered H config budget d' := by
  obtain ⟨cs, rfl, hbatch⟩ := batch_of_submitAll commands hall
  exact .operation d d' op cs h hop hbatch

def firstCreate : Command :=
  .createTask .controller
    { id := 1, declarationIndex := some 1, parent := none, dependencies := [], label := "workflow-agent-1",
      budget := oneTurn }

def firstAdmission : List Command :=
  controllerMessage 1 1 .instruction ("input_sha256:" ++ sampleInput) ++ [Command.startTask .controller 1]

theorem beginFirst_commands (d : TaskDag) : beginFirst.commands sampleDigests oneTurn d = .ok ([firstCreate] ++ firstAdmission) := by
  have hdigest : refuseIf (validDigest sampleInput = false) "task input digest must be exactly 64 hexadecimal bytes" =
    .ok () := refuseIf_of_not (by decide)
  simp only [beginFirst, Operation.commands, hdigest, ok_bind]
  rfl

def firstAttempt : Operation := .beginAttempt 1 1 0 0 .initial none none sampleInput

def firstAttemptBatch : List Command :=
  [.registerAttempt .controller
      { id := 1, task := 1, retryOrdinal := 0, siblingOrdinal := 0, lineageVersion := 1, retryOf := none,
        assignment := .initial, retryCause := none, priorEvidenceDigest := none, inputDigest := sampleInput },
    .startAttempt .controller 1]

def firstTerminal : WorkflowAgent.AttemptTerminal := .succeeded sampleInput .sole

/-- The whole run of the first task: its admission, its attempt, and the two commands that finish the attempt. -/
def firstRun : Option (TaskDag × TaskDag × TaskDag × TaskDag × TaskDag × TaskDag) := do
  let d0 ← (TaskDag.new sampleDigests sampleConfig).toOption
  let d1 ← submitAll sampleDigests d0 1 [firstCreate]
  let d2 ← submitAll sampleDigests d1 2 firstAdmission
  let d3 ← submitAll sampleDigests d2 5 firstAttemptBatch
  let d4 ← submitAll sampleDigests d3 7 [.chargeBudget .controller 1 { turns := 1, tokens := 3, wallMs := 5 }]
  let d5 ← submitAll sampleDigests d4 8 [firstTerminal.command 1]
  return (d0, d1, d2, d3, d4, d5)

def firstChecks (p : TaskDag × TaskDag × TaskDag × TaskDag × TaskDag × TaskDag) : Bool :=
  decide ((p.2.1.tasks[(1 : TaskId)]?).map Task.state = some .ready) &&
  decide ((Table.vals p.2.1.attempts).flatMap attemptRecovery = []) &&
  decide ((Table.vals p.2.1.tasks).flatMap taskRecovery =
    [.requestCancel .controller 1 "prior controller exited before task admission"]) &&
  decide (p.2.1.commands[(2 : Nat)]? = none) && decide (p.2.1.sequence < p.2.1.config.limits.maxEvents) &&
  decide (∀ x ∈ Table.vals p.2.1.tasks, x.usage.turns + openAttempts p.2.1 x.spec.id ≤ x.spec.budget.maxTurns.toNat) &&
  decide ((Table.vals p.2.2.2.2.1.attempts).flatMap attemptRecovery =
    [.chargeBudget .controller 1 { turns := 1 },
      .completeAttempt .controller 1 .unknownEffect .unknownEffect none none (some lostText)]) &&
  decide ((p.2.2.2.2.1.tasks[(1 : TaskId)]?).map (fun x => (x.usage.turns, x.spec.budget.maxTurns.toNat)) = some (1, 1)) &&
  decide (openAttempts p.2.2.2.2.1 1 = 1) && decide ((Table.vals p.2.2.2.2.1.attempts).length = 1) &&
  decide (p.2.2.2.2.1.commands[(8 : Nat)]? = none) &&
  decide (p.2.2.2.2.1.sequence < p.2.2.2.2.1.config.limits.maxEvents) &&
  !(p.2.2.2.2.1.prepare sampleDigests 8 (.chargeBudget .controller 1 { turns := 1 })).isOk

theorem firstRun_checks : ∃ p, firstRun = some p ∧ firstChecks p = true :=
  Option.map_eq_some_iff.1 (by decide +kernel : firstRun.map firstChecks = some true)

theorem Batch.append {d2 : TaskDag} {a b : List (Nat × Command)} (ha : Batch H d a d1) (hb : Batch H d1 b d2) :
    Batch H d (a ++ b) d2 := by
  induction ha with
  | nil d => exact hb
  | cons d d' _ id c _ receipt happly _ ih => exact .cons d d' d2 id c _ receipt happly (ih hb)

theorem firstRun_stages {d0 d2 d3 d4 d5 : TaskDag} (h : firstRun = some (d0, d1, d2, d3, d4, d5)) :
    Cut sampleDigests sampleConfig oneTurn d1 ∧ Cut sampleDigests sampleConfig oneTurn d4 := by
  simp only [firstRun, Option.bind_eq_bind, Option.bind_eq_some_iff, Option.pure_def, Option.some.injEq,
    Prod.mk.injEq] at h
  obtain ⟨e0, h0, _, h₁, e2, h₂, e3, h₃, _, h₄, _, h₅, rfl, rfl, rfl, rfl, rfl, rfl⟩ := h
  have hnew : TaskDag.new sampleDigests sampleConfig = .ok e0 := by
    cases hd : TaskDag.new sampleDigests sampleConfig with
    | error e => rw [hd] at h0; cases h0
    | ok d => rw [hd] at h0; cases h0; rfl
  have hledger : Ledgered sampleDigests sampleConfig oneTurn e0 := .new e0 hnew
  obtain ⟨a, ha, hcreate⟩ := batch_of_submitAll _ h₁
  obtain ⟨b, hb, hadmission⟩ := batch_of_submitAll _ h₂
  have htask : Ledgered sampleDigests sampleConfig oneTurn e2 := by
    refine .operation e0 e2 beginFirst (a ++ b) hledger ?_ (hcreate.append hadmission)
    rw [beginFirst_commands, List.map_append, ha, hb]
  have hattempt : Ledgered sampleDigests sampleConfig oneTurn e3 :=
    ledgered_of_submitAll firstAttempt htask rfl h₃
  exact ⟨cut_of_submitAll beginFirst hledger (beginFirst_commands e0) h₁ h₂,
    cut_of_submitAll (.finishAttempt 1 1 3 5 firstTerminal) hattempt rfl h₄ h₅⟩

theorem orphanText_length : (Text.bytes orphanText).length < 1000 := by
  unfold orphanText
  simp only [Text.bytes_append]
  repeat rw [Text.bytes_ofList]
  decide +kernel

theorem orphanCodec_line (e : LogEntry) :
    ∃ line, encodeLine orphanCodec (.command e) = .ok line ∧ 0 + line.length ≤ maxLogBytes := by
  have hlen := orphanText_length
  have hmax : maxLogLineBytes = 262144 ∧ maxLogBytes = 67108864 := ⟨rfl, rfl⟩
  generalize hbytes : Text.bytes orphanText = bytes at hlen
  have hcodec : orphanCodec.encode (.command e) = bytes := hbytes
  refine ⟨bytes ++ [newline], ?_, ?_⟩
  · unfold encodeLine
    rw [hcodec, if_neg]
    rw [List.length_append, List.length_singleton]
    omega
  · rw [List.length_append, List.length_singleton]
    omega

/-- The log of a first task, cut after its creation: the task is cancelled. -/
theorem orphans_reconciled_created : ∃ s : TaskDagStore, Cut sampleDigests sampleConfig oneTurn s.dag ∧
    (s.dag.tasks[(1 : TaskId)]?).map Task.state = some .ready ∧
    Reconciled orphanCodec sampleDigests (fun _ => .synced) s 2 := by
  obtain ⟨⟨_, d1, _, _, _, _⟩, hrun, hchecks⟩ := firstRun_checks
  have hcut := (firstRun_stages hrun).1
  simp only [firstChecks, Bool.and_eq_true, decide_eq_true_eq] at hchecks
  obtain ⟨⟨⟨⟨⟨⟨⟨⟨⟨⟨⟨⟨hready, hattempts⟩, htasks⟩, hfresh⟩, hevents⟩, hturns⟩, -⟩, -⟩, -⟩, -⟩, -⟩, -⟩, -⟩ := hchecks
  have hcap : Capacity orphanCodec sampleDigests (fun _ => .synced) (storeOf d1) 2 := by
    refine ⟨by rw [show (storeOf d1).dag = d1 from rfl, hattempts]; trivial, fun s' next' hs' => ?_⟩
    rw [show (storeOf d1).dag = d1 from rfl, hattempts] at hs'
    cases hs'
    rw [show (storeOf d1).dag = d1 from rfl, htasks]
    exact ⟨rfl, ⟨by decide, by decide, hfresh⟩, hevents, orphanCodec_line _, rfl, fun _ _ _ => trivial⟩
  refine ⟨storeOf d1, hcut, hready, (orphans_reconciled hcut hcap).2 (fun k x hk => ?_)⟩
  have := hturns x ((Table.mem_vals _ _).2 ⟨k, hk⟩)
  rw [hcut.flat.id k x hk] at this
  exact this

/-- The log of a run of one call, cut between the charge and the terminal of its only attempt: the next opening cannot
charge the attempt again, and ends nothing. -/
theorem not_reconciled_charged : ∃ s : TaskDagStore, Cut sampleDigests sampleConfig oneTurn s.dag ∧
    (Table.vals s.dag.attempts).length = 1 ∧ oneTurn.maxTurns.toNat = 1 ∧
    Capacity orphanCodec sampleDigests (fun _ => .synced) s 8 ∧
    ¬ Reconciled orphanCodec sampleDigests (fun _ => .synced) s 8 := by
  obtain ⟨⟨_, _, _, _, d4, _⟩, hrun, hchecks⟩ := firstRun_checks
  have hcut := (firstRun_stages hrun).2
  simp only [firstChecks, Bool.and_eq_true, decide_eq_true_eq, Bool.not_eq_true'] at hchecks
  obtain ⟨⟨⟨⟨⟨⟨⟨-, hattempts⟩, husage⟩, hopen⟩, hone⟩, hfresh⟩, hevents⟩, hrefused⟩ := hchecks
  have hsubmit : ∃ e, (storeOf d4).submit orphanCodec sampleDigests 8 (.chargeBudget .controller 1 { turns := 1 }) .synced =
      some (storeOf d4, .error e) := by
    cases hp : d4.prepare sampleDigests 8 (.chargeBudget .controller 1 { turns := 1 }) with
    | ok p => rw [hp] at hrefused; cases hrefused
    | error e =>
      refine ⟨e, ?_⟩
      unfold TaskDagStore.submit
      rw [show (storeOf d4).poisoned = none from rfl, show (storeOf d4).dag = d4 from rfl, hp]
  obtain ⟨e, hsubmit⟩ := hsubmit
  have hcap : Capacity orphanCodec sampleDigests (fun _ => .synced) (storeOf d4) 8 := by
    refine ⟨?_, fun s' next' hs' => ?_⟩
    · rw [show (storeOf d4).dag = d4 from rfl, hattempts]
      refine ⟨rfl, ⟨by decide, by decide, hfresh⟩, hevents, orphanCodec_line _, rfl, fun s' receipt hs' => ?_⟩
      rw [hsubmit] at hs'
      cases hs'
    · rw [show (storeOf d4).dag = d4 from rfl, hattempts, submitRecovery, hsubmit] at hs'
      cases hs'
  refine ⟨storeOf d4, hcut, hone, by decide, hcap, fun hrec => ?_⟩
  obtain ⟨x, hx, hxs⟩ := Option.map_eq_some_iff.1 husage
  have hbound := (orphans_reconciled hcut hcap).1 hrec 1 x hx
  obtain ⟨hused, hmax⟩ := Prod.mk.inj hxs
  rw [show openAttempts (storeOf d4).dag 1 = 1 from hopen, hused, hmax] at hbound
  omega

end ExecutionLedger
end Iteron.Dag
