import Iteron.Patch
/-!
# PatchRun — what a patch leaves behind among other writers

The writes of the patch to a target are none, its commit over the planning snapshot, or that commit and its restoration
over the patch's own bytes.  `patch_all_or_nothing` says which of them each outcome leaves.
-/
namespace Iteron.Patch

open Refuse

def replay (fs : String → Option File) (log : List Entry) : String → Option File :=
  log.foldl (fun fs e => Function.update fs e.target e.after) fs

def ownWrites (log : List Entry) (target : String) : List Entry := log.filter (fun e => e.isOwn && e.target == target)

/-- The log accounts for the files, and every write of the patch replaced the content it names. -/
structure Accounts (fs : String → Option File) (w : World) : Prop where
  files : w.fs = replay fs w.log
  replaced : ∀ (before : List Entry) (e : Entry) (after : List Entry) (old : File), w.log = before ++ e :: after →
    e.replaced = some old → replay fs before e.target = some old

section Write

variable {fs : String → Option File} {w : World} {E : Env}

theorem Accounts.start (fs : String → Option File) : Accounts fs ⟨fs, 0, []⟩ where
  files := rfl
  replaced := fun before e after old h => by cases before <;> cases h

theorem Accounts.write (h : Accounts fs w) (e : Entry) (he : ∀ old, e.replaced = some old → w.fs e.target = some old) :
    Accounts fs (w.write e) where
  files := by
    simp only [World.write, replay, List.foldl_append, List.foldl_cons, List.foldl_nil]
    rw [h.files]
    rfl
  replaced := fun before e' after old hlog hold => by
    rcases List.eq_nil_or_concat after with rfl | ⟨rest, _, rfl⟩
    · obtain ⟨hbefore, hlast⟩ := List.append_inj' hlog rfl
      obtain rfl : e = e' := List.singleton_inj.1 hlast
      rw [← hbefore, ← h.files]
      exact he old hold
    · rw [List.concat_eq_append, ← List.cons_append, ← List.append_assoc] at hlog
      obtain ⟨hlog, _⟩ := List.append_inj' hlog rfl
      exact h.replaced before e' rest old hlog hold

theorem ownWrites_write (w : World) (e : Entry) (t : String) : ownWrites (w.write e).log t =
    if e.isOwn = true ∧ e.target = t then ownWrites w.log t ++ [e] else ownWrites w.log t := by
  simp only [World.write, ownWrites, List.filter_append]
  by_cases h : e.isOwn = true ∧ e.target = t
  · simp [h.1, h.2]
  · rw [if_neg h]
    have hfalse : (e.isOwn && e.target == t) = false := by
      rw [Bool.eq_false_iff]
      intro htrue
      simp only [Bool.and_eq_true, beq_iff_eq] at htrue
      exact h htrue
    simp [hfalse]

theorem foreign_foldl (h : Accounts fs w) : ∀ writes : List (String × Option File),
    Accounts fs (writes.foldl (fun w p => w.write (.foreign p.1 p.2)) w) ∧
      ∀ t, ownWrites (writes.foldl (fun w p => w.write (.foreign p.1 p.2)) w).log t = ownWrites w.log t := by
  intro writes
  induction writes generalizing w with
  | nil => exact ⟨h, fun _ => rfl⟩
  | cons p writes ih =>
    obtain ⟨haccounts, hown⟩ := ih (h.write (.foreign p.1 p.2) (fun old hold => by cases hold))
    refine ⟨haccounts, fun t => (hown t).trans ?_⟩
    rw [ownWrites_write, if_neg (fun hown => by cases hown.1)]

theorem Accounts.tick (h : Accounts fs w) : Accounts fs (w.tick E) :=
  ⟨(foreign_foldl h _).1.files, (foreign_foldl h _).1.replaced⟩

theorem ownWrites_tick (h : Accounts fs w) (t : String) : ownWrites (w.tick E).log t = ownWrites w.log t :=
  (foreign_foldl h _).2 t

end Write

/-- Nothing but foreign writes happened between two states. -/
structure Quiet (fs : String → Option File) (w w' : World) : Prop where
  accounts : Accounts fs w'
  own : ∀ t, ownWrites w'.log t = ownWrites w.log t

section Quiet

variable {fs : String → Option File} {w : World} {E : Env} {P : Planner}

theorem Quiet.refl (h : Accounts fs w) : Quiet fs w w := ⟨h, fun _ => rfl⟩

theorem Quiet.trans {w' w'' : World} (h : Quiet fs w w') (h' : Quiet fs w' w'') : Quiet fs w w'' :=
  ⟨h'.accounts, fun t => (h'.own t).trans (h.own t)⟩

theorem Quiet.tick (h : Accounts fs w) : Quiet fs w (w.tick E) := ⟨h.tick, ownWrites_tick h⟩

theorem planFiles_quiet : ∀ (resolved : List Resolved) (w : World) (total : Nat), Accounts fs w →
    Quiet fs w (planFiles E P w total resolved).1 ∧ ∀ plans, (planFiles E P w total resolved).2 = .ok plans →
      plans.map (fun p => p.target) = resolved.map (fun r => r.target) ∧
        plans.map (fun p => p.path) = resolved.map (fun r => r.request.path)
  | [], w, total, h => by
    refine ⟨.refl h, fun plans hp => ?_⟩
    cases hp
    exact ⟨rfl, rfl⟩
  | r :: rest, w, total, h => by
    have hread : (readBounded E w r).1 = w.tick E := rfl
    rw [planFiles]
    rcases hr : readBounded E w r with ⟨w1, e | snapshot⟩
    · rw [hr] at hread
      obtain rfl : w1 = w.tick E := hread
      exact ⟨.tick h, fun plans hp => by cases hp⟩
    · rw [hr] at hread
      obtain rfl : w1 = w.tick E := hread
      by_cases htotal : total + snapshot.bytes.length > maxTotalFileBytes
      · simp only [if_pos htotal]
        exact ⟨.tick h, fun plans hp => by cases hp⟩
      · simp only [if_neg htotal]
        cases hplan : planFile P r snapshot with
        | error e => exact ⟨.tick h, fun plans hp => by cases hp⟩
        | ok _ =>
          obtain ⟨hquiet, hplans⟩ := planFiles_quiet rest (w.tick E) (total + snapshot.bytes.length) h.tick
          rcases hrest : planFiles E P (w.tick E) (total + snapshot.bytes.length) rest with ⟨_, e | plans⟩
          · rw [hrest] at hquiet
            exact ⟨(Quiet.tick h).trans hquiet, fun plans hp => by cases hp⟩
          · rw [hrest] at hquiet hplans
            refine ⟨(Quiet.tick h).trans hquiet, fun all hp => ?_⟩
            cases hp
            obtain ⟨htargets, hpaths⟩ := hplans plans rfl
            simp only [planFile, bind_eq_ok, pure_eq_ok] at hplan
            obtain ⟨_, _, _, _, _, _, _, _, rfl⟩ := hplan
            simp only [List.map_cons, htargets, hpaths, and_self]

theorem resolveOne_foldlM : ∀ {requests : List (FilePatch × Nat)} {acc resolved : List Resolved},
    (acc.map (fun r => r.target)).Nodup → requests.foldlM (resolveOne P) acc = .ok resolved →
    (resolved.map (fun r => r.target)).Nodup ∧
      resolved.map (fun r => r.request.path) = acc.map (fun r => r.request.path) ++ requests.map (fun p => p.1.path)
  | [], acc, resolved, hn, h => by
    rw [List.foldlM_nil, pure_eq_ok] at h
    rw [← h]
    exact ⟨hn, (List.append_nil _).symm⟩
  | entry :: requests, acc, resolved, hn, h => by
    rw [List.foldlM_cons, bind_eq_ok] at h
    obtain ⟨_, hone, hrest⟩ := h
    simp only [resolveOne, bind_eq_ok, refuseIf_eq_ok, pure_eq_ok] at hone
    obtain ⟨target, _, _, hnew, rfl⟩ := hone
    have hn1 : ((acc ++ [Resolved.mk entry.2 entry.1 target]).map (fun r => r.target)).Nodup := by
      rw [List.map_append]
      exact List.nodup_append.2 ⟨hn, List.nodup_singleton _, fun a ha b hb heq => by
        rw [List.map_singleton, List.mem_singleton] at hb
        rw [heq, hb] at ha
        exact hnew ha⟩
    obtain ⟨hnodup, hpaths⟩ := resolveOne_foldlM hn1 hrest
    refine ⟨hnodup, hpaths.trans ?_⟩
    rw [List.map_append, List.append_assoc]
    rfl

theorem planPatch_quiet (h : Accounts fs w) (requests : List FilePatch) :
    Quiet fs w (planPatch E P w requests).1 ∧ ∀ plans, (planPatch E P w requests).2 = .ok plans →
      (plans.map (fun p => p.target)).Nodup ∧ plans.map (fun p => p.path) = requests.map (fun r => r.path) := by
  unfold planPatch
  cases hresolve : requests.zipIdx.foldlM (resolveOne P) [] with
  | error e => exact ⟨.refl h, fun plans hp => by cases hp⟩
  | ok resolved =>
    obtain ⟨hnodup, hpaths⟩ := @resolveOne_foldlM P _ [] resolved List.nodup_nil hresolve
    obtain ⟨hquiet, hplans⟩ := @planFiles_quiet fs E P resolved w 0 h
    refine ⟨hquiet, fun plans hp => ?_⟩
    obtain ⟨htargets, hplanpaths⟩ := hplans plans hp
    rw [htargets, hplanpaths, hpaths]
    refine ⟨hnodup, ?_⟩
    rw [List.map_nil, List.nil_append]
    have hzip : requests.zipIdx.map (fun p => p.1.path) = (requests.zipIdx.map Prod.fst).map (fun r => r.path) := by
      rw [List.map_map]
      rfl
    rw [hzip, List.zipIdx_map_fst]

theorem stageAll_quiet : ∀ (plans : List PlannedFile) (w : World), Accounts fs w → Quiet fs w (stageAll E w plans).1
  | [], w, h => .refl h
  | plan :: rest, w, h => by
    rw [stageAll]
    split
    · exact .tick h
    · exact (Quiet.tick h).trans (stageAll_quiet rest (w.tick E) h.tick)

theorem precommit_quiet : ∀ (plans : List PlannedFile) (w : World), Accounts fs w → Quiet fs w (precommit E w plans).1
  | [], w, h => .refl h
  | plan :: rest, w, h => by
    rw [precommit]
    split
    · exact .tick h
    · exact .tick h
    · split
      · exact .tick h
      · split
        · exact .tick h
        · exact (Quiet.tick h).trans (precommit_quiet rest (w.tick E) h.tick)

end Quiet

/-- The patch's own writes to the target of a plan: none. -/
def Untouched (w : World) (plan : PlannedFile) : Prop := ownWrites w.log plan.target = []

def Replaced (w : World) (plan : PlannedFile) : Prop :=
  ∃ new : File, new.bytes = plan.updated ∧ ownWrites w.log plan.target = [.commit plan.target plan.original new]

def Restored (w : World) (plan : PlannedFile) : Prop :=
  ∃ new found back : File, new.bytes = plan.updated ∧ found.bytes = plan.updated ∧ back.bytes = plan.original.bytes ∧
    ownWrites w.log plan.target = [.commit plan.target plan.original new, .restore plan.target found back]

section Commit

variable {fs : String → Option File} {w : World} {E : Env} {plan : PlannedFile} {w' : World}

theorem Replaced.congr (h : Replaced w plan) (heq : ownWrites w'.log plan.target = ownWrites w.log plan.target) :
    Replaced w' plan := by
  obtain ⟨new, hbytes, hown⟩ := h
  exact ⟨new, hbytes, heq.trans hown⟩

theorem Restored.congr (h : Restored w plan) (heq : ownWrites w'.log plan.target = ownWrites w.log plan.target) :
    Restored w' plan := by
  obtain ⟨new, found, back, hn, hf, hb, hown⟩ := h
  exact ⟨new, found, back, hn, hf, hb, heq.trans hown⟩

theorem commitIfUnchanged_cases (h : Accounts fs w) (entry : File → Entry) (target : String) (bytes : Bytes)
    (expected : File) (hentry : ∀ new, (entry new).isOwn = true ∧ (entry new).target = target ∧
      (entry new).replaced = some expected) :
    (∃ f, (commitIfUnchanged E w entry target bytes expected).2 = .error f ∧ (failureKind f).2.2 = false ∧
      Quiet fs w (commitIfUnchanged E w entry target bytes expected).1) ∨ (∃ new : File, new.bytes = bytes ∧
      ((commitIfUnchanged E w entry target bytes expected).2 = .ok () ∨
        ∃ f, (commitIfUnchanged E w entry target bytes expected).2 = .error f ∧ (failureKind f).2.2 = true) ∧
      Accounts fs (commitIfUnchanged E w entry target bytes expected).1 ∧
      ∀ t, ownWrites (commitIfUnchanged E w entry target bytes expected).1.log t =
        if target = t then ownWrites w.log t ++ [entry new] else ownWrites w.log t) := by
  have hdone : (w.tick E).fs target = some expected → Accounts fs ((w.tick E).write (entry ⟨bytes, E.stamp w.clock⟩)) ∧
      ∀ t, ownWrites ((w.tick E).write (entry ⟨bytes, E.stamp w.clock⟩)).log t =
        if target = t then ownWrites w.log t ++ [entry ⟨bytes, E.stamp w.clock⟩] else ownWrites w.log t := by
    intro hfs
    obtain ⟨hown, htarget, hreplaced⟩ := hentry ⟨bytes, E.stamp w.clock⟩
    refine ⟨h.tick.write _ (fun old hold => ?_), fun t => ?_⟩
    · rw [htarget, hfs, ← hold, hreplaced]
    · rw [ownWrites_write, ownWrites_tick h, htarget]
      simp only [hown, true_and]
  unfold commitIfUnchanged
  cases E.fault w.clock with
  | io message => exact .inl ⟨_, rfl, rfl, .tick h⟩
  | unreadable => exact .inl ⟨_, rfl, rfl, .tick h⟩
  | refused message =>
    by_cases hfs : (w.tick E).fs target = some expected
    · simp only [if_pos hfs]
      exact .inl ⟨_, rfl, rfl, .tick h⟩
    · simp only [if_neg hfs]
      exact .inl ⟨_, rfl, rfl, .tick h⟩
  | afterRename message =>
    by_cases hfs : (w.tick E).fs target = some expected
    · simp only [if_pos hfs]
      exact .inr ⟨_, rfl, .inr ⟨_, rfl, rfl⟩, hdone hfs⟩
    · simp only [if_neg hfs]
      exact .inl ⟨_, rfl, rfl, .tick h⟩
  | none =>
    by_cases hfs : (w.tick E).fs target = some expected
    · simp only [if_pos hfs]
      exact .inr ⟨_, rfl, .inl trivial, hdone hfs⟩
    · simp only [if_neg hfs]
      exact .inl ⟨_, rfl, rfl, .tick h⟩

theorem restore_spec (h : Accounts fs w) (hplan : Replaced w plan) : Accounts fs (restoreTransactionBytes E w plan).1 ∧
    (∀ t, t ≠ plan.target → ownWrites (restoreTransactionBytes E w plan).1.log t = ownWrites w.log t) ∧
    (Replaced (restoreTransactionBytes E w plan).1 plan ∨ Restored (restoreTransactionBytes E w plan).1 plan) ∧
    ((restoreTransactionBytes E w plan).2 = .ok () → Restored (restoreTransactionBytes E w plan).1 plan) := by
  have hquiet : ∀ {w' : World}, Quiet fs w w' → ∀ {m : String}, Accounts fs w' ∧
      (∀ t, t ≠ plan.target → ownWrites w'.log t = ownWrites w.log t) ∧ (Replaced w' plan ∨ Restored w' plan) ∧
      ((Except.error m : Except String Unit) = .ok () → Restored w' plan) := by
    intro w' hq m
    exact ⟨hq.accounts, fun t _ => hq.own t, .inl (hplan.congr (hq.own _)), fun hm => by cases hm⟩
  unfold restoreTransactionBytes
  cases E.fault w.clock with
  | refused message => exact hquiet (.tick h)
  | io message => exact hquiet (.tick h)
  | afterRename message => exact hquiet (.tick h)
  | unreadable => exact hquiet (.tick h)
  | none =>
    dsimp only
    cases hread : (w.tick E).fs plan.target with
    | none => exact hquiet (.tick h)
    | some current =>
      by_cases hbytes : current.bytes ≠ plan.updated
      · simp only [if_pos hbytes]
        exact hquiet (.tick h)
      · simp only [if_neg hbytes]
        have hstaged : Quiet fs w ((w.tick E).tick E) := (Quiet.tick h).trans (.tick h.tick)
        rw [not_not] at hbytes
        have hcommit := @commitIfUnchanged_cases fs ((w.tick E).tick E) E h.tick.tick (.restore plan.target current) plan.target
          plan.original.bytes current (fun new => ⟨rfl, rfl, rfl⟩)
        have hrest : ∀ r : World × Except GuardedCommitFailure Unit,
            r = commitIfUnchanged E ((w.tick E).tick E) (.restore plan.target current) plan.target plan.original.bytes
              current → Accounts fs r.1 ∧ (∀ t, t ≠ plan.target → ownWrites r.1.log t = ownWrites w.log t) ∧
              (Replaced r.1 plan ∨ Restored r.1 plan) ∧ (r.2.mapError restoreFailure = .ok () → Restored r.1 plan) := by
          rintro r rfl
          rcases hcommit with ⟨f, hf, _, hq⟩ | ⟨back, hback, _, haccounts, hown⟩
          · obtain ⟨ha, ho, hr, _⟩ := @hquiet _ (hstaged.trans hq) ""
            refine ⟨ha, ho, hr, fun hok => ?_⟩
            rw [hf] at hok
            cases hok
          · have hrestored : Restored (commitIfUnchanged E ((w.tick E).tick E) (.restore plan.target current) plan.target
                plan.original.bytes current).1 plan := by
              obtain ⟨new, hnew, hcommitted⟩ := hplan
              refine ⟨new, current, back, hnew, hbytes, hback, ?_⟩
              rw [hown, if_pos rfl, hstaged.own, hcommitted]
              rfl
            refine ⟨haccounts, fun t ht => ?_, .inr hrestored, fun _ => hrestored⟩
            rw [hown, if_neg (Ne.symm ht), hstaged.own]
        cases E.fault (w.tick E).clock with
        | io message => exact hquiet hstaged
        | none => exact hrest _ rfl
        | unreadable => exact hrest _ rfl
        | refused message => exact hrest _ rfl
        | afterRename message => exact hrest _ rfl

theorem rollback_spec : ∀ (plans : List PlannedFile) (w : World), Accounts fs w →
    (plans.map (fun p => p.target)).Nodup → (∀ p ∈ plans, Replaced w p) → Accounts fs (rollback E w plans).1 ∧
    (∀ t, t ∉ plans.map (fun p => p.target) → ownWrites (rollback E w plans).1.log t = ownWrites w.log t) ∧
    (∀ p ∈ plans, Replaced (rollback E w plans).1 p ∨ Restored (rollback E w plans).1 p) ∧
    ((rollback E w plans).2 = none → ∀ p ∈ plans, Restored (rollback E w plans).1 p)
  | [], w, h, _, _ => ⟨h, fun _ _ => rfl, (fun p hp => by cases hp), (fun _ p hp => by cases hp)⟩
  | plan :: rest, w, h, hn, hplans => by
    obtain ⟨hnew, hn⟩ := List.nodup_cons.1 hn
    obtain ⟨haccounts, hothers, hone, hok⟩ := @restore_spec fs w E plan h (hplans plan (.head _))
    have hstill : ∀ p ∈ rest, Replaced (restoreTransactionBytes E w plan).1 p := by
      intro p hp
      refine (hplans p (.tail _ hp)).congr (hothers p.target (fun heq => hnew ?_))
      exact List.mem_map.2 ⟨p, hp, heq⟩
    obtain ⟨hacc, hrest, hreach, hnone⟩ := rollback_spec rest _ haccounts hn hstill
    rw [rollback]
    have hkept : ownWrites (rollback E (restoreTransactionBytes E w plan).1 rest).1.log plan.target =
        ownWrites (restoreTransactionBytes E w plan).1.log plan.target := hrest plan.target hnew
    refine ⟨hacc, fun t ht => ?_, fun p hp => ?_, fun hno p hp => ?_⟩
    · rw [List.map_cons, List.mem_cons, not_or] at ht
      rw [hrest t ht.2, hothers t ht.1]
    · rcases List.mem_cons.1 hp with rfl | hp
      · rcases hone with hone | hone
        · exact .inl (hone.congr hkept)
        · exact .inr (hone.congr hkept)
      · exact hreach p hp
    · cases hresult : (restoreTransactionBytes E w plan).2 with
      | error e =>
        simp only [hresult] at hno
        cases hno
      | ok u =>
        simp only [hresult] at hno
        rcases List.mem_cons.1 hp with rfl | hp
        · exact (hok hresult).congr hkept
        · exact hnone hno p hp

theorem failureKind_ne (f : GuardedCommitFailure) : (failureKind f).1 ≠ "rollback_failed" := by
  cases f <;> simp [failureKind]

theorem bareKind_ne (kind : String) : bareKind kind ≠ "rollback_failed" := by
  unfold bareKind
  split
  · decide
  · split <;> decide

theorem commitFailure_kind (f : GuardedCommitFailure) (bare : Bool) (error : Option String) :
    (commitFailure plan f bare error).kind = "rollback_failed" ↔ error ≠ none := by
  cases error with
  | some error => simp [commitFailure, PatchFailure.file]
  | none =>
    cases bare with
    | true => simp [commitFailure, PatchFailure.file, bareKind_ne]
    | false => simp [commitFailure, PatchFailure.file, failureKind_ne]

/-- What an outcome of the commit loop leaves of every member. -/
structure Settled (fs : String → Option File) (w w' : World) (plans : List PlannedFile)
    (result : Except PatchFailure Unit) : Prop where
  accounts : Accounts fs w'
  others : ∀ t, t ∉ plans.map (fun p => p.target) → ownWrites w'.log t = ownWrites w.log t
  applied : result = .ok () → ∀ p ∈ plans, Replaced w' p
  failed : ∀ e, result = .error e → e.kind ≠ "rollback_failed" → ∀ p ∈ plans, Untouched w' p ∨ Restored w' p
  always : ∀ p ∈ plans, Untouched w' p ∨ Replaced w' p ∨ Restored w' p

theorem settled_rollback (h : Accounts fs w) (f : GuardedCommitFailure) {committed rest : List PlannedFile}
    (hn : ((committed ++ rest).map (fun p => p.target)).Nodup) (hcommitted : ∀ p ∈ committed, Replaced w p)
    (hrest : ∀ p ∈ rest, Untouched w p) (bare : Bool) : Settled fs w (rollback E w committed).1 (committed ++ rest)
      (.error (commitFailure plan f bare (rollback E w committed).2)) := by
  rw [List.map_append] at hn
  obtain ⟨hn1, _, hdisjoint⟩ := List.nodup_append.1 hn
  obtain ⟨haccounts, hothers, hreach, hnone⟩ := @rollback_spec fs E committed w h hn1 hcommitted
  have hstill : ∀ p ∈ rest, Untouched (rollback E w committed).1 p := by
    intro p hp
    have hnew : p.target ∉ committed.map (fun p => p.target) := by
      intro hin
      exact hdisjoint _ hin _ (List.mem_map.2 ⟨p, hp, rfl⟩) rfl
    exact (hothers p.target hnew).trans (hrest p hp)
  refine ⟨haccounts, fun t ht => hothers t (fun hin => ht ?_), (by simp), fun e he hkind p hp => ?_, fun p hp => ?_⟩
  · rw [List.map_append]
    exact List.mem_append_left _ hin
  · obtain rfl := Except.error.inj he
    rw [Ne, commitFailure_kind, not_not] at hkind
    rcases List.mem_append.1 hp with hp | hp
    · exact .inr (hnone hkind p hp)
    · exact .inl (hstill p hp)
  · rcases List.mem_append.1 hp with hp | hp
    · exact .inr (hreach p hp)
    · exact .inl (hstill p hp)

theorem commitMembers_settled : ∀ (rest : List PlannedFile) (w : World) (committed : List PlannedFile), Accounts fs w →
    ((committed ++ rest).map (fun p => p.target)).Nodup → (∀ p ∈ committed, Replaced w p) → (∀ p ∈ rest, Untouched w p) →
    Settled fs w (commitMembers E w rest committed).1 (committed ++ rest) (commitMembers E w rest committed).2
  | [], w, committed, h, _, hcommitted, _ => by
    rw [List.append_nil]
    exact ⟨h, fun _ _ => rfl, fun _ => hcommitted, (fun e he => by cases he), fun p hp => .inr (.inl (hcommitted p hp))⟩
  | plan :: rest, w, committed, h, hn, hcommitted, hrest => by
    have hperm : (committed ++ plan :: rest).Perm (plan :: committed ++ rest) := List.perm_middle
    have hn1 : ((plan :: committed ++ rest).map (fun p => p.target)).Nodup := (hperm.map _).nodup_iff.1 hn
    have hnew : plan.target ∉ (committed ++ rest).map (fun p => p.target) := (List.nodup_cons.1 hn1).1
    have hsame : ∀ p ∈ committed ++ rest, plan.target ≠ p.target := by
      intro p hp heq
      exact hnew (List.mem_map.2 ⟨p, hp, heq.symm⟩)
    have hcases := @commitIfUnchanged_cases fs w E h (.commit plan.target plan.original) plan.target plan.updated
      plan.original (fun new => ⟨rfl, rfl, rfl⟩)
    rw [commitMembers]
    rcases hcommit : commitIfUnchanged E w (.commit plan.target plan.original) plan.target plan.updated plan.original
      with ⟨w1, result⟩
    rw [hcommit] at hcases
    rcases hcases with ⟨f, hf, hkind, hquiet⟩ | ⟨new, hbytes, hresult, haccounts, hown⟩
    · obtain rfl : result = .error f := hf
      simp only [hkind, Bool.false_eq_true, if_false]
      have hset := @settled_rollback fs w1 E plan hquiet.accounts f committed (plan :: rest) hn
        (fun p hp => (hcommitted p hp).congr (hquiet.own _)) (fun p hp => (hquiet.own _).trans (hrest p hp))
        committed.isEmpty
      exact { hset with others := fun t ht => (hset.others t ht).trans (hquiet.own t) }
    · have hplan : Replaced w1 plan := by
        refine ⟨new, hbytes, ?_⟩
        rw [hown, if_pos rfl, hrest plan List.mem_cons_self]
        rfl
      have hcommitted1 : ∀ p ∈ plan :: committed, Replaced w1 p := by
        intro p hp
        rcases List.mem_cons.1 hp with rfl | hp
        · exact hplan
        · refine (hcommitted p hp).congr ?_
          rw [hown, if_neg (hsame p (List.mem_append_left _ hp))]
      have hrest1 : ∀ p ∈ rest, Untouched w1 p := by
        intro p hp
        unfold Untouched
        rw [hown, if_neg (hsame p (List.mem_append_right _ hp))]
        exact hrest p (.tail _ hp)
      have hback : ∀ {w' : World} {r : Except PatchFailure Unit}, Settled fs w1 w' (plan :: committed ++ rest) r →
          Settled fs w w' (committed ++ plan :: rest) r := by
        intro w' r hset
        refine ⟨hset.accounts, fun t ht => ?_, fun hr p hp => hset.applied hr p (hperm.mem_iff.1 hp),
          fun e he hk p hp => hset.failed e he hk p (hperm.mem_iff.1 hp), fun p hp => hset.always p (hperm.mem_iff.1 hp)⟩
        have ht' : t ∉ (plan :: committed ++ rest).map (fun p => p.target) := by
          rwa [← (hperm.map _).mem_iff]
        rw [hset.others t ht', hown, if_neg]
        rintro rfl
        exact ht' (List.mem_map.2 ⟨plan, .head _, rfl⟩)
      rcases hresult with hok | ⟨f, hf, hkind⟩
      · obtain rfl : result = .ok () := hok
        exact hback (commitMembers_settled rest w1 (plan :: committed) haccounts hn1 hcommitted1 hrest1)
      · obtain rfl : result = .error f := hf
        simp only [hkind, if_true]
        exact hback (settled_rollback haccounts f hn1 hcommitted1 hrest1 _)

theorem commitPatch_settled {plans : List PlannedFile} (h : Accounts fs w) (hn : (plans.map (fun p => p.target)).Nodup)
    (hplans : ∀ p ∈ plans, Untouched w p) : Settled fs w (commitPatch E w plans).1 plans (commitPatch E w plans).2 := by
  have hquiet : ∀ {w' : World}, Quiet fs w w' → ∀ e, Settled fs w w' plans (.error e) := by
    intro w' hq e
    have hstill : ∀ p ∈ plans, Untouched w' p := fun p hp => (hq.own _).trans (hplans p hp)
    exact ⟨hq.accounts, fun t _ => hq.own t, (by simp), fun _ _ _ p hp => .inl (hstill p hp),
      fun p hp => .inl (hstill p hp)⟩
  unfold commitPatch
  have hstage := @stageAll_quiet fs E plans w h
  rcases hs : stageAll E w plans with ⟨w1, e | _⟩
  · rw [hs] at hstage
    exact hquiet hstage e
  · rw [hs] at hstage
    have hcheck := @precommit_quiet fs E plans w1 hstage.accounts
    rcases hc : precommit E w1 plans with ⟨w2, e | _⟩
    · rw [hc] at hcheck
      simp only [hc]
      exact hquiet (hstage.trans hcheck) e
    · rw [hc] at hcheck
      simp only [hc]
      have hboth : Quiet fs w w2 := hstage.trans hcheck
      have hset := @commitMembers_settled fs E plans w2 [] hcheck.accounts hn (fun p hp => by cases hp)
        (fun p hp => (hboth.own _).trans (hplans p hp))
      exact { hset with others := fun t ht => (hset.others t ht).trans (hboth.own t) }

end Commit

/-- The members of a patch: what planning read and what it will write. -/
def members (E : Env) (P : Planner) (fs : String → Option File) (parsed : Except PatchFailure (List FilePatch)) :
    List PlannedFile :=
  match parsed with
  | .error _ => []
  | .ok requests => (planPatch E P ⟨fs, 0, []⟩ requests).2.toOption.getD []

/-- The patch's own writes when a call is over. -/
structure Outcome (fs : String → Option File) (w : World) (plans : List PlannedFile)
    (result : Except PatchFailure (Nat × Nat)) : Prop where
  accounts : Accounts fs w
  distinct : (plans.map (fun p => p.target)).Nodup
  elsewhere : ∀ t, t ∉ plans.map (fun p => p.target) → ownWrites w.log t = []
  applied : ∀ n, result = .ok n → n.1 = plans.length ∧ ∀ p ∈ plans, Replaced w p
  failed : ∀ e, result = .error e → e.kind ≠ "rollback_failed" → ∀ p ∈ plans, Untouched w p ∨ Restored w p
  always : ∀ p ∈ plans, Untouched w p ∨ Replaced w p ∨ Restored w p

/-- **Whatever the patch, the other writers and the faults:** an applied patch replaced every member once, over its
planning snapshot; a patch that failed other than in its rollback touched no member or set it back; and every write of
the patch is a commit over the planning snapshot or a restoration over the patch's own bytes. -/
theorem patch_all_or_nothing (E : Env) (P : Planner) (fs : String → Option File)
    (parsed : Except PatchFailure (List FilePatch)) :
    Outcome fs (executePatch E P ⟨fs, 0, []⟩ parsed).1 (members E P fs parsed) (executePatch E P ⟨fs, 0, []⟩ parsed).2 ∧
      ∀ n, (executePatch E P ⟨fs, 0, []⟩ parsed).2 = .ok n → ∃ requests, parsed = .ok requests ∧
        (members E P fs parsed).map (fun p => p.path) = requests.map (fun r => r.path) := by
  have hstart : Accounts fs ⟨fs, 0, []⟩ := .start fs
  have hnone : ∀ {w : World}, Quiet fs ⟨fs, 0, []⟩ w → ∀ e, Outcome fs w [] (.error e) := by
    intro w hq e
    exact ⟨hq.accounts, List.nodup_nil, fun t _ => hq.own t, (by simp), (by simp), (by simp)⟩
  unfold executePatch members
  cases parsed with
  | error e => exact ⟨hnone (.refl hstart) e, by simp⟩
  | ok requests =>
    obtain ⟨hquiet, hplans⟩ := @planPatch_quiet fs ⟨fs, 0, []⟩ E P hstart requests
    rcases hp : planPatch E P ⟨fs, 0, []⟩ requests with ⟨w1, e | plans⟩
    · rw [hp] at hquiet
      simp only [hp]
      exact ⟨hnone hquiet e, by simp⟩
    · rw [hp] at hquiet hplans
      obtain ⟨hn, hpaths⟩ := hplans plans rfl
      have hset := @commitPatch_settled fs w1 E plans hquiet.accounts hn (fun p _ => hquiet.own p.target)
      have helse : ∀ t, t ∉ plans.map (fun p => p.target) → ownWrites (commitPatch E w1 plans).1.log t = [] :=
        fun t ht => (hset.others t ht).trans (hquiet.own t)
      rcases hc : commitPatch E w1 plans with ⟨_, e | _⟩
      · rw [hc] at hset helse
        simp only [hp, hc]
        refine ⟨⟨hset.accounts, hn, helse, (by simp), fun e' he => ?_, hset.always⟩, by simp⟩
        obtain rfl := Except.error.inj he
        exact hset.failed e rfl
      · rw [hc] at hset helse
        simp only [hp, hc]
        refine ⟨⟨hset.accounts, hn, helse, fun n hn' => ?_, (by simp), hset.always⟩, fun n _ => ⟨requests, rfl, hpaths⟩⟩
        cases hn'
        exact ⟨rfl, hset.applied rfl⟩

section LostEdit

private def letter (c : Char) : Bytes := [UInt8.ofNat c.toNat]

private def planner : Planner where
  resolve := .ok
  isUtf8 := fun _ => true
  planUniqueEdit := fun bytes hunk =>
    if hunk.old.toList.flatMap letter = bytes then .ok (0, bytes.length, hunk.new.toList.flatMap letter)
    else .error (.anchorNotFound none)
  display := fun _ => "anchor not found"

/-- After the commit of `a` another writer sets it to `z` and then back to `y`, and changes `b`. -/
private def twice : Env where
  writes := fun clock => if clock = 7 then
    [("a", some ⟨letter 'z', 70⟩), ("a", some ⟨letter 'y', 71⟩), ("b", some ⟨letter 'w', 72⟩)] else []
  fault := fun _ => .none
  stamp := fun clock => 100 + clock

private def twoFiles : String → Option File := fun t => if t = "a" ∨ t = "b" then some ⟨letter 'x', 1⟩ else none

private def twoPatches : Except PatchFailure (List FilePatch) := .ok [⟨"a", [⟨"x", "y"⟩]⟩, ⟨"b", [⟨"x", "y"⟩]⟩]

/-- The rollback compares bytes: an edit that wrote the patch's own bytes again is overwritten. -/
theorem not_keeps_every_edit : ¬ ∀ (E : Env) (P : Planner) (fs : String → Option File)
    (parsed : Except PatchFailure (List FilePatch)) (before after : List Entry) (target : String) (file : File),
    (executePatch E P ⟨fs, 0, []⟩ parsed).1.log = before ++ .foreign target (some file) :: after →
    ownWrites before target ≠ [] → ownWrites after target = [] := by
  intro h
  have hlog : (executePatch twice planner ⟨twoFiles, 0, []⟩ twoPatches).1.log =
      [Entry.commit "a" ⟨letter 'x', 1⟩ ⟨letter 'y', 106⟩, .foreign "a" (some ⟨letter 'z', 70⟩)] ++
        Entry.foreign "a" (some ⟨letter 'y', 71⟩) ::
          [.foreign "b" (some ⟨letter 'w', 72⟩), .restore "a" ⟨letter 'y', 71⟩ ⟨letter 'x', 110⟩] := rfl
  have hlost := h twice planner twoFiles twoPatches _ _ "a" _ hlog (by decide)
  revert hlost
  decide

end LostEdit

end Iteron.Patch
