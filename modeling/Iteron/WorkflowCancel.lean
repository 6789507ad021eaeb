import Iteron.WorkflowQuorumRun
/-!
# WorkflowCancel — what a cancelled run leaves in the journal

A record is written for a call that started a child, that was refused before it could, or whose group reached its quorum.
The wait for a permit is also cut off by the run's own token, and then a record is written for a call that none of this
is true of.
-/
namespace Iteron.WorkflowQuorum

open WorkflowJournal (Record Cache)
open WorkflowAgent (RawCall Env Envelope)

def Stopped (E : Env) (w : World) (call : Call) : Prop :=
  ∃ raw id, E.decode call.arg = some raw ∧ groupOf raw = some id ∧ id ∈ w.cancelledGroups

def Earned (E : Env) (w : World) (call : Call) : Prop :=
  call.started = true ∨ call.refused = true ∨ Stopped E w call

/-- The wait for a permit is cut off, and not by a quorum. -/
def cutByRun (w : World) (move : Move) (phase : Phase) : Bool :=
  match move, phase with
  | .cutOff _, .queued _ _ token => !token.any (fun id => w.cancelledGroups.contains id)
  | _, _ => false

def refuses (P : LivePolicy) (move : Move) (phase : Phase) : Bool :=
  match move, phase with
  | .beginTask _ (.skippedDependency _), .missed _ _ => true
  | .check _, .admitted raw _ =>
    match raw.metadata with
    | .ok () => false
    | .error _ => true
  | .live _ spawn, .permitted raw _ => !liveStarted P raw spawn
  | _, _ => false

def Uncut (w : World) (move : Move) : Prop :=
  ∀ (n : Nat) (call : Call), move.target = some n → w.calls[n]? = some call → cutByRun w move call.phase = false

def Unrefused (P : LivePolicy) (w : World) (move : Move) : Prop :=
  ∀ (n : Nat) (call : Call), move.target = some n → w.calls[n]? = some call → refuses P move call.phase = false

/-! ## The invariant -/

def Owes (E : Env) (w : World) (call : Call) : Prop :=
  match call.phase with
  | .called | .malformed => call.wrote = none
  | .missed raw _ | .admitted raw _ | .permitted raw _ => call.wrote = none ∧ E.decode call.arg = some raw
  | .queued raw _ token =>
    call.wrote = none ∧ E.decode call.arg = some raw ∧ ∀ id, token = some id → groupOf raw = some id
  | .journaling _ _ => call.wrote = none ∧ Earned E w call
  | .finishing _ _ | .answered _ _ => call.wrote.isSome = true → Earned E w call

structure Paid (E : Env) (journal : Cache) (w : World) : Prop where
  bounded : ∀ (n : Nat) (call : Call), w.calls[n]? = some call → n ≤ w.index
  owes : ∀ (n : Nat) (call : Call), w.calls[n]? = some call → Owes E w call
  source : ∀ key : String, w.journal[key]?.isSome = true →
    journal[key]?.isSome = true ∨ ∃ (n : Nat) (call : Call), w.calls[n]? = some call ∧ call.wrote = some key

section

variable {E : Env} {P : LivePolicy} {policy : EarlyStopQuorumPolicy} {journal : Cache} {w w' : World} {n : Nat}
  {call call' : Call}

theorem Stopped.mono (hs : Stopped E w call) (hgroups : ∀ id ∈ w.cancelledGroups, id ∈ w'.cancelledGroups)
    (harg : call'.arg = call.arg) : Stopped E w' call' := by
  obtain ⟨raw, id, hraw, hgroup, hid⟩ := hs
  exact ⟨raw, id, harg ▸ hraw, hgroup, hgroups id hid⟩

theorem Earned.mono (he : Earned E w call) (hgroups : ∀ id ∈ w.cancelledGroups, id ∈ w'.cancelledGroups) : Earned E w' call := by
  rcases he with hstarted | hrefused | hstopped
  · exact .inl hstarted
  · exact .inr (.inl hrefused)
  · exact .inr (.inr (hstopped.mono hgroups rfl))

theorem Owes.mono (ho : Owes E w call) (hgroups : ∀ id ∈ w.cancelledGroups, id ∈ w'.cancelledGroups) : Owes E w' call := by
  unfold Owes at ho ⊢
  cases hphase : call.phase with
  | journaling raw settlement =>
    rw [hphase] at ho
    exact ⟨ho.1, ho.2.mono hgroups⟩
  | finishing raw settlement =>
    rw [hphase] at ho
    exact fun hwrote => (ho hwrote).mono hgroups
  | answered raw _ =>
    rw [hphase] at ho
    exact fun hwrote => (ho hwrote).mono hgroups
  | _ =>
    rw [hphase] at ho
    exact ho

theorem Owes.earned (ho : Owes E w call) (hwrote : call.wrote.isSome = true) : Earned E w call := by
  have hnone : call.wrote ≠ none := Option.isSome_iff_ne_none.1 hwrote
  unfold Owes at ho
  split at ho
  · exact (hnone ho).elim
  · exact (hnone ho).elim
  · exact (hnone ho.1).elim
  · exact (hnone ho.1).elim
  · exact (hnone ho.1).elim
  · exact (hnone ho.1).elim
  · exact ho.2
  · exact ho hwrote
  · exact ho hwrote

/-! ## A step of a call -/

structure Lands (w w' : World) (n : Nat) (call call' : Call) : Prop where
  calls : w'.calls = w.calls.insert n call'
  index : w'.index = w.index
  groups : ∀ id ∈ w.cancelledGroups, id ∈ w'.cancelledGroups
  journal : (w'.journal = w.journal ∧ call'.wrote = call.wrote) ∨
    ∃ key record, call.wrote = none ∧ w'.journal = w.journal.insert key record ∧ call'.wrote = some key

theorem lands_setPhase {phase : Phase} (hwrote : call'.wrote = call.wrote) :
    Lands w (w.setPhase n call' phase) n call { call' with phase := phase } :=
  ⟨rfl, rfl, fun _ hid => hid, .inl ⟨rfl, hwrote⟩⟩

theorem observe_frame (w : World) (group : Option Nat) (role : String) (evidence : Bool) :
    (w.observe policy group role evidence).calls = w.calls ∧ (w.observe policy group role evidence).index = w.index ∧
      (w.observe policy group role evidence).journal = w.journal ∧
      ∀ id ∈ w.cancelledGroups, id ∈ (w.observe policy group role evidence).cancelledGroups := by
  unfold World.observe
  split
  · exact ⟨rfl, rfl, rfl, fun _ hid => hid⟩
  · split
    · exact ⟨rfl, rfl, rfl, fun _ hid => hid⟩
    · dsimp only
      split
      · exact ⟨rfl, rfl, rfl, fun _ hid => .tail _ hid⟩
      · exact ⟨rfl, rfl, rfl, fun _ hid => hid⟩

theorem settle_frame (w : World) (n : Nat) (call : Call) (raw : Option RawCall) (envelope : Envelope)
    (report : Option Bool) : (w.settle policy n call raw envelope report).calls =
        w.calls.insert n { call with phase := .answered raw envelope } ∧
      (w.settle policy n call raw envelope report).index = w.index ∧
      (w.settle policy n call raw envelope report).journal = w.journal ∧
      ∀ id ∈ w.cancelledGroups, id ∈ (w.settle policy n call raw envelope report).cancelledGroups := by
  cases raw with
  | none => exact ⟨rfl, rfl, rfl, fun _ hid => hid⟩
  | some raw =>
    cases report with
    | none => exact ⟨rfl, rfl, rfl, fun _ hid => hid⟩
    | some evidence => exact observe_frame _ (groupOf raw) (role raw) evidence

theorem lands_settle (raw : Option RawCall) (envelope : Envelope) (report : Option Bool)
    (hcalls : w'.calls = w.calls) (hindex : w'.index = w.index) (hgroups : w'.cancelledGroups = w.cancelledGroups)
    (hjournal : (w'.journal = w.journal ∧ call'.wrote = call.wrote) ∨
      ∃ key record, call.wrote = none ∧ w'.journal = w.journal.insert key record ∧ call'.wrote = some key) :
    Lands w (w'.settle policy n call' raw envelope report) n call { call' with phase := .answered raw envelope } := by
  obtain ⟨hcalls', hindex', hjournal', hgroups'⟩ := @settle_frame policy w' n call' raw envelope report
  refine ⟨hcalls' ▸ hcalls ▸ rfl, hindex'.trans hindex, fun id hid => hgroups' id (hgroups.symm ▸ hid), ?_⟩
  rw [hjournal']
  exact hjournal

theorem lands_fail {raw : Option RawCall} {settlement : Settlement} {reason : String} :
    Lands w (w.fail policy n call raw settlement reason) n call { call with phase := .answered raw (.null reason) } := by
  exact lands_settle raw _ _ rfl rfl rfl (.inl ⟨rfl, rfl⟩)

def Moves (E : Env) (P : LivePolicy) (w w' : World) (n : Nat) (call : Call) (move : Move) : Prop :=
  ∃ call', Lands w w' n call call' ∧ Owes E w' call' ∧
    (refuses P move call.phase = false → call.refused = false → call'.refused = false)

variable {move : Move}

theorem moves_lookup (hwrote : call.wrote = none) : Moves E P w (w.lookup E policy n call) n call move := by
  unfold World.lookup
  split
  · exact ⟨_, lands_setPhase rfl, hwrote, fun _ hclear => hclear⟩
  · rename_i raw hraw
    split
    · exact ⟨_, lands_setPhase rfl, ⟨hwrote, hraw⟩, fun _ hclear => hclear⟩
    · refine ⟨_, lands_settle _ _ _ rfl rfl rfl (.inl ⟨rfl, rfl⟩), ?_, fun _ hclear => hclear⟩
      intro hsome
      rw [hwrote] at hsome
      cases hsome

theorem moves_check {raw : RawCall} {key : String} {m : Nat} (hphase : call.phase = .admitted raw key)
    (hwrote : call.wrote = none) (hraw : E.decode call.arg = some raw) :
    Moves E P w (w.check E n call raw key) n call (.check m) := by
  have hnone : ∀ P : Prop, call.wrote.isSome = true → P := by
    intro P hsome
    rw [hwrote] at hsome
    cases hsome
  unfold World.check
  split
  · exact ⟨_, lands_setPhase rfl, hnone _, fun _ hclear => hclear⟩
  · split
    · exact ⟨_, lands_setPhase rfl, hnone _, fun _ hclear => hclear⟩
    · split
      · rename_i e hmetadata
        refine ⟨_, @lands_setPhase w n call { call with refused := true } _ rfl, ⟨hwrote, .inr (.inl rfl)⟩, ?_⟩
        intro hrefuses _
        rw [hphase, refuses, hmetadata] at hrefuses
        cases hrefuses
      · refine ⟨_, lands_setPhase rfl, ⟨hwrote, hraw, ?_⟩, fun _ hclear => hclear⟩
        intro id hid
        exact (Option.filter_eq_some_iff.1 hid).1

theorem Owes.advance (ho : Owes E w call) (hcut : cutByRun w move call.phase = false)
    (h : w.advance E P policy n call move = some w') : Moves E P w w' n call move := by
  unfold World.advance at h
  split at h
  · rename_i hphase
    rw [Owes, hphase] at ho
    cases h
    exact moves_lookup ho
  · rename_i hphase
    rw [Owes, hphase] at ho
    cases h
    refine ⟨_, lands_setPhase rfl, ?_, fun _ hclear => hclear⟩
    intro hsome
    rw [ho] at hsome
    cases hsome
  · rename_i hphase
    rw [Owes, hphase] at ho
    cases h
    refine ⟨_, lands_settle none _ _ rfl rfl rfl (.inl ⟨rfl, rfl⟩), ?_, fun _ hclear => hclear⟩
    intro hsome
    rw [ho] at hsome
    cases hsome
  · rename_i raw key hphase
    rw [Owes, hphase] at ho
    cases h
    exact ⟨_, lands_setPhase rfl, ho, fun _ hclear => hclear⟩
  · rename_i raw key hphase
    rw [Owes, hphase] at ho
    cases h
    refine ⟨_, @lands_setPhase w n call { call with refused := true } _ rfl, ⟨ho.1, .inr (.inl rfl)⟩, ?_⟩
    intro hrefuses _
    rw [hphase] at hrefuses
    cases hrefuses
  · rename_i raw key hphase
    rw [Owes, hphase] at ho
    cases h
    refine ⟨_, lands_settle (some raw) _ _ rfl rfl rfl (.inl ⟨rfl, rfl⟩), ?_, fun _ hclear => hclear⟩
    intro hsome
    rw [ho.1] at hsome
    cases hsome
  · rename_i raw key hphase
    rw [Owes, hphase] at ho
    cases h
    exact moves_check hphase ho.1 ho.2
  · rename_i raw key token hphase
    rw [Owes, hphase] at ho
    rw [hphase, cutByRun] at hcut
    split at h
    · cases h
      -- the token that was cancelled is the one of the group
      rw [Bool.not_eq_false'] at hcut
      obtain ⟨id, hid, hcancelled⟩ := (Option.any_eq_true _ _).1 hcut
      have hstopped : Stopped E w call := ⟨raw, id, ho.2.1, ho.2.2 id hid, by simpa using hcancelled⟩
      exact ⟨_, lands_setPhase rfl, ⟨ho.1, .inr (.inr hstopped)⟩, fun _ hclear => hclear⟩
    · cases h
  · rename_i raw key token hphase
    rw [Owes, hphase] at ho
    split at h
    · cases h
    · cases h
      exact ⟨_, lands_setPhase rfl, ⟨ho.1, ho.2.1⟩, fun _ hclear => hclear⟩
  · rename_i spawn raw key hphase
    rw [Owes, hphase] at ho
    cases h
    refine ⟨_, @lands_setPhase w n call
      { call with started := liveStarted P raw spawn, refused := !liveStarted P raw spawn } _ rfl, ⟨ho.1, ?_⟩, ?_⟩
    · cases hstarted : liveStarted P raw spawn with
      | true => exact .inl rfl
      | false => exact .inr (.inl rfl)
    · intro hrefuses _
      rw [hphase] at hrefuses
      exact hrefuses
  · rename_i accepted raw settlement hphase
    rw [Owes, hphase] at ho
    split at h
    · split at h
      · cases h
        unfold World.recordOutcome
        split
        · exact ⟨_, lands_setPhase rfl, fun _ => ho.2, fun _ hclear => hclear⟩
        · exact ⟨_, ⟨rfl, rfl, fun _ hid => hid, .inr ⟨_, _, ho.1, rfl, rfl⟩⟩, fun _ => ho.2, fun _ hclear => hclear⟩
      · split at h
        · cases h
        · rename_i record _
          cases h
          have hlands := @lands_settle policy w { w with journal := w.journal.insert settlement.key record } n call
            { call with wrote := some settlement.key } raw settlement.envelope settlement.report rfl rfl rfl
            (.inr ⟨settlement.key, record, ho.1, rfl, rfl⟩)
          exact ⟨_, hlands, fun _ => ho.2.mono hlands.groups, fun _ hclear => hclear⟩
    · cases h
      exact ⟨_, lands_fail, fun _ => ho.2.mono lands_fail.groups, fun _ hclear => hclear⟩
  · rename_i accepted raw settlement hphase
    rw [Owes, hphase] at ho
    split at h
    · cases h
      have hlands := @lands_settle policy w w n call call raw settlement.envelope settlement.report rfl rfl rfl
        (.inl ⟨rfl, rfl⟩)
      exact ⟨_, hlands, fun hsome => (ho hsome).mono hlands.groups, fun _ hclear => hclear⟩
    · cases h
      exact ⟨_, lands_fail, fun hsome => (ho hsome).mono lands_fail.groups, fun _ hclear => hclear⟩
  · cases h

/-! ## Whole runs -/

theorem step_cases (h : w.step E P policy move = some w') : (∃ arg, w' = { w with
      index := w.index + 1, calls := w.calls.insert (w.index + 1) { arg := arg, phase := .called } }) ∨
    (w'.calls = w.calls ∧ w'.index = w.index ∧ w'.cancelledGroups = w.cancelledGroups ∧ w'.journal = w.journal) ∨
    (∃ (n : Nat) (call : Call), move.target = some n ∧ w.calls[n]? = some call ∧
      w.advance E P policy n call move = some w') := by
  unfold World.step at h
  split at h
  · exact .inl ⟨_, (Option.some.inj h).symm⟩
  · cases h
    exact .inr (.inl ⟨rfl, rfl, rfl, rfl⟩)
  · split at h
    · cases h
      exact .inr (.inl ⟨rfl, rfl, rfl, rfl⟩)
    · cases h
      exact .inr (.inl ⟨rfl, rfl, rfl, rfl⟩)
  · cases h
    exact .inr (.inl ⟨rfl, rfl, rfl, rfl⟩)
  · split at h
    · cases h
    · rename_i n htarget
      split at h
      · cases h
      · rename_i call hcall
        exact .inr (.inr ⟨n, call, htarget, hcall, h⟩)

theorem Paid.lands (hp : Paid E journal w) (hcall : w.calls[n]? = some call) (hl : Lands w w' n call call')
    (ho : Owes E w' call') : Paid E journal w' := by
  refine ⟨?_, ?_, ?_⟩
  · intro m other hother
    rw [hl.calls, Table.get_insert] at hother
    rw [hl.index]
    split at hother
    · rename_i heq
      exact heq ▸ hp.bounded n call hcall
    · exact hp.bounded m other hother
  · intro m other hother
    rw [hl.calls, Table.get_insert] at hother
    split at hother
    · cases hother
      exact ho
    · exact (hp.owes m other hother).mono hl.groups
  · intro key hkey
    -- whoever wrote the key before still has
    have hkept : (∃ (m : Nat) (other : Call), w.calls[m]? = some other ∧ other.wrote = some key) →
        (call.wrote = some key → call'.wrote = some key) →
        ∃ (m : Nat) (other : Call), w'.calls[m]? = some other ∧ other.wrote = some key := by
      rintro ⟨m, other, hother, hwrote⟩ hsame
      by_cases hm : m = n
      · subst hm
        cases hother.symm.trans hcall
        exact ⟨m, call', by rw [hl.calls, Table.get_insert, if_pos rfl], hsame hwrote⟩
      · exact ⟨m, other, by rw [hl.calls, Table.get_insert, if_neg (fun h => hm h.symm), hother], hwrote⟩
    rcases hl.journal with ⟨hjournal, hsame⟩ | ⟨_, _, hnone, hjournal, hwrote⟩
    · rw [hjournal] at hkey
      exact (hp.source key hkey).imp_right (fun h => hkept h (fun hw => hsame ▸ hw))
    · rw [hjournal, Table.get_insert] at hkey
      split at hkey
      · rename_i heq
        exact .inr ⟨n, call', by rw [hl.calls, Table.get_insert, if_pos rfl], heq ▸ hwrote⟩
      · refine (hp.source key hkey).imp_right (fun h => hkept h (fun hw => ?_))
        rw [hnone] at hw
        cases hw

theorem Paid.step (hp : Paid E journal w) (hcut : Uncut w move) (h : w.step E P policy move = some w') : Paid E journal w' := by
  rcases step_cases h with ⟨_, rfl⟩ | ⟨hcalls, hindex, hgroups, hjournal⟩ | ⟨n, call, htarget, hcall, hadvance⟩
  · have hfresh : ∀ (m : Nat) (other : Call), w.calls[m]? = some other → w.index + 1 ≠ m := by
      intro m other hother heq
      have hle := hp.bounded m other hother
      omega
    refine ⟨?_, ?_, ?_⟩
    · intro m other hother
      rw [Table.get_insert] at hother
      split at hother
      · rename_i heq
        exact heq ▸ Nat.le_refl _
      · exact Nat.le_succ_of_le (hp.bounded m other hother)
    · intro m other hother
      rw [Table.get_insert] at hother
      split at hother
      · cases hother
        exact rfl
      · exact (hp.owes m other hother).mono (fun _ hid => hid)
    · intro key hkey
      refine (hp.source key hkey).imp_right ?_
      rintro ⟨m, other, hother, hwrote⟩
      exact ⟨m, other, by rw [Table.get_insert, if_neg (hfresh m other hother), hother], hwrote⟩
  · refine ⟨?_, ?_, ?_⟩
    · rw [hcalls, hindex]
      exact hp.bounded
    · intro m other hother
      rw [hcalls] at hother
      exact (hp.owes m other hother).mono (fun _ hid => hgroups.symm ▸ hid)
    · rw [hjournal, hcalls]
      exact hp.source
  · obtain ⟨_, hlands, howes, -⟩ := (hp.owes n call hcall).advance (hcut n call htarget hcall) hadvance
    exact hp.lands hcall hlands howes

theorem paid_resume (E : Env) (journal : Cache) : Paid E journal (World.resume journal) := by
  refine ⟨?_, ?_, fun key hkey => .inl hkey⟩
  · intro n call hcall
    cases hcall
  · intro n call hcall
    cases hcall

theorem Reached.paid (hw : Reached E P policy journal Uncut w) : Paid E journal w := by
  induction hw with
  | start => exact paid_resume E journal
  | step w _ _ _ hcut hstep ih => exact ih.step hcut hstep

theorem Reached.imp {meets meets' : World → Move → Prop} (himp : ∀ w move, meets w move → meets' w move)
    (hw : Reached E P policy journal meets w) : Reached E P policy journal meets' w := by
  induction hw with
  | start => exact .start
  | step w w' move _ hmeets hstep ih => exact .step w w' move ih (himp w move hmeets) hstep

theorem Reached.unrefused (hw : Reached E P policy journal (fun w move => Uncut w move ∧ Unrefused P w move) w) :
    ∀ (n : Nat) (call : Call), w.calls[n]? = some call → call.refused = false := by
  induction hw with
  | start =>
    intro n call hcall
    cases hcall
  | step w _ move hrun hmeets hstep ih =>
    have hpaid := (hrun.imp (fun _ _ h => h.1)).paid
    intro m other hother
    rcases step_cases hstep with ⟨_, rfl⟩ | ⟨hcalls, -, -, -⟩ | ⟨n, call, htarget, hcall, hadvance⟩
    · rw [Table.get_insert] at hother
      split at hother
      · cases hother
        rfl
      · exact ih m other hother
    · rw [hcalls] at hother
      exact ih m other hother
    · obtain ⟨_, hlands, -, hclear⟩ := (hpaid.owes n call hcall).advance (hmeets.1 n call htarget hcall) hadvance
      rw [hlands.calls, Table.get_insert] at hother
      split at hother
      · cases hother
        exact hclear (hmeets.2 n call htarget hcall) (ih n call hcall)
      · exact ih m other hother

/-- **Run cancellation is no outcome**, in every run in which no wait for a permit is cut off by the run's own token: a
record is written only for a call that started a child, was refused before it could, or is a member of a group that
reached its quorum, and a resumed run misses every other call in the journal.  Without a refusal the record is one of a
started child or of a quorum. -/
theorem cancellation_no_outcome (E : Env) (P : LivePolicy) (policy : EarlyStopQuorumPolicy) (journal : Cache) :
    (∀ w, Reached E P policy journal Uncut w →
      (∀ (n : Nat) (call : Call), w.calls[n]? = some call → call.wrote.isSome = true → Earned E w call) ∧
      (∀ (arg : String) (raw : RawCall), E.decode arg = some raw → journal[E.key arg raw]? = none →
        (∀ (n : Nat) (call : Call), w.calls[n]? = some call → call.wrote = some (E.key arg raw) → ¬ Earned E w call) →
        ∀ (resumed : World) (n : Nat) (call : Call), resumed.journal = w.journal → resumed.calls[n]? = some call →
          call.arg = arg → call.phase = .called →
          resumed.step E P policy (.lookup n) = some (resumed.setPhase n call (.missed raw (E.key arg raw))))) ∧
    (∀ w, Reached E P policy journal (fun w move => Uncut w move ∧ Unrefused P w move) w →
      ∀ (n : Nat) (call : Call), w.calls[n]? = some call → call.wrote.isSome = true →
        call.started = true ∨ Stopped E w call) := by
  refine ⟨fun w hw => ⟨?_, ?_⟩, ?_⟩
  · intro n call hcall hwrote
    exact (hw.paid.owes n call hcall).earned hwrote
  · intro arg raw hraw hfirst hunearned resumed n call hjournal hcall harg hphase
    have hmiss : w.journal[E.key arg raw]? = none := by
      by_contra hhit
      rcases hw.paid.source _ (Option.isSome_iff_ne_none.2 hhit) with hold | ⟨m, other, hother, hwrote⟩
      · rw [hfirst] at hold
        cases hold
      · refine hunearned m other hother hwrote ((hw.paid.owes m other hother).earned ?_)
        rw [hwrote]
        rfl
    have hlookup : resumed.lookup E policy n call = resumed.setPhase n call (.missed raw (E.key arg raw)) := by
      subst harg
      unfold World.lookup
      simp only [hraw, hjournal, hmiss]
    simp only [World.step, Move.target, hcall, World.advance, hphase, hlookup]
  · intro w hw n call hcall hwrote
    rcases ((hw.imp (fun _ _ h => h.1)).paid.owes n call hcall).earned hwrote with hstarted | hrefused | hstopped
    · exact .inl hstarted
    · rw [hw.unrefused n call hcall] at hrefused
      cases hrefused
    · exact .inr hstopped

end

/-! ## A quorum and a cancelled run -/

namespace Sample

open WorkflowAgent.Sample (env wireCall)

/-- No wait is cut off by the run's token and no call is refused. -/
def calm (w : World) (move : Move) : Bool :=
  match move.target with
  | none => true
  | some n =>
    match w.calls[n]? with
    | none => true
    | some call => !cutByRun w move call.phase && !refuses live move call.phase

theorem calm_meets (w : World) (move : Move) (h : calm w move = true) : Uncut w move ∧ Unrefused live w move := by
  have hcalm : ∀ (n : Nat) (call : Call), move.target = some n → w.calls[n]? = some call →
      cutByRun w move call.phase = false ∧ refuses live move call.phase = false := by
    intro n call htarget hcall
    rw [calm, htarget] at h
    dsimp only at h
    rw [hcall] at h
    simpa using h
  exact ⟨fun n call ht hc => (hcalm n call ht hc).1, fun n call ht hc => (hcalm n call ht hc).2⟩

/-- A member waits for a permit while the other one returns and makes the quorum. -/
def outvoted : List Move :=
  [Move.beginQuorum 2, .call (memberCall "B" "null"), .call (memberCall "C" "null"), .lookup 2, .beginTask 2 .ready,
    .check 2] ++ returns 1 ++ [Move.cutOff 2, .journal 2 true, .finish 2 true]

/-- A call of no group waits for a permit when the run is cancelled. -/
def interrupted : List Move :=
  [.call (wireCall "A" "null"), .lookup 1, .beginTask 1 .ready, .check 1, .cancelRun, .cutOff 1, .journal 1 true]

end Sample

set_option maxRecDepth 20000 in
/-- A member that a quorum cut off. -/
theorem cancellation_no_outcome_outvoted : ∃ (w : World) (call : Call),
    Reached Sample.groupEnv Sample.live Sample.oneVote ∅ (fun w move => Uncut w move ∧ Unrefused Sample.live w move) w ∧
      w.calls[2]? = some call ∧ call.wrote.isSome = true ∧ call.started = false ∧
      (call.started = true ∨ Stopped Sample.groupEnv w call) := by
  have hrun : ((runTested Sample.groupEnv Sample.live Sample.oneVote Sample.calm (World.resume ∅) Sample.outvoted).any
      (fun w => w.calls[2]?.any (fun call : Call => call.wrote.isSome && !call.started))) = true := rfl
  obtain ⟨w, hw, hcall⟩ := (Option.any_eq_true _ _).1 hrun
  obtain ⟨call, hcall, hfacts⟩ := (Option.any_eq_true _ _).1 hcall
  rw [Bool.and_eq_true, Bool.not_eq_true'] at hfacts
  have hreached := reached_runTested _ _ _ Sample.calm_meets Sample.outvoted .start hw
  exact ⟨w, call, hreached, hcall, hfacts.1, hfacts.2,
    (cancellation_no_outcome Sample.groupEnv Sample.live Sample.oneVote ∅).2 w hreached 2 call hcall hfacts.1⟩

set_option maxRecDepth 20000 in
/-- A cancelled run journals a call that it did not start. -/
theorem not_cancellation_no_outcome : ¬ ∀ (E : Env) (P : LivePolicy) (policy : EarlyStopQuorumPolicy) (journal : Cache)
    (w : World), Reached E P policy journal (fun _ _ => True) w →
      ∀ (n : Nat) (call : Call), w.calls[n]? = some call → call.wrote.isSome = true → Earned E w call := by
  intro hall
  have hrun : ((runTested WorkflowAgent.Sample.env Sample.live Sample.oneVote (fun _ _ => true) (World.resume ∅)
      Sample.interrupted).any (fun w => w.cancelledGroups.isEmpty && w.calls[1]?.any
        (fun call : Call => call.wrote.isSome && !call.started && !call.refused))) = true := rfl
  obtain ⟨w, hw, hfacts⟩ := (Option.any_eq_true _ _).1 hrun
  rw [Bool.and_eq_true, List.isEmpty_iff] at hfacts
  obtain ⟨hgroups, hcall⟩ := hfacts
  obtain ⟨call, hcall, hfacts⟩ := (Option.any_eq_true _ _).1 hcall
  simp only [Bool.and_eq_true, Bool.not_eq_true'] at hfacts
  obtain ⟨⟨hwrote, hstarted⟩, hrefused⟩ := hfacts
  have hreached := reached_runTested WorkflowAgent.Sample.env Sample.live Sample.oneVote (fun _ _ _ => trivial)
    Sample.interrupted (@Reached.start _ _ _ ∅ (fun _ _ => True)) hw
  rcases hall _ _ _ ∅ w hreached 1 call hcall hwrote with hs | hr | ⟨_, _, -, -, hid⟩
  · rw [hstarted] at hs
    cases hs
  · rw [hrefused] at hr
    cases hr
  · rw [hgroups] at hid
    cases hid

end Iteron.WorkflowQuorum
