import Iteron.TurnStartStore
/-!
# TurnStartMoves — what an operation of the store can do

A transaction that stores a snapshot collected expired entries of other keys, which are over or pending without an owner,
and then did one of a few things to its own key (`Acts`).
-/
namespace Iteron.TurnStart

open Machine Refuse

/-- An answer that goes with an unchanged snapshot: it grants nothing, and calls a key unregistered only if it is. -/
def StoreDecision.Idle (s : Snapshot) (key : String) : StoreDecision → Prop
  | .vacant | .receipt _ => True
  | .refused r => r.requestKey = some key ∧ (r.definitelyUnregistered = true → s.entries[key]? = none)
  | .reserved _ | .admitted _ => False

/-- What an operation does to a collected snapshot, with the answer it then gives. -/
inductive Acts (env : Surroundings) (now : Nat) (s : Snapshot) : Operation → Snapshot → StoreDecision → Prop
  | keep {op : Operation} {d : StoreDecision} (hidle : d.Idle s op.request.requestKey) : Acts env now s op s d
  | register {request : PreparedRequest} {targetRun nonce : String} {active : Bool} {lease : OwnerToken}
      (hown : ∀ e : Entry, s.entries[request.requestKey]? = some e → e.state = .pending ∧ env.sight .own e.owner = .ok false)
      (hopen : now < saturatingAdd windowMs request.createdMs)
      (hfree : ∀ (k : String) (e : Entry), k ≠ request.requestKey → s.entries[k]? = some e →
        e.threadId = request.threadId →
        e.state.terminal = true ∨ (e.state = .pending ∧ env.sight .scan e.owner = .ok false))
      (hslot : env.free lease.slot = true) (hnonce : env.ownerNonce = some lease.nonce) :
      Acts env now s (.reserve request targetRun active)
        { s with
          entries := s.entries.insert request.requestKey
            ⟨request.threadId, request.createdMs, targetRun, lease, nonce, .pending, none⟩ }
        (.reserved ⟨request, targetRun, lease, nonce, lease⟩)
  | grant {reservation : Reservation} {identity granted : AdmissionIdentity} {e : Entry} {r : StoreReceipt}
      (he : s.entries[reservation.request.requestKey]? = some e) (hpending : e.state = .pending)
      (howner : e.owner = reservation.lease) (hturn : s.lastProductTurn < granted.turnId)
      (hkey : r.requestKey = reservation.request.requestKey) (hidentity : r.identity = some granted) :
      Acts env now s (.admitTurn reservation identity)
        { s with
          lastProductTurn := granted.turnId
          entries := s.entries.insert reservation.request.requestKey
            { e with identity := some granted, state := .admitted } }
        (.admitted r)
  | report {op : Operation} {e : Entry} {state : StoreState} {r : StoreReceipt}
      (he : s.entries[op.request.requestKey]? = some e) (hidentity : e.identity.isSome = true)
      (hterminal : e.state.terminal = true → state = e.state)
      (hstate : state = e.state ∨ state = .running ∨ state.terminal = true ∨ state = .unknown) :
      Acts env now s op { s with entries := s.entries.insert op.request.requestKey { e with state := state } } (.receipt r)
  | release {reservation : Reservation} {reason : RefusalReason} {e : Entry}
      (he : s.entries[reservation.request.requestKey]? = some e) (hpending : e.state = .pending)
      (howner : e.owner = reservation.lease) :
      Acts env now s (.releasePending reservation reason)
        { s with entries := s.entries.erase reservation.request.requestKey }
        (.refused (refusal reservation.request.requestKey reason true))

/-! ## Operations, one by one -/

variable {C : Codec} {env : Surroundings} {s s' : Snapshot} {now : Nat} {request : PreparedRequest} {d : StoreDecision}

theorem timeRefusal_none (h : timeRefusal request now = none) : now < saturatingAdd windowMs request.createdMs := by
  unfold timeRefusal at h
  split at h
  · cases h
  · rename_i hopen
    rw [PreparedRequest.windowClosed, decide_eq_true_eq] at hopen
    exact Nat.not_le.1 hopen

variable {sight : Sight} {entry : Entry}

theorem orphan_of_ownedIn {stage : Stage}
    (h : ownedIn sight stage [.pending] entry = .ok false) : entry.state = .pending ∧ sight stage entry.owner = .ok false := by
  unfold ownedIn at h
  split at h
  · rename_i hstate
    exact ⟨by simpa using hstate, h⟩
  · cases h

theorem receipt_ok {r : StoreReceipt} (h : receipt sight request now entry = .ok r) :
    r.requestKey = request.requestKey ∧ r.identity = entry.identity := by
  simp only [receipt, bind_eq_ok, pure_eq_ok] at h
  obtain ⟨_, -, rfl⟩ := h
  exact ⟨rfl, rfl⟩

theorem lookup_acts (h : lookup env.sight request s now = .ok (s', d)) : Acts env now s (.lookup request) s' d := by
  unfold lookup at h
  split at h
  · cases pure_eq_ok.1 h
    exact .keep ⟨rfl, fun hfalse => (by cases hfalse)⟩
  · split at h
    · cases pure_eq_ok.1 h
      exact .keep trivial
    · rw [bind_eq_ok] at h
      obtain ⟨_, -, h⟩ := h
      split at h
      · simp only [bind_eq_ok, pure_eq_ok, Prod.mk.injEq] at h
        obtain ⟨_, -, rfl, rfl⟩ := h
        exact .keep trivial
      · cases pure_eq_ok.1 h
        exact .keep trivial

theorem occupied_ok {sight : Sight} : ∀ {l : List (String × Entry)}, occupied sight request l = .ok false →
    ∀ p ∈ l, occupies sight request p.1 p.2 = .ok false
  | [], _, p, hp => by cases hp
  | q :: rest, h, p, hp => by
    simp only [occupied, bind_eq_ok] at h
    obtain ⟨found, hfound, h⟩ := h
    cases found with
    | true => cases h
    | false =>
      rcases List.mem_cons.1 hp with rfl | hp
      · exact hfound
      · exact occupied_ok h p hp

variable {key : String}

theorem occupies_false (h : occupies sight request key entry = .ok false) (hkey : key ≠ request.requestKey)
    (hthread : entry.threadId = request.threadId) :
    entry.state.terminal = true ∨ (entry.state = .pending ∧ sight .scan entry.owner = .ok false) := by
  unfold occupies at h
  split at h
  · exact .inr (orphan_of_ownedIn h)
  · rename_i hnot
    refine .inl (Classical.byContradiction (fun hterminal => hnot ⟨hkey, hthread, ?_⟩))
    simpa using hterminal

theorem absent_iff : (!s.entries.contains request.requestKey) = true ↔ s.entries[request.requestKey]? = none := by
  rw [Bool.not_eq_true', Table.contains_eq_false]

variable {targetRun : String} {active : Bool}

theorem reserveAnswer_some
    (h : reserveAnswer env.sight request s now targetRun active = .ok (some d)) : d.Idle s request.requestKey := by
  unfold reserveAnswer at h
  split at h
  · cases pure_eq_ok.1 h
    exact ⟨rfl, fun hfalse => (by cases hfalse)⟩
  · rw [bind_eq_ok] at h
    obtain ⟨_, -, h⟩ := h
    split at h
    · simp only [bind_eq_ok, pure_eq_ok, Option.some.injEq] at h
      obtain ⟨_, -, rfl⟩ := h
      trivial
    · split at h
      · cases pure_eq_ok.1 h
        exact ⟨rfl, absent_iff.1⟩
      · rw [bind_eq_ok] at h
        obtain ⟨_, -, h⟩ := h
        split at h
        · cases pure_eq_ok.1 h
          exact ⟨rfl, absent_iff.1⟩
        · split at h
          · rename_i hfull
            cases pure_eq_ok.1 h
            exact ⟨rfl, fun _ => absent_iff.1 hfull.1⟩
          · cases pure_eq_ok.1 h

theorem reserveAnswer_none (h : reserveAnswer env.sight request s now targetRun active = .ok none) :
    now < saturatingAdd windowMs request.createdMs ∧
      (∀ e : Entry, s.entries[request.requestKey]? = some e → e.state = .pending ∧ env.sight .own e.owner = .ok false) ∧
      ∀ (k : String) (e : Entry), k ≠ request.requestKey → s.entries[k]? = some e → e.threadId = request.threadId →
        e.state.terminal = true ∨ (e.state = .pending ∧ env.sight .scan e.owner = .ok false) := by
  unfold reserveAnswer at h
  split at h
  · cases pure_eq_ok.1 h
  · rename_i htime
    rw [bind_eq_ok] at h
    obtain ⟨_, hheld, h⟩ := h
    split at h
    · simp only [bind_eq_ok, pure_eq_ok, reduceCtorEq, and_false, exists_false] at h
    · split at h
      · cases pure_eq_ok.1 h
      · rw [bind_eq_ok] at h
        obtain ⟨busy, hbusy, h⟩ := h
        split at h
        · cases pure_eq_ok.1 h
        · rename_i hidle
          refine ⟨timeRefusal_none htime, fun e he => ?_, fun k e hk he hthread => ?_⟩
          · simp only [heldEntry, he, bind_eq_ok, pure_eq_ok] at hheld
            obtain ⟨owned, howned, hnone⟩ := hheld
            cases owned with
            | true => cases hnone
            | false => exact orphan_of_ownedIn howned
          · obtain rfl : busy = false := by
              cases busy with
              | true => cases hidle (.inr rfl)
              | false => rfl
            exact occupies_false (occupied_ok hbusy (k, e) ((Table.mem_toList _ k e).2 he)) hk hthread

variable {free : Nat → Bool} {nonce : Option String} {storing : Storing}

variable {token : Option OwnerToken}

theorem reserveOwner_ok {lease : OwnerToken} (h : reserveOwner free nonce storing = (token, .ok lease)) :
    token = some lease ∧ free lease.slot = true ∧ nonce = some lease.nonce := by
  unfold reserveOwner at h
  split at h
  · cases h
  · cases h
  · rename_i slot nonce hslot
    cases storing with
    | done =>
      obtain ⟨rfl, hlease⟩ := Prod.mk.inj h
      cases hlease
      exact ⟨rfl, List.find?_some hslot, rfl⟩
    | failed => cases h
    | lost => cases h

theorem reserve_acts
    (h : reserve C env.sight request s now env.free env.ownerNonce env.reservationNonce env.token targetRun active =
      ⟨token, .ok (s', d)⟩) :
    Acts env now s (.reserve request targetRun active) s' d ∧ ∀ r, d = .reserved r → token = some r.lease := by
  unfold reserve at h
  split at h
  · cases h
  · rename_i decision hanswer
    obtain ⟨rfl, rfl, rfl⟩ := h
    have hidle := reserveAnswer_some hanswer
    refine ⟨.keep hidle, fun r hr => ?_⟩
    subst hr
    cases hidle
  · rename_i hanswer
    obtain ⟨hopen, hown, hfree⟩ := reserveAnswer_none hanswer
    split at h
    · cases h
    · rename_i hlease
      obtain ⟨rfl, hslot, hnonce⟩ := reserveOwner_ok hlease
      split at h
      · cases h
      · simp only [Attempt.mk.injEq, Except.ok.injEq] at h
        obtain ⟨rfl, hregister⟩ := h
        unfold register at hregister
        dsimp only at hregister
        split at hregister
        · cases hregister
          exact ⟨.keep ⟨rfl, absent_iff.1⟩, fun r hr => (by cases hr)⟩
        · cases hregister
          refine ⟨.register hown hopen hfree hslot hnonce, fun r hr => ?_⟩
          obtain rfl := StoreDecision.reserved.inj hr
          rfl

variable {reservation : Reservation}

theorem owns_ok (h : owns reservation entry = true) : entry.owner = reservation.lease := by
  simp only [owns, Bool.and_eq_true, beq_iff_eq] at h
  exact h.1.1.1.1

variable {identity : AdmissionIdentity}

theorem admitEntry_acts : Ensures (admitEntry env.sight s now reservation identity)
    (fun p => Acts env now s (.admitTurn reservation identity) p.1 p.2) := by
  unfold admitEntry
  dsimp only
  split
  · rename_i hnone
    exact .pure (.keep ⟨rfl, fun _ => hnone⟩)
  · rename_i entry he
    split
    · exact .bind fun _ _ => .pure (.keep trivial)
    · rename_i hpending
      split
      · exact .pure (.keep ⟨rfl, fun hfalse => (by cases hfalse)⟩)
      · rename_i howns
        rw [not_or, Bool.not_eq_false] at howns
        split
        · exact .pure (.keep ⟨rfl, fun hfalse => (by cases hfalse)⟩)
        · split
          · intro p hp
            cases hp
          · rename_i following hfollowing
            refine .bind fun r hr => .pure ?_
            obtain ⟨hkey, hidentity⟩ := receipt_ok hr
            have hturn : s.lastProductTurn < max identity.turnId following := by
              have := checkedAdd_eq_some hfollowing
              omega
            exact .grant he (not_not.1 hpending) (owns_ok howns.1) hturn hkey hidentity

variable {op : Operation}

theorem report_acts {change : Entry → Except String StoreState}
    (h : report env.sight op.request s now identity change = .ok (s', d))
    (hterminal : ∀ e state, change e = .ok state → e.state.terminal = true → state = e.state)
    (hstate : ∀ e state, change e = .ok state → state = e.state ∨ state = .running ∨ state.terminal = true ∨ state = .unknown)
    : Acts env now s op s' d := by
  unfold report at h
  split at h
  · cases h
  · rename_i entry he
    simp only [bind_eq_ok, refuseIf_eq_ok, not_not, pure_eq_ok, Prod.mk.injEq] at h
    obtain ⟨_, hidentity, state, hchange, r, -, rfl, rfl⟩ := h
    exact .report he (by rw [hidentity]; rfl) (hterminal entry state hchange) (hstate entry state hchange)

theorem toStoreState_terminal (t : TerminalState) : t.toStoreState.terminal = true := by
  cases t <;> rfl

theorem releasePending_acts {reason : RefusalReason} : Ensures (releasePending env.sight s now reservation reason)
    (fun p => Acts env now s (.releasePending reservation reason) p.1 p.2) := by
  unfold releasePending
  dsimp only
  split
  · rename_i hnone
    exact .pure (.keep ⟨rfl, fun _ => hnone⟩)
  · rename_i entry he
    split
    · exact .bind fun _ _ => .pure (.keep trivial)
    · rename_i hpending
      refine .bind fun _ howns => .pure ?_
      rw [refuseIf_eq_ok, Bool.not_eq_false] at howns
      exact .release he (not_not.1 hpending) (owns_ok howns)

theorem action_acts (h : op.action C env s now = ⟨token, .ok (s', d)⟩) :
    Acts env now s op s' d ∧ ∀ r, d = .reserved r → token = some r.lease := by
  have hnone : ∀ {result : Except String (Snapshot × StoreDecision)},
      (⟨none, result⟩ : Attempt) = ⟨token, .ok (s', d)⟩ → result = .ok (s', d) := fun h => (Attempt.mk.inj h).2
  have hplain : ∀ {op : Operation}, (∀ request targetRun active, op ≠ .reserve request targetRun active) →
      Acts env now s op s' d → Acts env now s op s' d ∧ ∀ r, d = .reserved r → token = some r.lease := by
    intro op hop hacts
    refine ⟨hacts, fun r hr => ?_⟩
    subst hr
    cases hacts with
    | keep hidle => exact hidle.elim
    | register => cases hop _ _ _ rfl
  cases op with
  | reserve request targetRun active =>
    simp only [Operation.action] at h
    exact reserve_acts h
  | lookup request =>
    exact hplain (by simp) (lookup_acts (hnone h))
  | admitTurn reservation identity =>
    exact hplain (by simp) (admitEntry_acts _ (hnone h))
  | releasePending reservation _ =>
    exact hplain (by simp) (releasePending_acts _ (hnone h))
  | markRunning request identity =>
    have hacts : Acts env now s (.markRunning request identity) s' d := by
      refine report_acts (hnone h) (fun e state hchange hterminal => ?_) (fun e state hchange => ?_)
      · split at hchange
        · rename_i hstate
          rcases hstate with hstate | hstate
          · rw [hstate] at hterminal
            cases hterminal
          · rw [hstate] at hterminal
            cases hterminal
        · exact (pure_eq_ok.1 hchange).symm
      · split at hchange
        · simp only [bind_eq_ok, pure_eq_ok] at hchange
          obtain ⟨live, -, rfl⟩ := hchange
          cases live with
          | true => exact .inr (.inl rfl)
          | false => exact .inl rfl
        · exact .inl (pure_eq_ok.1 hchange).symm
    exact hplain (by simp) hacts
  | finish request identity terminal =>
    have hacts : Acts env now s (.finish request identity terminal) s' d := by
      refine report_acts (hnone h) (fun e state hchange hterminal => ?_) (fun e state hchange => ?_)
      · simp only [bind_eq_ok, refuseIf_eq_ok, pure_eq_ok, not_and, not_not] at hchange
        obtain ⟨_, hsame, rfl⟩ := hchange
        exact (hsame hterminal).symm
      · simp only [bind_eq_ok, pure_eq_ok] at hchange
        obtain ⟨_, -, rfl⟩ := hchange
        exact .inr (.inr (.inl (toStoreState_terminal terminal)))
    exact hplain (by simp) hacts
  | abandon request identity =>
    have hacts : Acts env now s (.abandon request identity) s' d := by
      refine report_acts (hnone h) (fun e state hchange hterminal => ?_) (fun e state hchange => ?_)
      · rw [pure_eq_ok, if_pos hterminal] at hchange
        exact hchange.symm
      · rw [pure_eq_ok] at hchange
        by_cases hterminal : e.state.terminal = true
        · rw [if_pos hterminal] at hchange
          exact .inl hchange.symm
        · rw [if_neg hterminal] at hchange
          exact .inr (.inr (.inr hchange.symm))
    exact hplain (by simp) hacts

/-! ## Collection -/

/-- An entry that may be collected at a time: its window is closed, and it is over or pending without an owner. -/
def Collectable (env : Surroundings) (now : Nat) (e : Entry) : Prop :=
  saturatingAdd windowMs e.createdMs ≤ now ∧
    (e.state.terminal = true ∨ (e.state = .pending ∧ env.sight .collect e.owner = .ok false))

theorem removable_ok (h : removable env.sight request now key entry = .ok true) :
    key ≠ request.requestKey ∧ Collectable env now entry := by
  unfold removable at h
  split at h
  · cases h
  · rename_i hkey
    split at h
    · cases h
    · rename_i hclosed
      refine ⟨hkey, Nat.not_lt.1 hclosed, ?_⟩
      split at h
      · rename_i hterminal
        exact .inl hterminal
      · simp only [bind_eq_ok, pure_eq_ok, Bool.not_eq_true'] at h
        obtain ⟨_, howned, rfl⟩ := h
        exact .inr (orphan_of_ownedIn howned)

theorem removals_ok : ∀ {l : List (String × Entry)} {keys : List String}, removals env.sight request now l = .ok keys →
    ∀ k ∈ keys, ∃ e, (k, e) ∈ l ∧ removable env.sight request now k e = .ok true
  | [], keys, h, k, hk => by
    obtain rfl := pure_eq_ok.1 h
    cases hk
  | p :: rest, keys, h, k, hk => by
    simp only [removals, bind_eq_ok, pure_eq_ok] at h
    obtain ⟨gone, hgone, keys', hrest, rfl⟩ := h
    have hold : k ∈ keys' → ∃ e, (k, e) ∈ p :: rest ∧ removable env.sight request now k e = .ok true := by
      intro hk
      obtain ⟨e, he, hremove⟩ := removals_ok hrest k hk
      exact ⟨e, .tail _ he, hremove⟩
    cases gone with
    | false => exact hold hk
    | true =>
      rcases List.mem_cons.1 hk with rfl | hk
      · exact ⟨p.2, .head _, hgone⟩
      · exact hold hk

theorem get_eraseAll (entries : Std.ExtTreeMap String Entry) : ∀ (keys : List String) (k : String),
    (keys.foldl (fun entries key => entries.erase key) entries)[k]? = if k ∈ keys then none else entries[k]? := by
  intro keys
  induction keys generalizing entries with
  | nil => exact fun k => rfl
  | cons key keys ih =>
    intro k
    rw [List.foldl_cons, ih, Std.ExtTreeMap.getElem?_erase]
    simp only [Std.LawfulEqCmp.compare_eq_iff_eq, List.mem_cons]
    by_cases hkeys : k ∈ keys
    · rw [if_pos hkeys, if_pos (Or.inr hkeys)]
    · rw [if_neg hkeys]
      by_cases hk : key = k
      · rw [if_pos hk, if_pos (Or.inl hk.symm)]
      · rw [if_neg hk, if_neg (fun h => h.elim (fun h => hk h.symm) hkeys)]

theorem collect_ok (h : collect env.sight request s now = .ok s') :
    s' = { s with entries := s'.entries } ∧ ∀ k : String, s'.entries[k]? = s.entries[k]? ∨
      (k ≠ request.requestKey ∧ s'.entries[k]? = none ∧ ∃ e : Entry, s.entries[k]? = some e ∧ Collectable env now e) := by
  simp only [collect, bind_eq_ok, pure_eq_ok] at h
  obtain ⟨keys, hkeys, rfl⟩ := h
  refine ⟨rfl, fun k => ?_⟩
  rw [get_eraseAll]
  by_cases hk : k ∈ keys
  · obtain ⟨e, he, hremove⟩ := removals_ok hkeys k hk
    obtain ⟨hkey, hcollect⟩ := removable_ok hremove
    rw [if_pos hk]
    exact .inr ⟨hkey, rfl, e, (Table.mem_toList _ k e).1 he, hcollect⟩
  · rw [if_neg hk]
    exact .inl rfl

/-! ## Transactions -/

theorem replaceSnapshot_cases (storing : Storing) (next : Snapshot) :
    ((replaceSnapshot C storing next).1 = none ∧ ∃ e, (replaceSnapshot C storing next).2 = .error e) ∨
      (validateSnapshot C next next.tenantDigest = .ok () ∧ (replaceSnapshot C storing next).1 = some next) := by
  unfold replaceSnapshot
  split
  · exact .inl ⟨rfl, _, rfl⟩
  · rename_i hvalid
    split
    · exact .inl ⟨rfl, _, rfl⟩
    · cases storing with
      | done => exact .inr ⟨hvalid, rfl⟩
      | failed => exact .inl ⟨rfl, _, rfl⟩
      | lost => exact .inr ⟨hvalid, rfl⟩

variable {α : Type}

theorem finishTransaction_cases (token : Option OwnerToken) (next : Snapshot) (answer : α) (fallback : String → α) :
    ((finishTransaction C env token next answer fallback).stored = none ∧
        ∃ e, (finishTransaction C env token next answer fallback).answer = fallback e) ∨
      (validateSnapshot C next next.tenantDigest = .ok () ∧
        (finishTransaction C env token next answer fallback).stored = some next ∧
        ((finishTransaction C env token next answer fallback).answer = answer ∨
          ∃ e, (finishTransaction C env token next answer fallback).answer = fallback e)) := by
  unfold finishTransaction
  split
  · exact .inl ⟨rfl, _, rfl⟩
  · have hcases := replaceSnapshot_cases (C := C) env.commit next
    generalize replaceSnapshot C env.commit next = p at hcases ⊢
    obtain ⟨_, result⟩ := p
    rcases hcases with ⟨hstored, e, hresult⟩ | ⟨hvalid, hstored⟩
    · subst hstored hresult
      exact .inl ⟨rfl, e, rfl⟩
    · subst hstored
      cases result with
      | ok u => exact .inr ⟨hvalid, rfl, .inl rfl⟩
      | error e => exact .inr ⟨hvalid, rfl, .inr ⟨e, rfl⟩⟩

theorem finishTransaction_token (token : Option OwnerToken) (next : Snapshot) (answer : α) (fallback : String → α) :
    (finishTransaction C env token next answer fallback).token = token := by
  unfold finishTransaction
  split
  · rfl
  · split <;> rfl

theorem toBool_ok {ε : Type} {x : Except ε Unit} (h : x.toBool = true) : x = .ok () := by
  cases x with
  | error e => cases h
  | ok u => rfl

/-- What an operation did when it stored a snapshot: it collected, then acted on its own key. -/
structure Commits (C : Codec) (env : Surroundings) (disk : Snapshot) (nowMs : Nat) (op : Operation) (next : Snapshot)
    (d : StoreDecision) (collected : Snapshot) (token : Option OwnerToken) : Prop where
  valid : ∃ tenantDigest, validateSnapshot C disk tenantDigest = .ok ()
  collects : collect env.sight op.request { disk with wallFloorMs := max nowMs disk.wallFloorMs }
    (max nowMs disk.wallFloorMs) = .ok collected
  acts : Acts env (max nowMs disk.wallFloorMs) collected op next d
  token : ∀ r, d = .reserved r → token = some r.lease

/-- **An operation that stores a snapshot did so by one action on its own key**, and its answer is that action's or the
unknown one; one that stores none answers the unknown one. -/
theorem run_cases (disk : Snapshot) (tenantDigest : String) (nowMs : Nat) (op : Operation) :
    ((op.run C env disk tenantDigest nowMs).stored = none ∧
        ∃ now, (op.run C env disk tenantDigest nowMs).answer = unknown op.request now) ∨
      ∃ next d collected, (op.run C env disk tenantDigest nowMs).stored = some next ∧
        Commits C env disk nowMs op next d collected (op.run C env disk tenantDigest nowMs).token ∧
        ((op.run C env disk tenantDigest nowMs).answer = d ∨
          ∃ now, (op.run C env disk tenantDigest nowMs).answer = unknown op.request now) := by
  unfold Operation.run transaction
  split
  · exact .inl ⟨rfl, _, rfl⟩
  · rename_i hbegins
    rw [not_or, Bool.not_eq_false, Bool.not_eq_false] at hbegins
    dsimp only
    split
    · exact .inl ⟨rfl, _, rfl⟩
    · rename_i collected hcollect
      split
      · exact .inl ⟨rfl, _, rfl⟩
      · split
        · exact .inl ⟨rfl, _, rfl⟩
        · rename_i next d hresult
          have haction : op.action C env collected (max nowMs disk.wallFloorMs) =
              ⟨(op.action C env collected (max nowMs disk.wallFloorMs)).token, .ok (next, d)⟩ := by
            rw [← hresult]
          obtain ⟨hacts, htoken⟩ := action_acts haction
          rcases @finishTransaction_cases C env _ (op.action C env collected (max nowMs disk.wallFloorMs)).token next d
              (fun _ => unknown op.request (max nowMs disk.wallFloorMs)) with
            ⟨hstored, e, hanswer⟩ | ⟨-, hstored, hanswer⟩
          · exact .inl ⟨hstored, _, hanswer⟩
          · refine .inr ⟨next, d, collected, hstored, ⟨⟨tenantDigest, toBool_ok hbegins.2⟩, hcollect, hacts, ?_⟩, ?_⟩
            · rw [finishTransaction_token]
              exact htoken
            · exact hanswer.imp id (fun ⟨e, he⟩ => ⟨_, he⟩)

/-! ## One key before and after -/

/-- One key's entry before and after a stored snapshot. -/
inductive Change (env : Surroundings) (now : Nat) (k : String) : Option Entry → Option Entry → Prop
  | same (e : Option Entry) : Change env now k e e
  | collect {e : Entry} (h : Collectable env now e) (hkey : (parseKey k).map Prod.snd = some e.createdMs) :
      Change env now k (some e) none
  | release {e : Entry} (hpending : e.state = .pending) : Change env now k (some e) none
  | register {before : Option Entry} {e' : Entry} (hbefore : ∀ e, before = some e → e.state = .pending)
      (hopen : ∀ c, (parseKey k).map Prod.snd = some c → now < saturatingAdd windowMs c) (hpending : e'.state = .pending) :
      Change env now k before (some e')
  | grant {e : Entry} {identity : AdmissionIdentity} (hpending : e.state = .pending) :
      Change env now k (some e) (some { e with identity := some identity, state := .admitted })
  | report {e : Entry} {state : StoreState} (hpending : e.state ≠ .pending) (hunknown : e.state ≠ .admissionUnknown)
      (hterminal : e.state.terminal = true → state = e.state)
      (hstate : state = e.state ∨ state = .running ∨ state.terminal = true ∨ state = .unknown) :
      Change env now k (some e) (some { e with state := state })

variable {tenantDigest : String}

theorem valid_entry {s : Snapshot} {k : String} {e : Entry} (h : validateSnapshot C s tenantDigest = .ok ())
    (he : s.entries[k]? = some e) : (parseKey k).map Prod.snd = some e.createdMs ∧ e.state ≠ .admissionUnknown ∧
      (e.identity.isSome = true → e.state ≠ .pending) := by
  simp only [validateSnapshot, bind_eq_ok] at h
  obtain ⟨_, -, hall⟩ := h
  have hentry := forM_ok hall (k, e) ((Table.mem_toList _ k e).2 he)
  unfold validateEntry at hentry
  split at hentry
  · cases hentry
  · rename_i created hparse
    simp only [refuseIf_eq_ok, not_or, not_not] at hentry
    obtain ⟨hcreated, -, -, -, -, -, -, -, -, hunknown, hpending, -⟩ := hentry
    refine ⟨by rw [hparse]; exact congrArg some hcreated, hunknown, fun hsome hp => ?_⟩
    rw [hp] at hpending
    cases hid : e.identity with
    | none =>
      rw [hid] at hsome
      cases hsome
    | some _ =>
      rw [hid] at hpending
      simp at hpending

theorem Acts.floor {env : Surroundings} {now : Nat} {s s' : Snapshot} {d : StoreDecision}
    (h : Acts env now s op s' d) : s'.wallFloorMs = s.wallFloorMs := by
  cases h <;> rfl

section Commits

variable {env : Surroundings} {disk next collected : Snapshot} {nowMs : Nat} {op : Operation} {d : StoreDecision}
  {token : Option OwnerToken}

theorem Commits.floor (h : Commits C env disk nowMs op next d collected token) :
    next.wallFloorMs = max nowMs disk.wallFloorMs := by
  rw [h.acts.floor, (collect_ok h.collects).1]

section

variable (h : Commits C env disk nowMs op next d collected token)
include h

theorem Commits.old {k : String} {e : Entry} (he : collected.entries[k]? = some e) : disk.entries[k]? = some e := by
  rcases (collect_ok h.collects).2 k with hsame | ⟨-, hnone, -⟩
  · rw [← hsame, he]
  · rw [he] at hnone
    cases hnone

theorem Commits.own : collected.entries[op.request.requestKey]? = disk.entries[op.request.requestKey]? := by
  rcases (collect_ok h.collects).2 op.request.requestKey with hsame | ⟨hne, -⟩
  · exact hsame
  · cases hne rfl

theorem Commits.collectedChange (k : String) :
    Change env next.wallFloorMs k disk.entries[k]? collected.entries[k]? := by
  obtain ⟨_, hvalid⟩ := h.valid
  rcases (collect_ok h.collects).2 k with hsame | ⟨-, hnone, e, he, hcollect⟩
  · rw [hsame]
    exact .same _
  · rw [he, hnone]
    exact .collect (h.floor ▸ hcollect) (valid_entry hvalid he).1

end

theorem Acts.other {now : Nat} {s s' : Snapshot} (h : Acts env now s op s' d) {k : String} (hk : k ≠ op.request.requestKey) :
    s'.entries[k]? = s.entries[k]? := by
  cases h with
  | keep => rfl
  | register => exact (Table.get_insert _ _ _ _).trans (if_neg (Ne.symm hk))
  | grant => exact (Table.get_insert _ _ _ _).trans (if_neg (Ne.symm hk))
  | report => exact (Table.get_insert _ _ _ _).trans (if_neg (Ne.symm hk))
  | release =>
    rw [Std.ExtTreeMap.getElem?_erase, if_neg]
    simp only [Std.LawfulEqCmp.compare_eq_iff_eq]
    exact Ne.symm hk

theorem Commits.change (h : Commits C env disk nowMs op next d collected token) (k : String) :
    Change env next.wallFloorMs k disk.entries[k]? next.entries[k]? := by
  obtain ⟨_, hvalid⟩ := h.valid
  by_cases hk : k = op.request.requestKey
  · subst hk
    rw [← h.own]
    have hold : ∀ {e : Entry}, collected.entries[op.request.requestKey]? = some e →
        disk.entries[op.request.requestKey]? = some e := fun he => h.old he
    have hfloor := h.floor
    cases h.acts with
    | keep => exact .same _
    | register hown hopen =>
      simp only [Operation.request] at hown ⊢
      rw [Table.get_insert, if_pos rfl]
      refine .register (fun e he => (hown e he).1) (fun c hc => ?_) rfl
      cases hc.symm.trans (PreparedRequest.parsed _)
      rw [← hfloor] at hopen
      exact hopen
    | grant he hpending =>
      simp only [Operation.request] at he ⊢
      rw [Table.get_insert, if_pos rfl, he]
      exact .grant hpending
    | report he hidentity hterminal hstate =>
      rw [Table.get_insert, if_pos rfl, he]
      obtain ⟨-, hunknown, hpending⟩ := valid_entry hvalid (hold he)
      exact .report (hpending hidentity) hunknown hterminal hstate
    | release he hpending =>
      simp only [Operation.request] at he ⊢
      rw [Std.ExtTreeMap.getElem?_erase_self, he]
      exact .release hpending
  · rw [h.acts.other hk]
    exact h.collectedChange k

end Commits

/-! ## Owner tokens -/

variable {t : OwnerToken}

theorem reserveOwner_token (h : (reserveOwner free nonce storing).1 = some t) :
    free t.slot = true ∧ nonce = some t.nonce := by
  unfold reserveOwner at h
  split at h
  · cases h
  · cases h
  · rename_i slot nonce hslot
    have hfree : free slot = true := List.find?_some hslot
    cases storing with
    | failed => cases h
    | done =>
      cases h
      exact ⟨hfree, rfl⟩
    | lost =>
      cases h
      exact ⟨hfree, rfl⟩

theorem action_token {env : Surroundings} {s : Snapshot} {now : Nat}
    (h : (op.action C env s now).token = some t) : env.free t.slot = true ∧ env.ownerNonce = some t.nonce := by
  cases op with
  | reserve _ _ _ =>
    simp only [Operation.action, reserve] at h
    split at h
    · cases h
    · cases h
    · have hpair : ∀ {token : Option OwnerToken} {result : Except String OwnerToken},
          reserveOwner env.free env.ownerNonce env.token = (token, result) → token = some t →
          env.free t.slot = true ∧ env.ownerNonce = some t.nonce := by
        intro token result hpair htoken
        exact reserveOwner_token (by rw [hpair]; exact htoken)
      split at h <;> rename_i hlease
      · exact hpair hlease h
      · split at h
        · exact hpair hlease h
        · exact hpair hlease h
  | _ => cases h

theorem run_token {env : Surroundings} {disk : Snapshot} {nowMs : Nat}
    (h : (op.run C env disk tenantDigest nowMs).token = some t) :
    env.free t.slot = true ∧ env.ownerNonce = some t.nonce := by
  unfold Operation.run transaction at h
  split at h
  · cases h
  · dsimp only at h
    split at h
    · cases h
    · split at h
      · cases h
      · split at h
        · exact action_token h
        · rw [finishTransaction_token] at h
          exact action_token h

end Iteron.TurnStart
