import Iteron.EffectBroker
import Iteron.EffectReplay
/-!
# EffectRun — runs of the effect boundary across crashes

One process opens, executes, settles and drops tickets over one durable log; a crash loses the tickets and rebuilds the
ledger from the replayed log; recovery closes what replay reports pending.  `BoundaryLaw` is what the log and the
executor history satisfy after any run whose recoveries find no ticket live (`boundaryLaw_run`).
-/
namespace Iteron.Kernel

open EffectJournal

/-- One executor invocation, with the length of the log it saw. -/
structure Exec where
  key : EffectKey
  logLength : Nat

/-- A ticket a process holds, and whether its executor (an `FnOnce`) has run. -/
structure LiveTicket where
  ticket : EffectTicket
  executed : Bool

structure BoundaryState where
  log : List Event
  admissions : EffectAdmissions
  live : List LiveTicket
  /-- Every executor invocation so far, over all processes. -/
  execs : List Exec

inductive BoundaryAction where
  | openEffect (effect : BrokeredEffect) (appendOk : Bool)
  | nextOrdinal (turn : Nat) (cls : EffectClass)
  | execute (i : Nat)
  | settle (i : Nat) (settlement : Settlement) (elapsedMs : Nat) (appendOk : Bool)
  | drop (i : Nat)
  /-- Recovery, stopped by a failed append after `appended` markers. -/
  | recover (appended : Nat)
  | crash

def recoveryMarker (p : PendingEffect) : Event :=
  { turn := p.turn
    kind := .effectUnknown p.id p.tool
      "recovery found a durable intent without a durable tool result; automatic retry is forbidden"
      (p.attempt.map (fun i => ⟨i⟩)) }

namespace BoundaryState

def init : BoundaryState := { log := [], admissions := .empty, live := [], execs := [] }

def step (B : Boundary) (s : BoundaryState) : BoundaryAction → BoundaryState
  | .openEffect effect ok =>
    match openEffect B s.log s.admissions effect ok with
    | (log, A, .error _) => { s with log := log, admissions := A }
    | (log, A, .ok ticket) => { s with log := log, admissions := A, live := s.live ++ [⟨ticket, false⟩] }
  | .nextOrdinal turn cls => { s with admissions := (s.admissions.nextOrdinal turn cls).1 }
  | .execute i =>
    match s.live[i]? with
    | some ⟨ticket, false⟩ =>
      { s with live := s.live.set i ⟨ticket, true⟩, execs := s.execs ++ [⟨ticket.key, s.log.length⟩] }
    | _ => s
  | .settle i settlement elapsedMs ok =>
    match s.live[i]? with
    | some l =>
      { s with log := (settleEffect s.log l.ticket settlement elapsedMs ok).1, live := s.live.eraseIdx i }
    | none => s
  | .drop i => { s with live := s.live.eraseIdx i }
  | .recover appended =>
    match replay s.log with
    | .ok J => { s with log := s.log ++ (J.pending.map recoveryMarker).take appended }
    | .error _ => s
  | .crash =>
    { s with
      live := []
      admissions := match replay s.log with
        | .ok J => .fromJournal J
        | .error _ => .empty }

def run (B : Boundary) (s : BoundaryState) (actions : List BoundaryAction) : BoundaryState :=
  actions.foldl (step B) s

def recoversIdle (B : Boundary) (s : BoundaryState) : List BoundaryAction → Bool
  | [] => true
  | .recover n :: rest => s.live.isEmpty && recoversIdle B (step B s (.recover n)) rest
  | a :: rest => recoversIdle B (step B s a) rest

end BoundaryState

/-- **At most once, across crashes**: the log replays, each invocation follows its own intent, no key is executed,
opened or closed twice, and the journal's pending effects are the intents without a terminal. -/
structure BoundaryLaw (s : BoundaryState) : Prop where
  replays : ∃ J, replay s.log = .ok J
  intent_first : ∀ x ∈ s.execs, x.key ∈ intentKeys (s.log.take x.logLength)
  executed_once : (s.execs.map Exec.key).Nodup
  opened_once : (intentKeys s.log).Nodup
  closed_once : (terminalKeys s.log).Nodup
  pending_exact : ∀ J, replay s.log = .ok J → ∀ p, p ∈ J.pending ↔ p ∈ opened s.log ∧ p.key ∉ terminalKeys s.log

/-! ## The ledger covers the log -/

/-- A ledger that can only admit keys outside `keys`: no key is of a later turn, and the current turn's are held. -/
def Covers (A : EffectAdmissions) (keys : List EffectKey) : Prop :=
  ∀ k ∈ keys, ∃ current, A.turn = some current ∧ k.1 ≤ current ∧ (k.1 = current → k.2 ∈ A.ids)

variable {A : EffectAdmissions} {keys : List EffectKey}

theorem covers_enterTurn (h : Covers A keys) (turn : Nat) : Covers (A.enterTurn turn) keys := by
  intro k hk
  obtain ⟨current, ht, hle, hid⟩ := h k hk
  unfold EffectAdmissions.enterTurn
  rw [ht]
  by_cases hlt : current < turn
  · simp only [Option.all_some, hlt, decide_true, if_true]
    exact ⟨turn, rfl, by omega, by omega⟩
  · simp only [Option.all_some, hlt, decide_false, Bool.false_eq_true, if_false]
    exact ⟨current, ht, hle, hid⟩

theorem enterTurn_turn (A : EffectAdmissions) (turn : Nat) (h : ∀ current, A.turn = some current → current ≤ turn) :
    (A.enterTurn turn).turn = some turn := by
  unfold EffectAdmissions.enterTurn
  cases ht : A.turn with
  | none => simp
  | some current =>
    have := h current ht
    by_cases hlt : current < turn
    · simp [hlt]
    · have : current = turn := by omega
      subst this
      simp [ht]

variable {A' : EffectAdmissions}

/-- **Everything `admitId` can do**: whatever it answers it covers what it covered, and an accepted key was not covered
before and is now. -/
theorem admitId_spec {ceiling : Nat} {turn : Nat} {id : EffectId} {r : Except EffectAdmissionError Unit}
    (h : Covers A keys) (ha : A.admitId ceiling turn id = (A', r)) :
    Covers A' keys ∧ (r = .ok () → (turn, id) ∉ keys ∧ Covers A' (keys ++ [(turn, id)])) := by
  have hclaim : (∀ current, A.turn = some current → current ≤ turn) →
      EffectAdmissions.admitId.claim ceiling turn id A = (A', r) →
      Covers A' keys ∧ (r = .ok () → (turn, id) ∉ keys ∧ Covers A' (keys ++ [(turn, id)])) := by
    intro hle hc
    have hturn := enterTurn_turn A turn hle
    have hcov := covers_enterTurn h turn
    simp only [EffectAdmissions.admitId.claim] at hc
    split at hc
    · cases hc; exact ⟨hcov, fun hr => by cases hr⟩
    · split at hc
      · cases hc; exact ⟨hcov, fun hr => by cases hr⟩
      · rename_i hnew
        cases hc
        have hcov' : Covers { A.enterTurn turn with ids := (A.enterTurn turn).ids.insert id } keys := by
          intro k hk
          obtain ⟨current, ht, hle, hid⟩ := hcov k hk
          exact ⟨current, ht, hle, fun hc => by simp [hid hc]⟩
        refine ⟨hcov', fun _ => ⟨fun hmem => ?_, fun k hk => ?_⟩⟩
        · obtain ⟨current, ht, -, hid⟩ := hcov _ hmem
          rw [hturn] at ht
          exact hnew (by simpa using hid (Option.some.inj ht))
        · rcases List.mem_append.1 hk with hk | hk
          · exact hcov' k hk
          · obtain rfl := List.mem_singleton.1 hk
            exact ⟨turn, hturn, Nat.le_refl _, fun _ => by simp⟩
  unfold EffectAdmissions.admitId at ha
  cases ht : A.turn with
  | none => rw [ht] at ha; exact hclaim (fun _ hc => by rw [ht] at hc; cases hc) ha
  | some current =>
    rw [ht] at ha
    simp only at ha
    split at ha
    · cases ha; exact ⟨h, fun hr => by cases hr⟩
    · refine hclaim (fun c hc => ?_) ha
      rw [ht] at hc
      cases hc
      omega

variable {log : List Event} {J : EffectJournal}

/-- **A ledger rebuilt from the journal covers every intent of the log.** -/
theorem covers_fromJournal (h : Tracks log J) : Covers (.fromJournal J) (intentKeys log) := by
  have hadm : ∀ k ∈ intentKeys log, k ∈ J.admitted := by
    intro k hk
    rw [intentKeys_eq, List.mem_map] at hk
    obtain ⟨p, hp, rfl⟩ := hk
    obtain ⟨entry, hk, heq⟩ := h.of_opened p hp
    rw [← heq]
    exact List.mem_map.2 ⟨entry, (Table.mem_vals _ _).2 ⟨_, hk⟩, rfl⟩
  intro k hk
  have hka := hadm k hk
  unfold EffectAdmissions.fromJournal
  cases hm : (J.admitted.map Prod.fst).max? with
  | none =>
    rw [List.max?_eq_none_iff, List.map_eq_nil_iff] at hm
    rw [hm] at hka
    cases hka
  | some highest =>
    have hle := (List.max?_le_iff hm).1 (Nat.le_refl highest) k.1 (List.mem_map_of_mem hka)
    refine ⟨highest, rfl, hle, fun heq => ?_⟩
    simp only [Std.ExtTreeSet.mem_ofList, List.contains_iff_mem]
    exact List.mem_map.2 ⟨k, List.mem_filter.2 ⟨hka, by simpa using heq⟩, rfl⟩

/-! ## What each operation does to the log -/

variable {B : Boundary}

/-- **Everything `openEffect` can do**: leave the log alone, or append the intent of a key just admitted. -/
theorem openEffect_cases {log' : List Event} {effect : BrokeredEffect} {ok : Bool} {r : Except BrokerError EffectTicket}
    (h : openEffect B log A effect ok = (log', A', r)) :
    (log' = log ∧ (∃ e, r = .error e) ∧ ∃ a, A.admitId B.maxEffectsPerTurn effect.turn effect.effectId = (A', a)) ∨
    (∃ ticket, r = .ok ticket ∧ ticket.key = effect.key ∧ log' = log ++ [effect.intent] ∧
      A.admitId B.maxEffectsPerTurn effect.turn effect.effectId = (A', .ok ())) := by
  unfold openEffect at h
  split at h
  · rename_i A1 e ha
    cases h
    exact .inl ⟨rfl, ⟨_, rfl⟩, _, ha⟩
  · rename_i A1 ha
    split at h
    · cases h
      exact .inl ⟨rfl, ⟨_, rfl⟩, _, ha⟩
    · cases ok with
      | true =>
        cases h
        exact .inr ⟨_, rfl, rfl, rfl, ha⟩
      | false =>
        cases h
        exact .inl ⟨rfl, ⟨_, rfl⟩, _, ha⟩

theorem eq_of_guard {α β γ ε : Type} [DecidableEq α] [DecidableEq β] {a a' : α} {b b' : β} {e : ε} {x y : γ}
    (h : (if a ≠ a' ∨ b ≠ b' then Except.error e else Except.ok x) = .ok y) : a = a' := by
  split at h
  · cases h
  · rename_i hg
    exact not_not.1 (fun hne => hg (.inl hne))

theorem validateTerminal_ok {ticket : EffectTicket} {terminal : EventKind}
    (h : validateTerminalForTicket terminal ticket = .ok ()) :
    let e : Event := { turn := ticket.turn, kind := terminal }
    e.explicit ∧ e.opens = none ∧ e.terminalKey = some ticket.key := by
  unfold validateTerminalForTicket at h
  cases hacc : terminalAccounting terminal ticket with
  | error reason => rw [hacc] at h; cases h
  | ok _ =>
    cases terminal with
    | effectIntent => cases hacc
    | other => cases hacc
    | toolDone _ _ tool =>
      obtain rfl := eq_of_guard hacc
      exact ⟨rfl, rfl, rfl⟩
    | effectUnknown id tool reason attempt =>
      obtain rfl := eq_of_guard hacc
      exact ⟨trivial, rfl, rfl⟩
    | effectDone id tool durationMs attempt =>
      obtain rfl := eq_of_guard hacc
      exact ⟨trivial, rfl, rfl⟩
    | effectFailed id tool reason durationMs attempt =>
      obtain rfl := eq_of_guard hacc
      exact ⟨trivial, rfl, rfl⟩

/-- **Everything `settleEffect` can do**: leave the log alone, or append one terminal of the ticket's key. -/
theorem settleEffect_cases (log : List Event) (ticket : EffectTicket) (settlement : Settlement) (elapsedMs : Nat)
    (ok : Bool) : (settleEffect log ticket settlement elapsedMs ok).1 = log ∨
    ∃ e : Event, (settleEffect log ticket settlement elapsedMs ok).1 = log ++ [e] ∧ e.explicit ∧ e.opens = none ∧
      e.terminalKey = some ticket.key := by
  unfold settleEffect
  split
  · exact .inl rfl
  · rename_i hv
    cases ok with
    | true => exact .inr ⟨_, rfl, validateTerminal_ok hv⟩
    | false => exact .inl rfl

/-! ## The invariant -/

def Replayed (log : List Event) : Prop := ∃ J, replay log = .ok J ∧ Tracks log J

variable {e : Event}

theorem Replayed.of_apply (hr : replay log = .ok J)
    (ht : Tracks log J) (hx : e.explicit) (he : ∃ J', J.apply e = .ok J') : Replayed (log ++ [e]) := by
  obtain ⟨J', he⟩ := he
  refine ⟨J', ?_, ht.concat hx he⟩
  rw [replay_concat, hr]
  exact he

theorem Replayed.intent (h : Replayed log) (effect : BrokeredEffect)
    (hfresh : effect.key ∉ intentKeys log) : Replayed (log ++ [effect.intent]) := by
  obtain ⟨J, hr, ht⟩ := h
  exact .of_apply hr ht trivial (apply_intent_ok rfl ((ht.not_mem_intentKeys _).1 hfresh))

variable {k : EffectKey}

theorem Replayed.terminal (h : Replayed log) (hx : e.explicit)
    (he : e.terminalKey = some k) (ho : k ∈ intentKeys log) (hc : k ∉ terminalKeys log) : Replayed (log ++ [e]) := by
  obtain ⟨J, hr, ht⟩ := h
  obtain ⟨_, hk, hp⟩ := ht.exists_pending ho hc
  exact .of_apply hr ht hx (apply_terminal_ok he hk hp)

theorem intentKeys_concat_of_none (h : e.opens = none) : intentKeys (log ++ [e]) = intentKeys log := by
  simp [intentKeys, Event.intentKey_eq, h]

theorem intentKeys_concat_intent (log : List Event) (effect : BrokeredEffect) :
    intentKeys (log ++ [effect.intent]) = intentKeys log ++ [effect.key] := by
  rw [intentKeys_append]; rfl

theorem terminalKeys_concat_intent (log : List Event) (effect : BrokeredEffect) :
    terminalKeys (log ++ [effect.intent]) = terminalKeys log := by
  rw [terminalKeys_append]; simp [terminalKeys, Event.terminalKey, BrokeredEffect.intent]

theorem terminalKeys_concat_of_some (h : e.terminalKey = some k) :
    terminalKeys (log ++ [e]) = terminalKeys log ++ [k] := by
  rw [terminalKeys_append]; simp [terminalKeys, h]

theorem pending_keys_nodup (h : Tracks log J) : (J.pending.map PendingEffect.key).Nodup := by
  have hkeys : J.pending.map PendingEffect.key =
      (J.entries.toList.filter (fun q => q.2.state == .pending)).map Prod.fst := by
    unfold EffectJournal.pending Table.vals
    rw [List.filter_map, List.map_map, List.map_map]
    refine List.map_congr_left (fun q hq => ?_)
    have hmem := (List.mem_filter.1 hq).1
    rw [Std.ExtTreeMap.mem_toList_iff_getElem?_eq_some] at hmem
    exact (h.of_entry q.1 q.2 hmem).2
  rw [hkeys]
  refine List.Pairwise.map _ (R := fun a b => ¬ effectKeyCmp a.1 b.1 = .eq) (fun a b hab heq => hab ?_)
    (List.Pairwise.filter _ Std.ExtTreeMap.distinct_keys_toList)
  rw [heq]
  exact Std.ReflCmp.compare_self

theorem recoveryMarker_terminalKey (p : PendingEffect) : (recoveryMarker p).terminalKey = some p.key := rfl

theorem Replayed.markers : ∀ (ps : List PendingEffect) (log : List Event), Replayed log →
    (ps.map PendingEffect.key).Nodup → (∀ p ∈ ps, p.key ∈ intentKeys log ∧ p.key ∉ terminalKeys log) →
    Replayed (log ++ ps.map recoveryMarker) ∧ intentKeys (log ++ ps.map recoveryMarker) = intentKeys log
  | [], log, h, _, _ => by simpa using h
  | p :: ps, log, h, hnd, ho => by
    rw [List.map_cons, List.nodup_cons] at hnd
    have hint : intentKeys (log ++ [recoveryMarker p]) = intentKeys log := intentKeys_concat_of_none rfl
    have hp := ho p (.head _)
    have h' : Replayed (log ++ [recoveryMarker p]) :=
      h.terminal trivial (recoveryMarker_terminalKey p) hp.1 hp.2
    have hstep := Replayed.markers ps (log ++ [recoveryMarker p]) h' hnd.2 (fun q hq => by
      obtain ⟨h1, h2⟩ := ho q (.tail _ hq)
      rw [hint, terminalKeys_concat_of_some (recoveryMarker_terminalKey p), List.mem_append, List.mem_singleton]
      refine ⟨h1, fun hor => hor.elim h2 (fun heq => hnd.1 ?_)⟩
      rw [← heq]
      exact List.mem_map_of_mem hq)
    rw [List.append_assoc] at hstep
    exact ⟨hstep.1, hstep.2.trans hint⟩

/-- **What every reached boundary state satisfies**: the ledger covers the log, and a live ticket's key is open and,
until its executor runs, never executed. -/
structure BoundaryInv (s : BoundaryState) : Prop where
  replayed : Replayed s.log
  covers : Covers s.admissions (intentKeys s.log)
  live_nodup : (s.live.map (fun l => l.ticket.key)).Nodup
  live_open : ∀ l ∈ s.live, l.ticket.key ∈ intentKeys s.log ∧ l.ticket.key ∉ terminalKeys s.log
  live_fresh : ∀ l ∈ s.live, l.executed = false → l.ticket.key ∉ s.execs.map Exec.key
  intent_first : ∀ x ∈ s.execs, x.key ∈ intentKeys (s.log.take x.logLength)
  executed_once : (s.execs.map Exec.key).Nodup

theorem intent_first_append {more : List Event} {execs : List Exec}
    (h : ∀ x ∈ execs, x.key ∈ intentKeys (log.take x.logLength)) :
    ∀ x ∈ execs, x.key ∈ intentKeys ((log ++ more).take x.logLength) := by
  intro x hx
  rw [List.take_append, intentKeys_append]
  exact List.mem_append_left _ (h x hx)

variable {s : BoundaryState}

theorem BoundaryInv.exec_opened (h : BoundaryInv s) (hk : k ∈ s.execs.map Exec.key) : k ∈ intentKeys s.log := by
  obtain ⟨x, hx, rfl⟩ := List.mem_map.1 hk
  have hmem := h.intent_first x hx
  rw [← List.take_append_drop x.logLength s.log, intentKeys_append]
  exact List.mem_append_left _ hmem

theorem boundaryInv_init : BoundaryInv .init where
  replayed := ⟨_, replay_nil, .nil⟩
  covers k hk := by simp [BoundaryState.init, intentKeys] at hk
  live_nodup := List.nodup_nil
  live_open l hl := by cases hl
  live_fresh l hl := by cases hl
  intent_first x hx := by cases hx
  executed_once := List.nodup_nil

theorem BoundaryInv.eraseIdx (h : BoundaryInv s) (i : Nat) : BoundaryInv { s with live := s.live.eraseIdx i } where
  replayed := h.replayed
  covers := h.covers
  live_nodup := h.live_nodup.sublist ((List.eraseIdx_sublist _ _).map _)
  live_open l hl := h.live_open l (List.mem_of_mem_eraseIdx hl)
  live_fresh l hl := h.live_fresh l (List.mem_of_mem_eraseIdx hl)
  intent_first := h.intent_first
  executed_once := h.executed_once

section

variable (h : BoundaryInv s)
include h

theorem boundaryInv_open (effect : BrokeredEffect) (ok : Bool) : BoundaryInv (s.step B (.openEffect effect ok)) := by
  simp only [BoundaryState.step]
  rcases ho : openEffect B s.log s.admissions effect ok with ⟨_, _, r⟩
  rcases openEffect_cases ho with ⟨rfl, ⟨e, rfl⟩, a, ha⟩ | ⟨_, rfl, hkey, rfl, ha⟩
  · exact { h with covers := (admitId_spec h.covers ha).1 }
  · obtain ⟨-, hok⟩ := admitId_spec h.covers ha
    obtain ⟨hfresh, hcov⟩ := hok rfl
    have hopen : ∀ l ∈ s.live, l.ticket.key ≠ effect.key := by
      intro l hl heq
      have hmem := (h.live_open l hl).1
      rw [heq] at hmem
      exact hfresh hmem
    refine ⟨h.replayed.intent effect hfresh, ?_, ?_, fun l hl => ?_, fun l hl hx => ?_, ?_, h.executed_once⟩
    · rw [intentKeys_concat_intent]; exact hcov
    · rw [List.map_append, List.nodup_append]
      refine ⟨h.live_nodup, by simp, fun a ha' b hb => ?_⟩
      obtain ⟨l, hl, rfl⟩ := List.mem_map.1 ha'
      obtain rfl := List.mem_singleton.1 hb
      exact fun heq => hopen l hl (heq.trans hkey)
    · rw [intentKeys_concat_intent, terminalKeys_concat_intent]
      rcases List.mem_append.1 hl with hl | hl
      · obtain ⟨h1, h2⟩ := h.live_open l hl
        exact ⟨List.mem_append_left _ h1, h2⟩
      · obtain rfl := List.mem_singleton.1 hl
        obtain ⟨J, -, ht⟩ := h.replayed
        rw [hkey]
        exact ⟨by simp, fun hmem => hfresh (ht.terminal_opened _ hmem)⟩
    · rcases List.mem_append.1 hl with hl | hl
      · exact h.live_fresh l hl hx
      · obtain rfl := List.mem_singleton.1 hl
        rw [hkey]
        exact fun hmem => hfresh (h.exec_opened hmem)
    · exact intent_first_append h.intent_first

variable {i : Nat}

theorem boundaryInv_execute {ticket : EffectTicket} (hi : s.live[i]? = some ⟨ticket, false⟩) : BoundaryInv { s with
      live := s.live.set i ⟨ticket, true⟩, execs := s.execs ++ [⟨ticket.key, s.log.length⟩] } := by
  have hmem : (⟨ticket, false⟩ : LiveTicket) ∈ s.live := List.mem_of_getElem? hi
  have hkeys : (s.live.set i ⟨ticket, true⟩).map (fun l => l.ticket.key) = s.live.map (fun l => l.ticket.key) := by
    refine List.ext_getElem? (fun j => ?_)
    rw [List.getElem?_map, List.getElem?_map, List.getElem?_set]
    by_cases hij : i = j
    · subst hij
      rw [if_pos rfl, if_pos (List.getElem?_eq_some_iff.1 hi).1, hi]
      rfl
    · rw [if_neg hij]
  have hold : ∀ l ∈ s.live.set i ⟨ticket, true⟩, l ∈ s.live ∨ l = ⟨ticket, true⟩ :=
    fun l hl => List.mem_or_eq_of_mem_set hl
  refine ⟨h.replayed, h.covers, by rw [hkeys]; exact h.live_nodup, fun l hl => ?_, fun l hl hx => ?_, fun x hx => ?_, ?_⟩
  · rcases hold l hl with hl | rfl
    · exact h.live_open l hl
    · exact h.live_open ⟨ticket, false⟩ hmem
  · rcases hold l hl with hl' | rfl
    · rw [List.map_append, List.mem_append]
      rintro (hmem' | hmem')
      · exact h.live_fresh l hl' hx hmem'
      · -- another live ticket cannot carry the executed key
        have hkey : l.ticket.key = ticket.key := by simpa using hmem'
        have hset := List.mem_set (List.getElem?_eq_some_iff.1 hi).1 (⟨ticket, true⟩ : LiveTicket)
        have heq := List.inj_on_of_nodup_map (hkeys ▸ h.live_nodup) hl hset hkey
        rw [heq] at hx
        cases hx
    · cases hx
  · rcases List.mem_append.1 hx with hx | hx
    · exact h.intent_first x hx
    · obtain rfl := List.mem_singleton.1 hx
      rw [List.take_length]
      exact (h.live_open _ hmem).1
  · rw [List.map_append, List.nodup_append]
    refine ⟨h.executed_once, by simp, fun a ha b hb hab => ?_⟩
    obtain rfl := List.mem_singleton.1 hb
    subst hab
    exact h.live_fresh _ hmem rfl ha

theorem boundaryInv_settle {l : LiveTicket} (hi : s.live[i]? = some l) (settlement : Settlement) (elapsedMs : Nat)
    (ok : Bool) : BoundaryInv { s with
      log := (settleEffect s.log l.ticket settlement elapsedMs ok).1, live := s.live.eraseIdx i } := by
  rcases settleEffect_cases s.log l.ticket settlement elapsedMs ok with heq | ⟨e, heq, hx, ho, ht⟩
  · rw [heq]; exact h.eraseIdx i
  · rw [heq]
    have hopen := h.live_open l (List.mem_of_getElem? hi)
    have h' := h.eraseIdx i
    -- the settled ticket was the only live one of its key
    have hne : ∀ m ∈ s.live.eraseIdx i, m.ticket.key ≠ l.ticket.key := by
      intro m hm hkey
      obtain ⟨j, hji, hj⟩ := List.mem_eraseIdx_iff_getElem?.1 hm
      obtain rfl := List.inj_on_of_nodup_map h.live_nodup (List.mem_of_getElem? hj) (List.mem_of_getElem? hi) hkey
      exact hji ((List.getElem?_inj (List.getElem?_eq_some_iff.1 hj).1 (h.live_nodup.of_map _)).1 (hj.trans hi.symm))
    refine ⟨h.replayed.terminal hx ht hopen.1 hopen.2, ?_, h'.live_nodup, fun m hm => ?_, h'.live_fresh, ?_,
      h.executed_once⟩
    · rw [intentKeys_concat_of_none ho]; exact h.covers
    · rw [intentKeys_concat_of_none ho, terminalKeys_concat_of_some ht, List.mem_append, List.mem_singleton]
      obtain ⟨h1, h2⟩ := h'.live_open m hm
      exact ⟨h1, fun hor => hor.elim h2 (hne m hm)⟩
    · exact intent_first_append h.intent_first

theorem boundaryInv_recover (n : Nat) (hidle : s.live = []) : BoundaryInv (s.step B (.recover n)) := by
  obtain ⟨J, hr, ht⟩ := h.replayed
  simp only [BoundaryState.step, hr]
  rw [← List.map_take]
  have hmarks := Replayed.markers (J.pending.take n) s.log h.replayed
    ((pending_keys_nodup ht).sublist ((List.take_sublist _ _).map _)) (fun p hp => by
      obtain ⟨h1, h2⟩ := (ht.mem_pending p).1 (List.mem_of_mem_take hp)
      rw [intentKeys_eq]
      exact ⟨List.mem_map_of_mem h1, h2⟩)
  refine ⟨hmarks.1, by rw [hmarks.2]; exact h.covers, h.live_nodup, fun l hl => ?_, h.live_fresh,
    intent_first_append h.intent_first, h.executed_once⟩
  rw [hidle] at hl
  cases hl

/-- **One action keeps the invariant**, a recovery when no ticket is live. -/
theorem boundaryInv_step (a : BoundaryAction)
    (hidle : ∀ n, a = .recover n → s.live = []) : BoundaryInv (s.step B a) := by
  cases a with
  | openEffect effect ok => exact boundaryInv_open h effect ok
  | nextOrdinal turn _ => exact { h with covers := covers_enterTurn h.covers turn }
  | execute i =>
    simp only [BoundaryState.step]
    split
    · rename_i ticket hi
      exact boundaryInv_execute h hi
    · exact h
  | settle i settlement elapsedMs ok =>
    simp only [BoundaryState.step]
    split
    · rename_i l hi
      exact boundaryInv_settle h hi settlement elapsedMs ok
    · exact h
  | drop i => exact h.eraseIdx i
  | recover n => exact boundaryInv_recover h n (hidle n rfl)
  | crash =>
    obtain ⟨J, hr, ht⟩ := h.replayed
    simp only [BoundaryState.step, hr]
    exact { h with
      covers := covers_fromJournal ht
      live_nodup := List.nodup_nil
      live_open := fun l hl => by cases hl
      live_fresh := fun l hl => by cases hl }

end

theorem boundaryInv_run {B : Boundary} : ∀ (actions : List BoundaryAction) {s : BoundaryState}, BoundaryInv s →
    s.recoversIdle B actions = true → BoundaryInv (s.run B actions)
  | [], _, h, _ => h
  | a :: rest, s, h, hq => by
    have hstep : (∀ n, a = .recover n → s.live = []) ∧ (s.step B a).recoversIdle B rest = true := by
      cases a with
      | recover n =>
        simp only [BoundaryState.recoversIdle, Bool.and_eq_true, List.isEmpty_iff] at hq
        exact ⟨fun _ _ => hq.1, hq.2⟩
      | _ => exact ⟨fun n hn => (by cases hn), hq⟩
    exact boundaryInv_run rest (boundaryInv_step h a hstep.1) hstep.2

theorem BoundaryInv.law (h : BoundaryInv s) : BoundaryLaw s := by
  obtain ⟨J, hr, ht⟩ := h.replayed
  refine ⟨⟨J, hr⟩, h.intent_first, h.executed_once, ht.intents_nodup, ht.terminals_nodup, fun J' hr' p => ?_⟩
  rw [hr] at hr'
  cases hr'
  exact ht.mem_pending p

/-- **The boundary is at most once across crashes**, in every run whose recoveries find no ticket live. -/
theorem boundaryLaw_run (B : Boundary) (actions : List BoundaryAction)
    (hidle : BoundaryState.init.recoversIdle B actions = true) : BoundaryLaw (BoundaryState.init.run B actions) :=
  (boundaryInv_run actions boundaryInv_init hidle).law

def sampleEdit : BrokeredEffect :=
  { turn := 1, effectId := "fx1-00000001-0000", toolUseId := "toolu_1", kind := "edit",
    capability := .reversibleLocal, auditArguments := .object [("path", .string "f")], workspace := "/repo",
    attempt := none }

def sampleBoundary : Boundary := { jsonBytes := fun _ => 12 }

/-- Killed between intent and terminal: the resumed process refuses the same effect before and after recovery. -/
def sampleKilledDispatch : List BoundaryAction :=
  [.openEffect sampleEdit true, .execute 0, .crash, .openEffect sampleEdit true, .recover 1,
    .openEffect sampleEdit true, .execute 0]

theorem boundaryLaw_run_killed_dispatch : BoundaryState.init.recoversIdle sampleBoundary sampleKilledDispatch = true ∧
    (BoundaryState.init.run sampleBoundary sampleKilledDispatch).execs.length = 1 ∧
    BoundaryLaw (BoundaryState.init.run sampleBoundary sampleKilledDispatch) :=
  ⟨by decide, by decide, boundaryLaw_run sampleBoundary sampleKilledDispatch (by decide)⟩

/-- Recovery overtakes a live ticket, which then settles: two terminals of one effect. -/
def sampleOvertaken : List BoundaryAction :=
  [.openEffect sampleEdit true, .execute 0, .recover 1,
    .settle 0 (.definite (.effectDone "fx1-00000001-0000" "edit" none none)) 3 true]

/-- **A recovery that overtakes a live ticket breaks the law**: the log no longer replays. -/
theorem not_boundaryLaw_overtaken :
    ¬ ∀ (B : Boundary) (actions : List BoundaryAction), BoundaryLaw (BoundaryState.init.run B actions) := by
  intro h
  have hlaw := h sampleBoundary sampleOvertaken
  have hdup : ¬ (terminalKeys (BoundaryState.init.run sampleBoundary sampleOvertaken).log).Nodup := by decide
  exact hdup hlaw.closed_once

end Iteron.Kernel
