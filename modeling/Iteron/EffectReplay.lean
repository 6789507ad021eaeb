import Iteron.EffectJournal
/-!
# EffectReplay — what an accepted replay says about its log

A log whose tool completions all name their effect id is read by key alone.  On such a log an accepted replay holds
exactly the opened intents, keeps an entry pending exactly while its key has no terminal, and proves every key opened
at most once and closed at most once (`Tracks`, `replay_tracks`).
-/
namespace Iteron.Kernel

def PendingEffect.key (p : PendingEffect) : EffectKey := (p.turn, p.id)

/-- What an intent opens, as `pending` reports it. -/
def Event.opens (e : Event) : Option PendingEffect :=
  match e.kind with
  | .effectIntent id _ tool _ _ _ attempt => some { turn := e.turn, id := id, tool := tool, attempt := attempt }
  | _ => none

def opened (log : List Event) : List PendingEffect := log.filterMap Event.opens

/-- A tool completion that names its effect id; every other event is explicit. -/
def Event.explicit (e : Event) : Prop :=
  match e.kind with
  | .toolDone _ effectId _ => effectId.isSome = true
  | _ => True

def Entry.opened (entry : Entry) : PendingEffect :=
  { turn := entry.turn, id := entry.id, tool := entry.tool, attempt := entry.attempt }

theorem Event.intentKey_eq (e : Event) : e.intentKey = e.opens.map PendingEffect.key := by
  unfold Event.intentKey Event.opens
  cases e.kind <;> rfl

theorem intentKeys_eq (log : List Event) : intentKeys log = (opened log).map PendingEffect.key := by
  unfold intentKeys opened
  rw [List.map_filterMap]
  exact congrArg (fun f => log.filterMap f) (funext Event.intentKey_eq)

namespace EffectJournal

variable {k : EffectKey}

theorem close_ok {J J' : EffectJournal} {st : EntryState} {m c u : EffectJournalError} (h : J.close k st m c u = .ok J')
    : ∃ entry : Entry, J.entries[k]? = some entry ∧ entry.state = .pending ∧
      J' = ⟨J.entries.insert k { entry with state := st }⟩ := by
  unfold close at h
  split at h
  · cases h
  · rename_i entry hk
    split at h
    · rename_i hst
      exact ⟨entry, hk, hst, (Except.ok.inj h).symm⟩
    · cases h
    · cases h

variable {entry : Entry}

theorem close_of_pending {J : EffectJournal} (st : EntryState) (m c u : EffectJournalError)
    (hk : J.entries[k]? = some entry) (hp : entry.state = .pending) :
    J.close k st m c u = .ok ⟨J.entries.insert k { entry with state := st }⟩ := by
  unfold close
  rw [hk]
  simp only [hp]

variable {e : Event}

/-- **Everything an accepted explicit event can do**: open a fresh key, close a pending one, or nothing. -/
theorem apply_cases {J J' : EffectJournal} (hx : e.explicit) (h : J.apply e = .ok J') :
    (∃ (p : PendingEffect) (entry : Entry), e.opens = some p ∧ e.terminalKey = none ∧ J.entries[p.key]? = none ∧ entry.opened = p ∧
      entry.state = .pending ∧ J' = ⟨J.entries.insert p.key entry⟩) ∨
    (∃ (k : EffectKey) (entry : Entry) (st : EntryState), e.opens = none ∧ e.terminalKey = some k ∧ J.entries[k]? = some entry ∧ entry.state = .pending ∧
      st ≠ .pending ∧ J' = ⟨J.entries.insert k { entry with state := st }⟩) ∨
    (e.opens = none ∧ e.terminalKey = none ∧ J' = J) := by
  obtain ⟨turn, kind⟩ := e
  cases kind with
  | effectIntent id toolUseId tool _ _ _ attempt =>
    simp only [apply] at h
    split at h
    · cases h
    · rename_i hc
      have hk : J.entries[(turn, id)]? = none := by
        exact (Table.contains_eq_false _ _).1 (Bool.not_eq_true _ ▸ hc)
      exact .inl ⟨⟨turn, id, tool, attempt⟩,
        ⟨turn, id, tool, if toolUseId.isEmpty then some id else none, attempt, .pending⟩,
        rfl, rfl, hk, rfl, rfl, (Except.ok.inj h).symm⟩
  | toolDone _ effectId tool =>
    cases effectId with
    | none => exact absurd hx (by simp [Event.explicit])
    | some id =>
      obtain ⟨entry, hk, hp, hJ⟩ := close_ok h
      exact .inr (.inl ⟨_, entry, _, rfl, rfl, hk, hp, by decide, hJ⟩)
  | effectUnknown id tool reason attempt =>
    obtain ⟨entry, hk, hp, hJ⟩ := close_ok h
    exact .inr (.inl ⟨_, entry, _, rfl, rfl, hk, hp, by decide, hJ⟩)
  | effectDone id tool durationMs attempt =>
    obtain ⟨entry, hk, hp, hJ⟩ := close_ok h
    exact .inr (.inl ⟨_, entry, _, rfl, rfl, hk, hp, by decide, hJ⟩)
  | effectFailed id tool reason durationMs attempt =>
    obtain ⟨entry, hk, hp, hJ⟩ := close_ok h
    exact .inr (.inl ⟨_, entry, _, rfl, rfl, hk, hp, by decide, hJ⟩)
  | other _ => exact .inr (.inr ⟨rfl, rfl, (Except.ok.inj h).symm⟩)

theorem apply_intent_ok {J : EffectJournal} {p : PendingEffect} (he : e.opens = some p) (hk : J.entries[p.key]? = none)
    : ∃ J', J.apply e = .ok J' := by
  obtain ⟨turn, kind⟩ := e
  cases kind with
  | effectIntent id _ _ _ _ _ _ =>
    cases he
    have hc : J.entries.contains (turn, id) = false := (Table.contains_eq_false _ _).2 hk
    simp only [apply, hc, Bool.false_eq_true, if_false]
    exact ⟨_, rfl⟩
  | _ => cases he

theorem apply_terminal_ok {J : EffectJournal} (he : e.terminalKey = some k) (hk : J.entries[k]? = some entry)
    (hp : entry.state = .pending) : ∃ J', J.apply e = .ok J' := by
  obtain ⟨_, kind⟩ := e
  cases kind with
  | effectIntent => cases he
  | other => cases he
  | toolDone _ effectId _ =>
    cases effectId with
    | none => cases he
    | some _ => cases he; exact ⟨_, close_of_pending _ _ _ _ hk hp⟩
  | effectUnknown => cases he; exact ⟨_, close_of_pending _ _ _ _ hk hp⟩
  | effectDone => cases he; exact ⟨_, close_of_pending _ _ _ _ hk hp⟩
  | effectFailed => cases he; exact ⟨_, close_of_pending _ _ _ _ hk hp⟩

theorem replay_nil : replay [] = .ok empty := rfl

theorem replay_concat (log : List Event) (e : Event) :
    replay (log ++ [e]) = (replay log).bind (fun J => J.apply e) := by
  have hpol : (!replayDivergenceDetectionPolicy.verifyEffectTerminals ||
      !replayDivergenceDetectionPolicy.failClosed) = false := rfl
  unfold replay
  simp only [hpol, Bool.false_eq_true, if_false, List.foldlM_append, List.foldlM_cons, List.foldlM_nil, bind_pure]
  rfl

end EffectJournal

/-- **The journal a log's replay reaches**: its entries are the opened effects, pending exactly while no terminal
names them, and no key is opened or closed twice. -/
structure Tracks (log : List Event) (J : EffectJournal) : Prop where
  of_entry : ∀ (k : EffectKey) (entry : Entry), J.entries[k]? = some entry → entry.opened ∈ opened log ∧ entry.opened.key = k
  of_opened : ∀ p ∈ opened log, ∃ entry : Entry, J.entries[p.key]? = some entry ∧ entry.opened = p
  pending_iff : ∀ (k : EffectKey) (entry : Entry), J.entries[k]? = some entry → (entry.state = .pending ↔ k ∉ terminalKeys log)
  terminal_opened : ∀ k ∈ terminalKeys log, k ∈ intentKeys log
  intents_nodup : (intentKeys log).Nodup
  terminals_nodup : (terminalKeys log).Nodup

namespace Tracks

open EffectJournal

variable {log : List Event} {J : EffectJournal}

theorem mem_intentKeys (h : Tracks log J) (k : EffectKey) : k ∈ intentKeys log ↔ (J.entries[k]?).isSome = true := by
  rw [intentKeys_eq, List.mem_map]
  constructor
  · rintro ⟨p, hp, rfl⟩
    obtain ⟨entry, hk, -⟩ := h.of_opened p hp
    rw [hk]; rfl
  · intro hs
    obtain ⟨entry, hk⟩ := Option.isSome_iff_exists.1 hs
    obtain ⟨ho, hkey⟩ := h.of_entry k entry hk
    exact ⟨_, ho, hkey⟩

theorem not_mem_intentKeys (h : Tracks log J) (k : EffectKey) : k ∉ intentKeys log ↔ J.entries[k]? = none := by
  rw [h.mem_intentKeys]
  cases J.entries[k]? <;> simp

theorem exists_pending (h : Tracks log J) {k : EffectKey} (ho : k ∈ intentKeys log) (ht : k ∉ terminalKeys log) :
    ∃ entry : Entry, J.entries[k]? = some entry ∧ entry.state = .pending := by
  obtain ⟨entry, hk⟩ := Option.isSome_iff_exists.1 ((h.mem_intentKeys k).1 ho)
  exact ⟨entry, hk, (h.pending_iff k entry hk).2 ht⟩

theorem nil : Tracks [] EffectJournal.empty where
  of_entry k entry hk := by simp [EffectJournal.empty] at hk
  of_opened p hp := by simp [opened] at hp
  pending_iff k entry hk := by simp [EffectJournal.empty] at hk
  terminal_opened k hk := by simp [terminalKeys] at hk
  intents_nodup := by simp [intentKeys]
  terminals_nodup := by simp [terminalKeys]

theorem concat (h : Tracks log J) {J' : EffectJournal} {e : Event} (hx : e.explicit) (he : J.apply e = .ok J') :
    Tracks (log ++ [e]) J' := by
  rcases apply_cases hx he with ⟨p, entry, ho, ht, hk, hp, hst, rfl⟩ | ⟨k, entry, _, ho, ht, hk, hp, hst, rfl⟩ |
    ⟨ho, ht, rfl⟩
  · -- a fresh intent
    have hopen : opened (log ++ [e]) = opened log ++ [p] := by simp [opened, ho]
    have hterm : terminalKeys (log ++ [e]) = terminalKeys log := by simp [terminalKeys, ht]
    have hfresh : p.key ∉ intentKeys log := (h.not_mem_intentKeys p.key).2 hk
    have hint : intentKeys (log ++ [e]) = intentKeys log ++ [p.key] := by
      rw [intentKeys_eq, hopen, List.map_append, ← intentKeys_eq]; rfl
    refine ⟨fun k en hen => ?_, fun q hq => ?_, fun k en hen => ?_, fun k hkt => ?_, ?_, ?_⟩
    · rw [Table.get_insert] at hen
      split at hen
      · rename_i hpk
        cases hen
        rw [hopen, hp]
        exact ⟨by simp, hpk⟩
      · obtain ⟨h1, h2⟩ := h.of_entry k en hen
        rw [hopen]
        exact ⟨List.mem_append_left _ h1, h2⟩
    · rw [hopen] at hq
      rcases List.mem_append.1 hq with hq | hq
      · obtain ⟨en, hen, heq⟩ := h.of_opened q hq
        refine ⟨en, ?_, heq⟩
        rw [Table.get_insert, if_neg]
        · exact hen
        · rintro hpq
          rw [← hpq, hk] at hen
          cases hen
      · obtain rfl := List.mem_singleton.1 hq
        exact ⟨entry, by rw [Table.get_insert, if_pos rfl], hp⟩
    · rw [hterm]
      rw [Table.get_insert] at hen
      split at hen
      · rename_i hpk
        cases hen
        subst hpk
        exact ⟨fun _ hmem => hfresh (h.terminal_opened _ hmem), fun _ => hst⟩
      · exact h.pending_iff k en hen
    · rw [hterm] at hkt
      rw [hint]
      exact List.mem_append_left _ (h.terminal_opened k hkt)
    · rw [hint]
      exact List.nodup_append.2 ⟨h.intents_nodup, by simp, fun a ha b hb => by
        obtain rfl := List.mem_singleton.1 hb
        exact fun hab => hfresh (hab ▸ ha)⟩
    · rw [hterm]; exact h.terminals_nodup
  · -- the terminal of a pending intent
    have hopen : opened (log ++ [e]) = opened log := by simp [opened, ho]
    have hint : intentKeys (log ++ [e]) = intentKeys log := by rw [intentKeys_eq, hopen, ← intentKeys_eq]
    have hterm : terminalKeys (log ++ [e]) = terminalKeys log ++ [k] := by simp [terminalKeys, ht]
    have hnew : k ∉ terminalKeys log := (h.pending_iff k entry hk).1 hp
    refine ⟨fun a en hen => ?_, fun q hq => ?_, fun a en hen => ?_, fun a hat => ?_, ?_, ?_⟩
    · rw [hopen]
      rw [Table.get_insert] at hen
      split at hen
      · rename_i hka
        cases hen
        subst hka
        exact h.of_entry k entry hk
      · exact h.of_entry a en hen
    · rw [hopen] at hq
      obtain ⟨en, hen, heq⟩ := h.of_opened q hq
      rw [Table.get_insert]
      split
      · rename_i hka
        subst hka
        rw [hk] at hen
        cases hen
        exact ⟨_, rfl, heq⟩
      · exact ⟨en, hen, heq⟩
    · rw [hterm, List.mem_append, List.mem_singleton]
      rw [Table.get_insert] at hen
      split at hen <;> rename_i hka
      · cases hen
        exact ⟨fun hpend => absurd hpend hst, fun hne => absurd (.inr hka.symm) hne⟩
      · rw [h.pending_iff a en hen]
        exact ⟨fun hna hor => hor.elim hna (fun hak => hka hak.symm), fun hna hmem => hna (.inl hmem)⟩
    · rw [hint]
      rw [hterm] at hat
      rcases List.mem_append.1 hat with hat | hat
      · exact h.terminal_opened a hat
      · obtain rfl := List.mem_singleton.1 hat
        exact (h.mem_intentKeys a).2 (by rw [hk]; rfl)
    · rw [hint]; exact h.intents_nodup
    · rw [hterm]
      exact List.nodup_append.2 ⟨h.terminals_nodup, by simp, fun a ha b hb => by
        obtain rfl := List.mem_singleton.1 hb
        exact fun hab => hnew (hab ▸ ha)⟩
  · -- an event outside the effect vocabulary
    have hopen : opened (log ++ [e]) = opened log := by simp [opened, ho]
    have hint : intentKeys (log ++ [e]) = intentKeys log := by rw [intentKeys_eq, hopen, ← intentKeys_eq]
    have hterm : terminalKeys (log ++ [e]) = terminalKeys log := by simp [terminalKeys, ht]
    exact ⟨by rw [hopen]; exact h.of_entry, by rw [hopen]; exact h.of_opened, by rw [hterm]; exact h.pending_iff,
      by rw [hterm, hint]; exact h.terminal_opened, by rw [hint]; exact h.intents_nodup,
      by rw [hterm]; exact h.terminals_nodup⟩

/-- **`pending` is exactly the opened effects without a terminal.** -/
theorem mem_pending (h : Tracks log J) (p : PendingEffect) :
    p ∈ J.pending ↔ p ∈ opened log ∧ p.key ∉ terminalKeys log := by
  unfold EffectJournal.pending
  simp only [List.mem_map, List.mem_filter, beq_iff_eq, Table.mem_vals]
  constructor
  · rintro ⟨entry, ⟨⟨k, hk⟩, hp⟩, rfl⟩
    obtain ⟨ho, hkey⟩ := h.of_entry k entry hk
    exact ⟨ho, fun hmem => (h.pending_iff k entry hk).1 hp (hkey ▸ hmem)⟩
  · rintro ⟨ho, ht⟩
    obtain ⟨entry, hk, hp⟩ := h.of_opened p ho
    exact ⟨entry, ⟨⟨p.key, hk⟩, (h.pending_iff p.key entry hk).2 ht⟩, hp⟩

end Tracks
end Iteron.Kernel
