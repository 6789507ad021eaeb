import Iteron.EffectReplay
import Mathlib.Data.Set.Card
/-!
# EffectLogs — the effect logs a replay accepts

`marks` reads an event log key by key without the journal: an intent marks its own key, a terminal marks the key it
names, and a tool completion of the first experimental format marks the key of an earlier legacy intent.  `replay`
accepts a log exactly when every key's marks are an intent and then at most one terminal (`replay_accepts_iff`).
-/
namespace Iteron.Kernel

inductive Mark where
  | intent
  | toolDone
  | done
  | failed
  | unknown
  deriving DecidableEq

/-- The key of an intent written in the first experimental format, which had no correlation id of its own. -/
def Event.legacyKey (e : Event) : Option EffectKey :=
  match e.kind with
  | .effectIntent id toolUseId .. => if toolUseId.isEmpty then some (e.turn, id) else none
  | _ => none

/-- The first legacy intent of a turn whose id is the completed call's. -/
def legacyIntent (log : List Event) (turn : Nat) (toolUseId : String) : Option EffectKey :=
  (log.filterMap Event.legacyKey).find? (fun k => k.1 == turn && k.2 == toolUseId)

/-- The key an event speaks about, after the events of `log`. -/
def Event.mark (log : List Event) (e : Event) : Option (EffectKey × Mark) :=
  match e.kind with
  | .effectIntent id .. => some ((e.turn, id), .intent)
  | .toolDone _ (some id) _ => some ((e.turn, id), .toolDone)
  | .toolDone result none _ => (legacyIntent log e.turn result.toolUseId).map (fun k => (k, .toolDone))
  | .effectUnknown id .. => some ((e.turn, id), .unknown)
  | .effectDone id .. => some ((e.turn, id), .done)
  | .effectFailed id .. => some ((e.turn, id), .failed)
  | .other _ => none

/-- What one event adds to the marks of `key`. -/
def Event.marksFor (log : List Event) (e : Event) (key : EffectKey) : List Mark :=
  match e.mark log with
  | some (k, m) => if k = key then [m] else []
  | none => []

/-- The marks of `key` among `rest`, read after `log`. -/
def marksAfter (key : EffectKey) (log : List Event) : List Event → List Mark
  | [] => []
  | e :: rest => e.marksFor log key ++ marksAfter key (log ++ [e]) rest

def marks (log : List Event) (key : EffectKey) : List Mark := marksAfter key [] log

/-- No event, one intent, or one intent and one terminal. -/
def OnceClosed (ms : List Mark) : Prop := ms = [] ∨ ms = [.intent] ∨ ∃ m, m ≠ .intent ∧ ms = [.intent, m]

theorem marksAfter_append (key : EffectKey) : ∀ (log rest tail : List Event),
    marksAfter key log (rest ++ tail) = marksAfter key log rest ++ marksAfter key (log ++ rest) tail
  | log, [], tail => by simp [marksAfter]
  | log, e :: rest, tail => by
    rw [List.cons_append, marksAfter, marksAfter, marksAfter_append key _ rest tail]
    simp

theorem marks_concat (log : List Event) (e : Event) (key : EffectKey) :
    marks (log ++ [e]) key = marks log key ++ e.marksFor log key := by
  unfold marks
  rw [marksAfter_append]
  simp [marksAfter]

theorem OnceClosed.of_append {a b : List Mark} (h : OnceClosed (a ++ b)) : OnceClosed a := by
  rcases h with h | h | ⟨m, hm, h⟩
  · exact .inl (List.append_eq_nil_iff.1 h).1
  · rcases List.append_eq_singleton_iff.1 h with ⟨ha, -⟩ | ⟨ha, -⟩
    · exact .inl ha
    · exact .inr (.inl ha)
  · have hpre : a <+: [.intent, m] := ⟨b, h⟩
    rcases a with _ | ⟨x, _ | ⟨y, _ | ⟨z, t⟩⟩⟩
    · exact .inl rfl
    · have hx : x = .intent := by simpa using hpre
      exact .inr (.inl (by rw [hx]))
    · obtain ⟨rfl, rfl⟩ : x = .intent ∧ y = m := by simpa using hpre
      exact .inr (.inr ⟨_, hm, rfl⟩)
    · simp at hpre

def stateOf : List Mark → Option EntryState
  | [] => none
  | [_] => some .pending
  | _ :: .unknown :: _ => some .unknown
  | _ :: _ :: _ => some .completed

variable {ms : List Mark}

theorem stateOf_eq_none (h : OnceClosed ms) : stateOf ms = none ↔ ms = [] := by
  rcases h with rfl | rfl | ⟨m, _, rfl⟩
  · simp [stateOf]
  · simp [stateOf]
  · cases m <;> simp [stateOf]

theorem stateOf_eq_pending (h : OnceClosed ms) : stateOf ms = some .pending ↔ ms = [.intent] := by
  rcases h with rfl | rfl | ⟨m, _, rfl⟩
  · simp [stateOf]
  · simp [stateOf]
  · cases m <;> simp [stateOf]

theorem stateOf_eq_unknown (h : OnceClosed ms) : stateOf ms = some .unknown ↔ ms = [.intent, .unknown] := by
  rcases h with rfl | rfl | ⟨m, _, rfl⟩
  · simp [stateOf]
  · simp [stateOf]
  · cases m <;> simp [stateOf]

/-- **The journal a log's replay holds**, key by key. -/
structure Reads (log : List Event) (J : EffectJournal) : Prop where
  closed : ∀ key, OnceClosed (marks log key)
  state : ∀ key, (J.entries[key]?).map Entry.state = stateOf (marks log key)
  key : ∀ (key : EffectKey) (entry : Entry), J.entries[key]? = some entry → entry.opened.key = key
  opened : ∀ p, p ∈ opened log ↔ ∃ entry : Entry, J.entries[p.key]? = some entry ∧ entry.opened = p
  legacy : ∀ k : EffectKey, k ∈ log.filterMap Event.legacyKey ↔
    ∃ entry : Entry, J.entries[k]? = some entry ∧ entry.legacyToolUseId = some k.2
  legacyId : ∀ (k : EffectKey) (entry : Entry) (id : String),
    J.entries[k]? = some entry → entry.legacyToolUseId = some id → id = k.2

namespace Reads

open EffectJournal

variable {log : List Event} {J J' : EffectJournal} {e : Event}

theorem nil : Reads [] EffectJournal.empty where
  closed _ := .inl rfl
  state key := by simp [EffectJournal.empty, marks, marksAfter, stateOf]
  key k entry hk := by simp [EffectJournal.empty] at hk
  opened p := by simp [Kernel.opened, EffectJournal.empty]
  legacy k := by simp [EffectJournal.empty]
  legacyId k entry id hk := by simp [EffectJournal.empty] at hk

theorem find_legacy (keys : List EffectKey) (turn : Nat) (id : String) :
    keys.find? (fun k => k.1 == turn && k.2 == id) = if (turn, id) ∈ keys then some (turn, id) else none := by
  split <;> rename_i hmem
  · cases hfind : keys.find? (fun k => k.1 == turn && k.2 == id) with
    | none => simpa using List.find?_eq_none.1 hfind _ hmem
    | some k =>
      have hk := List.find?_some hfind
      simp only [Bool.and_eq_true, beq_iff_eq] at hk
      rw [← hk.1, ← hk.2]
  · refine List.find?_eq_none.2 (fun k hk heq => hmem ?_)
    simp only [Bool.and_eq_true, beq_iff_eq] at heq
    rw [← heq.1, ← heq.2]
    exact hk

theorem toolDoneKey_eq (h : Reads log J) (turn : Nat) (toolUseId : String) :
    J.toolDoneKey turn toolUseId none = legacyIntent log turn toolUseId := by
  have hpair : ∀ p : EffectKey × Entry, p ∈ J.entries.toList → p.2.turn = turn → p.2.legacyToolUseId = some toolUseId →
      p.1 = (turn, toolUseId) ∧ (turn, toolUseId) ∈ log.filterMap Event.legacyKey := by
    rintro ⟨k, entry⟩ hp hturn hlegacy
    have hget := (Table.mem_toList _ _ _).1 hp
    have hkey := h.key k entry hget
    have hid := h.legacyId k entry toolUseId hget hlegacy
    have hk : k = (turn, toolUseId) := Prod.ext (by rw [← hkey, ← hturn]; rfl) hid.symm
    refine ⟨hk, (h.legacy _).2 ⟨entry, hk ▸ hget, hlegacy⟩⟩
  show J.entries.toList.findSome? (fun p =>
    if p.2.turn = turn ∧ p.2.legacyToolUseId = some toolUseId then some p.1 else none) = _
  unfold legacyIntent
  rw [find_legacy]
  split_ifs with hmem
  · obtain ⟨entry, hget, hlegacy⟩ := (h.legacy _).1 hmem
    have hturn : entry.turn = turn := congrArg Prod.fst (h.key _ _ hget)
    cases hfind : J.entries.toList.findSome? (fun p =>
      if p.2.turn = turn ∧ p.2.legacyToolUseId = some toolUseId then some p.1 else none) with
    | none =>
      have := List.findSome?_eq_none_iff.1 hfind _ ((Table.mem_toList _ _ _).2 hget)
      simp [hturn, hlegacy] at this
    | some k =>
      obtain ⟨p, hp, hpk⟩ := List.exists_of_findSome?_eq_some hfind
      split at hpk
      · rename_i hcond
        cases hpk
        rw [(hpair p hp hcond.1 hcond.2).1]
      · cases hpk
  · refine List.findSome?_eq_none_iff.2 (fun p hp => ?_)
    split
    · rename_i hcond
      exact absurd (hpair p hp hcond.1 hcond.2).2 hmem
    · rfl

/-- **Everything an event can ask of the journal**: nothing, to open the key it marks, or to close it. -/
theorem apply_eq (h : Reads log J) (e : Event) : (e.mark log = none ∧ e.opens = none ∧ e.legacyKey = none ∧ J.apply e = .ok J) ∨
    (∃ (p : PendingEffect) (entry : Entry), e.mark log = some (p.key, .intent) ∧ e.opens = some p ∧ entry.opened = p ∧
      entry.state = .pending ∧ e.legacyKey = entry.legacyToolUseId.map (fun _ => p.key) ∧
      (∀ id, entry.legacyToolUseId = some id → id = p.id) ∧ J.apply e =
        if J.entries.contains p.key then .error .duplicateIntent else .ok ⟨J.entries.insert p.key entry⟩) ∨
    (∃ (k : EffectKey) (m : Mark) (missing afterCompleted afterUnknown : EffectJournalError), m ≠ .intent ∧
      e.mark log = some (k, m) ∧ e.opens = none ∧ e.legacyKey = none ∧ J.apply e =
        J.close k (if m = .unknown then .unknown else .completed) missing afterCompleted afterUnknown) := by
  obtain ⟨turn, kind⟩ := e
  cases kind with
  | effectIntent id toolUseId tool _ _ _ attempt =>
    refine .inr (.inl ⟨⟨turn, id, tool, attempt⟩,
      ⟨turn, id, tool, if toolUseId.isEmpty then some id else none, attempt, .pending⟩,
      rfl, rfl, rfl, rfl, ?_, ?_, rfl⟩)
    · simp only [Event.legacyKey]
      split <;> rfl
    · intro other hother
      split at hother
      · exact (Option.some.inj hother).symm
      · cases hother
  | toolDone result effectId tool =>
    cases effectId with
    | some id => exact .inr (.inr ⟨(turn, id), .toolDone, _, _, _, by decide, rfl, rfl, rfl, rfl⟩)
    | none =>
      have hkey := h.toolDoneKey_eq turn result.toolUseId
      cases hlegacy : legacyIntent log turn result.toolUseId with
      | none =>
        rw [hlegacy] at hkey
        exact .inl ⟨by simp [Event.mark, hlegacy], rfl, rfl, by simp [apply, hkey]⟩
      | some k =>
        rw [hlegacy] at hkey
        exact .inr (.inr ⟨k, .toolDone, _, _, _, by decide, by simp [Event.mark, hlegacy], rfl, rfl,
          by simp only [apply, hkey]; rfl⟩)
  | effectUnknown id tool reason attempt =>
    exact .inr (.inr ⟨(turn, id), .unknown, _, _, _, by decide, rfl, rfl, rfl, rfl⟩)
  | effectDone id tool durationMs attempt =>
    exact .inr (.inr ⟨(turn, id), .done, _, _, _, by decide, rfl, rfl, rfl, rfl⟩)
  | effectFailed id tool reason durationMs attempt =>
    exact .inr (.inr ⟨(turn, id), .failed, _, _, _, by decide, rfl, rfl, rfl, rfl⟩)
  | other _ => exact .inl ⟨rfl, rfl, rfl, rfl⟩

theorem marks_of_none (hm : e.mark log = none) (key : EffectKey) : marks (log ++ [e]) key = marks log key := by
  rw [marks_concat]
  simp [Event.marksFor, hm]

variable {k : EffectKey}

theorem marks_of_some {m : Mark} (hm : e.mark log = some (k, m)) (key : EffectKey) :
    marks (log ++ [e]) key = marks log key ++ if k = key then [m] else [] := by
  rw [marks_concat]
  simp [Event.marksFor, hm]

theorem marks_eq_nil (h : Reads log J) (hk : J.entries[k]? = none) : marks log k = [] := by
  have hs := h.state k
  rw [hk] at hs
  exact (stateOf_eq_none (h.closed k)).1 hs.symm

theorem marks_eq_intent (h : Reads log J) {entry : Entry} (hk : J.entries[k]? = some entry)
    (hp : entry.state = .pending) : marks log k = [.intent] := by
  have hs := h.state k
  rw [hk, Option.map_some, hp] at hs
  exact (stateOf_eq_pending (h.closed k)).1 hs.symm

theorem concat (h : Reads log J) (he : J.apply e = .ok J') : Reads (log ++ [e]) J' := by
  rcases h.apply_eq e with ⟨hm, ho, hl, happly⟩ | ⟨p, entry, hm, ho, hp, hst, hl, hid, happly⟩ |
    ⟨k, m, missing, completed, unknown, hne, hm, ho, hl, happly⟩
  · -- the event is outside the effect vocabulary, or it resolves to no key
    rw [happly] at he
    cases he
    exact ⟨fun key => by rw [marks_of_none hm]; exact h.closed key,
      fun key => by rw [marks_of_none hm]; exact h.state key, h.key,
      fun p => by simpa [Kernel.opened, ho] using h.opened p, fun k => by simpa [hl] using h.legacy k, h.legacyId⟩
  · -- a fresh intent
    rw [happly] at he
    split at he
    · cases he
    rename_i hfresh
    cases he
    have hk : J.entries[p.key]? = none := (Table.contains_eq_false _ _).1 (Bool.not_eq_true _ ▸ hfresh)
    have hnil := h.marks_eq_nil hk
    refine ⟨fun key => ?_, fun key => ?_, fun key en hen => ?_, fun q => ?_, fun key => ?_, fun key en id hen hlegacy => ?_⟩
    · rw [marks_of_some hm]
      by_cases hkey : p.key = key
      · subst hkey
        rw [hnil, if_pos rfl]
        exact .inr (.inl rfl)
      · rw [if_neg hkey, List.append_nil]
        exact h.closed key
    · rw [marks_of_some hm, Table.get_insert]
      by_cases hkey : p.key = key
      · subst hkey
        rw [hnil, if_pos rfl, if_pos rfl, Option.map_some, hst]
        rfl
      · rw [if_neg hkey, if_neg hkey, List.append_nil]
        exact h.state key
    · rcases Table.insert_eq_some hen with ⟨rfl, rfl⟩ | ⟨hkey, hen⟩
      · rw [hp]
      · exact h.key key en hen
    · have hopen : Kernel.opened (log ++ [e]) = Kernel.opened log ++ [p] := by simp [Kernel.opened, ho]
      rw [hopen, List.mem_append, List.mem_singleton, h.opened q, Table.get_insert]
      by_cases hkey : p.key = q.key
      · rw [if_pos hkey, ← hkey, hk]
        constructor
        · rintro (⟨en, hen, -⟩ | rfl)
          · cases hen
          · exact ⟨entry, rfl, hp⟩
        · rintro ⟨en, hen, heq⟩
          cases hen
          exact .inr (heq.symm.trans hp)
      · rw [if_neg hkey]
        constructor
        · rintro (hq | rfl)
          · exact hq
          · cases hkey rfl
        · exact .inl
    · rw [List.filterMap_append, List.mem_append, h.legacy key, Table.get_insert]
      simp only [List.filterMap_cons, List.filterMap_nil, hl]
      by_cases hkey : p.key = key
      · subst hkey
        rw [if_pos rfl, hk]
        cases hlegacy : entry.legacyToolUseId with
        | none => simp [hlegacy]
        | some id => simp [hlegacy, hid id hlegacy, PendingEffect.key]
      · rw [if_neg hkey]
        cases hlegacy : entry.legacyToolUseId with
        | none => simp
        | some id => simp [Ne.symm hkey]
    · rcases Table.insert_eq_some hen with ⟨rfl, rfl⟩ | ⟨hkey, hen⟩
      · exact hid id hlegacy
      · exact h.legacyId key en id hen hlegacy
  · -- the terminal of a pending intent
    rw [happly] at he
    obtain ⟨entry, hk, hp, rfl⟩ := close_ok he
    have hmarks := h.marks_eq_intent hk hp
    refine ⟨fun key => ?_, fun key => ?_, fun key en hen => ?_, fun q => ?_, fun key => ?_, fun key en id hen hlegacy => ?_⟩
    · rw [marks_of_some hm]
      by_cases hkey : k = key
      · subst hkey
        rw [hmarks, if_pos rfl]
        exact .inr (.inr ⟨m, hne, rfl⟩)
      · rw [if_neg hkey, List.append_nil]
        exact h.closed key
    · rw [marks_of_some hm, Table.get_insert]
      by_cases hkey : k = key
      · subst hkey
        rw [hmarks, if_pos rfl, if_pos rfl]
        cases m <;> simp [stateOf] at hne ⊢
      · rw [if_neg hkey, if_neg hkey, List.append_nil]
        exact h.state key
    · rcases Table.insert_eq_some hen with ⟨rfl, rfl⟩ | ⟨hkey, hen⟩
      · exact h.key k entry hk
      · exact h.key key en hen
    · have hopen : Kernel.opened (log ++ [e]) = Kernel.opened log := by simp [Kernel.opened, ho]
      rw [hopen, h.opened q, Table.get_insert]
      by_cases hkey : k = q.key
      · rw [if_pos hkey, ← hkey, hk]
        simp [Entry.opened]
      · rw [if_neg hkey]
    · rw [List.filterMap_append, List.mem_append, h.legacy key, Table.get_insert]
      simp only [List.filterMap_cons, List.filterMap_nil, hl]
      by_cases hkey : k = key
      · subst hkey
        rw [if_pos rfl, hk]
        simp
      · rw [if_neg hkey]
        simp
    · rcases Table.insert_eq_some hen with ⟨rfl, rfl⟩ | ⟨hkey, hen⟩
      · exact h.legacyId k entry id hk hlegacy
      · exact h.legacyId key en id hen hlegacy

theorem apply_ok (h : Reads log J) (hclosed : ∀ key, OnceClosed (marks (log ++ [e]) key)) : ∃ J', J.apply e = .ok J' := by
  rcases h.apply_eq e with ⟨-, -, -, happly⟩ | ⟨p, entry, hm, -, -, -, -, -, happly⟩ |
    ⟨k, m, missing, completed, unknown, hne, hm, -, -, happly⟩
  · exact ⟨J, happly⟩
  · have hone := hclosed p.key
    rw [marks_of_some hm, if_pos rfl] at hone
    have hnil : marks log p.key = [] := by
      rcases h.closed p.key with hc | hc | ⟨t, -, hc⟩
      · exact hc
      · rw [hc] at hone
        simp [OnceClosed] at hone
      · rw [hc] at hone
        simp [OnceClosed] at hone
    have hs := h.state p.key
    rw [hnil] at hs
    have hk : J.entries[p.key]? = none := Option.map_eq_none_iff.1 hs
    rw [happly, (Table.contains_eq_false _ _).2 hk]
    exact ⟨_, rfl⟩
  · have hone := hclosed k
    rw [marks_of_some hm, if_pos rfl] at hone
    have hintent : marks log k = [.intent] := by
      rcases h.closed k with hc | hc | ⟨t, -, hc⟩
      · rw [hc] at hone
        simp [OnceClosed, hne] at hone
      · exact hc
      · rw [hc] at hone
        simp [OnceClosed] at hone
    have hs := h.state k
    rw [hintent] at hs
    obtain ⟨entry, hk, hp⟩ := Option.map_eq_some_iff.1 hs
    exact ⟨_, happly.trans (close_of_pending _ _ _ _ hk hp)⟩

end Reads

namespace EffectJournal

theorem replay_append (a b : List Event) : replay (a ++ b) = (replay a).bind (fun J => b.foldlM apply J) := by
  have hpol : (!replayDivergenceDetectionPolicy.verifyEffectTerminals ||
      !replayDivergenceDetectionPolicy.failClosed) = false := rfl
  unfold replay
  simp only [hpol, Bool.false_eq_true, if_false, List.foldlM_append]
  rfl

/-- **A replayed journal reads its log**: by induction on the log, one accepted event at a time. -/
theorem replay_reads {log : List Event} {J : EffectJournal} (h : replay log = .ok J) : Reads log J := by
  induction log using List.reverseRecOn generalizing J with
  | nil =>
    cases h
    exact Reads.nil
  | append_singleton log e ih =>
    rw [replay_concat] at h
    cases hlog : replay log with
    | error x => rw [hlog] at h; cases h
    | ok _ =>
      rw [hlog] at h
      exact (ih hlog).concat h

theorem replay_of_onceClosed {log : List Event} (h : ∀ key, OnceClosed (marks log key)) : ∃ J, replay log = .ok J := by
  induction log using List.reverseRecOn with
  | nil => exact ⟨_, replay_nil⟩
  | append_singleton log e ih =>
    obtain ⟨J, hJ⟩ := ih (fun key => (marks_concat log e key ▸ h key).of_append)
    obtain ⟨J', hJ'⟩ := (replay_reads hJ).apply_ok h
    exact ⟨J', by rw [replay_concat, hJ]; exact hJ'⟩

theorem replay_skip {log rest : List Event} {e : Event} (h : e.mark log = none) :
    replay (log ++ e :: rest) = replay (log ++ rest) := by
  rw [replay_append, replay_append]
  cases hlog : replay log with
  | error x => rfl
  | ok J =>
    have happly : J.apply e = .ok J := by
      rcases (replay_reads hlog).apply_eq e with ⟨-, -, -, happly⟩ | ⟨p, _, hm, -⟩ | ⟨k, m, _, _, _, -, hm, -⟩
      · exact happly
      · rw [h] at hm
        cases hm
      · rw [h] at hm
        cases hm
    show (e :: rest).foldlM apply J = rest.foldlM apply J
    rw [List.foldlM_cons, happly]
    rfl

end EffectJournal

namespace Reads

variable {log : List Event} {J : EffectJournal}

theorem mem_pending (h : Reads log J) (p : PendingEffect) :
    p ∈ J.pending ↔ p ∈ Kernel.opened log ∧ marks log p.key = [.intent] := by
  unfold EffectJournal.pending
  simp only [List.mem_map, List.mem_filter, beq_iff_eq, Table.mem_vals]
  rw [h.opened p]
  constructor
  · rintro ⟨entry, ⟨⟨k, hk⟩, hp⟩, rfl⟩
    obtain rfl := h.key k entry hk
    exact ⟨⟨entry, hk, rfl⟩, h.marks_eq_intent hk hp⟩
  · rintro ⟨⟨entry, hk, hp⟩, hmarks⟩
    have hs := h.state p.key
    rw [hmarks, hk] at hs
    exact ⟨entry, ⟨⟨p.key, hk⟩, Option.some.inj hs⟩, hp⟩

def keysIn (J : EffectJournal) (st : EntryState) : List EffectKey :=
  ((Table.vals J.entries).filter (fun entry => entry.state == st)).map (fun entry => entry.opened.key)

theorem nodup_keysIn (h : Reads log J) (st : EntryState) : (keysIn J st).Nodup := by
  have hkeys : (Table.vals J.entries).map (fun entry => entry.opened.key) = J.entries.keys := by
    rw [← Std.ExtTreeMap.map_fst_toList_eq_keys, Table.vals, List.map_map]
    exact List.map_congr_left (fun p hp => h.key p.1 p.2 ((Table.mem_toList _ _ _).1 hp))
  have hnodup : ((Table.vals J.entries).map (fun entry => entry.opened.key)).Nodup := by
    rw [hkeys]
    exact Std.ExtTreeMap.nodup_keys
  exact hnodup.sublist (List.filter_sublist.map _)

theorem mem_keysIn (h : Reads log J) (st : EntryState) (key : EffectKey) :
    key ∈ keysIn J st ↔ stateOf (marks log key) = some st := by
  rw [← h.state key]
  simp only [keysIn, List.mem_map, List.mem_filter, beq_iff_eq, Table.mem_vals, Option.map_eq_some_iff]
  constructor
  · rintro ⟨entry, ⟨⟨k, hk⟩, hst⟩, rfl⟩
    rw [h.key k entry hk]
    exact ⟨entry, hk, hst⟩
  · rintro ⟨entry, hk, hst⟩
    exact ⟨entry, ⟨⟨key, hk⟩, hst⟩, h.key key entry hk⟩

theorem pending_keys (J : EffectJournal) : J.pending.map PendingEffect.key = keysIn J .pending := by
  rw [EffectJournal.pending, keysIn, List.map_map]
  rfl

theorem unknownCount_eq (h : Reads log J) : J.unknownCount = {key | marks log key = [.intent, .unknown]}.ncard := by
  have hset : {key | marks log key = [.intent, .unknown]} = ((keysIn J .unknown).toFinset : Set EffectKey) := by
    ext key
    rw [Set.mem_ofPred_eq, Finset.mem_coe, List.mem_toFinset, h.mem_keysIn, stateOf_eq_unknown (h.closed key)]
  rw [hset, Set.ncard_coe_finset, List.toFinset_card_of_nodup (h.nodup_keysIn .unknown), keysIn, List.length_map]
  rfl

end Reads

/-- **`EffectJournal.replay` accepts exactly the well-formed effect logs.**  Its acceptance is closed under prefixes, it
ignores the tool completions that resolve to no key, and the journal it returns reports the keys that are still open and
counts those that ended unknown. -/
theorem replay_accepts_iff (log : List Event) :
    ((∃ J, EffectJournal.replay log = .ok J) ↔ ∀ key, OnceClosed (marks log key)) ∧
    (∀ a b, log = a ++ b → (∃ J, EffectJournal.replay log = .ok J) → ∃ J, EffectJournal.replay a = .ok J) ∧
    (∀ a turn result effectId tool b, log = a ++ ⟨turn, .toolDone result effectId tool⟩ :: b →
      Event.mark a ⟨turn, .toolDone result effectId tool⟩ = none →
      EffectJournal.replay log = EffectJournal.replay (a ++ b)) ∧ ∀ J, EffectJournal.replay log = .ok J →
      (∀ p, p ∈ J.pending ↔ p ∈ opened log ∧ marks log p.key = [.intent]) ∧
      (∀ key, key ∈ J.pending.map PendingEffect.key ↔ marks log key = [.intent]) ∧
      (J.pending.map PendingEffect.key).Nodup ∧ J.unknownCount = {key | marks log key = [.intent, .unknown]}.ncard := by
  refine ⟨⟨?_, EffectJournal.replay_of_onceClosed⟩, ?_, ?_, ?_⟩
  · rintro ⟨J, hJ⟩
    exact (EffectJournal.replay_reads hJ).closed
  · rintro a b rfl ⟨J, hJ⟩
    rw [EffectJournal.replay_append] at hJ
    cases ha : EffectJournal.replay a with
    | error x => rw [ha] at hJ; cases hJ
    | ok J0 => exact ⟨J0, rfl⟩
  · rintro a turn result effectId tool b rfl hmark
    exact EffectJournal.replay_skip hmark
  · intro J hJ
    have hreads := EffectJournal.replay_reads hJ
    refine ⟨hreads.mem_pending, fun key => ?_, ?_, hreads.unknownCount_eq⟩
    · rw [Reads.pending_keys, hreads.mem_keysIn, stateOf_eq_pending (hreads.closed key)]
    · rw [Reads.pending_keys]
      exact hreads.nodup_keysIn .pending

end Iteron.Kernel
