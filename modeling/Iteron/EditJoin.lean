import Iteron.EditStyle
/-!
# EditJoin — new lines joined by one line ending

Where the new text has another number of lines than the anchor, its lines are joined by one line ending.  Up to line
endings the joined text is empty exactly when the new lines are (`joinParts_lineParts`).
-/
namespace Iteron.Edit
open Patch (Bytes UniqueEditError)
open List (append_assoc length_append mem_append mem_append_left mem_cons mem_singleton nil_append)

variable {text : Bytes}

/-- Lines joined by a line ending, the last up to its core. -/
def joinParts (eol : Bytes) : List Parts → Bytes
  | [] => []
  | [p] => p.lead ++ p.core
  | p :: q :: ps => p.body ++ (eol ++ joinParts eol (q :: ps))

variable {p : Parts} {pre post : Bytes}

theorem slice_body (h : text = pre ++ (p.text ++ post)) :
    slice text (min (p.place pre.length).start (p.place pre.length).contentEnd) (p.place pre.length).contentEnd = p.body := by
  refine slice_eq (a := pre) (c := p.eol ++ post) ?_ ?_ ?_
  · rw [h, Parts.text_eq, append_assoc]
  · simp only [Parts.place]
    omega
  · simp only [Parts.place, Parts.body, length_append]
    omega

theorem slice_toCore (h : text = pre ++ (p.text ++ post)) :
    slice text (min (p.place pre.length).start (p.place pre.length).coreEnd) (p.place pre.length).coreEnd =
      p.lead ++ p.core := by
  refine slice_eq (a := pre) (c := p.trail ++ (p.eol ++ post)) ?_ ?_ ?_
  · rw [h, Parts.text]
    simp
  · simp only [Parts.place]
    omega
  · simp only [Parts.place, length_append]
    omega

theorem slice_fromCore (h : text = pre ++ (p.text ++ post)) :
    slice text (min (p.place pre.length).coreStart (p.place pre.length).contentEnd) (p.place pre.length).contentEnd =
      p.core ++ p.trail := by
  refine slice_eq (a := pre ++ p.lead) (c := p.eol ++ post) ?_ ?_ ?_
  · rw [h, Parts.text]
    simp
  · simp only [Parts.place, length_append]
    omega
  · simp only [Parts.place, length_append]
    omega

theorem joinLines_placed (eol : Bytes) : ∀ {ps : List Parts} {pre post : Bytes}, text = pre ++ (joined ps ++ post) →
    joinLines eol text false (placed pre.length ps) = joinParts eol ps
  | [], _, _, _ => rfl
  | [p], pre, post, h => by
    rw [joined_cons, joined_nil, List.append_nil] at h
    exact slice_toCore h
  | p :: q :: ps, pre, post, h => by
    rw [joined_cons, append_assoc] at h
    have hnext : text = (pre ++ p.text) ++ (joined (q :: ps) ++ post) := by rw [h, append_assoc]
    have ih := joinLines_placed eol hnext
    rw [length_append] at ih
    rw [joinParts, ← ih, ← slice_body h]
    rfl

theorem joinLines_first (eol : Bytes) {q : Parts} {ps : List Parts} (h : text = joined (p :: q :: ps)) :
    joinLines eol text true (placed 0 (p :: q :: ps)) = p.core ++ (p.trail ++ (eol ++ joinParts eol (q :: ps))) := by
  have hfirst : text = [] ++ (p.text ++ joined (q :: ps)) := h
  have hrest : text = ([] ++ p.text) ++ (joined (q :: ps) ++ []) := by simpa using h
  have hjoin := joinLines_placed eol hrest
  rw [← hjoin, ← append_assoc, ← slice_fromCore hfirst]
  simp only [placed, joinLines, nil_append, List.length_nil, if_true, Nat.zero_add]

theorem joinLines_single (eol : Bytes) (h : text = joined [p]) : joinLines eol text true (placed 0 [p]) = p.core := by
  have hwhole : text = [] ++ (p.text ++ []) := by simpa using h
  have hcore : (p.place 0).core text = p.core := Parts.core_place hwhole rfl
  have hmin : min (p.place 0).coreStart (p.place 0).coreEnd = (p.place 0).coreStart :=
    Nat.min_eq_left (Nat.le_add_right _ _)
  rw [placed, placed, joinLines, if_pos rfl, hmin]
  exact hcore

theorem lineParts_cons_cons (hlen : (lineParts text).length ≠ 1) (hne : lineParts text ≠ []) :
    ∃ p q ps, lineParts text = p :: q :: ps ∧ lineParts (afterLine text) = q :: ps := by
  have htext : text ≠ [] := by
    rintro rfl
    exact hne lineParts_nil
  rw [lineParts_cons htext] at hlen ⊢
  cases hafter : lineParts (afterLine text) with
  | nil =>
    rw [hafter] at hlen
    cases hlen rfl
  | cons q ps => exact ⟨_, q, ps, rfl, rfl⟩

theorem afterLine_of_length (hlen : (lineParts text).length = 1) : afterLine text = [] := by
  have htext : text ≠ [] := by
    rintro rfl
    rw [lineParts_nil] at hlen
    cases hlen
  rw [lineParts_cons htext, List.length_cons, Nat.add_eq_right, List.length_eq_zero_iff] at hlen
  rw [← joined_lineParts (afterLine text), hlen]
  rfl

theorem crLfOnly_joinParts : ∀ {ps : List Parts}, (∀ p ∈ ps, p.Ok) → CrLfOnly (joinParts [cr, lf] ps)
  | [], _ => crLfOnly_of_not_mem List.not_mem_nil
  | [p], h => by
    have hbody := (h p (.head _)).body
    rw [Parts.body, ← append_assoc, mem_append, not_or] at hbody
    exact crLfOnly_of_not_mem hbody.1
  | p :: q :: ps, h => by
    exact (crLfOnly_of_not_mem (h p (.head _)).body).append
      (crLfOnly_pair.append (crLfOnly_joinParts (fun r hr => h r (List.mem_cons_of_mem p hr))))

theorem mem_joinParts {c : UInt8} (hc : c ≠ lf) : ∀ {ps : List Parts}, c ∈ joinParts [lf] ps → ∃ p ∈ ps, c ∈ p.body
  | [], h => by cases h
  | [p], h => by
    refine ⟨p, .head _, ?_⟩
    rw [Parts.body, ← append_assoc]
    exact mem_append_left _ h
  | p :: q :: ps, h => by
    rw [joinParts, mem_append, mem_append, mem_singleton] at h
    obtain h | h | h := h
    · exact ⟨p, .head _, h⟩
    · cases hc h
    · obtain ⟨r, hr, hm⟩ := mem_joinParts hc h
      exact ⟨r, List.mem_cons_of_mem p hr, hm⟩

theorem joinParts_of_body {p : Parts} : ∀ {ps : List Parts}, (∀ p ∈ ps, p.Ok) → p ∈ ps → p.body ≠ [] →
    ∃ c ∈ joinParts [lf] ps, c ∈ p.body
  | [q], h, hp, hne => by
    obtain rfl := List.mem_singleton.1 hp
    have hcore : p.lead ++ p.core ≠ [] := by
      intro hnil
      rw [List.append_eq_nil_iff] at hnil
      refine hne ?_
      rw [Parts.body, hnil.1, hnil.2, nil_append, nil_append]
      by_contra htrail
      exact (h p (.head _)).core htrail hnil.2
    obtain ⟨c, hc⟩ := List.exists_mem_of_ne_nil _ hcore
    refine ⟨c, hc, ?_⟩
    rw [Parts.body, ← append_assoc]
    exact mem_append_left _ hc
  | q :: r :: ps, h, hp, hne => by
    rw [mem_cons] at hp
    obtain rfl | hp := hp
    · obtain ⟨c, hc⟩ := List.exists_mem_of_ne_nil _ hne
      exact ⟨c, mem_append_left _ hc, hc⟩
    · obtain ⟨c, hc, hm⟩ := joinParts_of_body (fun s hs => h s (List.mem_cons_of_mem q hs)) hp hne
      exact ⟨c, List.mem_append_right _ (List.mem_append_right _ hc), hm⟩

theorem joinParts_lineParts (h : NoLoneCr text) :
    (∃ c ∈ joinParts [lf] (lineParts text), c ≠ lf) ↔ ∃ c ∈ text, c ≠ cr ∧ c ≠ lf := by
  have hok := lineParts_ok text
  constructor
  · rintro ⟨c, hc, hne⟩
    obtain ⟨p, hp, hm⟩ := mem_joinParts hne hc
    refine ⟨c, ?_, ?_, hne⟩
    · rw [← joined_lineParts text, joined, List.mem_flatMap]
      refine ⟨p, hp, ?_⟩
      rw [Parts.text_eq]
      exact mem_append_left _ hm
    · rintro rfl
      exact h.lineParts p hp hm
  · rintro ⟨c, hc, hcr, hlf⟩
    rw [← joined_lineParts text, joined, List.mem_flatMap] at hc
    obtain ⟨p, hp, hm⟩ := hc
    rw [Parts.text_eq, mem_append] at hm
    have hbody : c ∈ p.body := by
      obtain hm | hm := hm
      · exact hm
      · obtain heol | heol | heol := (hok p hp).eol
        · rw [heol] at hm
          cases hm
        · rw [heol, mem_singleton] at hm
          cases hlf hm
        · rw [heol, mem_cons, mem_singleton] at hm
          obtain rfl | rfl := hm
          · cases hcr rfl
          · cases hlf rfl
    obtain ⟨d, hd, hdm⟩ := joinParts_of_body hok hp (List.ne_nil_of_mem hbody)
    refine ⟨d, hd, ?_⟩
    rintro rfl
    exact (hok p hp).body hdm

end Iteron.Edit
