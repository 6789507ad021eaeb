import Mathlib.Data.Bool.AllAny
import Iteron.RedactScan
/-!
# RedactTokens — what the scanner reads

A line is a row of separators, words, markers of the scanner itself and brackets of other markers (`scan_induction`), and
the scanner reads each of them off the front of the line.
-/
namespace Iteron.Redact
open Search
open List (append_assoc drop_left prefix_append take_left)

variable {c : Char} {line rest w m a t : List Char}

/-! ## The marker -/

/-- The shape of the markers the scanner writes: four safe characters between the brackets. -/
def Generated (m : List Char) : Prop :=
  ∃ h : List Char, h.length = 4 ∧ (∀ c ∈ h, isHintChar c = true) ∧ m = markerOpen ++ (h ++ markerClose)

theorem Generated.length_eq (h : Generated m) : m.length = 16 := by
  obtain ⟨h, hlen, -, rfl⟩ := h
  simp [hlen, markerClose]

theorem Generated.starts (h : Generated m) : markerOpen <+: m := by
  obtain ⟨h, -, -, rfl⟩ := h
  exact prefix_append _ _

theorem generatedMarkerLen_of_generated (h : Generated m) : generatedMarkerLen (m ++ rest) = some 16 := by
  obtain ⟨h, hlen, hchars, rfl⟩ := h
  have hopen : markerOpen.isPrefixOf (markerOpen ++ (h ++ markerClose) ++ rest) = true := by
    rw [List.isPrefixOf_iff_prefix, append_assoc]
    exact prefix_append _ _
  have hdrop : (markerOpen ++ (h ++ markerClose) ++ rest).drop markerOpen.length = h ++ (markerClose ++ rest) := by
    rw [append_assoc, drop_left, append_assoc]
  have htake : (h ++ (markerClose ++ rest)).take 4 = h := by rw [← hlen, take_left]
  have hdrop' : (h ++ (markerClose ++ rest)).drop 4 = markerClose ++ rest := by rw [← hlen, drop_left]
  have hclose : markerClose.isPrefixOf (markerClose ++ rest) = true :=
    List.isPrefixOf_iff_prefix.2 (prefix_append _ _)
  have hall : h.all isHintChar = true := List.all_eq_true.2 hchars
  simp only [generatedMarkerLen, hopen, hdrop, htake, hall, hlen, hdrop', hclose]
  rfl

theorem generated_of_generatedMarkerLen {n : Nat} (h : generatedMarkerLen line = some n) :
    ∃ m rest, Generated m ∧ line = m ++ rest := by
  rw [generatedMarkerLen] at h
  split at h
  · rename_i hopen
    obtain ⟨t, rfl⟩ := List.isPrefixOf_iff_prefix.1 hopen
    dsimp only at h
    rw [drop_left] at h
    split at h
    · rename_i hshape
      simp only [Bool.and_eq_true, beq_iff_eq, List.all_eq_true] at hshape
      obtain ⟨⟨hchars, hlen⟩, hclose⟩ := hshape
      obtain ⟨rest, hrest⟩ := List.isPrefixOf_iff_prefix.1 hclose
      refine ⟨_, rest, ⟨t.take 4, hlen, hchars, rfl⟩, ?_⟩
      rw [append_assoc, append_assoc, hrest, hlen, List.take_append_drop]
    · cases h
  · cases h

/-! ## Laws of the walk -/

def IsWord (w : List Char) : Prop := w ≠ [] ∧ ∀ c ∈ w, isSeparator c = false

/-- Where a word ends: at the end of the line, at a separator or at a marker. -/
def Boundary (rest : List Char) : Prop :=
  rest = [] ∨ (∃ c t, rest = c :: t ∧ isSeparator c = true) ∨ markerOpen <+: rest

theorem not_starts_separator (hc : isSeparator c = true) : ¬ markerOpen <+: c :: rest := by
  intro h
  rw [markerOpen, List.cons_prefix_cons] at h
  rw [← h.1] at hc
  cases hc

theorem tokens_none (h : splitFirst markerOpen line = none) : tokens line = unmarkedTokens [] line := by
  rw [tokens]
  split
  · rfl
  · rename_i heq
    rw [h] at heq
    cases heq

theorem tokens_nil : tokens [] = [] := tokens_none rfl

theorem tokens_generated (h : Generated m) : tokens (m ++ rest) = .generated m :: tokens rest := by
  have hopen := splitFirst_of_starts (h.starts.trans (prefix_append m rest))
  rw [tokens.eq_1 (m ++ rest)]
  split <;> rename_i heq
  · rw [hopen] at heq
    cases heq
  · rw [hopen] at heq
    cases heq
    rw [generatedMarkerLen_of_generated h]
    simp only [← h.length_eq, take_left, drop_left]
    rfl

theorem tokens_bracket (h : markerOpen <+: '[' :: rest) (hm : generatedMarkerLen ('[' :: rest) = none) :
    tokens ('[' :: rest) = .bracket :: tokens rest := by
  have hopen := splitFirst_of_starts h
  rw [tokens.eq_1 ('[' :: rest)]
  split <;> rename_i heq
  · rw [hopen] at heq
    cases heq
  · rw [hopen] at heq
    cases heq
    rw [hm]
    rfl

theorem tokens_some {before candidate : List Char} (h : splitFirst markerOpen line = some (before, candidate)) :
    tokens line = unmarkedTokens [] before ++ tokens candidate := by
  have hopen := (splitFirst_some h).2.1
  rw [tokens.eq_1 line]
  split <;> rename_i heq
  · rw [h] at heq
    cases heq
  · rw [h] at heq
    cases heq
    split
    · rename_i n hm
      rw [generatedMarkerLen_eq hm]
      obtain ⟨m, t, hgen, rfl⟩ := generated_of_generatedMarkerLen hm
      rw [tokens_generated hgen, ← hgen.length_eq, take_left, drop_left]
    · rename_i hm
      obtain ⟨t, rfl⟩ := hopen
      exact congrArg (unmarkedTokens [] before ++ ·) (tokens_bracket (prefix_append markerOpen t) hm).symm

theorem unmarkedTokens_append : ∀ {w : List Char}, (∀ c ∈ w, isSeparator c = false) → ∀ seen : List Char,
    unmarkedTokens seen (w ++ rest) = unmarkedTokens (seen ++ w) rest
  | [], _, seen => by simp
  | c :: w, h, seen => by
    have hc : isSeparator c = false := h c (.head _)
    rw [List.cons_append, unmarkedTokens, if_neg (by simp [hc]),
      unmarkedTokens_append (fun d hd => h d (.tail _ hd)), append_assoc]
    rfl

theorem tokens_separator (hc : isSeparator c = true) : tokens (c :: rest) = .separator c :: tokens rest := by
  have hstep : splitFirst markerOpen (c :: rest) = (splitFirst markerOpen rest).map (fun p => (c :: p.1, p.2)) :=
    splitFirst_cons (not_starts_separator hc)
  have hwalk (t : List Char) : unmarkedTokens [] (c :: t) = .separator c :: unmarkedTokens [] t := by
    rw [unmarkedTokens, if_pos hc]
    rfl
  cases hrest : splitFirst markerOpen rest with
  | none =>
    rw [hrest] at hstep
    rw [tokens_none hstep, tokens_none hrest, hwalk]
  | some p =>
    rw [hrest] at hstep
    rw [tokens_some hstep, tokens_some hrest, hwalk]
    rfl

theorem unmarkedTokens_word (hw : IsWord w) (ht : t = [] ∨ ∃ c r, t = c :: r ∧ isSeparator c = true) :
    unmarkedTokens [] (w ++ t) = .word w :: unmarkedTokens [] t := by
  have hword : wordToken w = [.word w] := by simp [wordToken, hw.1]
  rw [unmarkedTokens_append hw.2, List.nil_append]
  obtain rfl | ⟨c, r, rfl, hc⟩ := ht
  · rw [unmarkedTokens, hword]
    rfl
  · rw [unmarkedTokens, if_pos hc, hword, unmarkedTokens, if_pos hc]
    rfl

theorem tokens_word (hw : IsWord w) (hfree : FreeBefore markerOpen w rest) (hb : Boundary rest) :
    tokens (w ++ rest) = .word w :: tokens rest := by
  have hstep := splitFirst_append hfree
  cases hrest : splitFirst markerOpen rest with
  | none =>
    rw [hrest] at hstep
    rw [tokens_none hstep, tokens_none hrest]
    refine unmarkedTokens_word hw ?_
    obtain h | h | h := hb
    · exact .inl h
    · exact .inr h
    · rw [splitFirst_of_starts h] at hrest
      cases hrest
  | some p =>
    obtain ⟨before, candidate⟩ := p
    rw [hrest] at hstep
    rw [tokens_some hstep, tokens_some hrest]
    refine congrArg (· ++ tokens candidate) (unmarkedTokens_word hw ?_)
    obtain ⟨heq, -, -⟩ := splitFirst_some hrest
    cases before with
    | nil => exact .inl rfl
    | cons d before =>
      obtain h | ⟨c, t, h, hc⟩ | h := hb
      · rw [h] at heq
        cases heq
      · rw [h] at heq
        cases heq
        exact .inr ⟨d, before, rfl, hc⟩
      · rw [splitFirst_of_starts h] at hrest
        cases hrest

theorem exists_word : ∀ line : List Char, ∃ w rest, line = w ++ rest ∧ (∀ c ∈ w, isSeparator c = false) ∧
    FreeBefore markerOpen w rest ∧ Boundary rest
  | [] => ⟨[], [], rfl, by simp, freeBefore_nil, .inl rfl⟩
  | c :: line => by
    by_cases hc : isSeparator c = true
    · exact ⟨[], c :: line, rfl, by simp, freeBefore_nil, .inr (.inl ⟨c, line, rfl, hc⟩)⟩
    · by_cases hopen : markerOpen <+: c :: line
      · exact ⟨[], c :: line, rfl, by simp, freeBefore_nil, .inr (.inr hopen)⟩
      · obtain ⟨w, rest, rfl, hw, hfree, hb⟩ := exists_word line
        refine ⟨c :: w, rest, rfl, ?_, freeBefore_cons.2 ⟨hopen, hfree⟩, hb⟩
        intro d hd
        obtain rfl | hd := List.mem_cons.1 hd
        · simpa using hc
        · exact hw d hd

/-- **Every line is read this way**: the cases of an argument about the scanner. -/
theorem scan_induction {motive : List Char → Prop} (nil : motive [])
    (separator : ∀ c rest, isSeparator c = true → motive rest → motive (c :: rest))
    (generated : ∀ m rest, Generated m → motive rest → motive (m ++ rest))
    (bracket : ∀ rest, markerOpen <+: '[' :: rest → generatedMarkerLen ('[' :: rest) = none → motive rest →
      motive ('[' :: rest))
    (word : ∀ w rest, IsWord w → FreeBefore markerOpen w rest → Boundary rest → motive rest → motive (w ++ rest))
    (line : List Char) : motive line := by
  induction hn : line.length using Nat.strong_induction_on generalizing line with
  | h n ih =>
    have shorter (t : List Char) (ht : t.length < line.length) : motive t := ih t.length (by omega) t rfl
    obtain ⟨w, rest, rfl, hw, hfree, hb⟩ := exists_word line
    by_cases hne : w = []
    · subst hne
      rw [List.nil_append] at shorter ⊢
      obtain rfl | ⟨c, t, rfl, hc⟩ | hopen := hb
      · exact nil
      · exact separator c t hc (shorter t (by simp))
      · cases hm : generatedMarkerLen rest with
        | some n =>
          obtain ⟨m, t, hgen, rfl⟩ := generated_of_generatedMarkerLen hm
          have := hgen.length_eq
          exact generated m t hgen (shorter t (by rw [List.length_append]; omega))
        | none =>
          obtain ⟨t, rfl⟩ := hopen
          exact bracket _ (prefix_append markerOpen t) hm (shorter _ (by simp +arith [markerOpen]))
    · have : 0 < w.length := List.length_pos_of_ne_nil hne
      exact word w rest ⟨hne, hw⟩ hfree hb (shorter rest (by rw [List.length_append]; omega))

end Iteron.Redact
