import Iteron.Edit
/-!
# EditExact — the exact anchor of an edit

The places of the anchor are looked for one behind the other, so a second place that overlaps the first is not seen.  An
accepted exact edit stands at the only place of its anchor exactly when no anchor has all its places over the first one
(`lands_uniquely_iff`).
-/
namespace Iteron.Edit
open Patch (Bytes UniqueEditError)
open Search

variable {pat text content old new : Bytes} {s i offset : Nat}

def OccursAt (pat text : Bytes) (s : Nat) : Prop := pat <+: text.drop s

theorem occursAt_drop {n : Nat} : OccursAt pat (text.drop n) s ↔ OccursAt pat text (n + s) := by
  rw [OccursAt, OccursAt, List.drop_drop]

theorem not_occursAt_of_free {before rest : Bytes} (h : FreeBefore pat before rest) (hs : s < before.length) :
    ¬ OccursAt pat (before ++ rest) s := by
  rw [OccursAt, List.drop_append_of_le_length (Nat.le_of_lt hs)]
  refine h (before.take s) (before.drop s) (List.take_append_drop s before).symm ?_
  rw [Ne, List.drop_eq_nil_iff]
  omega

theorem matchIndices_nil (hpat : pat ≠ []) (h : matchIndices pat offset text = []) (s : Nat) : ¬ OccursAt pat text s := by
  rw [matchIndices] at h
  split at h
  · rename_i hs
    intro hocc
    exact splitFirst_none hs (hocc.isInfix.trans (List.drop_suffix s text).isInfix)
  · rw [if_neg hpat] at h
    cases h

theorem matchIndices_cons {more : List Nat} (h : matchIndices pat offset text = i :: more) :
    ∃ s, i = offset + s ∧ OccursAt pat text s ∧ (∀ s', OccursAt pat text s' → s ≤ s') ∧
      more = matchIndices pat (offset + s + pat.length) (text.drop (s + pat.length)) := by
  rw [matchIndices] at h
  split at h
  · cases h
  · rename_i before rest hs
    obtain ⟨rfl, hstart, hfree⟩ := splitFirst_some hs
    split at h
    · cases h
    · rw [List.cons.injEq] at h
      refine ⟨before.length, h.1.symm, ?_, fun s' hs' => ?_, ?_⟩
      · rw [OccursAt, List.drop_left]
        exact hstart
      · by_contra hlt
        exact not_occursAt_of_free hfree (Nat.not_le.1 hlt) hs'
      · rw [← h.2, ← List.drop_drop, List.drop_left]

theorem matchIndices_singleton_iff (hpat : pat ≠ []) : matchIndices pat 0 text = [s] ↔
    OccursAt pat text s ∧ ∀ s', OccursAt pat text s' → s ≤ s' ∧ s' < s + pat.length := by
  constructor
  · intro h
    obtain ⟨s0, rfl, hocc, hfirst, hmore⟩ := matchIndices_cons h
    rw [Nat.zero_add] at hmore ⊢
    refine ⟨hocc, fun s' hs' => ⟨hfirst s' hs', ?_⟩⟩
    by_contra hbehind
    refine matchIndices_nil hpat hmore.symm (s' - (s0 + pat.length)) ?_
    rw [occursAt_drop]
    rwa [Nat.add_sub_cancel' (Nat.not_lt.1 hbehind)]
  · rintro ⟨hocc, hall⟩
    cases hm : matchIndices pat 0 text with
    | nil => cases matchIndices_nil hpat hm s hocc
    | cons i more =>
      obtain ⟨s0, rfl, hocc0, hfirst, hmore⟩ := matchIndices_cons hm
      have hs : s0 = s := Nat.le_antisymm (hfirst s hocc) (hall s0 hocc0).1
      subst hs
      cases more with
      | nil => rw [Nat.zero_add]
      | cons j more =>
        obtain ⟨_, -, hocc1, -, -⟩ := matchIndices_cons hmore.symm
        rw [occursAt_drop] at hocc1
        have := (hall _ hocc1).2
        omega

/-- Whenever the edit is accepted and its anchor occurs, the anchor occurs once and the span is that place. -/
def LandsUniquely (limits : Limits) (content old new : Bytes) : Prop :=
  ∀ plan, planUniqueEdit limits content old new = .ok plan → (∃ s, OccursAt old content s) →
    ∃ s, OccursAt old content s ∧ (∀ s', OccursAt old content s' → s' = s) ∧ plan.start = s ∧ plan.stop = s + old.length

/-- The anchor passes the checks and has more than one place, all of them starting inside the first. -/
def OverlapsItself (content old new : Bytes) : Prop :=
  old ≠ [] ∧ old ≠ new ∧ (suspiciousUnicode old).or (suspiciousUnicode new) = none ∧
    ∃ s s', s < s' ∧ OccursAt old content s ∧ OccursAt old content s' ∧
      ∀ s'', OccursAt old content s'' → s ≤ s'' ∧ s'' < s + old.length

variable {limits : Limits}

theorem planUniqueEdit_eq (hold : old ≠ []) (hne : old ≠ new)
    (hsus : (suspiciousUnicode old).or (suspiciousUnicode new) = none) (hm : matchIndices old 0 content = [s]) :
    planUniqueEdit limits content old new = .ok ⟨s, s + old.length, new⟩ := by
  rw [planUniqueEdit, if_neg (by simpa using hold), if_neg hne, hsus, hm]

theorem planUniqueEdit_ok {plan : Plan} (h : planUniqueEdit limits content old new = .ok plan) :
    old ≠ [] ∧ old ≠ new ∧ (suspiciousUnicode old).or (suspiciousUnicode new) = none ∧
      ((∃ s, matchIndices old 0 content = [s] ∧ plan = ⟨s, s + old.length, new⟩) ∨
        (matchIndices old 0 content = [] ∧ planNormalizedEdit limits content old new = .ok plan)) := by
  rw [planUniqueEdit] at h
  split at h
  · cases h
  rename_i hold
  split at h
  · cases h
  rename_i hne
  split at h
  · cases h
  rename_i hsus
  refine ⟨by simpa using hold, hne, hsus, ?_⟩
  split at h
  · rename_i start hm
    cases h
    exact .inl ⟨start, hm, rfl⟩
  · rename_i hm
    exact .inr ⟨hm, h⟩
  · cases h

/-- **An exact edit lands on its only place** exactly when its anchor does not overlap itself there. -/
theorem lands_uniquely_iff (limits : Limits) (content old new : Bytes) :
    LandsUniquely limits content old new ↔ ¬ OverlapsItself content old new := by
  constructor
  · rintro h ⟨hold, hne, hsus, s, s', _, hs, hs', hall⟩
    have hm : matchIndices old 0 content = [s] := (matchIndices_singleton_iff hold).2 ⟨hs, hall⟩
    obtain ⟨u, -, hunique, -, -⟩ := h _ (planUniqueEdit_eq hold hne hsus hm) ⟨s, hs⟩
    have := hunique s hs
    have := hunique s' hs'
    omega
  · intro h plan hplan hocc
    obtain ⟨hold, hne, hsus, ⟨s, hm, rfl⟩ | ⟨hm, -⟩⟩ := planUniqueEdit_ok hplan
    · obtain ⟨hs, hall⟩ := (matchIndices_singleton_iff hold).1 hm
      refine ⟨s, hs, fun s' hs' => ?_, rfl, rfl⟩
      by_contra hother
      have := (hall s' hs').1
      exact h ⟨hold, hne, hsus, s, s', by omega, hs, hs', hall⟩
    · obtain ⟨s, hs⟩ := hocc
      cases matchIndices_nil hold hm s hs

/-- `aa` stands at two places of `aaa`. -/
theorem not_lands_uniquely_aaa : ¬ LandsUniquely {} [97, 97, 97] [97, 97] [98] := by
  rw [lands_uniquely_iff, not_not]
  refine ⟨by decide, by decide, by decide, 0, 1, by decide, by rw [OccursAt]; decide, by rw [OccursAt]; decide, fun s hs => ?_⟩
  have hlen := hs.length_le
  rw [List.length_drop] at hlen
  simp only [List.length_cons, List.length_nil] at hlen ⊢
  omega

end Iteron.Edit
