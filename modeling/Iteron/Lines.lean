import Mathlib.Data.List.Basic
/-!
# Lines — records framed by a separator

Each record is free of the separator and followed by it.  Splitting gives the records back, and a prefix of the image is
the image of the first records and a tail that has no separator yet (`prefix_image`).
-/
namespace Iteron.Lines

variable {α : Type} {sep : α}

def image (sep : α) (ls : List (List α)) : List α := ls.flatMap (fun l => l ++ [sep])

theorem image_cons (l : List α) (ls : List (List α)) : image sep (l :: ls) = l ++ sep :: image sep ls := by
  simp [image]

theorem image_append (ls ls' : List (List α)) : image sep (ls ++ ls') = image sep ls ++ image sep ls' := by
  simp [image]

/-- **A prefix of an image** is the image of the first records and a separator-free tail. -/
theorem prefix_image : ∀ {ls : List (List α)} {p : List α}, (∀ l ∈ ls, sep ∉ l) → p <+: image sep ls →
    ∃ j ≤ ls.length, ∃ tail, p = image sep (ls.take j) ++ tail ∧ sep ∉ tail
  | [], p, _, hp => ⟨0, Nat.le_refl 0, [], by simpa [image] using hp, by simp⟩
  | l :: ls, p, h, hp => by
    have hl : sep ∉ l := h l (.head _)
    rcases List.prefix_or_prefix_of_prefix hp (List.prefix_append (l ++ [sep]) _) with hshort | ⟨_, hrest⟩
    · rcases List.prefix_concat_iff.1 hshort with heq | hpre
      · exact ⟨1, by simp, [], by simp [heq, image], by simp⟩
      · exact ⟨0, Nat.zero_le _, p, by simp [image], fun hs => hl (hpre.subset hs)⟩
    · rw [← hrest] at hp
      obtain ⟨j, hj, tail, htail, hsep⟩ := prefix_image (fun l' hl' => h l' (.tail _ hl'))
        ((List.prefix_append_right_inj _).1 hp)
      refine ⟨j + 1, by simpa using hj, tail, ?_, hsep⟩
      rw [← hrest, htail, List.take_succ_cons, image_cons]
      simp

variable [DecidableEq α]

theorem exists_image (sep : α) : ∀ p : List α, ∃ ls tail, p = image sep ls ++ tail ∧ (∀ l ∈ ls, sep ∉ l) ∧ sep ∉ tail
  | [] => ⟨[], [], rfl, by simp, by simp⟩
  | a :: p => by
    obtain ⟨ls, tail, hp, hls, htail⟩ := exists_image sep p
    by_cases ha : a = sep
    · refine ⟨[] :: ls, tail, ?_, ?_, htail⟩
      · rw [image_cons, hp, ha]
        rfl
      · simpa using hls
    · cases ls with
      | nil =>
        refine ⟨[], a :: tail, ?_, by simp, ?_⟩
        · rw [hp]
          rfl
        · simpa [Ne.symm ha] using htail
      | cons l ls =>
        refine ⟨(a :: l) :: ls, tail, ?_, ?_, htail⟩
        · rw [hp, image_cons, image_cons]
          rfl
        · simpa [Ne.symm ha] using hls

theorem splitOn_image_append {tail : List α} (htail : sep ∉ tail) : ∀ {ls : List (List α)}, (∀ l ∈ ls, sep ∉ l) →
    (image sep ls ++ tail).splitOn sep = ls ++ [tail]
  | [], _ => List.splitOn_eq_singleton htail
  | l :: ls, h => by
    rw [image_cons, List.append_assoc, List.cons_append, List.splitOn_append_cons_self_of_not_mem (h l List.mem_cons_self),
      splitOn_image_append htail (fun l' hl' => h l' (.tail _ hl')), List.cons_append]

variable {ls : List (List α)}

theorem splitOn_image (h : ∀ l ∈ ls, sep ∉ l) : (image sep ls).splitOn sep = ls ++ [[]] := by
  have := splitOn_image_append (show sep ∉ ([] : List α) by simp) h
  rwa [List.append_nil] at this

theorem records_image (h : ∀ l ∈ ls, sep ∉ l) (hne : ∀ l ∈ ls, l ≠ []) :
    ((image sep ls).splitOn sep).filter (fun l => !l.isEmpty) = ls := by
  rw [splitOn_image h, List.filter_append]
  have hall : ls.filter (fun l => !l.isEmpty) = ls := List.filter_eq_self.2 (fun l hl => by simp [hne l hl])
  rw [hall]
  simp

theorem count_image : ∀ {ls : List (List α)}, (∀ l ∈ ls, sep ∉ l) → (image sep ls).count sep = ls.length
  | [], _ => rfl
  | l :: ls, h => by
    rw [image_cons, List.count_append, List.count_eq_zero.2 (h l List.mem_cons_self), List.count_cons_self,
      count_image (fun l' hl' => h l' (.tail _ hl')), List.length_cons]
    omega

end Iteron.Lines
