import Mathlib.Data.Set.Card
/-!
# Distinct — sorting, and dropping an element equal to the one before it

In a sorted list equal elements stand next to each other, so dropping every element equal to the one before it leaves each
element once (`length_distinct`).
-/
namespace Iteron.Distinct

variable {α : Type}

section
variable [DecidableEq α]

/-- `Vec::dedup`: of equal neighbours one is kept. -/
def dedup : List α → List α
  | a :: b :: l => if a = b then dedup (b :: l) else a :: dedup (b :: l)
  | l => l

theorem mem_dedup {x : α} : ∀ {l : List α}, x ∈ dedup l ↔ x ∈ l
  | [] => Iff.rfl
  | [a] => Iff.rfl
  | a :: b :: l => by
    have ih : x ∈ dedup (b :: l) ↔ x ∈ b :: l := mem_dedup
    rw [dedup]
    by_cases hab : a = b
    · rw [if_pos hab, ih, hab, List.mem_cons, List.mem_cons, List.mem_cons, ← or_assoc, or_self]
    · rw [if_neg hab, List.mem_cons, ih, ← List.mem_cons]

end

variable [LinearOrder α]

theorem dedup_strict : ∀ {l : List α}, l.Pairwise (· ≤ ·) → (dedup l).Pairwise (· < ·)
  | [], _ => .nil
  | [a], _ => List.pairwise_singleton _ a
  | a :: b :: l, h => by
    have ih := dedup_strict h.of_cons
    rw [dedup]
    by_cases hab : a = b
    · rwa [if_pos hab]
    · rw [if_neg hab, List.pairwise_cons]
      refine ⟨fun c hc => ?_, ih⟩
      have hb : a < b := lt_of_le_of_ne (List.rel_of_pairwise_cons h (.head _)) hab
      obtain rfl | hc := List.mem_cons.1 (mem_dedup.1 hc)
      · exact hb
      · exact hb.trans_le (List.rel_of_pairwise_cons h.of_cons hc)

/-- `sort` and then `dedup`. -/
def distinct (l : List α) : List α := dedup (l.insertionSort (· ≤ ·))

@[simp] theorem mem_distinct {x : α} {l : List α} : x ∈ distinct l ↔ x ∈ l := by
  rw [distinct, mem_dedup, (List.perm_insertionSort _ l).mem_iff]

theorem nodup_distinct (l : List α) : (distinct l).Nodup :=
  (dedup_strict (List.pairwise_insertionSort _ l)).imp ne_of_lt

theorem length_distinct (l : List α) : (distinct l).length = Set.ncard {x | x ∈ l} := by
  have hset : {x | x ∈ l} = ((distinct l).toFinset : Set α) := by simp
  rw [hset, Set.ncard_coe_finset, List.toFinset_card_of_nodup (nodup_distinct l)]

end Iteron.Distinct
