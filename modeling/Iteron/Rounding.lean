import Mathlib.Algebra.BigOperators.Group.List.Basic
import Mathlib.Algebra.Ring.Nat
/-!
# Rounding — sums of amounts that are rounded up one by one

An amount in parts of a unit is rounded up to whole units.  Rounding the parts of a sum one by one costs at most one
unit more for each part after the first that is not empty.
-/
namespace Iteron.Rounding

variable {m a b : Nat}

/-- The amount in whole units of `m` parts, rounded up. -/
def up (m n : Nat) : Nat := (n + (m - 1)) / m

theorem up_mono (h : a ≤ b) : up m a ≤ up m b := Nat.div_le_div_right (Nat.add_le_add_right h _)

theorem up_zero (hm : 0 < m) : up m 0 = 0 := by
  unfold up
  rw [Nat.zero_add]
  exact Nat.div_eq_of_lt (Nat.sub_lt hm Nat.one_pos)

theorem up_le_iff (hm : 0 < m) : up m a ≤ b ↔ a ≤ b * m := by
  unfold up
  rw [Nat.div_le_iff_le_mul_add_pred hm, Nat.mul_comm m b]
  omega

theorem le_up_mul (hm : 0 < m) : a ≤ up m a * m := (up_le_iff hm).1 (Nat.le_refl _)

theorem up_mul_lt (hm : 0 < m) : up m a * m < a + m := by
  have h : up m a * m ≤ a + (m - 1) := Nat.div_mul_le_self _ _
  omega

theorem up_add_up_le (hm : 0 < m) : up m a + up m b ≤ up m (a + b) + 1 := by
  by_contra hlt
  have h : (up m (a + b) + 2) * m ≤ (up m a + up m b) * m := Nat.mul_le_mul_right m (by omega)
  have ha : up m a * m < a + m := up_mul_lt hm
  have hb : up m b * m < b + m := up_mul_lt hm
  have hab : a + b ≤ up m (a + b) * m := le_up_mul hm
  rw [Nat.add_mul, Nat.add_mul] at h
  omega

/-- **Parts rounded up one by one** cost at most one unit more than their sum for each part after the first that is not
empty. -/
theorem sum_up_le (hm : 0 < m) : ∀ l : List Nat, (l.map (up m)).sum ≤ up m l.sum + (l.countP (0 < ·) - 1)
  | [] => Nat.zero_le _
  | n :: l => by
    have ih : (l.map (up m)).sum ≤ up m l.sum + (l.countP (0 < ·) - 1) := sum_up_le hm l
    rw [List.map_cons, List.sum_cons, List.sum_cons, List.countP_cons]
    by_cases hn : 0 < n
    · rw [if_pos (decide_eq_true hn)]
      by_cases hl : l.countP (0 < ·) = 0
      · -- the rest is empty, and costs nothing
        have hsum : l.sum = 0 := by
          refine List.sum_eq_zero (fun x hx => ?_)
          simpa using List.countP_eq_zero.1 hl x hx
        rw [hsum, up_zero hm] at ih
        rw [hsum, Nat.add_zero]
        omega
      · have := up_add_up_le (m := m) (a := n) (b := l.sum) hm
        omega
    · rw [if_neg (by simpa using hn)]
      obtain rfl : n = 0 := by omega
      rw [up_zero hm, Nat.zero_add, Nat.zero_add, Nat.add_zero]
      exact ih

end Iteron.Rounding
