import Mathlib.Algebra.BigOperators.Group.Finset.Piecewise
import Mathlib.Algebra.Order.BigOperators.Group.Finset
/-!
# Reservation — spending under nested reservations

Members of a finite set may name an owner and hold a budget; a member's children reserve theirs from it.  If what each
member spends and what its children reserve fit its budget, then all of them together spend no more than the budgets
held from outside the set (`spent_le_tops`): every inner budget is counted once as held and once as reserved.
-/
namespace Iteron.Reservation

variable {K : Type} [DecidableEq K]

/-- What the members of `s` hold from `owner`. -/
def held (s : Finset K) (parent : K → Option K) (budget : K → ℕ) (owner : Option K) : ℕ :=
  ∑ k ∈ s with parent k = owner, budget k

variable {s : Finset K} {parent : K → Option K}

theorem held_congr {parent' : K → Option K} {budget budget' : K → ℕ}
    (hp : ∀ k ∈ s, parent' k = parent k) (hb : ∀ k ∈ s, budget' k = budget k) (owner : Option K) :
    held s parent' budget' owner = held s parent budget owner := by
  unfold held
  rw [Finset.filter_congr (fun k hk => by rw [hp k hk])]
  exact Finset.sum_congr rfl (fun k hk => hb k (Finset.mem_filter.1 hk).1)

theorem held_insert {k : K} (hk : k ∉ s) (parent : K → Option K) (budget : K → ℕ) (owner : Option K) :
    held (insert k s) parent budget owner = held s parent budget owner + if parent k = owner then budget k else 0 := by
  unfold held
  rw [Finset.sum_filter, Finset.sum_filter, Finset.sum_insert hk, Nat.add_comm]

theorem held_eq_zero {owner : Option K} (h : ∀ k ∈ s, parent k ≠ owner)
    (budget : K → ℕ) : held s parent budget owner = 0 := by
  unfold held
  rw [Finset.filter_false_of_mem h, Finset.sum_empty]

theorem sum_held (s : Finset K) (parent : K → Option K) (budget : K → ℕ) :
    ∑ k ∈ s, held s parent budget (some k) = ∑ c ∈ s with ∃ p ∈ s, parent c = some p, budget c := by
  unfold held
  simp only [Finset.sum_filter]
  rw [Finset.sum_comm]
  refine Finset.sum_congr rfl (fun c _ => ?_)
  cases hp : parent c with
  | none => simp
  | some p =>
    simp only [Option.some.injEq]
    rw [Finset.sum_ite_eq]
    by_cases hs : p ∈ s
    · rw [if_pos hs, if_pos ⟨p, hs, rfl⟩]
    · rw [if_neg hs, if_neg]
      rintro ⟨q, hq, rfl⟩
      exact hs hq

/-- **Nested reservations conserve**: the members spend at most what the outermost of them hold. -/
theorem spent_le_tops {budget spent : K → ℕ} (h : ∀ k ∈ s, spent k + held s parent budget (some k) ≤ budget k) :
    ∑ k ∈ s, spent k ≤ ∑ k ∈ s with ¬ ∃ p ∈ s, parent k = some p, budget k := by
  have hsum : ∑ k ∈ s, (spent k + held s parent budget (some k)) ≤ ∑ k ∈ s, budget k := Finset.sum_le_sum h
  rw [Finset.sum_add_distrib, sum_held] at hsum
  have hsplit := Finset.sum_filter_add_sum_filter_not s (fun c => ∃ p ∈ s, parent c = some p) budget
  omega

end Iteron.Reservation
