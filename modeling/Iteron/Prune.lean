import Mathlib.Data.List.Basic
import Mathlib.Data.Set.Basic
/-!
# Prune — dropping what is not supported until everything is

A list is filtered by a test that may look at the whole list, again and again until the test passes for all.  When a longer
list never fails a test that a shorter one passes, what remains is the greatest set whose members pass it.
-/
namespace Iteron.Prune

variable {α : Type} {ok : List α → α → Bool}

def prune (ok : List α → α → Bool) : Nat → List α → List α
  | 0, l => l
  | n + 1, l => if l.all (ok l) then l else prune ok n (l.filter (ok l))

theorem mem_of_mem_prune : ∀ {n : Nat} {l : List α} {a : α}, a ∈ prune ok n l → a ∈ l
  | 0, _, _, h => h
  | n + 1, l, a, h => by
    rw [prune] at h
    split at h
    · exact h
    · exact (List.mem_filter.1 (mem_of_mem_prune h)).1

/-- A round that drops nothing is the last one, so as many rounds as elements are enough. -/
theorem all_prune : ∀ {n : Nat} {l : List α}, l.length ≤ n → ∀ a ∈ prune ok n l, ok (prune ok n l) a = true
  | 0, l, h, a, ha => by
    rw [prune, List.eq_nil_of_length_eq_zero (Nat.le_zero.1 h)] at ha
    cases ha
  | n + 1, l, h, a, ha => by
    rw [prune] at ha ⊢
    split at ha
    next hall =>
      rw [if_pos hall]
      exact List.all_eq_true.1 hall a ha
    next hall =>
      rw [if_neg hall]
      refine all_prune ?_ a ha
      have hlt : (l.filter (ok l)).length < l.length := by
        refine Nat.lt_of_le_of_ne (List.length_filter_le _ _) (fun heq => hall ?_)
        exact List.all_eq_true.2 (List.length_filter_eq_length_iff.1 heq)
      omega

/-- A set whose members pass against every list that holds it survives; `P` is what the lists met on the way satisfy. -/
theorem subset_prune {s : Set α} {P : List α → Prop} (hP : ∀ l : List α, P l → P (l.filter (ok l)))
    (hs : ∀ l : List α, P l → (∀ a ∈ s, a ∈ l) → ∀ a ∈ s, ok l a = true) :
    ∀ {n : Nat} {l : List α}, P l → (∀ a ∈ s, a ∈ l) → ∀ a ∈ s, a ∈ prune ok n l
  | 0, _, _, hl, a, ha => hl a ha
  | n + 1, l, hPl, hl, a, ha => by
    rw [prune]
    split
    · exact hl a ha
    · exact subset_prune hP hs (hP l hPl) (fun b hb => List.mem_filter.2 ⟨hl b hb, hs l hPl hl b hb⟩) a ha

end Iteron.Prune
