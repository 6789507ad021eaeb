import Mathlib.Algebra.Ring.Int.Defs
import Mathlib.Algebra.Order.BigOperators.Group.List
import Mathlib.Data.List.Perm.Subperm
import Mathlib.Data.List.Sort
/-!
# Running — running totals under a bound

A row of changes fits when no running total passes the bound.  Whether it fits does not depend on its order exactly when
no order fits or every choice of the changes does (`perm_fits_iff`).
-/
namespace Iteron.Running

variable {bound acc : Int} {ys : List Int}

def Fits (bound : Int) : Int → List Int → Prop
  | _, [] => True
  | acc, g :: gs => acc + g ≤ bound ∧ Fits bound (acc + g) gs

theorem fits_append : ∀ {xs : List Int} {acc : Int},
    Fits bound acc (xs ++ ys) ↔ Fits bound acc xs ∧ Fits bound (acc + xs.sum) ys
  | [], acc => by simp [Fits]
  | x :: xs, acc => by
    rw [List.cons_append, Fits, Fits, fits_append, List.sum_cons, and_assoc, Int.add_assoc]

theorem Fits.sum_le : ∀ {gs : List Int} {acc : Int}, Fits bound acc gs → gs ≠ [] → acc + gs.sum ≤ bound
  | [g], acc, h, _ => by simpa using h.1
  | g :: g' :: gs, acc, h, _ => by
    have := Fits.sum_le h.2 (List.cons_ne_nil g' gs)
    rwa [Int.add_assoc, ← List.sum_cons] at this

theorem fits_of_sorted : ∀ {gs : List Int} {g acc : Int}, (g :: gs).Pairwise (· ≤ ·) → acc + g ≤ bound →
    acc + (g :: gs).sum ≤ bound → Fits bound acc (g :: gs)
  | [], _, _, _, hfirst, _ => ⟨hfirst, trivial⟩
  | g' :: gs, g, acc, hsorted, hfirst, hlast => by
    have htail := hsorted.of_cons
    refine ⟨hfirst, fits_of_sorted htail ?_ ?_⟩
    · by_cases hneg : g' ≤ 0
      · omega
      · -- from here on every change is positive
        have hpos : 0 ≤ gs.sum := by
          refine List.sum_nonneg fun x hx => ?_
          have := List.rel_of_pairwise_cons htail hx
          omega
        simp only [List.sum_cons] at hlast
        omega
    · simp only [List.sum_cons] at hlast ⊢
      omega

section
variable {α : Type} {f : α → Int} {l ys : List α}

/-- The total of every choice of elements is within the bound. -/
def AllFit (bound acc : Int) (f : α → Int) (l : List α) : Prop :=
  ∀ xs, xs.Sublist l → xs ≠ [] → acc + (xs.map f).sum ≤ bound

theorem AllFit.fits : ∀ {l : List α} {acc : Int}, AllFit bound acc f l → Fits bound acc (l.map f)
  | [], _, _ => trivial
  | x :: l, acc, h => by
    refine ⟨?_, AllFit.fits fun xs hxs _ => ?_⟩
    · have := h [x] (List.singleton_sublist.2 (.head _)) (List.cons_ne_nil x [])
      simpa using this
    · have := h (x :: xs) (hxs.cons_cons x) (List.cons_ne_nil x xs)
      rwa [List.map_cons, List.sum_cons, ← Int.add_assoc] at this

theorem AllFit.perm (h : AllFit bound acc f l) (hp : ys.Perm l) : AllFit bound acc f ys := by
  intro xs hxs hne
  obtain ⟨zs, hperm, hsub⟩ := hxs.subperm.trans hp.subperm
  have hzs : zs ≠ [] := by
    rintro rfl
    exact hne hperm.symm.eq_nil
  rw [← (hperm.map f).sum_eq]
  exact h zs hsub hzs

theorem exists_perm_fits {x : α} (hsum : acc + (l.map f).sum ≤ bound) (hx : x ∈ l) (hfirst : acc + f x ≤ bound) :
    ∃ ys : List α, ys.Perm l ∧ Fits bound acc (ys.map f) := by
  have hperm := List.perm_insertionSort (fun a b => f a ≤ f b) l
  have hsorted := List.pairwise_insertionSort (fun a b => f a ≤ f b) l
  refine ⟨l.insertionSort (fun a b => f a ≤ f b), hperm, ?_⟩
  cases hs : l.insertionSort (fun a b => f a ≤ f b) with
  | nil => exact trivial
  | cons y ys =>
    rw [hs] at hperm hsorted
    rw [← (hperm.map f).sum_eq] at hsum
    refine fits_of_sorted (List.pairwise_map.2 hsorted) ?_ hsum
    have hmem := hperm.mem_iff.2 hx
    rw [List.mem_cons] at hmem
    obtain rfl | hmem := hmem
    · exact hfirst
    · have := List.rel_of_pairwise_cons hsorted hmem
      omega

/-- **Fitting does not depend on the order** exactly when no order fits, or every choice of the elements does. -/
theorem perm_fits_iff : (∀ ys : List α, ys.Perm l → (Fits bound acc (ys.map f) ↔ Fits bound acc (l.map f))) ↔
    (bound < acc + (l.map f).sum ∨ ∀ x ∈ l, bound < acc + f x) ∨ AllFit bound acc f l := by
  constructor
  · intro h
    by_contra hbad
    simp only [not_or, not_lt, not_forall] at hbad
    obtain ⟨⟨hsum, x, hx, hfirst⟩, hall⟩ := hbad
    obtain ⟨ys, hys, hfits⟩ := exists_perm_fits hsum hx hfirst
    refine hall fun xs hxs hne => ?_
    obtain ⟨_, hrest⟩ := hxs.exists_perm_append
    have hfits' := (h _ hrest.symm).2 ((h ys hys).1 hfits)
    rw [List.map_append, fits_append] at hfits'
    exact hfits'.1.sum_le (mt List.map_eq_nil_iff.1 hne)
  · rintro (hnone | hall) ys hys
    · have hempty (zs : List α) (hzs : zs.Perm l) (hfits : Fits bound acc (zs.map f)) : zs = [] := by
        by_contra hne
        obtain hsum | hfirst := hnone
        · have := hfits.sum_le (mt List.map_eq_nil_iff.1 hne)
          rw [(hzs.map f).sum_eq] at this
          omega
        · obtain ⟨z, zs, rfl⟩ := List.exists_cons_of_ne_nil hne
          have := hfirst z (hzs.mem_iff.1 (.head _))
          have := hfits.1
          omega
      constructor
      · intro hfits
        obtain rfl := hempty ys hys hfits
        rwa [hys.symm.eq_nil]
      · intro hfits
        obtain rfl := hempty l (List.Perm.refl l) hfits
        rw [hys.eq_nil]
        exact trivial
    · exact ⟨fun _ => hall.fits, fun _ => (hall.perm hys).fits⟩

end

end Iteron.Running
