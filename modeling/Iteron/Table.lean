import Mathlib.Algebra.BigOperators.Group.Finset.Basic
import Mathlib.Algebra.Ring.Nat
/-!
# Table — ordered maps read by key and in key order

`Std.ExtTreeMap` under a lawful comparator is the ordered map of the standard library the program uses: equal maps
answer every key alike, and `toList` is the iteration in key order.  These are the facts the developments below need
beyond the library's own.
-/
namespace Iteron.Table

variable {α β : Type} {cmp : α → α → Ordering} [Std.TransCmp cmp]

def vals (t : Std.ExtTreeMap α β cmp) : List β := t.toList.map Prod.snd

theorem contains_eq_false (t : Std.ExtTreeMap α β cmp) (k : α) : t.contains k = false ↔ t[k]? = none := by
  rw [← Std.ExtTreeMap.isSome_getElem?_eq_contains, Option.isSome_eq_false_iff, Option.isNone_iff_eq_none]

def weight (f : β → ℕ) (t : Std.ExtTreeMap α β cmp) (k : α) : ℕ := (t[k]?.map f).getD 0

def total (f : β → ℕ) (t : Std.ExtTreeMap α β cmp) : ℕ := ((vals t).map f).sum

theorem weight_of_get {f : β → ℕ} {t : Std.ExtTreeMap α β cmp} {k : α} {v : β} (h : t[k]? = some v) :
    weight f t k = f v := by
  rw [weight, h, Option.map_some, Option.getD_some]

variable [Std.LawfulEqCmp cmp]

theorem get_insert [DecidableEq α] (t : Std.ExtTreeMap α β cmp) (k a : α) (v : β) :
    (t.insert k v)[a]? = if k = a then some v else t[a]? := by
  rw [Std.ExtTreeMap.getElem?_insert]
  simp only [Std.LawfulEqCmp.compare_eq_iff_eq]

theorem insert_eq_some [DecidableEq α] {t : Std.ExtTreeMap α β cmp} {k a : α} {v w : β}
    (h : (t.insert k v)[a]? = some w) : (k = a ∧ w = v) ∨ (k ≠ a ∧ t[a]? = some w) := by
  rw [get_insert] at h
  by_cases hk : k = a
  · rw [if_pos hk] at h
    exact .inl ⟨hk, (Option.some.inj h).symm⟩
  · rw [if_neg hk] at h
    exact .inr ⟨hk, h⟩

theorem get_map {γ : Type} (t : Std.ExtTreeMap α β cmp) (f : α → β → γ) (a : α) :
    (t.map f)[a]? = (t[a]?).map (f a) := by
  rw [Std.ExtTreeMap.getElem?_map]

theorem mem_toList (t : Std.ExtTreeMap α β cmp) (k : α) (v : β) : (k, v) ∈ t.toList ↔ t[k]? = some v :=
  Std.ExtTreeMap.mem_toList_iff_getElem?_eq_some

theorem mem_vals (t : Std.ExtTreeMap α β cmp) (v : β) : v ∈ vals t ↔ ∃ k : α, t[k]? = some v := by
  simp only [vals, List.mem_map, Prod.exists, Std.ExtTreeMap.mem_toList_iff_getElem?_eq_some, exists_eq_right]

def keys [DecidableEq α] (t : Std.ExtTreeMap α β cmp) : Finset α := t.keys.toFinset

theorem mem_keys [DecidableEq α] (t : Std.ExtTreeMap α β cmp) (k : α) : k ∈ keys t ↔ ∃ v, t[k]? = some v := by
  rw [keys, List.mem_toFinset, Std.ExtTreeMap.mem_keys, Std.ExtTreeMap.mem_iff_isSome_getElem?, Option.isSome_iff_exists]

section

variable (t : Std.ExtTreeMap α β cmp)

theorem keys_insert [DecidableEq α] (k : α) (v : β) : keys (t.insert k v) = insert k (keys t) := by
  ext a
  rw [mem_keys, Finset.mem_insert, mem_keys, get_insert]
  by_cases h : k = a
  · simp [h]
  · simp [h, Ne.symm h]

theorem sum_vals [DecidableEq α] (p : β → Bool) (f : β → ℕ) :
    (((vals t).filter p).map f).sum = ∑ k ∈ keys t with (t[k]?.any p) = true, (t[k]?.map f).getD 0 := by
  have hnodup : t.keys.Nodup := Std.ExtTreeMap.nodup_keys
  rw [keys, ← List.toFinset_filter, List.sum_toFinset _ (hnodup.filter _)]
  have hkeys : t.keys = t.toList.map Prod.fst := Std.ExtTreeMap.map_fst_toList_eq_keys.symm
  rw [hkeys, vals, List.filter_map, List.filter_map, List.map_map, List.map_map]
  have hget : ∀ q ∈ t.toList, t[q.1]? = some q.2 := fun q hq => (mem_toList t q.1 q.2).1 hq
  have hfilter : t.toList.filter (p ∘ Prod.snd) = t.toList.filter ((fun k => t[k]?.any p) ∘ Prod.fst) := by
    refine List.filter_congr (fun q hq => ?_)
    simp [hget q hq]
  rw [hfilter]
  refine congrArg List.sum (List.map_congr_left (fun q hq => ?_))
  simp [hget q (List.mem_of_mem_filter hq)]

theorem get_erase [DecidableEq α] (k a : α) : (t.erase k)[a]? = if k = a then none else t[a]? := by
  rw [Std.ExtTreeMap.getElem?_erase]
  simp only [Std.LawfulEqCmp.compare_eq_iff_eq]

theorem insert_insert [DecidableEq α] (k : α) (v w : β) : (t.insert k v).insert k w = t.insert k w := by
  refine Std.ExtTreeMap.ext_getElem? (fun a => ?_)
  rw [get_insert, get_insert, get_insert]
  split
  · rfl
  · rfl

theorem insert_erase [DecidableEq α] (k : α) (v : β) : (t.erase k).insert k v = t.insert k v := by
  refine Std.ExtTreeMap.ext_getElem? (fun a => ?_)
  rw [get_insert, get_insert, get_erase]
  split
  · rfl
  · rfl

end

/-! ## Totals -/

section

variable (f : β → ℕ) (t : Std.ExtTreeMap α β cmp)

theorem total_eq_sum [DecidableEq α] : total f t = ∑ k ∈ keys t, weight f t k := by
  have hall : (vals t).filter (fun _ => true) = vals t := List.filter_eq_self.2 (fun _ _ => rfl)
  rw [total, ← hall, sum_vals]
  refine Finset.sum_congr ?_ (fun k _ => rfl)
  ext k
  rw [Finset.mem_filter, mem_keys]
  constructor
  · exact fun h => h.1
  · rintro ⟨v, hv⟩
    exact ⟨⟨v, hv⟩, by simp [hv]⟩

theorem total_split [DecidableEq α] (k : α) : total f t = weight f t k + ∑ a ∈ (keys t).erase k, weight f t a := by
  rw [total_eq_sum]
  by_cases hk : k ∈ keys t
  · exact (Finset.add_sum_erase _ _ hk).symm
  · have hnone : t[k]? = none := by
      cases hget : t[k]? with
      | none => rfl
      | some v => exact absurd ((mem_keys t k).2 ⟨v, hget⟩) hk
    rw [Finset.erase_eq_of_notMem hk, weight, hnone, Option.map_none, Option.getD_none, Nat.zero_add]

theorem total_insert [DecidableEq α] (k : α) (v : β) : total f (t.insert k v) + weight f t k = total f t + f v := by
  have hnew : weight f (t.insert k v) k = f v := weight_of_get (by rw [get_insert, if_pos rfl])
  have hrest : ∑ a ∈ (keys t).erase k, weight f (t.insert k v) a = ∑ a ∈ (keys t).erase k, weight f t a := by
    refine Finset.sum_congr rfl (fun a ha => ?_)
    rw [weight, get_insert, if_neg (Finset.ne_of_mem_erase ha).symm, weight]
  have hsplit := total_split f t k
  rw [total_split f (t.insert k v) k, keys_insert, Finset.erase_insert_eq_erase, hnew, hrest]
  omega

theorem total_erase [DecidableEq α] (k : α) : total f (t.erase k) + weight f t k = total f t := by
  have hnone : weight f (t.erase k) k = 0 := by
    rw [weight, get_erase, if_pos rfl, Option.map_none, Option.getD_none]
  have hkeys : (keys (t.erase k)).erase k = (keys t).erase k := by
    ext a
    rw [Finset.mem_erase, Finset.mem_erase, mem_keys, mem_keys, get_erase]
    by_cases ha : k = a
    · simp [ha]
    · simp [ha]
  have hrest : ∑ a ∈ (keys t).erase k, weight f (t.erase k) a = ∑ a ∈ (keys t).erase k, weight f t a := by
    refine Finset.sum_congr rfl (fun a ha => ?_)
    rw [weight, get_erase, if_neg (Finset.ne_of_mem_erase ha).symm, weight]
  have hsplit := total_split f t k
  rw [total_split f (t.erase k) k, hkeys, hnone, hrest]
  omega

end

section Group

variable [DecidableEq α]

def group (l : List (α × β)) : Std.ExtTreeMap α (List β) cmp :=
  l.foldl (fun t p => t.insert p.1 ((t[p.1]?).getD [] ++ [p.2])) ∅

def valuesAt (l : List (α × β)) (k : α) : List β := (l.filter (fun p => p.1 = k)).map Prod.snd

theorem get_group (l : List (α × β)) (k : α) :
    (group l : Std.ExtTreeMap α (List β) cmp)[k]? = if valuesAt l k = [] then none else some (valuesAt l k) := by
  suffices h : ∀ (l : List (α × β)) (t : Std.ExtTreeMap α (List β) cmp) (seen : List β),
      t[k]? = (if seen = [] then none else some seen) →
      (l.foldl (fun t p => t.insert p.1 ((t[p.1]?).getD [] ++ [p.2])) t)[k]? =
        if seen ++ valuesAt l k = [] then none else some (seen ++ valuesAt l k) by
    simpa [group] using h l ∅ [] (by simp)
  intro l
  induction l with
  | nil => simp [valuesAt]
  | cons p l ih =>
    intro t seen ht
    rw [List.foldl_cons]
    by_cases hp : p.1 = k
    · have hvalues : valuesAt (p :: l) k = p.2 :: valuesAt l k := by
        rw [valuesAt, List.filter_cons_of_pos (by simp [hp])]
        rfl
      have hold : (t[p.1]?).getD [] = seen := by
        rw [hp, ht]
        by_cases hs : seen = []
        · simp [hs]
        · simp [hs]
      rw [ih _ (seen ++ [p.2]), hvalues]
      · simp
      · rw [get_insert, if_pos hp, hold]
        simp
    · have hvalues : valuesAt (p :: l) k = valuesAt l k := by
        rw [valuesAt, List.filter_cons_of_neg (by simp [hp])]
        rfl
      rw [ih _ seen, hvalues]
      rw [get_insert, if_neg hp, ht]

end Group

end Iteron.Table
