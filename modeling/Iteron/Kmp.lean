import Mathlib.Data.List.Infix
/-!
# Kmp — scanning for a pattern with a table of its borders

The scan keeps the length of the longest prefix of the pattern that ends the text read so far.  A table holds, for each
prefix of the pattern, its longest proper border, and one step of the scan falls back along it (`longest_advance`); the
table itself is built by the same step (`tableOk_prefixTable`).
-/
namespace Iteron.Kmp

variable {α : Type} {p t : List α} {x : α} {k n : Nat} {table : List Nat}

/-- The longest prefix of the pattern, of those with at most `n` elements, that ends the text. -/
def Longest (p : List α) (n : Nat) (t : List α) (k : Nat) : Prop :=
  k ≤ n ∧ p.take k <:+ t ∧ ∀ j ≤ n, p.take j <:+ t → j ≤ k

/-- The first entries of the table are the longest proper borders of the prefixes. -/
def TableOk (p : List α) (table : List Nat) (n : Nat) : Prop :=
  ∀ i < n, ∃ k, table[i]? = some k ∧ Longest p i (p.take (i + 1)) k

theorem TableOk.mono {m : Nat} (h : TableOk p table n) (hm : m ≤ n) : TableOk p table m := by
  intro i hi
  exact h i (Nat.lt_of_lt_of_le hi hm)

theorem take_succ_suffix_iff (hk : k < p.length) : p.take (k + 1) <:+ t ++ [x] ↔ p.take k <:+ t ∧ p[k]? = some x := by
  have htake : p.take (k + 1) = p.take k ++ [p[k]] := (List.take_concat_get' p k hk).symm
  have hget : p[k]? = some p[k] := List.getElem?_eq_getElem hk
  rw [htake, hget, Option.some.injEq]
  constructor
  · rintro ⟨s, hs⟩
    rw [← List.append_assoc] at hs
    obtain ⟨hst, hx⟩ := List.append_inj' hs rfl
    exact ⟨⟨s, hst⟩, (List.cons.inj hx).1⟩
  · rintro ⟨⟨s, hs⟩, hx⟩
    exact ⟨s, by rw [← hs, hx, List.append_assoc]⟩

theorem tableOk_append {m : Nat} (h : TableOk p table n) (hlen : table.length = n)
    (hm : Longest p n (p.take (n + 1)) m) : TableOk p (table ++ [m]) (n + 1) := by
  intro i hi
  by_cases hin : i < n
  · obtain ⟨k, hk, hlongest⟩ := h i hin
    refine ⟨k, ?_, hlongest⟩
    rw [List.getElem?_append_left (by omega), hk]
  · obtain rfl : i = n := by omega
    refine ⟨m, ?_, hm⟩
    rw [List.getElem?_append_right (by omega), hlen]
    simp

theorem longest_fallback (hp : p ≠ []) (htable : TableOk p table p.length) (hfull : p <:+ t)
    (h : Longest p p.length t k) : Longest p (p.length - 1) t (table.getD (k - 1) 0) := by
  obtain ⟨hk, _, hmax⟩ := h
  have hlen : 0 < p.length := List.length_pos_of_ne_nil hp
  obtain rfl : k = p.length := Nat.le_antisymm hk (hmax p.length (Nat.le_refl _) (by simpa using hfull))
  obtain ⟨b, hb, hble, hbsuffix, hbmax⟩ := htable (p.length - 1) (by omega)
  have hk1 : p.length - 1 + 1 = p.length := by omega
  rw [hk1, List.take_length] at hbsuffix hbmax
  rw [List.getD_eq_getElem?_getD, hb]
  refine ⟨hble, hbsuffix.trans hfull, fun j hj hjt => hbmax j hj ?_⟩
  exact List.suffix_of_suffix_length_le hjt hfull (by rw [List.length_take]; omega)

variable [DecidableEq α]

/-- The loop that falls back along the table until the next element fits. -/
def descend (p : List α) (table : List Nat) (x : α) : Nat → Nat → Nat
  | 0, k => k
  | fuel + 1, k => if 0 < k ∧ p[k]? ≠ some x then descend p table x fuel (table.getD (k - 1) 0) else k

def advance (p : List α) (table : List Nat) (x : α) (k : Nat) : Nat :=
  if p[descend p table x k k]? = some x then descend p table x k k + 1 else descend p table x k k

/-- The table of longest proper borders, built from the front. -/
def prefixTable (p : List α) : List Nat :=
  match p with
  | [] => []
  | _ :: rest =>
    (rest.foldl (fun s x => (s.1 ++ [advance p s.1 x s.2], advance p s.1 x s.2)) ([0], 0)).1

/-- Falling back finds the longest border that the element continues, if there is one. -/
theorem descend_spec : ∀ {fuel k : Nat}, k ≤ fuel → TableOk p table k → p.take k <:+ t →
    descend p table x fuel k ≤ k ∧ p.take (descend p table x fuel k) <:+ t ∧
      (descend p table x fuel k = 0 ∨ p[descend p table x fuel k]? = some x) ∧
      ∀ j ≤ k, p.take j <:+ t → p[j]? = some x → j ≤ descend p table x fuel k
  | 0, k, hk, _, ht => by
    obtain rfl : k = 0 := Nat.le_zero.1 hk
    exact ⟨Nat.le_refl 0, ht, .inl rfl, fun j hj _ _ => hj⟩
  | fuel + 1, k, hk, htable, ht => by
    rw [descend]
    split
    · rename_i hback
      obtain ⟨_, hx⟩ := hback
      obtain ⟨b, hb, _, hbsuffix, hbmax⟩ := htable (k - 1) (by omega)
      have hk1 : k - 1 + 1 = k := by omega
      rw [hk1] at hbsuffix hbmax
      have hget : table.getD (k - 1) 0 = b := by rw [List.getD_eq_getElem?_getD, hb]; rfl
      rw [hget]
      obtain ⟨_, hsuffix, hfit, hmax⟩ :=
        descend_spec (show b ≤ fuel by omega) (htable.mono (by omega)) (hbsuffix.trans ht)
      refine ⟨by omega, hsuffix, hfit, fun j hj hjt hjx => ?_⟩
      have hne : j ≠ k := by
        rintro rfl
        exact hx hjx
      refine hmax j (hbmax j (by omega) ?_) hjt hjx
      refine List.suffix_of_suffix_length_le hjt ht ?_
      rw [List.length_take, List.length_take]
      omega
    · rename_i hstop
      refine ⟨Nat.le_refl k, ht, ?_, fun j hj _ _ => hj⟩
      rw [not_and_or, Nat.not_lt, Nat.le_zero, not_not] at hstop
      exact hstop

theorem longest_advance (h : Longest p n t k) (hn : n < p.length) (htable : TableOk p table k) :
    Longest p (n + 1) (t ++ [x]) (advance p table x k) := by
  obtain ⟨_, hsuffix, hmax⟩ := h
  obtain ⟨_, hdsuffix, hfit, hdmax⟩ := descend_spec (x := x) (Nat.le_refl k) htable hsuffix
  have hcand (j : Nat) (hj : j ≤ n + 1) (hjt : p.take j <:+ t ++ [x]) :
      j = 0 ∨ ∃ i, j = i + 1 ∧ i ≤ descend p table x k k ∧ p[i]? = some x := by
    cases j with
    | zero => exact .inl rfl
    | succ i =>
      obtain ⟨hit, hix⟩ := (take_succ_suffix_iff (by omega)).1 hjt
      exact .inr ⟨i, rfl, hdmax i (hmax i (by omega) hit) hit hix, hix⟩
  rw [advance]
  split <;> rename_i hx
  · refine ⟨by omega, (take_succ_suffix_iff (by omega)).2 ⟨hdsuffix, hx⟩, fun j hj hjt => ?_⟩
    obtain rfl | ⟨i, rfl, hi, -⟩ := hcand j hj hjt
    · exact Nat.zero_le _
    · omega
  · have hzero : descend p table x k k = 0 := hfit.resolve_right hx
    refine ⟨by omega, by simp [hzero], fun j hj hjt => ?_⟩
    obtain rfl | ⟨i, rfl, hi, hix⟩ := hcand j hj hjt
    · exact Nat.zero_le _
    · rw [hzero, Nat.le_zero] at hi
      rw [hzero] at hx
      cases hx (hi ▸ hix)

theorem tableOk_prefixTable (p : List α) : TableOk p (prefixTable p) p.length := by
  cases p with
  | nil =>
    intro i hi
    cases hi
  | cons a rest =>
    -- the invariant of the loop: the table is right for what was read, and its last entry is kept
    have hloop : ∀ (todo seen : List α) (table : List Nat) (k : Nat), a :: rest = a :: (seen ++ todo) →
        table.length = seen.length + 1 → TableOk (a :: rest) table (seen.length + 1) →
        Longest (a :: rest) seen.length (a :: seen) k →
        TableOk (a :: rest)
          (todo.foldl (fun s x => (s.1 ++ [advance (a :: rest) s.1 x s.2], advance (a :: rest) s.1 x s.2)) (table, k)).1
          (a :: rest).length := by
      intro todo
      induction todo with
      | nil =>
        intro seen table k hp _ htable _
        rw [List.append_nil] at hp
        rw [hp]
        rw [hp] at htable
        exact htable
      | cons x todo ih =>
        intro seen table k hp hlen htable hk
        have hstep : Longest (a :: rest) (seen.length + 1) ((a :: seen) ++ [x]) (advance (a :: rest) table x k) := by
          refine longest_advance hk ?_ (htable.mono (Nat.le_succ_of_le hk.1))
          rw [hp, List.length_cons, List.length_append]
          omega
        have hp' : a :: rest = ((a :: seen) ++ [x]) ++ todo := by
          rw [hp]
          simp
        have htake : (a :: rest).take (seen.length + 1 + 1) = (a :: seen) ++ [x] := by
          rw [hp', List.take_left' (by simp)]
        have hseen : (seen ++ [x]).length = seen.length + 1 := by simp
        have htable' := tableOk_append htable hlen (by rw [htake]; exact hstep)
        refine ih (seen ++ [x]) _ _ (by simpa using hp') (by rw [hseen, List.length_append, hlen]; rfl) ?_ ?_
        · rw [hseen]
          exact htable'
        · rw [hseen]
          exact hstep
    refine hloop rest [] [0] 0 rfl rfl ?_ ⟨Nat.le_refl 0, by simp, fun j hj _ => hj⟩
    intro i hi
    obtain rfl : i = 0 := by simpa using hi
    exact ⟨0, rfl, Nat.le_refl 0, by simp, fun j hj _ => hj⟩

end Iteron.Kmp
