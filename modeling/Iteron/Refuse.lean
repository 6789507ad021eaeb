import Mathlib.Algebra.Ring.Nat
import Mathlib.Data.List.Forall2
/-!
# Refuse — sequences of checks that stop at the first refusal

A validation is a chain of checks in `Except`; that it accepted says of each check that it did.
-/
namespace Iteron.Refuse

variable {ε α β : Type}

def refuseIf (c : Prop) [Decidable c] (e : ε) : Except ε Unit := if c then .error e else .ok ()

variable {c : Prop}

@[simp] theorem refuseIf_eq_ok [Decidable c] {e : ε} {u : Unit} : refuseIf c e = .ok u ↔ ¬ c := by
  unfold refuseIf
  by_cases h : c
  · simp [h]
  · simp [h]

@[simp] theorem bind_eq_ok {x : Except ε α} {f : α → Except ε β} {b : β} :
    (x >>= f) = .ok b ↔ ∃ a, x = .ok a ∧ f a = .ok b := by
  cases x with
  | error e => simp [bind, Except.bind]
  | ok a => simp [bind, Except.bind]

@[simp] theorem pure_eq_ok {a b : α} : (pure a : Except ε α) = .ok b ↔ a = b := by
  simp [pure, Except.pure]

variable {e : ε}

theorem refuseIf_of_not [Decidable c] (h : ¬ c) : refuseIf c e = .ok () := refuseIf_eq_ok.2 h

variable {a : α} {f : α → Except ε β}

theorem ok_bind : (Except.ok a >>= f) = f a := rfl

variable {e' : ε}

theorem refuseIf_eq_error [Decidable c] : refuseIf c e = .error e' ↔ c ∧ e = e' := by
  unfold refuseIf
  by_cases h : c
  · simp [h]
  · simp [h]

theorem pure_ne_error : (pure a : Except ε α) ≠ .error e := by
  simp [pure, Except.pure]

variable {x : Except ε α}

theorem toOption_eq_some : x.toOption = some a ↔ x = .ok a := by
  cases x <;> simp [Except.toOption]

/-- Whatever the checks accept has the property. -/
def Ensures (x : Except ε α) (Q : α → Prop) : Prop := ∀ a, x = .ok a → Q a

theorem Ensures.bind {Q : β → Prop} (h : ∀ a, x = .ok a → Ensures (f a) Q) : Ensures (x >>= f) Q := by
  intro b hb
  obtain ⟨a, ha, hb⟩ := bind_eq_ok.1 hb
  exact h a ha b hb

theorem Ensures.pure {Q : α → Prop} (h : Q a) : Ensures (Pure.pure a : Except ε α) Q := by
  rintro b hb
  exact pure_eq_ok.1 hb ▸ h

theorem bind_eq_error : (x >>= f) = .error e ↔ x = .error e ∨ ∃ a, x = .ok a ∧ f a = .error e := by
  cases x with
  | error e => simp [bind, Except.bind]
  | ok a => simp [bind, Except.bind]

theorem forM_ok {f : α → Except ε Unit} : ∀ {l : List α} {u : Unit}, forM l f = .ok u → ∀ a ∈ l, f a = .ok ()
  | [], _, _, _, ha => by cases ha
  | b :: l, u, h, a, ha => by
    rw [List.forM_cons, bind_eq_ok] at h
    obtain ⟨_, hb, hl⟩ := h
    rcases List.mem_cons.1 ha with rfl | ha
    · exact hb
    · exact forM_ok hl a ha

theorem forM_of_ok {f : α → Except ε Unit} : ∀ {l : List α}, (∀ a ∈ l, f a = .ok ()) → forM l f = .ok ()
  | [], _ => rfl
  | b :: l, h => by
    rw [List.forM_cons, bind_eq_ok]
    exact ⟨(), h b (.head _), forM_of_ok (fun a ha => h a (.tail _ ha))⟩

theorem mapM_ok {f : α → Except ε β} : ∀ {l : List α} {bs : List β}, l.mapM f = .ok bs →
    List.Forall₂ (fun a b => f a = .ok b) l bs
  | [], bs, h => by
    rw [List.mapM_nil, pure_eq_ok] at h
    rw [← h]
    exact .nil
  | a :: l, bs, h => by
    rw [List.mapM_cons, bind_eq_ok] at h
    obtain ⟨b, hb, h⟩ := h
    rw [bind_eq_ok] at h
    obtain ⟨_, hbs, h⟩ := h
    rw [pure_eq_ok] at h
    rw [← h]
    exact .cons hb (mapM_ok hbs)

variable {l : List α}

theorem mem_mapM {bs : List β} (h : l.mapM f = .ok bs) (b : β) : b ∈ bs ↔ ∃ a ∈ l, f a = .ok b := by
  have hall := mapM_ok h
  clear h
  induction hall with
  | nil => simp
  | @cons a _ l bs hab _ ih =>
    simp only [List.mem_cons, ih, exists_eq_or_imp, hab, Except.ok.injEq]
    exact or_congr_left eq_comm

theorem exists_mapM {f : α → Except ε β} : ∀ {l : List α}, (∀ a ∈ l, ∃ b, f a = .ok b) → ∃ bs, l.mapM f = .ok bs
  | [], _ => ⟨[], rfl⟩
  | a :: l, h => by
    obtain ⟨b, hb⟩ := h a (.head _)
    obtain ⟨bs, hbs⟩ := exists_mapM (fun a ha => h a (.tail _ ha))
    refine ⟨b :: bs, ?_⟩
    rw [List.mapM_cons, bind_eq_ok]
    refine ⟨b, hb, ?_⟩
    rw [bind_eq_ok]
    exact ⟨bs, hbs, rfl⟩

theorem mapError_eq_ok {ε' : Type} {f : ε → ε'} : x.mapError f = .ok a ↔ x = .ok a := by
  cases x <;> simp [Except.mapError]

variable {σ : Type}

/-- A fold whose every step adds its weight to a measure adds the sum of the weights. -/
theorem foldlM_measure {f : σ → α → Except ε σ} (measure : σ → Nat) (weight : α → Nat)
    (h : ∀ s a s', f s a = .ok s' → measure s' = measure s + weight a) : ∀ {l : List α} {s s' : σ},
    l.foldlM f s = .ok s' → measure s' = measure s + (l.map weight).sum
  | [], s, s', hf => by
    rw [List.foldlM_nil, pure_eq_ok] at hf
    rw [hf, List.map_nil, List.sum_nil, Nat.add_zero]
  | a :: l, s, s', hf => by
    rw [List.foldlM_cons, bind_eq_ok] at hf
    obtain ⟨s1, hone, hrest⟩ := hf
    rw [foldlM_measure measure weight h hrest, h s a s1 hone, List.map_cons, List.sum_cons, Nat.add_assoc]

/-- A fold passes when each of its steps does what an accepted step did, on another view of the state. -/
theorem foldlM_view {τ : Type} {f : σ → α → Except ε σ} {g : τ → α → Except ε τ} (view : σ → τ)
    (h : ∀ s a s', f s a = .ok s' → g (view s) a = .ok (view s')) :
    ∀ {l : List α} {s s' : σ}, l.foldlM f s = .ok s' → l.foldlM g (view s) = .ok (view s')
  | [], s, s', hf => by
    cases hf
    rfl
  | a :: l, s, s', hf => by
    rw [List.foldlM_cons, bind_eq_ok] at hf ⊢
    obtain ⟨s1, hone, hrest⟩ := hf
    exact ⟨view s1, h s a s1 hone, foldlM_view view h hrest⟩

theorem foldlM_mono {f g : σ → α → Except ε σ} (h : ∀ s a s', f s a = .ok s' → g s a = .ok s') {s s' : σ}
    (hf : l.foldlM f s = .ok s') : l.foldlM g s = .ok s' := foldlM_view id h hf

theorem foldlM_mem {f : σ → α → Except ε σ} : ∀ {l : List α} {s s' : σ}, l.foldlM f s = .ok s' →
    ∀ a ∈ l, ∃ s1 s2, f s1 a = .ok s2
  | [], _, _, _, _, ha => by cases ha
  | b :: l, s, s', hf, a, ha => by
    rw [List.foldlM_cons, bind_eq_ok] at hf
    obtain ⟨s1, hone, hrest⟩ := hf
    rcases List.mem_cons.1 ha with rfl | ha
    · exact ⟨s, s1, hone⟩
    · exact foldlM_mem hrest a ha

variable {bound : Nat}

/-- A fold passes when every step does from a state that the steps before it keep. -/
theorem foldlM_progress {f : σ → α → Except ε σ} (I : Nat → σ → Prop) : ∀ {l : List α} {n : Nat} {s : σ},
    (∀ n s, ∀ a ∈ l, n < bound → I n s → ∃ s', f s a = .ok s' ∧ I (n + 1) s') → n + l.length ≤ bound → I n s →
    ∃ s', l.foldlM f s = .ok s' ∧ I (n + l.length) s'
  | [], n, s, _, _, hs => ⟨s, rfl, hs⟩
  | a :: l, n, s, h, hle, hs => by
    rw [List.length_cons] at hle ⊢
    obtain ⟨s1, hone, hs1⟩ := h n s a (.head _) (by omega) hs
    obtain ⟨s', hrest, hs'⟩ := foldlM_progress I (fun n s a ha => h n s a (.tail _ ha))
      (by omega : n + 1 + l.length ≤ bound) hs1
    refine ⟨s', ?_, ?_⟩
    · rw [List.foldlM_cons, bind_eq_ok]
      exact ⟨s1, hone, hrest⟩
    · rw [show n + (l.length + 1) = n + 1 + l.length by omega]
      exact hs'

/-! ## Refusals that do not occur -/

theorem bind_ne_error (hx : x ≠ .error e) (hf : ∀ a, x = .ok a → f a ≠ .error e) : (x >>= f) ≠ .error e := by
  intro h
  rcases bind_eq_error.1 h with herror | ⟨a, ha, herror⟩
  · exact hx herror
  · exact hf a ha herror

theorem refuseIf_ne_error [Decidable c] (h : e ≠ e') : refuseIf c e ≠ .error e' :=
  fun herror => h (refuseIf_eq_error.1 herror).2

theorem forM_ne_error {f : α → Except ε Unit} {e : ε} : ∀ {l : List α}, (∀ a ∈ l, f a ≠ .error e) → forM l f ≠ .error e
  | [], _ => by
    exact pure_ne_error
  | a :: l, h => by
    exact bind_ne_error (h a (.head _)) (fun _ _ => forM_ne_error (fun b hb => h b (.tail _ hb)))

theorem foldlM_ne_error {f : σ → α → Except ε σ} {e : ε} (I : Nat → σ → Prop) : ∀ {l : List α} {n : Nat} {s : σ},
    (∀ n s, ∀ a ∈ l, n < bound → I n s → f s a ≠ .error e ∧ ∀ s', f s a = .ok s' → I (n + 1) s') →
    n + l.length ≤ bound → I n s → l.foldlM f s ≠ .error e ∧ ∀ s', l.foldlM f s = .ok s' → I (n + l.length) s'
  | [], n, s, _, _, hs => by
    rw [List.foldlM_nil]
    refine ⟨pure_ne_error, fun s' hs' => ?_⟩
    rw [pure_eq_ok] at hs'
    exact hs' ▸ hs
  | a :: l, n, s, h, hle, hs => by
    rw [List.length_cons] at hle ⊢
    obtain ⟨hone, hnext⟩ := h n s a (.head _) (by omega) hs
    have hrest : ∀ s1, f s a = .ok s1 → l.foldlM f s1 ≠ .error e ∧ ∀ s', l.foldlM f s1 = .ok s' → I (n + 1 + l.length) s' :=
      fun s1 hs1 => foldlM_ne_error I (fun n s a ha => h n s a (.tail _ ha)) (by omega) (hnext s1 hs1)
    rw [List.foldlM_cons]
    refine ⟨bind_ne_error hone (fun s1 hs1 => (hrest s1 hs1).1), fun s' hs' => ?_⟩
    rw [bind_eq_ok] at hs'
    obtain ⟨s1, hs1, hs'⟩ := hs'
    rw [show n + (l.length + 1) = n + 1 + l.length by omega]
    exact (hrest s1 hs1).2 s' hs'

end Iteron.Refuse
