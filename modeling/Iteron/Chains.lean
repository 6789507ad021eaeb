import Iteron.Acyclic
import Mathlib.Data.List.Chain
/-!
# Chains — how long the chains of a relation get

Over any type: `Deepest r p a n` says that `n` is the length of the longest chain from `a` whose second element, if it
has one, satisfies `p`.  It is what a topological sort knows of a node some of whose successors are sorted already.
`Sorted` is the order it leaves behind, and `Sorted.acyclic` what that order is good for.
-/
namespace Iteron

open Relation

variable {α : Type} {r : α → α → Prop} {p : α → Prop} {a b : α} {m n : ℕ}

structure Deepest (r : α → α → Prop) (p : α → Prop) (a : α) (n : ℕ) : Prop where
  reached : ∃ l : List α, (a :: l).IsChain r ∧ (∀ b ∈ l.head?, p b) ∧ (a :: l).length = n
  bound : ∀ l : List α, (a :: l).IsChain r → (∀ b ∈ l.head?, p b) → (a :: l).length ≤ n

namespace Deepest

theorem none (h : ∀ b, r a b → ¬ p b) : Deepest r p a 1 where
  reached := ⟨[], by simp, by simp, rfl⟩
  bound l hc hp := by
    cases l with
    | nil => rfl
    | cons b l =>
      have hab : r a b := (List.isChain_cons_cons.1 hc).1
      cases h b hab (hp b rfl)

theorem congr {q : α → Prop} (h : Deepest r p a n) (hpq : ∀ b, r a b → (p b ↔ q b)) : Deepest r q a n := by
  have hhead : ∀ l : List α, (a :: l).IsChain r → ((∀ b ∈ l.head?, p b) ↔ ∀ b ∈ l.head?, q b) := by
    intro l hc
    cases l with
    | nil => simp
    | cons b l => simpa using hpq b (List.isChain_cons_cons.1 hc).1
  obtain ⟨l, hc, hp, hl⟩ := h.reached
  exact ⟨⟨l, hc, (hhead l hc).1 hp, hl⟩, fun l hc hq => h.bound l hc ((hhead l hc).2 hq)⟩

/-- One more successor is admitted: the chain through it is one longer than its own. -/
theorem insert (h : Deepest r p a n) (hab : r a b) (hb : Deepest r (fun _ => True) b m) :
    Deepest r (fun c => c = b ∨ p c) a (max n (m + 1)) where
  reached := by
    obtain ⟨l, hc, hp, hl⟩ := h.reached
    obtain ⟨l', hc', -, hl'⟩ := hb.reached
    rcases le_total n (m + 1) with hle | hle
    · refine ⟨b :: l', List.isChain_cons_cons.2 ⟨hab, hc'⟩, by simp, ?_⟩
      rw [max_eq_right hle, List.length_cons, hl']
    · exact ⟨l, hc, fun c hc => .inr (hp c hc), by rw [max_eq_left hle, hl]⟩
  bound l hc hp := by
    cases l with
    | nil => exact (h.bound [] hc (by simp)).trans (le_max_left _ _)
    | cons c l =>
      obtain ⟨-, hc'⟩ := List.isChain_cons_cons.1 hc
      rcases hp c rfl with rfl | hpc
      · have := hb.bound l hc' (by simp)
        simp only [List.length_cons] at this ⊢
        omega
      · exact (h.bound _ hc (by simpa using hpc)).trans (le_max_left _ _)

end Deepest

/-- Each element after those it is related to, the latest first. -/
inductive Sorted (r : α → α → Prop) : List α → Prop where
  | nil : Sorted r []
  | cons {a : α} {l : List α} : a ∉ l → (∀ b, r a b → b ∈ l) → Sorted r l → Sorted r (a :: l)

namespace Sorted

variable {l : List α}

theorem nodup (h : Sorted r l) : l.Nodup := by
  induction h with
  | nil => exact List.nodup_nil
  | cons ha _ _ ih => exact List.nodup_cons.2 ⟨ha, ih⟩

theorem closed (h : Sorted r l) (ha : a ∈ l) (hab : TransGen r a b) : b ∈ l := by
  have step : ∀ {l : List α}, Sorted r l → ∀ {x y}, x ∈ l → r x y → y ∈ l := by
    intro l h
    induction h with
    | nil => intro x y hx; simp at hx
    | cons _ hout _ ih =>
      intro x y hx hxy
      rcases List.mem_cons.1 hx with rfl | hx
      · exact .tail _ (hout y hxy)
      · exact .tail _ (ih hx hxy)
  induction hab with
  | single hab => exact step h ha hab
  | tail _ hbc ih => exact step h ih hbc

theorem irrefl (h : Sorted r l) (ha : a ∈ l) : ¬ TransGen r a a := by
  induction h with
  | nil => simp at ha
  | @cons x l hx hout hl ih =>
    intro hcycle
    rcases List.mem_cons.1 ha with rfl | ha
    · -- the cycle leaves through an earlier element and cannot come back
      obtain ⟨y, hxy, hyx⟩ := TransGen.head'_iff.1 hcycle
      rcases reflTransGen_iff_eq_or_transGen.1 hyx with rfl | hyx
      · exact hx (hout _ hxy)
      · exact hx (hl.closed (hout y hxy) hyx)
    · exact ih ha hcycle

/-- **A relation all of whose sources are sorted has no cycle.** -/
theorem acyclic (h : Sorted r l) (hall : ∀ a b, r a b → a ∈ l) : Acyclic r := by
  intro a hcycle
  obtain ⟨b, hab, -⟩ := TransGen.head'_iff.1 hcycle
  exact h.irrefl (hall a b hab) hcycle

end Sorted

end Iteron
