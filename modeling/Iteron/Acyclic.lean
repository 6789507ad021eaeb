import Mathlib.Data.Fintype.EquivFin
import Mathlib.Order.WellFounded
/-!
# Acyclic — waiting without cycles

Over any type: an acyclic relation on a finite set has a last element (`Acyclic.exists_last`), and stays acyclic when a
fresh two-node path is hung into it whose exits do not lead back to its entries (`Acyclic.extend`).
-/
namespace Iteron

open Relation

variable {α : Type}

def Acyclic (r : α → α → Prop) : Prop := ∀ a, ¬ TransGen r a a

namespace Acyclic

theorem mono {r r' : α → α → Prop} (h : Acyclic r) (hle : ∀ a b, r' a b → r a b) : Acyclic r' := fun a ha =>
  h a (TransGen.mono hle _ _ ha)

theorem exists_last {r : α → α → Prop} (h : Acyclic r) {s : Finset α} (hs : s.Nonempty) :
    ∃ m ∈ s, ∀ b ∈ s, ¬ r m b := by
  have hirrefl : Std.Irrefl (fun (b a : s) => TransGen r a.1 b.1) := ⟨fun a ha => h a.1 ha⟩
  have hwf : WellFounded (fun (b a : s) => TransGen r a.1 b.1) := Finite.wellFounded_of_trans_of_irrefl _
  obtain ⟨a, ha⟩ := hs
  obtain ⟨m, -, hm⟩ := hwf.has_min Set.univ ⟨⟨a, ha⟩, trivial⟩
  exact ⟨m.1, m.2, fun b hb hr => hm ⟨b, hb⟩ trivial (.single hr)⟩

section Extend

variable {r r' : α → α → Prop} {n1 n2 : α} {entry exit : α → Prop}

/-- `r'` is `r` away from the nodes `n1` and `n2`, with entries into `n1`, one edge to `n2` and exits from `n2`. -/
structure Extends (r r' : α → α → Prop) (n1 n2 : α) (entry exit : α → Prop) : Prop where
  distinct : n1 ≠ n2
  edge : ∀ a b, r' a b → (a ≠ n1 ∧ a ≠ n2 ∧ b ≠ n1 ∧ b ≠ n2 ∧ r a b) ∨ (entry a ∧ b = n1) ∨ (a = n1 ∧ b = n2) ∨
    (a = n2 ∧ exit b)
  entry_old : ∀ a, entry a → a ≠ n1 ∧ a ≠ n2
  exit_old : ∀ b, exit b → b ≠ n1 ∧ b ≠ n2
  apart : ∀ b a, exit b → entry a → ¬ ReflTransGen r b a

/-- A path of `r'` from an old node stays in `r`, or has passed an entry. -/
theorem Extends.path (h : Extends r r' n1 n2 entry exit) {a x : α} (ha : a ≠ n1 ∧ a ≠ n2) (hp : TransGen r' a x) :
    (x ≠ n1 ∧ x ≠ n2 ∧ (TransGen r a x ∨ ∃ u b, entry u ∧ ReflTransGen r a u ∧ exit b ∧ ReflTransGen r b x)) ∨
    ((x = n1 ∨ x = n2) ∧ ∃ u, entry u ∧ ReflTransGen r a u) := by
  induction hp with
  | single hr =>
    rcases h.edge _ _ hr with ⟨-, -, hb, hb', hr⟩ | ⟨hu, rfl⟩ | ⟨rfl, -⟩ | ⟨rfl, -⟩
    · exact .inl ⟨hb, hb', .inl (.single hr)⟩
    · exact .inr ⟨.inl rfl, a, hu, .refl⟩
    · exact absurd rfl ha.1
    · exact absurd rfl ha.2
  | tail _ hr ih =>
    rcases h.edge _ _ hr with ⟨hx, _, hb, hb', hr⟩ | ⟨hu, rfl⟩ | ⟨rfl, rfl⟩ | ⟨rfl, he⟩
    · rcases ih with ⟨-, -, hpath | ⟨u, b, hu, hau, he, hbx⟩⟩ | ⟨hx | hx, -⟩
      · exact .inl ⟨hb, hb', .inl (hpath.tail hr)⟩
      · exact .inl ⟨hb, hb', .inr ⟨u, b, hu, hau, he, hbx.tail hr⟩⟩
      · exact absurd hx ‹_›
      · exact absurd hx ‹_›
    · rcases ih with ⟨-, -, hpath | ⟨u, b, -, -, he, hbx⟩⟩ | ⟨hx | hx, -⟩
      · exact .inr ⟨.inl rfl, _, hu, hpath.to_reflTransGen⟩
      · exact absurd hbx (h.apart b _ he hu)
      · exact absurd hx (h.entry_old _ hu).1
      · exact absurd hx (h.entry_old _ hu).2
    · rcases ih with ⟨hx, -⟩ | ⟨-, hu⟩
      · exact absurd rfl hx
      · exact .inr ⟨.inr rfl, hu⟩
    · rcases ih with ⟨-, hx, -⟩ | ⟨-, u, hu, hau⟩
      · exact absurd rfl hx
      · exact .inl ⟨(h.exit_old _ he).1, (h.exit_old _ he).2, .inr ⟨u, _, hu, hau, he, .refl⟩⟩

theorem Extends.not_back (h : Extends r r' n1 n2 entry exit) {b x : α} (hb : exit b) (hx : x = n1 ∨ x = n2) :
    ¬ ReflTransGen r' b x := by
  intro hp
  rcases reflTransGen_iff_eq_or_transGen.1 hp with rfl | hp
  · rcases hx with hx | hx
    · exact (h.exit_old _ hb).1 hx
    · exact (h.exit_old _ hb).2 hx
  · rcases h.path (h.exit_old b hb) hp with ⟨h1, h2, -⟩ | ⟨-, u, hu, hbu⟩
    · rcases hx with hx | hx
      · exact h1 hx
      · exact h2 hx
    · exact h.apart b u hb hu hbu

/-- **Acyclic with a fresh path hung in**, when no exit of the path leads back to an entry. -/
theorem extend (hacyc : Acyclic r) (h : Extends r r' n1 n2 entry exit) : Acyclic r' := by
  have hsecond : ∀ x, (x = n1 ∨ x = n2) → ¬ TransGen r' n2 x := by
    intro x hx hp
    obtain ⟨b, hr, hrest⟩ := TransGen.head'_iff.1 hp
    rcases h.edge _ _ hr with ⟨-, hne, -⟩ | ⟨he, -⟩ | ⟨heq, -⟩ | ⟨-, he⟩
    · exact hne rfl
    · exact (h.entry_old _ he).2 rfl
    · exact h.distinct heq.symm
    · exact h.not_back he hx hrest
  intro a ha
  by_cases h1 : a = n1
  · subst h1
    obtain ⟨b, hr, hrest⟩ := TransGen.head'_iff.1 ha
    rcases h.edge _ _ hr with ⟨hne, -⟩ | ⟨he, -⟩ | ⟨-, rfl⟩ | ⟨heq, -⟩
    · exact hne rfl
    · exact (h.entry_old _ he).1 rfl
    · rcases reflTransGen_iff_eq_or_transGen.1 hrest with heq | hrest
      · exact h.distinct heq
      · exact hsecond a (.inl rfl) hrest
    · exact h.distinct heq
  · by_cases h2 : a = n2
    · subst h2
      exact hsecond a (.inr rfl) ha
    · rcases h.path ⟨h1, h2⟩ ha with ⟨-, -, hpath | ⟨u, b, hu, hau, he, hba⟩⟩ | ⟨hx | hx, -⟩
      · exact hacyc a hpath
      · exact h.apart b u he hu (hba.trans hau)
      · exact h1 hx
      · exact h2 hx

end Extend

end Acyclic
end Iteron
