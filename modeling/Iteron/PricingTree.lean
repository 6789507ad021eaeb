import Iteron.PricingNode
/-!
# PricingTree — the invariant of the whole tree

Lineages to the root, the invariant over all nodes, and that a node step keeps it when its agent knows enough of the
node and of its parent.
-/
namespace Iteron.Pricing

set_option linter.unusedSectionVars false

variable {N A I : Type} [DecidableEq N] [DecidableEq A] [DecidableEq I]

namespace Tree

variable (t : Tree N)

variable {x : N}

theorem lineage_root (h : t.parent x = none) : t.lineage x = [x] := by
  simp [lineage, t.depth_root x h, lineageFrom]

theorem lineage_child {p : N} (h : t.parent x = some p) : t.lineage x = x :: t.lineage p := by
  rw [lineage, t.depth_child x p h]
  simp only [lineageFrom, h]
  rfl

/-- Induction from the root down. -/
theorem root_induction {P : N → Prop} (root : ∀ x, t.parent x = none → P x)
    (child : ∀ x p, t.parent x = some p → P p → P x) (x : N) : P x := by
  induction hn : t.depth x generalizing x with
  | zero =>
    cases hp : t.parent x with
    | none => exact root x hp
    | some p => exact absurd (t.depth_child x p hp) (by omega)
  | succ n ih =>
    cases hp : t.parent x with
    | none => exact root x hp
    | some p => exact child x p hp (ih p (by have := t.depth_child x p hp; omega))

theorem depth_le_of_mem {y : N} (h : y ∈ t.lineage x) : t.depth y ≤ t.depth x := by
  induction x using t.root_induction with
  | root x hp =>
    rw [t.lineage_root hp, List.mem_singleton] at h
    rw [h]
  | child x p hp ih =>
    rw [t.lineage_child hp, List.mem_cons] at h
    have hd := t.depth_child x p hp
    rcases h with rfl | h
    · exact Nat.le_refl _
    · exact Nat.le_trans (ih h) (by omega)

/-- A path from a node to the root: what the calls recurse over. -/
def Path : List N → Prop
  | [] => True
  | [x] => t.parent x = none
  | x :: p :: up => t.parent x = some p ∧ Path (p :: up)

theorem path_lineage (x : N) : t.Path (t.lineage x) := by
  induction x using t.root_induction with
  | root x hp =>
    rw [t.lineage_root hp]
    exact hp
  | child x p hp hup =>
    rw [t.lineage_child hp]
    cases hq : t.parent p with
    | none =>
      rw [t.lineage_root hq] at hup ⊢
      exact ⟨hp, hup⟩
    | some q =>
      rw [t.lineage_child hq] at hup ⊢
      exact ⟨hp, hup⟩

variable {t}

theorem Path.up {x : N} {up : List N} (h : t.Path (x :: up)) : t.Path up := by
  cases up with
  | nil => trivial
  | cons p up => exact h.2

theorem Path.parent {x : N} {up : List N} (h : t.Path (x :: up)) : t.parent x = up.head? := by
  cases up with
  | nil => exact h
  | cons p up => exact h.1

theorem Path.eq_lineage {up : List N} (h : t.Path (x :: up)) : x :: up = t.lineage x := by
  induction up generalizing x with
  | nil => exact (t.lineage_root h).symm
  | cons p up ih => rw [t.lineage_child h.1, ih h.2]

theorem Path.fresh {up : List N} (h : t.Path (x :: up)) : x ∉ up := by
  cases up with
  | nil => exact List.not_mem_nil
  | cons p up =>
    intro hx
    rw [h.2.eq_lineage] at hx
    have := t.depth_le_of_mem hx
    have := t.depth_child x p h.1
    omega

end Tree

/-! ## The invariant -/

/-- **The invariant of the tree**: of each node, and that a charge or an unknown cost is the parent's as well. -/
structure Sound (t : Tree N) (created : N → Nat) (s : N → Node A I) : Prop where
  node : ∀ x, NodeOk (created x) (s x)
  charges : ∀ x p, t.parent x = some p → ∀ c ∈ (s x).routeCharges.charges, c ∈ (s p).routeCharges.charges
  unknown : ∀ x p, t.parent x = some p → (s x).unknown = true → (s p).unknown = true

def Relies (a : A) (s s' : N → Node A I) : Prop := ∀ x, Kept a (s x) (s' x)

/-- What agent `a` promises: what the others rely on, and to make no reservation on a node of unknown cost. -/
structure Promises (a : A) (s s' : N → Node A I) : Prop where
  others : ∀ b, b ≠ a → Relies b s s'
  unknown : ∀ x, (s x).unknown = true → (s' x).unknown = true
  passed : ∀ x, (s x).unknown = true → a ∈ (s' x).passed → a ∈ (s x).passed

def Sanctioned (t : Tree N) (created : N → Nat) (a : A) (s : N → Node A I) (op : N × Op I) : Prop :=
  Ready (created op.1) a (s op.1) op.2 ∧ (op.2 = .storeUnknown → ∀ p, t.parent op.1 = some p → (s p).unknown = true) ∧
    ∀ c, op.2 = .closeCharge c → ∀ p, t.parent op.1 = some p → c ∈ (s p).routeCharges.charges

variable {created : N → Nat} {a : A} {s s' : N → Node A I} {op : N × Op I}

theorem Sanctioned.of_relies {t : Tree N}
    (h : Sanctioned t created a s op) (hs : Relies a s s') : Sanctioned t created a s' op :=
  ⟨h.1.of_kept (hs _), fun hop p hp => (hs p).unknown (h.2.1 hop p hp),
    fun c hop p hp => (hs p).charges c (h.2.2 c hop p hp)⟩

variable {r : op.2.Reply}

theorem exec_eq_some (h : exec a s op = some (s', r)) :
    ∃ n, (s op.1).exec a op.2 = some (n, r) ∧ s' = Function.update s op.1 n := by
  obtain ⟨q, hq, heq⟩ := Option.map_eq_some_iff.1 h
  cases heq
  exact ⟨q.1, hq, rfl⟩

theorem exec_elsewhere (h : exec a s op = some (s', r)) {y : N} (hy : y ≠ op.1) : s' y = s y := by
  obtain ⟨n, -, rfl⟩ := exec_eq_some h
  exact Function.update_of_ne hy n s

theorem exec_here (hn : NodeOk (created op.1) (s op.1)) (hr : Ready (created op.1) a (s op.1) op.2)
    (h : exec a s op = some (s', r)) : Effect (created op.1) a op.2 (s op.1) (s' op.1) := by
  obtain ⟨n, hn', rfl⟩ := exec_eq_some h
  rw [Function.update_self]
  exact exec_effect hn hr hn'

/-- **A sanctioned step keeps the invariant of the tree and its agent's promise.** -/
theorem exec_sound {t : Tree N} (hs : Sound t created s) (hop : Sanctioned t created a s op)
    (h : exec a s op = some (s', r)) : Sound t created s' ∧ Promises a s s' := by
  have he := exec_here (hs.node _) hop.1 h
  -- what a node knew of its charges and its cost it still knows
  have hcharges : ∀ y, ∀ c ∈ (s y).routeCharges.charges, c ∈ (s' y).routeCharges.charges := by
    intro y c hc
    by_cases hy : y = op.1
    · subst hy
      exact he.charges c hc
    · rw [exec_elsewhere h hy]
      exact hc
  have hunknown : ∀ y, (s y).unknown = true → (s' y).unknown = true := by
    intro y hu
    by_cases hy : y = op.1
    · subst hy
      exact he.unknown hu
    · rw [exec_elsewhere h hy]
      exact hu
  refine ⟨⟨fun y => ?_, fun x p hp c hc => ?_, fun x p hp hu => ?_⟩, ⟨fun b hb y => ?_, hunknown, fun y hu ha => ?_⟩⟩
  · by_cases hy : y = op.1
    · subst hy
      exact he.ok
    · rw [exec_elsewhere h hy]
      exact hs.node y
  · apply hcharges
    by_cases hx : x = op.1
    · subst hx
      rcases he.charged c hc with hold | hnew
      · exact hs.charges _ p hp c hold
      · exact hop.2.2 c hnew p hp
    · rw [exec_elsewhere h hx] at hc
      exact hs.charges x p hp c hc
  · apply hunknown
    by_cases hx : x = op.1
    · subst hx
      rcases he.marked hu with hold | hnew
      · exact hs.unknown _ p hp hold
      · exact hop.2.1 hnew p hp
    · rw [exec_elsewhere h hx] at hu
      exact hs.unknown x p hp hu
  · by_cases hy : y = op.1
    · subst hy
      exact he.kept b hb
    · rw [exec_elsewhere h hy]
      exact Kept.refl b _
  · by_cases hy : y = op.1
    · subst hy
      exact (he.reserved ha).resolve_right (by simp [hu])
    · rw [exec_elsewhere h hy] at ha
      exact ha

end Iteron.Pricing
