import Iteron.Machine
import Mathlib.Algebra.Ring.Nat
import Mathlib.Data.List.Basic
/-!
# PricingLedger — the exact charges of physical provider attempts

A charge is admitted once under the identity of its signed projection; the same identity with other evidence, or the
same projection under another identity, is refused.
-/
namespace Iteron.Pricing

open Machine (checkedAdd)

variable {I : Type} [DecidableEq I]

structure Charge (I : Type) where
  identity : I
  projectionDigest : String
  amountMicrousd : Nat
deriving DecidableEq

structure Ledger (I : Type) where
  identities : List (I × String) := []
  charges : List (Charge I) := []
  projectionDigests : List String := []
  amountMicrousd : Nat := 0
  unknown : Bool := false
deriving DecidableEq

def chargeCapacity : Nat := 65536

namespace Ledger

def find (l : Ledger I) (i : I) : Option (Charge I) := l.charges.find? (fun c => c.identity = i)

def containsExact (l : Ledger I) (c : Charge I) : Except String Bool :=
  match l.find c.identity with
  | some prior =>
    if prior.projectionDigest = c.projectionDigest ∧ prior.amountMicrousd = c.amountMicrousd then .ok true
    else .error "provider route identity conflicts with its exact physical charge"
  | none => .ok false

def markUnknown (l : Ledger I) : Ledger I := { l with unknown := true }

def record (l : Ledger I) (c : Charge I) (total : Nat) : Ledger I :=
  { l with
    charges := c :: l.charges.filter (fun d => d.identity ≠ c.identity)
    identities := (c.identity, c.projectionDigest) :: l.identities.filter (fun p => p.1 ≠ c.identity)
    amountMicrousd := total }

/-- `admit`: the ledger it leaves behind, and whether the charge is new. -/
def admitCharge (l : Ledger I) (c : Charge I) : Ledger I × Except String Bool :=
  if chargeCapacity ≤ l.charges.length ∧ (l.find c.identity).isNone then
    (l.markUnknown, .error "provider charge identity capacity exhausted")
  else
    match l.identities.lookup c.identity with
    | some existing =>
      if existing = c.projectionDigest then
        match l.containsExact c with
        | .error e => (l, .error e)
        | .ok true => (l, .ok false)
        | .ok false =>
          (l.markUnknown, .error "provider route charge identity was reused with different evidence")
      else (l.markUnknown, .error "provider route charge identity was reused with different evidence")
    | none =>
      if c.projectionDigest ∈ l.projectionDigests then
        (l.markUnknown, .error "provider route charge projection was reused for another attempt")
      else
        -- the digest stays in the set even when the total then overflows
        let l := { l with projectionDigests := c.projectionDigest :: l.projectionDigests }
        match checkedAdd l.amountMicrousd c.amountMicrousd with
        | none => (l.markUnknown, .error "provider route charge total overflowed")
        | some total => (l.record c total, .ok true)

variable {l : Ledger I} {c : Charge I}

theorem mem_of_containsExact (h : l.containsExact c = .ok true) : c ∈ l.charges := by
  unfold containsExact find at h
  split at h
  · rename_i prior hf
    split at h
    · have hid : prior.identity = c.identity := by simpa using List.find?_some hf
      have hprior : prior = c := by
        cases prior
        simp_all
      exact hprior ▸ List.mem_of_find?_eq_some hf
    · cases h
  · cases h

theorem fresh_of_containsExact (h : l.containsExact c = .ok false) : ∀ d ∈ l.charges, d.identity ≠ c.identity := by
  unfold containsExact find at h
  split at h
  · split at h <;> cases h
  · rename_i hf
    intro d hd
    simpa using List.find?_eq_none.1 hf d hd

/-- Each identity is charged once, and the ledger's total is the sum of its charges. -/
structure Balanced (l : Ledger I) : Prop where
  once : (l.charges.map Charge.identity).Nodup
  total : l.amountMicrousd = (l.charges.map Charge.amountMicrousd).sum

omit [DecidableEq I] in
theorem balanced_empty : Balanced ({} : Ledger I) := ⟨List.nodup_nil, rfl⟩

/-- **A charge the ledger does not contain is recorded or refused**: a refusal leaves the charges and their total. -/
theorem admitCharge_cases (hc : l.containsExact c = .ok false) :
    ((l.admitCharge c).2 = .ok true ∧ (l.admitCharge c).1.charges = c :: l.charges ∧
        checkedAdd l.amountMicrousd c.amountMicrousd = some (l.admitCharge c).1.amountMicrousd) ∨
      ((∃ e, (l.admitCharge c).2 = .error e) ∧ (l.admitCharge c).1.charges = l.charges ∧
        (l.admitCharge c).1.amountMicrousd = l.amountMicrousd) := by
  have hkeep : l.charges.filter (fun d => d.identity ≠ c.identity) = l.charges := by
    rw [List.filter_eq_self]
    intro d hd
    simpa using fresh_of_containsExact hc d hd
  unfold admitCharge
  split
  · exact .inr ⟨⟨_, rfl⟩, rfl, rfl⟩
  · split
    · rw [hc]
      split
      · exact .inr ⟨⟨_, rfl⟩, rfl, rfl⟩
      · exact .inr ⟨⟨_, rfl⟩, rfl, rfl⟩
    · split
      · exact .inr ⟨⟨_, rfl⟩, rfl, rfl⟩
      · dsimp only
        split
        · exact .inr ⟨⟨_, rfl⟩, rfl, rfl⟩
        · rename_i htotal
          refine .inl ⟨rfl, ?_, htotal⟩
          exact congrArg (c :: ·) hkeep

theorem Balanced.admitCharge (h : l.Balanced) (hc : l.containsExact c = .ok false) : (l.admitCharge c).1.Balanced := by
  rcases admitCharge_cases hc with ⟨-, hcharges, htotal⟩ | ⟨-, hcharges, htotal⟩
  · refine ⟨?_, ?_⟩
    · rw [hcharges, List.map_cons, List.nodup_cons]
      refine ⟨fun hin => ?_, h.once⟩
      obtain ⟨d, hd, hid⟩ := List.mem_map.1 hin
      exact fresh_of_containsExact hc d hd hid
    · rw [Machine.checkedAdd_eq_some htotal, hcharges, h.total, List.map_cons, List.sum_cons, Nat.add_comm]
  · exact ⟨hcharges ▸ h.once, by rw [htotal, hcharges, h.total]⟩

end Ledger

end Iteron.Pricing
