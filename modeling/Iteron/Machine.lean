import Mathlib.Logic.Basic
/-!
# Machine — unsigned machine arithmetic over natural numbers

A `u32` or `u64` is a natural number below its bound, and each addition says what it does when the sum is not.
-/
namespace Iteron.Machine

def u32Max : Nat := 4294967295

def u64Max : Nat := 18446744073709551615

def checkedAdd32 (a b : Nat) : Option Nat := if a + b ≤ u32Max then some (a + b) else none

def checkedAdd (a b : Nat) : Option Nat := if a + b ≤ u64Max then some (a + b) else none

def checkedSub (a b : Nat) : Option Nat := if b ≤ a then some (a - b) else none

def saturatingAdd (a b : Nat) : Nat := min (a + b) u64Max

/-- `AtomicU64::fetch_add`, which wraps. -/
def wrappingAdd (a b : Nat) : Nat := (a + b) % (u64Max + 1)

theorem checkedAdd32_eq_some {a b c : Nat} (h : checkedAdd32 a b = some c) : c = a + b := by
  unfold checkedAdd32 at h
  split at h
  · exact (Option.some.inj h).symm
  · cases h

theorem checkedAdd_eq_some {a b c : Nat} (h : checkedAdd a b = some c) : c = a + b := by
  unfold checkedAdd at h
  split at h
  · exact (Option.some.inj h).symm
  · cases h

end Iteron.Machine
