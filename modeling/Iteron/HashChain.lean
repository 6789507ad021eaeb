import Mathlib.Data.List.Chain
/-!
# HashChain — entries that name the hash of the one before

Over any type of entries with a hash and the hash of a predecessor.  A chain is a list each of whose entries names the
hash of the entry in front of it, and one hash fixes everything up to it.
-/
namespace Iteron.HashChain

variable {α H : Type} {prev hash : α → H} {as bs : List α} {i : Nat} {a b : α}

theorem prev_eq (h : as.IsChain (fun a b => prev b = hash a)) (ha : as[i]? = some a) (hb : as[i + 1]? = some b) :
    prev b = hash a := by
  obtain ⟨hi, rfl⟩ := List.getElem?_eq_some_iff.1 hb
  obtain ⟨_, rfl⟩ := List.getElem?_eq_some_iff.1 ha
  exact List.isChain_iff_getElem.1 h i hi

/-- **Two chains that hold the same hash at some place are the same up to it**, unless two different entries have one
hash. -/
theorem take_eq (has : as.IsChain (fun a b => prev b = hash a)) (hbs : bs.IsChain (fun a b => prev b = hash a))
    (hfree : ∀ a ∈ as, ∀ b ∈ bs, hash a = hash b → a = b) (ha : as[i]? = some a) (hb : bs[i]? = some b)
    (hhash : hash a = hash b) : as.take (i + 1) = bs.take (i + 1) := by
  induction i generalizing a b with
  | zero =>
    obtain rfl := hfree a (List.mem_of_getElem? ha) b (List.mem_of_getElem? hb) hhash
    rw [List.take_add_one, List.take_add_one, ha, hb, List.take_zero, List.take_zero]
  | succ i ih =>
    obtain rfl := hfree a (List.mem_of_getElem? ha) b (List.mem_of_getElem? hb) hhash
    obtain ⟨hi, -⟩ := List.getElem?_eq_some_iff.1 ha
    obtain ⟨hj, -⟩ := List.getElem?_eq_some_iff.1 hb
    have ha' := List.getElem?_eq_getElem (Nat.lt_of_succ_lt hi)
    have hb' := List.getElem?_eq_getElem (Nat.lt_of_succ_lt hj)
    have hsame := ih ha' hb' ((prev_eq has ha' ha).symm.trans (prev_eq hbs hb' hb))
    rw [List.take_add_one, hsame, ha, ← hb, ← List.take_add_one]

end Iteron.HashChain
