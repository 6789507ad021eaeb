import Mathlib.Tactic.Common
/-!
# Interleave — programs of atomic steps over a shared state

A thread runs a program whose atomic operations another thread may come between.  `Safe` is its weakest precondition
under interference: each operation finds a state the others may have moved to, keeps the shared invariant and does
only what the thread guarantees.  `Follows` is a discipline of what the thread holds, whatever it is answered, and `Ends`
the weakest precondition for a program that is never blocked.
-/
namespace Iteron.Interleave

/-- A program over the operations `Op`, each with its own type of answer. -/
inductive Prog (Op : Type) (Reply : Op → Type) (α : Type) where
  | ret (v : α)
  | step (op : Op) (k : Reply op → Prog Op Reply α)

namespace Prog

variable {Op : Type} {Reply : Op → Type} {α β : Type}

def bind (f : α → Prog Op Reply β) : Prog Op Reply α → Prog Op Reply β
  | .ret v => f v
  | .step op k => .step op (fun r => bind f (k r))

instance : Monad (Prog Op Reply) where
  pure v := .ret v
  bind p f := p.bind f

def act (op : Op) : Prog Op Reply (Reply op) := .step op .ret

/-- Every operation the program may perform satisfies `P`. -/
def All (P : Op → Prop) : Prog Op Reply α → Prop
  | .ret _ => True
  | .step op k => P op ∧ ∀ r, All P (k r)

variable {P : Op → Prop}

theorem All.bind {f : α → Prog Op Reply β} {p : Prog Op Reply α} (hp : p.All P) (hf : ∀ v, (f v).All P) :
    (p >>= f).All P := by
  induction p with
  | ret v => exact hf v
  | step _ k ih => exact ⟨hp.1, fun r => ih r (hp.2 r)⟩

theorem all_act {op : Op} (h : P op) : (act op : Prog Op Reply (Reply op)).All P :=
  ⟨h, fun _ => trivial⟩

end Prog

/-- What a thread relies on: how it executes an operation (`none` while it is blocked), the invariant of the shared
state, what the others may do to it and what the thread promises them. -/
structure Rules (S Op : Type) (Reply : Op → Type) where
  exec : S → (op : Op) → Option (S × Reply op)
  inv : S → Prop
  rely : S → S → Prop
  guar : S → S → Prop
  rely_refl : ∀ s, rely s s
  rely_trans : ∀ {s t u}, rely s t → rely t u → rely s u

variable {S Op : Type} {Reply : Op → Type} {α β : Type} (T : Rules S Op Reply)

/-- From `s` on, however the others interfere, the program keeps the invariant and the promise, and ends in `Q`. -/
def Safe (Q : α → S → Prop) : Prog Op Reply α → S → Prop
  | .ret v, s => Q v s
  | .step op k, s => ∀ s1, T.rely s s1 → T.inv s1 → ∀ s2 r, T.exec s1 op = some (s2, r) →
      T.inv s2 ∧ T.guar s1 s2 ∧ Safe Q (k r) s2

variable {T}

variable {Q : α → S → Prop} {p : Prog Op Reply α} {s : S}

theorem Safe.of_rely (hQ : ∀ v s t, Q v s → T.rely s t → Q v t) {t : S}
    (h : Safe T Q p s) (hst : T.rely s t) : Safe T Q p t := by
  cases p with
  | ret v => exact hQ v s t h hst
  | step _ k => exact fun s1 h1 => h s1 (T.rely_trans hst h1)

theorem Safe.mono {Q' : α → S → Prop} (h : Safe T Q p s) (hQ : ∀ v t, Q v t → Q' v t) : Safe T Q' p s := by
  induction p generalizing s with
  | ret v => exact hQ v s h
  | step _ k ih =>
    intro s1 hr hi s2 r hx
    obtain ⟨hi2, hg, hk⟩ := h s1 hr hi s2 r hx
    exact ⟨hi2, hg, ih r hk⟩

variable {Q' : β → S → Prop} {f : α → Prog Op Reply β}

theorem Safe.bind (h : Safe T Q p s) (hf : ∀ v t, Q v t → Safe T Q' (f v) t) : Safe T Q' (p >>= f) s := by
  induction p generalizing s with
  | ret v => exact hf v s h
  | step _ k ih =>
    intro s1 hr hi s2 r hx
    obtain ⟨hi2, hg, hk⟩ := h s1 hr hi s2 r hx
    exact ⟨hi2, hg, ih r hk⟩

variable {R : S → S → Prop}

/-- A relation that interference and each of the program's operations respect holds from its start to its end. -/
theorem Safe.frame (hrely : ∀ s t, T.rely s t → R s t) (htrans : ∀ {s t u}, R s t → R t u → R s u) {P : Op → Prop}
    (hop : ∀ op, P op → ∀ s t r, T.inv s → T.exec s op = some (t, r) → R s t) (hp : p.All P) (h : Safe T Q p s) :
    Safe T (fun v t => Q v t ∧ R s t) p s := by
  induction p generalizing s with
  | ret v => exact ⟨h, hrely s s (T.rely_refl s)⟩
  | step op k ih =>
    intro s1 hr hi s2 r hx
    obtain ⟨hi2, hg, hk⟩ := h s1 hr hi s2 r hx
    refine ⟨hi2, hg, (ih r (hp.2 r) hk).mono fun v t ht => ⟨ht.1, ?_⟩⟩
    exact htrans (hrely s s1 hr) (htrans (hop op hp.1 s1 s2 r hi hx) ht.2)

/-! ## What a thread holds -/

/-- What an operation needs of what its thread holds, and what the thread holds once it was answered. -/
structure Discipline (H Op : Type) (Reply : Op → Type) where
  need : H → Op → Prop
  next : H → (op : Op) → Reply op → H

section

variable {H : Type} (D : Discipline H Op Reply)

/-- Whatever the answers are, the program has what each of its operations needs, and ends in `Q`. -/
def Follows (Q : α → H → Prop) : Prog Op Reply α → H → Prop
  | .ret v, h => Q v h
  | .step op k, h => D.need h op ∧ ∀ r, Follows Q (k r) (D.next h op r)

variable {D}

variable {h : H}

theorem Follows.mono {Q Q' : α → H → Prop} {p : Prog Op Reply α} (hp : Follows D Q p h)
    (hQ : ∀ v h', Q v h' → Q' v h') : Follows D Q' p h := by
  induction p generalizing h with
  | ret v => exact hQ v h hp
  | step _ k ih => exact ⟨hp.1, fun r => ih r (hp.2 r)⟩

theorem Follows.bind {Q : α → H → Prop} {Q' : β → H → Prop} {p : Prog Op Reply α} {f : α → Prog Op Reply β}
    (hp : Follows D Q p h) (hf : ∀ v h', Q v h' → Follows D Q' (f v) h') : Follows D Q' (p >>= f) h := by
  induction p generalizing h with
  | ret v => exact hf v h hp
  | step _ k ih => exact ⟨hp.1, fun r => ih r (hp.2 r)⟩

theorem follows_act {op : Op} {Q : Reply op → H → Prop} (hneed : D.need h op)
    (hQ : ∀ r, Q r (D.next h op r)) : Follows D Q (Prog.act op) h := ⟨hneed, hQ⟩

end

/-! ## Programs that end -/

variable (T)

/-- From `s` on, however the others interfere, the program is never blocked and ends in `Q` after at most so many
operations. -/
def Ends (Q : α → S → Prop) : Nat → Prog Op Reply α → S → Prop
  | _, .ret v, s => Q v s
  | 0, .step _ _, _ => False
  | n + 1, .step op k, s => ∀ s1, T.rely s s1 → T.inv s1 → ∃ s2 r, T.exec s1 op = some (s2, r) ∧ Ends Q n (k r) s2

variable {T}

variable {n : Nat}

theorem ends_ret {v : α} : Ends T Q n (.ret v) s ↔ Q v s := by
  cases n <;> exact Iff.rfl

theorem Ends.of_rely (hQ : ∀ v s t, Q v s → T.rely s t → Q v t)
    {t : S} (h : Ends T Q n p s) (hst : T.rely s t) : Ends T Q n p t := by
  cases p with
  | ret v => exact ends_ret.2 (hQ v s t (ends_ret.1 h) hst)
  | step _ k =>
    cases n with
    | zero => exact h
    | succ n => exact fun s1 h1 => h s1 (T.rely_trans hst h1)

variable {m : Nat}

theorem Ends.mono {Q' : α → S → Prop} (h : Ends T Q n p s) (hnm : n ≤ m) (hQ : ∀ v t, Q v t → Q' v t) :
    Ends T Q' m p s := by
  induction p generalizing n m s with
  | ret v => exact ends_ret.2 (hQ v s (ends_ret.1 h))
  | step _ k ih =>
    cases n with
    | zero => exact h.elim
    | succ n =>
      obtain ⟨m, rfl⟩ : ∃ m', m = m' + 1 := ⟨m - 1, by omega⟩
      intro s1 hr hi
      obtain ⟨s2, r, hx, hk⟩ := h s1 hr hi
      exact ⟨s2, r, hx, ih r hk (Nat.le_of_succ_le_succ hnm)⟩

theorem Ends.bind (h : Ends T Q n p s) (hf : ∀ v t, Q v t → Ends T Q' m (f v) t) : Ends T Q' (n + m) (p >>= f) s := by
  induction p generalizing n s with
  | ret v => exact (hf v s (ends_ret.1 h)).mono (Nat.le_add_left m n) (fun _ _ hq => hq)
  | step _ k ih =>
    cases n with
    | zero => exact h.elim
    | succ n =>
      rw [Nat.succ_add]
      intro s1 hr hi
      obtain ⟨s2, r, hx, hk⟩ := h s1 hr hi
      exact ⟨s2, r, hx, ih r hk⟩

theorem ends_act {Q : Reply op → S → Prop}
    (h : ∀ s1, T.rely s s1 → T.inv s1 → ∃ s2 r, T.exec s1 op = some (s2, r) ∧ Q r s2) : Ends T Q 1 (Prog.act op) s := h

theorem Ends.frame (hrely : ∀ s t, T.rely s t → R s t) (htrans : ∀ {s t u}, R s t → R t u → R s u) {P : Op → Prop}
    (hop : ∀ op, P op → ∀ s t r, T.exec s op = some (t, r) → R s t) (hp : p.All P) (h : Ends T Q n p s) :
    Ends T (fun v t => Q v t ∧ R s t) n p s := by
  induction p generalizing n s with
  | ret v => exact ends_ret.2 ⟨ends_ret.1 h, hrely s s (T.rely_refl s)⟩
  | step op k ih =>
    cases n with
    | zero => exact h
    | succ n =>
      intro s1 hr hi
      obtain ⟨s2, r, hx, hk⟩ := h s1 hr hi
      refine ⟨s2, r, hx, (ih r (hp.2 r) hk).mono (Nat.le_refl n) fun v t ht => ⟨ht.1, ?_⟩⟩
      exact htrans (hrely s s1 hr) (htrans (hop op hp.1 s1 s2 r hx) ht.2)

end Iteron.Interleave
