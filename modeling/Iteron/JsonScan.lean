import Mathlib.Data.List.Basic
/-!
# JsonScan — brackets and quotes of a JSON text

A scanner that follows a JSON array or object by its brackets, its strings and what may stand after a string.  Every such
text is scanned to `closed`, so a text that is not is none; the scanner says nothing more about what it accepts.  An
object that starts with a string of letters cannot follow the start of another one: whatever was scanned before it, a
nonempty part of it is never scanned to `closed` (`not_done_of_prefix`).
-/
namespace Iteron.JsonScan

/-- Where the scanner stands; a depth counts the brackets open around the innermost one. -/
inductive State where
  | start
  | inside (depth : Nat)
  | str (depth : Nat)
  | esc (depth : Nat)
  | quoted (depth : Nat)
  | closed
  | bad
  deriving DecidableEq

def isSpace (b : UInt8) : Bool := b == 32 || b == 9 || b == 10 || b == 13

def opens (b : UInt8) : Bool := b == 123 || b == 91

def closes (b : UInt8) : Bool := b == 125 || b == 93

def escapes (b : UInt8) : Bool :=
  b == 34 || b == 92 || b == 47 || b == 98 || b == 102 || b == 110 || b == 114 || b == 116 || b == 117

def close : Nat → State
  | 0 => .closed
  | depth + 1 => .inside depth

def step (s : State) (b : UInt8) : State :=
  match s with
  | .start => if isSpace b then .start else if opens b then .inside 0 else .bad
  | .inside depth =>
    if opens b then .inside (depth + 1) else if closes b then close depth else if b == 34 then .str depth
    else .inside depth
  | .str depth => if b == 34 then .quoted depth else if b == 92 then .esc depth else .str depth
  | .esc depth => if escapes b then .str depth else .bad
  | .quoted depth =>
    if isSpace b || b == 44 || b == 58 then .inside depth else if closes b then close depth else .bad
  | .closed => if isSpace b then .closed else .bad
  | .bad => .bad

def run (s : State) (bytes : List UInt8) : State := bytes.foldl step s

@[simp] theorem run_nil (s : State) : run s [] = s := rfl

@[simp] theorem run_cons (s : State) (b : UInt8) (bytes : List UInt8) : run s (b :: bytes) = run (step s b) bytes := rfl

theorem run_append (s : State) (bytes bytes' : List UInt8) : run s (bytes ++ bytes') = run (run s bytes) bytes' :=
  List.foldl_append

@[simp] theorem run_bad (bytes : List UInt8) : run .bad bytes = .bad := by
  induction bytes with
  | nil => rfl
  | cons b bytes ih => exact ih

/-- An object whose first key starts with a letter, up to its closing brace. -/
structure Object (bytes : List UInt8) : Prop where
  head : ∃ rest, bytes = 123 :: 34 :: 116 :: rest
  last : bytes.getLast? = some 125
  closed : run .start bytes = .closed

variable {bytes : List UInt8}

theorem Object.ne_nil (h : Object bytes) : bytes ≠ [] := by
  obtain ⟨_, rfl⟩ := h.head
  simp

theorem run_closed (h : run .closed bytes = .closed) : ∀ b ∈ bytes, isSpace b = true := by
  induction bytes with
  | nil => simp
  | cons b bytes ih =>
    by_cases hb : isSpace b = true
    · have hstep : step .closed b = .closed := if_pos hb
      rw [run_cons, hstep] at h
      intro c hc
      rcases List.mem_cons.1 hc with rfl | hc
      · exact hb
      · exact ih h c hc
    · have hstep : step .closed b = .bad := if_neg hb
      rw [run_cons, hstep, run_bad] at h
      cases h

theorem Object.not_closed_of_prefix {front : List UInt8} (h : Object bytes) (hp : front <+: bytes) (hne : front ≠ bytes)
    : run .start front ≠ .closed := by
  obtain ⟨back, rfl⟩ := hp
  have hback : back ≠ [] := fun he => hne (by rw [he, List.append_nil])
  intro hclosed
  have hrun := h.closed
  rw [run_append, hclosed] at hrun
  have hlast := h.last
  rw [List.getLast?_append_of_ne_nil _ hback] at hlast
  have := run_closed hrun 125 (List.mem_of_getLast? hlast)
  cases this

/-- The text scanned, as it stands `depth + 1` brackets further in. -/
def lift (depth : Nat) : State → State
  | .start => .inside depth
  | .inside e => .inside (e + depth + 1)
  | .str e => .str (e + depth + 1)
  | .esc e => .esc (e + depth + 1)
  | .quoted e => .quoted (e + depth + 1)
  | .closed => .inside depth
  | .bad => .bad

theorem lift_close (depth e : Nat) : lift depth (close e) = close (e + depth + 1) := by
  cases e with
  | zero => simp [close, lift]
  | succ e => simp only [close, lift]; congr 1; omega

variable {s : State}

theorem step_lift (depth : Nat) (b : UInt8) (hs : s ≠ .start) (hc : s ≠ .closed) :
    step (lift depth s) b = lift depth (step s b) := by
  cases s with
  | start => cases hs rfl
  | closed => cases hc rfl
  | bad => rfl
  | inside e =>
    simp only [lift, step]
    split
    · simp only [State.inside.injEq]; omega
    · split
      · exact (lift_close depth e).symm
      · split <;> rfl
  | str e =>
    simp only [lift, step]
    split
    · rfl
    · split <;> rfl
  | esc e =>
    simp only [lift, step]
    split <;> rfl
  | quoted e =>
    simp only [lift, step]
    split
    · rfl
    · split
      · exact (lift_close depth e).symm
      · rfl

theorem step_ne_start (hs : s ≠ .start) (b : UInt8) : step s b ≠ .start := by
  cases s with
  | start => cases hs rfl
  | inside e => simp only [step]; repeat' split
                all_goals (cases e <;> simp [close])
  | str e => simp only [step]; repeat' split
             all_goals simp
  | esc e => simp only [step]; split <;> simp
  | quoted e => simp only [step]; repeat' split
                all_goals (cases e <;> simp [close])
  | closed => simp only [step]; split <;> simp
  | bad => simp [step]

theorem run_ne_start : ∀ {bytes : List UInt8} {s : State}, s ≠ .start → run s bytes ≠ .start
  | [], _, hs => hs
  | b :: bytes, s, hs => by
    rw [run_cons]
    exact run_ne_start (step_ne_start hs b)

theorem run_lift (depth : Nat) : ∀ {bytes : List UInt8} {s : State}, s ≠ .start →
    (∀ front, front <+: bytes → front ≠ bytes → run s front ≠ .closed) → run (lift depth s) bytes = lift depth (run s bytes)
  | [], _, _, _ => rfl
  | b :: bytes, s, hs, hopen => by
    have hc : s ≠ .closed := hopen [] List.nil_prefix (by simp)
    rw [run_cons, step_lift depth b hs hc, run_cons]
    refine run_lift depth (step_ne_start hs b) (fun front hp hne => ?_)
    exact hopen (b :: front) (by simpa using hp) (by simpa using hne)

theorem not_done_of_prefix {front : List UInt8} (h : Object bytes) (hs : s ≠ .start) (hp : front <+: bytes)
    (hne : front ≠ []) : run s front ≠ .start ∧ run s front ≠ .closed := by
  obtain ⟨_, hhead⟩ := h.head
  obtain ⟨front', rfl⟩ : ∃ front', front = 123 :: front' := by
    rw [hhead] at hp
    cases front with
    | nil => cases hne rfl
    | cons b front' => exact ⟨front', by rw [(List.cons_prefix_cons.1 hp).1]⟩
  cases s with
  | start => cases hs rfl
  | inside depth =>
    have hfirst : run (.inside depth) (123 :: front') = run (lift depth (.inside 0)) front' := by
      simp [step, opens, lift]
    rw [hfirst, run_lift depth (by simp)]
    · cases run (.inside 0) front' <;> simp [lift]
    · intro f hf hfne hclosed
      obtain ⟨back, hback⟩ := hf
      have hfront : 123 :: f <+: 123 :: front' := ⟨back, by simp [← hback]⟩
      refine h.not_closed_of_prefix (hfront.trans hp) ?_ hclosed
      intro heq
      refine hfne ?_
      have hlen := hp.length_le
      rw [← heq, ← hback] at hlen
      have hnil : back = [] := by
        rw [← List.length_eq_zero_iff]
        simp only [List.length_cons, List.length_append] at hlen
        omega
      rw [← hback, hnil, List.append_nil]
  | str depth =>
    have hfirst : run (.str depth) (123 :: front') = run (.str depth) front' := by simp [step]
    rw [hfirst]
    rw [hhead] at hp
    have hp := (List.cons_prefix_cons.1 hp).2
    cases front' with
    | nil => simp
    | cons b front' =>
      obtain ⟨hb, hp⟩ := List.cons_prefix_cons.1 hp
      cases front' with
      | nil => simp [hb, step]
      | cons c front' =>
        obtain ⟨hc, -⟩ := List.cons_prefix_cons.1 hp
        simp [hb, hc, step, isSpace, closes]
  | esc depth => simp [step, escapes]
  | quoted depth => simp [step, isSpace, closes]
  | closed => simp [step, isSpace]
  | bad => simp [step]

end Iteron.JsonScan
