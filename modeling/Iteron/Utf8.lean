import Mathlib.Data.List.Basic
/-!
# Utf8 — the bytes of a text

The bytes of a text are those of its characters.  A character starts with a byte that does not continue one, and where it
starts with `0xEF` two bytes continue it.
-/
namespace Iteron.Utf8

def utf8 (s : String) : List UInt8 := s.toList.flatMap String.utf8EncodeChar

def isUtf8 (bytes : List UInt8) : Bool := bytes.toByteArray.validateUTF8

theorem length_utf8 (s : String) : (utf8 s).length = s.utf8ByteSize := by
  rw [utf8, String.utf8ByteSize, ← String.utf8Encode_toList, List.utf8Encode]
  simp

variable {bytes : List UInt8}

theorem isUtf8_iff : isUtf8 bytes = true ↔ ∃ s, utf8 s = bytes := by
  rw [isUtf8, ByteArray.validateUTF8_eq_true_iff]
  constructor
  · rintro ⟨cs, hcs⟩
    refine ⟨String.ofList cs, ?_⟩
    rw [utf8, String.toList_ofList]
    exact (List.toByteArray_inj.1 hcs).symm
  · rintro ⟨s, rfl⟩
    exact ⟨s.toList, rfl⟩

def Continues (b : UInt8) : Prop := 128 ≤ b.toNat ∧ b.toNat < 192

theorem utf8EncodeChar_head (c : Char) : ∃ b rest, String.utf8EncodeChar c = b :: rest ∧ ¬ Continues b ∧
    (b = 0xEF → ∃ x y, rest = [x, y] ∧ Continues x ∧ Continues y) := by
  have hef (n : Nat) (h : UInt8.ofNat n = 0xEF) : n % 256 = 239 := by
    have := congrArg UInt8.toNat h
    simpa using this
  simp only [String.utf8EncodeChar]
  split_ifs with h1 h2 h3
  · refine ⟨_, _, rfl, ?_, fun h => ?_⟩
    · simp only [Continues, UInt8.toNat_ofNat']
      omega
    · have := hef _ h
      omega
  · refine ⟨_, _, rfl, ?_, fun h => ?_⟩
    · simp only [Continues, UInt8.toNat_ofNat']
      omega
    · have := hef _ h
      omega
  · refine ⟨_, _, rfl, ?_, fun _ => ⟨_, _, rfl, ?_, ?_⟩⟩
    all_goals
      simp only [Continues, UInt8.toNat_ofNat']
      omega
  · refine ⟨_, _, rfl, ?_, fun h => ?_⟩
    · simp only [Continues, UInt8.toNat_ofNat']
      omega
    · have := hef _ h
      omega

variable {s : String} {rest : List UInt8}

theorem not_continues_head {b : UInt8} (h : utf8 s = b :: rest) : ¬ Continues b := by
  rw [utf8] at h
  cases hs : s.toList with
  | nil => simp [hs] at h
  | cons c _ =>
    obtain ⟨_, _, hc, hb, -⟩ := utf8EncodeChar_head c
    rw [hs, List.flatMap_cons, hc, List.cons_append, List.cons.injEq] at h
    exact h.1 ▸ hb

theorem continues_of_ef (h : utf8 s = 0xEF :: rest) :
    ∃ x y more, rest = x :: y :: more ∧ Continues x ∧ Continues y := by
  rw [utf8] at h
  cases hs : s.toList with
  | nil => simp [hs] at h
  | cons c _ =>
    obtain ⟨b, _, hc, -, hef⟩ := utf8EncodeChar_head c
    rw [hs, List.flatMap_cons, hc, List.cons_append, List.cons.injEq] at h
    obtain ⟨x, y, rfl, hx, hy⟩ := hef h.1
    exact ⟨x, y, _, h.2.symm, hx, hy⟩

theorem utf8_eq_nil : utf8 s = [] ↔ s = "" := by
  rw [utf8, List.flatMap_eq_nil_iff, ← String.toList_eq_nil_iff, List.eq_nil_iff_forall_not_mem]
  simp

/-! ## Reading a text back -/

def decodeChar (bytes : List UInt8) : Option Char := bytes.toByteArray.utf8DecodeChar? 0

theorem decodeChar_encode (c : Char) (rest : List UInt8) : decodeChar (String.utf8EncodeChar c ++ rest) = some c := by
  rw [decodeChar, List.toByteArray_append]
  exact ByteArray.utf8DecodeChar?_utf8EncodeChar_append

theorem utf8_cons (c : Char) (cs : List Char) :
    utf8 (String.ofList (c :: cs)) = String.utf8EncodeChar c ++ utf8 (String.ofList cs) := by
  simp only [utf8, String.toList_ofList, List.flatMap_cons]

theorem utf8_append (s s' : String) : utf8 (s ++ s') = utf8 s ++ utf8 s' := by
  simp only [utf8, String.toList_append, List.flatMap_append]

variable {cs : List Char}

theorem prefix_of_utf8 {ds : List Char} (h : utf8 (String.ofList cs) ++ rest = utf8 (String.ofList ds)) :
    ∃ es, ds = cs ++ es ∧ utf8 (String.ofList es) = rest := by
  induction cs generalizing ds with
  | nil => exact ⟨ds, rfl, h.symm⟩
  | cons c cs ih =>
    rw [utf8_cons, List.append_assoc] at h
    cases ds with
    | nil =>
      have hc := decodeChar_encode c (utf8 (String.ofList cs) ++ rest)
      have hnone : decodeChar (utf8 (String.ofList [])) = none := by decide
      rw [h, hnone] at hc
      cases hc
    | cons d ds =>
      rw [utf8_cons] at h
      have hc := decodeChar_encode c (utf8 (String.ofList cs) ++ rest)
      rw [h, decodeChar_encode] at hc
      cases hc
      obtain ⟨es, rfl, hes⟩ := ih (List.append_cancel_left h)
      exact ⟨es, rfl, hes⟩

def charWidth (b : UInt8) : Nat :=
  if b < 0x80 then 1 else if b < 0xC2 then 0 else if b < 0xE0 then 2 else if b < 0xF0 then 3 else if b < 0xF5 then 4 else 0

def continues (b : UInt8) : Bool := 0x80 ≤ b && b < 0xC0

def acceptsSecond (b c : UInt8) : Bool :=
  match charWidth b with
  | 2 => continues c
  | 3 => if b = 0xE0 then 0xA0 ≤ c && c < 0xC0 else if b = 0xED then 0x80 ≤ c && c < 0xA0 else continues c
  | 4 => if b = 0xF0 then 0x90 ≤ c && c < 0xC0 else if b = 0xF4 then 0x80 ≤ c && c < 0x90 else continues c
  | _ => false

/-- How many bytes at the front a broken character takes with it. -/
def brokenBytes : List UInt8 → Nat
  | b :: c :: d :: _ => if acceptsSecond b c then (if charWidth b = 4 && continues d then 3 else 2) else 1
  | [b, c] => if acceptsSecond b c then 2 else 1
  | _ => 1

/-- `String::from_utf8_lossy`, for as many characters as there is fuel. -/
def lossyChars : Nat → List UInt8 → List Char
  | 0, _ => []
  | _, [] => []
  | n + 1, bytes =>
    match decodeChar bytes with
    | some c => c :: lossyChars n (bytes.drop c.utf8Size)
    | none => '\uFFFD' :: lossyChars n (bytes.drop (brokenBytes bytes))

def fromUtf8Lossy (bytes : List UInt8) : String := String.ofList (lossyChars bytes.length bytes)

theorem length_utf8EncodeChar_pos (c : Char) : 0 < (String.utf8EncodeChar c).length := by
  obtain ⟨b, _, hc, -⟩ := utf8EncodeChar_head c
  rw [hc]
  exact Nat.succ_pos _

theorem lossyChars_utf8 {n : Nat} (hn : (utf8 (String.ofList cs)).length ≤ n) :
    lossyChars n (utf8 (String.ofList cs)) = cs := by
  induction cs generalizing n with
  | nil => cases n <;> rfl
  | cons c cs ih =>
    have hpos := length_utf8EncodeChar_pos c
    rw [utf8_cons, List.length_append] at hn
    cases n with
    | zero => omega
    | succ n =>
      rw [utf8_cons]
      obtain ⟨b, _, hc, -⟩ := utf8EncodeChar_head c
      have hdrop : (String.utf8EncodeChar c ++ utf8 (String.ofList cs)).drop c.utf8Size = utf8 (String.ofList cs) := by
        rw [← String.length_utf8EncodeChar, List.drop_left]
      have hstep : lossyChars (n + 1) (String.utf8EncodeChar c ++ utf8 (String.ofList cs)) =
          c :: lossyChars n ((String.utf8EncodeChar c ++ utf8 (String.ofList cs)).drop c.utf8Size) := by
        have hdecode := decodeChar_encode c (utf8 (String.ofList cs))
        rw [hc, List.cons_append] at hdecode ⊢
        simp only [lossyChars, hdecode]
      rw [hstep, hdrop, ih (by omega)]

theorem fromUtf8Lossy_utf8 (s : String) : fromUtf8Lossy (utf8 s) = s := by
  have hs : String.ofList s.toList = s := String.ofList_toList
  have hread := @lossyChars_utf8 s.toList _ (Nat.le_refl _)
  rw [hs] at hread
  rw [fromUtf8Lossy, hread, hs]

def fromUtf8 (bytes : List UInt8) : Option String := if isUtf8 bytes then some (fromUtf8Lossy bytes) else none

theorem fromUtf8_utf8 (s : String) : fromUtf8 (utf8 s) = some s := by
  rw [fromUtf8, if_pos (isUtf8_iff.2 ⟨s, rfl⟩), fromUtf8Lossy_utf8]

variable {c : Char}

theorem encodeChar_ascii (h : c.toNat < 128) : String.utf8EncodeChar c = [UInt8.ofNat c.toNat] := by
  unfold String.utf8EncodeChar
  have hle : c.val.toNat ≤ 127 := Nat.lt_succ_iff.1 h
  simp only [if_pos hle]
  rfl

theorem utf8_ascii (h : ∀ c ∈ cs, c.toNat < 128) : utf8 (String.ofList cs) = cs.map (fun c => UInt8.ofNat c.toNat) := by
  induction cs with
  | nil => rfl
  | cons c cs ih =>
    rw [utf8_cons, encodeChar_ascii (h c List.mem_cons_self), ih (fun d hd => h d (List.mem_cons_of_mem c hd))]
    rfl

theorem toNat_ofNat_ascii (h : c.toNat < 128) : (UInt8.ofNat c.toNat).toNat = c.toNat := by
  exact Nat.mod_eq_of_lt (by omega)

end Iteron.Utf8
