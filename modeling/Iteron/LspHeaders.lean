import Iteron.Lsp
import Iteron.Machine
import Iteron.Text
import Iteron.Refuse
/-!
# LspHeaders — the header block of a framed message

Only `Content-Length` is load-bearing; a declared `Content-Type` must be UTF-8, and other headers are ignored.  The block
that `encode` writes is read back to the length it was written for.
-/
namespace Iteron.Lsp

open Machine (u64Max)

def maxHeaderBytes : Nat := 8 * 1024

def trim (text : List Char) : List Char :=
  ((text.dropWhile Text.isWhitespace).reverse.dropWhile Text.isWhitespace).reverse

def isAscii (text : List Char) : Bool := text.all (fun c => decide (c.toNat < 128))

/-- The text up to the first such character, and the text behind it. -/
def splitOnce (sep : Char) : List Char → Option (List Char × List Char)
  | [] => none
  | c :: cs => if c = sep then some ([], cs) else (splitOnce sep cs).map (fun p => (c :: p.1, p.2))

/-- `str::split` at each `\r\n`. -/
def splitCrlf : List Char → List (List Char)
  | [] => [[]]
  | '\r' :: '\n' :: cs => [] :: splitCrlf cs
  | c :: cs =>
    match splitCrlf cs with
    | [] => [[c]]
    | line :: lines => (c :: line) :: lines

/-- `str::split` at each such character. -/
def splitChar (sep : Char) : List Char → List (List Char)
  | [] => [[]]
  | c :: cs =>
    if c = sep then [] :: splitChar sep cs
    else
      match splitChar sep cs with
      | [] => [[c]]
      | part :: parts => (c :: part) :: parts

def isAlphanumeric (c : Char) : Bool :=
  (decide ('a' ≤ c) && decide (c ≤ 'z')) || (decide ('A' ≤ c) && decide (c ≤ 'Z')) || c.isDigit

def isTchar (c : Char) : Bool :=
  isAlphanumeric c || ['!', '#', '$', '%', '&', '\'', '*', '+', '-', '.', '^', '_', Char.ofNat 96, '|', '~'].contains c

def isControlValue (c : Char) : Bool := (decide (c.toNat < 32) && c != '\t') || c.toNat == 127

def lower (c : Char) : Char := if decide ('A' ≤ c) && decide (c ≤ 'Z') then Char.ofNat (c.toNat + 32) else c

def eqIgnoreCase (text : List Char) (name : String) : Bool := text.map lower == name.toList

/-- `{:?}` of an ASCII text. -/
def debugText (text : List Char) : String :=
  let escape := fun c : Char =>
    if c = '\x00' then "\\0" else if c = '\t' then "\\t" else if c = '\r' then "\\r" else if c = '\n' then "\\n"
    else if c = '"' then "\\\"" else if c = '\\' then "\\\\"
    else if isControlValue c then "\\u\x7b" ++ String.ofList (Nat.toDigits 16 c.toNat) ++ "\x7d" else c.toString
  "\"" ++ String.join (text.map escape) ++ "\""

/-- `usize::from_str` of digits. -/
def parseUsize (value : List Char) : Option Nat :=
  if Nat.ofDigitChars 10 value 0 ≤ u64Max then some (Nat.ofDigitChars 10 value 0) else none

/-- The value of a `Content-Type` parameter, without its quotes. -/
def parameterValue (raw : List Char) : Except LspError (List Char) :=
  if raw.head? = some '"' ∨ raw.getLast? = some '"' then
    if raw.length < 2 ∨ raw.head? ≠ some '"' ∨ raw.getLast? ≠ some '"' ∨
        ((raw.drop 1).dropLast.any (fun c => c == '"' || c == '\\')) = true then
      .error (.header "invalid quoted Content-Type parameter")
    else .ok (raw.drop 1).dropLast
  else if raw.all isTchar then .ok raw
  else .error (.header "invalid Content-Type parameter value")

/-- The parameters of a `Content-Type`, and whether a charset was seen. -/
def checkParameter (charsetSeen : Bool) (parameter : List Char) : Except LspError Bool :=
  match splitOnce '=' (trim parameter) with
  | none => .error (.header "invalid Content-Type parameter")
  | some (name, raw) =>
    if trim name = [] ∨ (trim name).all isTchar = false ∨ trim raw = [] then
      .error (.header "invalid Content-Type parameter")
    else do
      let value ← parameterValue (trim raw)
      if eqIgnoreCase (trim name) "charset" then
        if charsetSeen then .error (.header "multiple Content-Type charset parameters")
        else if eqIgnoreCase value "utf-8" || eqIgnoreCase value "utf8" then .ok true
        else .error (.header s!"unsupported Content-Type charset {debugText value}")
      else .ok charsetSeen

def validateContentType (value : List Char) : Except LspError Unit :=
  match splitChar ';' value with
  | [] => .error (.header "invalid Content-Type media type")
  | media :: parts =>
    match splitOnce '/' (trim media) with
    | none => .error (.header "invalid Content-Type media type")
    | some (kind, subtype) =>
      if kind = [] ∨ subtype = [] ∨ kind.all isTchar = false ∨ subtype.all isTchar = false then
        .error (.header "invalid Content-Type media type")
      else do
        let _ ← parts.foldlM checkParameter false
        pure ()

structure HeaderState where
  contentLength : Option Nat := none
  contentTypeSeen : Bool := false

def parseHeaderLine (s : HeaderState) (line : List Char) : Except LspError HeaderState :=
  if line = [] then .ok s
  else
    match splitOnce ':' line with
    | none => .error (.header s!"no colon in {debugText line}")
    | some (name, value) =>
      if name = [] ∨ name.all isTchar = false then .error (.header "invalid header name")
      else if value.any isControlValue then .error (.header "control byte in header value")
      else if eqIgnoreCase name "content-length" then
        if trim value = [] ∨ (trim value).all Char.isDigit = false then
          .error (.header s!"Content-Length {debugText (trim value)}")
        else
          match parseUsize (trim value) with
          | none => .error (.header s!"Content-Length {debugText (trim value)}")
          | some parsed =>
            if s.contentLength.isSome then .error (.header "multiple Content-Length fields")
            else .ok { s with contentLength := some parsed }
      else if eqIgnoreCase name "content-type" then
        if s.contentTypeSeen then .error (.header "multiple Content-Type fields")
        else do
          validateContentType (trim value)
          pure { s with contentTypeSeen := true }
      else .ok s

def parseHeaders (block : List Char) : Except LspError Nat :=
  if maxHeaderBytes < (String.ofList block).utf8ByteSize then .error (.headerTooLarge maxHeaderBytes)
  else if !isAscii block then .error (.header "header block was not ASCII")
  else do
    let s ← (splitCrlf block).foldlM parseHeaderLine {}
    match s.contentLength with
    | none => .error .missingContentLength
    | some n => .ok n

/-! ## The block that `encode` writes -/

def lengthHeader (n : Nat) : List Char := "Content-Length: ".toList ++ Nat.toDigits 10 n

variable {n : Nat} {c : Char}

theorem isDigit_of_mem (h : c ∈ Nat.toDigits 10 n) : c.isDigit = true :=
  Nat.isDigit_of_mem_toDigits (by decide) (by decide) h

theorem digit_plain (h : c.isDigit = true) :
    48 ≤ c.toNat ∧ c.toNat ≤ 57 ∧ Text.isWhitespace c = false ∧ isControlValue c = false ∧ c ≠ '\r' := by
  have hrange : 48 ≤ c.toNat ∧ c.toNat ≤ 57 := by
    simp only [Char.isDigit, Bool.and_eq_true, decide_eq_true_eq] at h
    exact ⟨UInt32.le_iff_toNat_le.1 h.1, UInt32.le_iff_toNat_le.1 h.2⟩
  refine ⟨hrange.1, hrange.2, ?_, ?_, ?_⟩
  · simp [Text.isWhitespace]
    omega
  · simp [isControlValue]
    omega
  · rintro rfl
    exact absurd hrange.1 (by decide)

variable {text : List Char}

theorem splitCrlf_plain (h : '\r' ∉ text) : splitCrlf text = [text] := by
  induction text with
  | nil => rfl
  | cons c _ ih =>
    have hc : c ≠ '\r' := fun he => h (he ▸ List.mem_cons_self)
    have hcs := ih (fun hin => h (List.mem_cons_of_mem c hin))
    unfold splitCrlf
    split <;> rename_i heq
    · cases heq
    · cases heq
      cases hc rfl
    · cases heq
      rw [hcs]

theorem trim_digits (n : Nat) : trim (' ' :: Nat.toDigits 10 n) = Nat.toDigits 10 n := by
  have hplain : ∀ c ∈ Nat.toDigits 10 n, Text.isWhitespace c = false :=
    fun c hc => (digit_plain (isDigit_of_mem hc)).2.2.1
  have hfront : (' ' :: Nat.toDigits 10 n).dropWhile Text.isWhitespace = Nat.toDigits 10 n := by
    rw [List.dropWhile_cons_of_pos (by decide)]
    cases hd : Nat.toDigits 10 n with
    | nil => rfl
    | cons c cs => exact List.dropWhile_cons_of_neg (by simp [hplain c (hd ▸ List.mem_cons_self)])
  have hback : (Nat.toDigits 10 n).reverse.dropWhile Text.isWhitespace = (Nat.toDigits 10 n).reverse := by
    cases hd : (Nat.toDigits 10 n).reverse with
    | nil => rfl
    | cons c cs =>
      have hc : c ∈ Nat.toDigits 10 n := List.mem_reverse.1 (hd ▸ List.mem_cons_self)
      exact List.dropWhile_cons_of_neg (by simp [hplain c hc])
  rw [trim, hfront, hback, List.reverse_reverse]

theorem lengthHeader_ascii (n : Nat) : ∀ c ∈ lengthHeader n, c.toNat < 128 ∧ c ≠ '\r' := by
  intro c hc
  rcases List.mem_append.1 hc with hc | hc
  · have hall : ∀ c ∈ "Content-Length: ".toList, c.toNat < 128 ∧ c ≠ '\r' := by simp
    exact hall c hc
  · obtain ⟨-, _, -, -, hcr⟩ := digit_plain (isDigit_of_mem hc)
    exact ⟨by omega, hcr⟩

theorem splitOnce_append {name rest : List Char} (h : c ∉ name) :
    splitOnce c (name ++ c :: rest) = some (name, rest) := by
  induction name with
  | nil => exact if_pos rfl
  | cons d name ih =>
    have hd : d ≠ c := fun he => h (he ▸ List.mem_cons_self)
    have hrest := ih (fun hin => h (List.mem_cons_of_mem d hin))
    rw [List.cons_append, splitOnce, if_neg hd, hrest]
    rfl

theorem utf8ByteSize_ascii (h : ∀ c ∈ text, c.toNat < 128) : (String.ofList text).utf8ByteSize = text.length := by
  induction text with
  | nil => rfl
  | cons c cs ih =>
    have hsize : c.utf8Size = 1 := by
      have hc := h c (.head _)
      rw [Char.utf8Size_eq_one_iff]
      exact UInt32.le_iff_toNat_le.2 (Nat.lt_succ_iff.1 hc)
    have hcons : String.ofList (c :: cs) = String.singleton c ++ String.ofList cs := by
      rw [← String.ofList_cons]
    rw [hcons, String.utf8ByteSize_append, ih (fun d hd => h d (List.mem_cons_of_mem c hd)), String.utf8ByteSize_singleton,
      hsize, List.length_cons, Nat.add_comm]

theorem lengthHeader_length (hn : n ≤ u64Max) : (lengthHeader n).length ≤ 36 := by
  have hbound : n < 10 ^ 20 := Nat.lt_of_le_of_lt hn (by decide)
  have hdigits := (Nat.length_toDigits_le_iff (by decide : 1 < 10) (by decide : 0 < 20)).2 hbound
  have hname : "Content-Length: ".toList.length = 16 := by decide
  have hsum : (lengthHeader n).length = 16 + (Nat.toDigits 10 n).length :=
    List.length_append.trans (congrArg (· + (Nat.toDigits 10 n).length) hname)
  omega

theorem parseHeaders_length (hn : n ≤ u64Max) : parseHeaders (lengthHeader n) = .ok n := by
  have hascii : isAscii (lengthHeader n) = true :=
    List.all_eq_true.2 (fun c hc => decide_eq_true (lengthHeader_ascii n c hc).1)
  have hlength := lengthHeader_length hn
  have hsize : ¬ maxHeaderBytes < (String.ofList (lengthHeader n)).utf8ByteSize := by
    rw [utf8ByteSize_ascii (fun c hc => (lengthHeader_ascii n c hc).1), maxHeaderBytes]
    omega
  have hsplit : splitOnce ':' (lengthHeader n) = some ("Content-Length".toList, ' ' :: Nat.toDigits 10 n) := by
    have hname : "Content-Length".toList = _ := String.toList_ofList
    have hheader : lengthHeader n = "Content-Length".toList ++ ':' :: ' ' :: Nat.toDigits 10 n :=
      (congrArg (· ++ Nat.toDigits 10 n) String.toList_ofList).trans (congrArg (· ++ ':' :: ' ' :: _) hname).symm
    rw [hheader]
    exact splitOnce_append (by decide)
  have hvalue : (' ' :: Nat.toDigits 10 n).any isControlValue = false := by
    rw [List.any_cons, List.any_eq_false.2 (fun c hc => by rw [(digit_plain (isDigit_of_mem hc)).2.2.2.1]; decide)]
    rfl
  have hdigits : (Nat.toDigits 10 n).all Char.isDigit = true := List.all_eq_true.2 (fun c hc => isDigit_of_mem hc)
  have hparse : parseUsize (Nat.toDigits 10 n) = some n := by
    rw [parseUsize, Nat.ofDigitChars_ten_toDigits, if_pos hn]
  have hline : parseHeaderLine {} (lengthHeader n) = .ok { contentLength := some n } := by
    have hne : lengthHeader n ≠ [] := List.append_ne_nil_of_left_ne_nil (by decide) _
    have hname : ¬ ("Content-Length".toList = [] ∨ "Content-Length".toList.all isTchar = false) := by decide
    have hcase : eqIgnoreCase "Content-Length".toList "content-length" = true := by decide
    have hsome : ¬ (trim (' ' :: Nat.toDigits 10 n) = [] ∨ (trim (' ' :: Nat.toDigits 10 n)).all Char.isDigit = false) := by
      rw [trim_digits, hdigits]
      simp [Nat.toDigits_ne_nil]
    rw [parseHeaderLine, if_neg hne, hsplit]
    dsimp only
    rw [if_neg hname, hvalue, if_neg Bool.false_ne_true, if_pos hcase, if_neg hsome, trim_digits, hparse]
    rfl
  have hlines : splitCrlf (lengthHeader n) = [lengthHeader n] :=
    splitCrlf_plain (fun hcr => (lengthHeader_ascii n _ hcr).2 rfl)
  rw [parseHeaders, if_neg hsize, hascii, Bool.not_true, if_neg Bool.false_ne_true, hlines, List.foldlM_cons, hline]
  rfl

end Iteron.Lsp
