import Iteron.ToolAdmission
/-!
# StructuredOutput — JSON that is salvaged from prose

A model's answer is read as JSON, once a code fence around it is gone.  Where it is not JSON, its first balanced block is
read.  The block is found by counting brackets of one kind outside of strings, which finds the end of every JSON text.
-/
namespace Iteron.StructuredOutput

open Kernel (Json)
open Text (isWhitespace isControl)
open ToolAdmission (trim)
open List (append_assoc cons_append foldlM_append foldlM_cons length_append mem_cons_of_mem)

/-- A control character that is no white space, as `escape_default` shows it. -/
def neutralize (c : Char) : List Char :=
  if isControl c && !isWhitespace c then "\\u\x7b".toList ++ Nat.toDigits 16 c.toNat ++ "\x7d".toList else [c]

def truncatePreview (text : List Char) (max : Nat) : List Char :=
  let collapsed := [' '].intercalate (((text.flatMap neutralize).splitOnP isWhitespace).filter (fun word => !word.isEmpty))
  if collapsed.length ≤ max then collapsed else collapsed.take max ++ ['…']

def fence : List Char := "```".toList

/-- What follows the first line, or everything where there is only one. -/
def dropLanguageTag (rest : List Char) : List Char :=
  match rest.dropWhile (fun c => c != '\n') with
  | [] => rest
  | _ :: after => after

def stripFenceEnd (rest : List Char) : List Char := if fence <:+ rest then rest.take (rest.length - 3) else rest

def stripCodeFence (text : List Char) : List Char :=
  let t := trim text
  if fence <+: t then trim (stripFenceEnd (dropLanguageTag (t.drop 3))) else t

/-- Where a search for the end of a block stands. -/
structure Cursor where
  depth : Nat
  inStr : Bool
  escaped : Bool

def closing (opening : Char) : Char := if opening = '{' then '}' else ']'

/-- The cursor after a character, or `none` where the block ends with it. -/
def Cursor.next (opening : Char) (s : Cursor) (c : Char) : Option Cursor :=
  if s.inStr then
    if s.escaped then some { s with escaped := false }
    else if c = '\\' then some { s with escaped := true }
    else if c = '"' then some { s with inStr := false }
    else some s
  else if c = '"' then some { s with inStr := true }
  else if c = opening then some { s with depth := s.depth + 1 }
  else if c = closing opening then if s.depth - 1 = 0 then none else some { s with depth := s.depth - 1 }
  else some s

def block (opening : Char) (s : Cursor) : List Char → Option (List Char)
  | [] => none
  | c :: cs =>
    match s.next opening c with
    | none => some [c]
    | some s' => (block opening s' cs).map (fun taken => c :: taken)

def isOpening (c : Char) : Bool := c == '{' || c == '['

def firstJsonBlock (text : List Char) : Option (List Char) :=
  match text.dropWhile (fun c => !isOpening c) with
  | [] => none
  | opening :: rest => block opening ⟨0, false, false⟩ (opening :: rest)

/-- `fromStr` is the JSON reader. -/
def parseJson (fromStr : List Char → Option Json) (text : List Char) : Except String Json :=
  let trimmed := stripCodeFence (trim text)
  match fromStr trimmed with
  | some value => .ok value
  | none =>
    match (firstJsonBlock trimmed).bind fromStr with
    | some value => .ok value
    | none => .error ("output is not valid JSON: " ++ String.ofList (truncatePreview text 120))

/-! ## JSON texts -/

def Blank (ws : List Char) : Prop := ∀ c ∈ ws, c = ' ' ∨ c = '\n' ∨ c = '\r' ∨ c = '\t'

def Digits (digits : List Char) : Prop := digits ≠ [] ∧ ∀ c ∈ digits, c.isDigit = true

inductive Number : List Char → Prop
  | intro (minus int frac exp : List Char) (hminus : minus = [] ∨ minus = ['-'])
    (hint : Digits int ∧ (int.head? = some '0' → int.length = 1))
    (hfrac : frac = [] ∨ ∃ digits, Digits digits ∧ frac = '.' :: digits)
    (hexp : exp = [] ∨ ∃ e sign digits, (e = 'e' ∨ e = 'E') ∧ (sign = [] ∨ sign = ['+'] ∨ sign = ['-']) ∧ Digits digits ∧
      exp = e :: (sign ++ digits)) : Number (minus ++ int ++ frac ++ exp)

/-- One character of a string, as it is written. -/
inductive Piece : List Char → Prop
  | plain (c : Char) (hquote : c ≠ '"') (hescape : c ≠ '\\') (hcontrol : 32 ≤ c.toNat) : Piece [c]
  | escape (c : Char) (hc : c ∈ ['"', '\\', '/', 'b', 'f', 'n', 'r', 't']) : Piece ['\\', c]
  | unicode (digits : List Char) (hlength : digits.length = 4) (hhex : ∀ c ∈ digits, Text.isHexDigit c = true) :
    Piece ('\\' :: 'u' :: digits)

def Quoted (text : List Char) : Prop := ∃ pieces : List (List Char), (∀ p ∈ pieces, Piece p) ∧ text = '"' :: (pieces.flatten ++ ['"'])

/-- A value in its place in a list, with its key where the list is an object's. -/
structure Slot where
  before : List Char
  value : List Char
  after : List Char

def Slot.text (slot : Slot) : List Char := slot.before ++ slot.value ++ slot.after

/-- The white space and the key before a value of an object. -/
def Keyed (before : List Char) : Prop :=
  ∃ ws key ws' ws'', Blank ws ∧ Quoted key ∧ Blank ws' ∧ Blank ws'' ∧ before = ws ++ key ++ ws' ++ ':' :: ws''

/-- The texts of JSON values, without white space around them. -/
inductive Value : List Char → Prop
  | literal (text : List Char) (h : text ∈ ["null".toList, "false".toList, "true".toList]) : Value text
  | number (text : List Char) (h : Number text) : Value text
  | string (text : List Char) (h : Quoted text) : Value text
  | emptyArray (ws : List Char) (h : Blank ws) : Value ('[' :: (ws ++ [']']))
  | array (slots : List Slot) (hne : slots ≠ []) (hspace : ∀ slot ∈ slots, Blank slot.before ∧ Blank slot.after)
    (hvalue : ∀ slot ∈ slots, Value slot.value) : Value ('[' :: ([','].intercalate (slots.map Slot.text) ++ [']']))
  | emptyObject (ws : List Char) (h : Blank ws) : Value ('{' :: (ws ++ ['}']))
  | object (slots : List Slot) (hne : slots ≠ []) (hspace : ∀ slot ∈ slots, Keyed slot.before ∧ Blank slot.after)
    (hvalue : ∀ slot ∈ slots, Value slot.value) : Value ('{' :: ([','].intercalate (slots.map Slot.text) ++ ['}']))

def Composite (text : List Char) : Prop := Value text ∧ (text.head? = some '{' ∨ text.head? = some '[')

/-! ## Counting brackets -/

def run (opening : Char) (s : Cursor) (text : List Char) : Option Cursor := text.foldlM (fun s c => s.next opening c) s

theorem block_append {opening : Char} : ∀ {text : List Char} {s s' : Cursor} (rest : List Char), run opening s text = some s' →
    block opening s (text ++ rest) = (block opening s' rest).map (fun taken => text ++ taken)
  | [], s, s', rest, h => by
    cases h
    cases hblock : block opening s rest <;> simp [hblock]
  | c :: text, s, s', rest, h => by
    rw [run, foldlM_cons, Option.bind_eq_bind, Option.bind_eq_some_iff] at h
    obtain ⟨_, hmid, h⟩ := h
    rw [cons_append, block, hmid]
    dsimp only
    rw [block_append rest h, Option.map_map]
    rfl

/-- Inside a block, the text is read without an effect on the count. -/
def Neutral (opening : Char) (text : List Char) : Prop :=
  ∀ depth, 1 ≤ depth → run opening ⟨depth, false, false⟩ text = some ⟨depth, false, false⟩

variable {opening : Char}

theorem neutral_nil : Neutral opening [] := fun _ _ => rfl

variable {text : List Char}

theorem Neutral.append {text' : List Char} (h : Neutral opening text) (h' : Neutral opening text') :
    Neutral opening (text ++ text') := by
  intro depth hdepth
  have hfirst := h depth hdepth
  have hsecond := h' depth hdepth
  unfold run at hfirst hsecond ⊢
  rw [foldlM_append, hfirst]
  exact hsecond

def quiet (c : Char) : Bool := !(['"', '{', '}', '[', ']'].contains c)

variable {c : Char}

theorem next_quiet (hopening : isOpening opening = true) (hc : quiet c = true) (s : Cursor) (hs : s.inStr = false) :
    s.next opening c = some s := by
  simp only [quiet, List.contains_cons, List.contains_nil, Bool.or_false, Bool.not_eq_true', Bool.or_eq_false_iff,
    beq_eq_false_iff_ne] at hc
  obtain ⟨hquote, hbrace, hbrace', hbracket, hbracket'⟩ := hc
  simp only [isOpening, Bool.or_eq_true, beq_iff_eq] at hopening
  rcases hopening with rfl | rfl
  · simp [Cursor.next, closing, hs, hquote, hbrace, hbrace']
  · simp [Cursor.next, closing, hs, hquote, hbracket, hbracket']

theorem neutral_quiet (hopening : isOpening opening = true) (h : ∀ c ∈ text, quiet c = true) :
    Neutral opening text := by
  intro depth hdepth
  induction text with
  | nil => rfl
  | cons c text ih =>
    rw [run, foldlM_cons, next_quiet hopening (h c List.mem_cons_self) _ rfl]
    exact ih (fun d hd => h d (mem_cons_of_mem c hd))

theorem quiet_of_blank {ws : List Char} (h : Blank ws) : ∀ c ∈ ws, quiet c = true := by
  intro c hc
  rcases h c hc with rfl | rfl | rfl | rfl <;> decide

theorem quiet_of_digit (h : c.isDigit = true) : quiet c = true := by
  simp only [quiet, List.contains_cons, List.contains_nil, Bool.or_false, Bool.not_eq_true', Bool.or_eq_false_iff,
    beq_eq_false_iff_ne]
  refine ⟨?_, ?_, ?_, ?_, ?_⟩ <;> rintro rfl <;> revert h <;> decide

theorem quiet_of_literal (h : text ∈ ["null".toList, "false".toList, "true".toList]) : ∀ c ∈ text, quiet c = true := by
  simp only [List.mem_cons, List.not_mem_nil, or_false] at h
  rcases h with rfl | rfl | rfl <;> simp [quiet]

theorem not_opening_of_quiet (h : ∀ c ∈ text, quiet c = true) : ¬ (text.head? = some '{' ∨ text.head? = some '[') := by
  rintro (hhead | hhead)
  · exact absurd (h _ (List.mem_of_mem_head? hhead)) (by decide)
  · exact absurd (h _ (List.mem_of_mem_head? hhead)) (by decide)

theorem Number.quiet {text : List Char} (h : Number text) : ∀ c ∈ text, quiet c = true := by
  obtain ⟨_, _, _, _, hminus, ⟨⟨-, hint⟩, -⟩, hfrac, hexp⟩ := h
  intro c hc
  simp only [List.mem_append] at hc
  rcases hc with ((hc | hc) | hc) | hc
  · rcases hminus with rfl | rfl
    · cases hc
    · obtain rfl := List.mem_singleton.1 hc
      decide
  · exact quiet_of_digit (hint c hc)
  · rcases hfrac with rfl | ⟨digits, hdigits, rfl⟩
    · cases hc
    · rcases List.mem_cons.1 hc with rfl | hc
      · decide
      · exact quiet_of_digit (hdigits.2 c hc)
  · rcases hexp with rfl | ⟨e, _, digits, he, hsign, hdigits, rfl⟩
    · cases hc
    · rcases List.mem_cons.1 hc with rfl | hc
      · rcases he with rfl | rfl <;> decide
      · rcases List.mem_append.1 hc with hc | hc
        · rcases hsign with rfl | rfl | rfl
          · cases hc
          · obtain rfl := List.mem_singleton.1 hc
            decide
          · obtain rfl := List.mem_singleton.1 hc
            decide
        · exact quiet_of_digit (hdigits.2 c hc)

/-! ### Strings, arrays and objects -/

theorem Piece.run {piece : List Char} (h : Piece piece) (opening : Char) (depth : Nat) :
    run opening ⟨depth, true, false⟩ piece = some ⟨depth, true, false⟩ := by
  cases h with
  | plain c hquote hescape _ => simp [StructuredOutput.run, Cursor.next, hquote, hescape]
  | escape c hc => simp [StructuredOutput.run, Cursor.next]
  | unicode digits _ hhex =>
    have hdigits : ∀ ds : List Char, (∀ c ∈ ds, Text.isHexDigit c = true) →
        StructuredOutput.run opening ⟨depth, true, false⟩ ds = some ⟨depth, true, false⟩ := by
      intro ds hds
      induction ds with
      | nil => rfl
      | cons c ds ih =>
        have hc := hds c (.head _)
        have hquote : c ≠ '"' := by
          rintro rfl
          revert hc
          decide
        have hescape : c ≠ '\\' := by
          rintro rfl
          revert hc
          decide
        have hnext : Cursor.next opening ⟨depth, true, false⟩ c = some ⟨depth, true, false⟩ := by
          simp [Cursor.next, hquote, hescape]
        rw [StructuredOutput.run, foldlM_cons, hnext]
        exact ih (fun d hd => hds d (mem_cons_of_mem c hd))
    have hstart : StructuredOutput.run opening ⟨depth, true, false⟩ ('\\' :: 'u' :: digits) =
        StructuredOutput.run opening ⟨depth, true, false⟩ digits := by
      simp [StructuredOutput.run, Cursor.next]
    rw [hstart, hdigits digits hhex]

theorem Quoted.neutral (h : Quoted text) : Neutral opening text := by
  obtain ⟨pieces, hpieces, rfl⟩ := h
  intro depth hdepth
  have hbody : run opening ⟨depth, true, false⟩ pieces.flatten = some ⟨depth, true, false⟩ := by
    induction pieces with
    | nil => rfl
    | cons piece pieces ih =>
      have hfirst := (hpieces piece (.head _)).run opening depth
      have hrest := ih (fun q hq => hpieces q (mem_cons_of_mem piece hq))
      unfold run at hfirst hrest ⊢
      rw [List.flatten_cons, foldlM_append, hfirst]
      exact hrest
  unfold run at hbody ⊢
  change (pieces.flatten ++ ['"']).foldlM _ _ = _
  rw [foldlM_append, hbody]
  simp [Cursor.next]

theorem neutral_brackets (hopening : isOpening opening = true) {o : Char} (ho : isOpening o = true) {body : List Char}
    (h : Neutral opening body) : Neutral opening (o :: (body ++ [closing o])) := by
  intro depth hdepth
  simp only [isOpening, Bool.or_eq_true, beq_iff_eq] at hopening ho
  have hbody := h depth hdepth
  have hbody' := h (depth + 1) (by omega)
  unfold run at hbody hbody' ⊢
  rcases hopening with rfl | rfl <;> rcases ho with rfl | rfl
  · change (body ++ [closing '{']).foldlM _ _ = _
    rw [foldlM_append, hbody']
    simp [Cursor.next, closing, Nat.ne_of_gt hdepth]
  · change (body ++ [closing '[']).foldlM _ _ = _
    rw [foldlM_append, hbody]
    simp [Cursor.next, closing]
  · change (body ++ [closing '{']).foldlM _ _ = _
    rw [foldlM_append, hbody]
    simp [Cursor.next, closing]
  · change (body ++ [closing '[']).foldlM _ _ = _
    rw [foldlM_append, hbody']
    simp [Cursor.next, closing, Nat.ne_of_gt hdepth]

theorem neutral_list (hopening : isOpening opening = true) : ∀ {texts : List (List Char)},
    (∀ text ∈ texts, Neutral opening text) → Neutral opening ([','].intercalate texts)
  | [], _ => neutral_nil
  | [text], h => by
    rw [List.intercalate_singleton]
    exact h text (.head _)
  | text :: text' :: texts, h => by
    have hcomma : Neutral opening [','] := by
      refine neutral_quiet hopening (fun c hc => ?_)
      obtain rfl := List.mem_singleton.1 hc
      decide
    rw [List.intercalate_cons_cons]
    exact ((h text (.head _)).append hcomma).append
      (neutral_list hopening (fun other hother => h other (mem_cons_of_mem text hother)))

theorem Keyed.neutral (hopening : isOpening opening = true) {before : List Char} (h : Keyed before) :
    Neutral opening before := by
  obtain ⟨_, _, _, _, hws, hkey, hws', hws'', rfl⟩ := h
  refine (((neutral_quiet hopening (quiet_of_blank hws)).append hkey.neutral).append
    (neutral_quiet hopening (quiet_of_blank hws'))).append (neutral_quiet hopening (fun c hc => ?_))
  rcases List.mem_cons.1 hc with rfl | hc
  · decide
  · exact quiet_of_blank hws'' c hc

theorem neutral_slots (hopening : isOpening opening = true) {slots : List Slot}
    (hbefore : ∀ slot ∈ slots, Neutral opening slot.before) (hafter : ∀ slot ∈ slots, Blank slot.after)
    (hvalue : ∀ slot ∈ slots, Neutral opening slot.value) :
    Neutral opening ([','].intercalate (slots.map Slot.text)) := by
  refine neutral_list hopening (fun text htext => ?_)
  obtain ⟨slot, hslot, rfl⟩ := List.mem_map.1 htext
  exact ((hbefore slot hslot).append (hvalue slot hslot)).append
    (neutral_quiet hopening (quiet_of_blank (hafter slot hslot)))

theorem Value.neutral (hopening : isOpening opening = true) (h : Value text) : Neutral opening text := by
  induction h with
  | literal text h => exact neutral_quiet hopening (quiet_of_literal h)
  | number text h => exact neutral_quiet hopening h.quiet
  | string text h => exact h.neutral
  | emptyArray ws h => exact neutral_brackets hopening (o := '[') rfl (neutral_quiet hopening (quiet_of_blank h))
  | array slots hne hspace hvalue ih =>
    refine neutral_brackets hopening (o := '[') rfl (neutral_slots hopening (fun slot hslot => ?_)
      (fun slot hslot => (hspace slot hslot).2) ih)
    exact neutral_quiet hopening (quiet_of_blank (hspace slot hslot).1)
  | emptyObject ws h => exact neutral_brackets hopening (o := '{') rfl (neutral_quiet hopening (quiet_of_blank h))
  | object slots hne hspace hvalue ih =>
    exact neutral_brackets hopening (o := '{') rfl (neutral_slots hopening
      (fun slot hslot => (hspace slot hslot).1.neutral hopening) (fun slot hslot => (hspace slot hslot).2) ih)

variable {t : List Char}

theorem Composite.brackets (h : Composite t) : ∃ o body, isOpening o = true ∧ t = o :: (body ++ [closing o]) ∧
    ∀ opening, isOpening opening = true → Neutral opening body := by
  obtain ⟨hvalue, hhead⟩ := h
  cases hvalue with
  | literal _ h => cases not_opening_of_quiet (quiet_of_literal h) hhead
  | number _ h => cases not_opening_of_quiet h.quiet hhead
  | string _ h =>
    obtain ⟨_, -, rfl⟩ := h
    simp at hhead
  | emptyArray ws h => exact ⟨'[', ws, rfl, rfl, fun opening ho => neutral_quiet ho (quiet_of_blank h)⟩
  | array slots hne hspace hvalue =>
    exact ⟨'[', _, rfl, rfl, fun opening ho => neutral_slots ho
      (fun slot hslot => neutral_quiet ho (quiet_of_blank (hspace slot hslot).1)) (fun slot hslot => (hspace slot hslot).2)
      (fun slot hslot => (hvalue slot hslot).neutral ho)⟩
  | emptyObject ws h => exact ⟨'{', ws, rfl, rfl, fun opening ho => neutral_quiet ho (quiet_of_blank h)⟩
  | object slots hne hspace hvalue =>
    exact ⟨'{', _, rfl, rfl, fun opening ho => neutral_slots ho (fun slot hslot => (hspace slot hslot).1.neutral ho)
      (fun slot hslot => (hspace slot hslot).2) (fun slot hslot => (hvalue slot hslot).neutral ho)⟩

variable {p s : List Char}

theorem firstJsonBlock_composite (ht : Composite t) (hp : ∀ c ∈ p, isOpening c = false) :
    firstJsonBlock (p ++ t ++ s) = some t := by
  obtain ⟨o, body, ho, rfl, hneutral⟩ := ht.brackets
  have hdrop : (p ++ o :: (body ++ [closing o]) ++ s).dropWhile (fun c => !isOpening c) = o :: (body ++ closing o :: s) := by
    rw [append_assoc, List.dropWhile_append_of_pos (fun c hc => by rw [hp c hc]; rfl)]
    simp [ho]
  have hopen : Cursor.next o ⟨0, false, false⟩ o = some ⟨1, false, false⟩ := by
    have hquote : o ≠ '"' := by
      rintro rfl
      revert ho
      decide
    simp [Cursor.next, hquote]
  have hclose : Cursor.next o ⟨1, false, false⟩ (closing o) = none := by
    simp only [isOpening, Bool.or_eq_true, beq_iff_eq] at ho
    rcases ho with rfl | rfl <;> decide
  rw [firstJsonBlock, hdrop]
  dsimp only
  rw [block, hopen]
  dsimp only
  rw [block_append _ (hneutral o ho 1 (Nat.le_refl 1)), block, hclose]
  rfl

/-! ## Trimming and fences -/

/-- A text between brackets: neither end of it is white space or a fence. -/
structure Bracketed (t : List Char) : Prop where
  head : ∃ o rest, t = o :: rest ∧ isWhitespace o = false ∧ o ∉ fence
  last : ∃ front c, t = front ++ [c] ∧ isWhitespace c = false ∧ c ∉ fence

theorem Composite.bracketed (h : Composite t) : Bracketed t := by
  obtain ⟨o, body, ho, rfl, -⟩ := h.brackets
  simp only [isOpening, Bool.or_eq_true, beq_iff_eq] at ho
  refine ⟨⟨o, _, rfl, ?_, ?_⟩, ⟨o :: body, closing o, rfl, ?_, ?_⟩⟩ <;> rcases ho with rfl | rfl <;> decide

theorem dropWhile_stop {α : Type} {q : α → Bool} {x : α} (hx : q x = false) (rest : List α) : ∀ front : List α,
    (front ++ x :: rest).dropWhile q = front.dropWhile q ++ x :: rest
  | [] => by simp [hx]
  | a :: front => by
    rw [cons_append, List.dropWhile_cons, List.dropWhile_cons]
    split
    · exact dropWhile_stop hx rest front
    · rfl

theorem trim_bracketed {p t s : List Char} (ht : Bracketed t) :
    trim (p ++ t ++ s) = p.dropWhile isWhitespace ++ t ++ s.rdropWhile isWhitespace := by
  obtain ⟨⟨o, rest, rfl, ho, -⟩, ⟨_, c, hlast, hc, -⟩⟩ := ht
  have hfront : (p ++ o :: rest ++ s).dropWhile isWhitespace = p.dropWhile isWhitespace ++ o :: rest ++ s := by
    rw [append_assoc, cons_append, dropWhile_stop ho, append_assoc, cons_append]
  have hback : ∀ xs : List Char, (xs ++ o :: rest ++ s).rdropWhile isWhitespace =
      xs ++ o :: rest ++ s.rdropWhile isWhitespace := by
    intro xs
    rw [hlast, List.rdropWhile, List.reverse_append, List.reverse_append, List.reverse_append, List.reverse_singleton,
      List.singleton_append, cons_append, dropWhile_stop hc]
    simp [List.rdropWhile]
  rw [trim, hfront, hback]

theorem fence_before (ht : Bracketed t) (h : fence <+: p ++ t ++ s) : ∃ rest, p = fence ++ rest := by
  obtain ⟨⟨o, rest, rfl, -, ho⟩, -⟩ := ht
  by_cases hlength : fence.length ≤ p.length
  · obtain ⟨after, hafter⟩ := List.prefix_of_prefix_length_le h (List.prefix_append_of_prefix (List.prefix_append p _)) hlength
    exact ⟨after, hafter.symm⟩
  · have hprefix : p ++ [o] <+: p ++ o :: rest ++ s := ⟨rest ++ s, by simp⟩
    have hin := List.prefix_of_prefix_length_le hprefix h (by simp only [length_append, List.length_singleton]; omega)
    cases ho (hin.subset (by simp))

theorem stripFenceEnd_bracketed (ht : Bracketed t) (p s : List Char) :
    ∃ s', stripFenceEnd (p ++ t ++ s) = p ++ t ++ s' := by
  obtain ⟨-, ⟨front, c, rfl, -, hc⟩⟩ := ht
  unfold stripFenceEnd
  split
  · rename_i hsuffix
    have hlength : 3 ≤ s.length := by
      by_contra hshort
      have hown : c :: s <:+ p ++ (front ++ [c]) ++ s := ⟨p ++ front, by simp⟩
      have hin := List.suffix_of_suffix_length_le hown hsuffix (by simp [fence]; omega)
      exact hc (hin.subset (.head _))
    refine ⟨s.take (s.length - 3), ?_⟩
    have hcount : (p ++ (front ++ [c]) ++ s).length - 3 = (p ++ (front ++ [c])).length + (s.length - 3) := by
      rw [length_append]
      omega
    rw [hcount, List.take_length_add_append]
  · exact ⟨s, rfl⟩

theorem dropLanguageTag_bracketed (hline : '\n' ∈ t ++ s → '\n' ∈ p) :
    ∃ p', dropLanguageTag (p ++ t ++ s) = p' ++ t ++ s ∧ p' <:+ p := by
  unfold dropLanguageTag
  by_cases hin : '\n' ∈ p
  · obtain ⟨before, after, rfl, hbefore⟩ := List.eq_append_cons_of_mem hin
    have hskip : ∀ c ∈ before, (c != '\n') = true := by
      intro c hc
      rw [bne_iff_ne]
      rintro rfl
      exact hbefore hc
    have hdrop : (before ++ '\n' :: after ++ t ++ s).dropWhile (fun c => c != '\n') = '\n' :: (after ++ t ++ s) := by
      rw [append_assoc, append_assoc, List.dropWhile_append_of_pos hskip]
      simp
    rw [hdrop]
    exact ⟨after, rfl, ⟨before ++ ['\n'], by simp⟩⟩
  · have hnone : ∀ c ∈ p ++ t ++ s, (c != '\n') = true := by
      intro c hc
      rw [bne_iff_ne]
      rintro rfl
      rw [append_assoc] at hc
      rcases List.mem_append.1 hc with hc | hc
      · exact hin hc
      · exact hin (hline hc)
    rw [List.dropWhile_eq_nil_iff.2 hnone]
    exact ⟨p, rfl, List.suffix_rfl⟩

/-- The line that a fence opens ends before the text, or not at all. -/
def LineEnds (p t s : List Char) : Prop :=
  fence <+: trim (p ++ t ++ s) → '\n' ∈ t ++ s.rdropWhile isWhitespace → '\n' ∈ p.dropWhile isWhitespace

theorem stripCodeFence_bracketed (ht : Bracketed t) (hline : LineEnds p t s) :
    ∃ p' s', stripCodeFence (trim (p ++ t ++ s)) = p' ++ t ++ s' ∧ p' <:+ p := by
  have hsuffix : p.dropWhile isWhitespace <:+ p := List.dropWhile_suffix _
  have htwice : trim (trim (p ++ t ++ s)) = trim (p ++ t ++ s) := by
    rw [trim_bracketed ht, trim_bracketed ht, List.dropWhile_idempotent, List.rdropWhile_idempotent]
  unfold stripCodeFence
  dsimp only
  rw [htwice]
  split
  · rename_i hfence
    have hline' := hline hfence
    rw [trim_bracketed ht] at hfence ⊢
    obtain ⟨rest, hrest⟩ := fence_before ht hfence
    rw [hrest] at hsuffix hline' ⊢
    have hdrop : (fence ++ rest ++ t ++ s.rdropWhile isWhitespace).drop 3 = rest ++ t ++ s.rdropWhile isWhitespace := by
      rw [append_assoc, append_assoc, append_assoc]
      exact List.drop_left' rfl
    have hrestline : '\n' ∈ t ++ s.rdropWhile isWhitespace → '\n' ∈ rest := by
      intro hin
      rcases List.mem_append.1 (hline' hin) with hin | hin
      · exact absurd hin (by decide)
      · exact hin
    obtain ⟨p', hp', hsub⟩ := dropLanguageTag_bracketed hrestline
    obtain ⟨s', hs'⟩ := stripFenceEnd_bracketed ht p' (s.rdropWhile isWhitespace)
    rw [hdrop, hp', hs', trim_bracketed ht]
    exact ⟨_, _, rfl, (List.dropWhile_suffix _).trans (hsub.trans ((List.suffix_append fence rest).trans hsuffix))⟩
  · rw [trim_bracketed ht]
    exact ⟨_, _, rfl, hsuffix⟩

theorem stripCodeFence_lines {tag : List Char} (ht : Bracketed t) (htag : '\n' ∉ tag) :
    stripCodeFence (trim (fence ++ tag ++ ['\n'] ++ t ++ ('\n' :: fence))) = t := by
  have htrim : trim (fence ++ tag ++ ['\n'] ++ t ++ ('\n' :: fence)) = fence ++ tag ++ ['\n'] ++ t ++ ('\n' :: fence) := by
    rw [trim_bracketed ht]
    rfl
  have hdrop : (fence ++ tag ++ ['\n'] ++ t ++ ('\n' :: fence)).drop 3 = tag ++ '\n' :: (t ++ '\n' :: fence) := by
    simp only [append_assoc]
    exact List.drop_left' rfl
  have hfirst : dropLanguageTag (tag ++ '\n' :: (t ++ '\n' :: fence)) = t ++ '\n' :: fence := by
    have hskip : ∀ c ∈ tag, (c != '\n') = true := by
      intro c hc
      rw [bne_iff_ne]
      rintro rfl
      exact htag hc
    rw [dropLanguageTag, List.dropWhile_append_of_pos hskip]
    simp
  have hend : stripFenceEnd (t ++ '\n' :: fence) = t ++ ['\n'] := by
    have hsplit : t ++ '\n' :: fence = t ++ ['\n'] ++ fence := by simp
    rw [stripFenceEnd, hsplit, if_pos (List.suffix_append _ _), length_append]
    exact List.take_left' (Nat.add_sub_cancel _ 3).symm
  unfold stripCodeFence
  rw [htrim, htrim, if_pos (by simp only [append_assoc]; exact List.prefix_append _ _), hdrop, hfirst, hend]
  have hlast := @trim_bracketed [] t ['\n'] ht
  rw [List.nil_append] at hlast
  rw [hlast]
  exact List.append_nil t

/-- **Structured output is salvaged.**  An object or an array is read from any text that has no bracket before it, where
the text without its fence is not JSON itself and the fence's line does not go past it; a fence with it on the lines
between is always stripped. -/
theorem output_is_salvaged (fromStr : List Char → Option Json) (t : List Char) (v : Json) (ht : Composite t)
    (hv : fromStr t = some v) : (∀ p s, (∀ c ∈ p, c ≠ '{' ∧ c ≠ '[') → LineEnds p t s →
      fromStr (stripCodeFence (trim (p ++ t ++ s))) = none ∨ stripCodeFence (trim (p ++ t ++ s)) = t →
      parseJson fromStr (p ++ t ++ s) = .ok v) ∧
    ∀ tag, '\n' ∉ tag → parseJson fromStr (fence ++ tag ++ ['\n'] ++ t ++ ('\n' :: fence)) = .ok v := by
  refine ⟨fun p s hp hline hjson => ?_, fun tag htag => ?_⟩
  · unfold parseJson
    dsimp only
    rcases hjson with hnone | htext
    · obtain ⟨p', _, heq, hsub⟩ := stripCodeFence_bracketed ht.bracketed hline
      have hp' : ∀ c ∈ p', isOpening c = false := by
        intro c hc
        obtain ⟨hbrace, hbracket⟩ := hp c (hsub.subset hc)
        simp [isOpening, hbrace, hbracket]
      rw [hnone, heq, firstJsonBlock_composite ht hp', Option.bind_some, hv]
    · rw [htext, hv]
  · rw [parseJson, stripCodeFence_lines ht.bracketed htag, hv]

/-- The JSON reader on the empty object and on a string that shows it. -/
def someReader (text : List Char) : Option Json :=
  if text = ['{', '}'] then some (.object [])
  else if text = ['"', '{', '}', '"'] then some (.string "\x7b\x7d")
  else none

theorem output_is_salvaged_prose :
    parseJson someReader ("Here: ".toList ++ ['{', '}'] ++ " done.".toList) = .ok (.object []) := by
  have ht : Composite ['{', '}'] := ⟨.emptyObject [] (by simp [Blank]), .inl rfl⟩
  exact (output_is_salvaged someReader ['{', '}'] (.object []) ht rfl).1 "Here: ".toList " done.".toList
    (by simp) (by unfold LineEnds; decide) (.inl (by decide))

/-- A fence around a string that shows an object is stripped, and the string is the answer. -/
theorem not_output_is_salvaged : ¬ ∀ (fromStr : List Char → Option Json) (t : List Char) (v : Json), Composite t →
    fromStr t = some v → ∀ p s, (∀ c ∈ p, c ≠ '{' ∧ c ≠ '[') → fromStr (trim (p ++ t ++ s)) = none →
      parseJson fromStr (p ++ t ++ s) = .ok v := by
  intro hall
  have ht : Composite ['{', '}'] := ⟨.emptyObject [] (by simp [Blank]), .inl rfl⟩
  have hparse := hall someReader ['{', '}'] (.object []) ht rfl (fence ++ ['\n', '"']) ('"' :: '\n' :: fence)
    (by simp [fence]) (by decide)
  have hstring : parseJson someReader (fence ++ ['\n', '"'] ++ ['{', '}'] ++ ('"' :: '\n' :: fence)) =
      .ok (.string "\x7b\x7d") := by rfl
  exact absurd (hstring.symm.trans hparse) (by simp)

end Iteron.StructuredOutput
