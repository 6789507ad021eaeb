import Iteron.Machine
import Mathlib.Data.List.Chain
import Mathlib.Algebra.BigOperators.Group.List.Basic
import Mathlib.Algebra.Ring.Nat
/-!
# McpSse — the lines and the events of an MCP event stream

A body comes in reads of any size.  The line reader splits it at any of the three terminators, also when a terminator is
cut by a read; the decoder collects the fields of a block and dispatches it at the blank line that closes it.
-/
namespace Iteron.McpSse

open Machine (u64Max checkedAdd)

inductive McpError where
  | responseTooLarge (limit : Nat)
  | frameTooLarge (limit : Nat)
  | tooManyFrames (limit : Nat)

/-! ## Lines -/

/-- The reader: what its buffer still holds and then the reads to come, and whether it follows a carriage return. -/
structure SseLineReader where
  chunks : List (List UInt8)
  swallowLeadingLf : Bool := false

def isTerminator (b : UInt8) : Bool := b == 10 || b == 13

def refill : List (List UInt8) → List (List UInt8)
  | [] => []
  | chunk :: rest => if chunk.isEmpty then refill rest else chunk :: rest

/-- The loop of `next_line`, once the flag was looked at. -/
def scanLine (limit : Nat) (line : List UInt8) :
    List (List UInt8) → Except McpError (Option (List UInt8)) × SseLineReader
  | [] => (.ok none, ⟨[], false⟩)
  | chunk :: rest =>
    if chunk.isEmpty then scanLine limit line rest
    else
      match chunk.findIdx? isTerminator with
      | some position =>
        if limit - line.length < position then (.error (.frameTooLarge limit), ⟨chunk :: rest, false⟩)
        else
          (.ok (some (line ++ chunk.take position)), ⟨chunk.drop (position + 1) :: rest, chunk[position]? == some 13⟩)
      | none =>
        if limit - line.length < chunk.length then (.error (.frameTooLarge limit), ⟨chunk :: rest, false⟩)
        else scanLine limit (line ++ chunk) rest

def nextLine (limit : Nat) (reader : SseLineReader) : Except McpError (Option (List UInt8)) × SseLineReader :=
  match refill reader.chunks with
  | [] => (.ok none, { reader with chunks := [] })
  | chunk :: rest =>
    if reader.swallowLeadingLf then
      scanLine limit [] ((if chunk.head? = some 10 then chunk.drop 1 else chunk) :: rest)
    else scanLine limit [] (chunk :: rest)

def nextLines (limit : Nat) : Nat → SseLineReader → Except McpError (List (Option (List UInt8)))
  | 0, _ => .ok []
  | n + 1, reader =>
    match nextLine limit reader with
    | (.error e, _) => .error e
    | (.ok line, reader') => (nextLines limit n reader').map (line :: ·)

inductive Terminator where
  | lf
  | cr
  | crlf
  deriving DecidableEq

def Terminator.bytes : Terminator → List UInt8
  | .lf => [10]
  | .cr => [13]
  | .crlf => [13, 10]

def body (lines : List (List UInt8 × Terminator)) : List UInt8 := lines.flatMap (fun l => l.1 ++ l.2.bytes)

/-- Nowhere does a bare carriage return stand before an empty line that a line feed ends: the two would be one
terminator. -/
def Unambiguous (lines : List (List UInt8 × Terminator)) : Prop :=
  lines.IsChain (fun l l' => ¬ (l.2 = .cr ∧ l' = ([], .lf)))

section Reader

variable {limit : Nat} {line l rest : List UInt8} {chunks : List (List UInt8)} {b : UInt8}

theorem flatten_refill (chunks : List (List UInt8)) : (refill chunks).flatten = chunks.flatten := by
  induction chunks with
  | nil => rfl
  | cons _ _ ih =>
    unfold refill
    split
    · rename_i hempty
      rw [ih, List.flatten_cons, List.isEmpty_iff.1 hempty, List.nil_append]
    · rfl

theorem refill_head {chunk : List UInt8} {rest : List (List UInt8)} (h : refill chunks = chunk :: rest) : chunk ≠ [] := by
  induction chunks with
  | nil => cases h
  | cons c _ ih =>
    unfold refill at h
    split at h
    · exact ih h
    · rename_i hne
      cases h
      exact fun he => hne (List.isEmpty_iff.2 he)

theorem findIdx_terminator (hl : ∀ x ∈ l, isTerminator x = false) (hb : isTerminator b = true) :
    (l ++ b :: rest).findIdx? isTerminator = some l.length := by
  induction l with
  | nil => simp [List.findIdx?_cons, hb]
  | cons x l ih =>
    have hx := hl x (.head _)
    have hrest := ih (fun y hy => hl y (List.mem_cons_of_mem x hy))
    simp [List.findIdx?_cons, hx, hrest]

theorem scanLine_found (hl : ∀ x ∈ l, isTerminator x = false) (hb : isTerminator b = true)
    (hlimit : line.length + l.length ≤ limit) (h : chunks.flatten = l ++ b :: rest) :
    ∃ chunks', scanLine limit line chunks = (.ok (some (line ++ l)), ⟨chunks', b == 13⟩) ∧ chunks'.flatten = rest := by
  induction chunks generalizing line l with
  | nil => cases l <;> cases h
  | cons chunk more ih =>
    unfold scanLine
    rw [List.flatten_cons] at h
    by_cases hempty : chunk.isEmpty = true
    · rw [List.isEmpty_iff.1 hempty, List.nil_append] at h
      rw [if_pos hempty]
      exact ih hl hlimit h
    · rw [if_neg hempty]
      rcases List.append_eq_append_iff.1 h with ⟨l', rfl, hmore⟩ | ⟨chunk', rfl, hchunk⟩
      · -- the whole chunk is inside the line
        have hnone : chunk.findIdx? isTerminator = none :=
          List.findIdx?_eq_none_iff.2 (fun x hx => hl x (List.mem_append_left _ hx))
        rw [List.length_append] at hlimit
        rw [hnone]
        rw [if_neg (by omega)]
        obtain ⟨chunks', hscan, hrest⟩ := @ih (line ++ chunk) l' (fun x hx => hl x (List.mem_append_right _ hx))
          (by rw [List.length_append]; omega) hmore
        exact ⟨chunks', by rw [hscan, List.append_assoc], hrest⟩
      · cases chunk' with
        | nil =>
          -- the line ends with the chunk
          have hnone : (l ++ []).findIdx? isTerminator = none :=
            List.findIdx?_eq_none_iff.2 (fun x hx => hl x (by simpa using hx))
          rw [hnone]
          rw [List.append_nil, if_neg (by omega)]
          obtain ⟨chunks', hscan, hrest⟩ := @ih (line ++ l) [] (fun x hx => absurd hx List.not_mem_nil)
            (by rw [List.length_append]; exact hlimit) hchunk.symm
          exact ⟨chunks', by rw [hscan, List.append_nil], hrest⟩
        | cons _ chunk' =>
          obtain ⟨rfl, hrest⟩ := List.cons.inj hchunk
          rw [findIdx_terminator hl hb]
          dsimp only
          rw [if_neg (by omega)]
          refine ⟨chunk' :: more, ?_, hrest.symm⟩
          have hdrop : (l ++ b :: chunk').drop (l.length + 1) = chunk' := by
            rw [List.drop_length_add_append]
            rfl
          have hget : (l ++ b :: chunk')[l.length]? = some b := by
            rw [List.getElem?_append_right (Nat.le_refl _), Nat.sub_self]
            rfl
          rw [List.take_left, hdrop, hget]
          rfl

theorem scanLine_end (h : chunks.flatten = []) : (scanLine limit line chunks).1 = .ok none := by
  induction chunks with
  | nil => rfl
  | cons _ _ ih =>
    rw [List.flatten_cons, List.append_eq_nil_iff] at h
    unfold scanLine
    rw [if_pos (List.isEmpty_iff.2 h.1)]
    exact ih h.2

/-- The reader has still to return the lines of these bytes. -/
def Stands (reader : SseLineReader) (bytes : List UInt8) : Prop :=
  (reader.chunks.flatten = bytes ∧ (reader.swallowLeadingLf = true → bytes.head? ≠ some 10)) ∨
    (reader.chunks.flatten = 10 :: bytes ∧ reader.swallowLeadingLf = true)

variable {reader : SseLineReader}

theorem nextLine_scan {bytes : List UInt8} (h : Stands reader bytes) (hne : bytes ≠ []) :
    ∃ chunks, nextLine limit reader = scanLine limit [] chunks ∧ chunks.flatten = bytes := by
  unfold nextLine
  cases hfill : refill reader.chunks with
  | nil =>
    have hflat : reader.chunks.flatten = [] := by rw [← flatten_refill, hfill]; rfl
    rcases h with ⟨heq, -⟩ | ⟨heq, -⟩
    · exact absurd (heq.symm.trans hflat) hne
    · cases heq.symm.trans hflat
  | cons chunk rest =>
    have hflat : reader.chunks.flatten = chunk ++ rest.flatten := by rw [← flatten_refill, hfill]; rfl
    obtain ⟨x, xs, rfl⟩ := List.exists_cons_of_ne_nil (refill_head hfill)
    dsimp only
    rcases h with ⟨heq, hfirst⟩ | ⟨heq, hswallow⟩
    · refine ⟨(x :: xs) :: rest, ?_, hflat.symm.trans heq⟩
      split
      · rename_i hswallow
        have hx : (x :: xs).head? ≠ some 10 := by
          have := hfirst hswallow
          rw [← heq, hflat] at this
          exact this
        rw [if_neg hx]
      · rfl
    · rw [hflat, List.cons_append, List.cons.injEq] at heq
      obtain ⟨rfl, htail⟩ := heq
      refine ⟨xs :: rest, ?_, htail⟩
      rw [if_pos hswallow]
      rfl

theorem nextLine_found (hr : Stands reader (l ++ b :: rest)) (hl : ∀ x ∈ l, isTerminator x = false)
    (hb : isTerminator b = true) (hlimit : l.length ≤ limit) :
    ∃ chunks', nextLine limit reader = (.ok (some l), ⟨chunks', b == 13⟩) ∧ chunks'.flatten = rest := by
  obtain ⟨chunks, hscan, hflat⟩ := @nextLine_scan limit reader _ hr (by simp)
  rw [hscan]
  exact @scanLine_found limit [] l rest chunks b hl hb (by simpa using hlimit) hflat

theorem nextLine_end (hr : Stands reader []) : (nextLine limit reader).1 = .ok none := by
  unfold nextLine
  cases hfill : refill reader.chunks with
  | nil => rfl
  | cons chunk rest =>
    have hflat : reader.chunks.flatten = chunk ++ rest.flatten := by rw [← flatten_refill, hfill]; rfl
    obtain ⟨x, _, rfl⟩ := List.exists_cons_of_ne_nil (refill_head hfill)
    rcases hr with ⟨heq, -⟩ | ⟨heq, hswallow⟩
    · cases heq.symm.trans hflat
    · rw [hflat, List.cons_append, List.cons.injEq] at heq
      obtain ⟨rfl, htail⟩ := heq
      dsimp only
      rw [if_pos hswallow]
      exact scanLine_end htail

end Reader

theorem isTerminator_cases {b : UInt8} : isTerminator b = true ↔ b = 10 ∨ b = 13 := by
  simp [isTerminator]

theorem body_head {lines : List (List UInt8 × Terminator)}
    (hlines : ∀ l ∈ lines, ∀ x ∈ l.1, isTerminator x = false) (h : Unambiguous (([], .cr) :: lines)) :
    (body lines).head? ≠ some 10 := by
  cases lines with
  | nil => exact fun heq => by cases heq
  | cons l lines =>
    obtain ⟨bytes, t⟩ := l
    have hnot := (List.isChain_cons_cons.1 h).1
    cases bytes with
    | nil =>
      cases t with
      | lf => exact absurd ⟨rfl, rfl⟩ hnot
      | cr => exact fun heq => by cases heq
      | crlf => exact fun heq => by cases heq
    | cons x _ =>
      have hx := hlines _ (.head _) x (.head _)
      intro heq
      cases heq
      cases hx

/-- **The lines of a body are returned one by one**, whatever their terminators and however the body was cut. -/
theorem nextLines_body {limit : Nat} {lines : List (List UInt8 × Terminator)} {reader : SseLineReader}
    (hlines : ∀ l ∈ lines, ∀ x ∈ l.1, isTerminator x = false) (hplain : Unambiguous lines)
    (hlimit : ∀ l ∈ lines, l.1.length ≤ limit) (hr : Stands reader (body lines)) :
    nextLines limit (lines.length + 1) reader = .ok (lines.map (fun l => some l.1) ++ [none]) := by
  induction lines generalizing reader with
  | nil =>
    have hend := @nextLine_end limit reader hr
    unfold nextLines
    split
    · rename_i heq
      rw [heq] at hend
      cases hend
    · rename_i line reader' heq
      rw [heq] at hend
      cases hend
      rfl
  | cons line lines ih =>
    obtain ⟨bytes, t⟩ := line
    have htail : ∀ l ∈ lines, ∀ x ∈ l.1, isTerminator x = false := fun l hl => hlines l (.tail _ hl)
    have hstep : ∃ reader', nextLine limit reader = (.ok (some bytes), reader') ∧ Stands reader' (body lines) := by
      have hfree := hlines _ (.head _)
      have hfits := hlimit _ (.head _)
      cases t with
      | lf =>
        have heq : body ((bytes, .lf) :: lines) = bytes ++ 10 :: body lines := by
          simp [body, Terminator.bytes]
        rw [heq] at hr
        obtain ⟨chunks', hnext, hflat⟩ := nextLine_found hr hfree rfl hfits
        exact ⟨_, hnext, .inl ⟨hflat, fun hswallow => by cases hswallow⟩⟩
      | cr =>
        have heq : body ((bytes, .cr) :: lines) = bytes ++ 13 :: body lines := by
          simp [body, Terminator.bytes]
        rw [heq] at hr
        obtain ⟨chunks', hnext, hflat⟩ := nextLine_found hr hfree rfl hfits
        refine ⟨_, hnext, .inl ⟨hflat, fun _ => body_head htail ?_⟩⟩
        cases lines with
        | nil => exact List.isChain_singleton _
        | cons _ lines => exact List.isChain_cons_cons.2 (List.isChain_cons_cons.1 hplain)
      | crlf =>
        have heq : body ((bytes, .crlf) :: lines) = bytes ++ 13 :: 10 :: body lines := by
          simp [body, Terminator.bytes]
        rw [heq] at hr
        obtain ⟨chunks', hnext, hflat⟩ := nextLine_found hr hfree rfl hfits
        exact ⟨_, hnext, .inr ⟨hflat, rfl⟩⟩
    obtain ⟨reader', hnext, hstands⟩ := hstep
    have hrest := ih htail hplain.tail (fun l hl => hlimit l (.tail _ hl)) hstands
    simp only [nextLines, hnext, List.length_cons] at hrest ⊢
    rw [hrest]
    rfl

/-! ## Events -/

structure SseLimits where
  eventBytes : Nat
  aggregateBytes : Nat
  events : Nat
  /-- The ceilings are machine words. -/
  aggregate_le : aggregateBytes ≤ u64Max

structure SseEvent where
  event : Option String := none
  data : String
  id : Option String := none
  retryMs : Option Nat := none

structure Pending where
  event : Option String := none
  data : String := ""
  hasData : Bool := false
  id : Option String := none
  retryMs : Option Nat := none

structure SseDecoder where
  limits : SseLimits
  pending : Pending := {}
  bytesSeen : Nat := 0
  eventsDispatched : Nat := 0
  atStreamStart : Bool := true

/-- `u64::from_str` of a text of digits. -/
def parseDigits (value : String) : Option Nat :=
  let n := value.toList.foldl (fun n c => 10 * n + (c.toNat - 48)) 0
  if n ≤ u64Max then some n else none

def isDigits (value : String) : Bool := !value.toList.isEmpty && value.toList.all Char.isDigit

/-- The field and the value of a line that is no comment. -/
def splitField (line : String) : String × String :=
  match line.toList.span (· ≠ ':') with
  | (field, ':' :: ' ' :: value) => (String.ofList field, String.ofList value)
  | (field, ':' :: value) => (String.ofList field, String.ofList value)
  | _ => (line, "")

def Pending.field (limits : SseLimits) (p : Pending) : String × String → Except McpError Pending
  | (field, value) =>
    if field = "event" then .ok { p with event := some value }
    else if field = "data" then
      if limits.eventBytes < p.data.utf8ByteSize + value.utf8ByteSize + (if p.hasData then 1 else 0) then
        .error (.frameTooLarge limits.eventBytes)
      else .ok { p with data := (if p.hasData then p.data ++ "\n" else p.data) ++ value, hasData := true }
    else if field = "id" ∧ '\x00' ∉ value.toList then .ok { p with id := some value }
    else if field = "retry" ∧ isDigits value = true then .ok { p with retryMs := parseDigits value }
    else .ok p

def SseDecoder.dispatch (d : SseDecoder) : Except McpError (SseDecoder × Option SseEvent) :=
  if d.pending.hasData then
    if d.limits.events < d.eventsDispatched + 1 then .error (.tooManyFrames d.limits.events)
    else
      .ok ({ d with pending := {}, eventsDispatched := d.eventsDispatched + 1 },
        some ⟨d.pending.event, d.pending.data, d.pending.id, d.pending.retryMs⟩)
  else .ok ({ d with pending := {} }, none)

def isComment (line : String) : Bool := line.toList.head? == some ':'

/-- `push_line` behind the byte count and the byte order mark. -/
def SseDecoder.readLine (d : SseDecoder) (line : String) : Except McpError (SseDecoder × Option SseEvent) :=
  if line = "" then d.dispatch
  else if isComment line then .ok (d, none)
  else
    match d.pending.field d.limits (splitField line) with
    | .error e => .error e
    | .ok p => .ok ({ d with pending := p }, none)

def stripBom (line : String) : String :=
  match line.toList with
  | '\uFEFF' :: rest => String.ofList rest
  | _ => line

def SseDecoder.pushLine (d : SseDecoder) (line : String) : Except McpError (SseDecoder × Option SseEvent) :=
  match checkedAdd d.bytesSeen (line.utf8ByteSize + 1) with
  | none => .error (.responseTooLarge d.limits.aggregateBytes)
  | some seen =>
    if d.limits.aggregateBytes < seen then .error (.responseTooLarge d.limits.aggregateBytes)
    else
      { d with bytesSeen := seen, atStreamStart := false }.readLine (if d.atStreamStart then stripBom line else line)

def SseDecoder.pushLines (d : SseDecoder) : List String → Except McpError (List (Option SseEvent))
  | [] => .ok []
  | line :: lines =>
    match d.pushLine line with
    | .error e => .error e
    | .ok (d', event) => (d'.pushLines lines).map (event :: ·)

/-! ## What the grammar says -/

def fields (block : List String) : List (String × String) :=
  block.filterMap (fun line => if isComment line then none else some (splitField line))

def valuesOf (name : String) (block : List String) : List String :=
  (fields block).filterMap (fun f => if f.1 = name then some f.2 else none)

def idsOf (block : List String) : List String := (valuesOf "id" block).filter (fun v => '\x00' ∉ v.toList)

def retriesOf (block : List String) : List String := (valuesOf "retry" block).filter (fun v => isDigits v)

def dataOf (block : List String) : String := "\n".intercalate (valuesOf "data" block)

def blockEvent (block : List String) : Option SseEvent :=
  if valuesOf "data" block = [] then none
  else
    some
      { event := (valuesOf "event" block).getLast?
        data := dataOf block
        id := (idsOf block).getLast?
        retryMs := (retriesOf block).getLast?.bind parseDigits }

/-- What each line gives: a blank one the event of its block, any other nothing. -/
def blockEvents (block : List String) : List String → List (Option SseEvent)
  | [] => []
  | line :: lines =>
    if line = "" then blockEvent block :: blockEvents [] lines else none :: blockEvents (block ++ [line]) lines

/-- The blocks of a stream, the unfinished one at the end too. -/
def blocks (block : List String) : List String → List (List String)
  | [] => [block]
  | line :: lines => if line = "" then block :: blocks [] lines else blocks (block ++ [line]) lines

/-- A byte order mark at the start of a stream is none of its lines. -/
def unmarked : List String → List String
  | [] => []
  | line :: lines => stripBom line :: lines

structure Within (limits : SseLimits) (lines : List String) : Prop where
  aggregate : (lines.map (fun line => line.utf8ByteSize + 1)).sum ≤ limits.aggregateBytes
  data : ∀ block ∈ blocks [] (unmarked lines), (dataOf block).utf8ByteSize ≤ limits.eventBytes
  events : ((blockEvents [] (unmarked lines)).filterMap id).length ≤ limits.events

def pendingOf (block : List String) : Pending where
  event := (valuesOf "event" block).getLast?
  data := dataOf block
  hasData := !(valuesOf "data" block).isEmpty
  id := (idsOf block).getLast?
  retryMs := (retriesOf block).getLast?.bind parseDigits

section Decoder

variable {limits : SseLimits} {block more : List String} {line : String}

theorem fields_append (block more : List String) : fields (block ++ more) = fields block ++ fields more :=
  List.filterMap_append

theorem valuesOf_append (name : String) (block more : List String) :
    valuesOf name (block ++ more) = valuesOf name block ++ valuesOf name more := by
  rw [valuesOf, fields_append, List.filterMap_append]
  rfl

theorem valuesOf_line (name : String) (hline : isComment line = false) :
    valuesOf name [line] = if (splitField line).1 = name then [(splitField line).2] else [] := by
  have hfields : fields [line] = [splitField line] := by simp [fields, hline]
  rw [valuesOf, hfields]
  split <;> simp_all

theorem valuesOf_comment (name : String) (hline : isComment line = true) : valuesOf name [line] = [] := by
  simp only [valuesOf, fields, List.filterMap_cons, List.filterMap_nil, hline, if_true]

theorem dataOf_le (block more : List String) : (dataOf block).utf8ByteSize ≤ (dataOf (block ++ more)).utf8ByteSize := by
  rw [dataOf, dataOf, valuesOf_append]
  by_cases hblock : valuesOf "data" block = []
  · rw [hblock, String.intercalate_nil]
    exact Nat.zero_le _
  · by_cases hmore : valuesOf "data" more = []
    · rw [hmore, List.append_nil]
    · rw [String.intercalate_append_of_ne_nil hblock hmore, String.utf8ByteSize_append, String.utf8ByteSize_append]
      omega

theorem exists_block (block lines : List String) : ∃ more, block ++ more ∈ blocks block lines := by
  induction lines generalizing block with
  | nil => exact ⟨[], by simp [blocks]⟩
  | cons line lines ih =>
    unfold blocks
    split
    · exact ⟨[], by simp⟩
    · obtain ⟨more, hmore⟩ := ih (block ++ [line])
      exact ⟨line :: more, by simpa using hmore⟩

theorem getLast_append_ite {α : Type} {p : Prop} [Decidable p] (l : List α) (v : α) :
    (l ++ if p then [v] else []).getLast? = if p then some v else l.getLast? := by
  split <;> simp

theorem filter_line (q : String → Bool) (name : String) (hline : isComment line = false) :
    (valuesOf name (block ++ [line])).filter q = (valuesOf name block).filter q ++
        if (splitField line).1 = name ∧ q (splitField line).2 = true then [(splitField line).2] else [] := by
  rw [valuesOf_append, valuesOf_line _ hline, List.filter_append]
  by_cases hname : (splitField line).1 = name
  · by_cases hq : q (splitField line).2 = true
    · rw [if_pos hname, if_pos ⟨hname, hq⟩, List.filter_cons_of_pos hq, List.filter_nil]
    · rw [if_pos hname, if_neg (fun h => hq h.2), List.filter_cons_of_neg hq, List.filter_nil]
  · rw [if_neg hname, if_neg (fun h => hname h.1), List.filter_nil]

theorem pendingOf_line (hline : isComment line = false) : pendingOf (block ++ [line]) =
      { event := if (splitField line).1 = "event" then some (splitField line).2 else (pendingOf block).event
        data := dataOf (block ++ [line]), hasData := (pendingOf block).hasData || decide ((splitField line).1 = "data")
        id := if (splitField line).1 = "id" ∧ decide ('\x00' ∉ (splitField line).2.toList) = true then
          some (splitField line).2 else (pendingOf block).id
        retryMs := if (splitField line).1 = "retry" ∧ isDigits (splitField line).2 = true then
          parseDigits (splitField line).2 else (pendingOf block).retryMs } := by
  have hid : (idsOf (block ++ [line])).getLast? =
      if (splitField line).1 = "id" ∧ decide ('\x00' ∉ (splitField line).2.toList) = true then some (splitField line).2
      else (idsOf block).getLast? := by
    rw [idsOf, filter_line _ _ hline, getLast_append_ite, idsOf]
  have hretry : (retriesOf (block ++ [line])).getLast? =
      if (splitField line).1 = "retry" ∧ isDigits (splitField line).2 = true then some (splitField line).2
      else (retriesOf block).getLast? := by
    rw [retriesOf, filter_line _ _ hline, getLast_append_ite, retriesOf]
  have hevent : (valuesOf "event" (block ++ [line])).getLast? =
      if (splitField line).1 = "event" then some (splitField line).2 else (valuesOf "event" block).getLast? := by
    rw [valuesOf_append, valuesOf_line _ hline, getLast_append_ite]
  have hdata : valuesOf "data" (block ++ [line]) =
      valuesOf "data" block ++ if (splitField line).1 = "data" then [(splitField line).2] else [] := by
    rw [valuesOf_append, valuesOf_line _ hline]
  simp only [pendingOf, hid, hretry, hevent, hdata]
  congr 1
  · by_cases hname : (splitField line).1 = "data"
    · rw [if_pos hname, decide_eq_true hname, Bool.or_true]
      simp
    · rw [if_neg hname, decide_eq_false hname, Bool.or_false, List.append_nil]
  · split
    · rw [Option.bind_some]
    · rfl

theorem dataOf_line (hline : isComment line = false) (hname : (splitField line).1 = "data") : dataOf (block ++ [line]) =
      (if (pendingOf block).hasData then dataOf block ++ "\n" else dataOf block) ++ (splitField line).2 := by
  rw [dataOf, valuesOf_append, valuesOf_line _ hline, if_pos hname]
  by_cases hblock : valuesOf "data" block = []
  · simp [pendingOf, dataOf, hblock]
  · have hhas : (pendingOf block).hasData = true := by simp [pendingOf, hblock]
    rw [String.intercalate_append_of_ne_nil hblock (List.cons_ne_nil _ _), hhas, if_pos rfl, String.intercalate_singleton,
      dataOf]

theorem dataOf_other (hline : isComment line = false) (hname : (splitField line).1 ≠ "data") :
    dataOf (block ++ [line]) = dataOf block := by
  rw [dataOf, valuesOf_append, valuesOf_line _ hline, if_neg hname, List.append_nil, dataOf]

theorem field_ok (hline : isComment line = false) (hsize : (dataOf (block ++ [line])).utf8ByteSize ≤ limits.eventBytes) :
    (pendingOf block).field limits (splitField line) = .ok (pendingOf (block ++ [line])) := by
  rw [pendingOf_line hline]
  have hbytes : (pendingOf block).data = dataOf block := rfl
  by_cases hdata : (splitField line).1 = "data"
  · have hroom : (dataOf block).utf8ByteSize + (splitField line).2.utf8ByteSize +
        (if (pendingOf block).hasData then 1 else 0) ≤ limits.eventBytes := by
      have hlf : "\n".utf8ByteSize = 1 := rfl
      rw [dataOf_line hline hdata, String.utf8ByteSize_append] at hsize
      split at hsize
      · rw [String.utf8ByteSize_append] at hsize
        rw [if_pos (by assumption)]
        omega
      · rw [if_neg (by assumption)]
        omega
    rw [dataOf_line hline hdata]
    simp [Pending.field, hdata, hbytes, hroom]
  · rw [dataOf_other hline hdata]
    by_cases hevent : (splitField line).1 = "event"
    · simp [Pending.field, hevent, hbytes]
    · by_cases hid : (splitField line).1 = "id"
      · by_cases hnul : '\x00' ∉ (splitField line).2.toList
        · simp [Pending.field, hid, hnul, hbytes]
        · simp [Pending.field, hid, hnul, pendingOf]
      · by_cases hretry : (splitField line).1 = "retry" ∧ isDigits (splitField line).2 = true
        · simp [Pending.field, hretry, hbytes]
        · simp [Pending.field, hevent, hid, hretry, hdata, pendingOf]

theorem pendingOf_comment (hline : isComment line = true) : pendingOf (block ++ [line]) = pendingOf block := by
  have hvalues : ∀ name, valuesOf name (block ++ [line]) = valuesOf name block := by
    intro name
    rw [valuesOf_append, valuesOf_comment name hline, List.append_nil]
  simp only [pendingOf, dataOf, idsOf, retriesOf, hvalues]

theorem pendingOf_nil : pendingOf [] = {} := by
  simp [pendingOf, dataOf, idsOf, retriesOf, valuesOf, fields]

structure Ready (d : SseDecoder) (block lines : List String) : Prop where
  pending : d.pending = pendingOf block
  data : ∀ b ∈ blocks block lines, (dataOf b).utf8ByteSize ≤ d.limits.eventBytes
  events : d.eventsDispatched + ((blockEvents block lines).filterMap id).length ≤ d.limits.events

variable {d : SseDecoder} {lines : List String}

theorem Ready.dispatch (hd : Ready d block ("" :: lines)) :
    ∃ d', d.dispatch = .ok (d', blockEvent block) ∧ Ready d' [] lines ∧ d'.limits = d.limits ∧
      d'.bytesSeen = d.bytesSeen ∧ d'.atStreamStart = d.atStreamStart := by
  have hblocks : ∀ b ∈ blocks [] lines, (dataOf b).utf8ByteSize ≤ d.limits.eventBytes :=
    fun b hb => hd.data b (by simp [blocks, hb])
  have hevents := hd.events
  simp only [blockEvents, if_true, List.filterMap_cons] at hevents
  have hhas : d.pending.hasData = !(valuesOf "data" block).isEmpty := by rw [hd.pending]; rfl
  unfold SseDecoder.dispatch
  by_cases hempty : valuesOf "data" block = []
  · have hnone : blockEvent block = none := if_pos hempty
    rw [hnone] at hevents ⊢
    rw [hhas, hempty]
    exact ⟨_, rfl, ⟨pendingOf_nil.symm, hblocks, hevents⟩, rfl, rfl, rfl⟩
  · have hsome : blockEvent block = some ⟨d.pending.event, d.pending.data, d.pending.id, d.pending.retryMs⟩ := by
      rw [blockEvent, if_neg hempty, hd.pending]
      rfl
    have hisEmpty : (valuesOf "data" block).isEmpty = false := by simpa using hempty
    rw [hsome] at hevents ⊢
    change d.eventsDispatched + (((blockEvents [] lines).filterMap id).length + 1) ≤ d.limits.events at hevents
    rw [hhas, hisEmpty, Bool.not_false, if_pos rfl, if_neg (by omega)]
    refine ⟨_, rfl, ⟨pendingOf_nil.symm, hblocks, ?_⟩, rfl, rfl, rfl⟩
    show d.eventsDispatched + 1 + ((blockEvents [] lines).filterMap id).length ≤ d.limits.events
    omega

/-- **A line gives what the grammar says**, and leaves the decoder ready for the next. -/
theorem Ready.readLine (hd : Ready d block (line :: lines)) : ∃ d' event block', d.readLine line = .ok (d', event) ∧
      blockEvents block (line :: lines) = event :: blockEvents block' lines ∧ Ready d' block' lines ∧
      d'.limits = d.limits ∧ d'.bytesSeen = d.bytesSeen ∧ d'.atStreamStart = d.atStreamStart := by
  unfold SseDecoder.readLine
  by_cases hblank : line = ""
  · subst hblank
    obtain ⟨d', hdispatch, hready, hsame⟩ := hd.dispatch
    exact ⟨d', blockEvent block, [], by rw [if_pos rfl, hdispatch], by simp [blockEvents], hready, hsame⟩
  · have hlater : blockEvents block (line :: lines) = none :: blockEvents (block ++ [line]) lines := if_neg hblank
    have hblocks : blocks block (line :: lines) = blocks (block ++ [line]) lines := if_neg hblank
    have hdata := hd.data
    have hevents := hd.events
    rw [hblocks] at hdata
    rw [hlater, List.filterMap_cons] at hevents
    rw [if_neg hblank]
    by_cases hcomment : isComment line = true
    · rw [if_pos hcomment]
      refine ⟨d, none, block ++ [line], rfl, hlater, ⟨?_, hdata, hevents⟩, rfl, rfl, rfl⟩
      rw [hd.pending, pendingOf_comment hcomment]
    · rw [if_neg hcomment]
      obtain ⟨more, hmore⟩ := exists_block (block ++ [line]) lines
      have hsize := Nat.le_trans (dataOf_le (block ++ [line]) more) (hdata _ hmore)
      rw [hd.pending, field_ok (eq_false_of_ne_true hcomment) hsize]
      exact ⟨_, none, block ++ [line], rfl, hlater, ⟨rfl, hdata, hevents⟩, rfl, rfl, rfl⟩

theorem pushLine_eq (hroom : d.bytesSeen + (line.utf8ByteSize + 1) ≤ d.limits.aggregateBytes) : d.pushLine line =
      { d with bytesSeen := d.bytesSeen + (line.utf8ByteSize + 1), atStreamStart := false }.readLine
        (if d.atStreamStart then stripBom line else line) := by
  have hadd : checkedAdd d.bytesSeen (line.utf8ByteSize + 1) = some (d.bytesSeen + (line.utf8ByteSize + 1)) :=
    if_pos (Nat.le_trans hroom d.limits.aggregate_le)
  simp only [SseDecoder.pushLine, hadd, if_neg (Nat.not_lt.2 hroom)]

theorem pushLines_ready (hd : Ready d block (if d.atStreamStart then unmarked lines else lines))
    (hroom : d.bytesSeen + (lines.map (fun line => line.utf8ByteSize + 1)).sum ≤ d.limits.aggregateBytes) :
    d.pushLines lines = .ok (blockEvents block (if d.atStreamStart then unmarked lines else lines)) := by
  induction lines generalizing d block with
  | nil => cases d.atStreamStart <;> rfl
  | cons line lines ih =>
    rw [List.map_cons, List.sum_cons] at hroom
    have hsplit : (if d.atStreamStart then unmarked (line :: lines) else line :: lines) =
        (if d.atStreamStart then stripBom line else line) :: lines := by
      cases d.atStreamStart <;> rfl
    rw [hsplit] at hd ⊢
    have hd' : Ready { d with bytesSeen := d.bytesSeen + (line.utf8ByteSize + 1), atStreamStart := false } block
        ((if d.atStreamStart then stripBom line else line) :: lines) := ⟨hd.pending, hd.data, hd.events⟩
    obtain ⟨d', _, block', hread, hevents, hready, hlimits, hbytes, hstart⟩ := hd'.readLine
    have hrest := @ih block' d' (by rw [hstart]; exact hready) (by
      rw [hbytes, hlimits]
      simp only
      omega)
    rw [SseDecoder.pushLines, pushLine_eq (by omega), hread]
    dsimp only
    rw [hrest, hevents, hstart]
    rfl

end Decoder

/-- **An event stream is framed by its bytes alone.**  The line reader returns the lines of a body and then nothing,
whatever their terminators and however the body was cut into reads, while no line is over the limit; and the decoder
gives at each blank line the event of the block it closes, and nothing elsewhere, while the ceilings hold. -/
theorem event_stream_framing (limit : Nat) (lines : List (List UInt8 × Terminator)) (chunks : List (List UInt8))
    (hlines : ∀ l ∈ lines, ∀ x ∈ l.1, x ≠ 10 ∧ x ≠ 13) (hplain : Unambiguous lines)
    (hlimit : ∀ l ∈ lines, l.1.length ≤ limit) (hcut : chunks.flatten = body lines) (limits : SseLimits)
    (texts : List String) (hwithin : Within limits texts) :
    nextLines limit (lines.length + 1) ⟨chunks, false⟩ = .ok (lines.map (fun l => some l.1) ++ [none]) ∧
      (SseDecoder.pushLines { limits } texts) = .ok (blockEvents [] (unmarked texts)) := by
  refine ⟨nextLines_body ?_ hplain hlimit (.inl ⟨hcut, fun hswallow => by cases hswallow⟩), ?_⟩
  · intro l hl x hx
    obtain ⟨h10, h13⟩ := hlines l hl x hx
    exact eq_false_of_ne_true (fun hb => (isTerminator_cases.1 hb).elim h10 h13)
  · refine pushLines_ready ⟨pendingOf_nil.symm, hwithin.data, ?_⟩ ?_
    · rw [Nat.zero_add]
      exact hwithin.events
    · rw [Nat.zero_add]
      exact hwithin.aggregate

def twoBlocks : List (List UInt8 × Terminator) :=
  [([100, 97, 116, 97, 58, 97], .crlf), ([], .crlf), ([105, 100, 58, 49], .cr), ([100, 97, 116, 97], .lf), ([], .lf)]

/-- The same bytes, cut inside a terminator and inside a line. -/
def twoBlocksCut : List (List UInt8) :=
  [[100, 97, 116, 97, 58], [97, 13], [10, 13, 10, 105], [100, 58, 49, 13, 100, 97], [116, 97, 10, 10]]

theorem event_stream_framing_twoBlocks : nextLines 8 6 ⟨twoBlocksCut, false⟩ =
        .ok [some [100, 97, 116, 97, 58, 97], some [], some [105, 100, 58, 49], some [100, 97, 116, 97], some [], none] ∧
      SseDecoder.pushLines { limits := ⟨10, 100, 2, by decide⟩ } ["data:a", "", "id:1", "data", ""] =
        .ok [none, some { data := "a" }, none, none, some { data := "", id := some "1" }] := by
  have hplain : Unambiguous twoBlocks := by
    unfold Unambiguous
    decide
  obtain ⟨hlines, hevents⟩ := event_stream_framing 8 twoBlocks twoBlocksCut (by decide +kernel) hplain
    (by decide +kernel) rfl
    ⟨10, 100, 2, by decide⟩ ["data:a", "", "id:1", "data", ""] ⟨by decide, by decide, by decide⟩
  exact ⟨hlines, hevents⟩

end Iteron.McpSse
