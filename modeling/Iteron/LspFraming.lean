import Iteron.LspHeaders
import Iteron.Utf8
/-!
# LspFraming — messages framed by their length

A message is a header block, a blank line and exactly as many bytes as the block says.  The stream comes in chunks of any
size: the header is scanned byte by byte up to its terminator, and the body is read to its length.
-/
namespace Iteron.Lsp

open Machine (u64Max)
open Utf8 (utf8 length_utf8 utf8_ascii toNat_ofNat_ascii)
open List (append_assoc append_nil flatten_cons length_append length_cons map_cons map_nil map_take prefix_append
  take_left)

def maxContentBytes : Nat := 16 * 1024 * 1024

def headerTerminator : List UInt8 := [13, 10, 13, 10]

def maxMessageJsonNodes : Nat := 96 * 1024

def maxMessageJsonStringBytes : Nat := 8 * 1024 * 1024

def maxMessageJsonObjectMembers : Nat := 64 * 1024

def maxMessageJsonArrayItems : Nat := 64 * 1024

def maxMessageJsonDepth : Nat := 64

inductive Slot where
  | root
  | arrayItem
  | objectValue
deriving DecidableEq

/-- A call of the deserializer on the visitors of the envelope; a text is met with the bytes it decodes to. -/
inductive Visit where
  | enter (depth : Nat) (slot : Slot)
  | text (bytes : Nat)
  | key (bytes : Nat)

/-- The code behind the text of a body: the visits of `serde_json::Deserializer`, with the syntax error that ended them,
and `serde_json::from_str`. -/
structure BodyCodec (V : Type) where
  visits : String → List Visit × Option String
  fromStr : String → Except String V

structure JsonEnvelope where
  nodes : Nat := 0
  stringBytes : Nat := 0
  objectMembers : Nat := 0
  arrayItems : Nat := 0

def JsonEnvelope.enter (e : JsonEnvelope) (depth : Nat) (slot : Slot) : Except LspError JsonEnvelope :=
  if maxMessageJsonDepth < depth then .error (.jsonEnvelopeExceeded "depth" depth maxMessageJsonDepth)
  else do
    let arrayItems := if slot = .arrayItem then e.arrayItems + 1 else e.arrayItems
    if slot = .arrayItem ∧ maxMessageJsonArrayItems < arrayItems then
      .error (.jsonEnvelopeExceeded "array items" arrayItems maxMessageJsonArrayItems)
    else if maxMessageJsonNodes < e.nodes + 1 then
      .error (.jsonEnvelopeExceeded "nodes" (e.nodes + 1) maxMessageJsonNodes)
    else .ok { e with arrayItems, nodes := e.nodes + 1 }

def JsonEnvelope.member (e : JsonEnvelope) : Except LspError JsonEnvelope :=
  if maxMessageJsonObjectMembers < e.objectMembers + 1 then
    .error (.jsonEnvelopeExceeded "object members" (e.objectMembers + 1) maxMessageJsonObjectMembers)
  else .ok { e with objectMembers := e.objectMembers + 1 }

def JsonEnvelope.string (e : JsonEnvelope) (bytes : Nat) : Except LspError JsonEnvelope :=
  if maxMessageJsonStringBytes < e.stringBytes + bytes then
    .error (.jsonEnvelopeExceeded "decoded string bytes" (e.stringBytes + bytes) maxMessageJsonStringBytes)
  else .ok { e with stringBytes := e.stringBytes + bytes }

def JsonEnvelope.visit (e : JsonEnvelope) : Visit → Except LspError JsonEnvelope
  | .enter depth slot => e.enter depth slot
  | .text bytes => e.string bytes
  | .key bytes => do (← e.member).string bytes

/-- `inspect_json_envelope`: a limit that is passed is reported before a later syntax error. -/
def inspectJsonEnvelope {V : Type} (codec : BodyCodec V) (text : String) : Except LspError Unit :=
  match (codec.visits text).1.foldlM JsonEnvelope.visit {} with
  | .error e => .error e
  | .ok _ =>
    match (codec.visits text).2 with
    | some e => .error (.json e)
    | none => .ok ()

def encode (body : String) : Except LspError (List UInt8) :=
  if maxContentBytes < body.utf8ByteSize then .error (.contentTooLarge body.utf8ByteSize maxContentBytes)
  else .ok (utf8 (String.ofList (lengthHeader body.utf8ByteSize) ++ "\r\n\r\n") ++ utf8 body)

/-! ## Reading -/

/-- What the bytes of a chunk do to the header scan; the bytes behind the header are left. -/
inductive HeaderScan where
  | more (block : List UInt8)
  | complete (header left : List UInt8)
  | tooLarge (left : List UInt8)

def scanHeader (block : List UInt8) : List UInt8 → HeaderScan
  | [] => .more block
  | b :: bytes =>
    if headerTerminator <:+ block ++ [b] then
      if maxHeaderBytes < (block ++ [b]).length - 4 then .tooLarge bytes
      else .complete ((block ++ [b]).take ((block ++ [b]).length - 4)) bytes
    else if maxHeaderBytes + 4 - 1 < (block ++ [b]).length then .tooLarge bytes
    else scanHeader (block ++ [b]) bytes

/-- `read_header_block`: the stream is what the buffer holds and then the reads to come; a chunk that is used up is
passed over. -/
def readHeaderBlock (block : List UInt8) :
    List (List UInt8) → Except LspError (Option (List Char)) × List (List UInt8)
  | [] => (if block.isEmpty then .ok none else .error .truncatedMessage, [])
  | chunk :: rest =>
    match scanHeader block chunk with
    | .more block' => readHeaderBlock block' rest
    | .tooLarge left => (.error (.headerTooLarge maxHeaderBytes), left :: rest)
    | .complete header left =>
      if header.all (fun b => decide (b.toNat < 128)) then
        (.ok (some (header.map (fun b => Char.ofNat b.toNat))), left :: rest)
      else (.error (.header "header block was not ASCII"), left :: rest)

/-- `read_exact`: so many bytes, or the end of the stream. -/
def readExact (n : Nat) : List (List UInt8) → Option (List UInt8 × List (List UInt8))
  | [] => if n = 0 then some ([], []) else none
  | chunk :: rest =>
    if n ≤ chunk.length then some (chunk.take n, chunk.drop n :: rest)
    else (readExact (n - chunk.length) rest).map (fun r => (chunk ++ r.1, r.2))

variable {V : Type}

def parseBody (codec : BodyCodec V) (body : List UInt8) (length : Nat) : Except LspError (Option (V × Nat)) :=
  match Utf8.fromUtf8 body with
  | none => .error .invalidUtf8
  | some text =>
    match inspectJsonEnvelope codec text with
    | .error e => .error e
    | .ok () =>
      match codec.fromStr text with
      | .error e => .error (.json e)
      | .ok value => .ok (some (value, length))

/-- `read_message_with_size`, with no timeouts. -/
def readMessageWithSize (codec : BodyCodec V) (stream : List (List UInt8)) :
    Except LspError (Option (V × Nat)) × List (List UInt8) :=
  match readHeaderBlock [] stream with
  | (.error e, stream) => (.error e, stream)
  | (.ok none, stream) => (.ok none, stream)
  | (.ok (some block), stream) =>
    match parseHeaders block with
    | .error e => (.error e, stream)
    | .ok length =>
      if maxContentBytes < length then (.error (.contentTooLarge length maxContentBytes), stream)
      else
        match readExact length stream with
        | none => (.error .truncatedMessage, [])
        | some (body, stream) => (parseBody codec body length, stream)

def readMessages (codec : BodyCodec V) : Nat → List (List UInt8) → List (Except LspError (Option (V × Nat)))
  | 0, _ => []
  | n + 1, stream =>
    (readMessageWithSize codec stream).1 :: readMessages codec n (readMessageWithSize codec stream).2

/-! ## The scan of a stream -/

theorem scanHeader_append (block xs ys : List UInt8) : scanHeader block (xs ++ ys) =
      match scanHeader block xs with
      | .more block' => scanHeader block' ys
      | .complete header left => .complete header (left ++ ys)
      | .tooLarge left => .tooLarge (left ++ ys) := by
  induction xs generalizing block with
  | nil => rfl
  | cons b xs ih =>
    rw [List.cons_append, scanHeader, scanHeader]
    split
    · split <;> rfl
    · split
      · rfl
      · exact ih (block ++ [b])

variable {left : List UInt8}

variable {stream : List (List UInt8)}

theorem readHeaderBlock_complete {block header : List UInt8}
    (h : scanHeader block stream.flatten = .complete header left) (hascii : header.all (fun b => decide (b.toNat < 128)) = true) :
    ∃ stream', readHeaderBlock block stream = (.ok (some (header.map (fun b => Char.ofNat b.toNat))), stream') ∧
      stream'.flatten = left := by
  induction stream generalizing block with
  | nil => cases h
  | cons chunk rest ih =>
    rw [flatten_cons, scanHeader_append] at h
    unfold readHeaderBlock
    cases hscan : scanHeader block chunk with
    | more _ =>
      rw [hscan] at h
      exact ih h
    | complete _ left' =>
      rw [hscan] at h
      obtain ⟨rfl, rfl⟩ := HeaderScan.complete.inj h
      exact ⟨left' :: rest, if_pos hascii, rfl⟩
    | tooLarge left' =>
      rw [hscan] at h
      cases h

theorem readHeaderBlock_more {block block' : List UInt8} (h : scanHeader block stream.flatten = .more block') :
    readHeaderBlock block stream = (if block'.isEmpty then .ok none else .error .truncatedMessage, []) := by
  induction stream generalizing block with
  | nil =>
    obtain rfl := HeaderScan.more.inj h
    rfl
  | cons chunk _ ih =>
    rw [flatten_cons, scanHeader_append] at h
    unfold readHeaderBlock
    cases hscan : scanHeader block chunk with
    | more _ =>
      rw [hscan] at h
      exact ih h
    | complete _ left' =>
      rw [hscan] at h
      cases h
    | tooLarge left' =>
      rw [hscan] at h
      cases h

variable {n : Nat}

theorem readExact_some (h : n ≤ stream.flatten.length) :
    ∃ stream', readExact n stream = some (stream.flatten.take n, stream') ∧ stream'.flatten = stream.flatten.drop n := by
  induction stream generalizing n with
  | nil =>
    obtain rfl : n = 0 := Nat.le_zero.1 h
    exact ⟨[], rfl, rfl⟩
  | cons chunk _ ih =>
    rw [flatten_cons, length_append] at h
    unfold readExact
    by_cases hle : n ≤ chunk.length
    · rw [if_pos hle, flatten_cons, List.take_append_of_le_length hle, List.drop_append_of_le_length hle]
      exact ⟨_, rfl, rfl⟩
    · obtain ⟨stream', hread, hrest⟩ := @ih (n - chunk.length) (by omega)
      have htake : chunk.take n = chunk := List.take_of_length_le (by omega)
      have hdrop : chunk.drop n = [] := List.drop_eq_nil_of_le (by omega)
      rw [if_neg hle, hread, flatten_cons, List.take_append, List.drop_append, htake, hdrop]
      exact ⟨stream', rfl, hrest⟩

theorem readExact_none (h : stream.flatten.length < n) : readExact n stream = none := by
  induction stream generalizing n with
  | nil => exact if_neg (Nat.ne_of_gt h)
  | cons chunk _ ih =>
    rw [flatten_cons, length_append] at h
    unfold readExact
    rw [if_neg (by omega), @ih (n - chunk.length) (by omega)]
    rfl

/-! ## The header of a body -/

/-- The bytes of the block that `encode` writes. -/
def headerBytes (n : Nat) : List UInt8 := utf8 (String.ofList (lengthHeader n))

theorem headerBytes_eq (n : Nat) : headerBytes n = (lengthHeader n).map (fun c => UInt8.ofNat c.toNat) :=
  utf8_ascii (fun c hc => (lengthHeader_ascii n c hc).1)

theorem headerBytes_ascii (n : Nat) : (headerBytes n).all (fun b => decide (b.toNat < 128)) = true := by
  rw [headerBytes_eq, List.all_map, List.all_eq_true]
  intro c hc
  have hlt := (lengthHeader_ascii n c hc).1
  exact decide_eq_true ((toNat_ofNat_ascii hlt).symm ▸ hlt)

theorem headerBytes_chars (n : Nat) : (headerBytes n).map (fun b => Char.ofNat b.toNat) = lengthHeader n := by
  rw [headerBytes_eq, List.map_map]
  have hid : ∀ c ∈ lengthHeader n, ((fun b : UInt8 => Char.ofNat b.toNat) ∘ fun c => UInt8.ofNat c.toNat) c = c := by
    intro c hc
    have hlt := (lengthHeader_ascii n c hc).1
    exact (congrArg Char.ofNat (toNat_ofNat_ascii hlt)).trans (Char.ofNat_toNat c)
  exact (List.map_congr_left hid).trans (List.map_id' _)

theorem headerBytes_cr (n : Nat) : 13 ∉ headerBytes n := by
  rw [headerBytes_eq, List.mem_map]
  rintro ⟨c, hc, hcr⟩
  obtain ⟨hlt, hne⟩ := lengthHeader_ascii n c hc
  have hval : c.toNat = 13 := (toNat_ofNat_ascii hlt).symm.trans (congrArg UInt8.toNat hcr)
  exact hne ((Char.ofNat_toNat c).symm.trans (congrArg Char.ofNat hval))

theorem headerBytes_length (hn : n ≤ u64Max) : (headerBytes n).length ≤ maxHeaderBytes := by
  have hlength := lengthHeader_length hn
  rw [headerBytes_eq, List.length_map, maxHeaderBytes]
  omega

/-! ## Where the scan stops -/

section Scan

variable {header : List UInt8}

variable {bytes : List UInt8}

theorem terminator_last (hcr : 13 ∉ header) (hpre : bytes <+: header ++ headerTerminator)
    (hend : headerTerminator <:+ bytes) : bytes = header ++ headerTerminator := by
  obtain ⟨front, rfl⟩ := hend
  obtain ⟨_, hrest⟩ := hpre
  rw [append_assoc] at hrest
  rcases List.append_eq_append_iff.1 hrest with ⟨more, rfl, hmore⟩ | ⟨more, rfl, hmore⟩
  · cases more with
    | nil => rw [append_nil]
    | cons b more =>
      obtain rfl : 13 = b := (List.cons.inj hmore).1
      cases hcr (List.mem_append_right front (.head _))
  · have hlength := congrArg List.length hmore
    simp only [length_append] at hlength
    have hnil : more = [] := List.eq_nil_of_length_eq_zero (by omega)
    rw [hnil, append_nil]

theorem scanHeader_unfinished {block : List UInt8}
    (hend : ∀ i, i < bytes.length → ¬ headerTerminator <:+ block ++ bytes.take (i + 1))
    (hlength : (block ++ bytes).length ≤ maxHeaderBytes + 3) : scanHeader block bytes = .more (block ++ bytes) := by
  induction bytes generalizing block with
  | nil => rw [append_nil, scanHeader]
  | cons b bytes ih =>
    have hfirst : ¬ headerTerminator <:+ block ++ [b] := hend 0 (Nat.succ_pos _)
    have hshort : ¬ maxHeaderBytes + 4 - 1 < (block ++ [b]).length := by
      simp only [length_append, length_cons] at hlength ⊢
      simp only [List.length_nil]
      omega
    have hassoc : block ++ b :: bytes = block ++ [b] ++ bytes := by rw [append_assoc, List.singleton_append]
    rw [scanHeader, if_neg hfirst, if_neg hshort, hassoc]
    refine ih (fun i hi => ?_) (hassoc ▸ hlength)
    have hnext := hend (i + 1) (Nat.succ_lt_succ hi)
    rwa [List.take_succ_cons, ← List.singleton_append, ← append_assoc] at hnext

theorem scanHeader_cut (hcr : 13 ∉ header) (hmax : header.length ≤ maxHeaderBytes)
    (hpre : bytes <+: header ++ headerTerminator) (hne : bytes ≠ header ++ headerTerminator) :
    scanHeader [] bytes = .more bytes := by
  have hlt : bytes.length < header.length + 4 := by
    have hwhole : (header ++ headerTerminator).length = header.length + 4 := length_append
    rcases Nat.lt_or_eq_of_le hpre.length_le with hlt | heq
    · exact hwhole ▸ hlt
    · cases hne (hpre.eq_of_length heq)
  refine scanHeader_unfinished (fun i hi hend => ?_) (by rw [List.nil_append]; omega)
  have htake := terminator_last hcr ((List.take_prefix _ _).trans hpre) hend
  have hlen := congrArg List.length htake
  rw [List.length_take, length_append] at hlen
  have hfour : headerTerminator.length = 4 := rfl
  omega

theorem scanHeader_found {left : List UInt8} (hcr : 13 ∉ header) (hmax : header.length ≤ maxHeaderBytes) :
    scanHeader [] (header ++ headerTerminator ++ left) = .complete header left := by
  have hsplit : header ++ headerTerminator ++ left = (header ++ [13, 10, 13]) ++ 10 :: left := by
    simp [headerTerminator]
  have hpre : header ++ [13, 10, 13] <+: header ++ headerTerminator := ⟨[10], by simp [headerTerminator]⟩
  have hne : header ++ [13, 10, 13] ≠ header ++ headerTerminator := by simp [headerTerminator]
  rw [hsplit, scanHeader_append, scanHeader_cut hcr hmax hpre hne]
  have hblock : header ++ [13, 10, 13] ++ [10] = header ++ headerTerminator := by simp [headerTerminator]
  have hlength : (header ++ headerTerminator).length - 4 = header.length := by
    rw [length_append]
    rfl
  dsimp only
  rw [scanHeader, hblock, if_pos (List.suffix_append _ _), hlength, if_neg (Nat.not_lt.2 hmax), take_left]

end Scan

/-! ## One message -/

variable {codec : BodyCodec V} {stream : List (List UInt8)} {body : String} {value : V}

def wire (body : String) : List UInt8 := headerBytes body.utf8ByteSize ++ headerTerminator ++ utf8 body

/-- The body is a text of a value, within the limits of the content and of the envelope. -/
structure Admits (codec : BodyCodec V) (body : String) (value : V) : Prop where
  size : body.utf8ByteSize ≤ maxContentBytes
  envelope : inspectJsonEnvelope codec body = .ok ()
  parsed : codec.fromStr body = .ok value

theorem encode_ok (h : body.utf8ByteSize ≤ maxContentBytes) : encode body = .ok (wire body) := by
  rw [encode, if_neg (Nat.not_lt.2 h), Utf8.utf8_append]
  have hterm : utf8 "\r\n\r\n" = headerTerminator := by decide
  rw [hterm, wire, headerBytes]

theorem size_le_u64 (h : n ≤ maxContentBytes) : n ≤ u64Max := by
  have hmax : maxContentBytes ≤ u64Max := by decide
  omega

theorem header_read (codec : BodyCodec V) (hsize : body.utf8ByteSize ≤ maxContentBytes)
    (hstream : stream.flatten = headerBytes body.utf8ByteSize ++ headerTerminator ++ left) :
    ∃ stream', stream'.flatten = left ∧ readMessageWithSize codec stream =
      match readExact body.utf8ByteSize stream' with
      | none => (.error .truncatedMessage, [])
      | some (bytes, stream'') => (parseBody codec bytes body.utf8ByteSize, stream'') := by
  have hscan := @scanHeader_found _ left (headerBytes_cr body.utf8ByteSize) (headerBytes_length (size_le_u64 hsize))
  obtain ⟨stream', hread, hleft⟩ := readHeaderBlock_complete (hstream ▸ hscan) (headerBytes_ascii _)
  refine ⟨stream', hleft, ?_⟩
  rw [headerBytes_chars] at hread
  rw [readMessageWithSize, hread]
  dsimp only
  rw [parseHeaders_length (size_le_u64 hsize)]
  dsimp only
  rw [if_neg (Nat.not_lt.2 hsize)]

theorem readMessage_whole (h : Admits codec body value) (hstream : stream.flatten = wire body ++ left) :
    ∃ stream', readMessageWithSize codec stream = (.ok (some (value, body.utf8ByteSize)), stream') ∧
      stream'.flatten = left := by
  rw [wire, append_assoc] at hstream
  obtain ⟨stream1, hleft, hread⟩ := header_read codec h.size hstream
  have hle : body.utf8ByteSize ≤ stream1.flatten.length := by
    rw [hleft, length_append, length_utf8]
    exact Nat.le_add_right _ _
  obtain ⟨stream', hexact, hrest⟩ := readExact_some hle
  have hbytes : stream1.flatten.take body.utf8ByteSize = utf8 body := by
    rw [hleft, ← length_utf8, take_left]
  have hparse : parseBody codec (utf8 body) body.utf8ByteSize = .ok (some (value, body.utf8ByteSize)) := by
    rw [parseBody, Utf8.fromUtf8_utf8]
    dsimp only
    rw [h.envelope]
    rw [h.parsed]
  refine ⟨stream', ?_, ?_⟩
  · rw [hread, hexact, hbytes]
    exact congrArg (·, stream') hparse
  · rw [hrest, hleft, ← length_utf8, List.drop_left]

theorem readMessage_cut (hsize : body.utf8ByteSize ≤ maxContentBytes) (hpre : stream.flatten <+: wire body)
    (hne : stream.flatten ≠ wire body) (hnil : stream.flatten ≠ []) :
    readMessageWithSize codec stream = (.error .truncatedMessage, []) := by
  by_cases hheader : headerBytes body.utf8ByteSize ++ headerTerminator <+: stream.flatten
  · obtain ⟨_, hleft⟩ := hheader
    obtain ⟨stream', hflat, hread⟩ := header_read codec hsize hleft.symm
    have hshort : stream'.flatten.length < body.utf8ByteSize := by
      have hlt : stream.flatten.length < (wire body).length :=
        Nat.lt_of_le_of_ne hpre.length_le (fun heq => hne (hpre.eq_of_length heq))
      simp only [← hleft, wire, length_append, length_utf8] at hlt
      rw [hflat]
      omega
    rw [hread, readExact_none hshort]
  · have hcut : stream.flatten <+: headerBytes body.utf8ByteSize ++ headerTerminator := by
      rcases List.prefix_or_prefix_of_prefix hpre (prefix_append _ (utf8 body)) with h | h
      · exact h
      · cases hheader h
    have hcutne : stream.flatten ≠ headerBytes body.utf8ByteSize ++ headerTerminator :=
      fun heq => hheader (heq ▸ List.prefix_refl _)
    have hscan := scanHeader_cut (headerBytes_cr _) (headerBytes_length (size_le_u64 hsize)) hcut hcutne
    have hempty : stream.flatten.isEmpty = false := by
      cases hs : stream.flatten with
      | nil => cases hnil hs
      | cons b _ => rfl
    rw [readMessageWithSize, readHeaderBlock_more hscan, hempty]
    rfl

theorem readMessage_end (h : stream.flatten = []) : readMessageWithSize codec stream = (.ok none, []) := by
  have hscan : scanHeader [] stream.flatten = .more [] := by rw [h, scanHeader]
  rw [readMessageWithSize, readHeaderBlock_more hscan]
  rfl

/-! ## A stream of messages -/

def received (b : String × V) : Except LspError (Option (V × Nat)) := .ok (some (b.2, b.1.utf8ByteSize))

variable {bodies : List (String × V)}

theorem encode_all (h : ∀ b ∈ bodies, Admits codec b.1 b.2) :
    bodies.mapM (fun b => encode b.1) = .ok (bodies.map (fun b => wire b.1)) := by
  induction bodies with
  | nil => rfl
  | cons b bodies ih =>
    rw [List.mapM_cons, encode_ok (h b List.mem_cons_self).size, ih (fun d hd => h d (List.mem_cons_of_mem b hd))]
    rfl

theorem readMessages_append (n : Nat) (h : ∀ b ∈ bodies, Admits codec b.1 b.2)
    (hstream : stream.flatten = (bodies.map (fun b => wire b.1)).flatten ++ left) : ∃ stream', stream'.flatten = left ∧
      readMessages codec (bodies.length + n) stream = bodies.map received ++ readMessages codec n stream' := by
  induction bodies generalizing stream with
  | nil => exact ⟨stream, hstream, by rw [List.length_nil, Nat.zero_add, map_nil, List.nil_append]⟩
  | cons b bodies ih =>
    rw [map_cons, flatten_cons, append_assoc] at hstream
    obtain ⟨_, hread, hleft⟩ := readMessage_whole (h b (.head _)) hstream
    obtain ⟨stream', hrest, hmore⟩ := ih (fun d hd => h d (List.mem_cons_of_mem b hd)) hleft
    refine ⟨stream', hrest, ?_⟩
    rw [length_cons, Nat.add_right_comm, readMessages, hread, hmore]
    rfl

theorem cut_frame {frames : List (List UInt8)} {bytes : List UInt8} (hpre : bytes <+: frames.flatten)
    (hcut : ∀ k, bytes ≠ (frames.take k).flatten) :
    ∃ done frame later left, frames = done ++ frame :: later ∧ bytes = done.flatten ++ left ∧ left <+: frame ∧
      left ≠ frame ∧ left ≠ [] := by
  induction frames generalizing bytes with
  | nil => cases hcut 0 (List.prefix_nil.1 hpre)
  | cons frame frames ih =>
    have hnil : bytes ≠ [] := hcut 0
    have hframe : bytes ≠ frame := by
      have hone := hcut 1
      rwa [List.take_succ_cons, List.take_zero, List.flatten_singleton] at hone
    rcases List.prefix_or_prefix_of_prefix hpre (prefix_append frame _) with hin | ⟨rest, rfl⟩
    · exact ⟨[], frame, frames, bytes, rfl, rfl, hin, hframe, hnil⟩
    · have hrest : ∀ k, rest ≠ (frames.take k).flatten := by
        rintro k rfl
        exact hcut (k + 1) (by rw [List.take_succ_cons, flatten_cons])
      obtain ⟨done, inner, later, left, rfl, rfl, hleft⟩ := ih ((List.prefix_append_right_inj frame).1 hpre) hrest
      exact ⟨frame :: done, inner, later, left, rfl, by rw [flatten_cons, append_assoc], hleft⟩

/-- **Framed messages come back from every chunking of their bytes, and a stream that stops inside a message is reported
as truncated after the messages before.** -/
theorem framing_round_trip (codec : BodyCodec V) (bodies : List (String × V)) (h : ∀ b ∈ bodies, Admits codec b.1 b.2) :
    ∃ frames, bodies.mapM (fun b => encode b.1) = .ok frames ∧
      (∀ chunks : List (List UInt8), (∀ chunk ∈ chunks, chunk ≠ []) → chunks.flatten = frames.flatten →
        readMessages codec (bodies.length + 1) chunks = bodies.map received ++ [.ok none]) ∧
      ∀ chunks : List (List UInt8), (∀ chunk ∈ chunks, chunk ≠ []) → chunks.flatten <+: frames.flatten →
        (∀ k, chunks.flatten ≠ (frames.take k).flatten) →
        ∃ k < bodies.length, (frames.take k).flatten <+: chunks.flatten ∧
          ¬ (frames.take (k + 1)).flatten <+: chunks.flatten ∧
          readMessages codec (k + 1) chunks = (bodies.take k).map received ++ [.error .truncatedMessage] := by
  refine ⟨_, encode_all h, ?_, ?_⟩
  · intro chunks _ hflat
    obtain ⟨stream', hend, hread⟩ := readMessages_append 1 h (hflat.trans (append_nil _).symm)
    rw [hread, readMessages, readMessages, readMessage_end hend]
  · intro chunks _ hpre hcut
    obtain ⟨_, _, _, _, hframes, hflat, hleft, hne, hnil⟩ := cut_frame hpre hcut
    obtain ⟨bodies1, _, rfl, rfl, hrest⟩ := List.map_eq_append_iff.1 hframes
    obtain ⟨b, bodies3, rfl, rfl, rfl⟩ := List.map_eq_cons_iff.1 hrest
    have hadmits : ∀ d ∈ bodies1, Admits codec d.1 d.2 := fun d hd => h d (List.mem_append_left _ hd)
    have hb : Admits codec b.1 b.2 := h b (List.mem_append_right _ (.head _))
    obtain ⟨stream', hstream, hread⟩ := readMessages_append 1 hadmits hflat
    have htake : (bodies1 ++ b :: bodies3).take bodies1.length = bodies1 := take_left
    have htake' : (bodies1 ++ b :: bodies3).take (bodies1.length + 1) = bodies1 ++ [b] := by
      rw [List.take_length_add_append]
      rfl
    refine ⟨bodies1.length, ?_, ?_, ?_, ?_⟩
    · rw [length_append, length_cons]
      omega
    · rw [← map_take, htake, hflat]
      exact prefix_append _ _
    · rw [← map_take, htake', hflat, List.map_append, List.flatten_append, List.prefix_append_right_inj]
      intro hlong
      rw [List.map_singleton, List.flatten_singleton] at hlong
      exact hne (hleft.eq_of_length_le hlong.length_le)
    · subst hstream
      rw [htake, hread, readMessages, readMessages, readMessage_cut hb.size hleft hne hnil]

/-- A codec that knows the empty object and a text of two bytes. -/
def smallCodec : BodyCodec Nat where
  visits := fun text =>
    if text = "\x7b\x7d" then ([.enter 0 .root], none)
    else if text = "\"é\"" then ([.enter 0 .root, .text 2], none) else ([.enter 0 .root], some "expected value")
  fromStr := fun text =>
    if text = "\x7b\x7d" then .ok 0 else if text = "\"é\"" then .ok 1 else .error "expected value"

theorem framing_round_trip_two : readMessages smallCodec 3
        [[67, 111, 110, 116, 101, 110, 116, 45, 76, 101, 110, 103, 116, 104, 58, 32, 50, 13, 10, 13],
          [10, 123, 125, 67], [111, 110, 116, 101, 110, 116, 45, 76, 101, 110, 103, 116, 104, 58, 32, 52, 13, 10, 13, 10, 34],
          [195], [169, 34]] = [.ok (some (0, 2)), .ok (some (1, 4)), .ok none] ∧
    ∃ k < 2, readMessages smallCodec (k + 1)
        [[67, 111, 110, 116, 101, 110, 116, 45, 76, 101, 110, 103, 116, 104, 58, 32, 50, 13, 10, 13], [10, 123, 125, 67]] =
      ([("\x7b\x7d", 0), ("\"é\"", 1)].take k).map received ++ [.error .truncatedMessage] := by
  have hadmits : ∀ b ∈ [("\x7b\x7d", 0), ("\"é\"", 1)], Admits smallCodec b.1 b.2 := by
    intro b hb
    rcases List.mem_cons.1 hb with rfl | hb
    · exact ⟨by decide, by rfl, by rfl⟩
    · obtain rfl := List.mem_singleton.1 hb
      exact ⟨by decide, by rfl, by rfl⟩
  obtain ⟨_, hframes, hwhole, hcut⟩ := framing_round_trip smallCodec _ hadmits
  cases (encode_all hadmits).symm.trans hframes
  have hfirst : wire "\x7b\x7d" = [67, 111, 110, 116, 101, 110, 116, 45, 76, 101, 110, 103, 116, 104, 58, 32, 50, 13, 10,
      13, 10, 123, 125] := by decide
  have hsecond : wire "\"é\"" = [67, 111, 110, 116, 101, 110, 116, 45, 76, 101, 110, 103, 116, 104, 58, 32, 52, 13, 10, 13,
      10, 34, 195, 169, 34] := by decide
  simp only [map_cons, map_nil, hfirst, hsecond] at hwhole hcut
  refine ⟨hwhole _ (by decide) (by decide), ?_⟩
  obtain ⟨k, hk, -, -, hread⟩ := hcut
    [[67, 111, 110, 116, 101, 110, 116, 45, 76, 101, 110, 103, 116, 104, 58, 32, 50, 13, 10, 13], [10, 123, 125, 67]]
    (by decide) (by decide) (by
      intro k hk
      have hlength := congrArg List.length hk
      rcases k with - | - | k
      · cases hlength
      · cases hlength
      · rw [List.take_of_length_le (by simp)] at hlength
        exact absurd hlength (by decide))
  exact ⟨k, hk, hread⟩

end Iteron.Lsp
