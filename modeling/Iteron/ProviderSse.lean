import Iteron.Sse
import Iteron.Diff
import Iteron.Utf8
import Iteron.Frames
/-!
# ProviderSse — the event streams of the providers

Two decoders take the bytes of a provider's answer as they come.  Each keeps what it has not read yet in a buffer behind a
cursor, cuts it at the blank lines it knows and parses the blocks; a block, and the bytes that wait for their blank line,
are bounded.
-/
namespace Iteron.ProviderSse

open Diff (lines trim stripStart splitOnce)
open Sse (DecodeCode DecodeField DecodeDiagnostic SseFrame)
open Frames

inductive ProviderError where
  | invalidResponse (diagnostic : DecodeDiagnostic)
  | http (message : String)

def invalid (code : DecodeCode) (field : DecodeField) : ProviderError := .invalidResponse ⟨code, field, none⟩

def ProviderError.atDecodeFrame (e : ProviderError) (frame : Nat) : ProviderError :=
  match e with
  | .invalidResponse diagnostic => .invalidResponse (diagnostic.atFrame frame)
  | .http message => .http message

def maxStreamBytes : Nat := 128 * 1024 * 1024

def maxSseFrameBytes : Nat := 32 * 1024 * 1024

/-! ## The decoder -/

/-- What a decoder knows of its wire; `maxStreamBytes` is the bound of a decoder that counts all its bytes. -/
structure Wire (F : Type) where
  frameBoundary : List UInt8 → Option (Nat × Nat)
  parse : List UInt8 → Except ProviderError (Option F)
  maxSseFrameBytes : Nat
  maxStreamBytes : Option Nat

structure Decoder where
  dataFrames : Nat := 0
  pending : List UInt8 := []
  cursor : Nat := 0
  totalBytes : Nat := 0

def Decoder.rest (d : Decoder) : List UInt8 := d.pending.drop d.cursor

def Decoder.refuse (d : Decoder) (e : ProviderError) : ProviderError := e.atDecodeFrame (d.dataFrames + 1)

variable {F : Type}

namespace Wire

variable (w : Wire F)

/-- The loop of `push`: every round takes a separator off the bytes that are left. -/
def drain : Nat → Decoder → Except ProviderError (Decoder × List F)
  | 0, d => .ok (d, [])
  | fuel + 1, d =>
    match w.frameBoundary d.rest with
    | none => .ok (d, [])
    | some (boundary, separatorLen) =>
      if w.maxSseFrameBytes < boundary then .error (d.refuse (invalid .limitExceeded .sseData))
      else
        match w.parse (d.rest.take boundary) with
        | .error e => .error (d.refuse e)
        | .ok none => drain fuel { d with cursor := d.cursor + boundary + separatorLen }
        | .ok (some frame) =>
          match drain fuel { d with cursor := d.cursor + boundary + separatorLen, dataFrames := d.dataFrames + 1 } with
          | .error e => .error e
          | .ok (d', frames) => .ok (d', frame :: frames)

/-- The bytes before the cursor are let go when they are many. -/
def compact (d : Decoder) : Decoder :=
  if 64 * 1024 ≤ d.cursor ∧ d.pending.length / 2 ≤ d.cursor then { d with pending := d.rest, cursor := 0 } else d

def push (d : Decoder) (bytes : List UInt8) : Except ProviderError (Decoder × List F) :=
  if w.maxStreamBytes.any (fun limit => decide (limit < d.totalBytes + bytes.length)) then
    .error (d.refuse (invalid .limitExceeded .sseData))
  else
    match w.drain (d.pending ++ bytes).length
        { d with pending := d.pending ++ bytes, totalBytes := d.totalBytes + bytes.length } with
    | .error e => .error e
    | .ok (d', frames) =>
      if w.maxSseFrameBytes < d'.pending.length - d'.cursor then .error (d'.refuse (invalid .limitExceeded .sseData))
      else .ok (compact d', frames)

def pushAll (d : Decoder) : List (List UInt8) → Except ProviderError (Decoder × List F)
  | [] => .ok (d, [])
  | chunk :: chunks =>
    match w.push d chunk with
    | .error e => .error e
    | .ok (d', frames) =>
      match pushAll d' chunks with
      | .error e => .error e
      | .ok (d'', frames') => .ok (d'', frames ++ frames')

/-- What comes of a stream: nothing when it is refused, else its frames and what `finish` answers. -/
def outcome (finish : Decoder → Except ProviderError Unit) (chunks : List (List UInt8)) :
    Option (List F × Except ProviderError Unit) :=
  match w.pushAll {} chunks with
  | .error _ => none
  | .ok (d, frames) => some (frames, finish d)

end Wire

/-! ## Responses -/

namespace Responses

structure WireFrame where
  event : Option (List Char)
  data : List Char

def better (best : Option (Nat × Nat)) (found : Option Nat) (len : Nat) : Option (Nat × Nat) :=
  match found, best with
  | none, best => best
  | some index, none => some (index, len)
  | some index, some (current, currentLen) => if index < current then some (index, len) else some (current, currentLen)

def frameBoundary (bytes : List UInt8) : Option (Nat × Nat) :=
  better (better (better none (position [13, 10, 13, 10] bytes) 4) (position [10, 10] bytes) 2) (position [13, 13] bytes) 2

def joinLines : List (List Char) → List Char
  | [] => []
  | [line] => line
  | line :: lines => line ++ '\n' :: joinLines lines

def parseLine (s : Option (List Char) × List (List Char)) (line : List Char) : Option (List Char) × List (List Char) :=
  if line.head? = some ':' then s
  else
    let p := (splitOnce [':'] line).getD (line, [])
    let value := (stripStart [' '] p.2).getD p.2
    if p.1 = "event".toList then (some value, s.2) else if p.1 = "data".toList then (s.1, s.2 ++ [value]) else s

def parseWireFrame (block : List UInt8) : Except ProviderError (Option WireFrame) :=
  match Utf8.fromUtf8 block with
  | none => .error (invalid .invalidUtf8 .sseData)
  | some text =>
    let s := ((text.toList.splitOnP (fun c => c == '\r' || c == '\n')).filter (fun line => line != [])).foldl parseLine (none, [])
    if s.2 = [] then .ok none else .ok (some ⟨s.1, joinLines s.2⟩)

def wire : Wire WireFrame where
  frameBoundary := frameBoundary
  parse := parseWireFrame
  maxSseFrameBytes := maxSseFrameBytes
  maxStreamBytes := some maxStreamBytes

def isAsciiWhitespace (b : UInt8) : Bool := b == 9 || b == 10 || b == 12 || b == 13 || b == 32

def finish (d : Decoder) : Except ProviderError Unit :=
  if d.rest.all isAsciiWhitespace then .ok () else .error (.http "Responses stream ended with an incomplete SSE frame")

end Responses

/-! ## Anthropic -/

namespace Anthropic

def frameBoundary (buf : List UInt8) : Option (Nat × Nat) :=
  match position [10, 10] buf, position [13, 10, 13, 10] buf with
  | some lf, some crlf => if crlf < lf then some (crlf, 4) else some (lf, 2)
  | some lf, none => some (lf, 2)
  | none, some crlf => some (crlf, 4)
  | none, none => none

def parseLine (s : List Char × List (List Char)) (line : List Char) : List Char × List (List Char) :=
  match stripStart "event:".toList line with
  | some e => (trim e, s.2)
  | none =>
    match stripStart "data:".toList line with
    | some d => (s.1, s.2 ++ [trim d])
    | none => s

def parseBlock (block : List UInt8) : Except ProviderError (Option SseFrame) :=
  match Utf8.fromUtf8 block with
  | none => .error (invalid .invalidUtf8 .sseData)
  | some text =>
    let s := (lines text.toList).foldl parseLine ([], [])
    let data := Responses.joinLines s.2
    if s.1 ≠ [] ∧ data ≠ [] then .ok (some ⟨String.ofList s.1, String.ofList data⟩) else .ok none

def wire : Wire SseFrame where
  frameBoundary := frameBoundary
  parse := parseBlock
  maxSseFrameBytes := maxSseFrameBytes
  maxStreamBytes := none

def finish (d : Decoder) : Except ProviderError Unit :=
  match Utf8.fromUtf8 d.rest with
  | none => .error (d.refuse (invalid .invalidUtf8 .sseData))
  | some pending => if trim pending.toList = [] then .ok () else .error (d.refuse (invalid .protocolSequence .sseData))

end Anthropic

end Iteron.ProviderSse
