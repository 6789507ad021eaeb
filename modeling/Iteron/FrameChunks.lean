import Mathlib.Data.List.Induction
import Iteron.Base64
import Iteron.Machine
import Iteron.Refuse
/-!
# FrameChunks — a server frame that is too long for one line

A frame is measured by one pass of the serializer and, when it is too long, cut by another; how a pass splits its bytes into
writes is arbitrary.  Every line of a fragmented frame is the JSON of a `FrameChunk`, whose texts need no escapes.
-/
namespace Iteron.FrameChunks

open Base64 Machine Refuse

abbrev Bytes := List UInt8

/-- The tunable limits, with their defaults. -/
structure Limits where
  maxServerFrameBytes : Nat := 1024 * 1024
  maxLogicalServerFrameBytes : Nat := 32 * 1024 * 1024 * 6 + 1024 * 1024
  frameChunkSourceBytes : Nat := 512 * 1024

structure LogicalIdentity where
  stream : String
  logicalType : String
  seq : Option UInt64
  rolloutSeq : Option UInt64

def LogicalIdentity.control (logicalType : String) : LogicalIdentity := ⟨"control", logicalType, none, none⟩

structure FrameChunk where
  identity : LogicalIdentity
  logicalBytes : Nat
  chunkIndex : Nat
  chunkCount : Nat
  data : Bytes

def ascii (text : List Char) : Bytes := text.map (fun c => UInt8.ofNat c.toNat)

def field (name : String) (value : Bytes) : Bytes := ascii (",\"" ++ name ++ "\":").toList ++ value

def number (n : Nat) : Bytes := ascii (Nat.toDigits 10 n)

def quoted (text : Bytes) : Bytes := ascii ['"'] ++ text ++ ascii ['"']

def protocolVersion : Nat := 5

def optional (name : String) (value : Option UInt64) : Bytes := value.elim [] (fun n => field name (number n.toNat))

def FrameChunk.json (c : FrameChunk) : Bytes :=
  ascii "\x7b\"type\":\"frame_chunk\"".toList ++ field "protocol_version" (number protocolVersion) ++
    field "stream" (quoted (ascii c.identity.stream.toList)) ++
    field "logical_type" (quoted (ascii c.identity.logicalType.toList)) ++
    optional "seq" c.identity.seq ++ optional "rollout_seq" c.identity.rolloutSeq ++
    field "logical_bytes" (number c.logicalBytes) ++ field "chunk_index" (number c.chunkIndex) ++
    field "chunk_count" (number c.chunkCount) ++ field "encoding" (quoted (ascii "base64_json_utf8".toList)) ++
    field "data" (quoted c.data) ++ ascii ['\x7d']

/-- A line, without its newline. -/
inductive Line where
  | single (json : Bytes)
  | chunk (c : FrameChunk)

def Line.bytes : Line → Bytes
  | .single json => json
  | .chunk c => c.json

structure ChunkWriter where
  pending : Bytes := []
  sent : List Bytes := []

namespace ChunkWriter

def sendPending (w : ChunkWriter) : ChunkWriter := if w.pending = [] then w else ⟨[], w.sent ++ [w.pending]⟩

/-- The loop of `write`; each round takes a byte at least, so its length is fuel enough. -/
def fill (source : Nat) : Nat → ChunkWriter → Bytes → ChunkWriter
  | 0, w, _ => w
  | fuel + 1, w, bytes =>
    if bytes = [] then w
    else
      let take := min (source - w.pending.length) bytes.length
      let w := { w with pending := w.pending ++ bytes.take take }
      fill source fuel (if w.pending.length = source then w.sendPending else w) (bytes.drop take)

def write (source : Nat) (w : ChunkWriter) (bytes : Bytes) : ChunkWriter := fill source bytes.length w bytes

end ChunkWriter

variable {source : Nat} {w : ChunkWriter} {seen : Bytes}

structure Filled (source : Nat) (w : ChunkWriter) (seen : Bytes) : Prop where
  full : ∀ c ∈ w.sent, c.length = source
  room : w.pending.length < source
  joined : w.sent.flatten ++ w.pending = seen

theorem Filled.fill {fuel : Nat} (h : Filled source w seen) {bytes : Bytes} (hfuel : bytes.length ≤ fuel) :
    Filled source (w.fill source fuel bytes) (seen ++ bytes) := by
  induction fuel generalizing w seen bytes with
  | zero =>
    rw [List.length_eq_zero_iff.1 (Nat.le_zero.1 hfuel), List.append_nil]
    exact h
  | succ fuel ih =>
    unfold ChunkWriter.fill
    split
    case isTrue hnil => rwa [hnil, List.append_nil]
    case isFalse hne =>
      have hpos := List.length_pos_of_ne_nil hne
      have hroom := h.room
      set take := min (source - w.pending.length) bytes.length with htake
      have hsplit : seen ++ bytes = (seen ++ bytes.take take) ++ bytes.drop take := by
        rw [List.append_assoc, List.take_append_drop]
      have hlen : (w.pending ++ bytes.take take).length = w.pending.length + take := by
        rw [List.length_append, List.length_take, Nat.min_eq_left (by omega)]
      have hjoined : w.sent.flatten ++ (w.pending ++ bytes.take take) = seen ++ bytes.take take := by
        rw [← h.joined, List.append_assoc]
      rw [hsplit]
      refine ih ?_ (by rw [List.length_drop]; omega)
      split
      case isTrue hfull =>
        have hsome : w.pending ++ bytes.take take ≠ [] := List.ne_nil_of_length_pos (by omega)
        rw [ChunkWriter.sendPending, if_neg hsome]
        refine ⟨fun c hc => ?_, by simp only [List.length_nil]; omega, ?_⟩
        · rcases List.mem_append.1 hc with hc | hc
          · exact h.full c hc
          · rw [List.mem_singleton.1 hc]
            exact hfull
        · rw [← hjoined]
          simp
      case isFalse hpart =>
        exact ⟨h.full, by dsimp only at hpart ⊢; omega, hjoined⟩

theorem Filled.writes (hsource : 0 < source) (writes : List Bytes) :
    Filled source (writes.foldl (ChunkWriter.write source) {}) writes.flatten := by
  induction writes using List.reverseRecOn with
  | nil => exact ⟨by simp, hsource, rfl⟩
  | append_singleton writes _ ih =>
    rw [List.foldl_append, List.flatten_append, List.flatten_singleton]
    exact ih.fill (Nat.le_refl _)

variable {limits : Limits} {identity : LogicalIdentity} {n count : Nat}

variable {frame : ServerFrame} {lines : List Line}

end Iteron.FrameChunks
