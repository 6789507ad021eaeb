import Iteron.Kmp
import Iteron.Patch
import Iteron.Search
import Mathlib.Data.List.DropRight
/-!
# Edit — the unique edit

An edit replaces the one place of its anchor: the place of the exact text, and when there is none the place of its lines
up to the blanks at their edges, found by a scan over line hashes and checked.  Texts are their bytes.
-/
namespace Iteron.Edit
open Patch (Bytes UniqueEditError)

def lf : UInt8 := 10
def cr : UInt8 := 13

/-- The tunable limits, with their compiled values. -/
structure Limits where
  maxNormalizedLines : Nat := 262144
  maxNormalizedCandidateChecks : Nat := 1024

def slice (text : Bytes) (start stop : Nat) : Bytes := (text.drop start).take (stop - start)

/-! ## Suspicious characters -/

def codepoints : Bytes → List Nat
  | [] => []
  | a :: rest =>
    if a < 0x80 then a.toNat :: codepoints rest
    else
      match rest with
      | [] => []
      | b :: rest =>
        if a < 0xE0 then ((a.toNat - 0xC0) * 64 + (b.toNat - 0x80)) :: codepoints rest
        else
          match rest with
          | [] => []
          | c :: rest =>
            if a < 0xF0 then
              (((a.toNat - 0xE0) * 64 + (b.toNat - 0x80)) * 64 + (c.toNat - 0x80)) :: codepoints rest
            else
              match rest with
              | [] => []
              | d :: rest =>
                ((((a.toNat - 0xF0) * 64 + (b.toNat - 0x80)) * 64 + (c.toNat - 0x80)) * 64 + (d.toNat - 0x80)) ::
                  codepoints rest

def isSuspicious (c : Nat) : Bool :=
  (decide (0x200B ≤ c) && decide (c ≤ 0x200F)) || (decide (0x202A ≤ c) && decide (c ≤ 0x202E)) ||
    (decide (0x2066 ≤ c) && decide (c ≤ 0x2069)) || c == 0x00AD || c == 0xFEFF

def suspiciousUnicode (s : Bytes) : Option Nat := (codepoints s).find? isSuspicious

/-! ## Lines -/

structure NormalizedLine where
  start : Nat
  contentEnd : Nat
  fullEnd : Nat
  coreStart : Nat
  coreEnd : Nat
  hash : UInt64

def NormalizedLine.core (line : NormalizedLine) (text : Bytes) : Bytes := slice text line.coreStart line.coreEnd

def NormalizedLine.hasEol (line : NormalizedLine) : Bool := decide (line.contentEnd < line.fullEnd)

def isBlank (b : UInt8) : Bool := b == 32 || b == 9

def stableLineHash (bytes : Bytes) : UInt64 :=
  bytes.foldl (fun hash byte => (hash ^^^ byte.toUInt64) * 0x00000100000001b3) 0xcbf29ce484222325

/-- A line in its parts: the blanks around its core, and its line ending. -/
structure Parts where
  lead : Bytes
  core : Bytes
  trail : Bytes
  eol : Bytes
  deriving DecidableEq

namespace Parts

def text (p : Parts) : Bytes := p.lead ++ (p.core ++ (p.trail ++ p.eol))

def place (start : Nat) (p : Parts) : NormalizedLine where
  start := start
  coreStart := start + p.lead.length
  coreEnd := start + p.lead.length + p.core.length
  contentEnd := start + p.lead.length + p.core.length + p.trail.length
  fullEnd := start + p.lead.length + p.core.length + p.trail.length + p.eol.length
  hash := stableLineHash p.core

end Parts

def partsOf (content eol : Bytes) : Parts where
  lead := content.takeWhile isBlank
  core := (content.dropWhile isBlank).rdropWhile isBlank
  trail := (content.dropWhile isBlank).rtakeWhile isBlank
  eol := eol

/-- The first line of a text that is not empty: a carriage return before its line feed is part of the ending. -/
def firstLine (text : Bytes) : Parts :=
  let body := text.takeWhile (· != lf)
  if body.length < text.length then
    if body.getLast? = some cr then partsOf body.dropLast [cr, lf] else partsOf body [lf]
  else partsOf body []

theorem partsOf_text (content eol : Bytes) : (partsOf content eol).text = content ++ eol := by
  have htail : (content.dropWhile isBlank).rdropWhile isBlank ++ (content.dropWhile isBlank).rtakeWhile isBlank =
      content.dropWhile isBlank := List.rdropWhile_append_rtakeWhile ..
  rw [Parts.text, partsOf, ← List.append_assoc _ _ eol, htail, ← List.append_assoc, List.takeWhile_append_dropWhile]

def afterLine (text : Bytes) : Bytes := (text.dropWhile (· != lf)).drop 1

theorem length_afterLine_lt {text : Bytes} (h : text ≠ []) : (afterLine text).length < text.length := by
  have hle := (List.dropWhile_suffix (p := (· != lf)) (l := text)).length_le
  have := List.length_pos_of_ne_nil h
  rw [afterLine, List.length_drop]
  omega

def lineParts (text : Bytes) : List Parts :=
  if _h : text = [] then [] else firstLine text :: lineParts (afterLine text)
termination_by text.length
decreasing_by exact length_afterLine_lt _h

/-- Lines with their offsets, the first at `start`. -/
def placed : Nat → List Parts → List NormalizedLine
  | _, [] => []
  | start, p :: ps => p.place start :: placed (start + p.text.length) ps

def normalizedLines (limits : Limits) (text : Bytes) : Except UniqueEditError (List NormalizedLine) :=
  if limits.maxNormalizedLines < (lineParts text).length then
    .error (.normalizationLimit "line count exceeds 262144")
  else .ok (placed 0 (lineParts text))

/-! ## The normalized tier -/

/-- `nearest_normalized_line`: the line most like the first core of the anchor that is not empty. -/
def nearestNormalizedLine (content : Bytes) (contentLines : List NormalizedLine) (old : Bytes)
    (oldLines : List NormalizedLine) : Option Nat :=
  match (oldLines.map (fun line => line.core old)).find? (fun core => !core.isEmpty) with
  | none => none
  | some target =>
    let common := fun (left right : Bytes) => ((left.zip right).takeWhile (fun p => p.1 == p.2)).length
    let best := contentLines.zipIdx.foldl (fun best entry =>
      let candidate := entry.1.core content
      let similarity := min (common candidate target + common candidate.reverse target.reverse)
        (min candidate.length target.length)
      let delta := max (candidate.length - target.length) (target.length - candidate.length)
      let better := match best with
        | none => true
        | some (_, bestSimilarity, bestDelta) =>
          decide (bestSimilarity < similarity) || (similarity == bestSimilarity && decide (delta < bestDelta))
      if better then some (entry.2 + 1, similarity, delta) else best) (none : Option (Nat × Nat × Nat))
    best.map (fun b => b.1)

def normalizedSequenceEqual (content : Bytes) (candidate : List NormalizedLine) (old : Bytes)
    (pattern : List NormalizedLine) : Bool :=
  (candidate.zip pattern).all (fun p => p.1.core content == p.2.core old)

/-- The new cores between the envelopes of the matched lines. -/
def replaceCores (content new : Bytes) : List NormalizedLine → List NormalizedLine → Bytes
  | m :: m' :: ms, l :: ls => l.core new ++ (slice content m.coreEnd m'.coreStart ++ replaceCores content new (m' :: ms) ls)
  | _, l :: _ => l.core new
  | _, [] => []

/-- The new lines joined by one line ending; the first starts and the last ends at its core. -/
def joinLines (eol new : Bytes) : Bool → List NormalizedLine → Bytes
  | _, [] => []
  | first, [l] =>
    let start := if first then l.coreStart else l.start
    slice new (min start l.coreEnd) l.coreEnd
  | first, l :: l' :: ls =>
    let start := if first then l.coreStart else l.start
    slice new (min start l.contentEnd) l.contentEnd ++ (eol ++ joinLines eol new false (l' :: ls))

def normalizedReplacement (limits : Limits) (content : Bytes) (matched : List NormalizedLine) (new : Bytes) :
    Except UniqueEditError Bytes := do
  let newLines ← normalizedLines limits new
  if newLines.length = matched.length ∧ newLines ≠ [] then return replaceCores content new matched newLines
  if newLines.isEmpty then return []
  let eol := ((matched.find? NormalizedLine.hasEol).map (fun l => slice content l.contentEnd l.fullEnd)).getD [lf]
  return joinLines eol new true newLines

section
variable (limits : Limits) (content : Bytes) (contentLines : List NormalizedLine) (old : Bytes)
  (oldLines : List NormalizedLine) (table : List Nat)

/-- The check of a candidate whose hashes are those of the anchor: `start` is its first line, `line` its last. -/
def verified (start : Nat) (line : NormalizedLine) : Bool :=
  normalizedSequenceEqual content ((contentLines.drop start).take oldLines.length) old oldLines &&
    (!oldLines.getLast?.any NormalizedLine.hasEol || line.hasEol)

/-- The loop over the lines of the content: the line's index, the length of the pattern matched so far, the candidates
checked, and the one place found. -/
def scan : Nat → Nat → Nat → Option Nat → List NormalizedLine → Except UniqueEditError (Option Nat)
  | _, _, _, found, [] => .ok found
  | index, matched, checks, found, line :: rest =>
    let matched := Kmp.advance (oldLines.map NormalizedLine.hash) table line.hash matched
    if matched ≠ oldLines.length then scan (index + 1) matched checks found rest
    else if limits.maxNormalizedCandidateChecks < checks + 1 then
      .error (.normalizationLimit "candidate verification exceeds its bounded work limit")
    else
      let next := table.getD (matched - 1) 0
      if verified content contentLines old oldLines (index + 1 - oldLines.length) line then
        match found with
        | some _ => .error (.ambiguousAnchor 2 true)
        | none => scan (index + 1) next (checks + 1) (some (index + 1 - oldLines.length)) rest
      else scan (index + 1) next (checks + 1) found rest

end

structure Plan where
  start : Nat
  stop : Nat
  replacement : Bytes
  deriving DecidableEq

def planNormalizedEdit (limits : Limits) (content old new : Bytes) : Except UniqueEditError Plan := do
  let contentLines ← normalizedLines limits content
  let oldLines ← normalizedLines limits old
  if oldLines.all (fun line => (line.core old).isEmpty) then throw (.anchorNotFound none)
  let nearestLine := nearestNormalizedLine content contentLines old oldLines
  if contentLines.length < oldLines.length then throw (.anchorNotFound nearestLine)
  let table := Kmp.prefixTable (oldLines.map NormalizedLine.hash)
  let found ← scan limits content contentLines old oldLines table 0 0 0 none contentLines
  match found with
  | none => throw (.anchorNotFound nearestLine)
  | some start =>
    let matched := (contentLines.drop start).take oldLines.length
    let replacement ← normalizedReplacement limits content matched new
    return ⟨(matched.head?.map NormalizedLine.coreStart).getD 0, (matched.getLast?.map NormalizedLine.coreEnd).getD 0,
      replacement⟩

/-! ## The exact tier -/

/-- `str::match_indices`: the places of the text from the front, none over another. -/
def matchIndices (pat : Bytes) (offset : Nat) (text : Bytes) : List Nat :=
  match _h : Search.splitFirst pat text with
  | none => []
  | some (before, rest) =>
    if pat = [] then []
    else (offset + before.length) :: matchIndices pat (offset + before.length + pat.length) (rest.drop pat.length)
termination_by text.length
decreasing_by
  rename_i hne
  have := Search.splitFirst_length _h
  have := (Search.splitFirst_some _h).2.1.length_le
  have := List.length_pos_of_ne_nil hne
  rw [List.length_drop]
  omega

def planUniqueEdit (limits : Limits) (content old new : Bytes) : Except UniqueEditError Plan :=
  if old.isEmpty then .error .emptyAnchor
  else if old = new then .error .noChange
  else
    match (suspiciousUnicode old).or (suspiciousUnicode new) with
    | some codepoint => .error (.suspiciousUnicode codepoint)
    | none =>
      match matchIndices old 0 content with
      | [start] => .ok ⟨start, start + old.length, new⟩
      | [] => planNormalizedEdit limits content old new
      | _ :: _ :: more => .error (.ambiguousAnchor (2 + more.length) false)

/-- `replace_range`. -/
def Plan.apply (plan : Plan) (content : Bytes) : Bytes :=
  content.take plan.start ++ (plan.replacement ++ content.drop plan.stop)

def applyUniqueEdit (limits : Limits) (content old new : Bytes) : Except UniqueEditError Bytes :=
  (planUniqueEdit limits content old new).map (fun plan => plan.apply content)

end Iteron.Edit
