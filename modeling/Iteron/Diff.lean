import Iteron.Refuse
import Iteron.Search
import Iteron.Text
/-!
# Diff — reading a unified diff

A diff is read line by line.  What the headers of a file say is kept in the state of the reader until the next file
begins or the diff ends, and a hunk is taken only when its body has the lines its own header declares.
-/
namespace Iteron.Diff

open Refuse

/-- `str::len`, in UTF-8 bytes. -/
def byteLen (text : List Char) : Nat := (text.map Char.utf8Size).sum

/-- A carriage return before the line feed belongs to the line ending. -/
def stripCr (line : List Char) : List Char := if line.getLast? = some '\r' then line.dropLast else line

def linesFrom (line : List Char) : List Char → List (List Char)
  | [] => if line = [] then [] else [line]
  | c :: text => if c = '\n' then stripCr line :: linesFrom [] text else linesFrom (line ++ [c]) text

def lines (text : List Char) : List (List Char) := linesFrom [] text

def stripStart (pat text : List Char) : Option (List Char) :=
  if pat.isPrefixOf text then some (text.drop pat.length) else none

def splitOnce (pat text : List Char) : Option (List Char × List Char) :=
  (Search.splitFirst pat text).map (fun p => (p.1, p.2.drop pat.length))

def trim (text : List Char) : List Char :=
  ((text.dropWhile Text.isWhitespace).reverse.dropWhile Text.isWhitespace).reverse

/-- `str::parse::<u32>`: digits behind an optional plus sign. -/
def parseU32 (text : List Char) : Option Nat :=
  let digits := (stripStart ['+'] text).getD text
  if digits ≠ [] ∧ digits.all Char.isDigit = true then
    let value := digits.foldl (fun n c => 10 * n + (c.toNat - '0'.toNat)) 0
    if value < 2 ^ 32 then some value else none
  else none

def maxEntries : Nat := 1000

def maxDiffBytes : Nat := 8388608

def maxHunksPerFile : Nat := 2000

def maxBodyLinesPerHunk : Nat := 100000

def maxLineBytes : Nat := 65536

inductive DiffError where
  | badHeader (header : List Char)
  | oldCountMismatch (header : List Char) (declared actual : Nat)
  | newCountMismatch (header : List Char) (declared actual : Nat)
  | tooManyFiles (limit : Nat)
  | diffTooLarge (len : Nat)
  | tooManyHunks (path : List Char)
  | tooManyBodyLines (header : List Char)
  | lineTooLong (len : Nat)
  | quotedPath (raw : List Char)
  deriving DecidableEq

structure Hunk where
  header : List Char
  oldStart : Nat
  oldLines : Nat
  newStart : Nat
  newLines : Nat
  /-- Body lines with their leading blank, plus or minus. -/
  body : List (List Char)
  deriving DecidableEq

structure Origin where
  source : List Char
  copied : Bool
  deriving DecidableEq

inductive FileChange where
  | text (hunks : List Hunk)
  | binary
  | renameOnly
  | modeOnly (old new : List Char)
  deriving DecidableEq

structure FileDiff where
  path : List Char
  origin : Option Origin
  change : FileChange
  deriving DecidableEq

/-- One side of a hunk header; an omitted count means one line. -/
def range (spec : List Char) : Option (Nat × Nat) :=
  match splitOnce [','] spec with
  | some (start, count) => do return (← parseU32 start, ← parseU32 count)
  | none => do return (← parseU32 spec, 1)

/-- `parse_header`: the ranges of a line `@@ -a,b +c,d @@`. -/
def parseHeader (line : List Char) : Option ((Nat × Nat) × (Nat × Nat)) := do
  let rest ← stripStart "@@ ".toList line
  let (ranges, _) ← Search.splitFirst " @@".toList rest
  let (old, new) ← splitOnce [' '] ranges
  let old ← stripStart ['-'] old
  let new ← stripStart ['+'] new
  return (← range old, ← range new)

def parseGitHeaderPath (rest : List Char) : Except DiffError (List Char) :=
  if ['"'].isPrefixOf rest || (Search.splitFirst [' ', '"'] rest).isSome then .error (.quotedPath rest)
  else .ok (((splitOnce " b/".toList rest).map Prod.snd).getD rest)

def unquoted (value : List Char) : Except DiffError (List Char) :=
  if ['"'].isPrefixOf value then .error (.quotedPath value) else .ok value

/-- How many body lines start with one of two characters, as a `u32`. -/
def countOf (a b : Char) (body : List (List Char)) : Nat :=
  (body.countP (fun l => l.head? == some a || l.head? == some b)) % 2 ^ 32

/-- The body of a hunk has the lines its header declares. -/
def verify (h : Hunk) : Except DiffError Unit := do
  refuseIf (countOf ' ' '-' h.body ≠ h.oldLines) (.oldCountMismatch h.header h.oldLines (countOf ' ' '-' h.body))
  refuseIf (countOf ' ' '+' h.body ≠ h.newLines) (.newCountMismatch h.header h.newLines (countOf ' ' '+' h.body))

/-- What is known of the file being read, and the files before it. -/
structure Reader where
  files : List FileDiff := []
  path : Option (List Char) := none
  origin : Option Origin := none
  mode : Option (List Char × List Char) := none
  binary : Bool := false
  hunks : List Hunk := []
  current : Option Hunk := none

def Reader.closeHunk (r : Reader) : Except DiffError Reader :=
  match r.current with
  | none => .ok r
  | some h => do
    verify h
    return { r with hunks := r.hunks ++ [h], current := none }

/-- What the entry of the file says, and whether its mode change was used for it. -/
def Reader.change (r : Reader) : FileChange × Bool :=
  if r.binary then (.binary, false)
  else if r.hunks ≠ [] then (.text r.hunks, false)
  else
    match r.mode with
    | some (old, new) => (.modeOnly old new, true)
    | none => (if r.origin.isSome then .renameOnly else .text [], true)

/-- `flush!`: the entry of the file read so far.  The mode is cleared only where the entry used it. -/
def Reader.flush (limit : Nat) (r : Reader) : Except DiffError Reader := do
  let r ← r.closeHunk
  match r.path with
  | none => return { r with hunks := [], binary := false }
  | some path =>
    let files := r.files ++ [{ path, origin := r.origin, change := r.change.1 }]
    refuseIf (limit < files.length) (.tooManyFiles limit)
    return { r with
      files, path := none, origin := none, hunks := [], binary := false
      mode := if r.change.2 then none else r.mode }

def Reader.openHunk (r : Reader) (line : List Char) : Except DiffError Reader := do
  let r ← r.closeHunk
  refuseIf (maxHunksPerFile ≤ r.hunks.length) (.tooManyHunks (r.path.getD []))
  match parseHeader line with
  | none => .error (.badHeader line)
  | some (old, new) =>
    return { r with current := some {
      header := line, oldStart := old.1, oldLines := old.2, newStart := new.1, newLines := new.2, body := [] } }

/-- A line of an open hunk; a line with another first character is none of its body. -/
def Reader.bodyLine (r : Reader) (line : List Char) : Except DiffError Reader :=
  match r.current with
  | none => .ok r
  | some h =>
    if line.head? = some ' ' ∨ line.head? = some '+' ∨ line.head? = some '-' then do
      refuseIf (maxBodyLinesPerHunk ≤ h.body.length) (.tooManyBodyLines h.header)
      return { r with current := some { h with body := h.body ++ [line] } }
    else .ok r

/-! ## The kinds of lines -/

def gitHeader : List Char := "diff --git ".toList

def isBinaryLine (line : List Char) : Bool :=
  "Binary files ".toList.isPrefixOf line || "GIT binary patch".toList.isPrefixOf line

def renameFrom : List Char := "rename from ".toList

def copyFrom : List Char := "copy from ".toList

def oldMode : List Char := "old mode ".toList

def newMode : List Char := "new mode ".toList

def hunkMark : List Char := "@@ ".toList

/-- A line of a file, that is no `diff --git` line. -/
def Reader.fileLine (r : Reader) (line : List Char) : Except DiffError Reader :=
  if isBinaryLine line then .ok { r with binary := true }
  else if let some source := stripStart renameFrom line then do
    return { r with origin := some ⟨← unquoted source, false⟩ }
  else if let some source := stripStart copyFrom line then do
    return { r with origin := some ⟨← unquoted source, true⟩ }
  else if let some m := stripStart oldMode line then .ok { r with mode := some (trim m, []) }
  else if let some (m, old) := (stripStart newMode line).bind (fun m => r.mode.map (fun mode => (m, mode.1))) then
    .ok { r with mode := some (old, trim m) }
  else if hunkMark.isPrefixOf line then r.openHunk line
  else r.bodyLine line

def Reader.readLine (limit : Nat) (r : Reader) (line : List Char) : Except DiffError Reader := do
  refuseIf (maxLineBytes < byteLen line) (.lineTooLong (byteLen line))
  match stripStart gitHeader line with
  | some rest =>
    let r ← r.flush limit
    return { r with path := some (← parseGitHeaderPath rest) }
  | none => r.fileLine line

/-- `parse_unified`. -/
def parseUnified (diff : List Char) (limit : Nat) : Except DiffError (List FileDiff) := do
  refuseIf (maxDiffBytes < byteLen diff) (.diffTooLarge (byteLen diff))
  let r ← (lines diff).foldlM (Reader.readLine (min limit maxEntries)) {}
  let r ← r.flush (min limit maxEntries)
  return r.files

end Iteron.Diff
