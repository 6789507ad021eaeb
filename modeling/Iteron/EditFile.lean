import Iteron.EditExact
import Iteron.EditNormalized
import Iteron.Utf8
/-!
# EditFile — an edit of a file

A file is parsed into its text and the format an edit has to keep: the byte-order mark, the line ending, and the line
ending at the end.  The new text takes the line ending of the file before the edit, and the end of the file is repaired
behind it.
-/
namespace Iteron.Edit
open Patch (Bytes UniqueEditError)
open Utf8

inductive LineEnding where
  | lf
  | crLf

def LineEnding.asStr : LineEnding → Bytes
  | .lf => [Edit.lf]
  | .crLf => [cr, Edit.lf]

inductive TextFileError where
  | binaryOrUnsupported
  | nonUtf8
  deriving DecidableEq

structure EditableText where
  content : Bytes
  hasBom : Bool
  lineEnding : Option LineEnding
  trailingLineEnding : Option LineEnding

def utf8Bom : Bytes := [0xEF, 0xBB, 0xBF]

def contentOf (file : Bytes) : Bytes := if utf8Bom <+: file then file.drop utf8Bom.length else file

namespace EditableText

def parse (bytes : Bytes) : Except TextFileError EditableText :=
  let content := contentOf bytes
  if 0 ∈ content then .error .binaryOrUnsupported
  else if isUtf8 content = false then .error .nonUtf8
  else .ok {
    content
    hasBom := decide (utf8Bom <+: bytes)
    -- decided by the first line feed
    lineEnding := if lf ∈ content then
      some (if (content.takeWhile (· != lf)).getLast? = some cr then .crLf else .lf) else none
    trailingLineEnding := if content.getLast? = some lf then
      some (if [cr, lf] <:+ content then .crLf else .lf) else none }

end EditableText

/-- `replace("\r\n", "\n")`. -/
def toLf : Bytes → Bytes
  | [] => []
  | b :: rest => if b = cr ∧ rest.head? = some lf then toLf rest else b :: toLf rest

/-- `replace('\n', "\r\n")`. -/
def toCrLf (text : Bytes) : Bytes := text.flatMap (fun b => if b = lf then [cr, lf] else [b])

/-- The line feeds at the end, each with the carriage return before it, popped off the text read from its end. -/
def popLineEndings : Bytes → Bytes
  | [] => []
  | [b] => if b = lf then [] else [b]
  | b :: c :: rest =>
    if b = lf then (if c = cr then popLineEndings rest else popLineEndings (c :: rest)) else b :: c :: rest

namespace EditableText

def normalizeReplacement (text : EditableText) (replacement : Bytes) : Bytes :=
  match text.lineEnding with
  | none => replacement
  | some .lf => toLf replacement
  | some .crLf => toCrLf (toLf replacement)

def restoreEnd (text : EditableText) (updated : Bytes) : Bytes :=
  match text.trailingLineEnding with
  | some ending => if updated.getLast? = some lf then updated else updated ++ ending.asStr
  | none => (popLineEndings updated.reverse).reverse

def encode (text : EditableText) (updated : Bytes) : Bytes :=
  (if text.hasBom then utf8Bom else []) ++ text.restoreEnd updated

end EditableText

inductive FileEditError where
  | read (error : TextFileError)
  | edit (error : UniqueEditError)
  deriving DecidableEq

def editFile (limits : Limits) (file : Bytes) (old new : String) : Except FileEditError Bytes := do
  let text ← (EditableText.parse file).mapError .read
  let replacement := text.normalizeReplacement (utf8 new)
  let updated ← (applyUniqueEdit limits text.content (utf8 old) replacement).mapError .edit
  return text.encode updated

end Iteron.Edit
