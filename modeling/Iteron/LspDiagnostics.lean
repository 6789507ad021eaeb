import Iteron.Event
import Iteron.Lsp
import Iteron.Machine
import Iteron.Refuse
/-!
# LspDiagnostics — what a diagnostics payload must be

A published payload is untrusted: every diagnostic is checked field by field, the tree is walked with a stack under a
node, depth and text bound before anything recurses through it, and what is kept is the payload read back from its
encoding.
-/
namespace Iteron.Lsp

open Kernel (Json)
open Refuse (refuseIf)

def maxDocumentUriBytes : Nat := 4 * 1024

def maxDiagnosticsPerDocument : Nat := 1024

def maxDiagnosticBytesPerDocument : Nat := 1024 * 1024

def maxDiagnosticJsonNodes : Nat := 32 * 1024

def maxDiagnosticJsonDepth : Nat := 64

def maxDiagnosticMessageBytes : Nat := 64 * 1024

def maxDiagnosticSourceBytes : Nat := 1024

def maxDiagnosticCodeBytes : Nat := 4 * 1024

def maxDiagnosticRelatedInformation : Nat := 64

def maxDiagnosticRelatedMessageBytes : Nat := 16 * 1024

def maxLspPosition : Nat := 2147483647

/-- The third-party code behind the checks: which texts are URLs, and the JSON writer and reader. -/
structure Codec where
  parses : String → Bool
  toVec : List Json → Except String (List UInt8)
  fromSlice : List UInt8 → Except String (List Json)

/-! ## Document URIs -/

def isAsciiAlphabetic (c : Char) : Bool := ('a' ≤ c && c ≤ 'z') || ('A' ≤ c && c ≤ 'Z')

def isAsciiDigit (c : Char) : Bool := '0' ≤ c && c ≤ '9'

def isAsciiAlphanumeric (c : Char) : Bool := isAsciiAlphabetic c || isAsciiDigit c

def isAsciiHexdigit (c : Char) : Bool := isAsciiDigit c || ('a' ≤ c && c ≤ 'f') || ('A' ≤ c && c ≤ 'F')

def unreserved (c : Char) : Bool := isAsciiAlphanumeric c || "-._~".toList.contains c

def reserved (c : Char) : Bool := ":/?#[]@!$&'()*+,;=".toList.contains c

def schemeOk : List Char → Bool
  | [] => false
  | c :: rest => isAsciiAlphabetic c && rest.all (fun c => isAsciiAlphanumeric c || "+-.".toList.contains c)

/-- The loop over the text behind the scheme: a percent sign takes the two characters after it. -/
def remainderOk : List Char → Bool
  | [] => true
  | '%' :: a :: b :: rest => isAsciiHexdigit a && isAsciiHexdigit b && remainderOk rest
  | '%' :: _ => false
  | c :: rest => (unreserved c || reserved c) && remainderOk rest

def validateDocumentUri (codec : Codec) (uri : String) : Except LspError Unit := do
  refuseIf (uri.utf8ByteSize > maxDocumentUriBytes) (.documentUriTooLong uri.utf8ByteSize maxDocumentUriBytes)
  refuseIf (¬ uri.toList.all (fun c => c.toNat < 128)) .invalidDocumentUri
  let scheme := uri.toList.takeWhile (· ≠ ':')
  let remainder := (uri.toList.dropWhile (· ≠ ':')).drop 1
  refuseIf (':' ∉ uri.toList) .invalidDocumentUri
  refuseIf (remainder.count '#' > 1) .invalidDocumentUri
  refuseIf (¬ schemeOk scheme) .invalidDocumentUri
  refuseIf (¬ remainderOk remainder) .invalidDocumentUri
  refuseIf (¬ codec.parses uri) .invalidDocumentUri

/-! ## Fields -/

def asStr : Json → Option String
  | .string s => some s
  | _ => none

def asArray : Json → Option (List Json)
  | .array items => some items
  | _ => none

def isObject : Json → Bool
  | .object _ => true
  | _ => false

def asI64 : Json → Option Int
  | .posInt n => if n ≤ 9223372036854775807 then some n else none
  | .negInt n => some n
  | _ => none

def positionComponents (value : Json) : Option (Nat × Nat) := do
  let line ← (← value.get "line").asU64
  let character ← (← value.get "character").asU64
  if line > maxLspPosition ∨ character > maxLspPosition then none else some (line, character)

def rangeComponents (value : Json) : Option ((Nat × Nat) × (Nat × Nat)) := do
  let start ← positionComponents (← value.get "start")
  let stop ← positionComponents (← value.get "end")
  if start.1 < stop.1 ∨ start.1 = stop.1 ∧ start.2 ≤ stop.2 then some (start, stop) else none

def optional {ε : Type} (field : Option Json) (check : Json → Except ε Unit) : Except ε Unit :=
  match field with
  | none => .ok ()
  | some value => check value

def okOr {ε α : Type} (value : Option α) (e : ε) : Except ε α :=
  match value with
  | some a => .ok a
  | none => .error e

def codeOk : Json → Bool
  | .string code => code.utf8ByteSize ≤ maxDiagnosticCodeBytes
  | value => (asI64 value).any (fun code => -2147483648 ≤ code ∧ code ≤ 2147483647)

def validateRelatedInformation (codec : Codec) (value : Json) : Except String Unit := do
  refuseIf (¬ isObject value) "related information is not an object"
  let location ← okOr ((value.get "location").filter isObject) "related location is missing or invalid"
  let uri ← okOr ((location.get "uri").bind asStr) "related location URI is missing"
  refuseIf (validateDocumentUri codec uri ≠ .ok ()) "related location URI is invalid"
  refuseIf ((location.get "range").bind rangeComponents = none) "related location range is missing or invalid"
  let message ← okOr ((value.get "message").bind asStr) "related message is missing or invalid"
  refuseIf (message.utf8ByteSize > maxDiagnosticRelatedMessageBytes) "related message exceeds its byte limit"

def diagnosticReason (codec : Codec) (value : Json) : Except String Unit := do
  refuseIf (¬ isObject value) "diagnostic is not an object"
  refuseIf ((value.get "range").bind rangeComponents = none) "range is missing or invalid"
  let message ← okOr ((value.get "message").bind asStr) "message is missing or not a string"
  refuseIf (message.utf8ByteSize > maxDiagnosticMessageBytes) "message exceeds its byte limit"
  optional (value.get "severity") fun severity =>
    refuseIf (¬ (severity.asU64.any (fun n => 1 ≤ n ∧ n ≤ 4))) "severity is not an integer in 1..=4"
  optional (value.get "code") fun code =>
    refuseIf (¬ codeOk code) "code is not a bounded string or LSP integer"
  optional (value.get "codeDescription") fun description => do
    let href ← okOr ((description.get "href").bind asStr) "codeDescription.href is missing or invalid"
    refuseIf (validateDocumentUri codec href ≠ .ok ()) "codeDescription.href is not a bounded URI"
  optional (value.get "source") fun source =>
    refuseIf (¬ ((asStr source).any (fun s => s.utf8ByteSize ≤ maxDiagnosticSourceBytes)))
      "source is not a bounded string"
  optional (value.get "tags") fun tags => do
    let tags ← okOr ((asArray tags).filter (fun tags => tags.length ≤ 2)) "tags is not a bounded array"
    refuseIf (tags.any (fun tag => !(tag.asU64.any (fun n => n = 1 ∨ n = 2)))) "tag is not an allowed DiagnosticTag"
  optional (value.get "relatedInformation") fun related => do
    let related ← okOr ((asArray related).filter (fun related => related.length ≤ maxDiagnosticRelatedInformation))
      "relatedInformation is not a bounded array"
    forM related (validateRelatedInformation codec)

def validateDiagnostic (codec : Codec) (index : Nat) (value : Json) : Except LspError Unit :=
  (diagnosticReason codec value).mapError (.malformedDiagnostic index)

/-! ## Structure -/

def textBytes : Json → Nat
  | .string text => text.utf8ByteSize
  | .object fields => (fields.map (fun f => f.1.utf8ByteSize)).sum
  | _ => 0

def children : Json → List Json
  | .array items => items
  | .object fields => fields.map Prod.snd
  | _ => []

/-- The loop over the stack, top first; `left` is how many of the allowed nodes were not yet counted. -/
def inspectStack : (left : Nat) → (text : Nat) → List (Json × Nat) → Except LspError Nat
  | left, _, [] => .ok (maxDiagnosticJsonNodes - left)
  | 0, _, _ :: _ => .error (.diagnosticsTooComplex maxDiagnosticJsonNodes)
  | left + 1, text, (value, depth) :: stack =>
    let text := text + textBytes value
    if depth > maxDiagnosticJsonDepth then .error (.diagnosticsTooDeep depth maxDiagnosticJsonDepth)
    else if text > maxDiagnosticBytesPerDocument then .error (.diagnosticsTooLarge text maxDiagnosticBytesPerDocument)
    else if (children value).length > left - stack.length then .error (.diagnosticsTooComplex maxDiagnosticJsonNodes)
    else inspectStack left text ((children value).map (fun child => (child, depth + 1)) ++ stack)

def inspectStructure (diagnostics : List Json) : Except LspError Nat :=
  -- the payload itself is the first node
  if diagnostics.length > maxDiagnosticJsonNodes - 1 then .error (.diagnosticsTooComplex maxDiagnosticJsonNodes)
  else inspectStack (maxDiagnosticJsonNodes - 1) 0 (diagnostics.map (fun value => (value, 1)))

def canonicalizeDiagnostics (codec : Codec) (diagnostics : List Json) : Except LspError (List Json × Nat × Nat) := do
  refuseIf (diagnostics.length > maxDiagnosticsPerDocument)
    (.diagnosticsTooMany diagnostics.length maxDiagnosticsPerDocument)
  forM (diagnostics.zipIdx) (fun d => validateDiagnostic codec d.2 d.1)
  let nodes ← inspectStructure diagnostics
  let bytes ← (codec.toVec diagnostics).mapError .json
  refuseIf (bytes.length > maxDiagnosticBytesPerDocument)
    (.diagnosticsTooLarge bytes.length maxDiagnosticBytesPerDocument)
  let canonical ← (codec.fromSlice bytes).mapError .json
  pure (canonical, bytes.length, nodes)

end Iteron.Lsp
