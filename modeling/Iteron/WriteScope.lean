import Iteron.AgentTypes
import Iteron.Transcript
import Iteron.Utf8
/-!
# WriteScope — the write authority a helper inherits

A scope is a list of literal paths.  Paths are compared by their components, as `std::path` does on Unix.  A filesystem is
what `canonicalize` answers in it.
-/
namespace Iteron.WriteScope

open Refuse Utf8
open Agents (validateWritePaths)
open Transcript (ToolUse)

/-- A `Component`; a name is bytes. -/
inductive Component where
  | rootDir
  | curDir
  | parentDir
  | normal (name : List UInt8)
  deriving DecidableEq

/-- A path is its components, and whether its text goes on after the last of them with a separator or a dot. -/
structure Path where
  components : List Component
  trailing : Bool := false

def slash : UInt8 := 47
def dot : UInt8 := 46

def component (part : List UInt8) : Option Component :=
  if part = [] ∨ part = [dot] then none else some (if part = [dot, dot] then .parentDir else .normal part)

namespace Path

/-- `Path::new`: an empty part and a dot count only where the text starts with them. -/
def new (text : String) : Path :=
  match (utf8 text).splitOn slash with
  | [] => ⟨[], false⟩
  | first :: rest =>
    let start := if first = [] then (if rest = [] then [] else [.rootDir])
      else if first = [dot] then [.curDir] else (component first).toList
    ⟨start ++ rest.filterMap component, rest.getLast?.any (fun part => (component part).isNone)⟩

def startsWith (path base : Path) : Bool := base.components.isPrefixOf path.components

def stripPrefix (path base : Path) : Option Path :=
  if path.startsWith base then some { path with components := path.components.drop base.components.length } else none

def join (path rel : Path) : Path :=
  let added := rel.components.filter (· ≠ .curDir)
  ⟨path.components ++ added, rel.trailing || added.isEmpty⟩

def push (path : Path) (name : List UInt8) : Path := ⟨path.components ++ [.normal name], false⟩

end Path

inductive ScopeError where
  | text (reason : String)
  | workspaceRoot
  | cannotResolve (path : Path)

def orElseError {α : Type} (x : Option α) (reason : String) : Except ScopeError α :=
  x.elim (.error (.text reason)) .ok

@[simp] theorem orElseError_eq_ok {α : Type} {x : Option α} {reason : String} {a : α} :
    orElseError x reason = .ok a ↔ x = some a := by
  cases x <;> simp [orElseError]

namespace FileSystem

end FileSystem

def protectedNames : List String :=
  [".git", ".gitconfig", ".gitattributes", ".gitmodules", ".github", ".iteron", ".claude", ".agents", ".codex",
    ".mcp.json", "agents.md", "claude.md", "skill.md"]

def lowercase (b : UInt8) : UInt8 := if 65 ≤ b ∧ b ≤ 90 then b + 32 else b

def isProtected (name : List UInt8) : Bool :=
  !isUtf8 name || protectedNames.any (fun p => utf8 p == name.map lowercase)

def Component.refused : Component → Bool
  | .normal name => isProtected name
  | _ => true

def Component.isNormal : Component → Bool
  | .normal _ => true
  | _ => false

def Component.isText : Component → Bool
  | .normal name => isUtf8 name
  | _ => true

structure InheritedWriteScope where
  paths : List String

namespace InheritedWriteScope

def validate (scope : InheritedWriteScope) : Except ScopeError Unit :=
  (validateWritePaths scope.paths).mapError .text

def new (paths : List String) : Except ScopeError InheritedWriteScope := do
  validate ⟨paths⟩
  pure ⟨paths⟩

/-- What one pair of paths adds to the common ones. -/
def common (left right : String) : Option String :=
  if (Path.new left).startsWith (Path.new right) then some left
  else if (Path.new right).startsWith (Path.new left) then some right else none

def allowsRelative (scope : InheritedWriteScope) (path : Path) : Bool :=
  !path.components.isEmpty && !path.components.any Component.refused && path.components.all Component.isNormal &&
    scope.paths.any (fun allowed => path.components == (Path.new allowed).components || path.startsWith (Path.new allowed))

def asArray : Kernel.Json → Option (List Kernel.Json)
  | .array items => some items
  | _ => none

def asStr : Kernel.Json → Option String
  | .string s => some s
  | _ => none

variable {scope wider : InheritedWriteScope} {path : Path}

variable {paths common : List String}

variable {fs : FileSystem} {root target : Path} {call : ToolUse}

/-- The place is below the root, and what is below it the scope allows. -/
def Within (scope : InheritedWriteScope) (root place : Path) : Prop :=
  ∃ below, place.stripPrefix root = some below ∧ scope.allowsRelative below = true

variable (hvalid : wider.validate = .ok ())
  (hallows : ∀ path, scope.allowsRelative path = true → wider.allowsRelative path = true)
include hvalid hallows

omit hvalid hallows

end InheritedWriteScope

end Iteron.WriteScope
