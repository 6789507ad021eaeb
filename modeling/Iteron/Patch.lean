import Iteron.Machine
import Iteron.Refuse
import Mathlib.Data.List.Sort
/-!
# Patch — the multi-file patch among other writers

Files are contents with a metadata stamp.  Before every step of the tool other writers may change any file, and every step
may fail; both are given by an environment.  A guarded commit compares and replaces in one step.  The log records every
write, so that a run can be read off it.
-/
namespace Iteron.Patch

open Refuse

abbrev Bytes := List UInt8

def maxFileBytes : Nat := 4194304
def maxTotalFileBytes : Nat := 16777216

structure File where
  bytes : Bytes
  stamp : Nat
  deriving DecidableEq

inductive Entry where
  | foreign (target : String) (file : Option File)
  | commit (target : String) (old new : File)
  | restore (target : String) (old new : File)

namespace Entry

def target : Entry → String
  | .foreign t _ | .commit t _ _ | .restore t _ _ => t

def after : Entry → Option File
  | .foreign _ file => file
  | .commit _ _ new | .restore _ _ new => some new

def replaced : Entry → Option File
  | .foreign _ _ => none
  | .commit _ old _ | .restore _ old _ => some old

def isOwn : Entry → Bool
  | .foreign _ _ => false
  | .commit _ _ _ | .restore _ _ _ => true

end Entry

inductive Fault where
  | none
  | io (message : String)
  /-- The file is too large, not regular, or changed while it was read. -/
  | unreadable
  /-- Refused before the file is touched. -/
  | refused (message : String)
  /-- The rename succeeded and the sync of the directory failed. -/
  | afterRename (message : String)

/-- What other writers do before each step, how the step fails, and the stamp of a file it replaces. -/
structure Env where
  writes : Nat → List (String × Option File)
  fault : Nat → Fault
  stamp : Nat → Nat

structure World where
  fs : String → Option File
  clock : Nat
  log : List Entry

namespace World

def write (w : World) (e : Entry) : World :=
  { w with fs := Function.update w.fs e.target e.after, log := w.log ++ [e] }

def tick (w : World) (E : Env) : World :=
  { (E.writes w.clock).foldl (fun w p => w.write (.foreign p.1 p.2)) w with clock := w.clock + 1 }

end World

structure PatchFailure where
  kind : String
  phase : String
  fileIndex : Option Nat
  hunkIndex : Option Nat
  conflictingHunkIndex : Option Nat
  nearestLine : Option Nat
  path : Option String
  message : String

namespace PatchFailure

def global (kind phase message : String) : PatchFailure := ⟨kind, phase, none, none, none, none, none, message⟩

def file (kind phase : String) (fileIndex : Nat) (path message : String) : PatchFailure :=
  ⟨kind, phase, some (fileIndex + 1), none, none, none, some path, message⟩

def hunk (kind : String) (fileIndex hunkIndex : Nat) (path message : String) : PatchFailure :=
  ⟨kind, "validate", some (fileIndex + 1), some (hunkIndex + 1), none, none, some path, message⟩

def anchorNotFound (fileIndex hunkIndex : Nat) (path : String) (nearestLine : Option Nat) (message : String) :
    PatchFailure :=
  ⟨"anchor_not_found", "validate", some (fileIndex + 1), some (hunkIndex + 1), none,
    nearestLine.filter (fun line => decide (line ≤ Machine.u32Max)), some path, message⟩

def conflict (fileIndex hunkIndex conflicting : Nat) (path : String) : PatchFailure :=
  ⟨"overlapping_hunks", "validate", some (fileIndex + 1), some (hunkIndex + 1), some (conflicting + 1), none, some path,
    "hunk " ++ toString (hunkIndex + 1) ++ " overlaps hunk " ++ toString (conflicting + 1) ++
      " in the original file snapshot"⟩

end PatchFailure

structure Hunk where
  old : String
  new : String

structure FilePatch where
  path : String
  hunks : List Hunk

inductive UniqueEditError where
  | emptyAnchor
  | noChange
  | suspiciousUnicode (codepoint : Nat)
  | anchorNotFound (nearestLine : Option Nat)
  | ambiguousAnchor (count : Nat) (normalized : Bool)
  | normalizationLimit (reason : String)
  deriving DecidableEq

structure SnapshotEdit where
  hunkIndex : Nat
  start : Nat
  stop : Nat
  replacement : Bytes

/-- The path resolution and the text editing that planning calls. -/
structure Planner where
  resolve : String → Except String String
  isUtf8 : Bytes → Bool
  /-- The span and the replacement of a unique edit, in bytes. -/
  planUniqueEdit : Bytes → Hunk → Except UniqueEditError (Nat × Nat × Bytes)
  display : UniqueEditError → String

def uniqueEditFailure (P : Planner) (error : UniqueEditError) (fileIndex hunkIndex : Nat) (path : String) : PatchFailure :=
  match error with
  | .anchorNotFound nearestLine => .anchorNotFound fileIndex hunkIndex path nearestLine (P.display error)
  | .emptyAnchor => .hunk "empty_anchor" fileIndex hunkIndex path (P.display error)
  | .noChange => .hunk "no_change" fileIndex hunkIndex path (P.display error)
  | .suspiciousUnicode _ => .hunk "suspicious_unicode" fileIndex hunkIndex path (P.display error)
  | .ambiguousAnchor _ _ => .hunk "ambiguous_anchor" fileIndex hunkIndex path (P.display error)
  | .normalizationLimit _ => .hunk "normalization_limit" fileIndex hunkIndex path (P.display error)

structure PlannedFile where
  fileIndex : Nat
  path : String
  target : String
  /-- The snapshot read while planning: its bytes, and with its stamp the commit guard. -/
  original : File
  updated : Bytes

structure Resolved where
  fileIndex : Nat
  request : FilePatch
  target : String

def resolveOne (P : Planner) (acc : List Resolved) (entry : FilePatch × Nat) : Except PatchFailure (List Resolved) := do
  let (request, fileIndex) := entry
  let target ← (P.resolve request.path).mapError
    (fun error => .file "path_outside_workspace" "resolve" fileIndex request.path error)
  refuseIf (target ∈ acc.map (fun r => r.target))
    (.file "duplicate_target" "resolve" fileIndex request.path "the same canonical file appears more than once")
  return acc ++ [⟨fileIndex, request, target⟩]

def spansOverlap (left right : SnapshotEdit) : Bool :=
  decide (left.start < right.stop) && decide (right.start < left.stop)

def planHunk (P : Planner) (r : Resolved) (original : Bytes) (edits : List SnapshotEdit) (entry : Hunk × Nat) :
    Except PatchFailure (List SnapshotEdit) := do
  let (hunk, hunkIndex) := entry
  let (start, stop, replacement) ← (P.planUniqueEdit original hunk).mapError
    (fun error => uniqueEditFailure P error r.fileIndex hunkIndex r.request.path)
  let edit : SnapshotEdit := { hunkIndex, start, stop, replacement }
  (edits.find? (spansOverlap edit)).forM
    (fun prior => .error (.conflict r.fileIndex hunkIndex prior.hunkIndex r.request.path))
  return edits ++ [edit]

/-- The length of the result, or the hunk at which it is no longer within the limit. -/
def renderedLength (acc : Nat) (edit : SnapshotEdit) : Except Nat Nat :=
  match (Machine.checkedSub acc (edit.stop - edit.start)).bind (fun n => Machine.checkedAdd n edit.replacement.length) with
  | some n => if n ≤ maxFileBytes then .ok n else .error edit.hunkIndex
  | none => .error edit.hunkIndex

def spliceEdits (original : Bytes) : Nat → List SnapshotEdit → Bytes
  | cursor, [] => original.drop cursor
  | cursor, edit :: rest =>
    (original.drop cursor).take (edit.start - cursor) ++ edit.replacement ++ spliceEdits original edit.stop rest

def renderSnapshotEdits (original : Bytes) (edits : List SnapshotEdit) : Except Nat Bytes := do
  let _ ← edits.foldlM renderedLength original.length
  return spliceEdits original 0 (edits.insertionSort (fun a b => a.start ≤ b.start))

def planFile (P : Planner) (r : Resolved) (snapshot : File) : Except PatchFailure PlannedFile := do
  refuseIf (P.isUtf8 snapshot.bytes = false)
    (.file "non_utf8_file" "read" r.fileIndex r.request.path "target is not UTF-8 text")
  let edits ← r.request.hunks.zipIdx.foldlM (planHunk P r snapshot.bytes) []
  let updated ← (renderSnapshotEdits snapshot.bytes edits).mapError (fun hunkIndex =>
    .hunk "updated_file_too_large" r.fileIndex hunkIndex r.request.path
      ("updated file exceeds " ++ toString maxFileBytes ++ " bytes"))
  refuseIf (updated = snapshot.bytes)
    (.file "no_change" "validate" r.fileIndex r.request.path "patch would not change target bytes")
  return { fileIndex := r.fileIndex, path := r.request.path, target := r.target, original := snapshot, updated }

variable (E : Env)

/-- `read_bounded`, or in a confined run the binding of the target and `read_bounded_confined`. -/
def readBounded (w : World) (r : Resolved) : World × Except PatchFailure File :=
  let now := w.tick E
  let failure := fun kind message => PatchFailure.file kind "read" r.fileIndex r.request.path message
  (now, match E.fault w.clock with
    | .io message => .error (failure "read_failed" message)
    | .unreadable => .error (failure "file_changed" "file changed while its snapshot was being read; re-read and retry")
    | .refused message => .error (.file "path_outside_workspace" "bind" r.fileIndex r.request.path message)
    | _ =>
      match now.fs r.target with
      | none => .error (failure "read_failed" "target does not exist")
      | some file =>
        if file.bytes.length > maxFileBytes then
          .error (failure "file_too_large" ("target exceeds " ++ toString maxFileBytes ++ " bytes"))
        else .ok file)

/-- The planning loop; `total` are the bytes of the snapshots so far. -/
def planFiles (P : Planner) : World → Nat → List Resolved → World × Except PatchFailure (List PlannedFile)
  | w, _, [] => (w, .ok [])
  | w, total, r :: rest =>
    match readBounded E w r with
    | (w, .error e) => (w, .error e)
    | (w, .ok snapshot) =>
      if total + snapshot.bytes.length > maxTotalFileBytes then
        (w, .error (.global "patch_too_large" "read"
          ("target files exceed " ++ toString maxTotalFileBytes ++ " total bytes")))
      else
        match planFile P r snapshot with
        | .error e => (w, .error e)
        | .ok plan =>
          match planFiles P w (total + snapshot.bytes.length) rest with
          | (w, .error e) => (w, .error e)
          | (w, .ok plans) => (w, .ok (plan :: plans))

def planPatch (P : Planner) (w : World) (requests : List FilePatch) : World × Except PatchFailure (List PlannedFile) :=
  match requests.zipIdx.foldlM (resolveOne P) [] with
  | .error e => (w, .error e)
  | .ok resolved => planFiles E P w 0 resolved

/-- Staging writes beside the target and does not touch it. -/
def stageAll : World → List PlannedFile → World × Except PatchFailure Unit
  | w, [] => (w, .ok ())
  | w, plan :: rest =>
    let now := w.tick E
    match E.fault w.clock with
    | .io message => (now, .error (.file "stage_failed" "stage" plan.fileIndex plan.path message))
    | _ => stageAll now rest

/-- The recheck of the stamps before the first replacement. -/
def precommit : World → List PlannedFile → World × Except PatchFailure Unit
  | w, [] => (w, .ok ())
  | w, plan :: rest =>
    let now := w.tick E
    let failure := fun kind message => PatchFailure.file kind "precommit" plan.fileIndex plan.path message
    match E.fault w.clock with
    | .refused message => (now, .error (failure "path_outside_workspace" message))
    | .io message => (now, .error (failure "read_failed" message))
    | _ =>
      match now.fs plan.target with
      | none => (now, .error (failure "read_failed" "target disappeared"))
      | some file =>
        if file.stamp ≠ plan.original.stamp then
          (now, .error (failure "file_changed" "file changed while the patch was being staged; re-read and retry"))
        else precommit now rest

inductive GuardedCommitFailure where
  | changed
  | inspect (message : String)
  | commit (message : String) (targetReplaced : Bool)

/-- `StagedWrite::commit_if_unchanged`: the target is replaced only while it is what was expected. -/
def commitIfUnchanged (w : World) (entry : File → Entry) (target : String) (bytes : Bytes) (expected : File) :
    World × Except GuardedCommitFailure Unit :=
  let now := w.tick E
  let done := now.write (entry ⟨bytes, E.stamp w.clock⟩)
  match E.fault w.clock with
  | .io message => (now, .error (.inspect message))
  | .unreadable => (now, .error .changed)
  | .refused message => if now.fs target = some expected then (now, .error (.commit message false)) else (now, .error .changed)
  | .afterRename message =>
    if now.fs target = some expected then (done, .error (.commit message true)) else (now, .error .changed)
  | .none => if now.fs target = some expected then (done, .ok ()) else (now, .error .changed)

def restoreFailure : GuardedCommitFailure → String
  | .changed => "rollback conflict: file changed during restoration; retained"
  | .inspect message | .commit message _ => message

/-- `restore_transaction_bytes`: read the target, stage the original bytes, commit over what was read. -/
def restoreTransactionBytes (w : World) (plan : PlannedFile) : World × Except String Unit :=
  let read := w.tick E
  match E.fault w.clock with
  | .refused message | .io message | .afterRename message => (read, .error message)
  | .unreadable => (read, .error "target changed while its snapshot was being read")
  | .none =>
    match read.fs plan.target with
    | none => (read, .error "target does not exist")
    | some current =>
      if current.bytes ≠ plan.updated then
        (read, .error "rollback conflict: current bytes are not this transaction's replacement; retained")
      else
        let staged := read.tick E
        match E.fault read.clock with
        | .io message => (staged, .error message)
        | _ =>
          let committed := commitIfUnchanged E staged (.restore plan.target current) plan.target plan.original.bytes current
          (committed.1, committed.2.mapError restoreFailure)

/-- Restore the committed members, the last one first; the first error is kept. -/
def rollback : World → List PlannedFile → World × Option String
  | w, [] => (w, none)
  | w, plan :: rest =>
    let restored := restoreTransactionBytes E w plan
    let others := rollback restored.1 rest
    (others.1, match restored.2 with
      | .ok () => others.2
      | .error error => some (plan.path ++ ": " ++ error))

def failureKind : GuardedCommitFailure → String × String × Bool
  | .changed => ("file_changed_rolled_back",
      "target changed since the retained planning snapshot; current bytes retained", false)
  | .inspect message => ("commit_inspection_failed_rolled_back", message, false)
  | .commit message targetReplaced => ("commit_failed_rolled_back", message, targetReplaced)

def bareKind (kind : String) : String :=
  if kind = "file_changed_rolled_back" then "file_changed"
  else if kind = "commit_inspection_failed_rolled_back" then "commit_inspection_failed"
  else "commit_failed"

/-- What a failed commit reports once the rollback is over. -/
def commitFailure (plan : PlannedFile) (failure : GuardedCommitFailure) (bare : Bool) : Option String → PatchFailure
  | none =>
    if bare then
      .file (bareKind (failureKind failure).1) "commit" plan.fileIndex plan.path
        ("commit stopped before any destination replacement: " ++ (failureKind failure).2.1)
    else
      .file (failureKind failure).1 "commit" plan.fileIndex plan.path
        ("commit stopped and prior files were restored: " ++ (failureKind failure).2.1)
  | some error =>
    .file "rollback_failed" "rollback" plan.fileIndex plan.path
      ("commit failed (" ++ (failureKind failure).2.1 ++ "); rollback also failed: " ++ error)

/-- The commit loop; `committed` are the members replaced so far, the last one first. -/
def commitMembers : World → List PlannedFile → List PlannedFile → World × Except PatchFailure Unit
  | w, [], _ => (w, .ok ())
  | w, plan :: rest, committed =>
    match commitIfUnchanged E w (.commit plan.target plan.original) plan.target plan.updated plan.original with
    | (w, .ok ()) => commitMembers w rest (plan :: committed)
    | (w, .error failure) =>
      let committed := if (failureKind failure).2.2 then plan :: committed else committed
      let rolled := rollback E w committed
      (rolled.1, .error (commitFailure plan failure committed.isEmpty rolled.2))

def commitPatch (w : World) (plans : List PlannedFile) : World × Except PatchFailure Unit :=
  match stageAll E w plans with
  | (w, .error e) => (w, .error e)
  | (w, .ok ()) =>
    match precommit E w plans with
    | (w, .error e) => (w, .error e)
    | (w, .ok ()) => commitMembers E w plans []

/-- `execute_patch_captured_scoped`: the files and hunks of an applied patch. -/
def executePatch (P : Planner) (w : World) (parsed : Except PatchFailure (List FilePatch)) :
    World × Except PatchFailure (Nat × Nat) :=
  match parsed with
  | .error e => (w, .error e)
  | .ok requests =>
    match planPatch E P w requests with
    | (w, .error e) => (w, .error e)
    | (w, .ok plans) =>
      match commitPatch E w plans with
      | (w, .error e) => (w, .error e)
      | (w, .ok ()) => (w, .ok (plans.length, (requests.map (fun r => r.hunks.length)).sum))

end Iteron.Patch
