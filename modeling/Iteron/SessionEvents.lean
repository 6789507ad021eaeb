import Iteron.Refuse
import Iteron.Text
import Mathlib.Data.List.MinMax
/-!
# SessionEvents — the events of a run and the policy they carry

The kinds of events a fork reads or writes, the projection of runtime policy from a stream of events, its spending
ceiling, and what redaction keeps of an event.  All other kinds are one, with an opaque payload.  The legacy ceilings are
floating point numbers: a value here is its bit pattern, and what the code computes with it is a parameter.
-/
namespace Iteron.Session

inductive Effort where
  | low
  | medium
  | high
  | xHigh
  | max
  | ultracode
  deriving DecidableEq

inductive PermissionMode where
  | default
  | acceptEdits
  | plan
  | yolo
  deriving DecidableEq

inductive Verdict where
  | auto
  | ask
  | deny
  deriving DecidableEq

inductive Capability where
  | readOnly
  | reversibleLocal
  | codeExecuting
  | trustMutating
  | irreversibleExternal
  deriving DecidableEq

structure PermissionRules where
  byTool : List (String × Verdict) := []
  byCap : List (Capability × Verdict) := []
  deriving DecidableEq

inductive Trust where
  | untrusted
  | workspace
  | trusted
  deriving DecidableEq

inductive RuntimePolicySource where
  | startup
  | operator
  | approvalRemember
  | harness
  | fork
  deriving DecidableEq

/-- The bit pattern of an `f64`. -/
abbrev F64 := UInt64

structure DurableEnvironmentContext where
  text : String
  trust : Trust
  deriving DecidableEq

structure RunStart where
  cwd : String
  model : String
  effort : Effort
  createdAt : Nat
  environment : Option DurableEnvironmentContext
  parentRun : Option String
  forkedAt : Option Nat
  parentHashAtSeq : Option String
  configDigest : String
  agentDefinitionTag : Option String
  maxUsd : Option F64
  deriving DecidableEq

structure Snapshot where
  body : String
  digestSha256 : String
  deriving DecidableEq

/-- The tunables a run was started with, in either format. -/
inductive TunablesCheckpoint where
  | v1 (snapshot : Snapshot)
  | v2 (snapshot : Snapshot)
  deriving DecidableEq

def TunablesCheckpoint.digestSha256 : TunablesCheckpoint → String
  | .v1 snapshot => snapshot.digestSha256
  | .v2 snapshot => snapshot.digestSha256

/-- The direct parent whose snapshot a run copied, and the digest of that snapshot. -/
structure Inheritance where
  parentRun : String
  parentDigestSha256 : String
  deriving DecidableEq

structure ModelSelection where
  providerId : String
  modelId : String
  catalogDigest : String
  capabilityDigest : String
  deriving DecidableEq

inductive EventKind where
  | runStart (start : RunStart)
  | tunablesSnapshot (checkpoint : TunablesCheckpoint) (inheritedFrom : Option Inheritance)
  | policyBundleSnapshot (snapshot : Snapshot) (inheritedFrom : Option Inheritance)
  | usdCeilingChanged (source : RuntimePolicySource) (maxMicrousd : Nat)
  | turnCeilingChanged (source : RuntimePolicySource) (maxTurns : Nat)
  | effortChanged (source : RuntimePolicySource) (effort : Effort)
  | policyChanged (source : RuntimePolicySource) (mode : PermissionMode) (rules : PermissionRules)
  | modelSelected (selection : ModelSelection)
  | other (payload : String)
  deriving DecidableEq

structure Event where
  seq : Nat
  turn : Nat
  kind : EventKind
  deriving DecidableEq

/-! ## Policy -/

structure RuntimePolicyState where
  effort : Effort := .medium
  permissionMode : PermissionMode := .default
  permissionRules : PermissionRules := {}
  turnCeiling : Option Nat := none

def RuntimePolicyState.apply (state : RuntimePolicyState) : EventKind → RuntimePolicyState
  | .runStart start => { state with effort := start.effort }
  | .effortChanged _ effort => { state with effort := effort }
  | .turnCeilingChanged _ maxTurns => if maxTurns > 0 then { state with turnCeiling := some maxTurns } else state
  | .policyChanged _ mode rules => { state with permissionMode := mode, permissionRules := rules }
  | _ => state

def RuntimePolicyState.fromEvents (events : List Event) : RuntimePolicyState :=
  events.foldl (fun state event => state.apply event.kind) {}

/-! ## Ceilings -/

def legacyUsd? : EventKind → Option F64
  | .runStart start => start.maxUsd
  | _ => none

def exactMicrousd? : EventKind → Option Nat
  | .usdCeilingChanged _ maxMicrousd => some maxMicrousd
  | _ => none

def legacyUsds (events : List Event) : List F64 := events.filterMap (fun e => legacyUsd? e.kind)

def legacyCeilings (floor : F64 → Nat) (events : List Event) : List Nat := (legacyUsds events).map floor

def exactCeilings (events : List Event) : List Nat := events.filterMap (fun e => exactMicrousd? e.kind)

/-- The least exact ceiling, or the least legacy one, rounded down, where no exact one was ever set. -/
def ceiling (floor : F64 → Nat) (events : List Event) : Option Nat :=
  (exactCeilings events).min?.or (legacyCeilings floor events).min?

/-! ## Redaction -/

/-- The scanner for credential shapes, and redaction of the kinds a fork does not touch. -/
structure Redactor where
  scrub : String → String
  redactOther : String → String

def isHexDigit (c : Char) : Bool := c.isDigit || ('a' ≤ c && c ≤ 'f') || ('A' ≤ c && c ≤ 'F')

def isContentAddress (value : String) : Bool :=
  let hex := if "sha256:".toList.isPrefixOf value.toList then value.toList.drop 7 else value.toList
  decide (hex.length = 64) && hex.all isHexDigit

def Redactor.scrubRouteIdentifier (R : Redactor) (value : String) : String :=
  if isContentAddress value then value else R.scrub value

def Redactor.scrubRouteDigest (R : Redactor) (value : String) : String :=
  if value.isEmpty || isContentAddress value then value else R.scrub value

/-- Structural references and policy stay exact; texts and identifiers are scrubbed. -/
def Redactor.redactKind (R : Redactor) : EventKind → EventKind
  | .runStart start => .runStart
    { start with
      model := R.scrubRouteIdentifier start.model
      environment := start.environment.map (fun e => { e with text := R.scrub e.text })
      parentHashAtSeq := start.parentHashAtSeq.map R.scrubRouteDigest
      configDigest := R.scrubRouteDigest start.configDigest
      agentDefinitionTag := start.agentDefinitionTag.map R.scrubRouteIdentifier }
  | .modelSelected selection => .modelSelected
    { providerId := R.scrubRouteIdentifier selection.providerId
      modelId := R.scrubRouteIdentifier selection.modelId
      catalogDigest := R.scrubRouteDigest selection.catalogDigest
      capabilityDigest := R.scrubRouteDigest selection.capabilityDigest }
  | .other payload => .other (R.redactOther payload)
  | kind => kind

theorem apply_redactKind (R : Redactor) (state : RuntimePolicyState) (kind : EventKind) :
    state.apply (R.redactKind kind) = state.apply kind := by
  cases kind <;> rfl

theorem exactMicrousd_redactKind (R : Redactor) (kind : EventKind) :
    exactMicrousd? (R.redactKind kind) = exactMicrousd? kind := by
  cases kind <;> rfl

theorem legacyUsd_redactKind (R : Redactor) (kind : EventKind) : legacyUsd? (R.redactKind kind) = legacyUsd? kind := by
  cases kind <;> rfl

end Iteron.Session
