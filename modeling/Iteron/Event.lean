import Mathlib.Data.List.Basic
/-!
# Event — the durable effect vocabulary

What the effect boundary writes and what the replay fold reads: the effect variants of `EventKind`, the pre-dispatch
identity of a physical provider request, and the record's event envelope.  Every other event kind is `other`: the
boundary refuses it as a terminal and the fold skips it.
-/
namespace Iteron.Kernel

/-- A `serde_json::Value`; its numbers keep serde's three internal forms. -/
inductive Json where
  | null
  | bool (b : Bool)
  | posInt (n : Nat)
  | negInt (n : Int)
  | float (bits : UInt64)
  | string (s : String)
  | array (items : List Json)
  | object (fields : List (String × Json))

def Json.get (v : Json) (key : String) : Option Json :=
  match v with
  | .object fields => (fields.find? (fun f => f.1 == key)).map Prod.snd
  | _ => none

def Json.asU64 : Json → Option Nat
  | .posInt n => some n
  | _ => none

inductive Capability where
  | readOnly
  | reversibleLocal
  | codeExecuting
  | trustMutating
  | irreversibleExternal

abbrev EffectId := String

/-- The key that correlates an intent with its terminal: the turn number and the identity minted in it. -/
abbrev EffectKey := Nat × EffectId

/-- Content-free identity of one physical provider request, durable before it may dispatch. -/
structure ProviderRouteAttemptIdentity where
  routeId : String
  physicalAttempt : Nat
  maxCostReservationMicrousd : Option Nat
  deriving DecidableEq

/-- A terminal's account of a provider attempt; the boundary reads its identity only. -/
structure ProviderRouteAttemptAccounting where
  identity : ProviderRouteAttemptIdentity

structure ToolResult where
  toolUseId : String
  content : String
  isError : Bool
  latencyMs : Nat

inductive EventKind where
  | effectIntent (id : EffectId) (toolUseId tool : String) (capability : Capability) (arguments : Json)
      (workspace : String) (attempt : Option ProviderRouteAttemptIdentity)
  | toolDone (result : ToolResult) (effectId : Option EffectId) (tool : Option String)
  | effectUnknown (id : EffectId) (tool reason : String) (attempt : Option ProviderRouteAttemptAccounting)
  | effectDone (id : EffectId) (tool : String) (durationMs : Option Nat)
      (attempt : Option ProviderRouteAttemptAccounting)
  | effectFailed (id : EffectId) (tool reason : String) (durationMs : Option Nat)
      (attempt : Option ProviderRouteAttemptAccounting)
  | other (tag : String)

structure Event where
  turn : Nat
  kind : EventKind

def Event.intentKey (e : Event) : Option EffectKey :=
  match e.kind with
  | .effectIntent id .. => some (e.turn, id)
  | _ => none

/-- The key a terminal names: every effect terminal, and a tool completion that carries its effect id. -/
def Event.terminalKey (e : Event) : Option EffectKey :=
  match e.kind with
  | .toolDone _ effectId _ => effectId.map (fun id => (e.turn, id))
  | .effectUnknown id .. => some (e.turn, id)
  | .effectDone id .. => some (e.turn, id)
  | .effectFailed id .. => some (e.turn, id)
  | _ => none

def intentKeys (log : List Event) : List EffectKey := log.filterMap Event.intentKey

def terminalKeys (log : List Event) : List EffectKey := log.filterMap Event.terminalKey

theorem intentKeys_append (a b : List Event) : intentKeys (a ++ b) = intentKeys a ++ intentKeys b :=
  List.filterMap_append

theorem terminalKeys_append (a b : List Event) : terminalKeys (a ++ b) = terminalKeys a ++ terminalKeys b :=
  List.filterMap_append

end Iteron.Kernel
