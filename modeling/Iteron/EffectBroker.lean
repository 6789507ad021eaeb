import Iteron.EffectAdmission
/-!
# EffectBroker — the universal effect boundary

Opening an effect is admission, validation of the proposal and the write-ahead append, in that order; settling it is
validation of the terminal against the ticket and the terminal append.  The durable log is the list of the events it
holds; whether one append succeeds is an input, and a failed one leaves the log as it was.
-/
namespace Iteron.Kernel

/-- What the boundary reads from outside the kernel: its tunable ceilings and the size of a serialized projection. -/
structure Boundary where
  maxEffectsPerTurn : Nat := 512
  maxEffectWorkspaceBytes : Nat := 4096
  maxEffectArgumentsBytes : Nat := 1048576
  /-- The length `serde_json::to_vec` gives a value. -/
  jsonBytes : Json → Nat

def ProviderRouteAttemptIdentity.validate (p : ProviderRouteAttemptIdentity) : Except String Unit :=
  if p.routeId.utf8ByteSize ≠ 71 ∨ ¬ "sha256:".toList.isPrefixOf p.routeId.toList ∨
      ¬ (p.routeId.toList.drop 7).all (fun c => c.isDigit || (decide ('a' ≤ c) && decide (c ≤ 'f'))) then
    .error "provider route attempt route_id must be a canonical SHA-256 identity"
  else if p.physicalAttempt = 0 then
    .error "provider route attempt physical_attempt must be one-based"
  else .ok ()

/-- The value form of an intent: the authority is a set, here the list of its classes. -/
structure EffectProposal where
  id : EffectId
  toolUseId : String
  tool : String
  admitted : List Capability
  arguments : Json
  workspace : String
  attempt : Option ProviderRouteAttemptIdentity

/-- Is this proposal safe to mint as a new durable record? -/
def EffectProposal.validate (B : Boundary) (p : EffectProposal) : Except String Unit :=
  if p.id.isEmpty then .error "an effect proposal must carry a harness-minted identity"
  else if p.toolUseId.isEmpty then
    .error "empty tool_use_id is reserved for reading the first experimental WAL format; a new effect must carry a correlation id, harness-scoped if there is no model call"
  else if p.workspace.isEmpty ∨ p.workspace.utf8ByteSize > B.maxEffectWorkspaceBytes then
    .error "effect workspace must be 1..=4096 bytes"
  else if B.jsonBytes p.arguments > B.maxEffectArgumentsBytes then
    .error "effect arguments projection exceeds its declared bound"
  else if p.admitted.isEmpty then
    .error "an effect proposal must carry at least one admitted capability"
  else if p.admitted.length > 1 then
    .error "the durable EffectIntent carries a single `capability`, so a proposal admitting more than one class cannot be recorded; widening needs a new top-level event tag first (abi.md 4.3(b)2, issue #16)"
  else if p.tool = "provider" then
    match p.attempt with
    | some identity => identity.validate
    | none =>
      .error "a provider effect must durably identify its exact physical route attempt before dispatch"
  else
    match p.attempt with
    | some _ => .error "only a provider effect may carry a provider route attempt identity"
    | none => .ok ()

/-- The descriptor every effect kind fills before it may cross the boundary. -/
structure BrokeredEffect where
  turn : Nat
  effectId : EffectId
  toolUseId : String
  kind : String
  capability : Capability
  auditArguments : Json
  workspace : String
  attempt : Option ProviderRouteAttemptIdentity

def BrokeredEffect.proposal (b : BrokeredEffect) : EffectProposal :=
  { id := b.effectId, toolUseId := b.toolUseId, tool := b.kind, admitted := [b.capability],
    arguments := b.auditArguments, workspace := b.workspace, attempt := b.attempt }

def BrokeredEffect.key (b : BrokeredEffect) : EffectKey := (b.turn, b.effectId)

def BrokeredEffect.intent (b : BrokeredEffect) : Event :=
  { turn := b.turn
    kind := .effectIntent b.effectId b.toolUseId b.kind b.capability b.auditArguments b.workspace b.attempt }

inductive BrokerError where
  | record
  | admission (e : EffectAdmissionError)
  | proposal (reason : String)

/-- An admitted effect whose intent is durable and whose terminal is still owed. -/
structure EffectTicket where
  turn : Nat
  intentSequence : Nat
  effectId : EffectId
  kind : String
  attempt : Option ProviderRouteAttemptIdentity
  pricingAtUnixSecs : Option Nat

def EffectTicket.key (t : EffectTicket) : EffectKey := (t.turn, t.effectId)

inductive Settlement where
  | definite (terminal : EventKind)
  | unknown (reason : String)

/-- One append to the durable log: the sequence of the event it wrote. -/
def appendEffect (log : List Event) (e : Event) (ok : Bool) : List Event × Except BrokerError Nat :=
  if ok then (log ++ [e], .ok log.length) else (log, .error .record)

/-- Phase one: admit the identity, validate the proposal, append the intent. -/
def openEffect (B : Boundary) (log : List Event) (A : EffectAdmissions) (effect : BrokeredEffect) (ok : Bool) :
    List Event × EffectAdmissions × Except BrokerError EffectTicket :=
  match A.admitId B.maxEffectsPerTurn effect.turn effect.effectId with
  | (A', .error e) => (log, A', .error (.admission e))
  | (A', .ok ()) =>
    match effect.proposal.validate B with
    | .error reason => (log, A', .error (.proposal reason))
    | .ok () =>
      match appendEffect log effect.intent ok with
      | (log', .error e) => (log', A', .error e)
      | (log', .ok sequence) =>
        (log', A', .ok
          { turn := effect.turn, intentSequence := sequence, effectId := effect.effectId, kind := effect.kind,
            attempt := effect.attempt,
            pricingAtUnixSecs :=
              if effect.kind = "provider" ∧ effect.attempt.isSome then
                (effect.auditArguments.get "provider_pricing_at_unix_secs").bind Json.asU64
              else none })

/-- The terminal of a settlement: the boundary stamps its own measurement where the executor gave none. -/
def terminalOf (ticket : EffectTicket) (elapsedMs : Nat) : Settlement → EventKind
  | .definite (.effectDone id tool durationMs attempt) =>
    .effectDone id tool (durationMs.or (some elapsedMs)) attempt
  | .definite (.effectFailed id tool reason durationMs attempt) =>
    .effectFailed id tool reason (durationMs.or (some elapsedMs)) attempt
  | .definite terminal => terminal
  | .unknown reason => .effectUnknown ticket.effectId ticket.kind reason (ticket.attempt.map (fun i => ⟨i⟩))

/-- The provider accounting of a terminal that names this ticket. -/
def terminalAccounting (terminal : EventKind) (ticket : EffectTicket) :
    Except String (Option ProviderRouteAttemptAccounting) :=
  match terminal with
  | .effectDone id tool _ attempt | .effectFailed id tool _ _ attempt | .effectUnknown id tool _ attempt =>
    if id ≠ ticket.effectId ∨ tool ≠ ticket.kind then
      .error "effect terminal identity does not match its durable intent ticket"
    else .ok attempt
  | .toolDone _ effectId tool =>
    if effectId ≠ some ticket.effectId ∨ tool ≠ some ticket.kind then
      .error "tool terminal identity does not match its durable intent ticket"
    else .ok none
  | _ => .error "an effect ticket can only settle with an effect terminal"

/-- Validate the terminal against the exact ticket that authorised dispatch. -/
def validateTerminalForTicket (terminal : EventKind) (ticket : EffectTicket) : Except String Unit :=
  match terminalAccounting terminal ticket with
  | .error reason => .error reason
  | .ok accounting =>
    match ticket.attempt, accounting with
    | some expected, some accounting =>
      if accounting.identity = expected then .ok ()
      else .error "provider terminal route identity does not match its pre-dispatch intent"
    | some _, none => .error "provider terminal omits its pre-dispatch route identity"
    | none, some _ => .error "non-provider terminal carries provider route accounting"
    | none, none => .ok ()

/-- Phase two: append exactly one terminal for an opened effect. -/
def settleEffect (log : List Event) (ticket : EffectTicket) (settlement : Settlement) (elapsedMs : Nat) (ok : Bool) :
    List Event × Except BrokerError Nat :=
  match validateTerminalForTicket (terminalOf ticket elapsedMs settlement) ticket with
  | .error reason => (log, .error (.proposal reason))
  | .ok () => appendEffect log { turn := ticket.turn, kind := terminalOf ticket elapsedMs settlement } ok

end Iteron.Kernel
