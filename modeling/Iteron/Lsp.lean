import Mathlib.Logic.Basic
/-!
# Lsp — what the parts of a language-server session share

A server epoch is one supervised process lifetime.  Every operation reads an injected clock in milliseconds, and a clock
that goes back is refused.
-/
namespace Iteron.Lsp

structure ServerEpoch where
  generation : Nat
deriving DecidableEq

inductive LspError where
  | header (reason : String)
  | headerTooLarge (limit : Nat)
  | missingContentLength
  | contentTooLarge (value limit : Nat)
  | truncatedMessage
  | invalidUtf8
  | jsonEnvelopeExceeded (dimension : String) (value limit : Nat)
  | json (message : String)
  | invalidTimeout (kind : String) (valueMs minMs maxMs : Nat)
  | backpressure (limit : Nat)
  | invalidPendingCapacity (value max : Nat)
  | requestIdExhausted (generation : Nat)
  | sequenceExhausted (kind : String)
  | timeOverflow (operation : String) (baseMs deltaMs : Nat)
  | clockRegressed (previousMs currentMs : Nat)
  | documentLimit (limit : Nat)
  | documentUriTooLong (value limit : Nat)
  | invalidDocumentUri
  | diagnosticsTooMany (value limit : Nat)
  | diagnosticsTooLarge (value limit : Nat)
  | diagnosticsTooComplex (limit : Nat)
  | diagnosticsTooDeep (value limit : Nat)
  | diagnosticStoreFull (value limit : Nat)
  | diagnosticNodeStoreFull (value limit : Nat)
  | malformedDiagnostic (index : Nat) (reason : String)
  | notReady (state : String)
  | serverEpochMismatch (expected received : Nat)
  | restartBackoffActive (remainingMs : Nat)
  | restartBudgetExhausted (attempts : Nat)
  | invalidRestartAttempts (value max : Nat)
  | invalidRestartBackoff (field : String) (valueMs minMs maxMs : Nat)
  | invalidRestartBackoffOrder (baseMs maxMs : Nat)
  | unknownDocument (uri : String)
  | documentDesynchronized (uri : String)
  | diagnosticsNotActionable (uri : String)
deriving DecidableEq

/-- The text against which a positional request was issued. -/
structure DocumentSnapshot where
  uri : String
  serverEpoch : ServerEpoch
  incarnation : Nat
  sourceRevision : Int
  wireVersion : Int

/-- `observe_clock`: the reading that is kept. -/
def observeClock (last : Option Nat) (nowMs : Nat) : Except LspError (Option Nat) :=
  match last with
  | some previousMs => if nowMs < previousMs then .error (.clockRegressed previousMs nowMs) else .ok (some nowMs)
  | none => .ok (some nowMs)

end Iteron.Lsp
