import Iteron.Event
import Iteron.Table
/-!
# EffectJournal — the pure replay fold of the durable effect sub-log

`EffectJournal.replay` folds `apply` over the recorded events and stops at the first event no admitted history can
hold.  The journal never executes or reconciles anything: `pending` and `admitted` only read the entries back.
-/
namespace Iteron.Kernel

/-- `(u32, String)` ordered as the derived tuple order compares it. -/
def effectKeyCmp : EffectKey → EffectKey → Ordering :=
  compareLex (compareOn Prod.fst) (compareOn Prod.snd)

instance : Std.TransCmp effectKeyCmp := inferInstanceAs (Std.TransCmp (compareLex _ _))

instance : Std.LawfulEqCmp effectKeyCmp where
  eq_of_compare {a b} h := by
    obtain ⟨h1, h2⟩ := compareLex_eq_eq.1 h
    exact Prod.ext (Std.LawfulEqCmp.eq_of_compare h1) (Std.LawfulEqCmp.eq_of_compare h2)

structure PendingEffect where
  turn : Nat
  id : EffectId
  tool : String
  attempt : Option ProviderRouteAttemptIdentity

inductive EffectJournalError where
  | replayPolicyDisabled
  | duplicateIntent
  | terminalWithoutIntent
  | duplicateTerminal
  | unknownWithoutIntent
  | terminalAfterUnknown
  | unknownAfterTerminal

inductive EntryState where
  | pending
  | completed
  | unknown
  deriving DecidableEq

structure Entry where
  turn : Nat
  id : EffectId
  tool : String
  legacyToolUseId : Option String
  attempt : Option ProviderRouteAttemptIdentity
  state : EntryState

/-- The record's replay checks; `owner` is the only value a reader can hold. -/
structure ReplayDivergenceDetectionPolicy where
  verifyHashChain : Bool
  verifyIdentityScope : Bool
  verifyEffectTerminals : Bool
  failClosed : Bool

def replayDivergenceDetectionPolicy : ReplayDivergenceDetectionPolicy := ⟨true, true, true, true⟩

structure EffectJournal where
  entries : Std.ExtTreeMap EffectKey Entry effectKeyCmp

namespace EffectJournal

def empty : EffectJournal := ⟨∅⟩

/-- The key a tool completion closes: its own effect id, or, in the first experimental format, the first entry of the
turn whose intent recorded the same correlation id. -/
def toolDoneKey (J : EffectJournal) (turn : Nat) (toolUseId : String) : Option EffectId → Option EffectKey
  | some id => some (turn, id)
  | none => J.entries.toList.findSome? (fun p =>
      if p.2.turn = turn ∧ p.2.legacyToolUseId = some toolUseId then some p.1 else none)

/-- Close the entry of `key`: `missing` when no intent opened it, the given errors when it is already closed. -/
def close (J : EffectJournal) (key : EffectKey) (state : EntryState)
    (missing afterCompleted afterUnknown : EffectJournalError) : Except EffectJournalError EffectJournal :=
  match J.entries[key]? with
  | none => .error missing
  | some entry =>
    match entry.state with
    | .pending => .ok ⟨J.entries.insert key { entry with state := state }⟩
    | .completed => .error afterCompleted
    | .unknown => .error afterUnknown

def apply (J : EffectJournal) (e : Event) : Except EffectJournalError EffectJournal :=
  match e.kind with
  | .effectIntent id toolUseId tool _ _ _ attempt =>
    if J.entries.contains (e.turn, id) then .error .duplicateIntent
    else .ok ⟨J.entries.insert (e.turn, id)
      { turn := e.turn, id := id, tool := tool, legacyToolUseId := if toolUseId.isEmpty then some id else none,
        attempt := attempt, state := .pending }⟩
  | .toolDone result effectId _ =>
    match J.toolDoneKey e.turn result.toolUseId effectId with
    -- pure tools and gate-denied calls have no intent
    | none => .ok J
    | some key => J.close key .completed .terminalWithoutIntent .duplicateTerminal .terminalAfterUnknown
  | .effectUnknown id _ _ _ =>
    J.close (e.turn, id) .unknown .unknownWithoutIntent .unknownAfterTerminal .duplicateTerminal
  | .effectDone id .. | .effectFailed id .. =>
    J.close (e.turn, id) .completed .terminalWithoutIntent .duplicateTerminal .terminalAfterUnknown
  | .other _ => .ok J

def replay (events : List Event) : Except EffectJournalError EffectJournal :=
  if !replayDivergenceDetectionPolicy.verifyEffectTerminals || !replayDivergenceDetectionPolicy.failClosed then
    .error .replayPolicyDisabled
  else events.foldlM apply empty

/-- Every identity the journal has seen admitted, in whatever state it ended. -/
def admitted (J : EffectJournal) : List EffectKey := (Table.vals J.entries).map (fun entry => (entry.turn, entry.id))

def pending (J : EffectJournal) : List PendingEffect :=
  ((Table.vals J.entries).filter (fun entry => entry.state == .pending)).map
    (fun entry => { turn := entry.turn, id := entry.id, tool := entry.tool, attempt := entry.attempt })

def unknownCount (J : EffectJournal) : Nat :=
  ((Table.vals J.entries).filter (fun entry => entry.state == .unknown)).length

end EffectJournal
end Iteron.Kernel
