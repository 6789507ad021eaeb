import Mathlib.Data.List.Basic
/-!
# TurnReduce — the pure turn reducer

`reduce` folds one command into the turn state and answers with the actions the driver owes the world.  It is total: a
finished state absorbs every command, and a command that cannot happen in the current phase finishes the run with a
protocol violation.
-/
namespace Iteron.Kernel

inductive TurnPhase where
  | admitting
  | awaitingContext
  | boundary
  | awaitingProvider
  | awaitingTools
  | awaitingVerify
  | settling
  | finished
  deriving DecidableEq

inductive ProviderTermination where
  | endTurn
  | toolUse
  | maxTokens
  | pauseTurn
  | stopSequence
  | refusal
  | unknown
  deriving DecidableEq

inductive ProviderFailure where
  | deadlineExceeded
  | interrupted
  | rejected
  | unobservable
  deriving DecidableEq

inductive VerifyOutcome where
  | pass
  | testFailure
  | timedOut
  | infrastructureFailure
  | cancelled
  deriving DecidableEq

/-- A stop request, in the order it outranks: `none < interrupt < drain`. -/
inductive ControlSignal where
  | none
  | interrupt
  | drain
  deriving DecidableEq

/-- The derived `Ord` of the signals. -/
def ControlSignal.rank : ControlSignal → Nat
  | .none => 0
  | .interrupt => 1
  | .drain => 2

/-- A stop, once observed, cannot be un-seen: the maximum of the two signals. -/
def ControlSignal.latch (s observed : ControlSignal) : ControlSignal :=
  if observed.rank < s.rank then s else observed

inductive BudgetCeiling where
  | maxTurns
  | maxWallSecs
  | maxUsd
  | unpricedCeiling
  deriving DecidableEq

def BudgetCeiling.reason : BudgetCeiling → String
  | .maxTurns => "max_turns"
  | .maxWallSecs => "max_wall_secs"
  | .maxUsd => "max_usd"
  | .unpricedCeiling => "unpriced_usd_ceiling"

inductive HarnessFault where
  | recordUnhealthy
  | unresolvedEffects
  | undecodableTurn
  | verifierUnusable
  | protocolViolation
  deriving DecidableEq

inductive Outcome where
  | done
  | drained
  | budgetExhausted (reason : String)
  | interrupted
  | stuck
  | harnessError
  deriving DecidableEq

inductive NoticeKind where
  | verifyPassed
  | verifyTestFailure
  | verifyCeilingReached
  | verifyTimedOut
  | verifyInfrastructureFailure
  | verifyCancelled
  | maxTokensContinuation
  | providerPausedContinuation
  | recordUnhealthy
  | unresolvedEffects

inductive ContinueReason where
  | maxTokens
  | providerPaused
  | verifyFeedback
  | steered

/-- The context answer a command carries; the reducer never reads it. -/
structure ContextGrant where
  requestId : UInt64
  segments : List String
  bytes : UInt32
  deriving DecidableEq

inductive Command where
  | admitted
  | contextResolved (grant : ContextGrant)
  | budgetSampled (ceiling : Option BudgetCeiling)
  | controlObserved (signal : ControlSignal)
  | recordFailed
  | unresolvedEffectsObserved (count : Nat)
  | providerCompleted (termination : ProviderTermination) (toolCalls : UInt32)
  | providerFailed (failure : ProviderFailure)
  | toolsCompleted (anyError : Bool)
  | verifyCompleted (outcome : VerifyOutcome)
  | steered (count : UInt32)
  deriving DecidableEq

inductive ActionRequest where
  | selectContext
  | sampleBudget
  | observeControl
  | admitSteers (turn : UInt32)
  | callProvider (turn : UInt32)
  | dispatchTools (turn calls : UInt32)
  | runVerify (turn attempt : UInt32)
  | checkpoint (turn : UInt32)
  | notice (text : NoticeKind)
  | continue (turn : UInt32) (reason : ContinueReason)
  | advanceTurn (turn : UInt32)
  | finish (outcome : Outcome)

structure TurnLimits where
  maxTurns : UInt32 := 8
  maxConsecutiveToolErrors : UInt32 := 5
  maxVerifyAttempts : UInt32 := 3

structure TurnState where
  limits : TurnLimits
  phase : TurnPhase
  turn : UInt32
  completedTurns : UInt32
  consecutiveToolErrors : UInt32
  verifyAttempts : UInt32
  verifyGate : Bool
  control : ControlSignal
  recordHealthy : Bool
  unresolvedEffects : Nat
  outcome : Option Outcome
  fault : Option HarnessFault

/-- `u32::MAX`, which as a turn limit disables the turn ceiling. -/
def unlimitedTurns : UInt32 := 4294967295

/-- `u32::saturating_add(1)`. -/
def saturatingSucc (n : UInt32) : UInt32 := if n = 4294967295 then n else n + 1

namespace TurnState

def new (limits : TurnLimits) (verifyGate : Bool) : TurnState :=
  { limits, phase := .admitting, turn := 0, completedTurns := 0, consecutiveToolErrors := 0, verifyAttempts := 0,
    verifyGate, control := .none, recordHealthy := true, unresolvedEffects := 0, outcome := none, fault := none }

def resumedAt (limits : TurnLimits) (verifyGate : Bool) (turn : UInt32) : TurnState :=
  { new limits verifyGate with turn := turn }

def isFinished (s : TurnState) : Bool := s.phase == .finished

def turnCeilingReached (s : TurnState) : Bool :=
  s.limits.maxTurns != unlimitedTurns && decide (s.limits.maxTurns ≤ s.completedTurns)

def stuck (s : TurnState) : Bool := decide (s.limits.maxConsecutiveToolErrors ≤ s.consecutiveToolErrors)

def verifyCeilingReached (s : TurnState) : Bool := decide (s.limits.maxVerifyAttempts ≤ s.verifyAttempts)

def finished (s : TurnState) (outcome : Outcome) (fault : Option HarnessFault) : TurnState :=
  { s with phase := .finished, outcome := some outcome, fault := fault }

end TurnState

abbrev Actions := List ActionRequest

/-- The two readings every boundary decision needs, in the order the driver must collect them. -/
def boundaryProbe : Actions := [.observeControl, .sampleBudget]

/-- Close the current turn, open the next, and probe again. -/
def advanceAndProbe (turn : UInt32) : Actions := .advanceTurn turn :: boundaryProbe

def nextTurn (s : TurnState) : TurnState := { s with turn := saturatingSucc s.turn, phase := .boundary }

def finishWith (s : TurnState) (outcome : Outcome) (fault : Option HarnessFault) (notice : Option NoticeKind) :
    TurnState × Actions :=
  (s.finished outcome fault, notice.toList.map .notice ++ [.finish outcome])

def undecodable (s : TurnState) : TurnState × Actions :=
  finishWith s .harnessError (some .undecodableTurn) none

def protocolViolation (s : TurnState) : TurnState × Actions :=
  finishWith s .harnessError (some .protocolViolation) none

def continueTurnWithoutNotice (s : TurnState) (reason : ContinueReason) : TurnState × Actions :=
  (nextTurn s, .continue s.turn reason :: advanceAndProbe s.turn)

def continueTurn (s : TurnState) (notice : NoticeKind) (reason : ContinueReason) : TurnState × Actions :=
  let (s', actions) := continueTurnWithoutNotice s reason
  (s', .notice notice :: actions)

/-- Drain is the only path that owes a durable workspace checkpoint before the terminal. -/
def finishDrained (s : TurnState) : TurnState × Actions :=
  (s.finished .drained none, [.checkpoint s.turn, .finish .drained])

/-- Every way a run may stop, evaluated in one place and in a fixed order. -/
def boundaryDecision (s : TurnState) (ceiling : Option BudgetCeiling) : TurnState × Actions :=
  if !s.recordHealthy then finishWith s .harnessError (some .recordUnhealthy) (some .recordUnhealthy)
  else if s.unresolvedEffects > 0 then finishWith s .harnessError (some .unresolvedEffects) (some .unresolvedEffects)
  else match s.control with
    | .drain => finishDrained { s with control := .drain }
    | .interrupt => finishWith s .interrupted none none
    | .none =>
      match ceiling with
      | some c => finishWith s (.budgetExhausted c.reason) none none
      | none =>
        if s.turnCeilingReached then finishWith s (.budgetExhausted BudgetCeiling.maxTurns.reason) none none
        else if s.stuck then finishWith s .stuck none none
        else ({ s with phase := .awaitingProvider }, [.callProvider s.turn])

def providerCompleted (state : TurnState) (termination : ProviderTermination) (toolCalls : UInt32) :
    TurnState × Actions :=
  let s := { state with completedTurns := saturatingSucc state.completedTurns }
  if toolCalls > 0 then
    if termination ≠ .toolUse then undecodable s
    else ({ s with phase := .awaitingTools }, [.dispatchTools s.turn toolCalls])
  else match termination with
    | .endTurn =>
      if s.verifyGate then ({ s with phase := .awaitingVerify }, [.runVerify s.turn s.verifyAttempts])
      else ({ s with phase := .settling }, [.admitSteers s.turn])
    | .maxTokens => continueTurn s .maxTokensContinuation .maxTokens
    | .pauseTurn => continueTurn s .providerPausedContinuation .providerPaused
    | .toolUse | .stopSequence | .refusal | .unknown => undecodable s

def providerFailed (s : TurnState) : ProviderFailure → TurnState × Actions
  | .deadlineExceeded => finishWith s (.budgetExhausted BudgetCeiling.maxWallSecs.reason) none none
  | .interrupted => finishWith s .interrupted none none
  | .rejected | .unobservable => undecodable s

def verifyCompleted (s : TurnState) : VerifyOutcome → TurnState × Actions
  | .pass => ({ s with phase := .settling }, [.notice .verifyPassed, .admitSteers s.turn])
  | .testFailure =>
    -- only a graded failure consumes an attempt
    let s' := { s with verifyAttempts := saturatingSucc s.verifyAttempts }
    if s'.verifyCeilingReached then
      finishWith s' (.budgetExhausted "verify_attempts") none (some .verifyCeilingReached)
    else continueTurn s' .verifyTestFailure .verifyFeedback
  | .timedOut => finishWith s (.budgetExhausted BudgetCeiling.maxWallSecs.reason) none (some .verifyTimedOut)
  | .infrastructureFailure =>
    finishWith s .harnessError (some .verifierUnusable) (some .verifyInfrastructureFailure)
  | .cancelled => finishWith s .interrupted none (some .verifyCancelled)

/-- The model says it is done: commit that only if the operator has not just said something. -/
def settle (s : TurnState) (steered : UInt32) : TurnState × Actions :=
  match s.control with
  | .drain => finishDrained s
  | .interrupt => finishWith s .interrupted none none
  | .none =>
    if steered > 0 then continueTurnWithoutNotice s .steered
    else finishWith s .done none none

def reduce (s : TurnState) (command : Command) : TurnState × Actions :=
  if s.isFinished then (s, [])
  else match command, s.phase with
    | .recordFailed, _ =>
      finishWith { s with recordHealthy := false } .harnessError (some .recordUnhealthy) (some .recordUnhealthy)
    | .unresolvedEffectsObserved count, _ =>
      if count = 0 then ({ s with unresolvedEffects := count }, [])
      else finishWith { s with unresolvedEffects := count } .harnessError (some .unresolvedEffects)
        (some .unresolvedEffects)
    -- latching only: a stop is acted on at a safe point
    | .controlObserved signal, _ => ({ s with control := s.control.latch signal }, [])
    | .admitted, .admitting => ({ s with phase := .awaitingContext }, [.selectContext])
    | .contextResolved _, .awaitingContext => ({ s with phase := .boundary }, boundaryProbe)
    | .budgetSampled ceiling, .boundary => boundaryDecision s ceiling
    | .providerCompleted termination toolCalls, .awaitingProvider => providerCompleted s termination toolCalls
    | .providerFailed failure, .awaitingProvider => providerFailed s failure
    | .toolsCompleted anyError, .awaitingTools =>
      (nextTurn { s with consecutiveToolErrors := if anyError then saturatingSucc s.consecutiveToolErrors else 0 },
        advanceAndProbe s.turn)
    | .verifyCompleted outcome, .awaitingVerify => verifyCompleted s outcome
    | .steered count, .settling => settle s count
    | _, _ => protocolViolation s

end Iteron.Kernel
