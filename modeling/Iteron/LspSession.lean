import Iteron.LspPending
/-!
# LspSession — the life of a supervised language server

Readiness, shutdown, exit, crash and the wait before a restart are states of their own.  A restart takes one of the
policy's attempts and its wait is enforced when the new process is initialised; served requests give the attempts back.
-/
namespace Iteron.Lsp

open Machine (u64Max checkedAdd)

def maxRestartAttempts : Nat := 8

def minRestartBackoffMs : Nat := 1

def maxRestartBackoffMs : Nat := 60000

def healthyRestartResetAfterMs : Nat := 60000

def healthyRestartResetAfterSuccesses : Nat := 3

inductive State where
  | uninitialized
  | initializing
  | ready
  | shuttingDown
  | exiting
  | awaitingExitStatus
  | awaitingStreamClose
  | restartBackoff
  | exited
  | crashed
deriving DecidableEq

def State.label : State → String
  | .uninitialized => "uninitialized"
  | .initializing => "initializing"
  | .ready => "ready"
  | .shuttingDown => "shutting down"
  | .exiting => "exit sent"
  | .awaitingExitStatus => "awaiting exit status"
  | .awaitingStreamClose => "awaiting stream close"
  | .restartBackoff => "restart backoff"
  | .exited => "exited"
  | .crashed => "crashed"

inductive Event where
  | initializeSent (epoch : ServerEpoch)
  | initialized (epoch : ServerEpoch)
  | shutdownSent
  | exitSent
  | streamClosed
  | processExitedSuccessfully
  | processFailed

def Event.epoch : Event → Option ServerEpoch
  | .initializeSent epoch => some epoch
  | .initialized epoch => some epoch
  | _ => none

/-! ## Policy -/

structure RestartPolicy where
  maxAttempts : Nat
  baseBackoffMs : Nat
  maxBackoffMs : Nat
  attempts_le : maxAttempts ≤ maxRestartAttempts
  base_pos : minRestartBackoffMs ≤ baseBackoffMs
  base_le : baseBackoffMs ≤ maxBackoffMs
  max_le : maxBackoffMs ≤ maxRestartBackoffMs

def RestartPolicy.new (maxAttempts baseBackoffMs maxBackoffMs : Nat) : Except LspError RestartPolicy :=
  if hattempts : maxAttempts > maxRestartAttempts then
    .error (.invalidRestartAttempts maxAttempts maxRestartAttempts)
  else if hbase : ¬ (minRestartBackoffMs ≤ baseBackoffMs ∧ baseBackoffMs ≤ maxRestartBackoffMs) then
    .error (.invalidRestartBackoff "base" baseBackoffMs minRestartBackoffMs maxRestartBackoffMs)
  else if hmax : ¬ (minRestartBackoffMs ≤ maxBackoffMs ∧ maxBackoffMs ≤ maxRestartBackoffMs) then
    .error (.invalidRestartBackoff "maximum" maxBackoffMs minRestartBackoffMs maxRestartBackoffMs)
  else if horder : baseBackoffMs > maxBackoffMs then .error (.invalidRestartBackoffOrder baseBackoffMs maxBackoffMs)
  else
    .ok ⟨maxAttempts, baseBackoffMs, maxBackoffMs, Nat.le_of_not_gt hattempts, (not_not.1 hbase).1,
      Nat.le_of_not_gt horder, (not_not.1 hmax).2⟩

def RestartPolicy.backoffMs (policy : RestartPolicy) (attempt : Nat) : Nat :=
  min (min (policy.baseBackoffMs * 2 ^ min (attempt - 1) 32) u64Max) policy.maxBackoffMs

/-! ## Session -/

structure Session where
  policy : RestartPolicy
  state : State := .uninitialized
  restarts : Nat := 0
  lastNowMs : Option Nat := none
  restartNotBeforeMs : Option Nat := none
  readySinceMs : Option Nat := none
  initializingEpoch : Option ServerEpoch := none
  readyEpoch : Option ServerEpoch := none
  successfulRequests : Finset Nat := ∅
  lastSuccessId : Nat := 0

namespace Session

def setState (s : Session) (next : State) (nowMs : Nat) : Session :=
  if next = s.state then s
  else
    let s := { s with state := next }
    let s :=
      if next = .ready then
        { s with
          readySinceMs := some nowMs
          readyEpoch := s.initializingEpoch
          initializingEpoch := none
          successfulRequests := ∅
          lastSuccessId := 0 }
      else
        { s with
          readySinceMs := none
          readyEpoch := none
          successfulRequests := ∅
          initializingEpoch := if next = .initializing then s.initializingEpoch else none }
    if next = .crashed ∨ next = .exited then { s with restartNotBeforeMs := none } else s

/-- The state an event leads to; an event out of place changes nothing. -/
def nextState : State → Event → State
  | .uninitialized, .initializeSent _ => .initializing
  | .initializing, .initialized _ => .ready
  | .ready, .shutdownSent => .shuttingDown
  | .shuttingDown, .exitSent => .exiting
  | .exiting, .streamClosed => .awaitingExitStatus
  | .exiting, .processExitedSuccessfully => .awaitingStreamClose
  | .awaitingExitStatus, .processExitedSuccessfully => .exited
  | .awaitingStreamClose, .streamClosed => .exited
  | .uninitialized, .streamClosed => .crashed
  | .initializing, .streamClosed => .crashed
  | .ready, .streamClosed => .crashed
  | .shuttingDown, .streamClosed => .crashed
  | .uninitialized, .processExitedSuccessfully => .crashed
  | .initializing, .processExitedSuccessfully => .crashed
  | .ready, .processExitedSuccessfully => .crashed
  | .shuttingDown, .processExitedSuccessfully => .crashed
  | .uninitialized, .processFailed => .crashed
  | .initializing, .processFailed => .crashed
  | .ready, .processFailed => .crashed
  | .shuttingDown, .processFailed => .crashed
  | .exiting, .processFailed => .crashed
  | .awaitingExitStatus, .processFailed => .crashed
  | .awaitingStreamClose, .processFailed => .crashed
  | current, _ => current

/-- The two epochs when the process being initialised is not the one the event is about. -/
def foreignEpoch (s : Session) (event : Event) : Option (ServerEpoch × ServerEpoch) :=
  if s.state = .initializing then
    match s.initializingEpoch, event.epoch with
    | some expected, some received => if expected ≠ received then some (expected, received) else none
    | _, _ => none
  else none

/-- `apply` in the wait before a restart, whose deadline is always there. -/
def applyRestart (s : Session) (epoch : ServerEpoch) (nowMs : Nat) : Session × Except LspError State :=
  let notBefore := s.restartNotBeforeMs.getD 0
  if nowMs < notBefore then (s, .error (.restartBackoffActive (notBefore - nowMs)))
  else
    ({ s with state := .initializing, initializingEpoch := some epoch, restartNotBeforeMs := none }, .ok .initializing)

def applyEvent (s : Session) (event : Event) (nowMs : Nat) : Session × Except LspError State :=
  let next := nextState s.state event
  let s :=
    match s.state, event with
    | .uninitialized, .initializeSent epoch => { s with initializingEpoch := some epoch }
    | _, _ => s
  ((s.setState next nowMs), .ok (s.setState next nowMs).state)

def apply (s : Session) (event : Event) (nowMs : Nat) : Session × Except LspError State :=
  match s.foreignEpoch event with
  | some (expected, received) => (s, .error (.serverEpochMismatch expected.generation received.generation))
  | none =>
    match observeClock s.lastNowMs nowMs with
    | .error e => (s, .error e)
    | .ok last =>
      let s := { s with lastNowMs := last }
      match s.state, event with
      | .restartBackoff, .initializeSent epoch => s.applyRestart epoch nowMs
      | _, _ => s.applyEvent event nowMs

def planRestart (s : Session) (nowMs : Nat) : Session × Except LspError Nat :=
  match observeClock s.lastNowMs nowMs with
  | .error e => (s, .error e)
  | .ok last =>
    let s := { s with lastNowMs := last }
    if s.state ≠ .crashed then (s, .error (.notReady s.state.label))
    else if s.restarts ≥ s.policy.maxAttempts then (s, .error (.restartBudgetExhausted s.restarts))
    else
      let nextRestart := s.restarts + 1
      let delay := s.policy.backoffMs nextRestart
      match checkedAdd nowMs delay with
      | none => (s, .error (.timeOverflow "restart backoff" nowMs delay))
      | some notBefore =>
        ({ s with restarts := nextRestart, state := .restartBackoff, restartNotBeforeMs := some notBefore }, .ok delay)

def remember (s : Session) (id : Nat) : Session :=
  if s.successfulRequests.card < healthyRestartResetAfterSuccesses then
    { s with lastSuccessId := id, successfulRequests := insert id s.successfulRequests }
  else { s with lastSuccessId := id }

/-- A served request is counted, and the attempts come back when the session is stable. -/
def countSuccess (s : Session) (id nowMs : Nat) : Session × Except LspError Bool :=
  if id ≤ s.lastSuccessId then (s, .ok false)
  else
    let s := s.remember id
    let stable := nowMs - s.readySinceMs.getD 0 ≥ healthyRestartResetAfterMs ∧
      s.successfulRequests.card ≥ healthyRestartResetAfterSuccesses
    if stable ∧ s.restarts > 0 then ({ s with restarts := 0 }, .ok true) else (s, .ok false)

def noteRequestSucceeded (s : Session) (request : CompletedRequest) (nowMs : Nat) : Session × Except LspError Bool :=
  if s.state ≠ .ready then (s, .error (.notReady s.state.label))
  else
    let expected := (s.readyEpoch.getD ⟨0⟩)
    if request.correlation.serverEpoch ≠ expected then
      (s, .error (.serverEpochMismatch expected.generation request.correlation.serverEpoch.generation))
    else
      match observeClock s.lastNowMs nowMs with
      | .error e => (s, .error e)
      | .ok last => { s with lastNowMs := last }.countSuccess request.correlation.id nowMs

end Session

inductive SessionCall where
  | apply (event : Event) (nowMs : Nat)
  | planRestart (nowMs : Nat)
  | noteRequestSucceeded (request : CompletedRequest) (nowMs : Nat)

def Session.serve (s : Session) : SessionCall → Session
  | .apply event nowMs => (s.apply event nowMs).1
  | .planRestart nowMs => (s.planRestart nowMs).1
  | .noteRequestSucceeded request nowMs => (s.noteRequestSucceeded request nowMs).1

end Iteron.Lsp
