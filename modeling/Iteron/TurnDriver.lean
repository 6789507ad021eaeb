import Iteron.TurnTrace
/-!
# TurnDriver — the bounded agent loop

The driver pops a port reply or, when there is none, polls the submission queue, folds the command into the reducer and
routes each returned action to a port.  `step` is one event of that loop (one fold or one routed action), so that the
private reply queue can be observed between any two ports; `runFor` iterates it.
-/
namespace Iteron.Kernel

inductive PortFault where
  | record (reason : String)
  | port (reason : String)
  deriving DecidableEq

inductive DriverError where
  | submissionsClosed
  | eventsClosed
  | replyQueueFull
  | port (reason : String)
  deriving DecidableEq

inductive ProviderReply where
  | completed (termination : ProviderTermination) (toolCalls : UInt32)
  | failed (failure : ProviderFailure)

/-- Any implementation of the injected ports over a private state `σ`. -/
structure TurnPorts (σ : Type) where
  callProvider : UInt32 → σ → ProviderReply × σ
  checkpoint : UInt32 → σ → Except PortFault Unit × σ
  selectContext : σ → Except PortFault ContextGrant × σ
  sampleBudget : σ → Option BudgetCeiling × σ
  observeControl : σ → ControlSignal × σ
  admitSteers : UInt32 → σ → UInt32 × σ
  notice : NoticeKind → σ → σ
  continuation : UInt32 → ContinueReason → σ → σ
  advanceTurn : UInt32 → σ → Except PortFault Unit × σ
  runVerify : UInt32 → UInt32 → σ → VerifyOutcome × σ
  dispatchTools : UInt32 → UInt32 → σ → Bool × σ

/-- The driver's surroundings: its ports, the answer to each poll of the submission queue (`none` once it is closed),
whether each emitted event still finds a receiver, and the bound of the reply queue. -/
structure DriverEnv (σ : Type) where
  ports : TurnPorts σ
  submissions : Nat → Option Command
  accepts : Nat → Bool
  maxPendingReplies : Nat := 256

structure TurnDriver (σ : Type) where
  state : TurnState
  ports : σ
  replies : List Command
  /-- The rest of the action list being routed. -/
  pending : Actions
  /-- Polls of the submission queue so far. -/
  polls : Nat
  /-- Events emitted so far. -/
  emitted : Nat
  /-- Every answer of the checkpoint port so far. -/
  checkpoints : List (Except PortFault Unit)

namespace TurnDriver

variable {σ : Type}

def new (state : TurnState) (ports : σ) : TurnDriver σ :=
  { state, ports, replies := [], pending := [], polls := 0, emitted := 0, checkpoints := [] }

def pushReply (E : DriverEnv σ) (d : TurnDriver σ) (c : Command) : TurnDriver σ × Except DriverError Unit :=
  if E.maxPendingReplies ≤ d.replies.length then (d, .error .replyQueueFull)
  else ({ d with replies := d.replies ++ [c] }, .ok ())

/-- A broken record goes to the reducer as a command, anything else stops the driver. -/
def fault (E : DriverEnv σ) (d : TurnDriver σ) : PortFault → TurnDriver σ × Except DriverError Unit
  | .record _ => d.pushReply E .recordFailed
  | .port reason => (d, .error (.port reason))

def dispatch (E : DriverEnv σ) (d : TurnDriver σ) : ActionRequest → TurnDriver σ × Except DriverError Unit
  | .selectContext =>
    match E.ports.selectContext d.ports with
    | (.ok grant, w) => { d with ports := w }.pushReply E (.contextResolved grant)
    | (.error f, w) => { d with ports := w }.fault E f
  | .sampleBudget =>
    match E.ports.sampleBudget d.ports with
    | (ceiling, w) => { d with ports := w }.pushReply E (.budgetSampled ceiling)
  | .observeControl =>
    match E.ports.observeControl d.ports with
    | (signal, w) => { d with ports := w }.pushReply E (.controlObserved signal)
  | .admitSteers turn =>
    match E.ports.admitSteers turn d.ports with
    | (count, w) => { d with ports := w }.pushReply E (.steered count)
  | .callProvider turn =>
    match E.ports.callProvider turn d.ports with
    | (.completed termination toolCalls, w) =>
      { d with ports := w }.pushReply E (.providerCompleted termination toolCalls)
    | (.failed failure, w) => { d with ports := w }.pushReply E (.providerFailed failure)
  | .dispatchTools turn calls =>
    match E.ports.dispatchTools turn calls d.ports with
    | (anyError, w) => { d with ports := w }.pushReply E (.toolsCompleted anyError)
  | .runVerify turn attempt =>
    match E.ports.runVerify turn attempt d.ports with
    | (outcome, w) => { d with ports := w }.pushReply E (.verifyCompleted outcome)
  | .checkpoint turn =>
    match E.ports.checkpoint turn d.ports with
    | (.ok (), w) => ({ d with ports := w, checkpoints := d.checkpoints ++ [.ok ()] }, .ok ())
    | (.error f, w) => { d with ports := w, checkpoints := d.checkpoints ++ [Except.error f] }.fault E f
  | .notice text => ({ d with ports := E.ports.notice text d.ports }, .ok ())
  | .continue turn reason => ({ d with ports := E.ports.continuation turn reason d.ports }, .ok ())
  | .advanceTurn turn =>
    match E.ports.advanceTurn turn d.ports with
    | (.ok (), w) => ({ d with ports := w }, .ok ())
    | (.error f, w) => { d with ports := w }.fault E f
  | .finish _ => (d, .ok ())

/-- Route one action request: the terminal outcome if it ended the run. -/
def route (E : DriverEnv σ) (d : TurnDriver σ) (a : ActionRequest) : TurnDriver σ × Except DriverError (Option Outcome) :=
  match a with
  | .finish outcome => (d, .ok (some outcome))
  | a =>
    match d.dispatch E a with
    | (d', .ok ()) => (d', .ok none)
    | (d', .error e) => (d', .error e)

def fold (d : TurnDriver σ) (c : Command) : TurnDriver σ :=
  { d with state := (reduce d.state c).1, pending := (reduce d.state c).2 }

/-- One event of the loop; the result of the run if it ends here. -/
def step (E : DriverEnv σ) (d : TurnDriver σ) : TurnDriver σ × Option (Except DriverError Outcome) :=
  match d.pending with
  | [] =>
    match d.replies with
    | c :: rest => ({ d with replies := rest }.fold c, none)
    | [] =>
      match E.submissions d.polls with
      | some c => ({ d with polls := d.polls + 1 }.fold c, none)
      | none => ({ d with polls := d.polls + 1 }, some (.error .submissionsClosed))
  | a :: rest =>
    if E.accepts d.emitted then
      match { d with pending := rest, emitted := d.emitted + 1 }.route E a with
      | (d', .error e) => (d', some (.error e))
      | (d', .ok none) => (d', none)
      | (d', .ok (some outcome)) =>
        if E.accepts d'.emitted then ({ d' with emitted := d'.emitted + 1 }, some (.ok outcome))
        else (d', some (.error .eventsClosed))
    else (d, some (.error .eventsClosed))

/-- At most `fuel` events of the loop; `none` while the run has not returned. -/
def runFor (E : DriverEnv σ) : Nat → TurnDriver σ → TurnDriver σ × Option (Except DriverError Outcome)
  | 0, d => (d, none)
  | fuel + 1, d =>
    match d.step E with
    | (d', some result) => (d', some result)
    | (d', none) => runFor E fuel d'

end TurnDriver
end Iteron.Kernel
