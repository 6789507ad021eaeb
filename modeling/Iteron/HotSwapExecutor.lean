import Iteron.HotSwap
/-!
# HotSwapExecutor — the executors of one active implementation

The handle of an implementation is shared by its consumers and by the executors that replace it.  A `verify` that succeeds
reserves the handle; consumers are refused until the reservation is let go.  What a process does when it is asked is an
argument of the step.
-/
namespace Iteron.HotSwap

inductive RuntimeState where
  | spawned
  | loaded
  | running
  | stopped
  | failed
deriving DecidableEq

/-- A launch plan; `authority` is `implementation_authority_sha256`, the digest of the capabilities it admits. -/
structure ProcessLaunchPlan where
  module : ModuleId
  implementationId : String
  artifactSha256 : String
  protocolVersion : Nat
  authority : Except String String

structure ImplementationRuntime where
  plan : ProcessLaunchPlan
  state : RuntimeState
  reaped : Bool

structure ActiveCell where
  generation : HotSwapGeneration
  runtime : ImplementationRuntime
  transition : Option String

inductive RuntimeGenerationError where
  | identity
  | transitionInProgress (transaction : String)
  | runtime (reason : String)

/-- What the processes do in a call: the operation that is asked of one and how it is left, the state it hands over, and
the rebuilding of the old one. -/
structure Process where
  result : Except HotSwapStageError Unit
  rebuilt : Except HotSwapStageError Unit
  left : RuntimeState × Bool
  state : ImplementationState

def ImplementationRuntime.after (runtime : ImplementationRuntime) (p : Process) : ImplementationRuntime :=
  { runtime with state := p.left.1, reaped := p.left.2 }

def ImplementationRuntime.isLive (runtime : ImplementationRuntime) : Bool :=
  runtime.state == .loaded || runtime.state == .running

def stage (kind : HotSwapBlockKind) (phase : HotSwapPhase) (reason : String) : HotSwapStageError :=
  .make kind (phase.debug ++ ": " ++ reason)

def prefixedDigest (digest : String) : String :=
  if "sha256:".toByteArray.data.toList.isPrefixOf digest.toByteArray.data.toList then digest else "sha256:" ++ digest

def planMatches (plan : ProcessLaunchPlan) (module : ModuleId) (g : HotSwapGeneration) : Bool :=
  plan.module == module && plan.implementationId == g.implementationId &&
    prefixedDigest plan.artifactSha256 == g.artifactSha256

def validateRuntimeIdentity (runtime : ImplementationRuntime) (g : HotSwapGeneration) : Except RuntimeGenerationError Unit :=
  if runtime.plan.protocolVersion ≠ implementationProcessProtocolVersion ∨
      planMatches runtime.plan runtime.plan.module g = false then
    .error .identity
  else .ok ()

/-- `ActiveImplementationHandle::new` -/
def ActiveCell.new (runtime : ImplementationRuntime) (g : HotSwapGeneration) : Except RuntimeGenerationError ActiveCell := do
  validateRuntimeIdentity runtime g
  pure ⟨g, runtime, none⟩

/-- `start`, `next_observation` and `cancel`: the process is asked under the lock of a consumer. -/
inductive Consumer where
  | start
  | nextObservation
  | cancel

def ActiveCell.consumerLock (cell : ActiveCell) : Except RuntimeGenerationError Unit :=
  match cell.transition with
  | some transaction => .error (.transitionInProgress transaction)
  | none => .ok ()

def ActiveCell.consume (cell : ActiveCell) (_call : Consumer) (p : Process) : Except RuntimeGenerationError Unit × ActiveCell :=
  match cell.consumerLock with
  | .error e => (.error e, cell)
  | .ok () => (p.result.mapError (fun e => .runtime e.reason), { cell with runtime := cell.runtime.after p })

/-! ## An executor -/

structure RuntimeHotSwapExecutor where
  oldPlan : ProcessLaunchPlan
  shadowPlan : ProcessLaunchPlan
  rollbackState : ImplementationState
  verifiedRequest : Option HotSwapRequest
  nextPhase : HotSwapPhase
  shadow : Option ImplementationRuntime
  oldAfterSwitch : Option ImplementationRuntime
  switched : Bool

namespace RuntimeHotSwapExecutor

def new (cell : ActiveCell) (shadowPlan : ProcessLaunchPlan) (rollbackState : ImplementationState) :
    Except RuntimeGenerationError RuntimeHotSwapExecutor := do
  if rollbackState.valid = false then throw (.runtime "invalid implementation state")
  validateRuntimeIdentity cell.runtime cell.generation
  if stateMatches rollbackState cell.runtime.plan.module cell.generation = false then throw .identity
  pure ⟨cell.runtime.plan, shadowPlan, rollbackState, none, .verify, none, none, false⟩

def expect (e : RuntimeHotSwapExecutor) (phase : HotSwapPhase) (request : HotSwapRequest) : Except HotSwapStageError Unit :=
  if e.nextPhase ≠ phase ∨ e.verifiedRequest.any (fun verified => verified != request) then
    .error (stage .validation phase "phase or transaction correlation mismatch")
  else .ok ()

/-- What a call returns, the executor and the handle behind it. -/
abbrev Outcome := Except HotSwapStageError Unit × RuntimeHotSwapExecutor × ActiveCell

/-- The process of the old generation, launched and restored again. -/
def rebuildOld (e : RuntimeHotSwapExecutor) : ImplementationRuntime := ⟨e.oldPlan, .loaded, false⟩

def stopRuntime (runtime : ImplementationRuntime) (phase : HotSwapPhase) (p : Process) :
    Except HotSwapStageError Unit × ImplementationRuntime :=
  if runtime.reaped then (.ok (), runtime)
  else if runtime.isLive = false then (.error (stage .provider phase "runtime is neither stoppable nor reaped"), runtime)
  else (p.result, runtime.after p)

def verify (e : RuntimeHotSwapExecutor) (cell : ActiveCell) (request : HotSwapRequest) : Outcome :=
  match e.shadowPlan.authority with
  | .error reason => (.error (stage .dependency .verify reason), e, cell)
  | .ok authoritySha256 =>
    if cell.transition.isSome ∨ cell.runtime.state ≠ .loaded ∨ cell.generation ≠ request.old ∨
        planMatches e.oldPlan request.module request.old = false ∨
        planMatches e.shadowPlan request.module request.new = false ∨
        e.oldPlan.protocolVersion ≠ implementationProcessProtocolVersion ∨
        e.shadowPlan.protocolVersion ≠ implementationProcessProtocolVersion ∨
        authoritySha256 ≠ request.authoritySha256 ∨
        stateMatches e.rollbackState request.module request.old = false then
      (.error (stage .validation .verify "runtime, plan, state, authority, or safe-boundary identity mismatch"), e, cell)
    else
      (.ok (), { e with verifiedRequest := some request, nextPhase := .shadowLoad },
        { cell with transition := some request.transactionId })

def shadowLoad (e : RuntimeHotSwapExecutor) (cell : ActiveCell) (p : Process) : Outcome :=
  match p.result with
  | .error error => (.error error, e, cell)
  | .ok () => (.ok (), { e with shadow := some ⟨e.shadowPlan, .loaded, false⟩, nextPhase := .quiesce }, cell)

def quiesce (e : RuntimeHotSwapExecutor) (cell : ActiveCell) (request : HotSwapRequest) : Outcome :=
  if cell.transition ≠ some request.transactionId ∨ cell.generation ≠ request.old ∨ cell.runtime.state ≠ .loaded then
    (.error (stage .dependency .quiesce "old runtime left its reserved quiescent boundary"), e, cell)
  else (.ok (), { e with nextPhase := .snapshot }, cell)

def snapshot (e : RuntimeHotSwapExecutor) (cell : ActiveCell) (request : HotSwapRequest) (p : Process) : Outcome :=
  let cell' := { cell with runtime := cell.runtime.after p }
  match p.result with
  | .error error => (.error error, e, cell')
  | .ok () =>
    if stateMatches p.state request.module request.old = false ∨ p.state.runId ≠ e.rollbackState.runId ∨
        p.state.stateSchema ≠ e.rollbackState.stateSchema then
      (.error (stage .validation .snapshot "snapshot does not match the durable rollback anchor"), e, cell')
    else (.ok (), { e with rollbackState := p.state, nextPhase := .migrate }, cell')

/-- `migrate`, `restore` and `readiness` ask the shadow process. -/
def askShadow (e : RuntimeHotSwapExecutor) (cell : ActiveCell) (phase next : HotSwapPhase) (p : Process) : Outcome :=
  match e.shadow with
  | none => (.error (stage .dependency phase "shadow runtime is missing"), e, cell)
  | some shadow =>
    match p.result with
    | .error error => (.error error, { e with shadow := some (shadow.after p) }, cell)
    | .ok () => (.ok (), { e with shadow := some (shadow.after p), nextPhase := next }, cell)

def atomicSwitch (e : RuntimeHotSwapExecutor) (cell : ActiveCell) (request : HotSwapRequest) : Outcome :=
  match e.shadow with
  | none => (.error (stage .dependency .atomicSwitch "ready shadow runtime is missing"), e, cell)
  | some shadow =>
    if shadow.state ≠ .loaded then
      (.error (stage .provider .atomicSwitch "ready shadow runtime is not loaded"), { e with shadow := none }, cell)
    else if cell.transition ≠ some request.transactionId ∨ cell.generation ≠ request.old then
      (.error (stage .dependency .atomicSwitch "active generation changed before switch"), { e with shadow := none }, cell)
    else
      (.ok (), { e with shadow := none, oldAfterSwitch := some cell.runtime, switched := true, nextPhase := .drain },
        { cell with generation := request.new, runtime := shadow })

def drain (e : RuntimeHotSwapExecutor) (cell : ActiveCell) (p : Process) : Outcome :=
  match e.oldAfterSwitch with
  | none => (.error (stage .dependency .drain "old runtime is missing after switch"), e, cell)
  | some old =>
    match stopRuntime old .drain p with
    | (.error error, old') => (.error error, { e with oldAfterSwitch := some old' }, cell)
    | (.ok (), old') => (.ok (), { e with oldAfterSwitch := some old', nextPhase := .committed }, cell)

def committed (e : RuntimeHotSwapExecutor) (cell : ActiveCell) (request : HotSwapRequest) : Outcome :=
  if cell.transition ≠ some request.transactionId ∨ cell.generation ≠ request.new ∨ cell.runtime.state ≠ .loaded then
    (.error (stage .dependency .committed "committed generation handle is inconsistent"), e, cell)
  else (.ok (), { e with nextPhase := .committed }, { cell with transition := none })

/-- The call of a phase, which is first checked against the phase and the request that are expected. -/
def call (e : RuntimeHotSwapExecutor) (cell : ActiveCell) (request : HotSwapRequest) (phase : HotSwapPhase) (p : Process) :
    Outcome :=
  match e.expect phase request with
  | .error error => (.error error, e, cell)
  | .ok () =>
    match phase with
    | .verify => e.verify cell request
    | .shadowLoad => e.shadowLoad cell p
    | .quiesce => e.quiesce cell request
    | .snapshot => e.snapshot cell request p
    | .migrate => e.askShadow cell .migrate .restore p
    | .restore => e.askShadow cell .restore .readiness p
    | .readiness => e.askShadow cell .readiness .atomicSwitch p
    | .atomicSwitch => e.atomicSwitch cell request
    | .drain => e.drain cell p
    | .committed => e.committed cell request
    | .rolledBack => (.ok (), e, cell)

/-- A rollback returns, or lets the handle go and rebuilds the old process first. -/
inductive Rollback where
  | returned (outcome : Outcome)
  | rebuilding (e : RuntimeHotSwapExecutor)

def oldRuntime (e : RuntimeHotSwapExecutor) (p : Process) : Except HotSwapStageError ImplementationRuntime :=
  match e.oldAfterSwitch with
  | some runtime => if runtime.state = .loaded then .ok runtime else p.rebuilt.map (fun _ => e.rebuildOld)
  | none => p.rebuilt.map (fun _ => e.rebuildOld)

def stopShadow (e : RuntimeHotSwapExecutor) (p : Process) : Except HotSwapStageError Unit :=
  match e.shadow with
  | some shadow => (stopRuntime shadow .rolledBack p).1
  | none => .ok ()

def rollbackSwitched (e : RuntimeHotSwapExecutor) (cell : ActiveCell) (request : HotSwapRequest) (p : Process) : Outcome :=
  let e' := { e with oldAfterSwitch := none }
  match e.oldRuntime p with
  | .error error => (.error error, e', cell)
  | .ok old =>
    if cell.transition ≠ some request.transactionId ∨ cell.generation ≠ request.new then
      (.error (stage .dependency .rolledBack "new generation is not the reserved active runtime"), e', cell)
    else
      let cell' := { cell with generation := request.old, runtime := old, transition := none }
      match (stopRuntime cell.runtime .rolledBack p).1 with
      | .error error => (.error error, { e' with switched := false }, cell')
      | .ok () => (.ok (), { e' with switched := false, nextPhase := .rolledBack }, cell')

def rollbackUnswitched (e : RuntimeHotSwapExecutor) (cell : ActiveCell) (request : HotSwapRequest) (p : Process) : Rollback :=
  let e' := { e with shadow := none }
  match e.stopShadow p with
  | .error error => .returned (.error error, e', cell)
  | .ok () =>
    if cell.generation ≠ request.old then
      .returned (.error (stage .dependency .rolledBack "old generation is no longer active"), e', cell)
    else if cell.runtime.isLive then
      .returned (.ok (), { e' with nextPhase := .rolledBack }, { cell with transition := none })
    else .rebuilding e'

def rollback (e : RuntimeHotSwapExecutor) (cell : ActiveCell) (request : HotSwapRequest) (p : Process) : Rollback :=
  if e.verifiedRequest.any (fun verified => verified != request) then
    .returned (.error (stage .validation .rolledBack "rollback transaction correlation mismatch"), e, cell)
  else if e.switched then .returned (e.rollbackSwitched cell request p)
  else e.rollbackUnswitched cell request p

/-- The rest of a rollback that rebuilds the old process, under the lock it takes again. -/
def recover (e : RuntimeHotSwapExecutor) (cell : ActiveCell) (p : Process) : Outcome :=
  match p.rebuilt with
  | .error error => (.error error, e, cell)
  | .ok () => (.ok (), { e with nextPhase := .rolledBack }, { cell with runtime := e.rebuildOld, transition := none })

end RuntimeHotSwapExecutor

/-! ## Coordinators over one handle -/

def HotSwapPhase.next : HotSwapPhase → HotSwapPhase
  | verify => shadowLoad
  | shadowLoad => quiesce
  | quiesce => snapshot
  | snapshot => migrate
  | migrate => restore
  | restore => readiness
  | readiness => atomicSwitch
  | atomicSwitch => drain
  | drain => committed
  | committed => committed
  | rolledBack => rolledBack

/-- Where the coordinator of an executor is: between transactions, before a phase, before a rollback, or inside one. -/
inductive Drive where
  | idle
  | before (request : HotSwapRequest) (phase : HotSwapPhase)
  | failing (request : HotSwapRequest)
  | recovering (request : HotSwapRequest)
deriving DecidableEq

structure Party where
  executor : RuntimeHotSwapExecutor
  drive : Drive

structure World where
  cell : ActiveCell
  parties : List Party

/-- A coordinator gives a phase up for what the executor does not decide: the protocol version, its own active generation,
the deadline, the identity of a state, or a record that is not written. -/
inductive Action where
  | create (shadowPlan : ProcessLaunchPlan) (rollbackState : ImplementationState)
  | transact (i : Nat) (request : HotSwapRequest)
  | giveUp (i : Nat)
  | call (i : Nat) (p : Process)
  | rollback (i : Nat) (p : Process)
  | recover (i : Nat) (p : Process)
  | consume (c : Consumer) (p : Process)

inductive Answer where
  | silent
  | stage (i : Nat) (request : HotSwapRequest) (phase : HotSwapPhase) (result : Except HotSwapStageError Unit)
  | rollback (i : Nat) (request : HotSwapRequest) (result : Except HotSwapStageError Unit)
  | consumed (result : Except RuntimeGenerationError Unit)

def World.put (w : World) (i : Nat) (party : Party) (cell : ActiveCell) : World := ⟨cell, w.parties.set i party⟩

def driveAfter (request : HotSwapRequest) (phase : HotSwapPhase) (result : Except HotSwapStageError Unit) : Drive :=
  if phase = .committed then .idle
  else
    match result with
    | .ok () => .before request phase.next
    | .error _ => .failing request

/-- One step of a party; a step that the coordinator is not at does nothing. -/
def World.stepParty (w : World) (i : Nat) (party : Party) : Action → World × Answer
  | .transact _ request =>
    if party.drive = .idle ∧ request.validate.isOk then
      (w.put i { party with drive := .before request .verify } w.cell, .silent)
    else (w, .silent)
  | .giveUp _ =>
    match party.drive with
    | .before request _ => (w.put i { party with drive := .failing request } w.cell, .silent)
    | _ => (w, .silent)
  | .call _ p =>
    match party.drive with
    | .before request phase =>
      let o := party.executor.call w.cell request phase p
      (w.put i ⟨o.2.1, driveAfter request phase o.1⟩ o.2.2, .stage i request phase o.1)
    | _ => (w, .silent)
  | .rollback _ p =>
    match party.drive with
    | .failing request =>
      match party.executor.rollback w.cell request p with
      | .returned o => (w.put i ⟨o.2.1, .idle⟩ o.2.2, .rollback i request o.1)
      | .rebuilding e => (w.put i ⟨e, .recovering request⟩ w.cell, .silent)
    | _ => (w, .silent)
  | .recover _ p =>
    match party.drive with
    | .recovering request =>
      let o := party.executor.recover w.cell p
      (w.put i ⟨o.2.1, .idle⟩ o.2.2, .rollback i request o.1)
    | _ => (w, .silent)
  | _ => (w, .silent)

def World.onParty (w : World) (i : Nat) (a : Action) : World × Answer :=
  match w.parties[i]? with
  | some party => w.stepParty i party a
  | none => (w, .silent)

def World.step (w : World) : Action → World × Answer
  | .create shadowPlan rollbackState =>
    match RuntimeHotSwapExecutor.new w.cell shadowPlan rollbackState with
    | .ok e => ({ w with parties := w.parties ++ [⟨e, .idle⟩] }, .silent)
    | .error _ => (w, .silent)
  | .consume c p => ({ w with cell := (w.cell.consume c p).2 }, .consumed (w.cell.consume c p).1)
  | .transact i request => w.onParty i (.transact i request)
  | .giveUp i => w.onParty i (.giveUp i)
  | .call i p => w.onParty i (.call i p)
  | .rollback i p => w.onParty i (.rollback i p)
  | .recover i p => w.onParty i (.recover i p)

end Iteron.HotSwap
