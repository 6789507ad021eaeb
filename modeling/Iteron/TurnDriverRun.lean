import Iteron.TurnDriver
/-!
# TurnDriverRun — what holds at every event of a driver run

Two results over `runFor`.  A run that returns `drained` had its checkpoint answered `Ok`, for every port that never
answers a checkpoint with a record fault, and only for those (`drained_checkpointed_iff`).  A run fed observations and
one admission never violates the reducer's protocol, never holds more than three replies and polls no submission after
the admission (`driver_conforms`).
-/
namespace Iteron.Kernel
namespace TurnDriver

variable {σ : Type}

/-! ## What routing leaves alone -/

theorem pushReply_cases (E : DriverEnv σ) (d : TurnDriver σ) (c : Command) :
    d.pushReply E c = (d, .error .replyQueueFull) ∧ E.maxPendingReplies ≤ d.replies.length ∨
    d.pushReply E c = ({ d with replies := d.replies ++ [c] }, .ok ()) := by
  unfold pushReply
  split
  · rename_i hfull
    exact .inl ⟨rfl, hfull⟩
  · exact .inr rfl

/-- The reply an action request brings when its port serves it. -/
def Serves : ActionRequest → Command → Prop
  | .selectContext, .contextResolved _ => True
  | .sampleBudget, .budgetSampled _ => True
  | .observeControl, .controlObserved _ => True
  | .admitSteers _, .steered _ => True
  | .callProvider _, .providerCompleted .. => True
  | .callProvider _, .providerFailed _ => True
  | .dispatchTools .., .toolsCompleted _ => True
  | .runVerify .., .verifyCompleted _ => True
  | _, _ => False

/-- The action requests whose port may report a broken record. -/
def recordable : ActionRequest → Bool
  | .selectContext | .advanceTurn _ | .checkpoint _ => true
  | _ => false

/-- The action requests that bring no reply of their own. -/
def silent : ActionRequest → Bool
  | .notice _ | .continue .. | .advanceTurn _ | .checkpoint _ => true
  | _ => false

/-- **Everything routing an action does to the loop**: its state, its pending actions and its polls stay, and the reply
queue gets the action's reply, a record failure where its port can report one, or nothing. -/
structure Routed (E : DriverEnv σ) (a : ActionRequest) (d d' : TurnDriver σ) (r : Except DriverError Unit) : Prop where
  state : d'.state = d.state
  pending : d'.pending = d.pending
  polls : d'.polls = d.polls
  replies : (d'.replies = d.replies ∧ (r = .ok () → silent a = true)) ∨
    (r = .ok () ∧ ∃ c, d'.replies = d.replies ++ [c] ∧ (Serves a c ∨ c = .recordFailed ∧ recordable a = true))
  full : r = .error .replyQueueFull → E.maxPendingReplies ≤ d.replies.length

variable {E : DriverEnv σ} {a : ActionRequest} {d d1 : TurnDriver σ} {c : Command}

theorem routed_pushReply
    (h1 : d1.state = d.state) (h2 : d1.pending = d.pending) (h3 : d1.polls = d.polls) (h4 : d1.replies = d.replies)
    (hc : Serves a c ∨ c = .recordFailed ∧ recordable a = true) :
    Routed E a d (d1.pushReply E c).1 (d1.pushReply E c).2 := by
  rcases pushReply_cases E d1 c with ⟨hp, hfull⟩ | hp
  · rw [hp]
    exact ⟨h1, h2, h3, .inl ⟨h4, fun h => by cases h⟩, fun _ => h4 ▸ hfull⟩
  · rw [hp]
    exact ⟨h1, h2, h3, .inr ⟨rfl, c, by rw [h4], hc⟩, fun h => by cases h⟩

theorem routed_fault (f : PortFault)
    (h1 : d1.state = d.state) (h2 : d1.pending = d.pending) (h3 : d1.polls = d.polls) (h4 : d1.replies = d.replies)
    (ha : recordable a = true) : Routed E a d (d1.fault E f).1 (d1.fault E f).2 := by
  cases f with
  | record reason => exact routed_pushReply h1 h2 h3 h4 (.inr ⟨rfl, ha⟩)
  | port reason => exact ⟨h1, h2, h3, .inl ⟨h4, fun h => by cases h⟩, fun h => by cases h⟩

theorem routed_silent (h1 : d1.state = d.state)
    (h2 : d1.pending = d.pending) (h3 : d1.polls = d.polls) (h4 : d1.replies = d.replies) (ha : silent a = true) :
    Routed E a d d1 (.ok ()) :=
  ⟨h1, h2, h3, .inl ⟨h4, fun _ => ha⟩, fun h => by cases h⟩

theorem dispatch_routed (E : DriverEnv σ) (d : TurnDriver σ) (a : ActionRequest) (ha : ∀ o, a ≠ .finish o) :
    Routed E a d (d.dispatch E a).1 (d.dispatch E a).2 := by
  cases a with
  | selectContext =>
    simp only [dispatch]
    split
    · exact routed_pushReply rfl rfl rfl rfl (.inl trivial)
    · exact routed_fault _ rfl rfl rfl rfl rfl
  | sampleBudget => exact routed_pushReply rfl rfl rfl rfl (.inl trivial)
  | observeControl => exact routed_pushReply rfl rfl rfl rfl (.inl trivial)
  | admitSteers turn => exact routed_pushReply rfl rfl rfl rfl (.inl trivial)
  | callProvider turn =>
    simp only [dispatch]
    split
    · exact routed_pushReply rfl rfl rfl rfl (.inl trivial)
    · exact routed_pushReply rfl rfl rfl rfl (.inl trivial)
  | dispatchTools turn _ => exact routed_pushReply rfl rfl rfl rfl (.inl trivial)
  | runVerify turn _ => exact routed_pushReply rfl rfl rfl rfl (.inl trivial)
  | checkpoint turn =>
    simp only [dispatch]
    split
    · exact routed_silent rfl rfl rfl rfl rfl
    · exact routed_fault _ rfl rfl rfl rfl rfl
  | notice _ => exact routed_silent rfl rfl rfl rfl rfl
  | «continue» turn _ => exact routed_silent rfl rfl rfl rfl rfl
  | advanceTurn turn =>
    simp only [dispatch]
    split
    · exact routed_silent rfl rfl rfl rfl rfl
    · exact routed_fault _ rfl rfl rfl rfl rfl
  | finish o => cases ha o rfl

/-- **Everything one event of the loop can do.** -/
inductive Stepped (E : DriverEnv σ) (d : TurnDriver σ) : TurnDriver σ → Option (Except DriverError Outcome) → Prop
  | reply (c : Command) (rest : List Command) : d.pending = [] → d.replies = c :: rest →
      Stepped E d ({ d with replies := rest }.fold c) none
  | polled (c : Command) : d.pending = [] → d.replies = [] → E.submissions d.polls = some c →
      Stepped E d ({ d with replies := [], pending := [], polls := d.polls + 1 }.fold c) none
  | closed : d.pending = [] → d.replies = [] → E.submissions d.polls = none →
      Stepped E d { d with replies := [], pending := [], polls := d.polls + 1 } (some (.error .submissionsClosed))
  | routed (a : ActionRequest) (rest : Actions) (d' : TurnDriver σ) : d.pending = a :: rest → (∀ o, a ≠ .finish o) →
      { d with pending := rest, emitted := d.emitted + 1 }.dispatch E a = (d', .ok ()) → Stepped E d d' none
  | refused (a : ActionRequest) (rest : Actions) (d' : TurnDriver σ) (e : DriverError) : d.pending = a :: rest →
      (∀ o, a ≠ .finish o) →
      { d with pending := rest, emitted := d.emitted + 1 }.dispatch E a = (d', .error e) →
      Stepped E d d' (some (.error e))
  | finished (o : Outcome) (rest : Actions) (n : Nat) : d.pending = .finish o :: rest →
      Stepped E d { d with pending := rest, emitted := n } (some (.ok o))
  | deaf (rest : Actions) (n : Nat) : Stepped E d { d with pending := rest, emitted := n } (some (.error .eventsClosed))

theorem route_eq (E : DriverEnv σ) (d : TurnDriver σ) (ha : ∀ o, a ≠ .finish o) :
    d.route E a = match d.dispatch E a with
      | (d', .ok ()) => (d', .ok none)
      | (d', .error e) => (d', .error e) := by
  cases a with
  | finish o => cases ha o rfl
  | _ => rfl

theorem step_stepped (E : DriverEnv σ) (d : TurnDriver σ) : Stepped E d (d.step E).1 (d.step E).2 := by
  unfold step
  cases hp : d.pending with
  | nil =>
    cases hr : d.replies with
    | cons c rest => exact .reply c rest hp hr
    | nil =>
      simp only
      split
      · exact .polled _ hp hr ‹_›
      · exact .closed hp hr ‹_›
  | cons a rest =>
    simp only
    split
    · by_cases ha : ∃ o, a = .finish o
      · obtain ⟨o, rfl⟩ := ha
        simp only [route]
        split
        · exact .finished o rest _ hp
        · exact .deaf rest _
      · have hne : ∀ o, a ≠ .finish o := fun o h => ha ⟨o, h⟩
        rw [route_eq E _ hne]
        rcases hd : { d with pending := rest, emitted := d.emitted + 1 }.dispatch E a with ⟨d', e | u⟩
        · rw [hd]
          exact .refused a rest d' e hp hne hd
        · rw [hd]
          exact .routed a rest d' hp hne hd
    · have heq : d = { d with pending := a :: rest, emitted := d.emitted } := by rw [← hp]
      rw [heq]
      exact .deaf (a :: rest) d.emitted

/-- **The invariant rule of a run**: what every event keeps until the last, and the last turns into `Q`. -/
theorem runFor_induction {E : DriverEnv σ} {P : TurnDriver σ → Prop}
    {Q : TurnDriver σ → Option (Except DriverError Outcome) → Prop} (hstep : ∀ d d', P d → Stepped E d d' none → P d')
    (hlast : ∀ d d' r, P d → Stepped E d d' (some r) → Q d' (some r)) (hnow : ∀ d, P d → Q d none) :
    ∀ (fuel : Nat) (d : TurnDriver σ), P d → Q (d.runFor E fuel).1 (d.runFor E fuel).2
  | 0, d, h => hnow d h
  | fuel + 1, d, h => by
    have hs := step_stepped E d
    unfold runFor
    rcases hd : d.step E with ⟨d', _ | r⟩
    · rw [hd] at hs
      exact runFor_induction hstep hlast hnow fuel d' (hstep d d' h hs)
    · rw [hd] at hs
      exact hlast d d' r h hs

/-! ## A drained run was checkpointed -/

/-- Whoever still owes the run its `drained` owes it a checkpoint first, or has had it answered. -/
def DrainOwed (d : TurnDriver σ) : Prop :=
  .finish .drained ∈ d.pending →
    (∃ n, d.pending = [.checkpoint n, .finish .drained]) ∨ d.pending = [.finish .drained] ∧ .ok () ∈ d.checkpoints

theorem drainOwed_reduce (s : TurnState) (c : Command) :
    .finish .drained ∈ (reduce s c).2 → ∃ n, (reduce s c).2 = [.checkpoint n, .finish .drained] := by
  have hR := reduce_reduces s c
  generalize (reduce s c).1 = s' at hR
  generalize (reduce s c).2 = more at hR ⊢
  intro hmem
  cases hR with
  | drained c hp _ => exact ⟨_, rfl⟩
  | stopped c s' o f n hp _ _ _ h2 _ =>
    cases n <;> simp [Ne.symm h2] at hmem
  | _ => simp [boundaryProbe, continues, advanceAndProbe] at hmem

variable {d' : TurnDriver σ}

section

variable (hrec : ∀ n w reason, (E.ports.checkpoint n w).1 ≠ .error (.record reason))
include hrec

theorem DrainOwed.step (h : DrainOwed d) (hs : Stepped E d d' none) : DrainOwed d' := by
  cases hs with
  | reply c rest hp hr => exact fun hmem => .inl (drainOwed_reduce d.state c hmem)
  | polled c hp hr _ => exact fun hmem => .inl (drainOwed_reduce d.state c hmem)
  | routed a rest d' hp ha hd =>
    have hpend : d'.pending = rest := by
      have := (dispatch_routed E { d with pending := rest, emitted := d.emitted + 1 } a ha).pending
      rw [hd] at this
      exact this
    intro hmem
    rw [hpend] at hmem ⊢
    rcases h (by rw [hp]; exact .tail _ hmem) with ⟨n, hn⟩ | ⟨hn, -⟩
    · rw [hp] at hn
      cases hn
      -- the routed action is the checkpoint: its port answered `Ok`, or the run would have stopped
      simp only [dispatch] at hd
      rcases hc : E.ports.checkpoint n d.ports with ⟨f | u, w⟩
      · cases f with
        | record reason => cases hrec n d.ports reason (congrArg Prod.fst hc)
        | port reason => rw [hc] at hd; cases hd
      · rw [hc] at hd
        cases hd
        simp
    · rw [hp] at hn
      cases hn
      cases hmem

theorem drainOwed_run (fuel : Nat) (d : TurnDriver σ) (h : DrainOwed d) (hr : (d.runFor E fuel).2 = some (.ok .drained)) :
    .ok () ∈ (d.runFor E fuel).1.checkpoints := by
  refine runFor_induction (Q := fun d r => r = some (.ok .drained) → .ok () ∈ d.checkpoints)
    (fun d d' hd hs => hd.step hrec hs) ?_ (fun d _ hn => by cases hn) fuel d h hr
  intro d d' r hd hs hr
  cases hs with
  | finished o _ n hp =>
    cases hr
    rcases hd (by rw [hp]; exact .head _) with ⟨n, hn⟩ | ⟨-, hok⟩
    · rw [hp] at hn
      cases hn
    · exact hok
  | _ => cases hr

end

def drainingAt (turn : UInt32) : TurnState :=
  { TurnState.resumedAt {} false turn with phase := .boundary, control := .drain }

theorem drainingAt_run (P : TurnPorts σ) {turn : UInt32} {w : σ} {reason : String}
    (hc : (P.checkpoint turn w).1 = .error (.record reason)) : let E : DriverEnv σ :=
      { ports := P, submissions := fun i => [Command.budgetSampled none][i]?, accepts := fun _ => true }
    ((new (drainingAt turn) w).runFor E 3).2 = some (.ok .drained) ∧
      ((new (drainingAt turn) w).runFor E 3).1.checkpoints = [.error (.record reason)] := by
  intro E
  rcases hp : P.checkpoint turn w with ⟨r, _⟩
  rw [hp] at hc
  subst hc
  have h1 : (new (drainingAt turn) w).step E = ({ new (drainingAt turn) w with
          state := (drainingAt turn).finished .drained none, polls := 1,
          pending := [.checkpoint turn, .finish .drained] }, none) := rfl
  simp only [runFor, h1]
  simp only [step, E, if_true, route, dispatch, new, hp, fault, pushReply]
  simp

/-- **When a drain is never quiet**: every run over these ports that returns `drained` had a checkpoint answered `Ok`
exactly when the checkpoint port never reports a broken record. -/
theorem drained_checkpointed_iff (P : TurnPorts σ) :
    (∀ (E : DriverEnv σ) (s : TurnState) (w : σ) (fuel : Nat), E.ports = P →
      ((new s w).runFor E fuel).2 = some (.ok .drained) → .ok () ∈ ((new s w).runFor E fuel).1.checkpoints) ↔
    ∀ turn w reason, (P.checkpoint turn w).1 ≠ .error (.record reason) := by
  constructor
  · intro h turn w reason hc
    obtain ⟨hrun, hck⟩ := drainingAt_run P hc
    have hok := h _ _ _ _ rfl hrun
    rw [hck] at hok
    simp at hok
  · rintro hrec E s w fuel rfl hr
    exact drainOwed_run hrec fuel _ (fun hmem => by cases hmem) hr

/-- Ports that grant an empty context and lose the durable record at the checkpoint. -/
def brokenCheckpoint : TurnPorts Unit where
  callProvider _ w := (.completed .endTurn 0, w)
  checkpoint _ w := (.error (.record "durable append failed"), w)
  selectContext w := (.ok { requestId := 1, segments := [], bytes := 0 }, w)
  sampleBudget w := (none, w)
  observeControl w := (.none, w)
  admitSteers _ w := (0, w)
  notice _ w := w
  continuation _ _ w := w
  advanceTurn _ w := (.ok (), w)
  runVerify _ _ w := (.pass, w)
  dispatchTools _ _ w := (false, w)

/-- **A drain can be quiet**: a fresh run told to drain and admitted returns `drained` over a failed checkpoint. -/
theorem drained_not_checkpointed : ¬ ∀ (E : DriverEnv Unit) (s : TurnState) (w : Unit) (fuel : Nat),
      ((new s w).runFor E fuel).2 = some (.ok .drained) → .ok () ∈ ((new s w).runFor E fuel).1.checkpoints := by
  intro h
  have hok := h
    { ports := brokenCheckpoint, submissions := fun i => [Command.controlObserved .drain, .admitted][i]?,
      accepts := fun _ => true } (.new {} false) () 10 (by decide)
  revert hok
  decide

/-! ## The driver keeps the reducer's protocol -/

inductive Awaits : TurnPhase → List Command → Actions → Prop
  | notice (p : TurnPhase) (text : NoticeKind) (acts : Actions) : Awaits p [] acts → Awaits p [] (.notice text :: acts)
  | continue (p : TurnPhase) (turn : UInt32) (reason : ContinueReason) (acts : Actions) :
      Awaits p [] acts → Awaits p [] (.continue turn reason :: acts)
  | select : Awaits .awaitingContext [] [.selectContext]
  | context (grant : ContextGrant) : Awaits .awaitingContext [.contextResolved grant] []
  | advance (turn : UInt32) : Awaits .boundary [] [.advanceTurn turn, .observeControl, .sampleBudget]
  | probe : Awaits .boundary [] [.observeControl, .sampleBudget]
  | control (signal : ControlSignal) : Awaits .boundary [.controlObserved signal] [.sampleBudget]
  | probed (signal : ControlSignal) (ceiling : Option BudgetCeiling) :
      Awaits .boundary [.controlObserved signal, .budgetSampled ceiling] []
  | budget (ceiling : Option BudgetCeiling) : Awaits .boundary [.budgetSampled ceiling] []
  | call (turn : UInt32) : Awaits .awaitingProvider [] [.callProvider turn]
  | completed (termination : ProviderTermination) (calls : UInt32) :
      Awaits .awaitingProvider [.providerCompleted termination calls] []
  | failed (failure : ProviderFailure) : Awaits .awaitingProvider [.providerFailed failure] []
  | dispatch (turn calls : UInt32) : Awaits .awaitingTools [] [.dispatchTools turn calls]
  | tools (anyError : Bool) : Awaits .awaitingTools [.toolsCompleted anyError] []
  | verify (turn attempt : UInt32) : Awaits .awaitingVerify [] [.runVerify turn attempt]
  | verdict (outcome : VerifyOutcome) : Awaits .awaitingVerify [.verifyCompleted outcome] []
  | steers (turn : UInt32) : Awaits .settling [] [.admitSteers turn]
  | steered (count : UInt32) : Awaits .settling [.steered count] []
  /-- A record failure always stands ahead of the replies the phase expects. -/
  | broken (p : TurnPhase) : Awaits p [.recordFailed] []
  | brokenProbe (p : TurnPhase) : Awaits p [.recordFailed] [.observeControl, .sampleBudget]
  | brokenControl (p : TurnPhase) (signal : ControlSignal) :
      Awaits p [.recordFailed, .controlObserved signal] [.sampleBudget]
  | brokenProbed (p : TurnPhase) (signal : ControlSignal) (ceiling : Option BudgetCeiling) :
      Awaits p [.recordFailed, .controlObserved signal, .budgetSampled ceiling] []

inductive Closing (queued : Nat) : Actions → Prop
  | finish (o : Outcome) : queued ≤ 3 → Closing queued [.finish o]
  | notice (text : NoticeKind) (acts : Actions) : queued ≤ 2 → Closing queued acts →
      Closing queued (.notice text :: acts)
  | checkpoint (turn : UInt32) (o : Outcome) : queued ≤ 2 → Closing queued [.checkpoint turn, .finish o]

variable {p : TurnPhase} {replies : List Command} {acts : Actions}

theorem Awaits.length_le (h : Awaits p replies acts) : replies.length ≤ 3 := by
  cases h <;> simp

variable {queued : Nat}

theorem Closing.queued_le (h : Closing queued acts) : queued ≤ 3 := by
  cases h <;> omega

theorem Awaits.nonempty (h : Awaits p [] []) : False := by
  cases h

variable {rest : Actions}

theorem Awaits.room (h : Awaits p replies (a :: rest)) : replies.length ≤ 2 := by
  cases h <;> simp

theorem Closing.room (h : Closing queued (a :: rest)) (ha : ∀ o, a ≠ .finish o) : queued ≤ 2 := by
  cases h with
  | finish o _ => cases ha o rfl
  | notice _ _ hq _ => exact hq
  | checkpoint _ o hq => exact hq

/-- What the driver owes at every event, when the submissions admit the run at poll `n`. -/
inductive Conforms (n : Nat) (d : TurnDriver σ) : Prop
  | waiting : d.state.phase = .admitting → d.state.fault = none → d.replies = [] → d.pending = [] → d.polls ≤ n →
      Conforms n d
  | awaiting : d.state.phase ≠ .finished → d.state.fault = none → Awaits d.state.phase d.replies d.pending →
      d.polls ≤ n + 1 → Conforms n d
  | closing : d.state.phase = .finished → d.state.fault ≠ some .protocolViolation →
      Closing d.replies.length d.pending → d.polls ≤ n + 1 → Conforms n d

/-- What a run that conforms shows at every event and where it ends. -/
structure Conformed (n : Nat) (d : TurnDriver σ) : Prop where
  no_violation : d.state.fault ≠ some .protocolViolation
  replies_le : d.replies.length ≤ 3
  polls_le : d.polls ≤ n + 1

variable {n : Nat}

theorem Conforms.conformed (h : Conforms n d) : Conformed n d := by
  cases h with
  | waiting hp hf hr _ hpoll => exact ⟨by rw [hf]; decide, by rw [hr]; simp, by omega⟩
  | awaiting hp hf ha hpoll => exact ⟨by rw [hf]; decide, ha.length_le, hpoll⟩
  | closing hp hf hc hpoll => exact ⟨hf, hc.queued_le, hpoll⟩

/-- The submissions a run may take before it is admitted. -/
def observes : Command → Bool
  | .controlObserved _ | .unresolvedEffectsObserved _ => true
  | _ => false

/-- **What folding a fitting command leaves to the driver**: the closing of the run, nothing after an observation, or
the requests of the phase it enters. -/
theorem reduces_driver {s s' : TurnState} {more : Actions} (h : Reduces s c s' more)
    (hp : s.phase ≠ .finished) (hfit : c.fits s.phase = true) :
    (s'.phase = .finished ∧ s'.fault ≠ some .protocolViolation ∧ ∀ queued, queued ≤ 2 → Closing queued more) ∨
    (s'.phase ≠ .finished ∧ s'.fault = s.fault ∧ (observes c = true ∧ s'.phase = s.phase ∧ more = [] ∨
        observes c = false ∧ c ≠ .recordFailed ∧ Awaits s'.phase [] more)) := by
  cases h with
  | absorbed c hf => cases hp hf
  | observed _ _ => exact .inr ⟨hp, rfl, .inl ⟨rfl, rfl, rfl⟩⟩
  | resolved _ => exact .inr ⟨hp, rfl, .inl ⟨rfl, rfl, rfl⟩⟩
  | admitted _ => exact .inr ⟨by simp, rfl, .inr ⟨rfl, by simp, .select⟩⟩
  | context _ _ => exact .inr ⟨by simp, rfl, .inr ⟨rfl, by simp, .probe⟩⟩
  | called _ _ _ => exact .inr ⟨by simp, rfl, .inr ⟨rfl, by simp, .call _⟩⟩
  | tools calls _ => exact .inr ⟨by simp, rfl, .inr ⟨rfl, by simp, .dispatch _ _⟩⟩
  | verify calls _ => exact .inr ⟨by simp, rfl, .inr ⟨rfl, by simp, .verify _ _⟩⟩
  | answered calls _ _ => exact .inr ⟨by simp, rfl, .inr ⟨rfl, by simp, .steers _⟩⟩
  | resampled _ calls _ _ _ =>
    exact .inr ⟨by simp [nextTurn], rfl, .inr ⟨rfl, by simp, .notice _ _ _ (.continue _ _ _ _ (.advance _))⟩⟩
  | toolsDone _ _ _ => exact .inr ⟨by simp [nextTurn], rfl, .inr ⟨rfl, by simp, .advance _⟩⟩
  | passed _ => exact .inr ⟨by simp, rfl, .inr ⟨rfl, by simp, .notice _ _ _ (.steers _)⟩⟩
  | retried _ _ =>
    exact .inr ⟨by simp [nextTurn], rfl, .inr ⟨rfl, by simp, .notice _ _ _ (.continue _ _ _ _ (.advance _))⟩⟩
  | steered _ _ _ =>
    exact .inr ⟨by simp [nextTurn], rfl, .inr ⟨rfl, by simp, .continue _ _ _ _ (.advance _)⟩⟩
  | done _ _ => exact .inl ⟨rfl, by simp [TurnState.finished], fun q hq => .finish _ (by omega)⟩
  | drained c _ _ => exact .inl ⟨rfl, by simp [TurnState.finished], fun q hq => .checkpoint _ _ hq⟩
  | stopped c s' o f n _ _ _ _ _ hv =>
    refine .inl ⟨rfl, fun hf => ?_, fun q hq => ?_⟩
    · rw [hv hf] at hfit
      cases hfit
    · cases n with
      | none => exact .finish _ (by omega)
      | some _ => exact .notice _ _ hq (.finish _ (by omega))

theorem conforms_reply {rest : List Command}
    (hp : d.state.phase ≠ .finished) (hf : d.state.fault = none) (ha : Awaits d.state.phase (c :: rest) [])
    (hpoll : d.polls ≤ n + 1) : Conforms n ({ d with replies := rest }.fold c) := by
  have hfit : c.fits d.state.phase = true := by
    generalize d.state.phase = p at ha
    cases ha <;> rfl
  have hlen : rest.length ≤ 2 := Nat.le_of_succ_le_succ ha.length_le
  rcases reduces_driver (reduce_reduces d.state c) hp hfit with ⟨h1, h2, h3⟩ | ⟨h1, h2, h3⟩
  · exact .closing h1 h2 (h3 _ hlen) hpoll
  · refine .awaiting h1 (h2.trans hf) ?_ hpoll
    rcases h3 with ⟨hobs, hphase, hmore⟩ | ⟨hobs, hrec, haw⟩
    · -- the only observation among the replies is the first of the two boundary readings
      simp only [fold]
      rw [hphase, hmore]
      generalize d.state.phase = p at ha
      cases ha <;> first | exact .budget _ | cases hobs
    · have hrest : rest = [] := by
        generalize d.state.phase = p at ha
        cases ha <;> first | rfl | exact absurd rfl hrec | cases hobs
      rw [hrest]
      exact haw

theorem conforms_polled (hp : d.state.phase = .admitting) (hf : d.state.fault = none) (hpoll : d.polls ≤ n)
    (hc : observes c = true ∧ d.polls < n ∨ c = .admitted) :
    Conforms n ({ d with replies := [], pending := [], polls := d.polls + 1 }.fold c) := by
  have hfit : c.fits d.state.phase = true := by
    rw [hp]
    rcases hc with ⟨hobs, -⟩ | rfl
    · cases c <;> first | rfl | cases hobs
    · rfl
  rcases reduces_driver (reduce_reduces d.state c) (by rw [hp]; decide) hfit with ⟨h1, h2, h3⟩ | ⟨h1, h2, h3⟩
  · exact .closing h1 h2 (h3 0 (by omega)) (Nat.succ_le_succ hpoll)
  · rcases h3 with ⟨hobs, hphase, hmore⟩ | ⟨hobs, _, haw⟩
    · refine .waiting (hphase.trans hp) (h2.trans hf) rfl hmore ?_
      rcases hc with ⟨-, hlt⟩ | rfl
      · exact hlt
      · cases hobs
    · exact .awaiting h1 (h2.trans hf) haw (Nat.succ_le_succ hpoll)

variable {replies' : List Command}

theorem Awaits.next (h : Awaits p replies (a :: rest))
    (hq : (replies' = replies ∧ silent a = true) ∨ ∃ c, replies' = replies ++ [c] ∧ (Serves a c ∨ c = .recordFailed ∧ recordable a = true))
    : Awaits p replies' rest := by
  rcases hq with ⟨rfl, hs⟩ | ⟨c, rfl, hs | ⟨rfl, hr⟩⟩
  · cases h with
    | notice p _ acts h => exact h
    | «continue» p turn _ acts h => exact h
    | advance turn => exact .probe
    | _ => cases hs
  · cases h with
    | select => cases c <;> first | exact .context _ | cases hs
    | probe => cases c <;> first | exact .control _ | cases hs
    | control signal => cases c <;> first | exact .probed _ _ | cases hs
    | call turn => cases c <;> first | exact .completed _ _ | exact .failed _ | cases hs
    | dispatch turn _ => cases c <;> first | exact .tools _ | cases hs
    | verify turn _ => cases c <;> first | exact .verdict _ | cases hs
    | steers turn => cases c <;> first | exact .steered _ | cases hs
    | brokenProbe p => cases c <;> first | exact .brokenControl _ _ | cases hs
    | brokenControl p signal => cases c <;> first | exact .brokenProbed _ _ _ | cases hs
    | _ => cases hs
  · cases h with
    | select => exact .broken _
    | advance turn => exact .brokenProbe _
    | _ => cases hr

theorem Closing.next (h : Closing replies.length (a :: rest)) (ha : ∀ o, a ≠ .finish o)
    (hq : (replies' = replies ∧ silent a = true) ∨ ∃ c, replies' = replies ++ [c] ∧ (Serves a c ∨ c = .recordFailed ∧ recordable a = true))
    : Closing replies'.length rest := by
  cases h with
  | finish o _ => cases ha o rfl
  | notice _ _ hq' hrest =>
    rcases hq with ⟨rfl, -⟩ | ⟨c, rfl, hs | ⟨rfl, hr⟩⟩
    · exact hrest
    · cases hs
    · cases hr
  | checkpoint _ o hq' =>
    rcases hq with ⟨rfl, -⟩ | ⟨c, rfl, -⟩
    · exact .finish o (by omega)
    · exact .finish o (by simp; omega)

/-- The submissions admit the run at poll `n`, after nothing but observations. -/
structure AdmitsAt (submissions : Nat → Option Command) (n : Nat) : Prop where
  observed : ∀ i < n, ∃ c, submissions i = some c ∧ observes c = true
  admitted : submissions n = some .admitted

theorem Conforms.step (hsub : AdmitsAt E.submissions n)
    (h : Conforms n d) (hs : Stepped E d d' none) : Conforms n d' := by
  cases hs with
  | reply c rest hpend hrep =>
    cases h with
    | waiting hp hf hr _ hpoll => rw [hrep] at hr; cases hr
    | awaiting hp hf ha hpoll =>
      rw [hpend, hrep] at ha
      exact conforms_reply hp hf ha hpoll
    | closing hp hf hc hpoll => rw [hpend] at hc; cases hc
  | polled c hpend hrep hcmd =>
    cases h with
    | waiting hp hf hr _ hpoll =>
      refine conforms_polled hp hf hpoll ?_
      rcases Nat.lt_or_eq_of_le hpoll with hlt | heq
      · obtain ⟨_, hc', hobs⟩ := hsub.observed _ hlt
        rw [hcmd] at hc'
        cases hc'
        exact .inl ⟨hobs, hlt⟩
      · rw [heq, hsub.admitted] at hcmd
        cases hcmd
        exact .inr rfl
    | awaiting hp hf ha hpoll => rw [hpend, hrep] at ha; exact ha.nonempty.elim
    | closing hp hf hc hpoll => rw [hpend] at hc; cases hc
  | routed a rest d' hpend ha hd =>
    have hR := dispatch_routed E { d with pending := rest, emitted := d.emitted + 1 } a ha
    rw [hd] at hR
    have hq : (d'.replies = d.replies ∧ silent a = true) ∨
        ∃ c, d'.replies = d.replies ++ [c] ∧ (Serves a c ∨ c = .recordFailed ∧ recordable a = true) :=
      hR.replies.imp (fun h => ⟨h.1, h.2 rfl⟩) (fun h => h.2)
    have hstate : d'.state = d.state := hR.state
    have hrest : d'.pending = rest := hR.pending
    have hpolls : d'.polls = d.polls := hR.polls
    cases h with
    | waiting hp hf hr hpend' hpoll => rw [hpend] at hpend'; cases hpend'
    | awaiting hp hf haw hpoll =>
      rw [hpend] at haw
      exact .awaiting (hstate ▸ hp) (hstate ▸ hf) (by rw [hstate, hrest]; exact haw.next hq) (hpolls ▸ hpoll)
    | closing hp hf hc hpoll =>
      rw [hpend] at hc
      exact .closing (hstate ▸ hp) (hstate ▸ hf) (by rw [hrest]; exact hc.next ha hq) (hpolls ▸ hpoll)

theorem Conforms.last {r : Except DriverError Outcome}
    (h : Conforms n d) (hsub : AdmitsAt E.submissions n) (hs : Stepped E d d' (some r)) :
    Conformed n d' ∧ (3 ≤ E.maxPendingReplies → r ≠ .error .replyQueueFull) := by
  have hd := h.conformed
  cases hs with
  | finished o rest m hp => exact ⟨⟨hd.1, hd.2, hd.3⟩, fun _ h => by cases h⟩
  | deaf rest m => exact ⟨⟨hd.1, hd.2, hd.3⟩, fun _ h => by cases h⟩
  | closed hpend hrep hnone =>
    cases h with
    | waiting hp hf hr _ hpoll =>
      rcases Nat.lt_or_eq_of_le hpoll with hlt | heq
      · obtain ⟨c, hc, -⟩ := hsub.observed _ hlt
        rw [hnone] at hc
        cases hc
      · rw [heq, hsub.admitted] at hnone
        cases hnone
    | awaiting hp hf ha hpoll => rw [hpend, hrep] at ha; exact ha.nonempty.elim
    | closing hp hf hc hpoll => rw [hpend] at hc; cases hc
  | refused a rest d' e hpend ha hdis =>
    have hR := dispatch_routed E { d with pending := rest, emitted := d.emitted + 1 } a ha
    rw [hdis] at hR
    have hrep : d'.replies = d.replies := hR.replies.elim (fun h => h.1) (fun h => by cases h.1)
    have hstate : d'.state = d.state := hR.state
    have hpolls : d'.polls = d.polls := hR.polls
    have hroom : d.replies.length ≤ 2 := by
      cases h with
      | waiting hp hf hr _ hpoll => rw [hr]; simp
      | awaiting hp hf haw hpoll => rw [hpend] at haw; exact haw.room
      | closing hp hf hc hpoll => rw [hpend] at hc; exact hc.room ha
    refine ⟨⟨by rw [hstate]; exact hd.1, by rw [hrep]; exact hd.2, by rw [hpolls]; exact hd.3⟩, fun hbound hfull => ?_⟩
    cases hfull
    have hle : E.maxPendingReplies ≤ d.replies.length := hR.full rfl
    omega

/-- **The driver conforms to the reducer's protocol**: fed observations, one admission and then anything, over any
ports, a run never ends in a protocol violation, never holds more than three replies, so that a bound of three is never
met, and polls no submission after the admission. -/
theorem driver_conforms (E : DriverEnv σ) (n : Nat) (hsub : AdmitsAt E.submissions n) (limits : TurnLimits)
    (verifyGate : Bool) (turn : UInt32) (w : σ) (s : TurnState)
    (hs : s = .new limits verifyGate ∨ s = .resumedAt limits verifyGate turn) (fuel : Nat) :
    ((new s w).runFor E fuel).1.state.fault ≠ some .protocolViolation ∧ ((new s w).runFor E fuel).1.replies.length ≤ 3 ∧
    ((new s w).runFor E fuel).1.polls ≤ n + 1 ∧
    (3 ≤ E.maxPendingReplies → ((new s w).runFor E fuel).2 ≠ some (.error .replyQueueFull)) := by
  have hstart : Conforms n (new s w) := by
    rcases hs with rfl | rfl
    · exact .waiting rfl rfl rfl rfl (Nat.zero_le n)
    · exact .waiting rfl rfl rfl rfl (Nat.zero_le n)
  have hrun := runFor_induction (E := E) (P := Conforms n)
    (Q := fun d r => Conformed n d ∧ (3 ≤ E.maxPendingReplies → r ≠ some (.error .replyQueueFull)))
    (fun d d' hd hstep => hd.step hsub hstep)
    (fun d d' r hd hstep => ⟨(hd.last hsub hstep).1, fun hb hr => (hd.last hsub hstep).2 hb (Option.some.inj hr)⟩)
    (fun d hd => ⟨hd.conformed, fun _ h => by cases h⟩) fuel (new s w) hstart
  exact ⟨hrun.1.1, hrun.1.2, hrun.1.3, hrun.2⟩

/-- A drain observed before the admission, and a second admission nobody reads. -/
def drainThenAdmit : DriverEnv Unit :=
  { ports := brokenCheckpoint, submissions := fun i => [Command.controlObserved .drain, .admitted, .admitted][i]?,
    accepts := fun _ => true, maxPendingReplies := 3 }

theorem driver_conforms_drain : AdmitsAt drainThenAdmit.submissions 1 ∧
    ((new (.new {} true) ()).runFor drainThenAdmit 20).2 = some (.ok .drained) ∧
    ((new (.new {} true) ()).runFor drainThenAdmit 20).1.state.fault ≠ some .protocolViolation ∧
    ((new (.new {} true) ()).runFor drainThenAdmit 20).1.polls ≤ 2 := by
  have hsub : AdmitsAt drainThenAdmit.submissions 1 := by
    refine ⟨fun i hi => ⟨.controlObserved .drain, ?_, rfl⟩, rfl⟩
    obtain rfl : i = 0 := by omega
    rfl
  have hrun := driver_conforms drainThenAdmit 1 hsub {} true 0 () (.new {} true) (.inl rfl) 20
  exact ⟨hsub, by decide, hrun.1, hrun.2.2.1⟩

end TurnDriver
end Iteron.Kernel
