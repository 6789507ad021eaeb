import Iteron.TurnReduce
import Mathlib.Data.List.Induction
/-!
# TurnTrace — what the reducer emits over a whole command stream

`Reduces` lists everything one command can do to a turn.  The stream results follow from it by extending the stream one
command at a time, so nothing below unfolds `reduce` again; `TraceSafe` collects them.
-/
namespace Iteron.Kernel

def ActionRequest.closing : ActionRequest → Bool
  | .checkpoint _ | .finish _ => true
  | _ => false

def ActionRequest.isCall : ActionRequest → Bool
  | .callProvider _ => true
  | _ => false

/-- The commands a phase is prepared for; the observations fit every phase. -/
def Command.fits : Command → TurnPhase → Bool
  | .recordFailed, _ | .unresolvedEffectsObserved _, _ | .controlObserved _, _ => true
  | .admitted, .admitting => true
  | .contextResolved _, .awaitingContext => true
  | .budgetSampled _, .boundary => true
  | .providerCompleted .., .awaitingProvider => true
  | .providerFailed _, .awaitingProvider => true
  | .toolsCompleted _, .awaitingTools => true
  | .verifyCompleted _, .awaitingVerify => true
  | .steered _, .settling => true
  | _, _ => false

/-- The actions that close a turn and open the next, after the notices of `pre`. -/
def continues (turn : UInt32) (pre : Actions) : Actions := pre ++ advanceAndProbe turn

/-- **Everything `reduce` can do.** -/
inductive Reduces (s : TurnState) : Command → TurnState → Actions → Prop
  /-- A finished run absorbs the command. -/
  | absorbed (c : Command) : s.phase = .finished → Reduces s c s []
  | observed (signal : ControlSignal) : s.phase ≠ .finished →
      Reduces s (.controlObserved signal) { s with control := s.control.latch signal } []
  | resolved : s.phase ≠ .finished →
      Reduces s (.unresolvedEffectsObserved 0) { s with unresolvedEffects := 0 } []
  | admitted : s.phase = .admitting →
      Reduces s .admitted { s with phase := .awaitingContext } [.selectContext]
  | context (grant : ContextGrant) : s.phase = .awaitingContext →
      Reduces s (.contextResolved grant) { s with phase := .boundary } boundaryProbe
  | called : s.phase = .boundary → s.control = .none → s.turnCeilingReached = false →
      Reduces s (.budgetSampled none) { s with phase := .awaitingProvider } [.callProvider s.turn]
  | tools (calls : UInt32) : s.phase = .awaitingProvider →
      Reduces s (.providerCompleted .toolUse calls)
        { s with completedTurns := saturatingSucc s.completedTurns, phase := .awaitingTools }
        [.dispatchTools s.turn calls]
  | verify (calls : UInt32) : s.phase = .awaitingProvider →
      Reduces s (.providerCompleted .endTurn calls)
        { s with completedTurns := saturatingSucc s.completedTurns, phase := .awaitingVerify }
        [.runVerify s.turn s.verifyAttempts]
  | answered (calls : UInt32) : s.phase = .awaitingProvider → s.verifyGate = false →
      Reduces s (.providerCompleted .endTurn calls)
        { s with completedTurns := saturatingSucc s.completedTurns, phase := .settling } [.admitSteers s.turn]
  | resampled (termination : ProviderTermination) (calls : UInt32) (notice : NoticeKind) (reason : ContinueReason) :
      s.phase = .awaitingProvider →
      Reduces s (.providerCompleted termination calls)
        (nextTurn { s with completedTurns := saturatingSucc s.completedTurns })
        (continues s.turn [.notice notice, .continue s.turn reason])
  | toolsDone (anyError : Bool) (errors : UInt32) : s.phase = .awaitingTools →
      Reduces s (.toolsCompleted anyError) (nextTurn { s with consecutiveToolErrors := errors }) (continues s.turn [])
  | passed : s.phase = .awaitingVerify →
      Reduces s (.verifyCompleted .pass) { s with phase := .settling } [.notice .verifyPassed, .admitSteers s.turn]
  | retried (attempts : UInt32) : s.phase = .awaitingVerify →
      Reduces s (.verifyCompleted .testFailure) (nextTurn { s with verifyAttempts := attempts })
        (continues s.turn [.notice .verifyTestFailure, .continue s.turn .verifyFeedback])
  | steered (count : UInt32) : s.phase = .settling → s.control = .none →
      Reduces s (.steered count) (nextTurn s) (continues s.turn [.continue s.turn .steered])
  | done : s.phase = .settling → s.control = .none →
      Reduces s (.steered 0) (s.finished .done none) [.finish .done]
  | drained (c : Command) : s.phase ≠ .finished → s.control = .drain →
      Reduces s c (s.finished .drained none) [.checkpoint s.turn, .finish .drained]
  /-- Every other end of a run; `s'` is `s` but for its counters and observations. -/
  | stopped (c : Command) (s' : TurnState) (outcome : Outcome) (fault : Option HarnessFault)
      (notice : Option NoticeKind) : s.phase ≠ .finished → s'.limits = s.limits → s'.verifyGate = s.verifyGate →
      outcome ≠ .done → outcome ≠ .drained → (fault = some .protocolViolation → c.fits s.phase = false) →
      Reduces s c (s'.finished outcome fault) (notice.toList.map .notice ++ [ActionRequest.finish outcome])

variable {s s' : TurnState} {c : Command}

theorem reduces_finishWith {outcome : Outcome} {fault : Option HarnessFault}
    {notice : Option NoticeKind} (hp : s.phase ≠ .finished) (hl : s'.limits = s.limits)
    (hg : s'.verifyGate = s.verifyGate) (h1 : outcome ≠ .done) (h2 : outcome ≠ .drained)
    (hv : fault ≠ some .protocolViolation) :
    Reduces s c (finishWith s' outcome fault notice).1 (finishWith s' outcome fault notice).2 :=
  .stopped c s' outcome fault notice hp hl hg h1 h2 (fun h => absurd h hv)

theorem reduces_protocolViolation (hp : s.phase ≠ .finished)
    (hc : c.fits s.phase = false) : Reduces s c (protocolViolation s).1 (protocolViolation s).2 :=
  .stopped c s .harnessError (some .protocolViolation) none hp rfl rfl (by decide) (by decide) (fun _ => hc)

theorem reduces_undecodable (hp : s.phase ≠ .finished) (hl : s'.limits = s.limits)
    (hg : s'.verifyGate = s.verifyGate) : Reduces s c (undecodable s').1 (undecodable s').2 :=
  reduces_finishWith hp hl hg (by decide) (by decide) (by decide)

theorem reduces_boundaryDecision {ceiling : Option BudgetCeiling} (hp : s.phase = .boundary) :
    Reduces s (.budgetSampled ceiling) (boundaryDecision s ceiling).1 (boundaryDecision s ceiling).2 := by
  have hf : s.phase ≠ .finished := by rw [hp]; decide
  unfold boundaryDecision
  split
  · exact reduces_finishWith hf rfl rfl (by decide) (by decide) (by decide)
  · split
    · exact reduces_finishWith hf rfl rfl (by decide) (by decide) (by decide)
    · cases hc : s.control with
      | drain =>
        have hs : { s with control := .drain } = s := by rw [← hc]
        simp only [hs]
        exact .drained _ hf hc
      | interrupt => exact reduces_finishWith hf rfl rfl (by decide) (by decide) (by decide)
      | none =>
        cases ceiling with
        | some c => exact reduces_finishWith hf rfl rfl (fun h => by cases h) (fun h => by cases h) (by decide)
        | none =>
          simp only
          split
          · exact reduces_finishWith hf rfl rfl (fun h => by cases h) (fun h => by cases h) (by decide)
          · rename_i hceil
            split
            · exact reduces_finishWith hf rfl rfl (by decide) (by decide) (by decide)
            · have hcalled := Reduces.called hp hc (by simpa using hceil)
              rw [hc] at hcalled
              exact hcalled

theorem reduces_providerCompleted {termination : ProviderTermination} {calls : UInt32} (hp : s.phase = .awaitingProvider) :
    Reduces s (.providerCompleted termination calls) (providerCompleted s termination calls).1
      (providerCompleted s termination calls).2 := by
  have hf : s.phase ≠ .finished := by rw [hp]; decide
  unfold providerCompleted
  split
  · split
    · exact reduces_undecodable hf rfl rfl
    · rename_i ht
      obtain rfl : termination = .toolUse := not_not.1 ht
      exact .tools calls hp
  · cases termination with
    | endTurn =>
      simp only
      split
      · exact .verify calls hp
      · rename_i hg
        exact .answered calls hp (by simpa using hg)
    | maxTokens => exact .resampled _ _ _ _ hp
    | pauseTurn => exact .resampled _ _ _ _ hp
    | toolUse => exact reduces_undecodable hf rfl rfl
    | stopSequence => exact reduces_undecodable hf rfl rfl
    | refusal => exact reduces_undecodable hf rfl rfl
    | unknown => exact reduces_undecodable hf rfl rfl

theorem reduces_providerFailed {failure : ProviderFailure} (hp : s.phase = .awaitingProvider) :
    Reduces s (.providerFailed failure) (providerFailed s failure).1 (providerFailed s failure).2 := by
  have hf : s.phase ≠ .finished := by rw [hp]; decide
  cases failure with
  | deadlineExceeded => exact reduces_finishWith hf rfl rfl (fun h => by cases h) (fun h => by cases h) (by decide)
  | interrupted => exact reduces_finishWith hf rfl rfl (by decide) (by decide) (by decide)
  | rejected => exact reduces_undecodable hf rfl rfl
  | unobservable => exact reduces_undecodable hf rfl rfl

theorem reduces_verifyCompleted {outcome : VerifyOutcome} (hp : s.phase = .awaitingVerify) :
    Reduces s (.verifyCompleted outcome) (verifyCompleted s outcome).1 (verifyCompleted s outcome).2 := by
  have hf : s.phase ≠ .finished := by rw [hp]; decide
  cases outcome with
  | pass => exact .passed hp
  | testFailure =>
    simp only [verifyCompleted]
    split
    · exact reduces_finishWith hf rfl rfl (fun h => by cases h) (fun h => by cases h) (by decide)
    · exact .retried _ hp
  | timedOut => exact reduces_finishWith hf rfl rfl (fun h => by cases h) (fun h => by cases h) (by decide)
  | infrastructureFailure => exact reduces_finishWith hf rfl rfl (by decide) (by decide) (by decide)
  | cancelled => exact reduces_finishWith hf rfl rfl (by decide) (by decide) (by decide)

theorem reduces_settle {count : UInt32} (hp : s.phase = .settling) :
    Reduces s (.steered count) (settle s count).1 (settle s count).2 := by
  have hf : s.phase ≠ .finished := by rw [hp]; decide
  unfold settle
  cases hc : s.control with
  | drain => exact .drained _ hf hc
  | interrupt => exact reduces_finishWith hf rfl rfl (by decide) (by decide) (by decide)
  | none =>
    simp only
    split
    · exact .steered count hp hc
    · rename_i hz
      obtain rfl : count = 0 := by
        have : count.toNat = 0 := by
          rw [gt_iff_lt, UInt32.lt_iff_toNat_lt] at hz
          simpa using hz
        exact UInt32.toNat.inj this
      exact .done hp hc

/-- **`reduce` does one of the things `Reduces` lists.** -/
theorem reduce_reduces (s : TurnState) (c : Command) : Reduces s c (reduce s c).1 (reduce s c).2 := by
  unfold reduce
  by_cases hfin : s.phase = .finished
  · simp only [TurnState.isFinished, hfin, beq_self_eq_true, if_true]
    exact .absorbed c hfin
  · simp only [TurnState.isFinished, beq_eq_false_iff_ne.2 hfin, Bool.false_eq_true, if_false]
    split
    · exact reduces_finishWith hfin rfl rfl (by decide) (by decide) (by decide)
    · split
      · rename_i hz
        subst hz
        exact .resolved hfin
      · exact reduces_finishWith hfin rfl rfl (by decide) (by decide) (by decide)
    · exact .observed _ hfin
    · exact .admitted ‹_›
    · exact .context _ ‹_›
    · exact reduces_boundaryDecision ‹_›
    · exact reduces_providerCompleted ‹_›
    · exact reduces_providerFailed ‹_›
    · exact .toolsDone _ _ ‹_›
    · exact reduces_verifyCompleted ‹_›
    · exact reduces_settle ‹_›
    · refine reduces_protocolViolation hfin ?_
      unfold Command.fits
      split <;> simp_all

/-! ## Streams -/

/-- Fold a command stream: the state it reaches and every action it emits. -/
def foldReduce (s : TurnState) (commands : List Command) : TurnState × Actions :=
  commands.foldl (fun acc c => ((reduce acc.1 c).1, acc.2 ++ (reduce acc.1 c).2)) (s, [])

theorem foldReduce_concat (s : TurnState) (commands : List Command) (c : Command) : foldReduce s (commands ++ [c]) =
      ((reduce (foldReduce s commands).1 c).1, (foldReduce s commands).2 ++ (reduce (foldReduce s commands).1 c).2) := by
  unfold foldReduce
  rw [List.foldl_append]
  rfl

/-- **The invariant rule of a stream**: what holds before any command and survives one more holds of every stream. -/
theorem foldReduce_induction {P : List Command → TurnState → Actions → Prop} (h0 : P [] s [])
    (hstep : ∀ (commands : List Command) (c : Command) (t t' : TurnState) (acts more : Actions),
      P commands t acts → Reduces t c t' more → P (commands ++ [c]) t' (acts ++ more))
    (commands : List Command) : P commands (foldReduce s commands).1 (foldReduce s commands).2 := by
  induction commands using List.reverseRecOn with
  | nil => exact h0
  | append_singleton commands c ih =>
    rw [foldReduce_concat]
    exact hstep commands c _ _ _ _ ih (reduce_reduces _ c)

theorem foldReduce_append (s : TurnState) (first rest : List Command) : foldReduce s (first ++ rest) =
      ((foldReduce (foldReduce s first).1 rest).1, (foldReduce s first).2 ++ (foldReduce (foldReduce s first).1 rest).2) := by
  induction rest using List.reverseRecOn with
  | nil => simp [foldReduce]
  | append_singleton rest c ih =>
    rw [← List.append_assoc, foldReduce_concat, ih, foldReduce_concat, List.append_assoc]

/-! ## How a run ends -/

/-- Nothing of `acts` closes the run. -/
def Open (acts : Actions) : Prop := ∀ a ∈ acts, a.closing = false

variable {acts more : Actions}

theorem Open.append (h : Open acts) (h' : Open more) : Open (acts ++ more) :=
  fun a ha => (List.mem_append.1 ha).elim (h a) (h' a)

theorem Open.finish_notMem (h : Open acts) (o : Outcome) : .finish o ∉ acts :=
  fun hmem => by cases h _ hmem

theorem Open.checkpoint_notMem (h : Open acts) (n : UInt32) : .checkpoint n ∉ acts :=
  fun hmem => by cases h _ hmem

/-- What a stream has emitted: actions that close nothing and, once it finished, the closing of its outcome. -/
inductive Ended (t : TurnState) : Actions → Prop
  | running {acts : Actions} : t.phase ≠ .finished → t.outcome = none → Open acts → Ended t acts
  | drained {acts : Actions} (n : UInt32) : t.phase = .finished → t.outcome = some .drained → Open acts →
      Ended t (acts ++ [ActionRequest.checkpoint n, .finish .drained])
  | stopped {acts : Actions} (o : Outcome) : t.phase = .finished → t.outcome = some o → o ≠ .drained → Open acts →
      Ended t (acts ++ [ActionRequest.finish o])

theorem Reduces.absorb (h : Reduces s c s' more) (hf : s.phase = .finished) : s' = s ∧ more = [] := by
  cases h <;> first | exact ⟨rfl, rfl⟩ | simp_all

theorem Reduces.ended (h : Reduces s c s' more) (hf : s.phase ≠ .finished) (ho : s.outcome = none) : Ended s' more := by
  have hopen : ∀ acts : Actions, acts.all (fun a => !a.closing) = true → Open acts :=
    fun acts hall a ha => by simpa using List.all_eq_true.1 hall a ha
  cases h with
  | absorbed c hp => exact absurd hp hf
  | drained c hp hc => exact @Ended.drained _ [] s.turn rfl rfl (hopen _ rfl)
  | done hp hc => exact @Ended.stopped _ [] .done rfl rfl (by decide) (hopen _ rfl)
  | stopped c s' o f n hp _ _ _ h2 _ => exact .stopped o rfl rfl h2 (hopen _ (by cases n <;> rfl))
  | observed _ hp => exact .running hp ho (hopen _ rfl)
  | resolved hp => exact .running hp ho (hopen _ rfl)
  | _ => exact .running (fun hp => by cases hp) ho (hopen _ rfl)

theorem ended_foldReduce (hf : s.phase ≠ .finished) (ho : s.outcome = none)
    (commands : List Command) : Ended (foldReduce s commands).1 (foldReduce s commands).2 := by
  refine foldReduce_induction (P := fun _ t acts => Ended t acts) ?_ ?_ commands
  · exact .running hf ho (fun a ha => by cases ha)
  · intro commands c t t' acts more hE hR
    cases hE with
    | running hf' ho' hopen =>
      cases hR.ended hf' ho' with
      | running hf'' ho'' hmore => exact .running hf'' ho'' (hopen.append hmore)
      | drained n hp hd hmore => rw [← List.append_assoc]; exact .drained n hp hd (hopen.append hmore)
      | stopped o hp hd hne hmore => rw [← List.append_assoc]; exact .stopped o hp hd hne (hopen.append hmore)
    | drained n hp hd hopen =>
      obtain ⟨rfl, rfl⟩ := hR.absorb hp
      rw [List.append_nil]
      exact .drained n hp hd hopen
    | stopped o hp hd hne hopen =>
      obtain ⟨rfl, rfl⟩ := hR.absorb hp
      rw [List.append_nil]
      exact .stopped o hp hd hne hopen

variable {α : Type}

theorem split_behind {a b : α} : ∀ {acts first more rest : List α}, a ∉ acts →
    acts ++ b :: more = first ++ a :: rest → (b = a ∧ more = rest) ∨ ∃ mid, more = mid ++ a :: rest
  | [], [], _, _, _, h => .inl (List.cons.inj h)
  | [], _ :: first, _, _, _, h => .inr ⟨first, (List.cons.inj h).2⟩
  | _ :: _, [], _, _, ha, h => absurd (List.cons.inj h).1 (fun heq => ha (heq ▸ List.mem_cons_self))
  | _ :: _, _ :: _, _, _, ha, h =>
    split_behind (fun hmem => ha (.tail _ hmem)) (List.cons.inj h).2

theorem singleton_split {a b : α} {mid rest : List α} (h : [b] = mid ++ a :: rest) : b = a ∧ rest = [] := by
  cases mid with
  | nil => exact ⟨(List.cons.inj h).1, (List.cons.inj h).2.symm⟩
  | cons x _ => simp at h

variable {t : TurnState}

theorem Ended.finish_last (h : Ended t acts) {first rest : Actions} {o : Outcome}
    (hs : acts = first ++ .finish o :: rest) : t.outcome = some o ∧ rest = [] := by
  cases h with
  | running _ _ hopen => exact absurd (by rw [hs]; simp) (hopen.finish_notMem o)
  | drained n hp hd hopen =>
    rcases split_behind (hopen.finish_notMem o) hs with ⟨hne, -⟩ | ⟨mid, hmid⟩
    · cases hne
    · obtain ⟨heq, hrest⟩ := singleton_split hmid
      cases heq
      exact ⟨hd, hrest⟩
  | stopped _ hp hd hne hopen =>
    rcases split_behind (hopen.finish_notMem o) hs with ⟨heq, hrest⟩ | ⟨mid, hmid⟩
    · cases heq
      exact ⟨hd, hrest.symm⟩
    · simp at hmid

variable {n : UInt32}

theorem Ended.checkpoint_then (h : Ended t acts) {first rest : Actions} (hs : acts = first ++ .checkpoint n :: rest) :
    t.outcome = some .drained ∧ rest = [.finish .drained] := by
  cases h with
  | running _ _ hopen => exact absurd (by rw [hs]; simp) (hopen.checkpoint_notMem n)
  | drained _ hp hd hopen =>
    rcases split_behind (hopen.checkpoint_notMem n) hs with ⟨-, hrest⟩ | ⟨mid, hmid⟩
    · exact ⟨hd, hrest.symm⟩
    · cases (singleton_split hmid).1
  | stopped o hp hd _ hopen =>
    rcases split_behind (hopen.checkpoint_notMem n) hs with ⟨heq, -⟩ | ⟨mid, hmid⟩
    · cases heq
    · simp at hmid

theorem Ended.checkpoint_iff (h : Ended t acts) : (∃ n, .checkpoint n ∈ acts) ↔ t.outcome = some .drained := by
  constructor
  · rintro ⟨n, hmem⟩
    obtain ⟨_, _, hs⟩ := List.append_of_mem hmem
    exact (h.checkpoint_then hs).1
  · intro hd
    cases h with
    | running _ ho hopen => rw [ho] at hd; cases hd
    | drained n hp ho hopen => exact ⟨n, by simp⟩
    | stopped o hp ho hne hopen => rw [ho] at hd; exact absurd (Option.some.inj hd) hne

/-! ## Stops -/

/-- The commands after which no model call may be requested. -/
def Command.stops : Command → Bool
  | .recordFailed => true
  | .unresolvedEffectsObserved count => count != 0
  | .controlObserved signal => signal != .none
  | _ => false

def Halting (t : TurnState) : Prop := t.phase = .finished ∨ t.control ≠ .none

theorem latch_ne_none {s observed : ControlSignal} (h : s ≠ .none ∨ observed ≠ .none) : s.latch observed ≠ .none := by
  cases s <;> cases observed <;> simp_all [ControlSignal.latch, ControlSignal.rank]

theorem notice_isCall (notice : Option NoticeKind) (o : Outcome) :
    ∀ a ∈ notice.toList.map ActionRequest.notice ++ [.finish o], a.isCall = false := by
  cases notice <;> simp [ActionRequest.isCall]

theorem Reduces.halting (h : Reduces s c s' more) (hs : Halting s) : Halting s' ∧ ∀ a ∈ more, a.isCall = false := by
  cases h with
  | absorbed c hp => exact ⟨hs, fun a ha => by cases ha⟩
  | called hp hc => rcases hs with hf | _ <;> simp_all
  | observed _ hp =>
    exact ⟨.inr (latch_ne_none (hs.elim (fun hf => absurd hf hp) .inl)), fun a ha => by cases ha⟩
  | resolved hp => exact ⟨hs, fun a ha => by cases ha⟩
  | stopped c s' o f n hp _ _ _ _ _ => exact ⟨.inl rfl, notice_isCall n o⟩
  | drained c hp hc => exact ⟨.inl rfl, by simp [ActionRequest.isCall]⟩
  | done hp hc => exact ⟨.inl rfl, by simp [ActionRequest.isCall]⟩
  | _ =>
    refine ⟨.inr (hs.elim (fun hf => by simp_all) id), ?_⟩
    simp [ActionRequest.isCall, boundaryProbe, continues, advanceAndProbe]

theorem Reduces.stop {s s' : TurnState} {c : Command} {more : Actions} (h : Reduces s c s' more)
    (hc : c.stops = true) : Halting s' ∧ ∀ a ∈ more, a.isCall = false := by
  cases h with
  | absorbed c hp => exact ⟨.inl hp, fun a ha => by cases ha⟩
  | observed _ hp =>
    exact ⟨.inr (latch_ne_none (.inr (by simpa [Command.stops] using hc))), fun a ha => by cases ha⟩
  | stopped c s' o f n hp _ _ _ _ _ => exact ⟨.inl rfl, notice_isCall n o⟩
  | drained c hp _ => exact ⟨.inl rfl, by simp [ActionRequest.isCall]⟩
  | _ => cases hc

theorem foldReduce_halting (hs : Halting s) (commands : List Command) :
    ∀ a ∈ (foldReduce s commands).2, a.isCall = false := by
  refine (foldReduce_induction (P := fun _ t acts => Halting t ∧ ∀ a ∈ acts, a.isCall = false)
    ⟨hs, fun a ha => by cases ha⟩ ?_ commands).2
  intro commands c t t' acts more hP hR
  obtain ⟨hh, hmore⟩ := hR.halting hP.1
  exact ⟨hh, fun a ha => (List.mem_append.1 ha).elim (hP.2 a) (hmore a)⟩

/-- **No model call after a stop.** -/
theorem foldReduce_stop (s : TurnState) (first rest : List Command) (c : Command) (hc : c.stops = true) :
    ∃ more, (foldReduce s (first ++ c :: rest)).2 = (foldReduce s first).2 ++ more ∧ ∀ a ∈ more, a.isCall = false := by
  refine ⟨_, congrArg Prod.snd (foldReduce_append s first (c :: rest)), ?_⟩
  obtain ⟨hh, hacts⟩ := (reduce_reduces (foldReduce s first).1 c).stop hc
  have hcons := foldReduce_append (foldReduce s first).1 [c] rest
  rw [List.singleton_append] at hcons
  rw [hcons]
  intro a ha
  rcases List.mem_append.1 ha with ha | ha
  · exact hacts a (by simpa [foldReduce] using ha)
  · exact foldReduce_halting (s := (foldReduce (foldReduce s first).1 [c]).1) hh rest a ha

/-! ## Model calls are paid for by completed turns -/

variable {max : UInt32}

theorem saturatingSucc_toNat (h : n < max) : (saturatingSucc n).toNat = n.toNat + 1 := by
  have hmax := max.toNat_lt
  rw [UInt32.lt_iff_toNat_lt] at h
  have hne : n ≠ 4294967295 := by
    rintro rfl
    simp at h
    omega
  unfold saturatingSucc
  rw [if_neg hne, UInt32.toNat_add]
  simp
  omega

/-- Under a turn ceiling every call so far is a completed turn, but for the one awaited. -/
structure CallsFit (max : UInt32) (t : TurnState) (calls : Nat) : Prop where
  limit : t.limits.maxTurns = max
  awaited : t.phase = .awaitingProvider → calls ≤ t.completedTurns.toNat + 1 ∧ t.completedTurns < max
  completed : t.phase ≠ .awaitingProvider → t.phase ≠ .finished → calls ≤ t.completedTurns.toNat
  bounded : calls ≤ max.toNat

variable {calls : Nat}

theorem CallsFit.paid (h : CallsFit max s calls) (hp : s.phase = .awaitingProvider) :
    calls ≤ (saturatingSucc s.completedTurns).toNat := by
  obtain ⟨hle, hlt⟩ := h.awaited hp
  rw [saturatingSucc_toNat hlt]
  exact hle

theorem Reduces.callsFit (hmax : max ≠ unlimitedTurns) (h : Reduces s c s' more) (hc : CallsFit max s calls) :
    CallsFit max s' (calls + more.countP ActionRequest.isCall) := by
  have hkeep : ∀ t : TurnState, t.limits = s.limits → t.completedTurns = s.completedTurns → t.phase = s.phase →
      CallsFit max t calls := fun t h1 h2 h3 =>
    ⟨by rw [h1]; exact hc.limit, by rw [h2, h3]; exact hc.awaited, by rw [h2, h3]; exact hc.completed, hc.bounded⟩
  -- leaving a phase that awaits no model call, for another such phase
  have hmove : ∀ t : TurnState, s.phase ≠ .awaitingProvider → s.phase ≠ .finished → t.limits = s.limits →
      t.completedTurns = s.completedTurns → t.phase ≠ .awaitingProvider → CallsFit max t calls :=
    fun t h1 h2 h3 h4 h5 => ⟨by rw [h3]; exact hc.limit, fun h => absurd h h5,
      fun _ _ => by rw [h4]; exact hc.completed h1 h2, hc.bounded⟩
  have hpay : ∀ t : TurnState, s.phase = .awaitingProvider → t.limits = s.limits →
      t.completedTurns = saturatingSucc s.completedTurns → t.phase ≠ .awaitingProvider → CallsFit max t calls :=
    fun t h1 h2 h3 h4 => ⟨by rw [h2]; exact hc.limit, fun h => absurd h h4,
      fun _ _ => by rw [h3]; exact hc.paid h1, hc.bounded⟩
  cases h with
  | absorbed c hp => exact hkeep s rfl rfl rfl
  | observed _ hp => exact hkeep _ rfl rfl rfl
  | resolved hp => exact hkeep _ rfl rfl rfl
  | admitted hp => exact hmove _ (by simp [hp]) (by simp [hp]) rfl rfl (by simp)
  | context _ hp => exact hmove _ (by simp [hp]) (by simp [hp]) rfl rfl (by simp)
  | toolsDone _ _ hp => exact hmove _ (by simp [hp]) (by simp [hp]) rfl rfl (by simp [nextTurn])
  | passed hp => exact hmove _ (by simp [hp]) (by simp [hp]) rfl rfl (by simp)
  | retried _ hp => exact hmove _ (by simp [hp]) (by simp [hp]) rfl rfl (by simp [nextTurn])
  | steered _ hp hn => exact hmove _ (by simp [hp]) (by simp [hp]) rfl rfl (by simp [nextTurn])
  | tools calls hp => exact hpay _ hp rfl rfl (by simp)
  | verify calls hp => exact hpay _ hp rfl rfl (by simp)
  | answered calls hp hg => exact hpay _ hp rfl rfl (by simp)
  | resampled _ calls _ _ hp => exact hpay _ hp rfl rfl (by simp [nextTurn])
  | called hp hn hceil =>
    have hle := hc.completed (by simp [hp]) (by simp [hp])
    have hlt : s.completedTurns < max := by
      rw [← hc.limit]
      rw [TurnState.turnCeilingReached, hc.limit, Bool.and_eq_false_iff] at hceil
      rcases hceil with hu | hd
      · exact absurd (by simpa using hu) hmax
      · rw [hc.limit]
        simpa using hd
    refine ⟨hc.limit, fun _ => ⟨by simpa [ActionRequest.isCall] using hle, hlt⟩, fun h => absurd rfl h, ?_⟩
    rw [UInt32.lt_iff_toNat_lt] at hlt
    simp only [List.countP_singleton, ActionRequest.isCall, if_true]
    omega
  | done hp hn =>
    exact ⟨hc.limit, fun h => (by cases h), fun _ h => absurd rfl h, hc.bounded⟩
  | drained c hp hn =>
    exact ⟨hc.limit, fun h => (by cases h), fun _ h => absurd rfl h, hc.bounded⟩
  | stopped c s' o f n hp hl hg h1 h2 _ =>
    have hz : (n.toList.map ActionRequest.notice ++ [ActionRequest.finish o]).countP ActionRequest.isCall = 0 :=
      List.countP_eq_zero.2 (fun a ha => by simp [notice_isCall n o a ha])
    rw [hz]
    exact ⟨by rw [← hc.limit, ← hl]; rfl, fun h => (by cases h), fun _ h => absurd rfl h, hc.bounded⟩

theorem foldReduce_calls (hp : s.phase = .admitting) (hmax : s.limits.maxTurns ≠ unlimitedTurns)
    (commands : List Command) : (foldReduce s commands).2.countP ActionRequest.isCall ≤ s.limits.maxTurns.toNat := by
  refine (foldReduce_induction
    (P := fun _ t acts => CallsFit s.limits.maxTurns t (acts.countP ActionRequest.isCall)) ?_ ?_ commands).bounded
  · exact ⟨rfl, fun h => absurd (hp.symm.trans h) (by decide), fun _ _ => Nat.zero_le _, Nat.zero_le _⟩
  · intro commands c t t' acts more hP hR
    rw [List.countP_append]
    exact hR.callsFit hmax hP

/-! ## How a run reaches `done` -/

def Command.isCompletion : Command → Bool
  | .providerCompleted .. => true
  | _ => false

/-- The commands after the last provider completion of the stream. -/
def SinceCompletion (commands after : List Command) : Prop :=
  ∃ before termination calls, commands = before ++ .providerCompleted termination calls :: after ∧
    ∀ c ∈ after, c.isCompletion = false

theorem SinceCompletion.concat {commands after : List Command} (h : SinceCompletion commands after)
    (hc : c.isCompletion = false) : SinceCompletion (commands ++ [c]) (after ++ [c]) := by
  obtain ⟨before, termination, calls, rfl, hafter⟩ := h
  refine ⟨before, termination, calls, by simp, fun x hx => ?_⟩
  rcases List.mem_append.1 hx with hx | hx
  · exact hafter x hx
  · rw [List.mem_singleton.1 hx]
    exact hc

theorem sinceCompletion_completed (commands : List Command) (termination : ProviderTermination) (calls : UInt32) :
    SinceCompletion (commands ++ [.providerCompleted termination calls]) [] :=
  ⟨commands, termination, calls, rfl, fun c hc => by cases hc⟩

/-- Behind a gate, a turn awaits its verdict after a completion and settles only after a pass. -/
structure Graded (gate : Bool) (commands : List Command) (t : TurnState) : Prop where
  gate_kept : t.verifyGate = gate
  awaiting : t.phase = .awaitingVerify → ∃ after, SinceCompletion commands after
  passed : t.phase = .settling → gate = true → ∃ after, SinceCompletion commands after ∧ .verifyCompleted .pass ∈ after

theorem Reduces.graded {gate : Bool} {commands : List Command}
    (h : Reduces s c s' more) (hg : Graded gate commands s) : Graded gate (commands ++ [c]) s' := by
  -- a phase that neither awaits a verdict nor settles owes no history
  have hfree : ∀ t : TurnState, t.verifyGate = s.verifyGate → t.phase ≠ .awaitingVerify → t.phase ≠ .settling →
      Graded gate (commands ++ [c]) t := fun t h1 h2 h3 =>
    ⟨h1.trans hg.gate_kept, fun h => absurd h h2, fun h => absurd h h3⟩
  have hkeep : ∀ t : TurnState, t.verifyGate = s.verifyGate → t.phase = s.phase → c.isCompletion = false →
      Graded gate (commands ++ [c]) t := by
    intro t h1 h2 h3
    refine ⟨h1.trans hg.gate_kept, fun h => ?_, fun h hgate => ?_⟩
    · obtain ⟨after, ha⟩ := hg.awaiting (h2 ▸ h)
      exact ⟨_, ha.concat h3⟩
    · obtain ⟨after, ha, hp⟩ := hg.passed (h2 ▸ h) hgate
      exact ⟨_, ha.concat h3, List.mem_append_left _ hp⟩
  cases h with
  | absorbed c hp => exact hfree s rfl (by simp [hp]) (by simp [hp])
  | observed _ hp => exact hkeep _ rfl rfl rfl
  | resolved hp => exact hkeep _ rfl rfl rfl
  | verify calls hp =>
    exact ⟨hg.gate_kept, fun _ => ⟨[], sinceCompletion_completed commands _ calls⟩, fun h => by cases h⟩
  | answered calls hp hgate =>
    refine ⟨hg.gate_kept, fun h => (by cases h), fun _ htrue => ?_⟩
    rw [← hg.gate_kept, hgate] at htrue
    cases htrue
  | passed hp =>
    obtain ⟨after, ha⟩ := hg.awaiting hp
    exact ⟨hg.gate_kept, fun h => (by cases h), fun _ _ => ⟨_, ha.concat rfl, by simp⟩⟩
  | stopped c s' o f n hp _ hgate h1 h2 _ =>
    exact hfree _ hgate (by simp [TurnState.finished]) (by simp [TurnState.finished])
  | _ => exact hfree _ rfl (by simp [nextTurn, TurnState.finished]) (by simp [nextTurn, TurnState.finished])

theorem graded_foldReduce (hp : s.phase = .admitting) (commands : List Command) :
    Graded s.verifyGate commands (foldReduce s commands).1 := by
  refine foldReduce_induction (P := fun commands t _ => Graded s.verifyGate commands t) ?_ ?_ commands
  · exact ⟨rfl, fun h => absurd (hp.symm.trans h) (by decide), fun h => absurd (hp.symm.trans h) (by decide)⟩
  · intro commands c t t' acts more hP hR
    exact hR.graded hP

theorem Reduces.done_only (h : Reduces s c s' more) (hd : s'.outcome = some .done) :
    s.outcome = some .done ∨ (c = .steered 0 ∧ s.phase = .settling ∧ s.control = .none) := by
  cases h with
  | done hp hn => exact .inr ⟨rfl, hp, hn⟩
  | drained c hp hn => cases hd
  | stopped c s' o f n hp _ _ h1 _ _ => exact absurd (Option.some.inj hd) h1
  | _ => exact .inl hd

theorem foldReduce_done (ho : s.outcome = none) (commands : List Command)
    (hd : (foldReduce s commands).1.outcome = some .done) :
    ∃ first rest, commands = first ++ .steered 0 :: rest ∧ (foldReduce s first).1.phase = .settling ∧
      (foldReduce s first).1.control = .none := by
  induction commands using List.reverseRecOn with
  | nil =>
    have hnone : (foldReduce s []).1.outcome = none := ho
    rw [hnone] at hd
    cases hd
  | append_singleton commands c ih =>
    rw [foldReduce_concat] at hd
    rcases (reduce_reduces (foldReduce s commands).1 c).done_only hd with hd | ⟨rfl, hp, hn⟩
    · obtain ⟨first, rest, rfl, h1, h2⟩ := ih hd
      exact ⟨first, rest ++ [c], by simp, h1, h2⟩
    · exact ⟨commands, [], rfl, hp, hn⟩

/-! ## Assembly -/

/-- **Trace safety of a command stream.** -/
structure TraceSafe (s : TurnState) (commands : List Command) : Prop where
  finish_once : (foldReduce s commands).2.countP (fun a => a matches .finish _) ≤ 1
  finish_outcome : ∀ o, .finish o ∈ (foldReduce s commands).2 → (foldReduce s commands).1.outcome = some o
  finish_last : ∀ first o rest, (foldReduce s commands).2 = first ++ .finish o :: rest → rest = []
  checkpoint_iff : (∃ n, .checkpoint n ∈ (foldReduce s commands).2) ↔
    (foldReduce s commands).1.outcome = some .drained
  checkpoint_then_finish : ∀ first n rest, (foldReduce s commands).2 = first ++ .checkpoint n :: rest →
    rest = [.finish .drained]
  no_call_after_stop : ∀ first c rest, commands = first ++ c :: rest → c.stops = true →
    ∃ more, (foldReduce s commands).2 = (foldReduce s first).2 ++ more ∧ ∀ a ∈ more, a.isCall = false
  calls_bounded : s.limits.maxTurns ≠ unlimitedTurns →
    (foldReduce s commands).2.countP ActionRequest.isCall ≤ s.limits.maxTurns.toNat
  done_settled : (foldReduce s commands).1.outcome = some .done →
    ∃ first rest, commands = first ++ .steered 0 :: rest ∧ (foldReduce s first).1.phase = .settling ∧
      (foldReduce s first).1.control = .none ∧
      (s.verifyGate = true → ∃ after, SinceCompletion first after ∧ .verifyCompleted .pass ∈ after)

theorem Ended.finish_once (h : Ended t acts) : acts.countP (fun a => a matches .finish _) ≤ 1 := by
  have hzero : ∀ pre : Actions, Open pre → pre.countP (fun a => a matches .finish _) = 0 := by
    intro pre hopen
    refine List.countP_eq_zero.2 (fun a ha => ?_)
    have := hopen a ha
    cases a <;> simp_all [ActionRequest.closing]
  cases h with
  | running _ _ hopen => rw [hzero _ hopen]; exact Nat.zero_le _
  | drained n hp hd hopen => rw [List.countP_append, hzero _ hopen]; simp
  | stopped o hp hd _ hopen => rw [List.countP_append, hzero _ hopen]; simp

theorem traceSafe_of_admitting (hp : s.phase = .admitting) (ho : s.outcome = none)
    (commands : List Command) : TraceSafe s commands := by
  have hE := ended_foldReduce (by rw [hp]; decide) ho commands
  refine ⟨hE.finish_once, fun o hmem => ?_, fun first o rest h => (hE.finish_last h).2, hE.checkpoint_iff,
    fun first n rest h => (hE.checkpoint_then h).2, ?_, fun hmax => foldReduce_calls hp hmax commands, fun hd => ?_⟩
  · obtain ⟨first, rest, hs⟩ := List.append_of_mem hmem
    exact (hE.finish_last hs).1
  · rintro first c rest rfl hc
    exact foldReduce_stop s first rest c hc
  · obtain ⟨first, rest, hcmd, hset, hn⟩ := foldReduce_done ho commands hd
    exact ⟨first, rest, hcmd, hset, hn, (graded_foldReduce hp first).passed hset⟩

/-- **The reducer is trace-safe**, from a fresh or a resumed turn, under any limits and any command stream. -/
theorem reduce_traceSafe (limits : TurnLimits) (verifyGate : Bool) (turn : UInt32) (commands : List Command) :
    TraceSafe (.new limits verifyGate) commands ∧ TraceSafe (.resumedAt limits verifyGate turn) commands :=
  ⟨traceSafe_of_admitting rfl rfl commands, traceSafe_of_admitting rfl rfl commands⟩

end Iteron.Kernel
