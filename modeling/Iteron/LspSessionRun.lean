import Iteron.History
import Iteron.LspSession
/-!
# LspSessionRun — restarts stay bounded

The history of a session, newest first: the states it entered, the restarts it planned, the requests it served and the
times it got its attempts back.  Three facts about every history bound a restart storm.
-/
namespace Iteron.Lsp

open Iteron.History (Last Each Stretch last_head)

/-! ## History -/

inductive SessionEvent where
  | entered (state : State) (epoch : Option ServerEpoch) (nowMs : Nat)
  | planned (attempt nowMs : Nat)
  | succeeded (epoch : ServerEpoch) (id nowMs : Nat)
  | restored (nowMs : Nat)
deriving DecidableEq

namespace SessionEvent

def isEntry : SessionEvent → Bool
  | .entered _ _ _ => true
  | _ => false

def isInitializing : SessionEvent → Bool
  | .entered .initializing _ _ => true
  | _ => false

def isPlanned : SessionEvent → Bool
  | .planned _ _ => true
  | _ => false

def isRestored : SessionEvent → Bool
  | .restored _ => true
  | _ => false

end SessionEvent

def sessionEvents (s : Session) : SessionCall → List SessionEvent
  | .apply event nowMs =>
    if (s.apply event nowMs).1.state = s.state then []
    else [.entered (s.apply event nowMs).1.state event.epoch nowMs]
  | .planRestart nowMs =>
    match (s.planRestart nowMs).2 with
    | .ok _ => [.planned (s.planRestart nowMs).1.restarts nowMs]
    | .error _ => []
  | .noteRequestSucceeded request nowMs =>
    match (s.noteRequestSucceeded request nowMs).2 with
    | .ok restored =>
      (if restored then [.restored nowMs] else []) ++
        [.succeeded request.correlation.serverEpoch request.correlation.id nowMs]
    | .error _ => []

/-- The states of a session, with their histories. -/
inductive Supervised (policy : RestartPolicy) : Session → List SessionEvent → Prop
  | new : Supervised policy { policy := policy } []
  | serve (s : Session) (h : List SessionEvent) (call : SessionCall) (hs : Supervised policy s h) :
    Supervised policy (s.serve call) (sessionEvents s call ++ h)

/-! ## The bounds -/

def sinceRestored (h : List SessionEvent) : List SessionEvent := h.takeWhile (fun e => !e.isRestored)

/-- How many restarts were planned since the attempts last came back. -/
def attempts (h : List SessionEvent) : Nat := (sinceRestored h).countP SessionEvent.isPlanned

def entries (h : List SessionEvent) : Nat := (sinceRestored h).countP SessionEvent.isInitializing

/-- A crash, then a planned restart, then at least its backoff. -/
def Waited (policy : RestartPolicy) (before : List SessionEvent) (nowMs : Nat) : Prop :=
  ∃ between attempt planMs earlier, Last SessionEvent.isEntry before between (.planned attempt planMs) earlier ∧
    attempt = attempts earlier + 1 ∧ planMs + policy.backoffMs attempt ≤ nowMs ∧
    ∃ quiet epoch crashMs rest, Last SessionEvent.isEntry earlier quiet (.entered .crashed epoch crashMs) rest

/-- Long enough in the current ready period, with enough different requests of its server served. -/
def Healthy (before : List SessionEvent) (nowMs : Nat) : Prop :=
  ∃ period epoch readyMs earlier, Last SessionEvent.isEntry before period (.entered .ready (some epoch) readyMs) earlier ∧
    readyMs + healthyRestartResetAfterMs ≤ nowMs ∧
    ∃ ids : Finset Nat, healthyRestartResetAfterSuccesses ≤ ids.card ∧
      ∀ id ∈ ids, ∃ servedMs, .succeeded epoch id servedMs ∈ period

/-- **What bounds a restart storm.** -/
structure StormBounded (policy : RestartPolicy) (h : List SessionEvent) : Prop where
  storm : Stretch (fun burst _ => (∀ e ∈ burst, e.isRestored = false) →
    burst.countP SessionEvent.isInitializing ≤ 1 + policy.maxAttempts) h
  entry : Each (fun e before => ∀ epoch nowMs, e = .entered .initializing epoch nowMs →
    (∃ x ∈ before, x.isInitializing = true) → Waited policy before nowMs) h
  restored : Each (fun e before => ∀ nowMs, e = .restored nowMs → Healthy before nowMs) h

theorem stormBounded_nil (policy : RestartPolicy) : StormBounded policy [] :=
  ⟨History.stretch_nil (fun _ => Nat.zero_le _), History.each_nil _, History.each_nil _⟩

theorem countP_le_entries {burst : List SessionEvent} (hburst : ∀ e ∈ burst, e.isRestored = false)
    (before : List SessionEvent) : burst.countP SessionEvent.isInitializing ≤ entries (burst ++ before) := by
  have htake : sinceRestored (burst ++ before) = burst ++ sinceRestored before := by
    unfold sinceRestored
    rw [List.takeWhile_append_of_pos]
    intro e he
    rw [hburst e he, Bool.not_false]
  rw [entries, htake, List.countP_append]
  exact Nat.le_add_right _ _

variable {policy : RestartPolicy} {e : SessionEvent}

theorem StormBounded.cons {h : List SessionEvent} (hh : StormBounded policy h)
    (hstorm : entries (e :: h) ≤ 1 + policy.maxAttempts)
    (hentry : ∀ epoch nowMs, e = .entered .initializing epoch nowMs → (∃ x ∈ h, x.isInitializing = true) → Waited policy h nowMs)
    (hrestored : ∀ nowMs, e = .restored nowMs → Healthy h nowMs) : StormBounded policy (e :: h) := by
  refine ⟨hh.storm.cons ?_, hh.entry.cons hentry, hh.restored.cons hrestored⟩
  intro burst before heq hburst
  rw [heq] at hstorm
  exact Nat.le_trans (countP_le_entries hburst before) hstorm

/-! ## One event more -/

theorem Waited.later {before : List SessionEvent} {nowMs laterMs : Nat} (hw : Waited policy before nowMs)
    (hlater : nowMs ≤ laterMs) : Waited policy before laterMs := by
  obtain ⟨between, attempt, planMs, earlier, hlast, hattempt, hwait, hcrash⟩ := hw
  exact ⟨between, attempt, planMs, earlier, hlast, hattempt, Nat.le_trans hwait hlater, hcrash⟩

theorem attempts_cons (he : e.isRestored = false) (h : List SessionEvent) :
    attempts (e :: h) = attempts h + if e.isPlanned then 1 else 0 := by
  rw [attempts, sinceRestored, List.takeWhile_cons_of_pos (by rw [he]; rfl), List.countP_cons]
  rfl

theorem entries_cons (he : e.isRestored = false) (h : List SessionEvent) :
    entries (e :: h) = entries h + if e.isInitializing then 1 else 0 := by
  rw [entries, sinceRestored, List.takeWhile_cons_of_pos (by rw [he]; rfl), List.countP_cons]
  rfl

theorem entries_restored (nowMs : Nat) (h : List SessionEvent) : entries (.restored nowMs :: h) = 0 := rfl

/-! ## The invariant -/

/-- A ready period: since when, of which server, and that the requests counted were served in it. -/
def Serving (s : Session) (h : List SessionEvent) : Prop :=
  ∃ period epoch readyMs earlier, Last SessionEvent.isEntry h period (.entered .ready (some epoch) readyMs) earlier ∧
    s.readyEpoch = some epoch ∧ s.readySinceMs = some readyMs ∧
    ∀ id ∈ s.successfulRequests, ∃ servedMs, .succeeded epoch id servedMs ∈ period

/-- Restarts waiting for their process, and the first start. -/
def pendingStarts : State → Nat
  | .restartBackoff => 1
  | .uninitialized => 1
  | _ => 0

structure Tracked (s : Session) (h : List SessionEvent) : Prop where
  bounded : StormBounded s.policy h
  spent : attempts h = s.restarts
  restarts_le : s.restarts ≤ s.policy.maxAttempts
  starts : entries h + pendingStarts s.state ≤ 1 + s.restarts
  fresh : s.state = .uninitialized → h = []
  crash : s.state = .crashed → ∃ quiet epoch crashMs rest,
    Last SessionEvent.isEntry h quiet (.entered .crashed epoch crashMs) rest
  waiting : s.state = .restartBackoff → ∃ notBefore, s.restartNotBeforeMs = some notBefore ∧ Waited s.policy h notBefore
  starting : s.state = .initializing → ∃ epoch, s.initializingEpoch = some epoch
  serving : s.state = .ready → Serving s h

structure SameSession (s s' : Session) : Prop where
  policy : s'.policy = s.policy
  state : s'.state = s.state
  restarts : s'.restarts = s.restarts
  notBefore : s'.restartNotBeforeMs = s.restartNotBeforeMs
  since : s'.readySinceMs = s.readySinceMs
  starting : s'.initializingEpoch = s.initializingEpoch
  serving : s'.readyEpoch = s.readyEpoch
  served : s'.successfulRequests = s.successfulRequests

theorem sameSession_tick (s : Session) (last : Option Nat) : SameSession s { s with lastNowMs := last } :=
  ⟨rfl, rfl, rfl, rfl, rfl, rfl, rfl, rfl⟩

section

variable {s s' : Session} {h : List SessionEvent}

theorem Tracked.same (ht : Tracked s h) (hsame : SameSession s s') : Tracked s' h := by
  refine ⟨?_, ?_, ?_, ?_, ?_, ?_, ?_, ?_, ?_⟩
  · rw [hsame.policy]
    exact ht.bounded
  · rw [hsame.restarts]
    exact ht.spent
  · rw [hsame.restarts, hsame.policy]
    exact ht.restarts_le
  · rw [hsame.state, hsame.restarts]
    exact ht.starts
  · rw [hsame.state]
    exact ht.fresh
  · rw [hsame.state]
    exact ht.crash
  · rw [hsame.state, hsame.notBefore, hsame.policy]
    exact ht.waiting
  · rw [hsame.state, hsame.starting]
    exact ht.starting
  · intro hready
    rw [hsame.state] at hready
    unfold Serving
    rw [hsame.serving, hsame.since, hsame.served]
    exact ht.serving hready

/-! ## Applying an event -/

theorem nextState_cases (state : State) (event : Event) : Session.nextState state event = state ∨
    (state = .uninitialized ∧ (∃ epoch, event = .initializeSent epoch) ∧ Session.nextState state event = .initializing) ∨
    (state = .initializing ∧ (∃ epoch, event = .initialized epoch) ∧ Session.nextState state event = .ready) ∨
    (state ≠ .restartBackoff ∧ pendingStarts (Session.nextState state event) = 0 ∧
      Session.nextState state event ≠ .initializing ∧ Session.nextState state event ≠ .ready) := by
  cases state <;> cases event <;> simp [Session.nextState, pendingStarts]

inductive Applied (s : Session) (event : Event) (nowMs : Nat) (s' : Session) : Prop
  | same (h : SameSession s s')
  | restarted (epoch : ServerEpoch) (hstate : s.state = .restartBackoff)
    (hwait : s.restartNotBeforeMs.getD 0 ≤ nowMs) (hstate' : s'.state = .initializing)
    (hepoch : s'.initializingEpoch = some epoch) (hpolicy : s'.policy = s.policy) (hrestarts : s'.restarts = s.restarts)
  | started (epoch : ServerEpoch) (hstate : s.state = .uninitialized) (hstate' : s'.state = .initializing)
    (hepoch : s'.initializingEpoch = some epoch) (hpolicy : s'.policy = s.policy) (hrestarts : s'.restarts = s.restarts)
  | initialized (epoch : ServerEpoch) (hevent : event = .initialized epoch) (hstate : s.state = .initializing)
    (hmatch : ∀ expected, s.initializingEpoch = some expected → expected = epoch) (hstate' : s'.state = .ready)
    (hsince : s'.readySinceMs = some nowMs) (hepoch : s'.readyEpoch = s.initializingEpoch)
    (hserved : s'.successfulRequests = ∅) (hpolicy : s'.policy = s.policy) (hrestarts : s'.restarts = s.restarts)
  | left (hstate : s.state ≠ .restartBackoff) (hmoved : s'.state ≠ s.state) (hpending : pendingStarts s'.state = 0)
    (hstart : s'.state ≠ .initializing) (hready : s'.state ≠ .ready) (hpolicy : s'.policy = s.policy)
    (hrestarts : s'.restarts = s.restarts)

@[simp] theorem state_setState (next : State) (nowMs : Nat) : (s.setState next nowMs).state = next := by
  unfold Session.setState
  split
  · rename_i hnext
    exact hnext.symm
  · dsimp only
    split <;> split <;> rfl

@[simp] theorem policy_setState (next : State) (nowMs : Nat) : (s.setState next nowMs).policy = s.policy := by
  unfold Session.setState
  split
  · rfl
  · dsimp only
    split <;> split <;> rfl

@[simp] theorem restarts_setState (next : State) (nowMs : Nat) : (s.setState next nowMs).restarts = s.restarts := by
  unfold Session.setState
  split
  · rfl
  · dsimp only
    split <;> split <;> rfl

variable {event : Event} {epoch : ServerEpoch}

theorem foreignEpoch_none {expected : ServerEpoch} (hstate : s.state = .initializing)
    (hevent : event.epoch = some epoch) (hforeign : s.foreignEpoch event = none)
    (hexpected : s.initializingEpoch = some expected) : expected = epoch := by
  unfold Session.foreignEpoch at hforeign
  rw [if_pos hstate, hexpected, hevent] at hforeign
  by_contra hne
  simp [hne] at hforeign

theorem setState_self (nowMs : Nat) : s.setState s.state nowMs = s := if_pos rfl

theorem setState_initializing (nowMs : Nat) :
    (s.setState .initializing nowMs).initializingEpoch = s.initializingEpoch := by
  unfold Session.setState
  split
  · rfl
  · rfl

theorem setState_ready (hstate : s.state ≠ .ready) (nowMs : Nat) :
    (s.setState .ready nowMs).readySinceMs = some nowMs ∧ (s.setState .ready nowMs).readyEpoch = s.initializingEpoch ∧
      (s.setState .ready nowMs).successfulRequests = ∅ := by
  unfold Session.setState
  rw [if_neg hstate.symm]
  exact ⟨rfl, rfl, rfl⟩

theorem applied_applyEvent (event : Event) (nowMs : Nat) (hforeign : s.foreignEpoch event = none) :
    Applied s event nowMs (s.applyEvent event nowMs).1 := by
  unfold Session.applyEvent
  dsimp only
  split
  · rename_i epoch hstate
    have hnext : Session.nextState s.state (.initializeSent epoch) = .initializing := by rw [hstate]; rfl
    rw [hnext]
    exact .started epoch hstate (state_setState _ _) (setState_initializing nowMs) (policy_setState _ _)
      (restarts_setState _ _)
  · rename_i event _ _ hother
    rcases nextState_cases s.state event with hnext | ⟨hstate, ⟨epoch, rfl⟩, hnext⟩ | ⟨hstate, ⟨epoch, rfl⟩, hnext⟩ |
      ⟨hstate, hpending, hstart, hready⟩
    · rw [hnext, setState_self]
      exact .same (sameSession_tick s s.lastNowMs)
    · exact (hother epoch hstate rfl).elim
    · rw [hnext]
      have hnotready : s.state ≠ .ready := by
        rw [hstate]
        decide
      obtain ⟨hsince, hepoch, hserved⟩ := setState_ready hnotready nowMs
      exact .initialized epoch rfl hstate (fun expected => foreignEpoch_none hstate rfl hforeign) (state_setState _ _)
        hsince hepoch hserved (policy_setState _ _) (restarts_setState _ _)
    · by_cases hmoved : Session.nextState s.state event = s.state
      · rw [hmoved, setState_self]
        exact .same (sameSession_tick s s.lastNowMs)
      · refine .left hstate ?_ ?_ ?_ ?_ (policy_setState _ _) (restarts_setState _ _)
        · rw [state_setState]
          exact hmoved
        · rw [state_setState]
          exact hpending
        · rw [state_setState]
          exact hstart
        · rw [state_setState]
          exact hready

theorem applied_applyRestart (epoch : ServerEpoch) (nowMs : Nat) (hstate : s.state = .restartBackoff) :
    Applied s (.initializeSent epoch) nowMs (s.applyRestart epoch nowMs).1 := by
  unfold Session.applyRestart
  dsimp only
  split
  · exact .same (sameSession_tick s s.lastNowMs)
  · rename_i hwait
    exact .restarted epoch hstate (Nat.le_of_not_lt hwait) rfl rfl rfl rfl

theorem Applied.of_tick {nowMs : Nat} {last : Option Nat} (ha : Applied { s with lastNowMs := last } event nowMs s') :
    Applied s event nowMs s' := by
  cases ha with
  | same hsame =>
    exact .same ⟨hsame.policy, hsame.state, hsame.restarts, hsame.notBefore, hsame.since, hsame.starting, hsame.serving,
      hsame.served⟩
  | restarted epoch hstate hwait hstate' hepoch hpolicy hrestarts =>
    exact .restarted epoch hstate hwait hstate' hepoch hpolicy hrestarts
  | started epoch hstate hstate' hepoch hpolicy hrestarts =>
    exact .started epoch hstate hstate' hepoch hpolicy hrestarts
  | initialized epoch hevent hstate hmatch hstate' hsince hepoch hserved hpolicy hrestarts =>
    exact .initialized epoch hevent hstate hmatch hstate' hsince hepoch hserved hpolicy hrestarts
  | left hstate hmoved hpending hstart hready hpolicy hrestarts =>
    exact .left hstate hmoved hpending hstart hready hpolicy hrestarts

theorem applied_apply (event : Event) (nowMs : Nat) : Applied s event nowMs (s.apply event nowMs).1 := by
  unfold Session.apply
  split
  · exact .same (sameSession_tick s s.lastNowMs)
  · rename_i hforeign
    split
    · exact .same (sameSession_tick s s.lastNowMs)
    · rename_i last _
      dsimp only
      split
      · rename_i epoch hstate
        exact (@applied_applyRestart { s with lastNowMs := last } epoch nowMs hstate).of_tick
      · rename_i event _ _ _
        exact (@applied_applyEvent { s with lastNowMs := last } event nowMs hforeign).of_tick

theorem Tracked.entered (ht : Tracked s h) (epoch : Option ServerEpoch) (nowMs : Nat) (hpolicy : s'.policy = s.policy)
    (hrestarts : s'.restarts = s.restarts) (hpending : pendingStarts s'.state = 0)
    (hentries : entries h + (if s'.state = .initializing then 1 else 0) ≤ 1 + s.restarts)
    (hentry : s'.state = .initializing → (∃ x ∈ h, x.isInitializing = true) → Waited s.policy h nowMs)
    (hstarting : s'.state = .initializing → ∃ epoch, s'.initializingEpoch = some epoch)
    (hserving : s'.state = .ready → Serving s' (.entered .ready epoch nowMs :: h)) :
    Tracked s' (.entered s'.state epoch nowMs :: h) := by
  have hcount : entries (.entered s'.state epoch nowMs :: h) = entries h + if s'.state = .initializing then 1 else 0 := by
    rw [entries_cons rfl]
    cases s'.state <;> rfl
  have hrestarts_le := ht.restarts_le
  refine ⟨?_, ?_, ?_, ?_, ?_, ?_, ?_, hstarting, ?_⟩
  · rw [hpolicy]
    refine ht.bounded.cons (by rw [hcount]; omega) ?_ ?_
    · intro epoch' nowMs' he hearlier
      injection he with hstate _ htime
      rw [← htime]
      exact hentry hstate hearlier
    · intro nowMs' he
      cases he
  · rw [attempts_cons rfl, hrestarts]
    exact ht.spent
  · rw [hpolicy, hrestarts]
    exact hrestarts_le
  · rw [hcount, hpending, hrestarts]
    exact hentries
  · intro hstate
    rw [hstate] at hpending
    cases hpending
  · intro hstate
    rw [hstate]
    exact ⟨[], epoch, nowMs, h, last_head _ _ h⟩
  · intro hstate
    rw [hstate] at hpending
    cases hpending
  · intro hstate
    rw [hstate]
    exact hserving hstate

theorem Tracked.apply (ht : Tracked s h) (event : Event) (nowMs : Nat) :
    Tracked (s.serve (.apply event nowMs)) (sessionEvents s (.apply event nowMs) ++ h) := by
  have ha := @applied_apply s event nowMs
  have hentries := ht.starts
  simp only [Session.serve, sessionEvents]
  generalize (s.apply event nowMs).1 = s' at ha ⊢
  cases ha with
  | same hsame =>
    rw [if_pos hsame.state]
    exact ht.same hsame
  | restarted epoch hstate hwait hstate' hepoch hpolicy hrestarts =>
    rw [hstate] at hentries
    rw [if_neg (by rw [hstate, hstate']; decide)]
    obtain ⟨_, hdeadline, hwaited⟩ := ht.waiting hstate
    rw [hdeadline, Option.getD_some] at hwait
    refine ht.entered event.epoch nowMs hpolicy hrestarts (by rw [hstate']; rfl) (by rw [if_pos hstate']; exact hentries)
      (fun _ _ => hwaited.later hwait) (fun _ => ⟨epoch, hepoch⟩) ?_
    intro hready
    rw [hstate'] at hready
    cases hready
  | started epoch hstate hstate' hepoch hpolicy hrestarts =>
    rw [hstate] at hentries
    rw [if_neg (by rw [hstate, hstate']; decide)]
    refine ht.entered event.epoch nowMs hpolicy hrestarts (by rw [hstate']; rfl) (by rw [if_pos hstate']; exact hentries)
      ?_ (fun _ => ⟨epoch, hepoch⟩) ?_
    · intro _ hearlier
      rw [ht.fresh hstate] at hearlier
      obtain ⟨x, hx, _⟩ := hearlier
      cases hx
    · intro hready
      rw [hstate'] at hready
      cases hready
  | initialized epoch hevent hstate hmatch hstate' hsince hepoch hserved hpolicy hrestarts =>
    have hnotstart : s'.state ≠ .initializing := by
      rw [hstate']
      decide
    rw [hstate] at hentries
    rw [if_neg (by rw [hstate]; exact hnotstart)]
    refine ht.entered event.epoch nowMs hpolicy hrestarts (by rw [hstate']; rfl) (by rw [if_neg hnotstart]; exact hentries)
      (fun hstart => (hnotstart hstart).elim) (fun hstart => (hnotstart hstart).elim) ?_
    intro _
    obtain ⟨expected, hexpected⟩ := ht.starting hstate
    have hcurrent := hmatch expected hexpected
    rw [hevent]
    refine ⟨[], epoch, nowMs, h, last_head _ _ h, ?_, hsince, ?_⟩
    · rw [hepoch, hexpected, hcurrent]
    · rw [hserved]
      intro id hid
      cases hid
  | left hstate hmoved hpending hstart hready hpolicy hrestarts =>
    rw [if_neg hmoved]
    refine ht.entered event.epoch nowMs hpolicy hrestarts hpending ?_ (fun hstart' => (hstart hstart').elim)
      (fun hstart' => (hstart hstart').elim) (fun hready' => (hready hready').elim)
    rw [if_neg hstart]
    omega

/-! ## Planning a restart -/

theorem Tracked.planned {notBefore : Nat} (ht : Tracked s h) (nowMs : Nat) (last : Option Nat)
    (hcrashed : s.state = .crashed) (hbudget : s.restarts < s.policy.maxAttempts)
    (hdeadline : notBefore = nowMs + s.policy.backoffMs (s.restarts + 1)) :
    Tracked { s with
      lastNowMs := last
      restarts := s.restarts + 1
      state := .restartBackoff
      restartNotBeforeMs := some notBefore } (.planned (s.restarts + 1) nowMs :: h) := by
  have hentries := ht.starts
  have hcount : entries (.planned (s.restarts + 1) nowMs :: h) = entries h := entries_cons rfl h
  refine ⟨?_, ?_, hbudget, ?_, ?_, ?_, ?_, ?_, ?_⟩
  · refine ht.bounded.cons ?_ ?_ ?_
    · omega
    · intro epoch nowMs' he
      cases he
    · intro nowMs' he
      cases he
  · rw [attempts_cons rfl, ht.spent]
    rfl
  · dsimp only [pendingStarts]
    omega
  · intro hstate
    cases hstate
  · intro hstate
    cases hstate
  · intro _
    refine ⟨notBefore, rfl, [], s.restarts + 1, nowMs, h, last_head _ _ h, ?_, ?_, ht.crash hcrashed⟩
    · rw [ht.spent]
    · rw [hdeadline]
  · intro hstate
    cases hstate
  · intro hstate
    cases hstate

theorem Tracked.planRestart (ht : Tracked s h) (nowMs : Nat) :
    Tracked (s.serve (.planRestart nowMs)) (sessionEvents s (.planRestart nowMs) ++ h) := by
  simp only [Session.serve, sessionEvents]
  generalize hplan : s.planRestart nowMs = result
  unfold Session.planRestart at hplan
  split at hplan
  · obtain rfl := hplan
    exact ht
  · rename_i last _
    dsimp only at hplan
    split at hplan
    · obtain rfl := hplan
      exact ht.same (sameSession_tick s last)
    · rename_i hcrashed
      rw [not_not] at hcrashed
      split at hplan
      · obtain rfl := hplan
        exact ht.same (sameSession_tick s last)
      · rename_i hbudget
        split at hplan
        · obtain rfl := hplan
          exact ht.same (sameSession_tick s last)
        · rename_i notBefore hdeadline
          obtain rfl := hplan
          exact ht.planned nowMs last hcrashed (Nat.lt_of_not_le hbudget) (Machine.checkedAdd_eq_some hdeadline)

/-! ## Serving requests -/

theorem Tracked.succeeded (ht : Tracked s h) (hready : s.state = .ready) (hepoch : s.readyEpoch = some epoch)
    (id nowMs : Nat) (hpolicy : s'.policy = s.policy) (hstate : s'.state = s.state)
    (hrestarts : s'.restarts = s.restarts) (hsince : s'.readySinceMs = s.readySinceMs)
    (hepoch' : s'.readyEpoch = s.readyEpoch) (hserved : ∀ x ∈ s'.successfulRequests, x = id ∨ x ∈ s.successfulRequests)
    : Tracked s' (.succeeded epoch id nowMs :: h) := by
  have hcount : entries (.succeeded epoch id nowMs :: h) = entries h := entries_cons rfl h
  have hstarts := ht.starts
  have hrestarts_le := ht.restarts_le
  have hother : ∀ state, state ≠ .ready → s'.state ≠ state := by
    intro state hne
    rw [hstate, hready]
    exact hne.symm
  refine ⟨?_, ?_, ?_, ?_, ?_, ?_, ?_, ?_, ?_⟩
  · rw [hpolicy]
    refine ht.bounded.cons (by rw [hcount]; omega) ?_ ?_
    · intro epoch' nowMs' he
      cases he
    · intro nowMs' he
      cases he
  · rw [attempts_cons rfl, hrestarts]
    exact ht.spent
  · rw [hrestarts, hpolicy]
    exact hrestarts_le
  · rw [hcount, hstate, hrestarts]
    exact hstarts
  iterate 4 exact fun h' => (hother _ (by decide) h').elim
  · intro _
    obtain ⟨_, epoch', readyMs, earlier, hlast, hcurrent, hready', hperiod⟩ := ht.serving hready
    obtain rfl : epoch = epoch' := by
      rw [hepoch] at hcurrent
      exact Option.some.inj hcurrent
    refine ⟨_, epoch, readyMs, earlier, hlast.cons rfl, by rw [hepoch', hepoch], by rw [hsince, hready'], ?_⟩
    intro x hx
    rcases hserved x hx with rfl | hx
    · exact ⟨nowMs, .head _⟩
    · obtain ⟨servedMs, hmem⟩ := hperiod x hx
      exact ⟨servedMs, .tail _ hmem⟩

theorem Tracked.restored (ht : Tracked s h) (hready : s.state = .ready) (nowMs : Nat)
    (hstable : nowMs - s.readySinceMs.getD 0 ≥ healthyRestartResetAfterMs)
    (hserved : s.successfulRequests.card ≥ healthyRestartResetAfterSuccesses) :
    Tracked { s with restarts := 0 } (.restored nowMs :: h) := by
  have hother : ∀ state, state ≠ .ready → s.state ≠ state := by
    intro state hne
    rw [hready]
    exact hne.symm
  obtain ⟨period, epoch, readyMs, earlier, hlast, hcurrent, hsince, hperiod⟩ := ht.serving hready
  rw [hsince, Option.getD_some] at hstable
  have hlong : readyMs + healthyRestartResetAfterMs ≤ nowMs := by
    unfold healthyRestartResetAfterMs at *
    omega
  refine ⟨?_, rfl, Nat.zero_le _, ?_, ?_, ?_, ?_, ?_, ?_⟩
  · refine ht.bounded.cons (by rw [entries_restored]; exact Nat.zero_le _) ?_ ?_
    · intro epoch' nowMs' he
      cases he
    · intro nowMs' he
      injection he with htime
      rw [← htime]
      exact ⟨period, epoch, readyMs, earlier, hlast, hlong, s.successfulRequests, hserved, hperiod⟩
  · rw [hready]
    exact Nat.zero_le _
  iterate 4 exact fun h' => (hother _ (by decide) h').elim
  · intro _
    refine ⟨_, epoch, readyMs, earlier, hlast.cons rfl, hcurrent, hsince, ?_⟩
    intro x hx
    obtain ⟨servedMs, hmem⟩ := hperiod x hx
    exact ⟨servedMs, .tail _ hmem⟩

theorem Tracked.remember (ht : Tracked s h) (hready : s.state = .ready) (hepoch : s.readyEpoch = some epoch)
    (id nowMs : Nat) : Tracked (s.remember id) (.succeeded epoch id nowMs :: h) ∧ (s.remember id).state = .ready := by
  unfold Session.remember
  split
  · exact ⟨ht.succeeded hready hepoch id nowMs rfl rfl rfl rfl rfl (fun x hx => Finset.mem_insert.1 hx), hready⟩
  · exact ⟨ht.succeeded hready hepoch id nowMs rfl rfl rfl rfl rfl (fun x hx => .inr hx), hready⟩

theorem Tracked.noteRequestSucceeded (ht : Tracked s h) (request : CompletedRequest) (nowMs : Nat) :
    Tracked (s.serve (.noteRequestSucceeded request nowMs))
      (sessionEvents s (.noteRequestSucceeded request nowMs) ++ h) := by
  simp only [Session.serve, sessionEvents]
  generalize hnote : s.noteRequestSucceeded request nowMs = result
  unfold Session.noteRequestSucceeded at hnote
  split at hnote
  · obtain rfl := hnote
    exact ht
  · rename_i hready
    rw [not_not] at hready
    dsimp only at hnote
    split at hnote
    · obtain rfl := hnote
      exact ht
    · rename_i hepoch
      split at hnote
      · obtain rfl := hnote
        exact ht
      · rename_i last _
        have ht' : Tracked { s with lastNowMs := last } h := ht.same (sameSession_tick s last)
        obtain ⟨_, _, _, _, _, hcurrent, _, _⟩ := ht.serving hready
        rw [not_not, hcurrent, Option.getD_some] at hepoch
        rw [hepoch]
        unfold Session.countSuccess at hnote
        split at hnote
        · obtain rfl := hnote
          exact ht'.succeeded hready hcurrent _ nowMs rfl rfl rfl rfl rfl (fun x hx => .inr hx)
        · dsimp only at hnote
          obtain ⟨hserved, hready'⟩ := ht'.remember hready hcurrent request.correlation.id nowMs
          split at hnote
          · rename_i hstable
            obtain rfl := hnote
            exact hserved.restored hready' nowMs hstable.1.1 hstable.1.2
          · obtain rfl := hnote
            exact hserved

theorem tracked_new (policy : RestartPolicy) : Tracked { policy := policy } [] := by
  refine ⟨stormBounded_nil policy, rfl, Nat.zero_le _, Nat.le_refl 1, fun _ => rfl, ?_, ?_, ?_, ?_⟩
  · intro hstate
    cases hstate
  · intro hstate
    cases hstate
  · intro hstate
    cases hstate
  · intro hstate
    cases hstate

theorem policy_planRestart (nowMs : Nat) : (s.planRestart nowMs).1.policy = s.policy := by
  unfold Session.planRestart
  split
  · rfl
  · dsimp only
    split
    · rfl
    · split
      · rfl
      · split <;> rfl

theorem policy_noteRequestSucceeded (request : CompletedRequest) (nowMs : Nat) :
    (s.noteRequestSucceeded request nowMs).1.policy = s.policy := by
  have hremember : ∀ (s : Session) (id : Nat), (s.remember id).policy = s.policy := by
    intro s id
    unfold Session.remember
    split <;> rfl
  unfold Session.noteRequestSucceeded
  split
  · rfl
  · dsimp only
    split
    · rfl
    · split
      · rfl
      · unfold Session.countSuccess
        split
        · rfl
        · dsimp only
          split
          · exact hremember _ _
          · exact hremember _ _

theorem policy_serve (s : Session) (call : SessionCall) : (s.serve call).policy = s.policy := by
  cases call with
  | apply event nowMs =>
    cases @applied_apply s event nowMs with
    | same hsame => exact hsame.policy
    | restarted _ _ _ _ _ hpolicy _ => exact hpolicy
    | started _ _ _ _ hpolicy _ => exact hpolicy
    | initialized _ _ _ _ _ _ _ _ hpolicy _ => exact hpolicy
    | left _ _ _ _ _ hpolicy _ => exact hpolicy
  | planRestart nowMs => exact policy_planRestart nowMs
  | noteRequestSucceeded request nowMs => exact policy_noteRequestSucceeded request nowMs

end

/-- **Restart storms are bounded** in every state of a session: between two times the attempts came back the server is
started at most once more than the policy allows, no start after the first skips the crash or the wait, and the attempts
come back to a healthy server only. -/
theorem restart_storm_bounded (policy : RestartPolicy) (s : Session) (h : List SessionEvent)
    (hs : Supervised policy s h) : StormBounded policy h := by
  suffices ht : Tracked s h ∧ s.policy = policy by
    rw [← ht.2]
    exact ht.1.bounded
  induction hs with
  | new => exact ⟨tracked_new policy, rfl⟩
  | serve s h call _ ih =>
    refine ⟨?_, (policy_serve s call).trans ih.2⟩
    cases call with
    | apply event nowMs => exact ih.1.apply event nowMs
    | planRestart nowMs => exact ih.1.planRestart nowMs
    | noteRequestSucceeded request nowMs => exact ih.1.noteRequestSucceeded request nowMs

def supervise (p : Session × List SessionEvent) (call : SessionCall) : Session × List SessionEvent :=
  (p.1.serve call, sessionEvents p.1 call ++ p.2)

theorem Supervised.foldl : ∀ (calls : List SessionCall) (p : Session × List SessionEvent),
    Supervised policy p.1 p.2 → Supervised policy (calls.foldl supervise p).1 (calls.foldl supervise p).2
  | [], _, hp => hp
  | call :: calls, p, hp => Supervised.foldl calls (supervise p call) (.serve p.1 p.2 call hp)

def samplePolicy : RestartPolicy where
  maxAttempts := 3
  baseBackoffMs := 250
  maxBackoffMs := 10000
  attempts_le := by decide
  base_pos := by decide
  base_le := by decide
  max_le := by decide

/-- A server that crashes once and is healthy afterwards. -/
def sampleCalls : List SessionCall :=
  [.apply (.initializeSent ⟨1⟩) 0, .apply (.initialized ⟨1⟩) 10, .apply .processFailed 20, .planRestart 30,
    .apply (.initializeSent ⟨2⟩) 100, .apply (.initializeSent ⟨2⟩) 280, .apply (.initialized ⟨2⟩) 300,
    .noteRequestSucceeded ⟨⟨⟨2⟩, 1, "hover"⟩, none⟩ 400, .noteRequestSucceeded ⟨⟨⟨2⟩, 2, "hover"⟩, none⟩ 500,
    .noteRequestSucceeded ⟨⟨⟨2⟩, 3, "hover"⟩, none⟩ 60300]

/-- One restart, and the attempt that came back. -/
theorem restart_storm_bounded_once :
    ∃ h, StormBounded samplePolicy h ∧ .restored 60300 ∈ h ∧ h.countP SessionEvent.isInitializing = 2 :=
  ⟨(sampleCalls.foldl supervise (⟨samplePolicy, .uninitialized, 0, none, none, none, none, none, ∅, 0⟩, [])).2,
    restart_storm_bounded samplePolicy _ _ (Supervised.foldl sampleCalls _ .new), by decide, by decide⟩

end Iteron.Lsp
