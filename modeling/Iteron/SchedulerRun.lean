import Iteron.SchedulerLaw
/-!
# SchedulerRun — runs of the scheduler across crashes

One owner at a time holds the journal.  Every call is given any journal outcome and any answer of the controller, or is
dropped while it waits; a crash loses the owner, and `open` starts another one from what is durable.
-/
namespace Iteron.Scheduler

open Machine Refuse
open Dag (BudgetUsage TaskBudget)

inductive Call where
  | replan (requestId : String) (command : Replan) (p : Publication)
  | dispatch (nodeId version nowUnixMs : Nat) (p : Publication) (reply : Reply TurnLease) (q : Publication)
  | interrupt (nodeId version : Nat) (p : Publication) (reply : Reply Unit) (q : Publication)
  | settle (nodeId attempt : Nat) (lease : TurnLease) (completion : Completion) (usage : BudgetUsage)
      (effectsKnown : Bool) (p : Publication)
  | reconcileStopped (nodeId attempt : Nat) (completion : Completion) (usage : BudgetUsage) (effectsKnown : Bool)
      (p : Publication)

namespace Call

def run (digestOf : Replan → Option String) (o : Owner) : Call → Called
  | .replan requestId command p => ⟨(o.replan digestOf requestId command p).1, none, none⟩
  | .dispatch nodeId version now p reply q => o.dispatch nodeId version now p reply q
  | .interrupt nodeId version p reply q => o.interrupt nodeId version p reply q
  | .settle nodeId attempt lease completion usage effectsKnown p =>
    let (o, result) := o.settle nodeId attempt lease completion usage effectsKnown p
    ⟨o, none, some result⟩
  | .reconcileStopped nodeId attempt completion usage effectsKnown p =>
    let (o, result) := o.reconcileStopped nodeId attempt completion usage effectsKnown p
    ⟨o, none, some result⟩

def report : Call → Option Report
  | .settle nodeId attempt _ completion usage effectsKnown _ => some ⟨nodeId, attempt, completion, usage, effectsKnown⟩
  | .reconcileStopped nodeId attempt completion usage effectsKnown _ =>
    some ⟨nodeId, attempt, completion, usage, effectsKnown⟩
  | _ => none

/-- The node and the attempt of an interrupt that returned `Ok(Cancelling)`. -/
def accepted (result : Option (Except Error NodeState)) : Call → Option (Nat × Nat)
  | .interrupt nodeId _ _ _ _ =>
    match result with
    | some (.ok (.cancelling attempt _ _)) => some (nodeId, attempt)
    | _ => none
  | _ => none

end Call

/-- What is durable, the owner if one lives, the tasks the controller was asked to run and the cancellations it accepted,
latest first. -/
structure World where
  durable : Option Snapshot
  owner : Option Owner
  calls : List ScheduledTask
  cancels : List (Nat × Nat)

inductive Event where
  | start (config : WorkflowConfig) (load : Except StoreError Unit) (initial recovery : Publication)
  | call (c : Call)
  | crash

/-- What the event told about an attempt, if it was a settlement. -/
def Event.report : Event → Option Report
  | .call c => c.report
  | _ => none

namespace World

def empty : World := ⟨none, none, [], []⟩

def step (digestOf : Replan → Option String) (w : World) : Event → World
  | .start config load initial recovery =>
    match w.owner with
    | some _ => w
    | none =>
      let (journal, opened) := openOwner w.durable config load initial recovery
      { w with durable := journal, owner := opened.toOption }
  | .call c =>
    match w.owner with
    | none => w
    | some o =>
      let called := c.run digestOf o
      { durable := called.owner.journal, owner := some called.owner
        calls := called.dispatched.toList ++ w.calls
        cancels := (c.accepted called.result).toList ++ w.cancels }
  | .crash => { w with owner := none }

def run (digestOf : Replan → Option String) (events : List Event) : World := events.foldl (step digestOf) empty

def Shows (w : World) (s : Snapshot) : Prop := w.durable = some s ∨ ∃ o, w.owner = some o ∧ o.snapshot = s

end World

def Owner.live (d : Snapshot) : Owner := ⟨some d, d, false⟩

/-- What an owner and its journal hold after an operation: once they differ, the owner is poisoned. -/
structure Owner.Holds (P : Snapshot → Prop) (o : Owner) : Prop where
  snapshot : P o.snapshot
  journal : ∃ d, o.journal = some d ∧ P d
  synced : o.poisoned = false → o.journal = some o.snapshot

section Commit

variable {o o' : Owner} {next : Snapshot} {p : Publication} {P : Snapshot → Prop}

theorem Owner.Holds.live {d : Snapshot} (h : P d) : (Owner.live d).Holds P := ⟨h, ⟨d, rfl, h⟩, fun _ => rfl⟩

theorem Owner.Holds.mono {Q : Snapshot → Prop} (h : o.Holds P) (hPQ : ∀ s, P s → Q s) : o.Holds Q := by
  obtain ⟨d, hd, hP⟩ := h.journal
  exact ⟨hPQ _ h.snapshot, ⟨d, hd, hPQ d hP⟩, h.synced⟩

theorem commit_poisoned (h : o.poisoned = true) : ∃ e, o.commit next p = (o, .error e) := by
  unfold Owner.commit
  by_cases hs : o.snapshot.sequence ≥ maxSchedulerEvents
  · exact ⟨_, if_pos hs⟩
  · refine ⟨.poisoned, ?_⟩
    rw [if_neg hs, Owner.publish, Owner.ensureLive, refuseIf, if_pos h]
    rfl

theorem commit_cases (d : Snapshot) (next : Snapshot) (p : Publication) :
    (∃ e, (Owner.live d).commit next p = (Owner.live d, .error e)) ∨
    (validateSnapshot { next with sequence := d.sequence + 1 } = .ok () ∧
      ((Owner.live d).commit next p = (Owner.live { next with sequence := d.sequence + 1 }, .ok ()) ∨
        ∃ e j, (j = d ∨ j = { next with sequence := d.sequence + 1 }) ∧
          (Owner.live d).commit next p = (⟨some j, d, true⟩, .error e))) := by
  unfold Owner.commit
  by_cases hs : (Owner.live d).snapshot.sequence ≥ maxSchedulerEvents
  · exact .inl ⟨_, if_pos hs⟩
  · rw [if_neg hs, Owner.publish]
    cases hvalid : validateSnapshot { next with sequence := (Owner.live d).snapshot.sequence + 1 } with
    | error e => exact .inl ⟨e, rfl⟩
    | ok u =>
      have hseq : ¬ ((Owner.live d).journal.map (fun s => s.sequence) ≠ some (Owner.live d).snapshot.sequence) :=
        fun h => h rfl
      simp only [journalCommit, if_neg hseq]
      cases p with
      | stored => exact .inr ⟨hvalid, .inl rfl⟩
      | unavailable => exact .inl ⟨_, rfl⟩
      | unknown written =>
        refine .inr ⟨hvalid, .inr ?_⟩
        cases written with
        | false => exact ⟨_, d, .inl rfl, rfl⟩
        | true => exact ⟨_, _, .inr rfl, rfl⟩
      | conflict => exact .inr ⟨hvalid, .inr ⟨_, d, .inl rfl, rfl⟩⟩

variable {α : Type} {x : Except Error (Snapshot × α)} {d : Snapshot}

theorem committing_holds (hd : P d) (hx : ∀ next a, x = .ok (next, a) → ∀ n, validateSnapshot { next with sequence := n } =
    .ok () → P { next with sequence := n }) :
    ((Owner.live d).committing x p).1.Holds P ∧ ∀ a, ((Owner.live d).committing x p).2 = .ok a →
      ∃ next n, x = .ok (next, a) ∧ validateSnapshot { next with sequence := n } = .ok () ∧
        ((Owner.live d).committing x p).1 = Owner.live { next with sequence := n } := by
  cases x with
  | error e => exact ⟨.live hd, fun a ha => by cases ha⟩
  | ok xa =>
    obtain ⟨next, a⟩ := xa
    simp only [Owner.committing]
    obtain ⟨e, he⟩ | ⟨hvalid, hok | ⟨e, j, hj, he⟩⟩ := commit_cases d next p
    · rw [he]
      exact ⟨.live hd, fun a ha => by cases ha⟩
    · rw [hok]
      refine ⟨.live (hx next a rfl _ hvalid), fun b hb => ?_⟩
      cases hb
      exact ⟨next, _, rfl, hvalid, rfl⟩
    · rw [he]
      refine ⟨⟨hd, ⟨j, rfl, ?_⟩, fun h => by cases h⟩, fun a ha => by cases ha⟩
      rcases hj with rfl | rfl
      · exact hd
      · exact hx next a rfl _ hvalid

theorem committing_poisoned (h : o.poisoned = true) : (o.committing x p).1 = o ∧ ∀ a, (o.committing x p).2 ≠ .ok a := by
  cases x with
  | error e => exact ⟨rfl, fun a ha => by cases ha⟩
  | ok xa =>
    obtain ⟨next, a⟩ := xa
    obtain ⟨e, he⟩ := @commit_poisoned o next p h
    simp only [Owner.committing, he]
    exact ⟨trivial, fun a ha => by cases ha⟩

end Commit

def Reached (d : Snapshot) (report : Option Report) (s : Snapshot) : Prop :=
  Moves d report s ∧ validateSnapshot s = .ok ()

section Calls

variable {d : Snapshot} {o : Owner} {digestOf : Replan → Option String}

theorem ensureLive_poisoned (h : o.poisoned = true) : o.ensureLive = .error .poisoned := if_pos h

theorem Reached.refl (h : validateSnapshot d = .ok ()) (report : Option Report) : Reached d report d := ⟨.refl d report, h⟩

theorem replan_holds (h : validateSnapshot d = .ok ()) (requestId : String) (command : Replan) (p : Publication) :
    ((Owner.live d).replan digestOf requestId command p).1.Holds (Reached d none) := by
  unfold Owner.replan
  cases (Owner.live d).checkReplan digestOf requestId command with
  | error e => exact .live (.refl h none)
  | ok digest =>
    cases (Owner.live d).snapshot.receipts[requestId]? with
    | some stored =>
      by_cases hdigest : stored.digest ≠ digest
      · simp only [if_pos hdigest]
        exact .live (.refl h none)
      · simp only [if_neg hdigest]
        exact .live (.refl h none)
    | none =>
      exact (committing_holds (Reached.refl h none)
        (fun next receipt hx n hvalid => ⟨(replanned_moves hx).sequence n, hvalid⟩)).1

variable {task : ScheduledTask}

theorem Admission.sequence {s next : Snapshot} (h : Admission s task next) (n : Nat) :
    Admission s task { next with sequence := n } := ⟨h.config, h.others, h.dispatched⟩

theorem dispatch_holds (h : validateSnapshot d = .ok ()) (nodeId version now : Nat) (p : Publication)
    (reply : Reply TurnLease) (q : Publication) :
    ((Owner.live d).dispatch nodeId version now p reply q).owner.Holds (Reached d none) ∧
    ∀ task, ((Owner.live d).dispatch nodeId version now p reply q).dispatched = some task →
      ((Owner.live d).dispatch nodeId version now p reply q).owner.Holds (Admission d task) := by
  unfold Owner.dispatch
  obtain ⟨hholds, hok⟩ := @committing_holds p (Reached d none) _ ((Owner.live d).admitDispatch nodeId version now) d
    (.refl h none) (fun next task hx n hvalid => ⟨((admitDispatch_eq_ok hx).2.moves).sequence n, hvalid⟩)
  rcases hfirst : (Owner.live d).committing ((Owner.live d).admitDispatch nodeId version now) p with ⟨_, result⟩
  rw [hfirst] at hholds hok
  cases result with
  | error e => exact ⟨hholds, fun task ht => by cases ht⟩
  | ok task =>
    obtain ⟨next, n, hx, hvalid, rfl⟩ := hok task rfl
    obtain ⟨hnode, hadmission⟩ := admitDispatch_eq_ok hx
    have hmid := hadmission.sequence n
    cases reply with
    | none => exact ⟨hholds, fun t ht => Option.some.inj ht ▸ .live hmid⟩
    | some reply =>
      have hanswered := (@committing_holds q (fun s => Admission d task s ∧ validateSnapshot s = .ok ()) _
        (Snapshot.withState { next with sequence := n } nodeId (dispatchState task reply)) _ ⟨hmid, hvalid⟩
        (fun next' state hx' n' hvalid' => ⟨(hmid.answered (hnode ▸ hx')).sequence n', hvalid'⟩)).1
      refine ⟨hanswered.mono (fun s hs => ⟨hs.1.moves, hs.2⟩), fun t ht => ?_⟩
      cases ht
      exact hanswered.mono (fun s hs => hs.1)

theorem Interruption.sequence {s next : Snapshot} {nodeId attempt deadline : Nat} {lease : TurnLease}
    (h : Interruption s nodeId attempt lease deadline next) (n : Nat) :
    Interruption s nodeId attempt lease deadline { next with sequence := n } := ⟨h.config, h.others, h.interrupted⟩

theorem interrupt_holds (h : validateSnapshot d = .ok ()) (nodeId version : Nat) (p : Publication) (reply : Reply Unit)
    (q : Publication) : ((Owner.live d).interrupt nodeId version p reply q).owner.Holds (Reached d none) ∧
    ((Owner.live d).interrupt nodeId version p reply q).dispatched = none ∧
    ∀ state, ((Owner.live d).interrupt nodeId version p reply q).result = some (.ok state) →
      ∃ attempt lease deadline d' r', ((Owner.live d).interrupt nodeId version p reply q).owner = Owner.live d' ∧
        state = .cancelling attempt lease deadline ∧ d'.nodes[nodeId]? = some r' ∧ r'.state = state := by
  unfold Owner.interrupt
  rcases hrunning : (Owner.live d).runningAttempt nodeId version with e | ⟨attempt, lease, deadline⟩
  · exact ⟨.live (.refl h none), rfl, fun state hs => by cases hs⟩
  · obtain ⟨r, hr, hstate⟩ := runningAttempt_eq_ok hrunning
    obtain ⟨hholds, hok⟩ := @committing_holds p (Reached d none) _
      (d.withState nodeId (.cancelling attempt lease deadline)) d (.refl h none) (fun next state hx n hvalid =>
        ⟨((Interruption.withState hr hstate (.inl rfl) .accepted hx).moves).sequence n, hvalid⟩)
    have hsnapshot : (Owner.live d).snapshot = d := rfl
    simp only [hsnapshot]
    rcases hfirst : (Owner.live d).committing (d.withState nodeId (.cancelling attempt lease deadline)) p with ⟨_, result⟩
    rw [hfirst] at hholds hok
    cases result with
    | error e => exact ⟨hholds, rfl, fun state hs => by cases hs⟩
    | ok cancelling =>
      obtain ⟨next, n, hx, hvalid, rfl⟩ := hok cancelling rfl
      have hmid := (Interruption.withState hr hstate (.inl rfl) .accepted hx).sequence n
      cases reply with
      | none => exact ⟨hholds, rfl, fun state hs => by cases hs⟩
      | some reply =>
        cases reply with
        | ok u =>
          refine ⟨hholds, rfl, fun state hs => ?_⟩
          cases Option.some.inj hs
          obtain ⟨r', _, rfl, rfl⟩ := withState_eq_ok hx
          exact ⟨attempt, lease, deadline, _, _, rfl, rfl, setNode_self d nodeId _, rfl⟩
        | error error =>
          have hanswered := (@committing_holds q (fun s => Interruption d nodeId attempt lease deadline s ∧
            validateSnapshot s = .ok ()) _ (Snapshot.withState { next with sequence := n } nodeId
              (interruptState attempt lease deadline error)) _ ⟨hmid, hvalid⟩ (fun next' state hx' n' hvalid' =>
                ⟨(Interruption.withState hr hstate (.inr hmid) (interruptState_after _ _ _ error) hx').sequence n',
                  hvalid'⟩)).1
          have hsnapshot' : (Owner.live { next with sequence := n }).snapshot = { next with sequence := n } := rfl
          simp only [hsnapshot']
          rcases hsecond : (Owner.live { next with sequence := n }).committing (Snapshot.withState
            { next with sequence := n } nodeId (interruptState attempt lease deadline error)) q with ⟨o2, result⟩
          rw [hsecond] at hanswered
          cases result with
          | error e => exact ⟨hanswered.mono (fun s hs => ⟨hs.1.moves, hs.2⟩), rfl, fun state hs => by cases hs⟩
          | ok state => exact ⟨hanswered.mono (fun s hs => ⟨hs.1.moves, hs.2⟩), rfl, fun state hs => by cases hs⟩

theorem settle_holds (h : validateSnapshot d = .ok ()) (nodeId attempt : Nat) (lease : TurnLease) (completion : Completion)
    (usage : BudgetUsage) (effectsKnown : Bool) (p : Publication) :
    ((Owner.live d).settle nodeId attempt lease completion usage effectsKnown p).1.Holds
      (Reached d (some ⟨nodeId, attempt, completion, usage, effectsKnown⟩)) := by
  refine (committing_holds (.refl h _) (fun next state hx n hvalid => ⟨?_, hvalid⟩)).1
  simp only [bind_eq_ok, refuseIf_eq_ok, not_or, not_not, Bool.not_eq_false] at hx
  obtain ⟨_, _, r, hr, _, ⟨hattempt, _, hopen⟩, hx⟩ := hx
  exact (settled_moves (requireNode_eq_ok hr) hopen hattempt hx).sequence n

theorem reconcileStopped_holds (h : validateSnapshot d = .ok ()) (nodeId attempt : Nat) (completion : Completion)
    (usage : BudgetUsage) (effectsKnown : Bool) (p : Publication) :
    ((Owner.live d).reconcileStopped nodeId attempt completion usage effectsKnown p).1.Holds
      (Reached d (some ⟨nodeId, attempt, completion, usage, effectsKnown⟩)) := by
  refine (committing_holds (.refl h _) (fun next state hx n hvalid => ⟨?_, hvalid⟩)).1
  simp only [bind_eq_ok, refuseIf_eq_ok, not_or, not_not, Bool.not_eq_false] at hx
  obtain ⟨_, _, r, hr, _, ⟨hrecovery, hattempt⟩, hx⟩ := hx
  have hopen : r.state.settleable = true := by
    cases hstate : r.state <;> rw [hstate] at hrecovery <;> first | rfl | cases hrecovery
  exact (settled_moves (requireNode_eq_ok hr) hopen hattempt hx).sequence n

/-- **A call of a live owner** leaves it and its journal one operation away from the durable snapshot. -/
theorem call_holds (h : validateSnapshot d = .ok ()) (c : Call) :
    (c.run digestOf (.live d)).owner.Holds (Reached d c.report) := by
  cases c with
  | replan requestId command p => exact replan_holds h requestId command p
  | dispatch nodeId version now p reply q => exact (dispatch_holds h nodeId version now p reply q).1
  | interrupt nodeId version p reply q => exact (interrupt_holds h nodeId version p reply q).1
  | settle nodeId attempt lease completion usage effectsKnown p =>
    exact settle_holds h nodeId attempt lease completion usage effectsKnown p
  | reconcileStopped nodeId attempt completion usage effectsKnown p =>
    exact reconcileStopped_holds h nodeId attempt completion usage effectsKnown p

theorem call_dispatched (h : validateSnapshot d = .ok ()) (c : Call) (ht : (c.run digestOf (.live d)).dispatched = some task) :
    (c.run digestOf (.live d)).owner.Holds (Admission d task) := by
  cases c with
  | dispatch nodeId version now p reply q => exact (dispatch_holds h nodeId version now p reply q).2 task ht
  | interrupt nodeId version p reply q =>
    exact absurd ht (by simp only [Call.run, (interrupt_holds h nodeId version p reply q).2.1, reduceCtorEq, not_false_eq_true])
  | _ => cases ht

theorem call_accepted (h : validateSnapshot d = .ok ()) (c : Call) {id attempt : Nat}
    (ha : c.accepted (c.run digestOf (.live d)).result = some (id, attempt)) :
    ∃ d' r' lease deadline, (c.run digestOf (.live d)).owner = Owner.live d' ∧ d'.nodes[id]? = some r' ∧
      r'.state = .cancelling attempt lease deadline := by
  cases c with
  | interrupt nodeId version p reply q =>
    simp only [Call.accepted] at ha
    split at ha
    next attempt' lease' deadline' hresult =>
      obtain ⟨rfl, rfl⟩ := Prod.mk.inj (Option.some.inj ha)
      obtain ⟨attempt, lease, deadline, d', r', howner, _, hr', hr'state⟩ :=
        (interrupt_holds h nodeId version p reply q).2.2 _ hresult
      exact ⟨d', r', _, _, howner, hr', hr'state⟩
    next => cases ha
  | _ => cases ha

theorem call_poisoned (h : o.poisoned = true) (c : Call) :
    (c.run digestOf o).owner = o ∧ (c.run digestOf o).dispatched = none ∧ c.accepted (c.run digestOf o).result = none := by
  cases c with
  | replan requestId command p =>
    have hcheck : o.checkReplan digestOf requestId command = .error .poisoned := by
      rw [Owner.checkReplan, ensureLive_poisoned h]
      rfl
    simp only [Call.run, Owner.replan, hcheck]
    exact ⟨trivial, trivial, rfl⟩
  | dispatch nodeId version now p reply q =>
    obtain ⟨howner, hno⟩ := @committing_poisoned o p _ (o.admitDispatch nodeId version now) h
    simp only [Call.run, Owner.dispatch]
    rcases hfirst : o.committing (o.admitDispatch nodeId version now) p with ⟨_, result⟩
    rw [hfirst] at howner hno
    cases result with
    | error e => exact ⟨howner, rfl, rfl⟩
    | ok task => exact absurd rfl (hno task)
  | interrupt nodeId version p reply q =>
    have hrunning : o.runningAttempt nodeId version = .error .poisoned := by
      rw [Owner.runningAttempt, Owner.ensurePort, ensureLive_poisoned h]
      rfl
    simp only [Call.run, Owner.interrupt, hrunning]
    exact ⟨trivial, trivial, rfl⟩
  | settle nodeId attempt _ completion usage effectsKnown p => exact ⟨(committing_poisoned h).1, rfl, rfl⟩
  | reconcileStopped nodeId attempt completion usage effectsKnown p => exact ⟨(committing_poisoned h).1, rfl, rfl⟩

end Calls

section Open

variable {d : Snapshot} {config : WorkflowConfig} {load : Except StoreError Unit} {initial recovery : Publication}

theorem recover_holds (h : validateSnapshot d = .ok ()) (p : Publication) :
    ((Owner.live d).recover p).1.Holds (Reached d none) := by
  unfold Owner.recover
  by_cases hactive : (Owner.live d).snapshot.hasActive = true
  · rw [if_pos hactive]
    have hcommit := (@committing_holds p (Reached d none) Unit (.ok (d.recovered, ())) d (.refl h none)
      (fun next _ hx n hvalid => by
        cases hx
        exact ⟨(recovered_moves d).sequence n, hvalid⟩)).1
    exact hcommit
  · rw [if_neg hactive]
    exact .live (.refl h none)

theorem open_stored (h : validateSnapshot d = .ok ()) :
    ∃ o : Owner, o.Holds (Reached d none) ∧ (openOwner (some d) config load initial recovery).1 = o.journal ∧
      ∀ o', (openOwner (some d) config load initial recovery).2 = .ok o' → o' = o := by
  unfold openOwner
  cases checkOpen (some d) config load with
  | error e => exact ⟨.live d, .live (.refl h none), rfl, fun o' ho' => by cases ho'⟩
  | ok u =>
    refine ⟨_, recover_holds h recovery, rfl, fun o' ho' => ?_⟩
    have hopened : openedOwner (some d) config initial = (Owner.live d, .ok ()) := rfl
    simp only [hopened] at ho'
    cases hresult : ((Owner.live d).recover recovery).2 with
    | error e =>
      rw [hresult] at ho'
      cases ho'
    | ok u =>
      rw [hresult] at ho'
      exact (Except.ok.inj ho').symm

theorem open_empty :
    ((openOwner none config load initial recovery).1 = none ∧ ∃ e, (openOwner none config load initial recovery).2 = .error e) ∨
    (validateSnapshot (newSnapshot config) = .ok () ∧
      (openOwner none config load initial recovery).1 = some (newSnapshot config) ∧
      ∀ o', (openOwner none config load initial recovery).2 = .ok o' → o' = Owner.live (newSnapshot config)) := by
  unfold openOwner
  cases checkOpen none config load with
  | error e => exact .inl ⟨rfl, e, rfl⟩
  | ok u =>
    have hopened : openedOwner none config initial =
        Owner.publish ⟨none, newSnapshot config, false⟩ (newSnapshot config) none initial := rfl
    have hlive : Owner.ensureLive ⟨none, newSnapshot config, false⟩ = .ok () := rfl
    rw [hopened, Owner.publish, hlive, ok_bind]
    cases hvalid : validateSnapshot (newSnapshot config) with
    | error e => exact .inl ⟨rfl, e, rfl⟩
    | ok u =>
      cases initial with
      | stored =>
        have hjournal : journalCommit none none (newSnapshot config) .stored = (some (newSnapshot config), .ok ()) := rfl
        simp only [hjournal]
        exact .inr ⟨trivial, rfl, fun o' ho' => (Except.ok.inj ho').symm⟩
      | unavailable => exact .inl ⟨rfl, _, rfl⟩
      | unknown written =>
        cases written with
        | false => exact .inl ⟨rfl, _, rfl⟩
        | true => exact .inr ⟨rfl, rfl, fun o' ho' => by cases ho'⟩
      | conflict => exact .inl ⟨rfl, _, rfl⟩

end Open

namespace World

variable {w : World} {digestOf : Replan → Option String}

structure Tracks (w : World) (o : Owner) : Prop where
  journal : o.journal = w.durable
  stored : ∃ d, w.durable = some d
  synced : o.poisoned = false → w.durable = some o.snapshot

structure Law (w : World) : Prop where
  lawful : ∀ s, w.Shows s → Lawful s
  tracks : ∀ o, w.owner = some o → w.Tracks o
  called : ∀ t ∈ w.calls, ∃ d r, w.durable = some d ∧ d.nodes[t.nodeId]? = some r ∧ t.attempt < r.nextAttempt
  increasing : w.calls.Pairwise (fun later earlier => later.nodeId = earlier.nodeId → earlier.attempt < later.attempt)

theorem Law.empty : Law World.empty where
  lawful := fun s hs => by
    rcases hs with hs | ⟨o, ho, _⟩
    · cases hs
    · cases ho
  tracks := fun o ho => by cases ho
  called := fun t ht => by cases ht
  increasing := .nil

/-- What one event does to what is durable: it starts an empty plan, or is one operation on the plan. -/
inductive Advance (w : World) (report : Option Report) (w' : World) : Prop
  | idle (h : w' = w)
  | fresh (config : WorkflowConfig) (hnone : w.durable = none) (hdurable : w'.durable = some (newSnapshot config))
      (hvalid : validateSnapshot (newSnapshot config) = .ok ())
      (howner : ∀ o, w'.owner = some o → o = Owner.live (newSnapshot config)) (hcalls : w'.calls = w.calls)
      (hcancels : w'.cancels = w.cancels)
  | lost (hdurable : w'.durable = w.durable) (howner : w'.owner = none) (hcalls : w'.calls = w.calls)
      (hcancels : w'.cancels = w.cancels)
  | operated (d : Snapshot) (o : Owner) (hd : w.durable = some d) (hholds : o.Holds (Reached d report))
      (hdurable : w'.durable = o.journal) (howner : ∀ o', w'.owner = some o' → o' = o)
      (hcalls : w'.calls = w.calls ∨ ∃ task, w'.calls = task :: w.calls ∧ o.Holds (Admission d task))
      (hcancels : w'.cancels = w.cancels ∨ ∃ id attempt d' r' lease deadline, w'.cancels = (id, attempt) :: w.cancels ∧
        o = Owner.live d' ∧ d'.nodes[id]? = some r' ∧ r'.state = .cancelling attempt lease deadline)

theorem step_advance (h : w.Law) (e : Event) : w.Advance e.report (w.step digestOf e) := by
  cases e with
  | crash => exact .lost rfl rfl rfl rfl
  | start config load initial recovery =>
    cases howner : w.owner with
    | some o => exact .idle (by simp only [step, howner])
    | none =>
      simp only [step, howner]
      cases hdurable : w.durable with
      | none =>
        obtain ⟨hnone, e, he⟩ | ⟨hvalid, hnew, hopened⟩ :=
          @open_empty config load initial recovery
        · refine .lost (hnone.trans hdurable.symm) ?_ rfl rfl
          simp only [he]
          rfl
        · refine .fresh config hdurable hnew hvalid (fun o ho => hopened o ?_) rfl rfl
          cases hresult : (openOwner none config load initial recovery).2 with
          | error e =>
            rw [hresult] at ho
            cases ho
          | ok o' =>
            rw [hresult] at ho
            rw [Option.some.inj ho]
      | some d =>
        obtain ⟨o, hholds, hjournal, hopened⟩ :=
          @open_stored d config load initial recovery (h.lawful d (.inl hdurable)).valid
        refine .operated d o hdurable hholds hjournal (fun o' ho' => hopened o' ?_) (.inl rfl) (.inl rfl)
        cases hresult : (openOwner (some d) config load initial recovery).2 with
        | error e =>
          rw [hresult] at ho'
          cases ho'
        | ok _ =>
          rw [hresult] at ho'
          rw [Option.some.inj ho']
  | call c =>
    cases howner : w.owner with
    | none => exact .idle (by simp only [step, howner])
    | some o =>
      have htracks := h.tracks o howner
      simp only [step, howner]
      cases hpoisoned : o.poisoned with
      | true =>
        obtain ⟨hsame, hcall, haccepted⟩ := @call_poisoned o digestOf hpoisoned c
        refine .idle ?_
        rw [hsame, hcall, haccepted, htracks.journal]
        simp only [Option.toList_none, List.nil_append, ← howner]
      | false =>
        have hdurable := htracks.synced hpoisoned
        have hlive : o = Owner.live o.snapshot := by
          have hjournal := htracks.journal.trans hdurable
          rw [Owner.live, ← hjournal, ← hpoisoned]
        have hvalid := (h.lawful _ (.inl hdurable)).valid
        rw [hlive]
        refine .operated o.snapshot _ hdurable (call_holds hvalid c) rfl
          (fun o' ho' => (Option.some.inj ho').symm) ?_ ?_
        · cases hcall : (c.run digestOf (.live o.snapshot)).dispatched with
          | none => exact .inl rfl
          | some task => exact .inr ⟨task, rfl, call_dispatched hvalid c hcall⟩
        · cases haccepted : c.accepted (c.run digestOf (.live o.snapshot)).result with
          | none => exact .inl rfl
          | some pair =>
            obtain ⟨id, attempt⟩ := pair
            obtain ⟨d', r', lease, deadline, hd'⟩ := call_accepted hvalid c haccepted
            exact .inr ⟨id, attempt, d', r', lease, deadline, rfl, hd'⟩

theorem Law.advance {w' : World} {report : Option Report} (h : w.Law) (ha : w.Advance report w') : w'.Law := by
  cases ha with
  | idle heq => exact heq ▸ h
  | fresh _ hnone hdurable hvalid howner hcalls _ =>
    have hlawful := lawful_new hvalid
    have hnocalls : w.calls = [] := by
      cases hw : w.calls with
      | nil => rfl
      | cons t _ =>
        obtain ⟨d, r, hd, _⟩ := h.called t (hw ▸ List.mem_cons_self)
        rw [hnone] at hd
        cases hd
    refine ⟨fun s hs => ?_, fun o ho => ?_, fun t ht => ?_, ?_⟩
    · rcases hs with hs | ⟨o, ho, rfl⟩
      · rw [hdurable] at hs
        exact Option.some.inj hs ▸ hlawful
      · rw [howner o ho]
        exact hlawful
    · rw [howner o ho]
      exact ⟨hdurable.symm, ⟨_, hdurable⟩, fun _ => hdurable⟩
    · rw [hcalls, hnocalls] at ht
      cases ht
    · rw [hcalls, hnocalls]
      exact .nil
  | lost hdurable howner hcalls _ =>
    refine ⟨fun s hs => ?_, fun o ho => ?_, fun t ht => ?_, hcalls ▸ h.increasing⟩
    · rcases hs with hs | ⟨o, ho, _⟩
      · exact h.lawful s (.inl (hdurable ▸ hs))
      · rw [howner] at ho
        cases ho
    · rw [howner] at ho
      cases ho
    · rw [hdurable]
      exact h.called t (hcalls ▸ ht)
  | operated d o hd hholds hdurable howner hcalls _ =>
    have hlawful : ∀ s, Reached d report s → Lawful s := fun s hs => (h.lawful d (.inl hd)).moves hs.1 hs.2
    obtain ⟨d', hd', hreached⟩ := hholds.journal
    have hadvanced : ∀ t ∈ w.calls, ∃ d r, w'.durable = some d ∧ d.nodes[t.nodeId]? = some r ∧
        t.attempt < r.nextAttempt := by
      intro t ht
      obtain ⟨d0, r, hd0, hr, hlt⟩ := h.called t ht
      cases hd.symm.trans hd0
      have hmove := hreached.1.node t.nodeId
      rw [hr] at hmove
      obtain ⟨r', hr', hle, -⟩ := hmove.onward
      exact ⟨d', r', hdurable.trans hd', hr', Nat.lt_of_lt_of_le hlt hle⟩
    refine ⟨fun s hs => ?_, fun o' ho' => ?_, fun t ht => ?_, ?_⟩
    · rcases hs with hs | ⟨o', ho', rfl⟩
      · rw [hdurable, hd'] at hs
        exact Option.some.inj hs ▸ hlawful d' hreached
      · rw [howner o' ho']
        exact hlawful _ hholds.snapshot
    · rw [howner o' ho']
      refine ⟨hdurable.symm, ⟨d', hdurable.trans hd'⟩, fun hp => ?_⟩
      rw [hdurable]
      exact hholds.synced hp
    · obtain hcalls | ⟨task, hcalls, hadmission⟩ := hcalls
      · exact hadvanced t (hcalls ▸ ht)
      · rw [hcalls, List.mem_cons] at ht
        rcases ht with rfl | ht
        · obtain ⟨d1, hd1, hadmitted⟩ := hadmission.journal
          obtain ⟨r, state, reserved, _, _, _, _, _, _, hnext⟩ := hadmitted.dispatched
          exact ⟨d1, _, hdurable.trans hd1, hnext, Nat.lt_succ_self _⟩
        · exact hadvanced t ht
    · obtain hcalls | ⟨task, hcalls, hadmission⟩ := hcalls
      · rw [hcalls]
        exact h.increasing
      · rw [hcalls, List.pairwise_cons]
        refine ⟨fun t ht hnode => ?_, h.increasing⟩
        -- the attempt is the counter that every earlier attempt of the node is below
        obtain ⟨d1, _, hadmitted⟩ := hadmission.journal
        obtain ⟨r, state, reserved, hr, _, _, hattempt, _⟩ := hadmitted.dispatched
        obtain ⟨d0, _, hd0, hr0, hlt⟩ := h.called t ht
        cases hd.symm.trans hd0
        rw [hnode, hr0] at hr
        rw [← hattempt, ← Option.some.inj hr]
        exact hlt

theorem law_run (digestOf : Replan → Option String) (events : List Event) : (run digestOf events).Law := by
  suffices h : ∀ (events : List Event) (w : World), w.Law → (events.foldl (step digestOf) w).Law from h events _ .empty
  intro events
  induction events with
  | nil => exact fun w h => h
  | cons e events ih => exact fun w h => ih _ (h.advance (step_advance h e))

theorem run_append (events more : List Event) :
    run digestOf (events ++ more) = more.foldl (step digestOf) (run digestOf events) := List.foldl_append

theorem Law.onward : ∀ (more : List Event) {w : World}, w.Law → ∀ {d : Snapshot}, w.durable = some d →
    ∃ d', (more.foldl (step digestOf) w).durable = some d' ∧ d.Onward d'
  | [], w, _, d, hd => ⟨d, hd, .refl d⟩
  | e :: more, w, h, d, hd => by
    have hadvance := @step_advance w digestOf h e
    obtain ⟨d₁, hd₁, h₁⟩ : ∃ d₁, (w.step digestOf e).durable = some d₁ ∧ d.Onward d₁ := by
      cases hadvance with
      | idle heq => exact ⟨d, (congrArg World.durable heq).trans hd, .refl d⟩
      | fresh _ hnone => rw [hnone] at hd; cases hd
      | lost hdurable => exact ⟨d, hdurable.trans hd, .refl d⟩
      | operated _ o hd0 hholds hdurable =>
        cases hd.symm.trans hd0
        obtain ⟨d₁, hd₁, hreached⟩ := hholds.journal
        exact ⟨d₁, hdurable.trans hd₁, hreached.1.onward⟩
    obtain ⟨d', hd', h'⟩ := Law.onward more (h.advance hadvance) hd₁
    refine ⟨d', hd', h'.config.trans h₁.config, fun id r hr => ?_⟩
    obtain ⟨r₁, hr₁, honward⟩ := h₁.node id r hr
    obtain ⟨r', hr', honward'⟩ := h'.node id r₁ hr₁
    exact ⟨r', hr', honward.trans honward'⟩

theorem Law.succeeded (more : List Event) (h : w.Law) {d : Snapshot} {id : Nat} {r : NodeRecord} (hd : w.durable = some d)
    (hr : d.nodes[id]? = some r) (hsucceeded : r.state.isSucceeded = true) :
    ∃ d', (more.foldl (step digestOf) w).durable = some d' ∧ d'.nodes[id]? = some r := by
  obtain ⟨d', hd', h'⟩ := h.onward more hd
  obtain ⟨_, hr', honward⟩ := h'.node id r hr
  exact ⟨d', hd', honward.final (.inr hsucceeded) ▸ hr'⟩

end World

theorem settle_stale {o : Owner} {nodeId attempt : Nat} {lease : TurnLease} (completion : Completion) (usage : BudgetUsage)
    (effectsKnown : Bool) (p : Publication)
    (h : ∀ r, o.snapshot.nodes[nodeId]? = some r → ¬ (r.state.attempt = some attempt ∧ r.state.lease = some lease)) :
    ∃ e, o.settle nodeId attempt lease completion usage effectsKnown p = (o, .error e) := by
  unfold Owner.settle
  cases hx : (do
    o.ensureLive
    let record ← o.snapshot.requireNode nodeId
    refuseIf (record.state.attempt ≠ some attempt ∨ record.state.lease ≠ some lease ∨ record.state.settleable = false)
      .staleLease
    o.snapshot.settled nodeId attempt (some lease) completion usage effectsKnown : Except Error (Snapshot × NodeState)) with
  | error e => exact ⟨e, rfl⟩
  | ok _ =>
    simp only [bind_eq_ok, refuseIf_eq_ok, not_or, not_not, Bool.not_eq_false] at hx
    obtain ⟨_, _, r, hr, _, ⟨hattempt, hlease, _⟩, _⟩ := hx
    exact absurd ⟨hattempt, hlease⟩ (h r (requireNode_eq_ok hr))

/-- **Single flight and budget safety**, after every run: each task the controller was asked to run has a higher attempt
than the earlier ones of its node; every snapshot is `Safe`; an owner that is not poisoned shows what is durable, and a
durable record that has succeeded is never changed by what follows; a settlement for another attempt or lease than the
node's changes nothing. -/
theorem scheduler_single_flight (digestOf : Replan → Option String) (events : List Event) :
    ((World.run digestOf events).calls.Pairwise
      (fun later earlier => later.nodeId = earlier.nodeId → earlier.attempt < later.attempt) ∧
      ((World.run digestOf events).calls.map (fun t => (t.nodeId, t.attempt))).Nodup) ∧
    (∀ s, (World.run digestOf events).Shows s → Safe s) ∧
    (∀ o, (World.run digestOf events).owner = some o → o.poisoned = false →
      (World.run digestOf events).durable = some o.snapshot) ∧
    (∀ (d : Snapshot) (id : Nat) (r : NodeRecord), (World.run digestOf events).durable = some d → d.nodes[id]? = some r →
      r.state.isSucceeded = true → ∀ more, ∃ d', (World.run digestOf (events ++ more)).durable = some d' ∧ d'.nodes[id]? = some r) ∧
    (∀ o nodeId attempt lease completion usage effectsKnown p, (World.run digestOf events).owner = some o →
      (∀ r, o.snapshot.nodes[nodeId]? = some r → ¬ (r.state.attempt = some attempt ∧ r.state.lease = some lease)) →
      (∃ e, o.settle nodeId attempt lease completion usage effectsKnown p = (o, .error e)) ∧
      (World.run digestOf events).step digestOf (.call (.settle nodeId attempt lease completion usage effectsKnown p)) =
        World.run digestOf events) := by
  have hlaw := World.law_run digestOf events
  refine ⟨⟨hlaw.increasing, ?_⟩, fun s hs => (hlaw.lawful s hs).safe, fun o ho => (hlaw.tracks o ho).synced, ?_, ?_⟩
  · rw [List.Nodup, List.pairwise_map]
    refine hlaw.increasing.imp (fun hlt heq => ?_)
    obtain ⟨hnode, _⟩ := Prod.mk.inj heq
    have := hlt hnode
    omega
  · intro d id r hd hr hsucceeded more
    rw [World.run_append]
    exact hlaw.succeeded more hd hr hsucceeded
  · intro o nodeId attempt lease completion usage effectsKnown p ho hstale
    obtain ⟨e, he⟩ := settle_stale completion usage effectsKnown p hstale
    refine ⟨⟨e, he⟩, ?_⟩
    simp only [World.step, ho, Call.run, he, Call.accepted, Option.toList_none, List.nil_append]
    rw [(hlaw.tracks o ho).journal, ← ho]

/-- The call reports success, with known effects and within the node's budget, for an attempt that needs reconciliation
and whose cancellation was accepted. -/
def World.Overrides (w : World) (e : Event) : Prop :=
  ∃ report d r resultDigest, e.report = some report ∧ report.completion = .succeeded resultDigest ∧
    report.effectsKnown = true ∧ (report.nodeId, report.attempt) ∈ w.cancels ∧ w.durable = some d ∧
    d.nodes[report.nodeId]? = some r ∧ r.state.isRecoveryRequired = true ∧ r.state.attempt = some report.attempt ∧
    usageFits report.usage r.node.budget = true

/-- The states of an attempt whose cancellation was accepted. -/
def NodeState.stopped : NodeState → Bool
  | .cancelling _ _ _ | .cancelled _ _ | .failed _ _ | .recoveryRequired _ _ _ => true
  | _ => false

/-- The node is past the attempt, or the attempt is stopped. -/
def Snapshot.Stops (d : Snapshot) (cancel : Nat × Nat) : Prop :=
  ∃ r, d.nodes[cancel.1]? = some r ∧ cancel.2 < r.nextAttempt ∧
    (r.state.attempt = some cancel.2 → r.state.stopped = true)

def World.Honours (w : World) : Prop := ∀ cancel ∈ w.cancels, ∃ d, w.durable = some d ∧ d.Stops cancel

section Cancel

variable {s : Snapshot} {report : Option Report} {id attempt : Nat}

theorem completionState_stopped {state state' : NodeState} {completion : Completion}
    (h : completionState state attempt completion = .ok state') (hstopped : state.stopped = true) :
    state'.stopped = true ∨ (state.isRecoveryRequired = true ∨ state.settleable = false) ∧
      ∃ resultDigest, completion = .succeeded resultDigest := by
  cases completion with
  | succeeded resultDigest =>
    simp only [completionState, bind_eq_ok] at h
    obtain ⟨_, _, h⟩ := h
    cases state with
    | cancelling => cases h
    | cancelled => exact .inr ⟨.inr rfl, resultDigest, rfl⟩
    | failed => exact .inr ⟨.inr rfl, resultDigest, rfl⟩
    | recoveryRequired => exact .inr ⟨.inl rfl, resultDigest, rfl⟩
    | _ => cases hstopped
  | failed detail =>
    simp only [completionState, bind_eq_ok, pure_eq_ok] at h
    obtain ⟨_, _, rfl⟩ := h
    exact .inl rfl
  | cancelled detail =>
    simp only [completionState, bind_eq_ok, pure_eq_ok] at h
    obtain ⟨_, _, rfl⟩ := h
    exact .inl rfl

theorem Move.stopped {r : NodeRecord} {y : Option NodeRecord} (h : Move s report id (some r) y)
    (hfresh : attempt < r.nextAttempt) (hstopped : r.state.attempt = some attempt → r.state.stopped = true)
    (hreport : ∀ resultDigest usage, report = some ⟨id, attempt, .succeeded resultDigest, usage, true⟩ →
      r.state.isRecoveryRequired = true → r.state.attempt = some attempt → usageFits usage r.node.budget = true → False) :
    ∃ r', y = some r' ∧ attempt < r'.nextAttempt ∧ (r'.state.attempt = some attempt → r'.state.stopped = true) := by
  cases h with
  | same => exact ⟨r, rfl, hfresh, hstopped⟩
  | replaced _ _ hp =>
    refine ⟨_, rfl, hfresh, fun ha => ?_⟩
    rw [hp] at ha
    cases ha
  | removed => exact ⟨_, rfl, hfresh, fun ha => by cases ha⟩
  | retried => exact ⟨_, rfl, hfresh, fun ha => by cases ha⟩
  | dispatched _ state _ _ _ _ _ hafter =>
    refine ⟨_, rfl, Nat.lt_succ_of_lt hfresh, fun ha => ?_⟩
    -- the new attempt is the counter, which the cancelled one is below
    have hnew : state.attempt = some r.nextAttempt := by cases hafter <;> rfl
    rw [hnew] at ha
    have := Option.some.inj ha
    omega
  | interrupted _ state attempt' _ _ hrunning hafter =>
    refine ⟨_, rfl, hfresh, fun ha => ?_⟩
    rw [afterInterrupt_attempt hafter] at ha
    have := hstopped (by rw [hrunning, ← ha]; rfl)
    rw [hrunning] at this
    cases this
  | unresolved => exact ⟨_, rfl, hfresh, fun _ => rfl⟩
  | settled _ attempt' _ state usage _ hopen hattempt _ hrep hfits hcompletion =>
    refine ⟨_, rfl, hfresh, fun ha => ?_⟩
    cases (completionState_attempt hcompletion).1.symm.trans ha
    obtain hdone | ⟨hrecovery | hclosed, resultDigest, rfl⟩ := completionState_stopped hcompletion (hstopped hattempt)
    · exact hdone
    · exact (hreport resultDigest usage hrep hrecovery hattempt hfits).elim
    · rw [hopen] at hclosed
      cases hclosed
  | recovered => exact ⟨_, rfl, hfresh, fun _ => rfl⟩

theorem World.Honours.advance {w w' : World} (e : Event) (h : w.Honours) (hlaw : w.Law)
    (ha : w.Advance e.report w') (hallowed : ¬ w.Overrides e) : w'.Honours := by
  cases ha with
  | idle heq => exact heq ▸ h
  | fresh _ hnone _ _ _ _ hcancels =>
    intro cancel hc
    obtain ⟨d, hd, _⟩ := h cancel (hcancels ▸ hc)
    rw [hnone] at hd
    cases hd
  | lost hdurable _ _ hcancels =>
    intro cancel hc
    rw [hdurable]
    exact h cancel (hcancels ▸ hc)
  | operated d o hd hholds hdurable _ _ hcancels =>
    obtain ⟨d', hd', hreached⟩ := hholds.journal
    have hkept : ∀ cancel ∈ w.cancels, ∃ d', w'.durable = some d' ∧ d'.Stops cancel := by
      intro cancel hc
      obtain ⟨_, hd0, r, hr, hfresh, hstopped⟩ := h cancel hc
      cases hd.symm.trans hd0
      have hmove := hreached.1.node cancel.1
      rw [hr] at hmove
      refine ⟨d', hdurable.trans hd', hmove.stopped hfresh hstopped ?_⟩
      intro resultDigest usage hreport hrecovery hattempt hfits
      exact hallowed ⟨_, d, r, resultDigest, hreport, rfl, rfl, hc, hd, hr, hrecovery, hattempt, hfits⟩
    intro cancel hc
    obtain hsame | ⟨id, attempt, d1, r', _, _, hnew, ho, hr', hstate⟩ := hcancels
    · exact hkept cancel (hsame ▸ hc)
    · rw [hnew, List.mem_cons] at hc
      rcases hc with rfl | hc
      · have hd1 : w'.durable = some d1 := by rw [hdurable, ho]; rfl
        have hlawful : Lawful d1 := by
          rw [ho] at hholds
          exact (hlaw.lawful d (.inl hd)).moves hholds.snapshot.1 hholds.snapshot.2
        refine ⟨d1, hd1, r', hr', (hlawful.records id r' hr').fresh attempt (by rw [hstate]; rfl), fun _ => ?_⟩
        rw [hstate]
        rfl
      · exact hkept cancel hc

theorem honours_foldl (digestOf : Replan → Option String) : ∀ (events : List Event) (w : World), w.Law → w.Honours →
    (∀ before e after, events = before ++ e :: after → ¬ (before.foldl (World.step digestOf) w).Overrides e) →
    (events.foldl (World.step digestOf) w).Honours
  | [], _, _, h, _ => h
  | e :: events, w, hlaw, h, hallowed => by
    have hadvance := @World.step_advance w digestOf hlaw e
    refine honours_foldl digestOf events _ (hlaw.advance hadvance) (h.advance e hlaw hadvance (hallowed [] e events rfl)) ?_
    intro before e' after heq
    exact hallowed (e :: before) e' after (congrArg (List.cons e) heq)

end Cancel

/-- **Cancellation is honoured** in every run in which no call reports success for an attempt to be reconciled whose
cancellation was accepted: that attempt is never in another state than cancelling, cancelled, failed or to be
reconciled. -/
theorem cancellation_honoured (digestOf : Replan → Option String) (events : List Event)
    (h : ∀ before e after, events = before ++ e :: after → ¬ (World.run digestOf before).Overrides e) :
    ∀ id attempt, (id, attempt) ∈ (World.run digestOf events).cancels →
      ∃ d r, (World.run digestOf events).durable = some d ∧ d.nodes[id]? = some r ∧ attempt < r.nextAttempt ∧
        (r.state.attempt = some attempt → r.state.stopped = true ∧ r.state.isSucceeded = false) := by
  intro id attempt hc
  have hhonours := honours_foldl digestOf events _ .empty (fun cancel hc => by cases hc) h
  obtain ⟨d, hd, r, hr, hfresh, hstopped⟩ := hhonours (id, attempt) hc
  refine ⟨d, r, hd, hr, hfresh, fun ha => ⟨hstopped ha, ?_⟩⟩
  have hs := hstopped ha
  cases hstate : r.state <;> rw [hstate] at hs <;> first | rfl | cases hs

section Scene

def sceneConfig : WorkflowConfig where
  workflowId := "flow"
  budget := ⟨4, 1000, 1000, 60000⟩
  maxNodes := 4
  maxEdges := 4
  maxConcurrency := 2
  startedAtUnixMs := 1000
  deadlineUnixMs := 50000

def sceneDigest : String := "0000000000000000000000000000000000000000000000000000000000000000"

def sceneNode : WorkflowNode where
  id := 1
  label := "build"
  task := "build the project"
  dependencies := []
  assignedAgent := 7
  inputDigest := sceneDigest
  budget := ⟨2, 100, 100, 10000⟩

def sceneLease : TurnLease := ⟨7, 1, 1⟩

def sceneUsage : BudgetUsage := { turns := 1, tokens := 10, costMicrousd := 5, wallMs := 100 }

/-- A node is added, dispatched and interrupted; the owner crashes and a new one opens the journal. -/
def cancelledScene : List Event :=
  [.start sceneConfig (.ok ()) .stored .stored,
   .call (.replan "plan" ⟨0, [.add sceneNode]⟩ .stored),
   .call (.dispatch 1 1 2000 .stored (some (.ok sceneLease)) .stored),
   .call (.interrupt 1 1 .stored (some (.ok ())) .stored),
   .crash,
   .start sceneConfig (.ok ()) .stored .stored]

def World.stateOf (w : World) (id : Nat) : Option NodeState := (w.durable.bind (fun d => d.nodes[id]?)).map (fun r => r.state)

/-- Nothing overrides a cancellation, so it stands. -/
theorem cancellation_honoured_cancelled :
    ∃ d r, (World.run (fun _ => some sceneDigest) cancelledScene).durable = some d ∧ d.nodes[1]? = some r ∧
      1 < r.nextAttempt ∧ (r.state.attempt = some 1 → r.state.stopped = true ∧ r.state.isSucceeded = false) := by
  refine cancellation_honoured (fun _ => some sceneDigest) cancelledScene ?_ 1 1 (.head _)
  intro before e after heq hoverride
  obtain ⟨_, _, _, _, hreport, _⟩ := hoverride
  have hnone : ∀ e ∈ cancelledScene, e.report = none := by
    simp [cancelledScene, Event.report, Call.report]
  rw [hnone e (by rw [heq]; simp)] at hreport
  cases hreport

/-- The new owner may be told that the cancelled attempt succeeded. -/
theorem not_cancellation_honoured :
    let w := World.run (fun _ => some sceneDigest)
      (cancelledScene ++ [.call (.settle 1 1 sceneLease (.succeeded sceneDigest) sceneUsage true .stored)])
    (1, 1) ∈ w.cancels ∧ w.stateOf 1 = some (.succeeded 1 sceneDigest) := by
  decide +kernel

end Scene

end Iteron.Scheduler
