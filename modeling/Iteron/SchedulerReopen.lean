import Iteron.SchedulerQuarantine
/-!
# SchedulerReopen — opening what a run made durable

Every durable snapshot is one that was validated, so an owner reads it back.  When nodes were active, `open` commits one
event more: the recovery form of a valid snapshot is valid, and the one thing that may be missing is room for the event.
-/
namespace Iteron.Scheduler

open Machine Refuse
open Dag (BudgetUsage)

/-- What an owner that opens a snapshot has of it. -/
structure Reopened (d d' : Snapshot) : Prop where
  same : d' = { d with nodes := d'.nodes, sequence := d'.sequence }
  sequence : d'.sequence = if d.hasActive then d.sequence + 1 else d.sequence
  idle : ∀ id : Nat, (∀ r, d.nodes[id]? = some r → r.state.active = false) → d'.nodes[id]? = d.nodes[id]?
  active : ∀ (id : Nat) (r : NodeRecord), d.nodes[id]? = some r → r.state.active = true →
    ∃ attempt, r.state.attempt = some attempt ∧ d'.nodes[id]? = some { r with
      state := .recoveryRequired attempt r.state.lease "restart requires controller/supervisor effect reconciliation" }

section

variable {d : Snapshot} {r : NodeRecord}

/-! ## The recovery form -/

theorem recoveredRecord_idle (h : r.state.active = false) : recoveredRecord r = r := by
  unfold recoveredRecord
  split
  · rw [if_neg (by rw [h]; decide)]
  · rfl

theorem recoveredRecord_active (h : r.state.active = true) : ∃ attempt, r.state.attempt = some attempt ∧
    recoveredRecord r = { r with
      state := .recoveryRequired attempt r.state.lease "restart requires controller/supervisor effect reconciliation" } := by
  obtain ⟨attempt, hattempt⟩ : ∃ attempt, r.state.attempt = some attempt := by
    cases hstate : r.state with
    | dispatching attempt _ => exact ⟨attempt, rfl⟩
    | running attempt _ _ => exact ⟨attempt, rfl⟩
    | cancelling attempt _ _ => exact ⟨attempt, rfl⟩
    | _ =>
      rw [hstate] at h
      cases h
  refine ⟨attempt, hattempt, ?_⟩
  unfold recoveredRecord
  rw [hattempt]
  simp only [if_pos h]

theorem keepsPlan_recovered : KeepsPlan (fun _ r => recoveredRecord r) := by
  intro id r
  dsimp only
  by_cases hactive : r.state.active = true
  · obtain ⟨_, -, hrecovered⟩ := recoveredRecord_active hactive
    rw [hrecovered]
    refine ⟨rfl, iff_of_false (fun h => by cases h) (fun h => ?_)⟩
    rw [h] at hactive
    cases hactive
  · rw [recoveredRecord_idle (Bool.eq_false_of_not_eq_true hactive)]
    exact ⟨rfl, Iff.rfl⟩

variable {config : WorkflowConfig}

theorem checkState_idle {agents agents' : List Nat} (h : r.state.active = false)
    (hok : checkState config agents r = .ok agents') : checkState config [] r = .ok [] := by
  unfold checkState at hok ⊢
  cases hstate : r.state with
  | pending => rfl
  | removed => rfl
  | succeeded attempt _ =>
    rw [hstate] at hok
    obtain ⟨_, hdigest, -⟩ := bind_eq_ok.1 hok
    exact bind_eq_ok.2 ⟨(), hdigest, rfl⟩
  | failed attempt detail =>
    rw [hstate] at hok
    obtain ⟨_, htext, -⟩ := bind_eq_ok.1 hok
    exact bind_eq_ok.2 ⟨(), htext, rfl⟩
  | cancelled attempt detail =>
    rw [hstate] at hok
    obtain ⟨_, htext, -⟩ := bind_eq_ok.1 hok
    exact bind_eq_ok.2 ⟨(), htext, rfl⟩
  | recoveryRequired attempt _ _ =>
    rw [hstate] at hok
    obtain ⟨_, htext, -⟩ := bind_eq_ok.1 hok
    exact bind_eq_ok.2 ⟨(), htext, rfl⟩
  | _ =>
    rw [hstate] at h
    cases h

theorem tallyRecord_recovered (r : NodeRecord) (t t' : Tally) (h : tallyRecord config t r = .ok t') :
    tallyRecord config ⟨[], t.reserved⟩ (recoveredRecord r) = .ok ⟨[], t'.reserved⟩ := by
  simp only [tallyRecord, bind_eq_ok] at h
  obtain ⟨reserved, hreserved, _, hcounter, _, hlease, _, htask, _, hagents, _, husage, hdone⟩ := h
  cases hdone
  by_cases hactive : r.state.active = true
  · obtain ⟨_, hattempt, hrecovered⟩ := recoveredRecord_active hactive
    rw [hrecovered]
    simp only [tallyRecord, bind_eq_ok]
    rw [hattempt] at hcounter
    refine ⟨reserved, hreserved, (), hcounter, (), hlease, (), ?_, [], rfl, (), husage, rfl⟩
    cases htask' : r.admittedTask with
    | none => rfl
    | some _ =>
      simp only [htask', Option.forM, refuseIf_eq_ok, admittedTaskDiffers, hattempt] at htask
      exact refuseIf_of_not htask
  · have hidle := Bool.eq_false_of_not_eq_true hactive
    rw [recoveredRecord_idle hidle]
    simp only [tallyRecord, bind_eq_ok]
    exact ⟨reserved, hreserved, (), hcounter, (), hlease, (), htask, [], checkState_idle hidle hagents, (), husage, rfl⟩

theorem validateSnapshot_recovered (h : validateSnapshot d = .ok ()) (hcap : d.sequence < maxSchedulerEvents) :
    validateSnapshot { d.recovered with sequence := d.sequence + 1 } = .ok () :=
  @validateSnapshot_map _ d (fun t => ⟨[], t.reserved⟩) h hcap keepsPlan_recovered
    (fun _ r t t' => tallyRecord_recovered r t t') rfl (fun _ => ⟨Nat.zero_le _, rfl⟩)

/-! ## Opening it -/

theorem checkOpen_ok (h : validateSnapshot d = .ok ()) : checkOpen (some d) d.config (.ok ()) = .ok () := by
  have hconfig : validateConfig d.config = .ok () := by
    simp only [validateSnapshot, bind_eq_ok] at h
    obtain ⟨_, hconfig, -⟩ := h
    exact hconfig
  rw [checkOpen, hconfig, ok_bind]
  show ((do validateSnapshot d; refuseIf (d.config ≠ d.config) (.invalid "stored immutable config differs")) :
    Except Error Unit) = .ok ()
  rw [h, ok_bind]
  exact refuseIf_of_not (fun hne => hne rfl)

theorem open_eq (h : validateSnapshot d = .ok ()) (initial recovery : Publication) :
    openOwner (some d) d.config (.ok ()) initial recovery = (((Owner.live d).recover recovery).1.journal,
        ((Owner.live d).recover recovery).2.map (fun _ => ((Owner.live d).recover recovery).1)) := by
  rw [openOwner, checkOpen_ok h]
  rfl

theorem open_idle (h : validateSnapshot d = .ok ()) (hactive : d.hasActive = false) (initial recovery : Publication) :
    openOwner (some d) d.config (.ok ()) initial recovery = (some d, .ok (Owner.live d)) := by
  have hrecover : (Owner.live d).recover recovery = (Owner.live d, .ok ()) := by
    rw [Owner.recover, show (Owner.live d).snapshot.hasActive = false from hactive]
    rfl
  rw [open_eq h, hrecover]
  rfl

theorem open_active (h : validateSnapshot d = .ok ()) (hactive : d.hasActive = true)
    (hcap : d.sequence < maxSchedulerEvents) (initial : Publication) :
    openOwner (some d) d.config (.ok ()) initial .stored = (some { d.recovered with sequence := d.sequence + 1 },
        .ok (Owner.live { d.recovered with sequence := d.sequence + 1 })) := by
  have hrecover : (Owner.live d).recover .stored = (Owner.live { d.recovered with sequence := d.sequence + 1 }, .ok ()) := by
    rw [Owner.recover, show (Owner.live d).snapshot.hasActive = true from hactive, if_pos rfl]
    exact commit_stored hcap (validateSnapshot_recovered h hcap)
  rw [open_eq h, hrecover]
  rfl

theorem open_full (h : validateSnapshot d = .ok ()) (hactive : d.hasActive = true)
    (hcap : maxSchedulerEvents ≤ d.sequence) (initial recovery : Publication) :
    openOwner (some d) d.config (.ok ()) initial recovery = (some d, .error (.capacity "event")) := by
  have hrecover : (Owner.live d).recover recovery = (Owner.live d, .error (.capacity "event")) := by
    rw [Owner.recover, show (Owner.live d).snapshot.hasActive = true from hactive, if_pos rfl, Owner.commit, if_pos]
    exact hcap
  rw [open_eq h, hrecover]
  rfl

theorem not_active_of_idle (h : d.hasActive = false) {id : Nat} (hr : d.nodes[id]? = some r) : r.state.active = false := by
  rw [Snapshot.hasActive, List.any_eq_false] at h
  exact Bool.eq_false_of_not_eq_true (h r ((Table.mem_vals _ _).2 ⟨id, hr⟩))

theorem reopened_self (h : d.hasActive = false) : Reopened d d where
  same := rfl
  sequence := by rw [h]; rfl
  idle := fun _ _ => rfl
  active := fun id r hr hactive => by
    rw [not_active_of_idle h hr] at hactive
    cases hactive

theorem reopened_recovered (h : d.hasActive = true) : Reopened d { d.recovered with sequence := d.sequence + 1 } where
  same := rfl
  sequence := by rw [h]; rfl
  idle := fun id hidle => by
    show (d.nodes.map fun _ r => recoveredRecord r)[id]? = _
    rw [Table.get_map]
    cases hr : d.nodes[id]? with
    | none => rfl
    | some r =>
      rw [Option.map_some, recoveredRecord_idle (hidle r hr)]
  active := fun id r hr hactive => by
    obtain ⟨attempt, hattempt, hrecovered⟩ := recoveredRecord_active hactive
    refine ⟨attempt, hattempt, ?_⟩
    show (d.nodes.map fun _ r => recoveredRecord r)[id]? = _
    rw [Table.get_map, hr, Option.map_some, hrecovered]

/-- **A durable snapshot opens**: with the same configuration and a journal that accepts, `open` gives the snapshot with
exactly its active nodes to reconcile, one event later when there were any; unless there were and the events are used up,
and then it refuses with `Capacity` and leaves the journal as it was. -/
theorem durable_reopens (digestOf : Replan → Option String) (events : List Event) (d : Snapshot) (initial : Publication)
    (hd : (World.run digestOf events).durable = some d) : (d.hasActive = true ∧ d.sequence = maxSchedulerEvents ∧
      openOwner (some d) d.config (.ok ()) initial .stored = (some d, .error (.capacity "event"))) ∨
    (¬ (d.hasActive = true ∧ d.sequence = maxSchedulerEvents) ∧ ∃ d',
      openOwner (some d) d.config (.ok ()) initial .stored = (some d', .ok (Owner.live d')) ∧ Reopened d d') := by
  have hvalid : validateSnapshot d = .ok () := ((World.law_run digestOf events).lawful d (.inl hd)).valid
  have hle : d.sequence ≤ maxSchedulerEvents := by
    simp only [validateSnapshot, bind_eq_ok, refuseIf_eq_ok, not_or, not_lt] at hvalid
    obtain ⟨_, -, _, ⟨-, hseq, -⟩, -⟩ := hvalid
    exact hseq
  cases hactive : d.hasActive with
  | false =>
    refine .inr ⟨fun h => ?_, d, open_idle hvalid hactive initial .stored, reopened_self hactive⟩
    cases h.1
  | true =>
    by_cases hfull : d.sequence = maxSchedulerEvents
    · exact .inl ⟨rfl, hfull, open_full hvalid hactive (Nat.le_of_eq hfull.symm) initial .stored⟩
    · have hcap : d.sequence < maxSchedulerEvents := Nat.lt_of_le_of_ne hle hfull
      exact .inr ⟨fun h => hfull h.2, _, open_active hvalid hactive hcap initial, reopened_recovered hactive⟩

end

/-! ## A node that cannot be interrupted -/

def sceneTask : ScheduledTask where
  workflowId := "flow"
  nodeId := 1
  attempt := 1
  inputDigest := sceneDigest
  assignedAgent := 7
  task := "build the project"
  budget := ⟨2, 100, 100, 10000⟩
  deadlineUnixMs := 12000

def sceneReserved : BudgetUsage := { turns := 2, tokens := 100, costMicrousd := 100, wallMs := 10000 }

def sceneAt (state : NodeState) (sequence : Nat) : Snapshot where
  version := 1
  config := sceneConfig
  sequence := sequence
  revision := 1
  nodes := (∅ : Nodes).insert 1
    { node := sceneNode, state := state, admittedTask := some sceneTask, nextAttempt := 2, usage := {}, attemptUsage := {}
      reservedBudget := sceneReserved }
  reserved := sceneReserved
  receipts := (∅ : Std.ExtTreeMap String StoredReceipt compare).insert "plan" ⟨sceneDigest, ⟨1, 1, 1, false⟩⟩

/-- The node is added and dispatched, and the controller runs it. -/
def runningScene : List Event :=
  [.start sceneConfig (.ok ()) .stored .stored, .call (.replan "plan" ⟨0, [.add sceneNode]⟩ .stored),
   .call (.dispatch 1 1 2000 .stored (some (.ok sceneLease)) .stored)]

set_option maxRecDepth 20000 in
theorem run_runningScene : World.run (fun _ => some sceneDigest) runningScene =
    ⟨some (sceneAt (.running 1 sceneLease 12000) 3), some (.live (sceneAt (.running 1 sceneLease 12000) 3)), [sceneTask], []⟩ := by rfl

def sceneRunning : NodeState := .running 1 sceneLease 12000

def sceneCancelling : NodeState := .cancelling 1 sceneLease 12000

theorem valid_sceneAt {state : NodeState} {n : Nat} (h : validateSnapshot (sceneAt state 3) = .ok ()) (hlater : 3 ≤ n)
    (hcap : n ≤ maxSchedulerEvents) : validateSnapshot (sceneAt state n) = .ok () := by
  have hvalid := validateSnapshot_later h hlater hcap (validGraph_of_ok h) (fun t ht => ⟨t, ht, Nat.le_refl _, rfl⟩)
  exact hvalid

set_option maxRecDepth 20000 in
theorem valid_sceneRunning : validateSnapshot (sceneAt sceneRunning 3) = .ok () := by rfl

set_option maxRecDepth 20000 in
theorem valid_sceneCancelling : validateSnapshot (sceneAt sceneCancelling 3) = .ok () := by rfl

theorem committing_scene {state state' : NodeState} {n : Nat} (hvalid : validateSnapshot (sceneAt state' 3) = .ok ())
    (hlater : 3 ≤ n) (hcap : n < maxSchedulerEvents) :
    (Owner.live (sceneAt state n)).committing ((sceneAt state n).withState 1 state') .stored =
      (Owner.live (sceneAt state' (n + 1)), .ok state') := by
  have hnext : (sceneAt state n).withState 1 state' = .ok (sceneAt state' n, state') := rfl
  have hcommit : (Owner.live (sceneAt state n)).commit (sceneAt state' n) .stored =
      (Owner.live (sceneAt state' (n + 1)), .ok ()) :=
    commit_stored hcap (valid_sceneAt hvalid (Nat.le_succ_of_le hlater) hcap)
  rw [hnext, Owner.committing, hcommit]
  rfl

def refusedInterrupt : Event := .call (.interrupt 1 1 .stored (some (.error (.notApplied "busy"))) .stored)

/-- The owner asks to interrupt and is dropped while it waits. -/
def droppedInterrupt : Event := .call (.interrupt 1 1 .stored none .stored)

def sceneWorld (state : NodeState) (n : Nat) : World :=
  ⟨some (sceneAt state n), some (.live (sceneAt state n)), [sceneTask], []⟩

theorem runningAttempt_scene (n : Nat) :
    (Owner.live (sceneAt sceneRunning n)).runningAttempt 1 1 = .ok (1, sceneLease, 12000) := rfl

theorem asked_scene {n : Nat} (hlater : 3 ≤ n) (hcap : n < maxSchedulerEvents) :
    (Owner.live (sceneAt sceneRunning n)).committing
        ((Owner.live (sceneAt sceneRunning n)).snapshot.withState 1 (.cancelling 1 sceneLease 12000)) .stored =
      (Owner.live (sceneAt sceneCancelling (n + 1)), .ok sceneCancelling) :=
  committing_scene valid_sceneCancelling hlater hcap

variable {digestOf : Replan → Option String}

theorem step_refused {n : Nat} (hlater : 3 ≤ n) (hcap : n + 2 ≤ maxSchedulerEvents) :
    (sceneWorld sceneRunning n).step digestOf refusedInterrupt = sceneWorld sceneRunning (n + 2) := by
  have hasked := asked_scene hlater (show n < maxSchedulerEvents by omega)
  have hback : (Owner.live (sceneAt sceneCancelling (n + 1))).committing
      ((Owner.live (sceneAt sceneCancelling (n + 1))).snapshot.withState 1
        (interruptState 1 sceneLease 12000 (.notApplied "busy"))) .stored =
      (Owner.live (sceneAt sceneRunning (n + 2)), .ok sceneRunning) :=
    committing_scene valid_sceneRunning (by omega) (by omega)
  have hinterrupt : (Owner.live (sceneAt sceneRunning n)).interrupt 1 1 .stored
      (some (.error (.notApplied "busy"))) .stored = ⟨Owner.live (sceneAt sceneRunning (n + 2)), none,
        some (.error (.transition "interrupt refused or effect unknown; inspect node state"))⟩ := by
    rw [Owner.interrupt, runningAttempt_scene]
    simp only [hasked, hback]
  show World.mk _ _ _ _ = _
  rw [Call.run, hinterrupt]
  rfl

theorem step_dropped {n : Nat} (hlater : 3 ≤ n) (hcap : n < maxSchedulerEvents) :
    (sceneWorld sceneRunning n).step digestOf droppedInterrupt = sceneWorld sceneCancelling (n + 1) := by
  have hinterrupt : (Owner.live (sceneAt sceneRunning n)).interrupt 1 1 .stored none .stored =
      ⟨Owner.live (sceneAt sceneCancelling (n + 1)), none, none⟩ := by
    rw [Owner.interrupt, runningAttempt_scene]
    simp only [asked_scene hlater hcap]
  show World.mk _ _ _ _ = _
  rw [Call.run, hinterrupt]
  rfl

theorem refused_run : ∀ {k n : Nat}, 3 ≤ n → n + 2 * k ≤ maxSchedulerEvents →
    (List.replicate k refusedInterrupt).foldl (World.step digestOf) (sceneWorld sceneRunning n) =
      sceneWorld sceneRunning (n + 2 * k)
  | 0, n, _, _ => rfl
  | k + 1, n, hlater, hcap => by
    rw [List.replicate_succ, List.foldl_cons, step_refused hlater (by omega), refused_run (by omega) (by omega)]
    congr 1
    omega

/-- The events are used up by refused interrupts, and the last one leaves the node being cancelled. -/
def exhaustedScene : List Event := runningScene ++ List.replicate 32766 refusedInterrupt ++ [droppedInterrupt]

theorem run_exhaustedScene :
    World.run (fun _ => some sceneDigest) exhaustedScene = sceneWorld sceneCancelling maxSchedulerEvents := by
  have hstart : World.run (fun _ => some sceneDigest) runningScene = sceneWorld sceneRunning 3 := run_runningScene
  have hrefused := @refused_run (fun _ => some sceneDigest) 32766 3 (Nat.le_refl 3) (by decide)
  have hdropped := @step_dropped (fun _ => some sceneDigest) 65535 (by decide) (by decide)
  rw [World.run, exhaustedScene, List.foldl_append, List.foldl_append]
  rw [World.run] at hstart
  rw [hstart, hrefused]
  exact hdropped

/-- A durable snapshot with a running node opens. -/
theorem durable_reopens_running : ∃ d', openOwner (some (sceneAt sceneRunning 3)) sceneConfig (.ok ()) .stored .stored =
    (some d', .ok (Owner.live d')) ∧ Reopened (sceneAt sceneRunning 3) d' := by
  have hdurable : (World.run (fun _ => some sceneDigest) runningScene).durable = some (sceneAt sceneRunning 3) :=
    congrArg World.durable run_runningScene
  rcases durable_reopens (fun _ => some sceneDigest) runningScene (sceneAt sceneRunning 3) .stored hdurable with
    ⟨-, hfull, -⟩ | ⟨-, hopened⟩
  · cases hfull
  · exact hopened

/-- An open with active nodes moves on by one event, and where there is none left it is refused. -/
theorem not_durable_reopens :
    ((World.run (fun _ => some sceneDigest) runningScene).durable = some (sceneAt sceneRunning 3) ∧
      ∃ d', openOwner (some (sceneAt sceneRunning 3)) sceneConfig (.ok ()) .stored .stored = (some d', .ok (Owner.live d')) ∧
        d'.sequence ≠ (sceneAt sceneRunning 3).sequence) ∧
    ((World.run (fun _ => some sceneDigest) exhaustedScene).durable = some (sceneAt sceneCancelling maxSchedulerEvents) ∧
      openOwner (some (sceneAt sceneCancelling maxSchedulerEvents)) sceneConfig (.ok ()) .stored .stored =
        (some (sceneAt sceneCancelling maxSchedulerEvents), .error (.capacity "event"))) := by
  have hfull := valid_sceneAt valid_sceneCancelling (show 3 ≤ maxSchedulerEvents by decide) (Nat.le_refl _)
  refine ⟨⟨congrArg World.durable run_runningScene, _, open_active valid_sceneRunning rfl (by decide) .stored, by decide⟩,
    congrArg World.durable run_exhaustedScene, ?_⟩
  exact open_full hfull rfl (Nat.le_refl _) .stored .stored

end Iteron.Scheduler
