import Iteron.SchedulerOwner
/-!
# SchedulerMoves — what an operation can do to a node

`Move` lists every change of a node's record that one operation makes, with what the code checked before it; an operation
makes at most one of them to each node (`Moves`).  The invariants of the runs read nothing else of the operations.
-/
namespace Iteron.Scheduler

open Machine Refuse
open Dag (BudgetUsage TaskBudget)

inductive Meter where
  | turns
  | tokens
  | cost

def Meter.used : Meter → BudgetUsage → Nat
  | .turns, u => u.turns
  | .tokens, u => u.tokens
  | .cost, u => u.costMicrousd

def Meter.limit : Meter → TaskBudget → Nat
  | .turns, b => b.maxTurns.toNat
  | .tokens, b => b.maxTokens
  | .cost, b => b.maxCostMicrousd

@[simp] theorem Meter.used_zero (m : Meter) : m.used {} = 0 := by cases m <;> rfl

@[simp] theorem orElseError_eq_ok {α : Type} {x : Option α} {e : Error} {a : α} :
    orElseError x e = .ok a ↔ x = some a := by
  cases x with
  | none => simp [orElseError]
  | some b => simp [orElseError]

theorem usageFits_meter {value : BudgetUsage} {limit : TaskBudget} (h : usageFits value limit = true) (m : Meter) :
    m.used value ≤ m.limit limit := by
  simp only [usageFits, Bool.and_eq_true, decide_eq_true_eq] at h
  cases m with
  | turns => exact h.1.1.1
  | tokens => exact h.1.1.2
  | cost => exact h.1.2

theorem addReservation_meter {current next : BudgetUsage} {limit child : TaskBudget}
    (h : addReservation current limit child = .ok next) (m : Meter) : m.used next = m.used current + m.limit child := by
  simp only [addReservation, bind_eq_ok, orElseError_eq_ok, pure_eq_ok] at h
  obtain ⟨turns, hturns, tokens, htokens, cost, hcost, _, _, rfl⟩ := h
  cases m with
  | turns => exact checkedAdd_eq_some hturns
  | tokens => exact checkedAdd_eq_some htokens
  | cost => exact checkedAdd_eq_some hcost

theorem addReserved_meter {reserved added next : BudgetUsage} (h : addReserved reserved added = .ok next) (m : Meter) :
    m.used next = m.used reserved + m.used added := by
  simp only [addReserved, bind_eq_ok, orElseError_eq_ok, pure_eq_ok] at h
  obtain ⟨turns, hturns, tokens, htokens, cost, hcost, rfl⟩ := h
  cases m with
  | turns => exact checkedAdd_eq_some hturns
  | tokens => exact checkedAdd_eq_some htokens
  | cost => exact checkedAdd_eq_some hcost

inductive AfterDispatch (attempt : Nat) : NodeState → Prop
  | waiting (deadline : Nat) : AfterDispatch attempt (.dispatching attempt deadline)
  | running (lease : TurnLease) (deadline : Nat) : AfterDispatch attempt (.running attempt lease deadline)
  | failed (detail : String) : AfterDispatch attempt (.failed attempt detail)
  | unknown (reason : String) : AfterDispatch attempt (.recoveryRequired attempt none reason)

inductive AfterInterrupt (attempt : Nat) (lease : TurnLease) (deadline : Nat) : NodeState → Prop
  | accepted : AfterInterrupt attempt lease deadline (.cancelling attempt lease deadline)
  | refused : AfterInterrupt attempt lease deadline (.running attempt lease deadline)
  | unknown (reason : String) : AfterInterrupt attempt lease deadline (.recoveryRequired attempt (some lease) reason)

/-- Each counter of a usage fits its machine word. -/
structure Counted (usage : BudgetUsage) : Prop where
  turns : usage.turns ≤ u64Max
  tokens : usage.tokens ≤ u64Max
  cost : usage.costMicrousd ≤ u64Max
  wall : usage.wallMs ≤ u64Max

/-- A report of usage for an attempt: it does not decrease, and the node is charged the difference. -/
structure Charges (r : NodeRecord) (usage total : BudgetUsage) : Prop where
  grows : ∀ m : Meter, m.used r.attemptUsage ≤ m.used usage
  wall : r.attemptUsage.wallMs ≤ usage.wallMs
  counted : Counted total
  charged : ∀ m : Meter, m.used total + m.used r.attemptUsage = m.used r.usage + m.used usage

def Snapshot.DependenciesMet (s : Snapshot) (node : WorkflowNode) : Prop :=
  ∀ d ∈ node.dependencies, ∃ r, s.nodes[d]? = some r ∧ r.state.isSucceeded = true

/-- What a settlement was told about an attempt. -/
structure Report where
  nodeId : Nat
  attempt : Nat
  completion : Completion
  usage : BudgetUsage
  effectsKnown : Bool

/-- A change of the record of node `id` by one operation on the snapshot `s` that carried `report`. -/
inductive Move (s : Snapshot) (report : Option Report) (id : Nat) : Option NodeRecord → Option NodeRecord → Prop
  | same (x : Option NodeRecord) : Move s report id x x
  | added (node : WorkflowNode) : Move s report id none (some (freshRecord node))
  | replaced (r : NodeRecord) (node : WorkflowNode) (h : r.state = .pending) :
      Move s report id (some r) (some { r with node })
  | removed (r : NodeRecord) (h : r.state = .pending) : Move s report id (some r) (some { r with state := .removed })
  | retried (r : NodeRecord) (node : WorkflowNode) (h : r.state.attempt.isSome = true) (hactive : r.state.active = false)
      (hsucceeded : r.state.isSucceeded = false) (hrecovery : r.state.isRecoveryRequired = false) :
      Move s report id (some r) (some { r with node, state := .pending, admittedTask := none })
  | dispatched (r : NodeRecord) (state : NodeState) (task : Option ScheduledTask) (reserved : BudgetUsage)
      (h : r.state = .pending) (hmet : s.DependenciesMet r.node)
      (hreserved : ∀ m : Meter, m.used reserved = m.used r.reservedBudget + m.limit r.node.budget)
      (hafter : AfterDispatch r.nextAttempt state) :
      Move s report id (some r)
        (some { r with nextAttempt := r.nextAttempt + 1, state, attemptUsage := {}, reservedBudget := reserved
                       admittedTask := task })
  | interrupted (r : NodeRecord) (state : NodeState) (attempt : Nat) (lease : TurnLease) (deadline : Nat)
      (h : r.state = .running attempt lease deadline) (hafter : AfterInterrupt attempt lease deadline state) :
      Move s report id (some r) (some { r with state })
  | unresolved (r : NodeRecord) (attempt : Nat) (lease : Option TurnLease) (reason : String) (usage total : BudgetUsage)
      (h : r.state.settleable = true) (hattempt : r.state.attempt = some attempt) (hcharges : Charges r usage total) :
      Move s report id (some r)
        (some { r with usage := total, attemptUsage := usage, state := .recoveryRequired attempt lease reason })
  | settled (r : NodeRecord) (attempt : Nat) (completion : Completion) (state : NodeState) (usage total : BudgetUsage)
      (h : r.state.settleable = true) (hattempt : r.state.attempt = some attempt) (hcharges : Charges r usage total)
      (hreport : report = some ⟨id, attempt, completion, usage, true⟩) (hfits : usageFits usage r.node.budget = true)
      (hcompletion : completionState r.state attempt completion = .ok state) :
      Move s report id (some r) (some { r with usage := total, attemptUsage := usage, state })
  | recovered (r : NodeRecord) (attempt : Nat) (reason : String) (h : r.state.active = true)
      (hattempt : r.state.attempt = some attempt) :
      Move s report id (some r) (some { r with state := .recoveryRequired attempt r.state.lease reason })

structure Moves (s : Snapshot) (report : Option Report) (s' : Snapshot) : Prop where
  config : s'.config = s.config
  node : ∀ id : Nat, Move s report id s.nodes[id]? s'.nodes[id]?

theorem Moves.refl (s : Snapshot) (report : Option Report) : Moves s report s := ⟨rfl, fun _ => .same _⟩

variable {report : Option Report}

theorem Moves.sequence {s s' : Snapshot} (h : Moves s report s') (n : Nat) :
    Moves s report { s' with sequence := n } := ⟨h.config, h.node⟩

theorem setNode_self (s : Snapshot) (id : Nat) (r : NodeRecord) : (s.setNode id r).nodes[id]? = some r := by
  rw [Snapshot.setNode, Table.get_insert, if_pos rfl]

theorem setNode_ne (s : Snapshot) {id a : Nat} (r : NodeRecord) (h : a ≠ id) :
    (s.setNode id r).nodes[a]? = s.nodes[a]? := by
  rw [Snapshot.setNode, Table.get_insert, if_neg (Ne.symm h)]

theorem Moves.setNode {s : Snapshot} {id : Nat} {r' : NodeRecord} (h : Move s report id s.nodes[id]? (some r')) :
    Moves s report (s.setNode id r') := by
  refine ⟨rfl, fun a => ?_⟩
  by_cases ha : a = id
  · rw [ha, setNode_self]
    exact h
  · rw [setNode_ne s r' ha]
    exact .same _

section Plan

variable {s : Snapshot}

theorem requireNode_eq_ok {id : Nat} {r : NodeRecord} (h : s.requireNode id = .ok r) :
    s.nodes[id]? = some r := orElseError_eq_ok.1 h

variable {c : PlanChange}

theorem apply_eq_ok {s' : Snapshot} (h : c.apply s = .ok s') (s0 : Snapshot) :
    ∃ r', s' = s.setNode c.nodeId r' ∧ Move s0 none c.nodeId s.nodes[c.nodeId]? (some r') := by
  cases c with
  | add node =>
    simp only [PlanChange.apply, bind_eq_ok, pure_eq_ok, refuseIf_eq_ok, Bool.not_eq_true] at h
    obtain ⟨_, _, _, hfree, rfl⟩ := h
    refine ⟨_, rfl, ?_⟩
    have hnone : s.nodes[node.id]? = none := (Table.contains_eq_false s.nodes node.id).1 hfree
    rw [PlanChange.nodeId, hnone]
    exact .added node
  | replacePending node =>
    simp only [PlanChange.apply, bind_eq_ok, pure_eq_ok, refuseIf_eq_ok, not_not] at h
    obtain ⟨_, _, r, hr, _, hpending, rfl⟩ := h
    refine ⟨_, rfl, ?_⟩
    rw [PlanChange.nodeId, requireNode_eq_ok hr]
    exact .replaced r node hpending
  | removePending _ =>
    simp only [PlanChange.apply, bind_eq_ok, pure_eq_ok, refuseIf_eq_ok, not_not] at h
    obtain ⟨r, hr, _, hpending, rfl⟩ := h
    refine ⟨_, rfl, ?_⟩
    rw [PlanChange.nodeId, requireNode_eq_ok hr]
    exact .removed r hpending
  | retry node =>
    simp only [PlanChange.apply, bind_eq_ok] at h
    obtain ⟨_, _, r, hr, h⟩ := h
    rw [PlanChange.nodeId, requireNode_eq_ok hr]
    cases hstate : r.state <;> simp only [hstate, pure_eq_ok, reduceCtorEq] at h
    all_goals
      subst h
      exact ⟨_, rfl, .retried r node (by simp [hstate, NodeState.attempt]) (by simp [hstate, NodeState.active])
        (by simp [hstate, NodeState.isSucceeded]) (by simp [hstate, NodeState.isRecoveryRequired])⟩

/-- What the changes of a plan so far have done: an untouched node is as it was. -/
structure Planned (s : Snapshot) (acc : Snapshot × List Nat) : Prop where
  moves : Moves s none acc.1
  untouched : ∀ id ∉ acc.2, acc.1.nodes[id]? = s.nodes[id]?

theorem Planned.applyChange {s : Snapshot} {acc acc' : Snapshot × List Nat} (h : Planned s acc)
    (ha : applyChange acc c = .ok acc') : Planned s acc' := by
  simp only [Scheduler.applyChange, bind_eq_ok, refuseIf_eq_ok, pure_eq_ok] at ha
  obtain ⟨_, hnew, _, hnext, rfl⟩ := ha
  obtain ⟨r', rfl, hmove⟩ := apply_eq_ok hnext s
  rw [h.untouched _ hnew] at hmove
  refine ⟨⟨h.moves.config, fun id => ?_⟩, fun id hid => ?_⟩
  · by_cases heq : id = c.nodeId
    · rw [heq, setNode_self]
      exact hmove
    · rw [setNode_ne _ r' heq]
      exact h.moves.node id
  · rw [List.mem_cons, not_or] at hid
    rw [setNode_ne _ r' hid.1]
    exact h.untouched id hid.2

theorem Planned.foldlM : ∀ {changes : List PlanChange} {acc acc' : Snapshot × List Nat},
    Planned s acc → changes.foldlM Scheduler.applyChange acc = .ok acc' → Planned s acc'
  | [], acc, acc', h, hf => by
    rw [List.foldlM_nil, pure_eq_ok] at hf
    rwa [← hf]
  | c :: changes, acc, acc', h, hf => by
    rw [List.foldlM_cons, bind_eq_ok] at hf
    obtain ⟨_, hone, hrest⟩ := hf
    exact (h.applyChange hone).foldlM hrest

theorem replanned_moves {next : Snapshot} {requestId digest : String} {command : Replan} {receipt : PlanReceipt}
    (h : s.replanned requestId digest command = .ok (next, receipt)) : Moves s none next := by
  simp only [Snapshot.replanned, bind_eq_ok, pure_eq_ok, Prod.exists, Prod.mk.injEq] at h
  obtain ⟨_, _, _, _, _, _, planned, touched, hfold, _, _, _, _, hnext, _⟩ := h
  have hplanned : Planned s (planned, touched) := Planned.foldlM ⟨.refl s none, fun _ _ => rfl⟩ hfold
  rw [← hnext]
  exact ⟨hplanned.moves.config, hplanned.moves.node⟩

end Plan

section Dispatch

theorem considerReady_mem {s : Snapshot} {slots : Nat} : ∀ {l : List (Nat × NodeRecord)} {acc : List Nat × List Nat}
    {id : Nat}, id ∈ (l.foldl (s.considerReady slots) acc).1 →
    id ∈ acc.1 ∨ ∃ r, (id, r) ∈ l ∧ r.state = .pending ∧ s.DependenciesMet r.node
  | [], _, _, h => .inl h
  | (i, r) :: l, acc, id, h => by
    rw [List.foldl_cons] at h
    obtain hacc | ⟨r', hmem, hready⟩ := considerReady_mem h
    · unfold Snapshot.considerReady at hacc
      split at hacc
      · exact .inl hacc
      · split at hacc
        next hready =>
          rcases List.mem_append.1 hacc with hacc | hacc
          · exact .inl hacc
          · obtain rfl : id = i := List.mem_singleton.1 hacc
            refine .inr ⟨r, .head _, hready.1, fun d hd => ?_⟩
            have hmet := List.all_eq_true.1 hready.2.2.1 d hd
            obtain ⟨r', hr', hsucceeded⟩ := (Option.any_eq_true _ _).1 hmet
            exact ⟨r', hr', hsucceeded⟩
        next => exact .inl hacc
    · exact .inr ⟨r', .tail _ hmem, hready⟩

variable {o : Owner}

theorem readyNodes_mem {now id : Nat} {ready : List Nat} (h : o.readyNodes now = .ok ready) (hid : id ∈ ready) :
    ∃ r, o.snapshot.nodes[id]? = some r ∧ r.state = .pending ∧ o.snapshot.DependenciesMet r.node := by
  simp only [Owner.readyNodes, bind_eq_ok] at h
  obtain ⟨_, _, _, _, h⟩ := h
  split at h
  · rw [pure_eq_ok] at h
    rw [← h] at hid
    cases hid
  · rw [pure_eq_ok] at h
    rw [← h] at hid
    obtain hnil | ⟨r, hmem, hready⟩ := considerReady_mem hid
    · cases hnil
    · exact ⟨r, (Table.mem_toList _ _ _).1 hmem, hready⟩

structure Admission (s : Snapshot) (task : ScheduledTask) (next : Snapshot) : Prop where
  config : next.config = s.config
  others : ∀ id : Nat, id ≠ task.nodeId → next.nodes[id]? = s.nodes[id]?
  dispatched : ∃ (r : NodeRecord) (state : NodeState) (reserved : BudgetUsage), s.nodes[task.nodeId]? = some r ∧
    r.state = .pending ∧ s.DependenciesMet r.node ∧ r.nextAttempt = task.attempt ∧
    (∀ m : Meter, m.used reserved = m.used r.reservedBudget + m.limit r.node.budget) ∧ AfterDispatch task.attempt state ∧
    next.nodes[task.nodeId]? = some { r with nextAttempt := task.attempt + 1, state, attemptUsage := {}
                                             reservedBudget := reserved, admittedTask := some task }

variable {s next : Snapshot} {task : ScheduledTask}

theorem Admission.moves (h : Admission s task next) : Moves s none next := by
  refine ⟨h.config, fun id => ?_⟩
  by_cases hid : id = task.nodeId
  · obtain ⟨r, state, reserved, hr, hpending, hmet, hattempt, hreserved, hafter, hnext⟩ := h.dispatched
    rw [hid, hr, hnext, ← hattempt]
    exact .dispatched r state _ reserved hpending hmet hreserved (hattempt ▸ hafter)
  · rw [h.others id hid]
    exact .same _

theorem admitDispatch_eq_ok {nodeId version now : Nat} (h : o.admitDispatch nodeId version now = .ok (next, task)) :
    task.nodeId = nodeId ∧ Admission o.snapshot task next := by
  simp only [Owner.admitDispatch, bind_eq_ok, refuseIf_eq_ok, not_not] at h
  obtain ⟨_, _, _, hready, _, hmem, h⟩ := h
  obtain ⟨r, hr, hpending, hmet⟩ := readyNodes_mem hready hmem
  simp only [Snapshot.dispatched, bind_eq_ok, orElseError_eq_ok, pure_eq_ok, Prod.mk.injEq] at h
  obtain ⟨_, hr', nextAttempt, hattempt, reservedBudget, hown, _, _, hnext, htask⟩ := h
  cases hr.symm.trans (requireNode_eq_ok hr')
  obtain rfl : nextAttempt = r.nextAttempt + 1 := checkedAdd_eq_some hattempt
  subst htask
  refine ⟨rfl, ?_⟩
  rw [← hnext]
  refine ⟨rfl, fun id hid => ?_, r, _, reservedBudget, hr, hpending, hmet, rfl, addReservation_meter hown,
    .waiting (min (saturatingAdd now r.node.budget.maxWallMs) o.snapshot.config.deadlineUnixMs), ?_⟩
  · exact setNode_ne _ _ hid
  · exact setNode_self _ _ _

theorem dispatchState_after (task : ScheduledTask) (reply : Except DispatchError TurnLease) :
    AfterDispatch task.attempt (dispatchState task reply) := by
  cases reply with
  | ok handle =>
    by_cases h : (validateLease handle task.assignedAgent).isOk = true
    · simp only [dispatchState, if_pos h]
      exact .running _ _
    · simp only [dispatchState, if_neg h]
      exact .unknown _
  | error e =>
    cases e with
    | notApplied detail => exact .failed _
    | outcomeUnknown detail => exact .unknown _

theorem withState_eq_ok {nodeId : Nat} {state answer : NodeState} (h : s.withState nodeId state = .ok (next, answer)) :
    ∃ r, s.nodes[nodeId]? = some r ∧ next = s.setNode nodeId { r with state } ∧ answer = state := by
  simp only [Snapshot.withState, bind_eq_ok, pure_eq_ok, Prod.mk.injEq] at h
  obtain ⟨r, hr, hnext, hanswer⟩ := h
  exact ⟨r, requireNode_eq_ok hr, hnext.symm, hanswer.symm⟩

theorem Admission.answered {mid : Snapshot} {reply : Except DispatchError TurnLease}
    {answer : NodeState} (h : Admission s task mid)
    (hstate : mid.withState task.nodeId (dispatchState task reply) = .ok (next, answer)) : Admission s task next := by
  obtain ⟨_, hr', rfl, _⟩ := withState_eq_ok hstate
  obtain ⟨r, _, reserved, hr, hpending, hmet, hattempt, hreserved, _, hmid⟩ := h.dispatched
  rw [hmid] at hr'
  cases hr'
  refine ⟨h.config, fun id hid => ?_, r, _, reserved, hr, hpending, hmet, hattempt, hreserved,
    dispatchState_after task reply, ?_⟩
  · rw [setNode_ne _ _ hid, h.others id hid]
  · exact setNode_self _ _ _

end Dispatch

section Interrupt

structure Interruption (s : Snapshot) (nodeId attempt : Nat) (lease : TurnLease) (deadline : Nat) (next : Snapshot) :
    Prop where
  config : next.config = s.config
  others : ∀ id : Nat, id ≠ nodeId → next.nodes[id]? = s.nodes[id]?
  interrupted : ∃ (r : NodeRecord) (state : NodeState), s.nodes[nodeId]? = some r ∧
    r.state = .running attempt lease deadline ∧ AfterInterrupt attempt lease deadline state ∧
    next.nodes[nodeId]? = some { r with state }

variable {nodeId attempt deadline : Nat} {lease : TurnLease}

theorem Interruption.moves {s next : Snapshot}
    (h : Interruption s nodeId attempt lease deadline next) : Moves s none next := by
  refine ⟨h.config, fun id => ?_⟩
  by_cases hid : id = nodeId
  · obtain ⟨r, state, hr, hrunning, hafter, hnext⟩ := h.interrupted
    rw [hid, hr, hnext]
    exact .interrupted r state attempt lease deadline hrunning hafter
  · rw [h.others id hid]
    exact .same _

theorem runningAttempt_eq_ok {o : Owner} {version : Nat}
    (h : o.runningAttempt nodeId version = .ok (attempt, lease, deadline)) :
    ∃ r, o.snapshot.nodes[nodeId]? = some r ∧ r.state = .running attempt lease deadline := by
  simp only [Owner.runningAttempt, bind_eq_ok] at h
  obtain ⟨_, _, r, hr, h⟩ := h
  refine ⟨r, requireNode_eq_ok hr, ?_⟩
  cases hstate : r.state <;> simp only [hstate, Except.ok.injEq, Prod.mk.injEq, reduceCtorEq] at h
  obtain ⟨rfl, rfl, rfl⟩ := h
  rfl

theorem Interruption.withState {s mid next : Snapshot}
    {state answer : NodeState} {r : NodeRecord} (hr : s.nodes[nodeId]? = some r)
    (hrunning : r.state = .running attempt lease deadline) (hmid : mid = s ∨ Interruption s nodeId attempt lease deadline mid)
    (hafter : AfterInterrupt attempt lease deadline state) (h : mid.withState nodeId state = .ok (next, answer)) :
    Interruption s nodeId attempt lease deadline next := by
  obtain ⟨r', hr', rfl, _⟩ := withState_eq_ok h
  have hfields : { r' with state } = { r with state } := by
    rcases hmid with rfl | hmid
    · rw [hr] at hr'
      rw [Option.some.inj hr']
    · obtain ⟨_, _, hr1, _, _, hnext⟩ := hmid.interrupted
      rw [hnext] at hr'
      rw [hr1] at hr
      rw [← Option.some.inj hr', Option.some.inj hr]
  have hconfig : mid.config = s.config := by
    rcases hmid with rfl | hmid
    · rfl
    · exact hmid.config
  refine ⟨hconfig, fun id hid => ?_, r, state, hr, hrunning, hafter, ?_⟩
  · rw [setNode_ne _ _ hid]
    rcases hmid with rfl | hmid
    · rfl
    · exact hmid.others id hid
  · rw [setNode_self, hfields]

theorem interruptState_after (attempt : Nat) (lease : TurnLease) (deadline : Nat) (error : DispatchError) :
    AfterInterrupt attempt lease deadline (interruptState attempt lease deadline error) := by
  cases error with
  | notApplied detail => exact .refused
  | outcomeUnknown detail => exact .unknown _

end Interrupt

section Settle

theorem checkedSub_eq_some {a b c : Nat} (h : checkedSub a b = some c) : c + b = a := by
  unfold checkedSub at h
  split at h
  next hle =>
    cases h
    omega
  next => cases h

theorem checkedAdd_le {a b c : Nat} (h : checkedAdd a b = some c) : c ≤ u64Max := by
  unfold checkedAdd at h
  split at h
  next hle => exact Option.some.inj h ▸ hle
  next => cases h

variable {r : NodeRecord}

theorem charges_of_eq_ok {usage delta total : BudgetUsage} (hdelta : cumulativeDelta usage r.attemptUsage = .ok delta)
    (htotal : r.usage.checkedAdd delta = some total) : Charges r usage total := by
  simp only [cumulativeDelta, bind_eq_ok, orElseError_eq_ok, pure_eq_ok] at hdelta
  obtain ⟨_, hturns, _, htokens, _, hcost, _, hwall, rfl⟩ := hdelta
  simp only [BudgetUsage.checkedAdd, Option.bind_eq_bind, Option.bind_eq_some_iff, Option.pure_def,
    Option.some.injEq] at htotal
  obtain ⟨_, hturns', _, htokens', _, hcost', _, hwall', rfl⟩ := htotal
  have h1 := checkedSub_eq_some hturns
  have h2 := checkedSub_eq_some htokens
  have h3 := checkedSub_eq_some hcost
  have h1' := checkedAdd_eq_some hturns'
  have h2' := checkedAdd_eq_some htokens'
  have h3' := checkedAdd_eq_some hcost'
  have h4 := checkedSub_eq_some hwall
  refine ⟨fun m => ?_, by omega, ⟨checkedAdd_le hturns', checkedAdd_le htokens', checkedAdd_le hcost',
    checkedAdd_le hwall'⟩, fun m => ?_⟩
  · cases m <;> simp only [Meter.used] <;> omega
  · cases m <;> simp only [Meter.used] <;> omega

theorem settled_moves {s next : Snapshot} {nodeId attempt : Nat} {lease : Option TurnLease} {completion : Completion}
    {usage : BudgetUsage} {effectsKnown : Bool} {state : NodeState} (hr : s.nodes[nodeId]? = some r)
    (hsettleable : r.state.settleable = true) (hattempt : r.state.attempt = some attempt)
    (h : s.settled nodeId attempt lease completion usage effectsKnown = .ok (next, state)) :
    Moves s (some ⟨nodeId, attempt, completion, usage, effectsKnown⟩) next := by
  simp only [Snapshot.settled, bind_eq_ok, orElseError_eq_ok, pure_eq_ok, Prod.mk.injEq] at h
  obtain ⟨_, hr', _, hdelta, total, htotal, state', hstate, hnext, rfl⟩ := h
  cases hr.symm.trans (requireNode_eq_ok hr')
  have hcharges := charges_of_eq_ok hdelta htotal
  rw [← hnext]
  apply Moves.setNode
  rw [hr]
  unfold settledState at hstate
  split at hstate
  · rw [← Except.ok.inj hstate]
    exact .unresolved r attempt lease _ usage total hsettleable hattempt hcharges
  next hknown =>
    simp only [Bool.or_eq_true, Bool.not_eq_eq_eq_not, Bool.not_true, not_or, Bool.not_eq_false] at hknown
    exact .settled r attempt completion state' usage total hsettleable hattempt hcharges (by rw [hknown.1]) hknown.2 hstate

end Settle

theorem recovered_moves (s : Snapshot) : Moves s none s.recovered := by
  refine ⟨rfl, fun id => ?_⟩
  simp only [Snapshot.recovered, Table.get_map]
  cases hr : s.nodes[id]? with
  | none => exact .same _
  | some r =>
    rw [Option.map_some, recoveredRecord]
    cases hattempt : r.state.attempt with
    | none => exact .same _
    | some attempt =>
      by_cases hactive : r.state.active = true
      · simp only [if_pos hactive]
        exact .recovered r attempt _ hactive hattempt
      · simp only [if_neg hactive]
        exact .same _

end Iteron.Scheduler
