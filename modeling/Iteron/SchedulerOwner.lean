import Iteron.SchedulerTypes
/-!
# SchedulerOwner — the owner of live plan state

Each operation computes the next snapshot from the current one and commits it: the journal's outcome and the controller's
reply are arguments.  An operation that awaits the controller may be dropped while it waits.
-/
namespace Iteron.Scheduler

open Machine Refuse
open Dag (BudgetUsage TaskBudget)

/-- What the journal does with a publication whose expected sequence matches. -/
inductive Publication where
  | stored
  | unavailable
  | unknown (written : Bool)
  | conflict

/-- `WorkflowPlanJournal::commit`. -/
def journalCommit (stored : Option Snapshot) (expected : Option Nat) (next : Snapshot) (p : Publication) :
    Option Snapshot × Except StoreError Unit :=
  if stored.map (fun s => s.sequence) ≠ expected then (stored, .error .conflict)
  else match p with
    | .stored => (some next, .ok ())
    | .unavailable => (stored, .error .unavailable)
    | .unknown written => (if written then some next else stored, .error .outcomeUnknown)
    | .conflict => (stored, .error .conflict)

structure Owner where
  journal : Option Snapshot
  snapshot : Snapshot
  poisoned : Bool

/-- A controller's answer, or `none` when the awaiting call was dropped. -/
abbrev Reply (α : Type) := Option (Except DispatchError α)

/-- The characters that fit into `n` bytes. -/
def takeBytes : Nat → List Char → List Char
  | _, [] => []
  | n, c :: cs => if c.utf8Size ≤ n then c :: takeBytes (n - c.utf8Size) cs else []

def boundedDetail (value : String) : String :=
  let result := (takeBytes maxDiagnosticBytes value.toList).map (fun c => if c = Char.ofNat 0 then '?' else c)
  if result.isEmpty then "controller refused the operation" else String.ofList result

namespace Owner

variable (o : Owner)

def ensureLive : Except Error Unit := refuseIf (o.poisoned = true) .poisoned

def ensurePort (version : Nat) : Except Error Unit := do
  o.ensureLive
  refuseIf (version ≠ portVersion) (.invalid "unsupported controller port version")

def publish (next : Snapshot) (expected : Option Nat) (p : Publication) : Owner × Except Error Unit :=
  match (do o.ensureLive; validateSnapshot next : Except Error Unit) with
  | .error e => (o, .error e)
  | .ok () =>
    match journalCommit o.journal expected next p with
    | (journal, .ok ()) => ({ o with journal := journal, snapshot := next }, .ok ())
    | (journal, .error error) =>
      ({ o with journal := journal
                poisoned := o.poisoned || decide (error = .outcomeUnknown ∨ error = .conflict) }, .error (.store error))

def commit (next : Snapshot) (p : Publication) : Owner × Except Error Unit :=
  if o.snapshot.sequence ≥ maxSchedulerEvents then (o, .error (.capacity "event"))
  else o.publish { next with sequence := o.snapshot.sequence + 1 } (some o.snapshot.sequence) p

def committing {α : Type} (x : Except Error (Snapshot × α)) (p : Publication) : Owner × Except Error α :=
  match x with
  | .error e => (o, .error e)
  | .ok (next, a) => ((o.commit next p).1, (o.commit next p).2.map (fun _ => a))

end Owner

def Snapshot.setNode (s : Snapshot) (id : Nat) (r : NodeRecord) : Snapshot := { s with nodes := s.nodes.insert id r }

def Snapshot.requireNode (s : Snapshot) (id : Nat) : Except Error NodeRecord := orElseError s.nodes[id]? (.unknownNode id)

def recoveredRecord (r : NodeRecord) : NodeRecord :=
  match r.state.attempt with
  | some attempt =>
    if r.state.active then
      { r with state := .recoveryRequired attempt r.state.lease
                 "restart requires controller/supervisor effect reconciliation" }
    else r
  | none => r

def Snapshot.recovered (s : Snapshot) : Snapshot := { s with nodes := s.nodes.map (fun _ r => recoveredRecord r) }

def Snapshot.hasActive (s : Snapshot) : Bool := (Table.vals s.nodes).any (fun r => r.state.active)

def newSnapshot (config : WorkflowConfig) : Snapshot :=
  { version := portVersion, config, sequence := 0, revision := 0, nodes := ∅, reserved := {}, receipts := ∅ }

/-- The end of `open`: active nodes of the snapshot become nodes to reconcile. -/
def Owner.recover (o : Owner) (p : Publication) : Owner × Except Error Unit :=
  if o.snapshot.hasActive then o.commit o.snapshot.recovered p else (o, .ok ())

/-- The checks of `open`: the configuration, the journal's answer to `load`, and what it holds. -/
def checkOpen (journal : Option Snapshot) (config : WorkflowConfig) (load : Except StoreError Unit) :
    Except Error Unit := do
  validateConfig config
  load.mapError .store
  journal.forM (fun stored => do
    validateSnapshot stored
    refuseIf (stored.config ≠ config) (.invalid "stored immutable config differs"))

/-- The owner `open` starts from: what the journal holds, or a new plan once it is published. -/
def openedOwner (journal : Option Snapshot) (config : WorkflowConfig) (initial : Publication) : Owner × Except Error Unit :=
  match journal with
  | some stored => (⟨journal, stored, false⟩, .ok ())
  | none => Owner.publish ⟨none, newSnapshot config, false⟩ (newSnapshot config) none initial

/-- `WorkflowScheduler::open`: what the journal holds afterwards, and the owner. -/
def openOwner (journal : Option Snapshot) (config : WorkflowConfig) (load : Except StoreError Unit)
    (initial recovery : Publication) : Option Snapshot × Except Error Owner :=
  match checkOpen journal config load with
  | .error e => (journal, .error e)
  | .ok () =>
    match openedOwner journal config initial with
    | (owner, .error e) => (owner.journal, .error e)
    | (owner, .ok ()) => ((owner.recover recovery).1.journal, (owner.recover recovery).2.map (fun _ => (owner.recover recovery).1))

def PlanChange.nodeId : PlanChange → Nat
  | .add node | .replacePending node | .retry node => node.id
  | .removePending nodeId => nodeId

def PlanChange.bounded (config : WorkflowConfig) : PlanChange → Except Error Unit
  | .add node | .replacePending node | .retry node => validateNode node config
  | .removePending nodeId => refuseIf (nodeId = 0) (.invalid "node id must be nonzero")

def freshRecord (node : WorkflowNode) : NodeRecord :=
  { node, state := .pending, admittedTask := none, nextAttempt := 1, usage := {}, attemptUsage := {}, reservedBudget := {} }

def PlanChange.apply (s : Snapshot) : PlanChange → Except Error Snapshot
  | .add node => do
    validateNode node s.config
    refuseIf (s.nodes.contains node.id = true) (.transition "node id cannot be reused")
    return s.setNode node.id (freshRecord node)
  | .replacePending node => do
    validateNode node s.config
    let record ← s.requireNode node.id
    refuseIf (record.state ≠ .pending) (.transition "only pending work may be edited")
    return s.setNode node.id { record with node }
  | .removePending nodeId => do
    let record ← s.requireNode nodeId
    refuseIf (record.state ≠ .pending) (.transition "only pending work may be removed")
    return s.setNode nodeId { record with state := .removed }
  | .retry node => do
    validateNode node s.config
    let record ← s.requireNode node.id
    match record.state with
    | .failed _ _ | .cancelled _ _ => return s.setNode node.id { record with node, state := .pending, admittedTask := none }
    | _ => .error (.transition "retry requires definite failed/cancelled effect settlement")

/-- One change of a plan revision; `touched` are the nodes of the changes before it. -/
def applyChange (acc : Snapshot × List Nat) (change : PlanChange) : Except Error (Snapshot × List Nat) := do
  refuseIf (change.nodeId ∈ acc.2) (.invalid "node appears twice in a plan revision")
  let next ← change.apply acc.1
  return (next, change.nodeId :: acc.2)

def Snapshot.replanned (s : Snapshot) (requestId digest : String) (command : Replan) :
    Except Error (Snapshot × PlanReceipt) := do
  refuseIf (s.receipts.size ≥ maxPlanRequests) (.capacity "request receipt")
  refuseIf (command.expectedRevision ≠ s.revision) (.revisionConflict command.expectedRevision s.revision)
  refuseIf (s.revision ≥ maxPlanRevisions) (.capacity "plan revisions")
  let (next, _) ← command.changes.foldlM applyChange (s, [])
  validateGraph next.nodes next.config
  let sequence ← orElseError (checkedAdd next.sequence 1) (.capacity "event")
  let receipt : PlanReceipt := { version := portVersion, revision := next.revision + 1, sequence, replayed := false }
  return ({ next with revision := next.revision + 1, receipts := next.receipts.insert requestId ⟨digest, receipt⟩ }, receipt)

/-- The checks of a command before its plan is looked at, and the digest of its encoding. -/
def Owner.checkReplan (o : Owner) (digestOf : Replan → Option String) (requestId : String) (command : Replan) :
    Except Error String := do
  o.ensureLive
  identifier requestId
  refuseIf (command.changes.isEmpty = true ∨ command.changes.length > maxPlanChanges) (.capacity "plan changes")
  command.changes.forM (PlanChange.bounded o.snapshot.config)
  orElseError (digestOf command) .serialization

def Owner.replan (o : Owner) (digestOf : Replan → Option String) (requestId : String) (command : Replan)
    (p : Publication) : Owner × Except Error PlanReceipt :=
  match o.checkReplan digestOf requestId command with
  | .error e => (o, .error e)
  | .ok digest =>
    match o.snapshot.receipts[requestId]? with
    | some stored =>
      if stored.digest ≠ digest then (o, .error .requestConflict)
      else (o, .ok { stored.receipt with replayed := true })
    | none => o.committing (o.snapshot.replanned requestId digest command) p

def Snapshot.activeNodes (s : Snapshot) : List NodeRecord := (Table.vals s.nodes).filter (fun r => r.state.active)

/-- One node of the ready loop: the ready nodes and the occupied agents so far. -/
def Snapshot.considerReady (s : Snapshot) (slots : Nat) (acc : List Nat × List Nat) (entry : Nat × NodeRecord) :
    List Nat × List Nat :=
  if acc.1.length ≥ slots then acc
  else if entry.2.state = .pending ∧ entry.2.node.assignedAgent ∉ acc.2 ∧
      entry.2.node.dependencies.all (fun id => s.nodes[id]?.any (fun d => d.state.isSucceeded)) = true ∧
      (addReservation s.reserved s.config.budget entry.2.node.budget).isOk = true then
    (acc.1 ++ [entry.1], entry.2.node.assignedAgent :: acc.2)
  else acc

def Owner.readyNodes (o : Owner) (nowUnixMs : Nat) : Except Error (List Nat) := do
  o.ensureLive
  refuseIf (nowUnixMs < o.snapshot.config.startedAtUnixMs) (.invalid "host clock must be nonzero")
  if nowUnixMs ≥ o.snapshot.config.deadlineUnixMs ∨
      (Table.vals o.snapshot.nodes).any (fun r => r.state.isRecoveryRequired) = true then return []
  else
    let active := o.snapshot.activeNodes
    let slots := o.snapshot.config.maxConcurrency - active.length
    return (o.snapshot.nodes.toList.foldl (o.snapshot.considerReady slots)
      ([], active.map (fun r => r.node.assignedAgent))).1

/-- The snapshot with the node's next attempt as durable intent, and the task the controller is given. -/
def Snapshot.dispatched (s : Snapshot) (nodeId nowUnixMs : Nat) : Except Error (Snapshot × ScheduledTask) := do
  let record ← s.requireNode nodeId
  let attempt := record.nextAttempt
  let nextAttempt ← orElseError (checkedAdd attempt 1) (.capacity "attempt")
  let deadlineUnixMs := min (saturatingAdd nowUnixMs record.node.budget.maxWallMs) s.config.deadlineUnixMs
  let reservedBudget ← addReservation record.reservedBudget s.config.budget record.node.budget
  let reserved ← addReservation s.reserved s.config.budget record.node.budget
  let task : ScheduledTask :=
    { workflowId := s.config.workflowId, nodeId, attempt, inputDigest := record.node.inputDigest
      assignedAgent := record.node.assignedAgent, task := record.node.task, budget := record.node.budget, deadlineUnixMs }
  let record : NodeRecord :=
    { record with nextAttempt, state := .dispatching attempt deadlineUnixMs, attemptUsage := {}, reservedBudget
                  admittedTask := some task }
  return ({ s.setNode nodeId record with reserved }, task)

/-- The node's state after the controller's answer to a dispatch. -/
def dispatchState (task : ScheduledTask) : Except DispatchError TurnLease → NodeState
  | .ok handle =>
    if (validateLease handle task.assignedAgent).isOk then .running task.attempt handle task.deadlineUnixMs
    else .recoveryRequired task.attempt none "controller returned a mismatched or invalid active lease"
  | .error (.notApplied detail) => .failed task.attempt (boundedDetail detail)
  | .error (.outcomeUnknown detail) => .recoveryRequired task.attempt none (boundedDetail detail)

def Snapshot.withState (s : Snapshot) (nodeId : Nat) (state : NodeState) : Except Error (Snapshot × NodeState) := do
  let record ← s.requireNode nodeId
  return (s.setNode nodeId { record with state }, state)

def Owner.admitDispatch (o : Owner) (nodeId version nowUnixMs : Nat) : Except Error (Snapshot × ScheduledTask) := do
  o.ensurePort version
  let ready ← o.readyNodes nowUnixMs
  refuseIf (nodeId ∉ ready) (.transition "node is blocked, busy, quarantined, expired or out of budget")
  o.snapshot.dispatched nodeId nowUnixMs

/-- An owner after a call, what it asked the controller to run, and what the call returned, if it did. -/
structure Called where
  owner : Owner
  dispatched : Option ScheduledTask
  result : Option (Except Error NodeState)

def Owner.dispatch (o : Owner) (nodeId version nowUnixMs : Nat) (p : Publication) (reply : Reply TurnLease)
    (q : Publication) : Called :=
  match o.committing (o.admitDispatch nodeId version nowUnixMs) p with
  | (o, .error e) => ⟨o, none, some (.error e)⟩
  | (o, .ok task) =>
    match reply with
    | none => ⟨o, some task, none⟩
    | some reply =>
      let (o, result) := o.committing (o.snapshot.withState nodeId (dispatchState task reply)) q
      ⟨o, some task, some result⟩

def Owner.runningAttempt (o : Owner) (nodeId version : Nat) : Except Error (Nat × TurnLease × Nat) := do
  o.ensurePort version
  let record ← o.snapshot.requireNode nodeId
  match record.state with
  | .running attempt lease deadline => .ok (attempt, lease, deadline)
  | _ => .error (.transition "interrupt requires a running workflow node")

/-- The node's state after the controller refused an interrupt or its effect is unknown. -/
def interruptState (attempt : Nat) (lease : TurnLease) (deadline : Nat) : DispatchError → NodeState
  | .notApplied _ => .running attempt lease deadline
  | .outcomeUnknown detail => .recoveryRequired attempt (some lease) (boundedDetail detail)

def Owner.interrupt (o : Owner) (nodeId version : Nat) (p : Publication) (reply : Reply Unit) (q : Publication) : Called :=
  match o.runningAttempt nodeId version with
  | .error e => ⟨o, none, some (.error e)⟩
  | .ok (attempt, lease, deadline) =>
    match o.committing (o.snapshot.withState nodeId (.cancelling attempt lease deadline)) p with
    | (o, .error e) => ⟨o, none, some (.error e)⟩
    | (o, .ok cancelling) =>
      match reply with
      | none => ⟨o, none, none⟩
      | some (.ok ()) => ⟨o, none, some (.ok cancelling)⟩
      | some (.error error) =>
        match o.committing (o.snapshot.withState nodeId (interruptState attempt lease deadline error)) q with
        | (o, .error e) => ⟨o, none, some (.error e)⟩
        | (o, .ok _) =>
          ⟨o, none, some (.error (.transition "interrupt refused or effect unknown; inspect node state"))⟩

def cumulativeDelta (usage charged : BudgetUsage) : Except Error BudgetUsage := do
  let turns ← orElseError (checkedSub usage.turns charged.turns) (.budget "cumulative turn usage decreased")
  let tokens ← orElseError (checkedSub usage.tokens charged.tokens) (.budget "cumulative token usage decreased")
  let costMicrousd ← orElseError (checkedSub usage.costMicrousd charged.costMicrousd)
    (.budget "cumulative cost usage decreased")
  let wallMs ← orElseError (checkedSub usage.wallMs charged.wallMs) (.budget "cumulative wall usage decreased")
  return { turns, tokens, costMicrousd, wallMs }

def completionState (state : NodeState) (attempt : Nat) : Completion → Except Error NodeState
  | .succeeded resultDigest => do
    digest resultDigest
    match state with
    | .cancelling _ _ _ => .error (.transition "cancelled task needs explicit cancelled settlement")
    | _ => return .succeeded attempt resultDigest
  | .failed detail => do text detail maxDiagnosticBytes; return .failed attempt detail
  | .cancelled detail => do text detail maxDiagnosticBytes; return .cancelled attempt detail

/-- The state a report leaves: unknown effects and usage beyond the node's budget need reconciliation. -/
def settledState (r : NodeRecord) (attempt : Nat) (lease : Option TurnLease) (completion : Completion)
    (usage : BudgetUsage) (effectsKnown : Bool) : Except Error NodeState :=
  if !effectsKnown || !usageFits usage r.node.budget then
    .ok (.recoveryRequired attempt lease "effect outcome unknown or actual usage exceeds admission")
  else completionState r.state attempt completion

/-- `settle_inner` up to its commit. -/
def Snapshot.settled (s : Snapshot) (nodeId attempt : Nat) (lease : Option TurnLease) (completion : Completion)
    (usage : BudgetUsage) (effectsKnown : Bool) : Except Error (Snapshot × NodeState) := do
  let record ← s.requireNode nodeId
  let delta ← cumulativeDelta usage record.attemptUsage
  let total ← orElseError (record.usage.checkedAdd delta) (.budget "actual usage counter overflow")
  let state ← settledState record attempt lease completion usage effectsKnown
  return (s.setNode nodeId { record with usage := total, attemptUsage := usage, state }, state)

def NodeState.settleable : NodeState → Bool
  | .running _ _ _ | .cancelling _ _ _ | .recoveryRequired _ _ _ => true
  | _ => false

def Owner.settle (o : Owner) (nodeId attempt : Nat) (lease : TurnLease) (completion : Completion) (usage : BudgetUsage)
    (effectsKnown : Bool) (p : Publication) : Owner × Except Error NodeState :=
  o.committing (do
    o.ensureLive
    let record ← o.snapshot.requireNode nodeId
    refuseIf (record.state.attempt ≠ some attempt ∨ record.state.lease ≠ some lease ∨ record.state.settleable = false)
      .staleLease
    o.snapshot.settled nodeId attempt (some lease) completion usage effectsKnown) p

def Owner.reconcileStopped (o : Owner) (nodeId attempt : Nat) (completion : Completion) (usage : BudgetUsage)
    (effectsKnown : Bool) (p : Publication) : Owner × Except Error NodeState :=
  o.committing (do
    o.ensureLive
    let record ← o.snapshot.requireNode nodeId
    refuseIf (record.state.isRecoveryRequired = false ∨ record.state.attempt ≠ some attempt) .staleLease
    o.snapshot.settled nodeId attempt record.state.lease completion usage effectsKnown) p

end Iteron.Scheduler
