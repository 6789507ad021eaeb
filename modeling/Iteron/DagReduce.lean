import Iteron.DagValidate
import Mathlib.Data.List.Sort
/-!
# DagReduce — how the task graph changes

`apply` prepares a command (shape, idempotency, event ceiling, validation), and commits what was accepted.  The source
asserts facts of a validated command with `expect`; here an application that would meet a failed assertion is `none`.
-/
namespace Iteron.Dag
namespace TaskDag

abbrev Tasks := Std.ExtTreeMap TaskId Task

/-- The state dependencies leave a task in: skipped by the first that ended badly, ready when all succeeded. -/
def initialState (tasks : Tasks) (dependencies : List TaskId) : TaskState :=
  match dependencies.find? (fun id => (tasks[id]?).any (fun t => t.state.isTerminal && !t.state.isSucceeded)) with
  | some dependency => .skippedDependency dependency
  | none =>
    if dependencies.all (fun id => (tasks[id]?).any (fun t => t.state.isSucceeded)) then .ready else .blocked

def resolveTask (tasks : Tasks) (t : Task) : Task :=
  if t.state = .blocked then { t with state := initialState tasks t.spec.dependencies } else t

/-- One round: every blocked task moves to the state its dependencies leave it in. -/
def resolvePass (tasks : Tasks) : Tasks := tasks.map (fun _ t => resolveTask tasks t)

def transitions (tasks : Tasks) : List TaskId :=
  tasks.toList.filterMap (fun p =>
    if p.2.state = .blocked ∧ initialState tasks p.2.spec.dependencies ≠ .blocked then some p.1 else none)

def resolveRounds : Nat → Tasks → Tasks
  | 0, tasks => tasks
  | rounds + 1, tasks => if transitions tasks = [] then tasks else resolveRounds rounds (resolvePass tasks)

def resolveBlocked (tasks : Tasks) : Tasks := resolveRounds tasks.size tasks

def setState (tasks : Tasks) (id : TaskId) (state : TaskState) : Option Tasks :=
  (tasks[id]?).map (fun t => tasks.insert id { t with state := state })

/-- Reserve a new task's budget from its parent, or from the graph for a root task. -/
def reserveFromOwner (d : TaskDag) (parent : Option TaskId) (reservation : BudgetReservation) :
    Option (Tasks × BudgetReservation) :=
  match parent with
  | some parentId => do
    let parent ← d.tasks[parentId]?
    let reserved ← parent.childReservations.checkedAdd reservation
    return (d.tasks.insert parentId { parent with childReservations := reserved }, d.rootReservations)
  | none => do
    let reserved ← d.rootReservations.checkedAdd reservation
    return (d.tasks, reserved)

def sortIds (ids : List TaskId) : List TaskId := ids.insertionSort (fun a b => a ≤ b)

/-- The task a creation inserts: sorted dependencies, the depths they and the parent give it, its first state. -/
def newTask (d : TaskDag) (spec : TaskSpec) : Task :=
  let dependencies := sortIds spec.dependencies
  { spec := { spec with dependencies := dependencies }
    state := initialState d.tasks dependencies
    usage := {}
    hierarchyDepth := ((spec.parent.bind (fun p => d.tasks[p]?)).map (fun p => p.hierarchyDepth + 1)).getD 0
    dependencyDepth :=
      ((dependencies.filterMap (fun id => d.tasks[id]?)).map (fun t => t.dependencyDepth + 1)).max?.getD 0
    inbox := []
    childReservations := {} }

def applyCreate (d : TaskDag) (spec : TaskSpec) : Option TaskDag := do
  let (tasks, rootReservations) ← d.reserveFromOwner spec.parent spec.budget.reservable
  return { d with
    tasks := resolveBlocked (tasks.insert spec.id (d.newTask spec))
    edgeCount := d.edgeCount + (spec.dependencies.length + spec.parent.isSome.toNat)
    rootReservations := rootReservations }

def attemptTerminal (completion : AttemptCompletion) (disposition : AttemptDisposition)
    (resultDigest code detail : Option String) : Option AttemptState :=
  match completion with
  | .succeeded => resultDigest.map (fun digest => .succeeded digest disposition)
  | .failed => code.map (fun code => .failed code (detail.getD "") disposition)
  | .cancelled => detail.map (fun reason => .cancelled reason disposition)
  | .unknownEffect => detail.map (fun reason => .unknownEffect reason)

/-- The state a completed task takes; a cancellation keeps the cause already recorded. -/
def taskTerminal (current : Option TaskState) (completion : Completion) (resultDigest code detail : Option String) :
    Option TaskState :=
  match completion with
  | .succeeded => resultDigest.map .succeeded
  | .failed => code.map (fun code => .failed code (detail.getD ""))
  | .cancelled =>
    match current with
    | some (.cancelling reason) => some (.cancelled reason)
    | _ => detail.map .cancelled

def cancelState (reason : String) : TaskState → TaskState
  | .blocked | .ready => .cancelled reason
  | .running => .cancelling reason
  | state => state

def setAttemptState (d : TaskDag) (id : AttemptId) (state : AttemptState) : Option TaskDag := do
  let a ← d.attempts[id]?
  return { d with attempts := d.attempts.insert id { a with state := state } }

def applyValidated (d : TaskDag) : Command → Option TaskDag
  | .createTask _ spec => d.applyCreate spec
  | .startTask _ task => do
    let tasks ← setState d.tasks task .running
    return { d with tasks := tasks }
  | .registerAttempt _ attempt => some
    { d with attempts := d.attempts.insert attempt.id { spec := attempt, state := .registered } }
  | .startAttempt _ attempt => d.setAttemptState attempt .running
  | .completeAttempt _ attempt completion disposition resultDigest code detail => do
    let state ← attemptTerminal completion disposition resultDigest code detail
    d.setAttemptState attempt state
  | .chargeBudget _ task delta => do
    let t ← d.tasks[task]?
    let usage ← t.usage.checkedAdd delta
    return { d with tasks := d.tasks.insert task { t with usage := usage } }
  | .sendMessage _ message => do
    let t ← d.tasks[message.recipient]?
    return { d with
      tasks := d.tasks.insert message.recipient { t with inbox := t.inbox ++ [message.id] }
      messages := d.messages.insert message.id message }
  | .acknowledgeMessage _ message => do
    let m ← d.messages[message]?
    return { d with messages := d.messages.insert message { m with delivery := .acknowledged } }
  | .registerJoin _ join => some
    { d with joins := d.joins.insert join.id { join with members := sortIds join.members } }
  | .requestCancel _ task reason => some
    { d with tasks := resolveBlocked (d.tasks.map (fun id t =>
        if d.isAncestorOrSelf task id then { t with state := cancelState reason t.state } else t)) }
  | .completeTask _ task completion resultDigest code detail => do
    let state ← taskTerminal ((d.tasks[task]?).map Task.state) completion resultDigest code detail
    let tasks ← setState d.tasks task state
    return { d with tasks := resolveBlocked tasks }

def commit (d : TaskDag) (entry : LogEntry) : Option TaskDag := do
  let applied ← d.applyValidated entry.command
  return { applied with
    sequence := entry.sequence
    headDigest := entry.entryDigest
    commands := d.commands.insert entry.commandId { sequence := entry.sequence, commandDigest := entry.commandDigest } }

inductive Prepared where
  | replay (receipt : ApplyReceipt)
  | new (entry : LogEntry)

def entryOf (H : Digests) (d : TaskDag) (commandId : Nat) (command : Command) : LogEntry :=
  { version := 1, graphId := d.config.graphId, sequence := d.sequence + 1, previousDigest := d.headDigest,
    commandId := commandId, commandDigest := H.command command, command := command,
    entryDigest := H.entry 1 d.config.graphId (d.sequence + 1) d.headDigest commandId (H.command command) command }

def prepare (H : Digests) (d : TaskDag) (commandId : Nat) (command : Command) : Except DagError Prepared :=
  if commandId = 0 then .error .invalidCommandId
  else match d.validateCommandShape command with
    | .error e => .error e
    | .ok () =>
      match d.commands[commandId]? with
      | some existing =>
        if existing.commandDigest = H.command command then
          .ok (.replay { sequence := existing.sequence, replayed := true })
        else .error (.commandConflict commandId)
      | none =>
        if d.sequence ≥ d.config.limits.maxEvents then .error .eventLimit
        else match d.validateCommand H command with
          | .error e => .error e
          | .ok () => .ok (.new (entryOf H d commandId command))

/-- Apply one command: `none` when an assertion of the application fails. -/
def apply (H : Digests) (d : TaskDag) (commandId : Nat) (command : Command) :
    Option (Except DagError (TaskDag × ApplyReceipt)) :=
  match d.prepare H commandId command with
  | .error e => some (.error e)
  | .ok (.replay receipt) => some (.ok (d, receipt))
  | .ok (.new entry) =>
    (d.commit entry).map (fun d' => .ok (d', { sequence := entry.sequence, replayed := false }))

/-- Replay one durable entry: its chain, its digests, its freshness, and the same validation as when it was new. -/
def replay (H : Digests) (d : TaskDag) (entry : LogEntry) : Option (Except DagError TaskDag) :=
  if entry.version ≠ 1 then 
    some (.error (.corrupt ("unsupported command-log version " ++ toString entry.version)))
  else if entry.graphId ≠ d.config.graphId then some (.error (.corrupt "graph id changed inside the log"))
  else if entry.sequence ≠ d.sequence + 1 then 
    some (.error (.corrupt ("sequence gap: expected " ++ toString (d.sequence + 1) ++ ", got " ++
      toString entry.sequence)))
  else if entry.previousDigest ≠ d.headDigest then
    some (.error (.corrupt "previous digest does not match the head"))
  else if entry.commandId = 0 then some (.error (.corrupt "command id zero is not valid during replay"))
  else if H.command entry.command ≠ entry.commandDigest then some (.error (.corrupt "command digest mismatch"))
  else if H.entryDigest entry ≠ entry.entryDigest then some (.error (.corrupt "entry digest mismatch"))
  else if d.commands.contains entry.commandId then some (.error (.corrupt "duplicate command id was appended"))
  else if d.sequence ≥ d.config.limits.maxEvents then
    some (.error (.corrupt "event ceiling exceeded by the log"))
  else match d.validateCommand H entry.command with
    | .error e => some (.error (.corrupt e.display))
    | .ok () => (d.commit entry).map .ok

def remainingBudget (d : TaskDag) (id : TaskId) : Except DagError TaskBudget := do
  let task ← d.requireTask id
  orElseError (task.spec.budget.remaining task.usage task.childReservations)
    (.budget "task budget invariant is inconsistent")

def remainingRootBudget (d : TaskDag) : Except DagError TaskBudget :=
  orElseError (d.config.budget.remaining {} d.rootReservations) (.budget "root budget invariant is inconsistent")

/-- A run: the graphs a sequence of accepted commands can reach, each step meeting `allowed`. -/
inductive Reaches (H : Digests) (allowed : TaskDag → Command → Prop) (config : Config) : TaskDag → Prop
  | new (d : TaskDag) : TaskDag.new H config = .ok d → Reaches H allowed config d
  | step (d d' : TaskDag) (commandId : Nat) (command : Command) (receipt : ApplyReceipt) :
      Reaches H allowed config d → allowed d command → d.apply H commandId command = some (.ok (d', receipt)) →
      Reaches H allowed config d'

def Reachable (H : Digests) (config : Config) (d : TaskDag) : Prop := Reaches H (fun _ _ => True) config d

end TaskDag
end Iteron.Dag
