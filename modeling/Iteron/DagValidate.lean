import Iteron.DagTypes
import Iteron.Refuse
/-!
# DagValidate — what the task graph accepts

`validateCommand` refuses a command with the first check it fails, in the order the source makes them.  It reads the
graph and changes nothing; `DagReduce` applies what it accepted.
-/
namespace Iteron.Dag

open Machine Refuse Text

def maxReasonBytes : Nat := 2048

def maxMessageBytes : Nat := 16384

def maxLabelBytes : Nat := 256

def hardMaxAttempts : Nat := 4096

def liftInvalid {α : Type} : Except String α → Except DagError α
  | .ok a => .ok a
  | .error reason => .error (.invalid reason)

def liftBudget {α : Type} : Except String α → Except DagError α
  | .ok a => .ok a
  | .error reason => .error (.budget reason)

def orElseError {α : Type} (x : Option α) (e : DagError) : Except DagError α :=
  match x with
  | some a => .ok a
  | none => .error e

def budgetFits (limit : TaskBudget) (usage : BudgetUsage) (reserved requested : BudgetReservation) :
    Except DagError Unit := do
  let reserved ← orElseError (reserved.checkedAdd requested) (.budget "budget reservation overflow")
  let turns ← orElseError (checkedAdd usage.turns reserved.turns) (.budget "turn usage overflow")
  refuseIf (turns > limit.maxTurns.toNat) (.budget "turn reservation exceeds its parent ceiling")
  let tokens ← orElseError (checkedAdd usage.tokens reserved.tokens) (.budget "token usage overflow")
  refuseIf (tokens > limit.maxTokens) (.budget "token reservation exceeds its parent ceiling")
  let cost ← orElseError (checkedAdd usage.costMicrousd reserved.costMicrousd) (.budget "cost usage overflow")
  refuseIf (cost > limit.maxCostMicrousd) (.budget "cost reservation exceeds its parent ceiling")
  refuseIf (usage.wallMs > limit.maxWallMs) (.budget "wall-clock usage exceeds its task ceiling")

/-- Text an operator will see; `name` is the subject of its length error. -/
def validateVisible (value : String) (maxBytes : Nat) (name : String) : Except DagError Unit := do
  refuseIf (value.isEmpty = true ∨ value.utf8ByteSize > maxBytes)
    (.invalid (if name = "cancel reason" ∨ name = "cancellation reason" then
      name ++ " is empty or over its byte limit" else "failure detail is over its byte limit"))
  refuseIf (value.toList.any (fun c => (isControl c && c != '\n' && c != '\t') || isBidiOverride c) = true)
    (.invalid "task-DAG display text contains terminal-control or bidi-override characters")

def validateDetail (detail : Option String) (name : String) : Except DagError Unit :=
  match detail with
  | some detail => validateVisible detail maxReasonBytes name
  | none => .ok ()

def TaskState.isAdmitted : TaskState → Bool
  | .running | .cancelling _ => true
  | _ => false

namespace TaskDag

variable (d : TaskDag)

def requireTask (id : TaskId) : Except DagError Task := orElseError d.tasks[id]? (.unknownTask id)

def requireAttempt (id : AttemptId) : Except DagError Attempt :=
  orElseError d.attempts[id]? (.invalid "attempt does not exist")

def requireActiveActor : Actor → Except DagError Unit
  | .controller => .ok ()
  | .task id => do
    let task ← d.requireTask id
    refuseIf (task.state.isAdmitted = false) (.transition id "task actor is not running")

def authorizeTaskOrController (actor : Actor) (task : TaskId) : Except DagError Unit :=
  match actor with
  | .controller => .ok ()
  | .task id => if id = task then do
      let _ ← d.requireTask id
      return ()
    else .error (.authority "a task may mutate only its own execution state")

/-- The controller, or the task `owner` itself while it is running. -/
def requireOwner (actor : Actor) (owner : TaskId) (reason : String) : Except DagError Unit :=
  match actor with
  | .controller => .ok ()
  | .task id => if id = owner then d.requireActiveActor actor else .error (.authority reason)

/-- The walk from `candidate` to its ancestors, `fuel` of them at most. -/
def ancestorWalk (ancestor : TaskId) : Nat → TaskId → Bool
  | 0, _ => false
  | fuel + 1, candidate =>
    if ancestor = candidate then true
    else match (d.tasks[candidate]?).bind (fun task => task.spec.parent) with
      | none => false
      | some parent => ancestorWalk ancestor fuel parent

def isAncestorOrSelf (ancestor candidate : TaskId) : Bool :=
  d.ancestorWalk ancestor (d.config.limits.maxHierarchyDepth + 1) candidate

/-- What `current` waits for: its dependencies, then its direct children. -/
def waitEdges (current : TaskId) : List TaskId :=
  ((d.tasks[current]?).map (fun task => task.spec.dependencies)).getD [] ++
    d.tasks.toList.filterMap (fun p => if p.2.spec.parent = some current then some p.1 else none)

/-- The depth-first search of `waitsFor`: `pending` is the stack, its end the top. -/
def waitSearch (target : TaskId) : Nat → List TaskId → List TaskId → Bool
  | 0, _, _ => false
  | fuel + 1, pending, visited =>
    match pending.getLast? with
    | none => false
    | some current =>
      if current = target then true
      else if current ∈ visited then waitSearch target fuel pending.dropLast visited
      else waitSearch target fuel (pending.dropLast ++ d.waitEdges current) (current :: visited)

/-- Does `start` already wait for `target`, across dependencies and parent-waits-child edges?  Every task pushes its
edges once, so the search pops at most one entry for each edge and one for `start`, and then finds the stack empty. -/
def waitsFor (start target : TaskId) : Bool :=
  d.waitSearch target ((d.tasks.toList.map (fun p => (d.waitEdges p.1).length)).sum + 2) [start] []

def dependencySet (spec : TaskSpec) : List TaskId := (Std.ExtTreeSet.ofList spec.dependencies compare).toList

def validateDependency (spec : TaskSpec) (dependency : TaskId) : Except DagError Unit := do
  refuseIf (dependency = spec.id) (.invalid "task cannot depend on itself")
  let _ ← d.requireTask dependency
  refuseIf (spec.parent.any (fun parent => d.isAncestorOrSelf dependency parent) = true)
    (.invalid "a child cannot depend on its parent or another ancestor")
  refuseIf (spec.parent.any (fun parent => d.waitsFor dependency parent) = true)
    (.invalid "task creation would cycle dependency and parent-child wait edges")

/-- The ceiling a new task reserves from: hierarchy depth, limit, usage and reservations of its owner. -/
def reservationOwner (actor : Actor) : Option TaskId → Except DagError (Nat × TaskBudget × BudgetUsage × BudgetReservation)
  | some parentId => do
    let parent ← d.requireTask parentId
    refuseIf (parent.state.isTerminal = true ∨ (parent.state matches .cancelling _) = true)
      (.transition parentId "parent no longer accepts children")
    d.requireOwner actor parentId "a task may create only its own direct child"
    return (parent.hierarchyDepth + 1, parent.spec.budget, parent.usage, parent.childReservations)
  | none => do
    refuseIf (actor ≠ .controller) (.authority "only the controller may create a root task")
    return (0, d.config.budget, {}, d.rootReservations)

def dependencyDepthOf (dependencies : List TaskId) : Nat :=
  dependencies.foldl (fun depth id => max depth (((d.tasks[id]?).map (fun t => t.dependencyDepth + 1)).getD 0)) 0

def validateCreate (actor : Actor) (spec : TaskSpec) : Except DagError Unit := do
  refuseIf (spec.id = 0) (.invalid "task id must be non-zero")
  refuseIf (d.tasks.contains spec.id = true) (.duplicateTask spec.id)
  refuseIf (spec.declarationIndex = some 0) (.invalid "task declaration index must be non-zero")
  refuseIf (d.tasks.size ≥ d.config.limits.maxTasks) (.capacity "task")
  liftInvalid (validateIdentifier spec.label maxLabelBytes "task label")
  liftBudget spec.budget.validate
  refuseIf (spec.dependencies.length > d.config.limits.maxEdges) (.capacity "edge")
  let dependencies := dependencySet spec
  refuseIf (dependencies.length ≠ spec.dependencies.length) (.invalid "task dependencies contain duplicates")
  let newEdges := dependencies.length + spec.parent.isSome.toNat
  refuseIf (d.edgeCount + newEdges > d.config.limits.maxEdges) (.capacity "edge")
  let (hierarchyDepth, limit, usage, reserved) ← d.reservationOwner actor spec.parent
  refuseIf (hierarchyDepth > d.config.limits.maxHierarchyDepth) (.capacity "hierarchy depth")
  budgetFits limit usage reserved spec.budget.reservable
  let remainingWall ← orElseError (checkedSub limit.maxWallMs usage.wallMs)
    (.budget "wall-clock usage exceeds its parent ceiling")
  refuseIf (spec.budget.maxWallMs > remainingWall)
    (.budget "wall-clock budget exceeds its parent's remaining ceiling")
  forM dependencies (d.validateDependency spec)
  refuseIf (d.dependencyDepthOf dependencies > d.config.limits.maxDependencyDepth) (.capacity "dependency depth")

def validateStart (actor : Actor) (task : TaskId) : Except DagError Unit := do
  refuseIf (actor ≠ .controller) (.authority "only the controller may admit a task")
  let task ← d.requireTask task
  refuseIf (task.state ≠ .ready) (.transition task.spec.id "task is not ready")
  match task.spec.parent with
  | none => return ()
  | some parent => do
    let parent ← d.requireTask parent
    refuseIf (parent.state ≠ .running)
      (.transition task.spec.id "task cannot start before its parent is running")

/-- Whether a retry's cause agrees with the terminal of its predecessor. -/
def causeMatchesTerminal : AttemptState → AttemptRetryCause → Bool
  | .succeeded .., .schemaValidation => true
  | .failed code .., .childFailure => code == "child_task_failed"
  | .failed code .., .negativeTerminal => code == "negative_terminal"
  | _, _ => false

def validateRetry (H : Digests) (attempt : AttemptSpec) (priorId : AttemptId) (cause : AttemptRetryCause)
    (evidence : String) : Except DagError Unit := do
  let prior ← d.requireAttempt priorId
  refuseIf (prior.spec.task ≠ attempt.task) (.invalid "retry predecessor belongs to a different task")
  refuseIf (prior.spec.retryOrdinal.toNat + 1 ≠ attempt.retryOrdinal.toNat)
    (.invalid "retry ordinal must immediately follow its predecessor")
  refuseIf (prior.state.isTerminal = false) (.invalid "retry predecessor must have a durable terminal")
  refuseIf ((prior.state matches .unknownEffect _) = true)
    (.invalid "an unknown-effect attempt may not be retried or reassigned")
  refuseIf (H.attemptState prior.state ≠ evidence)
    (.invalid "retry predecessor evidence digest does not match its durable terminal")
  refuseIf (causeMatchesTerminal prior.state cause = false)
    (.invalid "retry cause is inconsistent with its durable predecessor terminal")

def validateAttemptRegistration (H : Digests) (actor : Actor) (attempt : AttemptSpec) : Except DagError Unit := do
  refuseIf (actor ≠ .controller) (.authority "only the controller may register an attempt")
  refuseIf (attempt.id = 0) (.invalid "attempt id must be non-zero")
  refuseIf (d.attempts.contains attempt.id = true) (.invalid "attempt already exists")
  refuseIf (d.attempts.size ≥ hardMaxAttempts) (.capacity "attempt")
  let task ← d.requireTask attempt.task
  refuseIf (task.state ≠ .running) (.transition task.spec.id "attempt task is not running")
  refuseIf (validDigest attempt.inputDigest = false)
    (.invalid "attempt input digest must be exactly 64 hexadecimal bytes")
  if attempt.lineageVersion = 0 then
    refuseIf (attempt.retryOf.isSome = true ∨ attempt.retryCause.isSome = true ∨
        attempt.priorEvidenceDigest.isSome = true)
      (.invalid "legacy attempt lineage cannot carry version-one fields")
  else do
    refuseIf (attempt.lineageVersion ≠ 1) (.invalid "unsupported attempt lineage version")
    match attempt.assignment, attempt.retryOf, attempt.retryCause, attempt.priorEvidenceDigest with
    | .initial, none, none, none =>
      refuseIf (attempt.retryOrdinal ≠ 0) (.invalid "attempt assignment lineage is inconsistent")
    | .retrySame, some priorId, some cause, some evidence | .reassigned, some priorId, some cause, some evidence =>
      if attempt.retryOrdinal > 0 ∧ validDigest evidence = true then d.validateRetry H attempt priorId cause evidence
      else .error (.invalid "attempt assignment lineage is inconsistent")
    | _, _, _, _ => .error (.invalid "attempt assignment lineage is inconsistent")

def validateStartAttempt (actor : Actor) (attempt : AttemptId) : Except DagError Unit := do
  refuseIf (actor ≠ .controller) (.authority "only the controller may dispatch an attempt")
  let attempt ← d.requireAttempt attempt
  refuseIf (attempt.state ≠ .registered) (.invalid "attempt is not registered")
  let task ← d.requireTask attempt.spec.task
  refuseIf (task.state ≠ .running) (.transition task.spec.id "attempt task is not running")

def validateAttemptCompletion (actor : Actor) (attemptId : AttemptId) (completion : AttemptCompletion)
    (disposition : AttemptDisposition) (resultDigest code detail : Option String) : Except DagError Unit := do
  refuseIf (actor ≠ .controller) (.authority "only the controller may settle an attempt")
  let attempt ← d.requireAttempt attemptId
  refuseIf (attempt.state ≠ .running) (.invalid "attempt is not running")
  match completion with
  | .succeeded =>
    refuseIf (resultDigest.any validDigest = false ∨ code.isSome = true ∨ detail.isSome = true ∨
        disposition = .negative ∨ disposition = .unknownEffect)
      (.invalid "attempt success requires one digest and a selected/loser disposition")
  | .failed => do
    let code ← orElseError code (.invalid "attempt failure requires a code")
    liftInvalid (validateIdentifier code 128 "completion code")
    validateDetail detail "attempt failure detail"
    refuseIf (resultDigest.isSome = true ∨ (disposition ≠ .negative ∧ disposition ≠ .loser))
      (.invalid "attempt failure requires a negative or loser disposition")
  | .cancelled => do
    let reason ← orElseError detail (.invalid "attempt cancellation requires a reason")
    validateVisible reason maxReasonBytes "attempt cancellation reason"
    refuseIf (resultDigest.isSome = true ∨ code.isSome = true ∨ disposition ≠ .loser)
      (.invalid "attempt cancellation must identify an unselected loser")
  | .unknownEffect => do
    let reason ← orElseError detail (.invalid "unknown effect requires a reason")
    validateVisible reason maxReasonBytes "unknown-effect reason"
    refuseIf (resultDigest.isSome = true ∨ code.isSome = true ∨ disposition ≠ .unknownEffect)
      (.invalid "unknown-effect terminal requires its exact disposition")

def validateCharge (actor : Actor) (task : TaskId) (delta : BudgetUsage) : Except DagError Unit := do
  refuseIf (actor ≠ .controller) (.authority "only the controller may journal verified budget usage")
  let task ← d.requireTask task
  refuseIf (task.state.isAdmitted = false) (.transition task.spec.id "task is not running")
  refuseIf (delta = {}) (.budget "zero usage deltas are not journaled")
  let usage ← orElseError (task.usage.checkedAdd delta) (.budget "usage counter overflow")
  budgetFits task.spec.budget usage task.childReservations {}

def validateMessage (actor : Actor) (message : TaskMessage) : Except DagError Unit := do
  refuseIf (message.id = 0) (.invalid "message id must be non-zero")
  refuseIf (d.messages.contains message.id = true) (.duplicateMessage message.id)
  refuseIf (d.messages.size ≥ d.config.limits.maxMessages) (.capacity "message")
  refuseIf (message.delivery ≠ .pending) (.invalid "new messages must begin pending")
  refuseIf (message.payload.isEmpty = true ∨ message.payload.utf8ByteSize > maxMessageBytes)
    (.invalid "message is empty or over its byte limit")
  let recipient ← d.requireTask message.recipient
  refuseIf (recipient.state.isTerminal = true)
    (.transition message.recipient "terminal task cannot receive a message")
  match actor, message.sender with
  | .controller, none => return ()
  | .task actorId, some sender =>
    if actorId = sender then d.requireActiveActor actor
    else .error (.authority "message provenance must match the sending actor")
  | _, _ => .error (.authority "message provenance must match the sending actor")

def validateAcknowledge (actor : Actor) (message : MessageId) : Except DagError Unit := do
  let found ← orElseError d.messages[message]? (.unknownMessage message)
  d.requireOwner actor found.recipient "only the recipient or controller may acknowledge a message"
  refuseIf (found.delivery ≠ .pending) (.invalid "message is already acknowledged")

def validateJoin (actor : Actor) (join : JoinSpec) : Except DagError Unit := do
  refuseIf (join.id = 0) (.invalid "join id must be non-zero")
  refuseIf (d.joins.contains join.id = true) (.duplicateJoin join.id)
  refuseIf (d.joins.size ≥ d.config.limits.maxJoins) (.capacity "join")
  refuseIf (join.members.length > d.config.limits.maxTasks) (.capacity "join member")
  let members := (Std.ExtTreeSet.ofList join.members compare).toList
  refuseIf (members = [] ∨ members.length ≠ join.members.length) (.invalid "join members must be non-empty and unique")
  match join.owner with
  | some owner => do
    let _ ← d.requireTask owner
    d.requireOwner actor owner "a task may register only its own join"
    forM members fun member => do
      let _ ← d.requireTask member
      refuseIf (member = owner ∨ d.isAncestorOrSelf owner member = false)
        (.authority "task-owned joins may contain descendants only")
  | none => do
    refuseIf (actor ≠ .controller) (.authority "only the controller may register a root join")
    forM members fun member => do
      let _ ← d.requireTask member
      return ()

def validateCancel (actor : Actor) (task : TaskId) (reason : String) : Except DagError Unit := do
  let target ← d.requireTask task
  refuseIf (target.state.isTerminal = true ∨ (target.state matches .cancelling _) = true)
    (.transition task "task is already terminal or cancelling")
  validateVisible reason maxReasonBytes "cancel reason"
  match actor with
  | .controller => return ()
  | .task actorId => do
    d.requireActiveActor actor
    refuseIf (d.isAncestorOrSelf actorId task = false) (.authority "a task may cancel only itself or its descendants")

def validateTerminal (completion : Completion) (resultDigest code detail : Option String) : Except DagError Unit :=
  match completion with
  | .succeeded =>
    refuseIf (resultDigest.any validDigest = false ∨ code.isSome = true ∨ detail.isSome = true)
      (.invalid "success requires exactly one 64-hex result digest")
  | .failed => do
    let code ← orElseError code (.invalid "failure requires a code")
    liftInvalid (validateIdentifier code 128 "completion code")
    validateDetail detail "failure detail"
    refuseIf (resultDigest.isSome = true) (.invalid "failure cannot carry a result digest")
  | .cancelled => do
    let reason ← orElseError detail (.invalid "cancellation requires a reason")
    validateVisible reason maxReasonBytes "cancellation reason"
    refuseIf (resultDigest.isSome = true ∨ code.isSome = true)
      (.invalid "cancellation cannot carry a result digest or code")

/-- A cancelling task may only acknowledge the cancellation it was asked for. -/
def validateAcknowledgement (task : TaskId) (state : TaskState) (completion : Completion) (detail : Option String) :
    Except DagError Unit :=
  match state with
  | .cancelling reason => do
    refuseIf (completion ≠ .cancelled) (.transition task "a cancelling task may only acknowledge cancellation")
    refuseIf (detail ≠ some reason)
      (.transition task "cancellation acknowledgement must preserve the requested cause")
  | _ => .ok ()

def hasOpenChild (task : TaskId) : Bool :=
  (Table.vals d.tasks).any (fun t => t.spec.parent == some task && !t.state.isTerminal)

def hasOpenAttempt (task : TaskId) : Bool :=
  (Table.vals d.attempts).any (fun a => a.spec.task == task && !a.state.isTerminal)

def validateCompletion (actor : Actor) (task : TaskId) (completion : Completion)
    (resultDigest code detail : Option String) : Except DagError Unit := do
  d.authorizeTaskOrController actor task
  let target ← d.requireTask task
  refuseIf (target.state.isAdmitted = false) (.transition task "only an admitted task can complete")
  refuseIf (d.hasOpenChild task = true) (.transition task "task cannot complete while a direct child is nonterminal")
  refuseIf (d.hasOpenAttempt task = true)
    (.transition task "task cannot complete while a physical attempt is nonterminal")
  validateAcknowledgement task target.state completion detail
  validateTerminal completion resultDigest code detail

def validateCommand (H : Digests) : Command → Except DagError Unit
  | .createTask actor spec => d.validateCreate actor spec
  | .startTask actor task => d.validateStart actor task
  | .registerAttempt actor attempt => d.validateAttemptRegistration H actor attempt
  | .startAttempt actor attempt => d.validateStartAttempt actor attempt
  | .completeAttempt actor attempt completion disposition resultDigest code detail =>
    d.validateAttemptCompletion actor attempt completion disposition resultDigest code detail
  | .chargeBudget actor task delta => d.validateCharge actor task delta
  | .sendMessage actor message => d.validateMessage actor message
  | .acknowledgeMessage actor message => d.validateAcknowledge actor message
  | .registerJoin actor join => d.validateJoin actor join
  | .requestCancel actor task reason => d.validateCancel actor task reason
  | .completeTask actor task completion resultDigest code detail =>
    d.validateCompletion actor task completion resultDigest code detail

/-- Bound every variable-width field before the command is digested. -/
def validateCommandShape : Command → Except DagError Unit
  | .createTask _ spec => do
    refuseIf (spec.dependencies.length > d.config.limits.maxEdges) (.capacity "edge")
    refuseIf (spec.label.utf8ByteSize > maxLabelBytes) (.invalid "task label is over its byte limit")
    liftBudget spec.budget.validate
  | .sendMessage _ message =>
    refuseIf (message.payload.utf8ByteSize > maxMessageBytes) (.invalid "message is over its byte limit")
  | .registerJoin _ join => refuseIf (join.members.length > d.config.limits.maxTasks) (.capacity "join member")
  | .requestCancel _ _ reason =>
    refuseIf (reason.utf8ByteSize > maxReasonBytes) (.invalid "cancel reason is over its byte limit")
  | .completeTask _ _ _ resultDigest code detail => completionShape "" resultDigest code detail
  | .completeAttempt _ _ _ _ resultDigest code detail => completionShape "attempt " resultDigest code detail
  | .registerAttempt _ attempt => do
    refuseIf (attempt.inputDigest.utf8ByteSize > 64) (.invalid "attempt input digest is over its byte limit")
    refuseIf (attempt.priorEvidenceDigest.any (fun v => decide (v.utf8ByteSize > 64)) = true)
      (.invalid "attempt predecessor evidence digest is over its byte limit")
  | .startTask .. | .startAttempt .. | .chargeBudget .. | .acknowledgeMessage .. => .ok ()
where
  completionShape (subject : String) (resultDigest code detail : Option String) : Except DagError Unit := do
    refuseIf (resultDigest.any (fun v => decide (v.utf8ByteSize > 64)) = true)
      (.invalid (subject ++ "result digest is over its byte limit"))
    refuseIf (code.any (fun v => decide (v.utf8ByteSize > 128)) = true)
      (.invalid (subject ++ "completion code is over its byte limit"))
    refuseIf (detail.any (fun v => decide (v.utf8ByteSize > maxReasonBytes)) = true)
      (.invalid (subject ++ "completion detail is over its byte limit"))

end TaskDag
end Iteron.Dag
