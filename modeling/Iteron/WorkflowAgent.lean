import Iteron.DagLedger
import Iteron.WorkflowJournal
/-!
# WorkflowAgent — the agent calls of a workflow script

`run_agent` answers a call from the outcome journal when its content is known there, and otherwise admits a task to the
graph, runs it, journals the outcome and ends the task.  Calls run concurrently: `advance` takes one call one step, and
every durable write is a step of its own, so a crash (`resume`) falls between any two.  Appends succeed: a command the
graph accepts is written.  Digests, keys and the decoding of a call are parameters; what a live run returns is an input.
Progress rows, permits, quorum counting and command ids are left out.
-/
namespace Iteron.WorkflowAgent

open Dag WorkflowJournal

/-! ## Calls -/

/-- The wire shape of one `agent()` call. -/
structure RawCall where
  prompt : String
  label : Option String := none
  phase : Option String := none
  model : Option String := none
  effort : Option String := none
  agentType : Option String := none
  schema : Option Kernel.Json := none
  quorumGroup : Option Nat := none
  speculativeSiblings : Option Nat := none
  dependsOn : Option (List Nat) := none

inductive AgentRequestMetadataError where
  | agentType
  | model

def AgentRequestMetadataError.code : AgentRequestMetadataError → String
  | .agentType => "invalid_agent_type"
  | .model => "invalid_agent_model"

def AgentRequestMetadataError.publicReason : AgentRequestMetadataError → String
  | .agentType => "agent type must be 1..=128 ASCII bytes from [A-Za-z0-9_.-]"
  | .model => "model override must be non-blank, control-free, and at most 512 bytes"

def validateAgentType (agentType : Option String) : Except AgentRequestMetadataError Unit :=
  match agentType with
  | none => .ok ()
  | some value =>
    if value.isEmpty ∨ value.utf8ByteSize > 128 ∨
        value.toList.all (fun c => c.isAlphanum || c == '_' || c == '-' || c == '.') = false then .error .agentType
    else .ok ()

def validateModel (model : Option String) : Except AgentRequestMetadataError Unit :=
  match model with
  | none => .ok ()
  | some value =>
    if value.toList.all Text.isWhitespace = true ∨ value.utf8ByteSize > 512 ∨ value.toList.any Text.isControl = true then
      .error .model
    else .ok ()

def RawCall.metadata (raw : RawCall) : Except AgentRequestMetadataError Unit := do
  validateAgentType raw.agentType
  validateModel raw.model

inductive Envelope where
  | structured (value : Kernel.Json)
  | text (text : String)
  | null (reason : String)

def Envelope.isNull : Envelope → Bool
  | .null _ => true
  | _ => false

def envelopeFor (record : Record) : Envelope :=
  match record.outcome with
  | .structured value => .structured value
  | .text text => .text text
  | .null reason => .null (reason.getD "null")
  | .unknown => .null "unknown journal outcome"

def nullRecord (reason : Option String) : Record :=
  { outcome := .null reason, tokens := 0, toolCalls := 0, lastToolSummary := none }

/-- What the rest of the program gives a run: codecs, digests and the policy it was started with. -/
structure Env where
  decode : String → Option RawCall
  agentKey : RawCall → String
  rejectedAgentKey : String → String → String
  digestBytes : String → String
  /-- A SHA-256 digest in hexadecimal. -/
  digestBytes_valid : ∀ text, validDigest (digestBytes text) = true
  recordText : Record → String
  maxSiblings : Nat
  digests : Digests
  taskBudget : TaskBudget

def Env.dependencies (E : Env) (arg : String) : List Nat :=
  match E.decode arg with
  | some raw => raw.dependsOn.getD []
  | none => []

/-- The content key of a decoded call, or of its text when its metadata is refused. -/
def Env.key (E : Env) (arg : String) (raw : RawCall) : String :=
  match raw.metadata with
  | .ok () => E.agentKey raw
  | .error e => E.rejectedAgentKey arg e.code

/-- What a journaled record shows of the call that found it. -/
def visibleRecord (raw : RawCall) (record : Record) : Record :=
  match raw.metadata with
  | .ok () => record
  | .error e => nullRecord (some e.publicReason)

/-! ## Settlements -/

/-- How the live part of a call ended: the quorum was reached first, or the run returned. -/
inductive Live where
  | quorumReached
  | structured (value : Kernel.Json) (tokens toolCalls : Nat)
  | text (text : String) (tokens toolCalls : Nat) (lastToolSummary : Option String)
  | null (reason : Option String)

def Live.record : Live → Record
  | .quorumReached => nullRecord (some "quorum reached")
  | .structured value tokens toolCalls =>
    { outcome := .structured value, tokens := tokens, toolCalls := toolCalls, lastToolSummary := none }
  | .text content tokens toolCalls lastToolSummary =>
    { outcome := .text content, tokens := tokens, toolCalls := toolCalls, lastToolSummary := lastToolSummary }
  | .null reason => nullRecord reason

inductive Finish where
  | success (digest : String)
  | failure (code detail : String)

/-- What is left to do of a call that ran: the record to journal, the end of its task, and its answer. -/
structure Settlement where
  record : Option Record
  finish : Finish
  envelope : Envelope

def Env.finishForRecord (E : Env) (record : Record) : Finish :=
  match record.outcome with
  | .structured _ | .text _ => .success (E.digestBytes (E.recordText record))
  | .null reason => .failure "negative_terminal" (reason.getD "agent returned null")
  | .unknown => .failure "unknown_journal_outcome" "unknown journal outcome"

def refusal (code detail shown : String) : Settlement :=
  { record := none, finish := .failure code detail, envelope := .null shown }

def Env.settle (E : Env) (arg : String) (live : Live) : Settlement :=
  match E.decode arg with
  | none => refusal "malformed_agent_call" "malformed agent call" "malformed agent() call"
  | some raw =>
    if raw.speculativeSiblings.getD 0 > E.maxSiblings then
      refusal "speculative_sibling_ceiling" "speculative sibling request exceeds the host ceiling"
        "speculative sibling request exceeds the host ceiling"
    else if raw.speculativeSiblings.getD 0 > 0 ∧ raw.schema.isSome then
      refusal "speculative_schema_unsupported" "schema-validated calls cannot use speculative siblings"
        "schema-validated calls cannot use speculative siblings"
    else match raw.metadata with
      | .error e =>
        { record := some (nullRecord (some e.publicReason))
          finish := .failure "invalid_request_metadata" e.publicReason
          envelope := .null e.publicReason }
      | .ok () =>
        { record := some live.record, finish := E.finishForRecord live.record, envelope := envelopeFor live.record }

/-! ## The run -/

inductive Answer where
  | replayed
  | skipped
  | settled
  | refused

inductive Phase where
  | called
  | missed
  | resolved (dependencies : List TaskId)
  | creating (id : TaskId) (dependencies : List TaskId) (failed : Option TaskId)
  | created (id : TaskId) (failed : Option TaskId)
  | skipping (id dependency : TaskId)
  | running (id : TaskId)
  | journaling (id : TaskId) (settlement : Settlement)
  | finishing (id : TaskId) (settlement : Settlement)
  | answered (answer : Answer) (envelope : Envelope)

structure Call where
  arg : String
  phase : Phase

/-- The graph and the journal are durable; the rest lives as long as the process. -/
structure World where
  dag : TaskDag
  journal : Cache
  declarationTasks : Std.ExtTreeMap Nat TaskId
  nextTask : Nat
  nextMessage : Nat
  index : Nat
  calls : Std.ExtTreeMap Nat Call
  cancelled : Bool

/-- An append that succeeds: the command is valid, and the graph changes. -/
def accept (H : Digests) (d : TaskDag) (c : Command) : Option TaskDag :=
  match d.validateCommand H c with
  | .ok () => d.applyValidated c
  | .error _ => none

def acceptAll (H : Digests) (d : TaskDag) (commands : List Command) : Option TaskDag := commands.foldlM (accept H) d

namespace World

def setPhase (w : World) (n : Nat) (arg : String) (phase : Phase) : World :=
  { w with calls := w.calls.insert n { arg := arg, phase := phase } }

def refuse (w : World) (n : Nat) (arg : String) : World :=
  { w.setPhase n arg (.answered .refused (.null "task DAG admission failed")) with cancelled := true }

/-- Decode the call and look its content up in the journal. -/
def lookup (E : Env) (w : World) (n : Nat) (arg : String) : World :=
  match E.decode arg with
  | none => w.setPhase n arg .missed
  | some raw =>
    match w.journal[E.key arg raw]? with
    | some record => w.setPhase n arg (.answered .replayed (envelopeFor (visibleRecord raw record)))
    | none => w.setPhase n arg .missed

/-! ### `begin_task` -/

def declaredTask (declarationTasks : Std.ExtTreeMap Nat TaskId) (d : Nat) : Except String TaskId :=
  match declarationTasks[d]? with
  | some id => .ok id
  | none => .error ("task dependency declaration " ++ toString d ++ " is not durable")

def dependencyTasks (declarationTasks : Std.ExtTreeMap Nat TaskId) (index : Nat) (digest : String)
    (dependencies : List Nat) : Except String (List TaskId) := do
  Refuse.refuseIf (validDigest digest = false) "task input digest must be exactly 64 hexadecimal bytes"
  let requested := TaskDag.sortIds dependencies.dedup
  Refuse.refuseIf (requested.length ≠ dependencies.length ∨ ∃ d ∈ requested, d = 0 ∨ d ≥ index)
    "task dependencies must be unique earlier declaration indices"
  requested.mapM (declaredTask declarationTasks)

def taskState (tasks : TaskDag.Tasks) (id : TaskId) : Except String (TaskId × TaskState) :=
  match tasks[id]? with
  | some t => .ok (id, t.state)
  | none => .error "task dependency disappeared from the durable DAG"

/-- The first of the dependencies, all at their end, that did not succeed. -/
def failedDependency (tasks : TaskDag.Tasks) (dependencies : List TaskId) : Except String (Option TaskId) := do
  let states ← dependencies.mapM (taskState tasks)
  Refuse.refuseIf (∃ p ∈ states, p.2.isTerminal = false)
    "task dependency must reach a durable terminal before dependent admission"
  return (states.find? (fun p => !p.2.isSucceeded)).map Prod.fst

def resolve (E : Env) (w : World) (n : Nat) (arg : String) : World :=
  match dependencyTasks w.declarationTasks n (E.digestBytes arg) (E.dependencies arg) with
  | .ok dependencies => w.setPhase n arg (.resolved dependencies)
  | .error _ => w.refuse n arg

/-- Read the states of the dependencies and take an id; an index of more than 32 bits takes one and fails. -/
def inspect (w : World) (n : Nat) (arg : String) (dependencies : List TaskId) : World :=
  match failedDependency w.dag.tasks dependencies with
  | .error _ => w.refuse n arg
  | .ok failed =>
    let taken := { w with nextTask := Machine.wrappingAdd w.nextTask 1 }
    if n < 4294967296 then taken.setPhase n arg (.creating w.nextTask dependencies failed) else taken.refuse n arg

def createCommand (E : Env) (n : Nat) (id : TaskId) (dependencies : List TaskId) : Command :=
  .createTask .controller
    { id := id, declarationIndex := some (.ofNat n), parent := none, dependencies := dependencies,
      label := "workflow-agent-" ++ toString n, budget := E.taskBudget }

/-- The task, its instruction and its start, as one batch. -/
def admissionBatch (E : Env) (w : World) (n : Nat) (arg : String) (id : TaskId) (dependencies : List TaskId) :
    List Command :=
  [createCommand E n id dependencies, .sendMessage .controller
      { id := w.nextMessage, sender := none, recipient := id, kind := .instruction,
        payload := "input_sha256:" ++ E.digestBytes arg, delivery := .pending },
    .acknowledgeMessage .controller w.nextMessage,
    .startTask .controller id]

/-- A task with a failed dependency is created only; the reducer leaves it skipped. -/
def create (E : Env) (w : World) (n : Nat) (arg : String) (id : TaskId) (dependencies : List TaskId)
    (failed : Option TaskId) : Option World :=
  match failed with
  | some _ => (accept E.digests w.dag (createCommand E n id dependencies)).map
      (fun d => { w with dag := d }.setPhase n arg (.created id failed))
  | none => (acceptAll E.digests w.dag (w.admissionBatch E n arg id dependencies)).map
      (fun d => { w with dag := d, nextMessage := Machine.wrappingAdd w.nextMessage 1 }.setPhase n arg (.created id failed))

def declare (w : World) (n : Nat) (arg : String) (id : TaskId) (failed : Option TaskId) : World :=
  { w with declarationTasks := w.declarationTasks.insert n id }.setPhase n arg
    (match failed with
      | some dependency => .skipping id dependency
      | none => .running id)

/-! ### The rest of `run_agent` -/

def skipReason (id dependency : TaskId) : String :=
  "dependency task " ++ toString dependency ++ " did not succeed; dependent task TaskId(" ++ toString id ++
    ") was skipped"

/-- `Journal::record`, for a call that was decoded. -/
def journalRecord (E : Env) (w : World) (arg : String) (record : Record) : World :=
  match E.decode arg with
  | some raw => { w with journal := w.journal.insert (E.key arg raw) record }
  | none => w

def recordSkip (E : Env) (w : World) (n : Nat) (arg : String) (id dependency : TaskId) : World :=
  (w.journalRecord E arg (nullRecord (some (skipReason id dependency)))).setPhase n arg
    (.answered .skipped (.null (skipReason id dependency)))

def recordOutcome (E : Env) (w : World) (n : Nat) (arg : String) (id : TaskId) (settlement : Settlement) : World :=
  match settlement.record with
  | some record => (w.journalRecord E arg record).setPhase n arg (.finishing id settlement)
  | none => w.setPhase n arg (.finishing id settlement)

def boundedReason (value : String) : String :=
  .ofList ((value.toList.filter (fun c => !Text.isControl c)).take 1024)

def finishCommand (id : TaskId) : Finish → Command
  | .success digest => .completeTask .controller id .succeeded (some digest) none none
  | .failure code detail => .completeTask .controller id .failed none (some code) (some (boundedReason detail))

def finish (E : Env) (w : World) (n : Nat) (arg : String) (id : TaskId) (settlement : Settlement) : Option World :=
  (accept E.digests w.dag (finishCommand id settlement.finish)).map
    (fun d => { w with dag := d }.setPhase n arg (.answered .settled settlement.envelope))

/-- One step of one call; `live` is how its run ends, if it ends in this step. -/
def advance (E : Env) (w : World) (n : Nat) (live : Live) : Option World :=
  match w.calls[n]? with
  | none => none
  | some call =>
    match call.phase with
    | .called => some (w.lookup E n call.arg)
    | .missed => some (w.resolve E n call.arg)
    | .resolved dependencies => some (w.inspect n call.arg dependencies)
    | .creating id dependencies failed => w.create E n call.arg id dependencies failed
    | .created id failed => some (w.declare n call.arg id failed)
    | .skipping id dependency => some (w.recordSkip E n call.arg id dependency)
    | .running id => some (w.setPhase n call.arg (.journaling id (E.settle call.arg live)))
    | .journaling id settlement => some (w.recordOutcome E n call.arg id settlement)
    | .finishing id settlement => w.finish E n call.arg id settlement
    | .answered .. => none

/-! ### Opening and resuming -/

def recover (H : Digests) (d : TaskDag) : Option TaskDag := do
  let d' ← acceptAll H d ((Table.vals d.attempts).flatMap ExecutionLedger.attemptRecovery)
  acceptAll H d' ((Table.vals d'.tasks).flatMap ExecutionLedger.taskRecovery)

def newestTasks (tasks : List Task) : Std.ExtTreeMap Nat TaskId :=
  tasks.foldl (fun table t =>
    match t.spec.declarationIndex with
    | none => table
    | some i =>
      match table[i.toNat]? with
      | some current => if t.spec.id > current then table.insert i.toNat t.spec.id else table
      | none => table.insert i.toNat t.spec.id) ∅

def nextId (ids : List Nat) : Nat := Machine.saturatingAdd (ids.max?.getD 0) 1

/-- `ExecutionLedger::open` and a script at its start. -/
def openRun (E : Env) (d : TaskDag) (journal : Cache) : Option World :=
  (recover E.digests d).map (fun d' =>
    { dag := d', journal := journal
      declarationTasks := newestTasks (Table.vals d.tasks)
      nextTask := nextId ((Table.vals d.tasks).map (fun t => t.spec.id))
      nextMessage := nextId ((Table.vals d.messages).map TaskMessage.id)
      index := 0, calls := ∅, cancelled := false })

/-- The script makes a call; its index is the next in the order of the calls. -/
def call (w : World) (arg : String) : World :=
  { w with index := w.index + 1 }.setPhase (w.index + 1) arg .called

end World

inductive Event where
  | call (arg : String)
  | advance (n : Nat) (live : Live)
  /-- The attempts of a live run write to the graph. -/
  | attempt (command : Command)
  | resume

def ofAttempt : Command → Bool
  | .registerAttempt .. | .startAttempt .. | .completeAttempt .. | .chargeBudget .. | .sendMessage ..
  | .acknowledgeMessage .. => true
  | _ => false

def step (E : Env) (w : World) : Event → Option World
  | .call arg => some (w.call arg)
  | .advance n live => w.advance E n live
  | .attempt c => if ofAttempt c then (accept E.digests w.dag c).map (fun d => { w with dag := d }) else none
  | .resume => World.openRun E w.dag w.journal

/-- What runs reach: a fresh graph, any journal to resume from, and any calls, steps and crashes in any order. -/
inductive Reaches (E : Env) (config : Config) : World → Prop
  | start (d : TaskDag) (journal : Cache) (w : World) : TaskDag.new E.digests config = .ok d →
      World.openRun E d journal = some w → Reaches E config w
  | step (w w' : World) (event : Event) : Reaches E config w → step E w event = some w' → Reaches E config w'

/-- What the same process reaches from a world. -/
inductive Continues (E : Env) (w0 : World) : World → Prop
  | refl : Continues E w0 w0
  | step (w w' : World) (event : Event) : Continues E w0 w → event ≠ .resume → step E w event = some w' →
      Continues E w0 w'

end Iteron.WorkflowAgent
