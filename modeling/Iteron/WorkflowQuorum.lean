import Iteron.WorkflowAgent
/-!
# WorkflowQuorum — agent calls that share a quorum and a cancelled run

The calls of `run_agent` in the order their steps happen: the journal lookup, the task's admission, the refusals, the wait
for a permit, the live run, and the journal and graph writes that settle a call.  A call that waits for a permit is cut off
when its token is cancelled, which is the token of its quorum group or of the run, and a group's token is a child of the
run's.  What the graph and the journal answer, and what the children return, are inputs.
-/
namespace Iteron.WorkflowQuorum

open WorkflowJournal (Record Outcome Cache)
open WorkflowAgent (RawCall Env Envelope envelopeFor nullRecord visibleRecord)

/-! ## The policy and its groups -/

def maxEarlyStopQuorum : Nat := 4096

structure EarlyStopQuorumPolicy where
  minimumEvidence : Nat
  requiredRoles : Nat
  strongVeto : Bool
  evidence_pos : 1 ≤ minimumEvidence
  evidence_le : minimumEvidence ≤ maxEarlyStopQuorum
  roles_le : requiredRoles ≤ 256
  roles_le_evidence : requiredRoles ≤ minimumEvidence

def EarlyStopQuorumPolicy.new (minimumEvidence requiredRoles : Nat) (strongVeto : Bool) :
    Except String EarlyStopQuorumPolicy :=
  if hevidence : ¬ (1 ≤ minimumEvidence ∧ minimumEvidence ≤ maxEarlyStopQuorum) then
    .error "minimum evidence must be in 1..=4096"
  else if hroles : requiredRoles > 256 then .error "required roles must be in 0..=256"
  else if horder : requiredRoles > minimumEvidence then .error "required roles cannot exceed minimum evidence"
  else
    .ok ⟨minimumEvidence, requiredRoles, strongVeto, (not_not.1 hevidence).1, (not_not.1 hevidence).2,
      Nat.le_of_not_gt hroles, Nat.le_of_not_gt horder⟩

structure Group where
  evidence : Nat := 0
  roles : Finset String := ∅
  vetoed : Bool := false
  quorumReached : Bool := false

/-- The group after one more member, and whether its token is cancelled now. -/
def Group.observe (policy : EarlyStopQuorumPolicy) (group : Group) (role : String) (evidence : Bool) : Group × Bool :=
  if group.quorumReached then (group, false)
  else
    let group :=
      if evidence then { group with evidence := group.evidence + 1, roles := insert role group.roles }
      else if policy.strongVeto then { group with vetoed := true }
      else group
    if !group.vetoed && policy.minimumEvidence ≤ group.evidence && policy.requiredRoles ≤ group.roles.card then
      ({ group with quorumReached := true }, true)
    else (group, false)

/-! ## The live part of a call -/

inductive AgentOutcome where
  | text (text : String) (tokens toolCalls : Nat) (lastToolSummary : Option String)
  | null (reason : Option String)

/-- What `spawn_candidate` came to, and whether a child attempt was started for a refusal. -/
inductive Spawned where
  | selected (outcome : AgentOutcome)
  | refused (reason : String) (started : Bool)

def Spawned.started : Spawned → Bool
  | .selected _ => true
  | .refused _ started => started

structure LivePolicy where
  taskAttempts : Nat
  stopOnFailure : Bool
  schemaAttempts : Nat
  compiles : Kernel.Json → Option String
  validates : Kernel.Json → String → Option Kernel.Json

def textRecord (text : String) (tokens toolCalls : Nat) (lastToolSummary : Option String) : Record :=
  { outcome := .text text, tokens := tokens, toolCalls := toolCalls, lastToolSummary := lastToolSummary }

/-- The attempts of a call without a schema; `left` is how many more there may be. -/
def runPlainFrom (P : LivePolicy) (spawn : Nat → Spawned) : (left attempt : Nat) → Record
  | 0, _ => nullRecord (some "task retry policy exhausted without a terminal")
  | left + 1, attempt =>
    match spawn attempt with
    | .selected (.text text tokens toolCalls lastToolSummary) => textRecord text tokens toolCalls lastToolSummary
    | .selected (.null reason) =>
      if left = 0 ∨ P.stopOnFailure then nullRecord reason else runPlainFrom P spawn left (attempt + 1)
    | .refused reason _ => nullRecord (some reason)

def runPlain (P : LivePolicy) (spawn : Nat → Spawned) : Record := runPlainFrom P spawn (max P.taskAttempts 1) 0

def runSchemaFrom (P : LivePolicy) (schema : Kernel.Json) (spawn : Nat → Spawned) : (left attempt : Nat) → Record
  | 0, _ => nullRecord (some ("schema validation failed after " ++ toString P.schemaAttempts ++ " attempts"))
  | left + 1, attempt =>
    match spawn attempt with
    | .selected (.text text tokens toolCalls _) =>
      match P.validates schema text with
      | some value =>
        { outcome := .structured value, tokens := tokens, toolCalls := toolCalls, lastToolSummary := none }
      | none => runSchemaFrom P schema spawn left (attempt + 1)
    | .selected (.null reason) => nullRecord reason
    | .refused reason _ => nullRecord (some reason)

def runWithSchema (P : LivePolicy) (schema : Kernel.Json) (spawn : Nat → Spawned) : Record :=
  match P.compiles schema with
  | some error => nullRecord (some ("invalid schema: " ++ error))
  | none => runSchemaFrom P schema spawn P.schemaAttempts 0

def runLive (P : LivePolicy) (raw : RawCall) (spawn : Nat → Spawned) : Record :=
  match raw.schema with
  | some schema => runWithSchema P schema spawn
  | none => runPlain P spawn

/-- A child attempt was started: a later attempt follows a settled one only. -/
def liveStarted (P : LivePolicy) (raw : RawCall) (spawn : Nat → Spawned) : Bool :=
  match raw.schema with
  | some schema => (P.compiles schema).isNone && 0 < P.schemaAttempts && (spawn 0).started
  | none => (spawn 0).started

def isEvidence (record : Record) : Bool :=
  match record.outcome with
  | .text _ | .structured _ => true
  | _ => false

/-! ## Calls -/

/-- What is left to do of a call: the record to journal, whether its task is ended, its answer, and what its group is told
when both were written; a metadata refusal is told in any case. -/
structure Settlement where
  key : String
  record : Option Record
  finishes : Bool
  envelope : Envelope
  report : Option Bool
  reportsFailure : Bool := false

inductive Phase where
  | called
  | malformed
  | missed (raw : RawCall) (key : String)
  | admitted (raw : RawCall) (key : String)
  | queued (raw : RawCall) (key : String) (token : Option Nat)
  | permitted (raw : RawCall) (key : String)
  | journaling (raw : Option RawCall) (settlement : Settlement)
  | finishing (raw : Option RawCall) (settlement : Settlement)
  | answered (raw : Option RawCall) (envelope : Envelope)

structure Call where
  arg : String
  phase : Phase
  /-- A child attempt was started for it. -/
  started : Bool := false
  /-- It was refused before an attempt: for its metadata, for a dependency, or by the live run. -/
  refused : Bool := false
  /-- It wrote this key to the journal. -/
  wrote : Option String := none

/-- What the run did, newest first: groups begun, members settled with their answer, and tokens cancelled by a quorum. -/
inductive Event where
  | began (group : Nat)
  | settled (group : Option Nat) (role : String) (null : Bool)
  | reached (group : Nat)

structure World where
  journal : Cache := ∅
  groups : Std.ExtTreeMap Nat Group compare := ∅
  nextGroup : Nat := 1
  cancelledGroups : List Nat := []
  cancelled : Bool := false
  index : Nat := 0
  calls : Std.ExtTreeMap Nat Call compare := ∅
  log : List Event := []

/-- What `begin_task` answers. -/
inductive TaskAdmission where
  | ready
  | skippedDependency (reason : String)
  | failed

inductive Move where
  | call (arg : String)
  | lookup (n : Nat)
  | beginTask (n : Nat) (admission : TaskAdmission)
  | check (n : Nat)
  | cutOff (n : Nat)
  | acquire (n : Nat)
  | live (n : Nat) (spawn : Nat → Spawned)
  | journal (n : Nat) (accepted : Bool)
  | finish (n : Nat) (accepted : Bool)
  | cancelRun
  | beginQuorum (members : Nat)
  | endQuorum (group : Nat)

def role (raw : RawCall) : String := raw.agentType.getD "generic"

def groupOf (raw : RawCall) : Option Nat := raw.quorumGroup.filter (· ≠ 0)

def Move.target : Move → Option Nat
  | .lookup n | .beginTask n _ | .check n | .cutOff n | .acquire n | .live n _ | .journal n _ | .finish n _ => some n
  | _ => none

namespace World

def setPhase (w : World) (n : Nat) (call : Call) (phase : Phase) : World :=
  { w with calls := w.calls.insert n { call with phase := phase } }

def observe (policy : EarlyStopQuorumPolicy) (w : World) (group : Option Nat) (role : String) (evidence : Bool) : World :=
  match group with
  | none => w
  | some id =>
    match w.groups[id]? with
    | none => w
    | some g =>
      let observed := g.observe policy role evidence
      let w := { w with groups := w.groups.insert id observed.1 }
      if observed.2 then { w with cancelledGroups := id :: w.cancelledGroups, log := .reached id :: w.log } else w

/-- Answer a call; its group is told first when there is something to tell. -/
def settle (policy : EarlyStopQuorumPolicy) (w : World) (n : Nat) (call : Call) (raw : Option RawCall)
    (envelope : Envelope) (report : Option Bool) : World :=
  let w := w.setPhase n call (.answered raw envelope)
  match raw with
  | none => w
  | some raw =>
    let w := { w with log := .settled (groupOf raw) (role raw) envelope.isNull :: w.log }
    match report with
    | none => w
    | some evidence => w.observe policy (groupOf raw) (role raw) evidence

/-- A write failed: the run is cancelled and the call is answered with null. -/
def fail (policy : EarlyStopQuorumPolicy) (w : World) (n : Nat) (call : Call) (raw : Option RawCall)
    (settlement : Settlement) (reason : String) : World :=
  let w := { w with cancelled := true }
  w.settle policy n call raw (.null reason) (if settlement.reportsFailure then settlement.report else none)

def lookup (E : Env) (policy : EarlyStopQuorumPolicy) (w : World) (n : Nat) (call : Call) : World :=
  match E.decode call.arg with
  | none => w.setPhase n call .malformed
  | some raw =>
    match w.journal[E.key call.arg raw]? with
    | none => w.setPhase n call (.missed raw (E.key call.arg raw))
    | some record =>
      let visible := visibleRecord raw record
      w.settle policy n call (some raw) (envelopeFor visible) (some (isEvidence visible))

def refusal (key shown : String) : Settlement :=
  { key := key, record := none, finishes := true, envelope := .null shown, report := none }

/-- The refusals after the task was admitted, then the wait for a permit. -/
def check (E : Env) (w : World) (n : Nat) (call : Call) (raw : RawCall) (key : String) : World :=
  if raw.speculativeSiblings.getD 0 > E.maxSiblings then
    w.setPhase n call (.finishing (some raw)
      (refusal key "speculative sibling request exceeds the host ceiling"))
  else if raw.speculativeSiblings.getD 0 > 0 ∧ raw.schema.isSome then
    w.setPhase n call (.finishing (some raw)
      (refusal key "schema-validated calls cannot use speculative siblings"))
  else
    match raw.metadata with
    | .error e =>
      w.setPhase n { call with refused := true } (.journaling (some raw)
        { key := key, record := some (nullRecord (some e.publicReason)), finishes := true,
          envelope := .null e.publicReason, report := some false, reportsFailure := true })
    | .ok () => w.setPhase n call (.queued raw key ((groupOf raw).filter (fun id => w.groups.contains id)))

def tokenCancelled (w : World) (token : Option Nat) : Bool :=
  w.cancelled || token.any (fun id => w.cancelledGroups.contains id)

def recordOutcome (w : World) (n : Nat) (call : Call) (raw : Option RawCall) (settlement : Settlement) : World :=
  match settlement.record with
  | none => w.setPhase n call (.finishing raw settlement)
  | some record =>
    { w with journal := w.journal.insert settlement.key record }.setPhase n
      { call with wrote := some settlement.key } (.finishing raw settlement)

def advance (E : Env) (P : LivePolicy) (policy : EarlyStopQuorumPolicy) (w : World) (n : Nat) (call : Call)
    (move : Move) : Option World :=
  match move, call.phase with
  | .lookup _, .called => some (w.lookup E policy n call)
  | .beginTask _ .ready, .malformed =>
    some (w.setPhase n call (.finishing none (refusal "" "malformed agent() call")))
  | .beginTask _ .failed, .malformed =>
    some ({ w with cancelled := true }.settle policy n call none (.null "task DAG admission failed") none)
  | .beginTask _ .ready, .missed raw key => some (w.setPhase n call (.admitted raw key))
  | .beginTask _ (.skippedDependency reason), .missed raw key =>
    some (w.setPhase n { call with refused := true } (.journaling (some raw)
      { key := key, record := some (nullRecord (some reason)), finishes := false, envelope := .null reason,
        report := none }))
  | .beginTask _ .failed, .missed raw _ =>
    some ({ w with cancelled := true }.settle policy n call (some raw) (.null "task DAG admission failed") none)
  | .check _, .admitted raw key => some (w.check E n call raw key)
  | .cutOff _, .queued raw key token =>
    -- the select is biased: a cancelled token is seen first, whichever token it is
    if w.tokenCancelled token then
      some (w.setPhase n call (.journaling (some raw)
        { key := key, record := some (nullRecord (some "quorum reached")), finishes := true,
          envelope := .null "quorum reached", report := none }))
    else none
  | .acquire _, .queued raw key token =>
    if w.tokenCancelled token then none else some (w.setPhase n call (.permitted raw key))
  | .live _ spawn, .permitted raw key =>
    let record := runLive P raw spawn
    let started := liveStarted P raw spawn
    some (w.setPhase n { call with started := started, refused := !started } (.journaling (some raw)
      { key := key, record := some record, finishes := true, envelope := envelopeFor record,
        report := some (isEvidence record) }))
  | .journal _ accepted, .journaling raw settlement =>
    if accepted then
      if settlement.finishes then some (w.recordOutcome n call raw settlement)
      else
        match settlement.record with
        | none => none
        | some record =>
          some ({ w with journal := w.journal.insert settlement.key record }.settle policy n
            { call with wrote := some settlement.key } raw settlement.envelope settlement.report)
    else some (w.fail policy n call raw settlement "journal durability failed")
  | .finish _ accepted, .finishing raw settlement =>
    if accepted then some (w.settle policy n call raw settlement.envelope settlement.report)
    else some (w.fail policy n call raw settlement "task DAG durability failed")
  | _, _ => none

def step (E : Env) (P : LivePolicy) (policy : EarlyStopQuorumPolicy) (w : World) : Move → Option World
  | .call arg => some { w with index := w.index + 1, calls := w.calls.insert (w.index + 1) { arg := arg, phase := .called } }
  | .cancelRun => some { w with cancelled := true }
  | .beginQuorum members =>
    if members = 0 then some w
    else
      some { w with
        groups := w.groups.insert w.nextGroup {}
        nextGroup := w.nextGroup + 1
        log := .began w.nextGroup :: w.log }
  | .endQuorum group => some { w with groups := w.groups.erase group }
  | move =>
    match move.target with
    | none => none
    | some n =>
      match w.calls[n]? with
      | none => none
      | some call => w.advance E P policy n call move

def resume (journal : Cache) : World := { journal := journal }

end World

/-- The states of a run whose steps all met a condition. -/
inductive Reached (E : Env) (P : LivePolicy) (policy : EarlyStopQuorumPolicy) (journal : Cache)
    (meets : World → Move → Prop) : World → Prop
  | start : Reached E P policy journal meets (World.resume journal)
  | step (w w' : World) (move : Move) (hw : Reached E P policy journal meets w) (hmeets : meets w move)
    (hstep : w.step E P policy move = some w') : Reached E P policy journal meets w'

end Iteron.WorkflowQuorum
