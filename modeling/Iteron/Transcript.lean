import Iteron.Event
import Iteron.Machine
/-!
# Transcript — from recorded events to provider messages

The live transcript merges what the operator says into the last user message; the record keeps each message as its own
event, and a compaction as one seed message that carries how many messages it replaced.  `projectVerifiedMessages` reads
the record back.  The check of an observed image and the token estimate of a message are parameters; event kinds the
projection skips are `other`.
-/
namespace Iteron.Transcript

inductive Role where
  | user
  | assistant
  deriving DecidableEq

inductive Trust where
  | untrusted
  | workspace
  | trusted

structure ToolUse where
  id : String
  name : String
  input : Kernel.Json

structure ToolResult where
  toolUseId : String
  content : String
  isError : Bool
  trust : Trust
  latencyMs : Nat

/-- An observed tool image: its call, the terminal it followed and its validated body. -/
structure ToolImage where
  toolUseId : String
  terminalSeq : Nat
  body : String

inductive Block where
  | text (text : String)
  | thinking (thinking : String)
  | providerState (state : String)
  | toolUse (tool : ToolUse)
  | toolResult (result : ToolResult)
  | toolImage (observation : ToolImage)

structure Message where
  role : Role
  content : List Block

def Block.isText : Block → Bool
  | .text _ => true
  | _ => false

def Block.toolUse? : Block → Option ToolUse
  | .toolUse tool => some tool
  | _ => none

def Block.toolResult? : Block → Option ToolResult
  | .toolResult result => some result
  | _ => none

namespace Message

def userText (text : String) : Message := { role := .user, content := [.text text] }

def calls (m : Message) : List ToolUse := m.content.filterMap Block.toolUse?

def results (m : Message) : List ToolResult := m.content.filterMap Block.toolResult?

def isCall (m : Message) : Bool := m.role == .assistant && !m.calls.isEmpty

def isResult (m : Message) : Bool := m.role == .user && !m.results.isEmpty

end Message

inductive EventKind where
  | message (message : Message)
  | compaction (messages : List Message)
  | toolDone (result : ToolResult)
  | toolImageObserved (observation : ToolImage)
  | other

structure Event where
  seq : Nat
  turn : Nat
  kind : EventKind

def laterMessageBoundary : String :=
  "\n\n[Later conversation message; existing source and trust labels still apply]\n"

/-! ## Merging and repair -/

/-- The block set between the contents of two adjacent user messages. -/
def boundaryBlock (content : List Block) : Block :=
  .text (if content.all Block.isText then laterMessageBoundary else "\n\n")

/-- The content of a user message with another one behind it. -/
def joinContent (last message : List Block) : List Block :=
  if last ≠ [] ∧ message ≠ [] then last ++ [boundaryBlock message] ++ message else last ++ message

def mergeAdjacentUserMessage (messages : List Message) (message : Message) : List Message :=
  match messages.getLast? with
  | some last =>
    if message.role = .user ∧ last.role = .user then
      messages.dropLast ++ [{ last with content := joinContent last.content message.content }]
    else messages ++ [message]
  | none => messages ++ [message]

/-- The first half of the repair: every message merged into what stands before it. -/
def mergeAll (messages : List Message) : List Message := messages.foldl mergeAdjacentUserMessage []

/-- Whether the repair takes a last message away, after what stands before it, latest first. -/
def dangling (last : Message) (before : List Message) : Bool :=
  last.isCall || (last.isResult && !before.head?.any Message.isCall)

def trimRev : List Message → List Message
  | [] => []
  | last :: before => if dangling last before then trimRev before else last :: before

/-- The second half: unanswered calls and results without a call are taken off the end. -/
def trim (messages : List Message) : List Message := (trimRev messages.reverse).reverse

def reconcileTranscript (messages : List Message) : List Message := trim (mergeAll messages)

/-! ## Compaction -/

def compactionMarkerOpen : String := "[Compacted history — "

def compactionMarkerClose : String := " earlier turns summarized]"

def compactionSummaryMessage (summarized : Nat) (summary : String) : Message :=
  .userText (compactionMarkerOpen ++ toString summarized ++ compactionMarkerClose ++ "\n" ++ summary)

/-- `str::split_once`, its first half. -/
def splitOnce (pat : List Char) : List Char → Option (List Char)
  | [] => if pat = [] then some [] else none
  | c :: cs => if pat.isPrefixOf (c :: cs) then some [] else (splitOnce pat cs).map (c :: ·)

/-- `str::parse` of a count; a count is a vector's length, so one past its width does not arise. -/
def parseCount (digits : List Char) : Option Nat :=
  let digits := if digits.head? = some '+' then digits.tail else digits
  if digits ≠ [] ∧ digits.all Char.isDigit then some (Nat.ofDigitChars 10 digits 0) else none

def compactionSummaryRange (message : Message) : Option Nat :=
  match message.content.head? with
  | some (.text text) =>
    if compactionMarkerOpen.toList.isPrefixOf text.toList then
      (splitOnce compactionMarkerClose.toList (text.toList.drop compactionMarkerOpen.toList.length)).bind parseCount
    else none
  | _ => none

structure CompactionPlan where
  taskAnchor : Message
  toSummarize : List Message
  keepVerbatim : List Message

/-- The policy of one session: the message floor, the retention budget and the estimate of a message. -/
structure CompactionPolicy where
  keepRecent : Nat
  retentionTokens : Nat
  contentTokens : Message → Nat

def retain (policy : CompactionPolicy) (messages : List Message) : Nat → Nat → Nat
  | 0, _ => 0
  | 1, _ => 1
  | cursor + 2, retained =>
    let next := (messages[cursor + 1]?.map policy.contentTokens).getD 0
    let total := Machine.saturatingAdd retained next
    if cursor + 2 < messages.length ∧ total > policy.retentionTokens then cursor + 2
    else retain policy messages (cursor + 1) total

def walkBack (messages : List Message) : Nat → Nat
  | 0 => 0
  | 1 => 1
  | keepFrom + 2 =>
    if messages[keepFrom + 2]?.any Message.isResult then walkBack messages (keepFrom + 1) else keepFrom + 2

def keepFrom (policy : CompactionPolicy) (messages : List Message) : Nat :=
  walkBack messages (if policy.keepRecent > 0 then messages.length - policy.keepRecent
    else retain policy messages messages.length 0)

/-- `force_plan`; a floor that keeps every message and the first one too ends the process, and plans nothing here. -/
def forcePlan (policy : CompactionPolicy) (messages : List Message) : Option CompactionPlan :=
  match messages with
  | [] => none
  | taskAnchor :: rest =>
    let k := keepFrom policy messages
    if k ≤ 1 then none
    else some { taskAnchor := taskAnchor, toSummarize := rest.take (k - 1), keepVerbatim := messages.drop k }

def rebuild (plan : CompactionPlan) (summary : String) : List Message :=
  plan.taskAnchor :: compactionSummaryMessage plan.toSummarize.length summary :: plan.keepVerbatim

def compactionSeed (plan : CompactionPlan) (summary : String) : List Message :=
  [compactionSummaryMessage plan.toSummarize.length summary]

def replayCompaction (prior recorded : List Message) : List Message :=
  match recorded with
  | [seed] =>
    match compactionSummaryRange seed, prior with
    | some summarized, first :: rest =>
      if rest.length < summarized then recorded else first :: seed :: rest.drop summarized
    | _, _ => recorded
  | _ => recorded

/-! ## Projection -/

def maxToolImagesPerMessage : Nat := 4

/-- What the projection carries from event to event. -/
structure Projection where
  messages : List Message
  pendingTurn : Option Nat
  terminalResults : List (String × Nat × ToolResult)  -- by call, newest first
  toolImages : List (String × ToolImage)  -- in order
  duplicateTerminalId : Bool

def Projection.init : Projection :=
  { messages := [], pendingTurn := none, terminalResults := [], toolImages := [], duplicateTerminalId := false }

/-- A message list with nothing pending but its last call. -/
def Projection.fresh (messages : List Message) (turn : Nat) : Projection :=
  { Projection.init with
    messages := messages
    pendingTurn := if messages.getLast?.any Message.isCall then some turn else none }

def terminalOf (p : Projection) (id : String) : Option (Nat × ToolResult) := p.terminalResults.lookup id

def imagesOf (p : Projection) (id : String) : List ToolImage :=
  p.toolImages.filterMap (fun entry => if entry.1 = id then some entry.2 else none)

def observe (valid : ToolImage → Bool) (p : Projection) (event : Event) : Projection :=
  match event.kind with
  | .message message => Projection.fresh (p.messages ++ [message]) event.turn
  | .compaction compacted => Projection.fresh (replayCompaction (reconcileTranscript p.messages) compacted) event.turn
  | .toolDone result =>
    if p.pendingTurn = some event.turn then
      { p with
        terminalResults := (result.toolUseId, event.seq, result) :: p.terminalResults
        duplicateTerminalId := p.duplicateTerminalId || (terminalOf p result.toolUseId).isSome }
    else p
  | .toolImageObserved observation =>
    if p.pendingTurn = some event.turn ∧
        (terminalOf p observation.toolUseId).any (fun t => t.1 == observation.terminalSeq && !t.2.isError) ∧
        valid observation ∧ (imagesOf p observation.toolUseId).length < maxToolImagesPerMessage then
      { p with toolImages := p.toolImages ++ [(observation.toolUseId, observation)] }
    else p
  | .other => p

def missingTerminal (id : String) : ToolResult :=
  { toolUseId := id
    content := "the prior process ended before this tool produced a durable terminal; Iteron did not replay it"
    isError := true
    trust := .workspace
    latencyMs := 0 }

/-- The results of the calls in order, each terminal used once, and the images they bring. -/
def recoverResults (p : Projection) : List ToolUse → List String → List Block → List Block → List Block × List Block
  | [], _, results, images => (results, images)
  | call :: calls, used, results, images =>
    match if call.id ∈ used then none else terminalOf p call.id with
    | some (_, result) =>
      let more := if result.isError then []
        else ((imagesOf p call.id).take (maxToolImagesPerMessage - images.length)).map Block.toolImage
      recoverResults p calls (call.id :: used) (results ++ [.toolResult result]) (images ++ more)
    | none => recoverResults p calls used (results ++ [.toolResult (missingTerminal call.id)]) images

/-- The message a crash did not record, rebuilt from the durable terminals of its calls. -/
def recovered (p : Projection) : List Message :=
  match p.messages.getLast? with
  | some assistant =>
    if p.duplicateTerminalId = false ∧ p.terminalResults ≠ [] ∧ assistant.isCall then
      let (results, images) := recoverResults p assistant.calls [] [] []
      [{ role := .user, content := results ++ images }]
    else []
  | none => []

def projection (valid : ToolImage → Bool) (events : List Event) : Projection :=
  events.foldl (observe valid) Projection.init

def projectVerifiedMessages (valid : ToolImage → Bool) (events : List Event) : List Message :=
  reconcileTranscript ((projection valid events).messages ++ recovered (projection valid events))

end Iteron.Transcript
