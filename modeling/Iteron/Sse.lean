import Iteron.Event
import Iteron.Machine
import Iteron.Refuse
import Iteron.Text
/-!
# Sse — the streaming parser of a provider's answer

Frames come in as an event name and its JSON text; the parser keeps the block under construction, the finished blocks
and their native form, and emits items as it goes.  Reading and encoding JSON text are parameters, and so are the
tunable bounds.  A refused frame ends the stream, so a refusal carries no state.
-/
namespace Iteron.Sse

open Kernel (Json)
open Machine Refuse Text

inductive DecodeCode where
  | invalidResponse
  | jsonSyntax
  | jsonEof
  | invalidType
  | missingField
  | invalidValue
  | conflictingValue
  | protocolSequence
  | limitExceeded
  | invalidUtf8

/-- The fields the parser reports, and those `schema_key` knows. -/
inductive DecodeField where
  | response
  | sseData
  | sseEvent
  | type
  | delta
  | outputIndex
  | contentIndex
  | summaryIndex
  | itemId
  | callId
  | name
  | arguments
  | status
  | messageUsage
  | inputTokens
  | outputTokens
  | cacheReadInputTokens
  | cacheCreationInputTokens
  | contentBlock
  | contentBlockType
  | contentBlockInput
  | index
  | text
  | thinking
  | signature
  | data
  | id
  | partialJson
  | stopReason

def DecodeField.schemaKey (key : String) : DecodeField :=
  match key with
  | "type" => .type
  | "status" => .status
  | "delta" => .delta
  | "output_index" => .outputIndex
  | "content_index" => .contentIndex
  | "summary_index" => .summaryIndex
  | "item_id" => .itemId
  | "call_id" => .callId
  | "name" => .name
  | "arguments" => .arguments
  | "index" => .index
  | "text" => .text
  | "thinking" => .thinking
  | "signature" => .signature
  | "data" => .data
  | "id" => .id
  | "partial_json" => .partialJson
  | "input_tokens" => .inputTokens
  | "output_tokens" => .outputTokens
  | "cache_read_input_tokens" => .cacheReadInputTokens
  | "cache_creation_input_tokens" => .cacheCreationInputTokens
  | _ => .response

structure DecodeDiagnostic where
  code : DecodeCode
  field : DecodeField
  frame : Option Nat

def DecodeDiagnostic.atFrame (d : DecodeDiagnostic) (frame : Nat) : DecodeDiagnostic :=
  { d with frame := some (d.frame.getD frame) }

structure ParserFailure where
  message : String
  diagnostic : DecodeDiagnostic

namespace ParserFailure

def new (code : DecodeCode) (field : DecodeField) (message : String) : ParserFailure := ⟨message, ⟨code, field, none⟩⟩

def atFrame (e : ParserFailure) (frame : Nat) : ParserFailure := { e with diagnostic := e.diagnostic.atFrame frame }

def ofText (message : String) : ParserFailure := new .invalidResponse .response message

end ParserFailure

inductive Category where
  | io
  | syntaxError
  | data
  | eof

def ParserFailure.json (error : Category) (field : DecodeField) (message : String) : ParserFailure :=
  match error with
  | .eof => .new .jsonEof field message
  | .syntaxError => .new .jsonSyntax field message
  | .data => .new .invalidType field message
  | .io => .new .invalidResponse field message

/-- `serde_json::from_str`, and the length of `serde_json::to_vec`. -/
structure Codec where
  parse : String → Except Category Json
  encodedLen : Json → Nat

structure Limits where
  maxSseFrameBytes : Nat := 33554432
  maxAssembledOutputBytes : Nat := 33554432
  maxContentBlocks : Nat := 4096
  maxToolIdOrNameBytes : Nat := 1024
  maxRouteScopeBytes : Nat := 256
  maxSignatureBytes : Nat := 1048576
  absentCacheTokens : Nat := 0
  redactedProviderStreamError : String := "provider stream error (details redacted)"

def anthropicContentBlocksFormat : String := "anthropic.messages.content-blocks.v1"

structure ToolUse where
  id : String
  name : String
  input : Json

structure ProviderState where
  routeScope : String
  format : String
  payload : Json

inductive Block where
  | text (text : String)
  | thinking (thinking : String)
  | providerState (state : ProviderState)
  | toolUse (tool : ToolUse)

inductive StopReason where
  | endTurn
  | toolUse
  | maxTokens
  | stopSequence
  | refusal
  | pauseTurn
  | unknown (code : String)
  deriving DecidableEq

structure Usage where
  input : Nat := 0
  output : Nat := 0
  cacheCreation : Nat := 0
  cacheRead : Nat := 0
  thinking : Nat := 0

inductive StreamItem where
  | compatibilityNotice (notice : String)
  | textDelta (text : String)
  | thinkingDelta (thinking : String)
  | toolUseComplete (tool : ToolUse)
  | turnComplete (blocks : List Block) (stopReason : StopReason) (usage : Usage)

structure SseFrame where
  event : String
  data : String

inductive Building where
  | text (text : String)
  | thinking (thinking signature : String) (signatureStarted : Bool)
  | redactedThinking (data : String)
  | toolUse (id name json : String) (initialInput : Json)

structure StreamParser where
  frameIndex : Nat := 0
  routeScope : String
  blocks : List Block := []
  nativeBlocks : List Json := []
  building : Option Building := none
  buildingIndex : Option Nat := none
  contentBlocksSeen : Nat := 0
  nativeReplayComplete : Bool := true
  pendingToolError : Option ParserFailure := none
  pendingNativeError : Option ParserFailure := none
  usage : Usage := {}
  messageStartSeen : Bool := false
  outputUsageSeen : Bool := false
  stopReasonSet : Bool := false
  stopReason : StopReason := .endTurn
  outputBytes : Nat := 0
  terminal : Bool := false

def orFail {α : Type} (x : Option α) (e : ParserFailure) : Except ParserFailure α :=
  match x with
  | some a => .ok a
  | none => .error e

def asStr : Json → Option String
  | .string s => some s
  | _ => none

def asObject : Json → Option (List (String × Json))
  | .object fields => some fields
  | _ => none

def isObject (v : Json) : Bool := (asObject v).isSome

/-- `Value::pointer` along two keys. -/
def pointer (v : Json) (outer inner : String) : Option Json := (v.get outer).bind (fun w => w.get inner)

def blank (s : String) : Bool := s.toList.all isWhitespace

def requiredIndex (v : Json) : Except ParserFailure Nat := do
  let raw ← orFail (v.get "index") (.new .missingField .index "Anthropic content event lacked a valid index")
  orFail raw.asU64 (.new .invalidType .index "Anthropic content event lacked a valid index")

def requiredEventString (v : Json) (field : String) : Except ParserFailure String := do
  let raw ← orFail (v.get field)
    (.new .missingField (.schemaKey field) "Anthropic content event lacked a required string")
  orFail (asStr raw) (.new .invalidType (.schemaKey field) "Anthropic content event lacked a required string")

def optionalUsageU64 (usage : Json) (field : String) : Except ParserFailure (Option Nat) :=
  match usage.get field with
  | none => .ok none
  | some value => do
    let n ← orFail value.asU64
      (.new .invalidType (.schemaKey field) "Anthropic usage token count was not an unsigned integer")
    return some n

def requiredUsageU64 (usage : Json) (field : String) : Except ParserFailure Nat := do
  let n ← optionalUsageU64 usage field
  orFail n (.new .missingField (.schemaKey field) "Anthropic usage lacked a required token count")

/-- `StopReasonCode::parse`: a bounded code without control characters. -/
def stopReasonCode (raw : String) : Option String :=
  if blank raw = true ∨ raw.utf8ByteSize > 128 ∨ raw.toList.any isControl = true then none else some raw

def stopReasonOf (raw : String) : Except ParserFailure StopReason :=
  match raw with
  | "end_turn" => .ok .endTurn
  | "tool_use" => .ok .toolUse
  | "max_tokens" => .ok .maxTokens
  | "stop_sequence" => .ok .stopSequence
  | "refusal" => .ok .refusal
  | "pause_turn" => .ok .pauseTurn
  | future => do
    let code ← orFail (stopReasonCode future) (.ofText "Anthropic stop reason code was invalid")
    return .unknown code

def nativeText (text : String) : Json := .object [("text", .string text), ("type", .string "text")]

def nativeThinking (thinking signature : String) : Json :=
  .object [("signature", .string signature), ("thinking", .string thinking), ("type", .string "thinking")]

def nativeRedacted (data : String) : Json := .object [("data", .string data), ("type", .string "redacted_thinking")]

def nativeToolUse (tool : ToolUse) : Json :=
  .object [("id", .string tool.id), ("input", tool.input), ("name", .string tool.name), ("type", .string "tool_use")]

namespace StreamParser

def withRouteScope (limits : Limits) (routeScope : String) : Except String StreamParser := do
  refuseIf (routeScope.isEmpty = true ∨ routeScope.utf8ByteSize > limits.maxRouteScopeBytes ∨
      routeScope.toList.any isControl = true) "Anthropic parser route scope was empty or invalid"
  return { routeScope }

variable (codec : Codec) (limits : Limits) (p : StreamParser)

def reserveOutput (additional : Nat) : Except ParserFailure StreamParser := do
  let outputBytes ← orFail (checkedAdd p.outputBytes additional)
    (.ofText "Anthropic assembled output byte counter overflow")
  refuseIf (outputBytes > limits.maxAssembledOutputBytes)
    (.ofText s!"Anthropic assembled output exceeded {limits.maxAssembledOutputBytes} bytes")
  return { p with outputBytes }

def reserveBlock : Except ParserFailure Unit :=
  refuseIf (p.contentBlocksSeen ≥ limits.maxContentBlocks)
    (.ofText s!"Anthropic output exceeded {limits.maxContentBlocks} content blocks")

def messageStart (v : Json) : Except ParserFailure StreamParser := do
  refuseIf (p.messageStartSeen = true ∨ p.contentBlocksSeen ≠ 0 ∨ p.stopReasonSet = true)
    (.new .protocolSequence .messageUsage "Anthropic stream contained duplicate message_start usage")
  let usage ← orFail ((pointer v "message" "usage").bind (fun u => if isObject u then some u else none))
    (.new .invalidType .messageUsage "message_start lacked a usage object")
  let input ← requiredUsageU64 usage "input_tokens"
  let cacheCreation ← optionalUsageU64 usage "cache_creation_input_tokens"
  let cacheRead ← optionalUsageU64 usage "cache_read_input_tokens"
  return { p with
    usage := { p.usage with input, cacheCreation := cacheCreation.getD limits.absentCacheTokens
                            cacheRead := cacheRead.getD limits.absentCacheTokens }
    messageStartSeen := true }

/-- The block a `content_block_start` opens, and the parser with its bytes counted. -/
def openBlock (cb : Json) (kind : String) : Except ParserFailure (StreamParser × Building) :=
  match kind with
  | "text" => do
    let text ← requiredEventString cb "text"
    let p ← p.reserveOutput limits text.utf8ByteSize
    return (p, .text text)
  | "thinking" => do
    let thinking ← requiredEventString cb "thinking"
    let p ← p.reserveOutput limits thinking.utf8ByteSize
    return (p, .thinking thinking "" false)
  | "redacted_thinking" => do
    let data ← requiredEventString cb "data"
    refuseIf (data.isEmpty = true) (.new .invalidValue .data "redacted_thinking started with empty data")
    let p ← p.reserveOutput limits data.utf8ByteSize
    return (p, .redactedThinking data)
  | "tool_use" => do
    let id ← requiredEventString cb "id"
    let name ← requiredEventString cb "name"
    refuseIf (id.isEmpty = true ∨ name.isEmpty = true ∨ id.utf8ByteSize > limits.maxToolIdOrNameBytes ∨
        name.utf8ByteSize > limits.maxToolIdOrNameBytes)
      (.new .invalidValue .contentBlock "tool call id or name was empty or exceeded its bound")
    let initialInput ← orFail (cb.get "input") (.new .missingField .contentBlockInput "tool_use lacked input")
    refuseIf (isObject initialInput = false)
      (.new .invalidType .contentBlockInput "tool_use input was not an object")
    let p ← p.reserveOutput limits
      (saturatingAdd (saturatingAdd id.utf8ByteSize name.utf8ByteSize) (codec.encodedLen initialInput))
    return (p, .toolUse id name "" initialInput)
  | _ => .error (.new .invalidValue .contentBlockType "unsupported Anthropic content block type")

def contentBlockStart (v : Json) : Except ParserFailure StreamParser := do
  refuseIf (p.messageStartSeen = false ∨ p.stopReasonSet = true)
    (.new .protocolSequence .contentBlock "content block started outside the message content phase")
  refuseIf (p.building.isSome = true)
    (.new .protocolSequence .contentBlock "content block started before the prior block stopped")
  let cb ← orFail (v.get "content_block") (.new .missingField .contentBlock "no content_block")
  p.reserveBlock limits
  let index ← requiredIndex v
  refuseIf (index ≠ p.contentBlocksSeen)
    (.new .protocolSequence .index "Anthropic content block index was not contiguous")
  let kind ← orFail ((cb.get "type").bind asStr)
    (.new .missingField .contentBlockType "content block lacked a type")
  let (p, building) ← p.openBlock codec limits cb kind
  return { p with building := some building, buildingIndex := some index, contentBlocksSeen := p.contentBlocksSeen + 1 }

def deltaField (deltaType : Option String) : Except ParserFailure String :=
  match deltaType with
  | some "text_delta" => .ok "text"
  | some "thinking_delta" => .ok "thinking"
  | some "input_json_delta" => .ok "partial_json"
  | some "signature_delta" => .ok "signature"
  | _ => .error (.new .invalidValue .delta "unsupported Anthropic content block delta")

/-- The open block with a delta of the given type and text, and what it emits. -/
def applyDelta (deltaType text : String) : Option Building → Except ParserFailure (Building × List StreamItem)
  | some (.text s) =>
    if deltaType = "text_delta" then .ok (.text (s ++ text), [.textDelta text]) else mismatch
  | some (.thinking thinking signature signatureStarted) =>
    if deltaType = "thinking_delta" then do
      refuseIf (signatureStarted = true)
        (.new .protocolSequence .delta "thinking_delta followed a signature_delta")
      return (.thinking (thinking ++ text) signature signatureStarted, [.thinkingDelta text])
    else if deltaType = "signature_delta" then do
      refuseIf ((signature ++ text).utf8ByteSize > limits.maxSignatureBytes)
        (.ofText "Anthropic thinking signature exceeded 1048576 bytes")
      return (.thinking thinking (signature ++ text) true, [])
    else mismatch
  | some (.toolUse id name json initialInput) =>
    if deltaType = "input_json_delta" then do
      refuseIf ((asObject initialInput).any (fun fields => !fields.isEmpty) = true)
        (.new .conflictingValue .contentBlockInput "tool_use mixed non-empty initial input with JSON deltas")
      return (.toolUse id name (json ++ text) initialInput, [])
    else mismatch
  | _ => mismatch
where
  mismatch : Except ParserFailure (Building × List StreamItem) :=
    .error (.new .conflictingValue .delta "Anthropic delta type did not match its open block")

def contentBlockDelta (v : Json) : Except ParserFailure (StreamParser × List StreamItem) := do
  let index ← requiredIndex v
  refuseIf (p.buildingIndex ≠ some index)
    (.new .conflictingValue .index "Anthropic content delta index did not match its open block")
  let d ← orFail (v.get "delta") (.new .missingField .delta "no delta")
  let deltaType := (d.get "type").bind asStr
  let field ← deltaField deltaType
  let text ← requiredEventString d field
  let p ← p.reserveOutput limits text.utf8ByteSize
  let (building, items) ← applyDelta limits (deltaType.getD "") text p.building
  return ({ p with building := some building }, items)

/-- The input of a tool call that is complete, or why it is none. -/
def toolInput (json : String) (initialInput : Json) : Except ParserFailure Json := do
  let input ← if blank json then .ok initialInput
    else (codec.parse json).mapError (fun e => .json e .partialJson "tool arguments were not valid JSON")
  refuseIf (isObject input = false) (.new .invalidType .contentBlockInput "tool call input was not a JSON object")
  return input

/-- The parser after its open block is complete, and what it emits. -/
def closeBlock (p : StreamParser) : Building → StreamParser × List StreamItem
  | .text text =>
    ({ p with nativeBlocks := p.nativeBlocks ++ [nativeText text], blocks := p.blocks ++ [.text text] }, [])
  | .thinking thinking signature _ =>
    let p : StreamParser := { p with blocks := p.blocks ++ [.thinking thinking] }
    if signature.isEmpty then
      ({ p with nativeReplayComplete := false
                pendingNativeError := some ((ParserFailure.new .missingField .signature
                  "thinking block completed without a provider signature").atFrame p.frameIndex) }, [])
    else ({ p with nativeBlocks := p.nativeBlocks ++ [nativeThinking thinking signature] }, [])
  | .redactedThinking data => ({ p with nativeBlocks := p.nativeBlocks ++ [nativeRedacted data] }, [])
  | .toolUse id name json initialInput =>
    match toolInput codec json initialInput with
    | .error e => ({ p with nativeReplayComplete := false, pendingToolError := some (e.atFrame p.frameIndex) }, [])
    | .ok input =>
      let tool : ToolUse := { id, name, input }
      ({ p with nativeBlocks := p.nativeBlocks ++ [nativeToolUse tool], blocks := p.blocks ++ [.toolUse tool] },
        [.toolUseComplete tool])

def contentBlockStop (v : Json) : Except ParserFailure (StreamParser × List StreamItem) := do
  let index ← requiredIndex v
  refuseIf (p.buildingIndex ≠ some index)
    (.new .conflictingValue .index "Anthropic content stop index did not match its open block")
  let building ← orFail p.building
    (.new .protocolSequence .index "content_block_stop arrived without an open block")
  return closeBlock codec { p with building := none, buildingIndex := none } building

def takeStopReason (v : Json) : Except ParserFailure StreamParser :=
  match (pointer v "delta" "stop_reason").bind asStr with
  | some raw => do
    let stopReason ← stopReasonOf raw
    return { p with stopReason, stopReasonSet := true }
  | none => .ok p

def takeOutputUsage (v : Json) : Except ParserFailure StreamParser :=
  match pointer v "usage" "output_tokens" with
  | some output => do
    refuseIf (p.outputUsageSeen = true) (.ofText "Anthropic stream contained duplicate output usage")
    let output ← orFail output.asU64
      (.new .invalidType .outputTokens "message_delta output_tokens was not an unsigned integer")
    return { p with usage := { p.usage with output }, outputUsageSeen := true }
  | none => .ok p

def messageDelta (v : Json) : Except ParserFailure StreamParser := do
  refuseIf (p.messageStartSeen = false)
    (.new .protocolSequence .sseEvent "message_delta arrived before message_start")
  let p ← p.takeStopReason v
  refuseIf (p.building.isSome = true ∧ (p.stopReasonSet = false ∨ p.stopReason ≠ .maxTokens))
    (.ofText "message_delta arrived while a content block was open")
  p.takeOutputUsage v

/-- What a block cut off by `max_tokens` leaves: visible prose and reasoning, never a tool call. -/
def cutOff : Building → List Block
  | .text text => if text.isEmpty then [] else [.text text]
  | .thinking thinking _ _ => if thinking.isEmpty then [] else [.thinking thinking]
  | .redactedThinking _ | .toolUse _ _ _ _ => []

def endBlock : Except ParserFailure StreamParser :=
  match p.building with
  | none => .ok p
  | some building => do
    refuseIf (p.stopReason ≠ .maxTokens)
      (.new .protocolSequence .contentBlock "stream ended with an unfinished content block")
    return { p with building := none, buildingIndex := none, nativeReplayComplete := false
                    blocks := p.blocks ++ cutOff building }

/-- A malformed block is forgiven only when the answer was cut off. -/
def checkPending : Except ParserFailure StreamParser :=
  if p.stopReason = .maxTokens then .ok { p with pendingToolError := none, pendingNativeError := none }
  else match p.pendingToolError with
    | some e => .error e
    | none =>
      match p.pendingNativeError with
      | some e => .error e
      | none => .ok p

def hasToolUse (blocks : List Block) : Bool :=
  blocks.any (fun b => match b with | .toolUse _ => true | _ => false)

/-- The stop reason against the tool calls: the parser, and what it announces. -/
def reconcileStop : Except ParserFailure (StreamParser × List StreamItem) :=
  match p.stopReason with
  | .toolUse =>
    if hasToolUse p.blocks then .ok (p, [])
    else .error (.new .conflictingValue .stopReason "tool_use stop reason contained no complete tool call")
  | .endTurn =>
    if hasToolUse p.blocks then
      .ok ({ p with stopReason := .toolUse }, [.compatibilityNotice
        "provider returned stop_reason=end_turn with complete tool calls; treating it as tool_use"])
    else .ok (p, [])
  | .maxTokens => .ok (p, [])
  | .stopSequence | .refusal | .pauseTurn | .unknown _ =>
    if hasToolUse p.blocks then
      .error (.new .conflictingValue .stopReason "complete tool call disagreed with the Anthropic stop reason")
    else .ok (p, [])

/-- The blocks with the native continuation in front, when every block has its native form. -/
def attachNative : Except ParserFailure (List Block) :=
  if p.nativeReplayComplete = true ∧ p.nativeBlocks ≠ [] then do
    refuseIf (codec.encodedLen (.array p.nativeBlocks) > limits.maxAssembledOutputBytes)
      (.ofText s!"Anthropic native content exceeded {limits.maxAssembledOutputBytes} bytes")
    return .providerState ⟨p.routeScope, anthropicContentBlocksFormat, .array p.nativeBlocks⟩ :: p.blocks
  else .ok p.blocks

def messageStop : Except ParserFailure (StreamParser × List StreamItem) := do
  refuseIf (p.stopReasonSet = false)
    (.new .missingField .stopReason "message_stop arrived before a stop reason")
  refuseIf (p.messageStartSeen = false)
    (.new .missingField .messageUsage "message_stop arrived without message_start usage")
  refuseIf (p.outputUsageSeen = false)
    (.new .missingField .outputTokens "message_stop arrived without output token usage")
  let p ← p.endBlock
  let p ← p.checkPending
  let (p, items) ← p.reconcileStop
  let blocks ← p.attachNative codec limits
  return ({ p with blocks := [], nativeBlocks := [], terminal := true }, items ++ [.turnComplete blocks p.stopReason p.usage])

def pushInner (f : SseFrame) : Except ParserFailure (StreamParser × List StreamItem) := do
  refuseIf (p.terminal = true)
    (.new .protocolSequence .sseEvent "Anthropic parser received a frame after message_stop")
  refuseIf (saturatingAdd f.event.utf8ByteSize f.data.utf8ByteSize > limits.maxSseFrameBytes)
    (.ofText "Anthropic SSE frame exceeded 33554432 bytes")
  let v ← (codec.parse f.data).mapError (fun e => .json e .sseData "bad data json")
  match f.event with
  | "message_start" => do return (← p.messageStart limits v, [])
  | "content_block_start" => do return (← p.contentBlockStart codec limits v, [])
  | "content_block_delta" => p.contentBlockDelta limits v
  | "content_block_stop" => p.contentBlockStop codec v
  | "message_delta" => do return (← p.messageDelta v, [])
  | "message_stop" => p.messageStop codec limits
  | "error" => .error (.ofText limits.redactedProviderStreamError)
  | _ => .ok (p, [])

def nextFrame (f : SseFrame) : Except ParserFailure (StreamParser × List StreamItem) :=
  let p := { p with frameIndex := saturatingAdd p.frameIndex 1 }
  (p.pushInner codec limits f).mapError (fun e => e.atFrame p.frameIndex)

def pushAll : StreamParser → List SseFrame → Except ParserFailure (StreamParser × List StreamItem)
  | p, [] => .ok (p, [])
  | p, f :: fs => do
    let (p, items) ← p.nextFrame codec limits f
    let (p, more) ← p.pushAll fs
    return (p, items ++ more)

end StreamParser
end Iteron.Sse
