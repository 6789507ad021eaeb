import Iteron.Sse
/-!
# SseBlocks — the content blocks of a stream, and the parser that follows them

`Reading` gathers the content blocks from the frames alone: what a block started with and the deltas it got.  `Follows`
says what the parser holds of them and what it has emitted so far, and every accepted frame keeps it.
-/
namespace Iteron.Sse

open Kernel (Json)
open Machine Refuse
open List (append_nil filterMap_append map_append map_singleton)

/-- A content block as its frames describe it, its deltas in order. -/
inductive ContentBlock where
  | text (start : String) (deltas : List String)
  | thinking (start : String) (deltas signature : List String)
  | redactedThinking (data : String)
  | toolUse (id name : String) (input : Json) (deltas : List String)

def stringAt (v : Json) (key : String) : String := ((v.get key).bind asStr).getD ""

namespace ContentBlock

/-- The block a `content_block` value starts. -/
def ofStart (cb : Json) : Option ContentBlock :=
  match (cb.get "type").bind asStr with
  | some "text" => some (.text (stringAt cb "text") [])
  | some "thinking" => some (.thinking (stringAt cb "thinking") [] [])
  | some "redacted_thinking" => some (.redactedThinking (stringAt cb "data"))
  | some "tool_use" => some (.toolUse (stringAt cb "id") (stringAt cb "name") ((cb.get "input").getD .null) [])
  | _ => none

def add (d : Json) : ContentBlock → ContentBlock
  | .text start deltas =>
    if (d.get "type").bind asStr = some "text_delta" then .text start (deltas ++ [stringAt d "text"])
    else .text start deltas
  | .thinking start deltas signature =>
    if (d.get "type").bind asStr = some "thinking_delta" then
      .thinking start (deltas ++ [stringAt d "thinking"]) signature
    else if (d.get "type").bind asStr = some "signature_delta" then
      .thinking start deltas (signature ++ [stringAt d "signature"])
    else .thinking start deltas signature
  | .redactedThinking data => .redactedThinking data
  | .toolUse id name input deltas =>
    if (d.get "type").bind asStr = some "input_json_delta" then
      .toolUse id name input (deltas ++ [stringAt d "partial_json"])
    else .toolUse id name input deltas

/-- The input of a tool call: its arguments as JSON, or what it started with when there are none.  It is an object. -/
def callInput (codec : Codec) (input : Json) (deltas : List String) : Option Json :=
  (if blank (String.join deltas) then some input else (codec.parse (String.join deltas)).toOption).filter isObject

def visible (codec : Codec) : ContentBlock → Option Block
  | .text start deltas => some (.text (start ++ String.join deltas))
  | .thinking start deltas _ => some (.thinking (start ++ String.join deltas))
  | .redactedThinking _ => none
  | .toolUse id name input deltas => (callInput codec input deltas).map (fun input => .toolUse ⟨id, name, input⟩)

/-- What a complete block is to the provider that sent it. -/
def native (codec : Codec) : ContentBlock → Option Json
  | .text start deltas => some (nativeText (start ++ String.join deltas))
  | .thinking start deltas signature =>
    if String.join signature = "" then none else some (nativeThinking (start ++ String.join deltas) (String.join signature))
  | .redactedThinking data => some (nativeRedacted data)
  | .toolUse id name input deltas => (callInput codec input deltas).map (fun input => nativeToolUse ⟨id, name, input⟩)

def unsigned : ContentBlock → Bool
  | .thinking _ _ signature => decide (String.join signature = "")
  | _ => false

def badCall (codec : Codec) : ContentBlock → Bool
  | .toolUse _ _ input deltas => (callInput codec input deltas).isNone
  | _ => false

def textDeltas : ContentBlock → String
  | .text _ deltas => String.join deltas
  | _ => ""

def thinkingDeltas : ContentBlock → String
  | .thinking _ deltas _ => String.join deltas
  | _ => ""

def built : ContentBlock → Building
  | .text start deltas => .text (start ++ String.join deltas)
  | .thinking start deltas signature =>
    .thinking (start ++ String.join deltas) (String.join signature) (!signature.isEmpty)
  | .redactedThinking data => .redactedThinking data
  | .toolUse id name input deltas => .toolUse id name (String.join deltas) input

end ContentBlock

structure Reading where
  closed : List ContentBlock := []
  opened : Option ContentBlock := none

namespace Reading

def contents (r : Reading) : List ContentBlock := r.closed ++ r.opened.toList

def event (r : Reading) (name : String) (v : Json) : Reading :=
  match name with
  | "content_block_start" => { r with opened := (v.get "content_block").bind ContentBlock.ofStart }
  | "content_block_delta" => { r with opened := r.opened.map (ContentBlock.add ((v.get "delta").getD .null)) }
  | "content_block_stop" => ⟨r.closed ++ r.opened.toList, none⟩
  | _ => r

def frame (codec : Codec) (r : Reading) (f : SseFrame) : Reading :=
  match codec.parse f.data with
  | .ok v => r.event f.event v
  | .error _ => r

end Reading

def contentBlocks (codec : Codec) (frames : List SseFrame) : List ContentBlock :=
  (frames.foldl (Reading.frame codec) {}).contents

def StreamItem.textDelta? : StreamItem → Option String
  | .textDelta text => some text
  | _ => none

def StreamItem.thinkingDelta? : StreamItem → Option String
  | .thinkingDelta thinking => some thinking
  | _ => none

def StreamItem.tool? : StreamItem → Option ToolUse
  | .toolUseComplete tool => some tool
  | _ => none

def Block.tool? : Block → Option ToolUse
  | .toolUse tool => some tool
  | _ => none

def emittedText (items : List StreamItem) : String := String.join (items.filterMap StreamItem.textDelta?)

def emittedThinking (items : List StreamItem) : String := String.join (items.filterMap StreamItem.thinkingDelta?)

section Join

theorem join_concat (l : List String) (s : String) : String.join (l ++ [s]) = String.join l ++ s := by simp

@[simp] theorem emittedText_nil : emittedText [] = "" := rfl

@[simp] theorem emittedThinking_nil : emittedThinking [] = "" := rfl

@[simp] theorem emittedText_textDelta (t : String) : emittedText [.textDelta t] = t := by
  simp [emittedText, StreamItem.textDelta?]

@[simp] theorem emittedThinking_textDelta (t : String) : emittedThinking [.textDelta t] = "" := rfl

@[simp] theorem emittedText_thinkingDelta (t : String) : emittedText [.thinkingDelta t] = "" := rfl

@[simp] theorem emittedThinking_thinkingDelta (t : String) : emittedThinking [.thinkingDelta t] = t := by
  simp [emittedThinking, StreamItem.thinkingDelta?]

theorem emittedText_append (items more : List StreamItem) :
    emittedText (items ++ more) = emittedText items ++ emittedText more := by
  rw [emittedText, filterMap_append, String.join_append, emittedText, emittedText]

theorem emittedThinking_append (items more : List StreamItem) :
    emittedThinking (items ++ more) = emittedThinking items ++ emittedThinking more := by
  rw [emittedThinking, filterMap_append, String.join_append, emittedThinking, emittedThinking]

end Join

structure Holds (codec : Codec) (closed : List ContentBlock) (p : StreamParser) : Prop where
  blocks : p.blocks = closed.filterMap (ContentBlock.visible codec)
  native : p.nativeBlocks = closed.filterMap (ContentBlock.native codec)
  complete : p.nativeReplayComplete = closed.all (fun b => (b.native codec).isSome)
  toolError : p.pendingToolError.isSome = closed.any (ContentBlock.badCall codec)
  nativeError : p.pendingNativeError.isSome = closed.any ContentBlock.unsigned

/-- What a parser holds after the frames that `r` was read from, when it has emitted `items`. -/
structure Follows (codec : Codec) (r : Reading) (items : List StreamItem) (p : StreamParser) : Prop where
  holds : Holds codec r.closed p
  building : p.building = r.opened.map ContentBlock.built
  text : emittedText items = String.join (r.contents.map ContentBlock.textDeltas)
  thinking : emittedThinking items = String.join (r.contents.map ContentBlock.thinkingDeltas)
  tools : items.filterMap StreamItem.tool? = p.blocks.filterMap Block.tool?

section Step

variable {codec : Codec} {limits : Limits} {r : Reading} {items new : List StreamItem} {p p' : StreamParser} {v : Json}

theorem Follows.start (scope : String) : Follows codec {} [] { routeScope := scope } :=
  ⟨⟨rfl, rfl, rfl, rfl, rfl⟩, rfl, rfl, rfl, rfl⟩

variable {closed : List ContentBlock}

theorem Holds.counted (h : Holds codec closed p) (hp : p' = { p with outputBytes := p'.outputBytes }) :
    Holds codec closed p' := by
  rw [hp]
  exact ⟨h.blocks, h.native, h.complete, h.toolError, h.nativeError⟩

@[simp] theorem orFail_eq_ok {α : Type} {x : Option α} {e : ParserFailure} {a : α} : orFail x e = .ok a ↔ x = some a := by
  cases x <;> simp [orFail]

variable {field : String}

theorem requiredEventString_ok {s : String} (h : requiredEventString v field = .ok s) : stringAt v field = s := by
  simp only [requiredEventString, bind_eq_ok, orFail_eq_ok] at h
  obtain ⟨_, hraw, hs⟩ := h
  rw [stringAt, hraw, Option.bind_some, hs, Option.getD_some]

theorem reserveOutput_ok {n : Nat} (h : p.reserveOutput limits n = .ok p') :
    p' = { p with outputBytes := p'.outputBytes } := by
  simp only [StreamParser.reserveOutput, bind_eq_ok, pure_eq_ok] at h
  obtain ⟨_, -, _, -, rfl⟩ := h
  rfl

variable {b : Building}

theorem openBlock_ok {cb : Json} {kind : String} (hkind : (cb.get "type").bind asStr = some kind)
    (h : p.openBlock codec limits cb kind = .ok (p', b)) : p' = { p with outputBytes := p'.outputBytes } ∧
      ∃ c, ContentBlock.ofStart cb = some c ∧ c.built = b ∧ c.textDeltas = "" ∧ c.thinkingDeltas = "" := by
  unfold StreamParser.openBlock at h
  split at h
  · simp only [bind_eq_ok, pure_eq_ok, Prod.mk.injEq] at h
    obtain ⟨text, htext, p1, hp1, rfl, rfl⟩ := h
    refine ⟨reserveOutput_ok hp1, .text (stringAt cb "text") [], by simp [ContentBlock.ofStart, hkind], ?_, rfl, rfl⟩
    rw [ContentBlock.built, requiredEventString_ok htext]
    simp
  · simp only [bind_eq_ok, pure_eq_ok, Prod.mk.injEq] at h
    obtain ⟨thinking, hthinking, p1, hp1, rfl, rfl⟩ := h
    refine ⟨reserveOutput_ok hp1, .thinking (stringAt cb "thinking") [] [],
      by simp [ContentBlock.ofStart, hkind], ?_, rfl, rfl⟩
    rw [ContentBlock.built, requiredEventString_ok hthinking]
    simp
  · simp only [bind_eq_ok, pure_eq_ok, Prod.mk.injEq] at h
    obtain ⟨data, hdata, _, -, p1, hp1, rfl, rfl⟩ := h
    refine ⟨reserveOutput_ok hp1, .redactedThinking (stringAt cb "data"),
      by simp [ContentBlock.ofStart, hkind], ?_, rfl, rfl⟩
    rw [ContentBlock.built, requiredEventString_ok hdata]
  · simp only [bind_eq_ok, pure_eq_ok, orFail_eq_ok, Prod.mk.injEq] at h
    obtain ⟨id, hid, name, hname, _, -, input, hinput, _, -, p1, hp1, rfl, rfl⟩ := h
    refine ⟨reserveOutput_ok hp1, .toolUse (stringAt cb "id") (stringAt cb "name") ((cb.get "input").getD .null) [],
      by simp [ContentBlock.ofStart, hkind], ?_, rfl, rfl⟩
    rw [ContentBlock.built, requiredEventString_ok hid, requiredEventString_ok hname, hinput]
    simp
  · cases h

theorem Follows.contentBlockStart (h : Follows codec r items p) (hok : p.contentBlockStart codec limits v = .ok p') :
    Follows codec (r.event "content_block_start" v) items p' := by
  simp only [StreamParser.contentBlockStart, bind_eq_ok, refuseIf_eq_ok, orFail_eq_ok, pure_eq_ok] at hok
  obtain ⟨_, -, _, hfree, _, hcb, _, -, _, -, _, -, _, hkind, ⟨_, b⟩, hopen, rfl⟩ := hok
  have hnone : r.opened = none := by
    rw [h.building, Option.isSome_map] at hfree
    exact Option.not_isSome_iff_eq_none.1 hfree
  obtain ⟨hp1, c, hc, rfl, htext, hthinking⟩ := openBlock_ok hkind hopen
  have hread : r.event "content_block_start" v = { r with opened := some c } := by
    rw [Reading.event, hcb, Option.bind_some, hc]
  have hcontents : (Reading.mk r.closed (some c)).contents = r.contents ++ [c] := by
    simp [Reading.contents, hnone]
  rw [hread]
  have hholds := h.holds.counted hp1
  refine ⟨⟨hholds.blocks, hholds.native, hholds.complete, hholds.toolError, hholds.nativeError⟩, rfl, ?_, ?_, ?_⟩
  · rw [hcontents, map_append, map_singleton, htext, join_concat, ← h.text, String.append_empty]
  · rw [hcontents, map_append, map_singleton, hthinking, join_concat, ← h.thinking, String.append_empty]
  · rw [hp1]
    exact h.tools

theorem applyDelta_ok {d : Json} {type text : String} {c : ContentBlock} (htype : (d.get "type").bind asStr = some type)
    (hfield : StreamParser.deltaField (some type) = .ok field) (htext : stringAt d field = text)
    (h : StreamParser.applyDelta limits type text (some c.built) = .ok (b, new)) :
    b = (c.add d).built ∧ (c.add d).textDeltas = c.textDeltas ++ emittedText new ∧
      (c.add d).thinkingDeltas = c.thinkingDeltas ++ emittedThinking new ∧ new.filterMap StreamItem.tool? = [] := by
  cases c with
  | text start deltas =>
    simp only [ContentBlock.built, StreamParser.applyDelta] at h
    split at h
    · rename_i hd
      subst hd
      cases h
      obtain rfl : "text" = field := Except.ok.inj hfield
      rw [ContentBlock.add, if_pos htype, htext]
      simp [ContentBlock.built, ContentBlock.textDeltas, ContentBlock.thinkingDeltas, StreamItem.tool?,
        String.append_assoc]
    · cases h
  | thinking start deltas signature =>
    simp only [ContentBlock.built, StreamParser.applyDelta] at h
    split at h
    · rename_i hd
      subst hd
      simp only [bind_eq_ok, pure_eq_ok, Prod.mk.injEq] at h
      obtain ⟨_, -, rfl, rfl⟩ := h
      obtain rfl : "thinking" = field := Except.ok.inj hfield
      rw [ContentBlock.add, if_pos htype, htext]
      simp [ContentBlock.built, ContentBlock.textDeltas, ContentBlock.thinkingDeltas, StreamItem.tool?,
        String.append_assoc]
    · split at h
      · rename_i hd
        subst hd
        simp only [bind_eq_ok, pure_eq_ok, Prod.mk.injEq] at h
        obtain ⟨_, -, rfl, rfl⟩ := h
        obtain rfl : "signature" = field := Except.ok.inj hfield
        rw [ContentBlock.add, htype, if_neg (by decide), if_pos rfl, htext]
        simp [ContentBlock.built, ContentBlock.textDeltas, ContentBlock.thinkingDeltas]
      · cases h
  | redactedThinking _ => cases h
  | toolUse _ _ _ deltas =>
    simp only [ContentBlock.built, StreamParser.applyDelta] at h
    split at h
    · rename_i hd
      subst hd
      simp only [bind_eq_ok, pure_eq_ok, Prod.mk.injEq] at h
      obtain ⟨_, -, rfl, rfl⟩ := h
      obtain rfl : "partial_json" = field := Except.ok.inj hfield
      rw [ContentBlock.add, if_pos htype, htext]
      simp [ContentBlock.built, ContentBlock.textDeltas, ContentBlock.thinkingDeltas]
    · cases h

theorem deltaField_type {type? : Option String} (h : StreamParser.deltaField type? = .ok field) :
    ∃ type, type? = some type := by
  cases type? with
  | none => cases h
  | some type => exact ⟨type, rfl⟩

theorem Follows.contentBlockDelta (h : Follows codec r items p) (hok : p.contentBlockDelta limits v = .ok (p', new)) :
    Follows codec (r.event "content_block_delta" v) (items ++ new) p' := by
  simp only [StreamParser.contentBlockDelta, bind_eq_ok, refuseIf_eq_ok, orFail_eq_ok, pure_eq_ok] at hok
  obtain ⟨_, -, _, -, d, hd, _, hfield, _, htext, p1, hp1, ⟨b, _⟩, happly, heq⟩ := hok
  cases heq
  obtain ⟨_, htype⟩ := deltaField_type hfield
  rw [htype] at hfield happly
  have hsame := reserveOutput_ok hp1
  have hbuilding : p1.building = r.opened.map ContentBlock.built := by
    rw [hsame]
    exact h.building
  rw [hbuilding] at happly
  cases hopened : r.opened with
  | none =>
    rw [hopened] at happly
    cases happly
  | some c =>
    rw [hopened] at happly
    obtain ⟨rfl, htextDeltas, hthinkingDeltas, htools⟩ :=
      applyDelta_ok htype hfield (requiredEventString_ok htext) happly
    have hread : r.event "content_block_delta" v = { r with opened := some (c.add d) } := by
      rw [Reading.event, hd, hopened]
      rfl
    have hbefore : r.contents = r.closed ++ [c] := by rw [Reading.contents, hopened]; rfl
    rw [hread]
    have hholds := h.holds.counted hsame
    refine ⟨⟨hholds.blocks, hholds.native, hholds.complete, hholds.toolError, hholds.nativeError⟩, rfl, ?_, ?_, ?_⟩
    · rw [emittedText_append, h.text, hbefore, Reading.contents, Option.toList_some, map_append, map_append,
        map_singleton, map_singleton, join_concat, join_concat, htextDeltas, String.append_assoc]
    · rw [emittedThinking_append, h.thinking, hbefore, Reading.contents, Option.toList_some, map_append,
        map_append, map_singleton, map_singleton, join_concat, join_concat, hthinkingDeltas,
        String.append_assoc]
    · rw [filterMap_append, htools, append_nil, hsame]
      exact h.tools

theorem toolInput_toOption (input : Json) (deltas : List String) :
    (StreamParser.toolInput codec (String.join deltas) input).toOption = ContentBlock.callInput codec input deltas := by
  have hobject (x : Json) : ((do
      refuseIf (isObject x = false) (.new .invalidType .contentBlockInput "tool call input was not a JSON object")
      return x : Except ParserFailure Json)).toOption = (some x).filter isObject := by
    cases hx : isObject x with
    | false => simp [refuseIf, Except.toOption, Option.filter, hx]
    | true => simp [refuseIf, Except.toOption, Option.filter, hx]
  unfold StreamParser.toolInput ContentBlock.callInput
  by_cases hb : blank (String.join deltas) = true
  · rw [if_pos hb, if_pos hb, ok_bind]
    exact hobject input
  · rw [if_neg hb, if_neg hb]
    cases codec.parse (String.join deltas) with
    | error e => rfl
    | ok x => exact hobject x

theorem Holds.closeBlock (h : Holds codec closed p) (c : ContentBlock)
    (hok : StreamParser.closeBlock codec p c.built = (p', new)) :
    Holds codec (closed ++ [c]) p' ∧ p'.building = p.building ∧ emittedText new = "" ∧ emittedThinking new = "" ∧
      p'.blocks.filterMap Block.tool? = p.blocks.filterMap Block.tool? ++ new.filterMap StreamItem.tool? := by
  have hholds (q : StreamParser) (hblocks : q.blocks = p.blocks ++ (c.visible codec).toList)
      (hnative : q.nativeBlocks = p.nativeBlocks ++ (c.native codec).toList)
      (hcomplete : q.nativeReplayComplete = (p.nativeReplayComplete && (c.native codec).isSome))
      (htool : q.pendingToolError.isSome = (p.pendingToolError.isSome || c.badCall codec))
      (herror : q.pendingNativeError.isSome = (p.pendingNativeError.isSome || c.unsigned)) :
      Holds codec (closed ++ [c]) q := by
    have hone {β : Type} (f : ContentBlock → Option β) : [c].filterMap f = (f c).toList := by
      cases hf : f c <;> simp [hf]
    refine ⟨?_, ?_, ?_, ?_, ?_⟩
    · rw [hblocks, h.blocks, filterMap_append, hone]
    · rw [hnative, h.native, filterMap_append, hone]
    · rw [hcomplete, h.complete, List.all_append]
      simp
    · rw [htool, h.toolError, List.any_append]
      simp
    · rw [herror, h.nativeError, List.any_append]
      simp
  cases c with
  | text start deltas =>
    cases hok
    refine ⟨hholds _ ?_ ?_ ?_ ?_ ?_, rfl, rfl, rfl, ?_⟩ <;>
      simp [ContentBlock.visible, ContentBlock.native, ContentBlock.badCall, ContentBlock.unsigned, Block.tool?]
  | thinking start deltas signature =>
    simp only [ContentBlock.built, StreamParser.closeBlock] at hok
    by_cases hsigned : (String.join signature).isEmpty = true
    · rw [if_pos hsigned] at hok
      cases hok
      have hempty : String.join signature = "" := String.isEmpty_iff.1 hsigned
      refine ⟨hholds _ ?_ ?_ ?_ ?_ ?_, rfl, rfl, rfl, ?_⟩ <;>
        simp [ContentBlock.visible, ContentBlock.native, ContentBlock.badCall, ContentBlock.unsigned, Block.tool?, hempty]
    · rw [if_neg hsigned] at hok
      cases hok
      have hfull : String.join signature ≠ "" := fun he => hsigned (String.isEmpty_iff.2 he)
      refine ⟨hholds _ ?_ ?_ ?_ ?_ ?_, rfl, rfl, rfl, ?_⟩ <;>
        simp [ContentBlock.visible, ContentBlock.native, ContentBlock.badCall, ContentBlock.unsigned, Block.tool?, hfull]
  | redactedThinking _ =>
    cases hok
    refine ⟨hholds _ ?_ ?_ ?_ ?_ ?_, rfl, rfl, rfl, ?_⟩ <;>
      simp [ContentBlock.visible, ContentBlock.native, ContentBlock.badCall, ContentBlock.unsigned]
  | toolUse _ _ input deltas =>
    have hinput := @toolInput_toOption codec input deltas
    simp only [ContentBlock.built, StreamParser.closeBlock] at hok
    cases hcall : StreamParser.toolInput codec (String.join deltas) input with
    | error e =>
      rw [hcall] at hok hinput
      cases hok
      have hnone : ContentBlock.callInput codec input deltas = none := hinput.symm
      refine ⟨hholds _ ?_ ?_ ?_ ?_ ?_, rfl, rfl, rfl, ?_⟩ <;>
        simp [ContentBlock.visible, ContentBlock.native, ContentBlock.badCall, ContentBlock.unsigned, hnone]
    | ok x =>
      rw [hcall] at hok hinput
      cases hok
      have hsome : ContentBlock.callInput codec input deltas = some x := hinput.symm
      refine ⟨hholds _ ?_ ?_ ?_ ?_ ?_, rfl, rfl, rfl, ?_⟩ <;>
        simp [ContentBlock.visible, ContentBlock.native, ContentBlock.badCall, ContentBlock.unsigned, Block.tool?,
          StreamItem.tool?, hsome]

theorem Follows.contentBlockStop (h : Follows codec r items p) (hok : p.contentBlockStop codec v = .ok (p', new)) :
    Follows codec (r.event "content_block_stop" v) (items ++ new) p' := by
  simp only [StreamParser.contentBlockStop, bind_eq_ok, refuseIf_eq_ok, orFail_eq_ok, pure_eq_ok] at hok
  obtain ⟨_, -, _, -, b, hb, hclose⟩ := hok
  rw [h.building, Option.map_eq_some_iff] at hb
  obtain ⟨c, hc, rfl⟩ := hb
  have hholds : Holds codec r.closed { p with building := none, buildingIndex := none } :=
    ⟨h.holds.blocks, h.holds.native, h.holds.complete, h.holds.toolError, h.holds.nativeError⟩
  obtain ⟨hclosed, hbuilding, htext, hthinking, htools⟩ := hholds.closeBlock c hclose
  have hread : r.event "content_block_stop" v = ⟨r.closed ++ [c], none⟩ := by
    rw [Reading.event, hc]
    rfl
  have hcontents : (Reading.mk (r.closed ++ [c]) none).contents = r.contents := by
    simp [Reading.contents, hc]
  rw [hread]
  refine ⟨hclosed, hbuilding, ?_, ?_, ?_⟩
  · rw [hcontents, emittedText_append, htext, String.append_empty, h.text]
  · rw [hcontents, emittedThinking_append, hthinking, String.append_empty, h.thinking]
  · rw [filterMap_append, htools, h.tools]

theorem Follows.unread (h : Follows codec r items p) (hblocks : p'.blocks = p.blocks)
    (hnative : p'.nativeBlocks = p.nativeBlocks) (hcomplete : p'.nativeReplayComplete = p.nativeReplayComplete)
    (htool : p'.pendingToolError = p.pendingToolError) (herror : p'.pendingNativeError = p.pendingNativeError)
    (hbuilding : p'.building = p.building) : Follows codec r items p' := by
  refine ⟨⟨hblocks.trans h.holds.blocks, hnative.trans h.holds.native, hcomplete.trans h.holds.complete, ?_, ?_⟩,
    hbuilding.trans h.building, h.text, h.thinking, ?_⟩
  · rw [htool, h.holds.toolError]
  · rw [herror, h.holds.nativeError]
  · rw [hblocks, h.tools]

theorem Follows.messageStart (h : Follows codec r items p) (hok : p.messageStart limits v = .ok p') :
    Follows codec r items p' := by
  simp only [StreamParser.messageStart, bind_eq_ok, pure_eq_ok] at hok
  obtain ⟨_, -, _, -, _, -, _, -, _, -, rfl⟩ := hok
  exact h.unread rfl rfl rfl rfl rfl rfl

theorem Follows.messageDelta (h : Follows codec r items p) (hok : p.messageDelta v = .ok p') :
    Follows codec r items p' := by
  simp only [StreamParser.messageDelta, bind_eq_ok] at hok
  obtain ⟨_, -, p1, hreason, _, -, houtput⟩ := hok
  have h1 : Follows codec r items p1 := by
    unfold StreamParser.takeStopReason at hreason
    split at hreason
    · simp only [bind_eq_ok, pure_eq_ok] at hreason
      obtain ⟨_, -, rfl⟩ := hreason
      exact h.unread rfl rfl rfl rfl rfl rfl
    · exact Except.ok.inj hreason ▸ h
  unfold StreamParser.takeOutputUsage at houtput
  split at houtput
  · simp only [bind_eq_ok, pure_eq_ok] at houtput
    obtain ⟨_, -, _, -, rfl⟩ := houtput
    exact h1.unread rfl rfl rfl rfl rfl rfl
  · exact Except.ok.inj houtput ▸ h1

/-- **An accepted frame keeps what the parser follows**, unless it ends the message. -/
theorem Follows.frame {f : SseFrame} (h : Follows codec r items p) (hevent : f.event ≠ "message_stop")
    (hok : p.nextFrame codec limits f = .ok (p', new)) : Follows codec (r.frame codec f) (items ++ new) p' := by
  rw [StreamParser.nextFrame, mapError_eq_ok] at hok
  have h1 : Follows codec r items { p with frameIndex := saturatingAdd p.frameIndex 1 } :=
    h.unread rfl rfl rfl rfl rfl rfl
  simp only [StreamParser.pushInner, bind_eq_ok, mapError_eq_ok] at hok
  obtain ⟨_, -, _, -, v, hv, hok⟩ := hok
  have hread : r.frame codec f = r.event f.event v := by rw [Reading.frame, hv]
  rw [hread]
  split at hok
  case h_1 he =>
    simp only [bind_eq_ok, pure_eq_ok, Prod.mk.injEq] at hok
    obtain ⟨p1, hp1, rfl, rfl⟩ := hok
    rw [he, append_nil]
    exact h1.messageStart hp1
  case h_2 he =>
    simp only [bind_eq_ok, pure_eq_ok, Prod.mk.injEq] at hok
    obtain ⟨p1, hp1, rfl, rfl⟩ := hok
    rw [he, append_nil]
    exact h1.contentBlockStart hp1
  case h_3 he =>
    rw [he]
    exact h1.contentBlockDelta hok
  case h_4 he =>
    rw [he]
    exact h1.contentBlockStop hok
  case h_5 he =>
    simp only [bind_eq_ok, pure_eq_ok, Prod.mk.injEq] at hok
    obtain ⟨p1, hp1, rfl, rfl⟩ := hok
    rw [he, append_nil]
    exact h1.messageDelta hp1
  case h_6 he => exact absurd he hevent
  case h_7 => cases hok
  case h_8 h1' h2 h3 h4 h5 h6 h7 =>
    cases hok
    have hsame : r.event f.event v = r := by
      unfold Reading.event
      split
      · contradiction
      · contradiction
      · contradiction
      · rfl
    rw [hsame, append_nil]
    exact h1

end Step

end Iteron.Sse
