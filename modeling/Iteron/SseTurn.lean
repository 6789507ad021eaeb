import Iteron.SseBlocks
/-!
# SseTurn — what a completed turn says of its stream

`pushAll_turn` takes a stream that ends its turn apart: what was emitted before the last frame, and what the last frame
made of the blocks.  `turn_faithful_iff` and `only_last_forgiven_iff` are what the result owes to the stream.
-/
namespace Iteron.Sse

open Kernel (Json)
open Machine Refuse
open List (append_nil filterMap_append map_cons map_nil)

def StreamItem.isTurn : StreamItem → Bool
  | .turnComplete _ _ _ => true
  | _ => false

def Block.isProviderState : Block → Bool
  | .providerState _ => true
  | _ => false

def portableBlocks (blocks : List Block) : List Block := blocks.filter (fun b => !b.isProviderState)

def ContentBlock.cut : ContentBlock → Option Block
  | .text start deltas => if start ++ String.join deltas = "" then none else some (.text (start ++ String.join deltas))
  | .thinking start deltas _ =>
    if start ++ String.join deltas = "" then none else some (.thinking (start ++ String.join deltas))
  | _ => none

section Stop

variable {codec : Codec} {limits : Limits} {r : Reading} {items new last : List StreamItem} {p p' : StreamParser}

structure Ended (codec : Codec) (r : Reading) (blocks : List Block) (reason : StopReason) : Prop where
  portable : portableBlocks blocks = r.closed.filterMap (ContentBlock.visible codec) ++
      r.opened.toList.filterMap ContentBlock.cut
  native : ∀ state, .providerState state ∈ blocks → r.opened = none ∧
    (∀ c ∈ r.closed, (c.native codec).isSome = true) ∧ state.payload = .array (r.closed.filterMap (ContentBlock.native codec))
  kept : reason ≠ .maxTokens → r.opened = none ∧ (∀ c ∈ r.closed, c.badCall codec = false ∧ c.unsigned = false) ∧
    (r.closed ≠ [] → ∃ state, .providerState state ∈ blocks)

theorem cutOff_built (c : ContentBlock) : StreamParser.cutOff c.built = c.cut.toList := by
  cases c with
  | text start deltas =>
    simp only [ContentBlock.built, StreamParser.cutOff, ContentBlock.cut, String.isEmpty_iff]
    split <;> rfl
  | thinking start deltas _ =>
    simp only [ContentBlock.built, StreamParser.cutOff, ContentBlock.cut, String.isEmpty_iff]
    split <;> rfl
  | redactedThinking _ => rfl
  | toolUse _ _ _ deltas => rfl

theorem native_isSome (c : ContentBlock) : (c.native codec).isSome = (!c.badCall codec && !c.unsigned) := by
  cases c with
  | text start deltas => rfl
  | redactedThinking _ => rfl
  | thinking start deltas signature =>
    by_cases h : String.join signature = "" <;> simp [ContentBlock.native, ContentBlock.badCall, ContentBlock.unsigned, h]
  | toolUse _ _ input deltas =>
    cases h : ContentBlock.callInput codec input deltas <;>
      simp [ContentBlock.native, ContentBlock.badCall, ContentBlock.unsigned, h]

variable {b : Building}

theorem applyDelta_items {type text : String} {building : Option Building}
    (h : StreamParser.applyDelta limits type text building = .ok (b, new)) : ∀ i ∈ new, i.isTurn = false := by
  unfold StreamParser.applyDelta at h
  split at h
  · split at h
    · cases h
      simp [StreamItem.isTurn]
    · cases h
  · split at h
    · simp only [bind_eq_ok, pure_eq_ok, Prod.mk.injEq] at h
      obtain ⟨_, -, -, rfl⟩ := h
      simp [StreamItem.isTurn]
    · split at h
      · simp only [bind_eq_ok, pure_eq_ok, Prod.mk.injEq] at h
        obtain ⟨_, -, -, rfl⟩ := h
        simp
      · cases h
  · split at h
    · simp only [bind_eq_ok, pure_eq_ok, Prod.mk.injEq] at h
      obtain ⟨_, -, -, rfl⟩ := h
      simp
    · cases h
  · cases h

theorem closeBlock_items (h : StreamParser.closeBlock codec p b = (p', new)) : ∀ i ∈ new, i.isTurn = false := by
  cases b with
  | text text =>
    cases h
    simp
  | thinking thinking _ _ =>
    simp only [StreamParser.closeBlock] at h
    split at h
    all_goals
      cases h
      simp
  | redactedThinking _ =>
    cases h
    simp
  | toolUse _ _ _ _ =>
    simp only [StreamParser.closeBlock] at h
    split at h
    · cases h
      simp
    · cases h
      simp [StreamItem.isTurn]

variable {f : SseFrame}

theorem not_isTurn_frame (hevent : f.event ≠ "message_stop") (hok : p.nextFrame codec limits f = .ok (p', new)) :
    ∀ i ∈ new, i.isTurn = false := by
  rw [StreamParser.nextFrame, mapError_eq_ok] at hok
  simp only [StreamParser.pushInner, bind_eq_ok, mapError_eq_ok] at hok
  obtain ⟨_, -, _, -, v, -, hok⟩ := hok
  split at hok
  case h_1 | h_2 | h_5 =>
    simp only [bind_eq_ok, pure_eq_ok, Prod.mk.injEq] at hok
    obtain ⟨p1, -, -, rfl⟩ := hok
    exact fun i hi => absurd hi List.not_mem_nil
  case h_3 =>
    simp only [StreamParser.contentBlockDelta, bind_eq_ok, pure_eq_ok] at hok
    obtain ⟨_, -, _, -, d, -, _, -, _, -, p1, -, ⟨b, _⟩, happly, heq⟩ := hok
    cases heq
    exact applyDelta_items happly
  case h_4 =>
    simp only [StreamParser.contentBlockStop, bind_eq_ok, pure_eq_ok] at hok
    obtain ⟨_, -, _, -, b, -, hclose⟩ := hok
    exact closeBlock_items hclose
  case h_6 he => exact absurd he hevent
  case h_7 => cases hok
  case h_8 =>
    cases hok
    exact fun i hi => absurd hi List.not_mem_nil

theorem endBlock_ok (h : Follows codec r items p) (hok : p.endBlock = .ok p') :
    p'.blocks = r.closed.filterMap (ContentBlock.visible codec) ++ r.opened.toList.filterMap ContentBlock.cut ∧
      p'.nativeBlocks = p.nativeBlocks ∧ p'.nativeReplayComplete = (p.nativeReplayComplete && r.opened.isNone) ∧
      p'.pendingToolError = p.pendingToolError ∧ p'.pendingNativeError = p.pendingNativeError ∧
      p'.stopReason = p.stopReason ∧ (p.stopReason ≠ .maxTokens → r.opened = none) := by
  unfold StreamParser.endBlock at hok
  rw [h.building] at hok
  cases hopened : r.opened with
  | none =>
    rw [hopened] at hok
    cases hok
    exact ⟨by simpa using h.holds.blocks, rfl, by simp, rfl, rfl, rfl, fun _ => rfl⟩
  | some c =>
    rw [hopened, Option.map_some] at hok
    simp only [bind_eq_ok, refuseIf_eq_ok, not_not, pure_eq_ok] at hok
    obtain ⟨_, hreason, rfl⟩ := hok
    refine ⟨?_, rfl, by simp, rfl, rfl, rfl, fun hne => absurd hreason hne⟩
    rw [h.holds.blocks, cutOff_built]
    cases hcut : c.cut <;> simp [hcut]

theorem checkPending_ok (hok : p.checkPending = .ok p') : p'.blocks = p.blocks ∧ p'.nativeBlocks = p.nativeBlocks ∧
    p'.nativeReplayComplete = p.nativeReplayComplete ∧ p'.stopReason = p.stopReason ∧
    (p.stopReason ≠ .maxTokens → p.pendingToolError = none ∧ p.pendingNativeError = none) := by
  unfold StreamParser.checkPending at hok
  split at hok
  · rename_i hmax
    cases hok
    exact ⟨rfl, rfl, rfl, rfl, fun hne => absurd hmax hne⟩
  · split at hok
    · cases hok
    · rename_i htool
      split at hok
      · cases hok
      · rename_i herror
        cases hok
        exact ⟨rfl, rfl, rfl, rfl, fun _ => ⟨htool, herror⟩⟩

theorem reconcileStop_ok (hok : p.reconcileStop = .ok (p', new)) : p'.blocks = p.blocks ∧
    p'.nativeBlocks = p.nativeBlocks ∧ p'.nativeReplayComplete = p.nativeReplayComplete ∧
    (p'.stopReason = .maxTokens ↔ p.stopReason = .maxTokens) ∧ ∀ i ∈ new, ∃ notice, i = .compatibilityNotice notice := by
  unfold StreamParser.reconcileStop at hok
  split at hok
  case h_2 hreason =>
    split at hok
    · cases hok
      exact ⟨rfl, rfl, rfl, by simp [hreason], by simp⟩
    · cases hok
      exact ⟨rfl, rfl, rfl, Iff.rfl, by simp⟩
  case h_3 =>
    cases hok
    exact ⟨rfl, rfl, rfl, Iff.rfl, by simp⟩
  case h_1 =>
    split at hok
    · cases hok
      exact ⟨rfl, rfl, rfl, Iff.rfl, by simp⟩
    · cases hok
  all_goals
    split at hok
    · cases hok
    · cases hok
      exact ⟨rfl, rfl, rfl, Iff.rfl, by simp⟩

theorem portableBlocks_shown (r : Reading) :
    portableBlocks (r.closed.filterMap (ContentBlock.visible codec) ++ r.opened.toList.filterMap ContentBlock.cut) =
      r.closed.filterMap (ContentBlock.visible codec) ++ r.opened.toList.filterMap ContentBlock.cut := by
  have hvisible : ∀ (c : ContentBlock) (b : Block), c.visible codec = some b → b.isProviderState = false := by
    intro c b hb
    cases c with
    | text start deltas => exact Option.some.inj hb ▸ rfl
    | thinking start deltas signature => exact Option.some.inj hb ▸ rfl
    | redactedThinking data => cases hb
    | toolUse id name input deltas =>
      obtain ⟨x, -, rfl⟩ := Option.map_eq_some_iff.1 hb
      rfl
  have hcut : ∀ (c : ContentBlock) (b : Block), c.cut = some b → b.isProviderState = false := by
    intro c b hb
    cases c with
    | text start deltas =>
      simp only [ContentBlock.cut, Option.ite_none_left_eq_some] at hb
      exact Option.some.inj hb.2 ▸ rfl
    | thinking start deltas signature =>
      simp only [ContentBlock.cut, Option.ite_none_left_eq_some] at hb
      exact Option.some.inj hb.2 ▸ rfl
    | redactedThinking data => cases hb
    | toolUse id name input deltas => cases hb
  refine List.filter_eq_self.2 fun b hb => ?_
  rw [List.mem_append, List.mem_filterMap, List.mem_filterMap] at hb
  obtain ⟨c, -, hc⟩ | ⟨c, -, hc⟩ := hb
  · rw [hvisible c b hc]
    rfl
  · rw [hcut c b hc]
    rfl

theorem messageStop_ok (h : Follows codec r items p) (hok : p.messageStop codec limits = .ok (p', last)) :
    ∃ notices blocks reason usage, last = notices ++ [.turnComplete blocks reason usage] ∧
      (∀ i ∈ notices, ∃ notice, i = .compatibilityNotice notice) ∧ p'.terminal = true ∧ Ended codec r blocks reason := by
  simp only [StreamParser.messageStop, bind_eq_ok, pure_eq_ok] at hok
  obtain ⟨_, -, _, -, _, -, _, hend, _, hpending, ⟨p3, notices⟩, hstop, blocks, hattach, heq⟩ := hok
  cases heq
  obtain ⟨hblocks1, hnative1, hcomplete1, htool1, herror1, hreason1, hopen1⟩ := endBlock_ok h hend
  obtain ⟨hblocks2, hnative2, hcomplete2, hreason2, hpending2⟩ := checkPending_ok hpending
  obtain ⟨hblocks3, hnative3, hcomplete3, hreason3, hnotices⟩ := reconcileStop_ok hstop
  have hnative := hnative3.trans (hnative2.trans (hnative1.trans h.holds.native))
  have hcomplete := hcomplete3.trans (hcomplete2.trans hcomplete1)
  rw [h.holds.complete] at hcomplete
  have hblocks := hblocks3.trans (hblocks2.trans hblocks1)
  have hkept : p3.stopReason ≠ .maxTokens →
      r.opened = none ∧ ∀ c ∈ r.closed, c.badCall codec = false ∧ c.unsigned = false := by
    intro hne
    have hp : p.stopReason ≠ .maxTokens := fun hmax => hne (hreason3.2 (hreason2.trans (hreason1.trans hmax)))
    obtain ⟨hnotool, hnoerror⟩ := hpending2 (fun hmax => hp (hreason1.symm.trans hmax))
    have htools := h.holds.toolError
    have herrors := h.holds.nativeError
    rw [← htool1, hnotool, Option.isSome_none, eq_comm, List.any_eq_false] at htools
    rw [← herror1, hnoerror, Option.isSome_none, eq_comm, List.any_eq_false] at herrors
    exact ⟨hopen1 hp, fun c hc => ⟨Bool.not_eq_true _ ▸ htools c hc, Bool.not_eq_true _ ▸ herrors c hc⟩⟩
  refine ⟨notices, blocks, p3.stopReason, p3.usage, rfl, hnotices, rfl, ?_⟩
  unfold StreamParser.attachNative at hattach
  by_cases hattached : p3.nativeReplayComplete = true ∧ p3.nativeBlocks ≠ []
  · rw [if_pos hattached] at hattach
    simp only [bind_eq_ok, pure_eq_ok] at hattach
    obtain ⟨_, -, rfl⟩ := hattach
    rw [hcomplete, Bool.and_eq_true] at hattached
    refine ⟨?_, fun state hstate => ?_, fun hne => ⟨(hkept hne).1, (hkept hne).2, fun _ => ⟨_, .head _⟩⟩⟩
    · rw [hblocks]
      exact portableBlocks_shown r
    · rcases List.mem_cons.1 hstate with hstate | hstate
      · obtain rfl := Block.providerState.inj hstate
        exact ⟨Option.isNone_iff_eq_none.1 hattached.1.2, List.all_eq_true.1 hattached.1.1, by rw [hnative]⟩
      · have hplain := @portableBlocks_shown codec r
        rw [hblocks, ← hplain, portableBlocks, List.mem_filter] at hstate
        cases hstate.2
  · rw [if_neg hattached] at hattach
    cases hattach
    have hnostate : ∀ state, .providerState state ∉ p3.blocks := by
      intro state hstate
      have hplain := @portableBlocks_shown codec r
      rw [hblocks, ← hplain, portableBlocks, List.mem_filter] at hstate
      cases hstate.2
    refine ⟨?_, fun state hstate => absurd hstate (hnostate state), fun hne => ⟨(hkept hne).1, (hkept hne).2, ?_⟩⟩
    · rw [hblocks]
      exact portableBlocks_shown r
    · intro hclosed
      obtain ⟨hopen, hgood⟩ := hkept hne
      have hall : ∀ c ∈ r.closed, (c.native codec).isSome = true := by
        intro c hc
        rw [native_isSome, (hgood c hc).1, (hgood c hc).2]
        rfl
      refine absurd ⟨?_, ?_⟩ hattached
      · rw [hcomplete, hopen, List.all_eq_true.2 hall]
        rfl
      · rw [hnative]
        obtain ⟨c, hc⟩ := List.exists_mem_of_ne_nil _ hclosed
        obtain ⟨j, hj⟩ := Option.isSome_iff_exists.1 (hall c hc)
        exact List.ne_nil_of_mem (List.mem_filterMap.2 ⟨c, hc, hj⟩)

theorem nextFrame_stop (r : Reading) (hevent : f.event = "message_stop")
    (hok : p.nextFrame codec limits f = .ok (p', new)) : r.frame codec f = r ∧
      ({ p with frameIndex := saturatingAdd p.frameIndex 1 } : StreamParser).messageStop codec limits = .ok (p', new) := by
  rw [StreamParser.nextFrame, mapError_eq_ok] at hok
  simp only [StreamParser.pushInner, bind_eq_ok, mapError_eq_ok, hevent] at hok
  obtain ⟨_, -, _, -, v, hv, hok⟩ := hok
  refine ⟨?_, hok⟩
  rw [Reading.frame, hv, hevent]
  rfl

theorem nextFrame_terminal (h : p.terminal = true) (f : SseFrame) (x : StreamParser × List StreamItem) :
    p.nextFrame codec limits f ≠ .ok x := by
  intro hok
  rw [StreamParser.nextFrame, mapError_eq_ok] at hok
  simp only [StreamParser.pushInner, bind_eq_ok, refuseIf_eq_ok] at hok
  obtain ⟨_, hlive, -⟩ := hok
  exact hlive h

variable {usage : Usage}

theorem pushAll_turn {blocks : List Block} {reason : StopReason} : ∀ {frames : List SseFrame} {r : Reading}
    {items more : List StreamItem} {p p' : StreamParser}, Follows codec r items p →
    p.pushAll codec limits frames = .ok (p', more) → .turnComplete blocks reason usage ∈ more →
    ∃ p1 before last, Follows codec (frames.foldl (Reading.frame codec) r) (items ++ before) p1 ∧
      p1.messageStop codec limits = .ok (p', last) ∧ more = before ++ last ∧ .turnComplete blocks reason usage ∈ last
  | [], r, items, more, p, p', _, hok, hturn => by
    cases hok
    cases hturn
  | f :: frames, r, items, more, p, p', h, hok, hturn => by
    simp only [StreamParser.pushAll, bind_eq_ok, pure_eq_ok] at hok
    obtain ⟨⟨p1, new⟩, hframe, ⟨_, rest⟩, hrest, heq⟩ := hok
    cases heq
    by_cases hevent : f.event = "message_stop"
    · obtain ⟨hread, hstop⟩ := nextFrame_stop r hevent hframe
      have h1 : Follows codec r items { p with frameIndex := saturatingAdd p.frameIndex 1 } :=
        h.unread rfl rfl rfl rfl rfl rfl
      obtain ⟨_, _, _, _, _, -, hterminal, -⟩ := messageStop_ok h1 hstop
      -- nothing is accepted after the message has ended
      cases frames with
      | cons g frames =>
        simp only [StreamParser.pushAll, bind_eq_ok] at hrest
        obtain ⟨x, hx, -⟩ := hrest
        cases nextFrame_terminal hterminal g x hx
      | nil =>
        cases hrest
        rw [append_nil] at hturn
        refine ⟨_, [], new, ?_, hstop, by simp, hturn⟩
        rw [List.foldl_cons, List.foldl_nil, hread, append_nil]
        exact h1
    · have hnew : .turnComplete blocks reason usage ∉ new := fun hm => by
        have := not_isTurn_frame hevent hframe _ hm
        cases this
      have hlater : .turnComplete blocks reason usage ∈ rest := (List.mem_append.1 hturn).resolve_left hnew
      obtain ⟨q, before, last, hfollows, hstop, rfl, hmem⟩ := pushAll_turn (h.frame hevent hframe) hrest hlater
      refine ⟨q, new ++ before, last, ?_, hstop, by rw [List.append_assoc], hmem⟩
      rw [List.foldl_cons, ← List.append_assoc]
      exact hfollows

theorem turn_ended {scope : String} {frames : List SseFrame} {blocks : List Block} {reason : StopReason}
    (hok : StreamParser.pushAll codec limits { routeScope := scope } frames = .ok (p', items))
    (hturn : .turnComplete blocks reason usage ∈ items) :
    ∃ p1 before notices, Follows codec (frames.foldl (Reading.frame codec) {}) before p1 ∧
      items = before ++ (notices ++ [.turnComplete blocks reason usage]) ∧
      (∀ i ∈ notices, ∃ notice, i = .compatibilityNotice notice) ∧
      Ended codec (frames.foldl (Reading.frame codec) {}) blocks reason := by
  obtain ⟨p1, before, _, hfollows, hstop, rfl, hmem⟩ := pushAll_turn (.start scope) hok hturn
  obtain ⟨notices, blocks', reason', usage', rfl, hnotices, -, hended⟩ := messageStop_ok hfollows hstop
  obtain ⟨rfl, rfl, rfl⟩ : blocks = blocks' ∧ reason = reason' ∧ usage = usage' := by
    rcases List.mem_append.1 hmem with hm | hm
    · obtain ⟨notice, heq⟩ := hnotices _ hm
      cases heq
    · exact StreamItem.turnComplete.inj (List.mem_singleton.1 hm)
  exact ⟨p1, before, notices, hfollows, rfl, hnotices, hended⟩

end Stop

section Faithful

def Block.text? : Block → Option String
  | .text s => some s
  | _ => none

def Block.thinking? : Block → Option String
  | .thinking s => some s
  | _ => none

def Block.json : Block → Json
  | .text s => nativeText s
  | .thinking s => .object [("thinking", .string s), ("type", .string "thinking")]
  | .toolUse tool => nativeToolUse tool
  | .providerState state => state.payload

/-- A native entry without its signature; redacted reasoning has no portable form. -/
def portable (v : Json) : Option Json :=
  if (v.get "type").bind asStr = some "redacted_thinking" then none
  else (asObject v).map (fun fields => .object (fields.filter (fun f => decide (f.1 ≠ "signature"))))

/-- What a completed turn owes to what was emitted on the way. -/
structure Faithful (items : List StreamItem) (blocks : List Block) : Prop where
  text : emittedText items = String.join (blocks.filterMap Block.text?)
  thinking : emittedThinking items = String.join (blocks.filterMap Block.thinking?)
  tools : items.filterMap StreamItem.tool? = blocks.filterMap Block.tool?
  native : ∀ state, .providerState state ∈ blocks → ∃ natives, state.payload = .array natives ∧
    natives.filterMap portable = (portableBlocks blocks).map Block.json

namespace ContentBlock

def textStart : ContentBlock → String
  | .text start _ => start
  | _ => ""

def thinkingStart : ContentBlock → String
  | .thinking start _ _ => start
  | _ => ""

end ContentBlock

variable {codec : Codec} {limits : Limits} {r : Reading} {items notices : List StreamItem} {blocks : List Block}
  {reason : StopReason} {β : Type}

theorem filterMap_portableBlocks {f : Block → Option β} (hf : ∀ b, b.isProviderState = true → f b = none)
    (blocks : List Block) : (portableBlocks blocks).filterMap f = blocks.filterMap f := by
  induction blocks with
  | nil => rfl
  | cons b blocks ih =>
    rw [portableBlocks] at ih ⊢
    cases hb : b.isProviderState with
    | true => rw [List.filter_cons_of_neg (by simp [hb]), ih, List.filterMap_cons_none (hf b hb)]
    | false => rw [List.filter_cons_of_pos (by simp [hb]), List.filterMap_cons, List.filterMap_cons, ih]

theorem Ended.join {f : Block → Option String} {piece : ContentBlock → String} (h : Ended codec r blocks reason)
    (hstate : ∀ b, b.isProviderState = true → f b = none)
    (hvisible : ∀ c, ((c.visible codec).bind f).getD "" = piece c) (hcut : ∀ c, (c.cut.bind f).getD "" = piece c) :
    String.join (blocks.filterMap f) = String.join (r.contents.map piece) := by
  have hjoin : ∀ (g : ContentBlock → Option Block), (∀ c, ((g c).bind f).getD "" = piece c) →
      ∀ l : List ContentBlock, String.join ((l.filterMap g).filterMap f) = String.join (l.map piece) := by
    intro g hg l
    rw [List.filterMap_filterMap]
    induction l with
    | nil => rfl
    | cons c l ih =>
      rw [map_cons, String.join_cons, ← ih, ← hg c]
      cases hc : (g c).bind f with
      | none => simp [hc]
      | some s => simp [hc]
  rw [← filterMap_portableBlocks hstate, h.portable, filterMap_append, String.join_append, hjoin _ hvisible,
    hjoin _ hcut, Reading.contents, List.map_append, String.join_append]

theorem join_starts_iff {α : Type} (start delta : α → String) (l : List α) :
    String.join (l.map delta) = String.join (l.map (fun a => start a ++ delta a)) ↔ ∀ a ∈ l, start a = "" := by
  constructor
  · intro h
    have hlength : ∀ l : List α, (String.join (l.map (fun a => start a ++ delta a))).length =
        (l.map (fun a => (start a).length)).sum + (String.join (l.map delta)).length := by
      intro l
      induction l with
      | nil => rfl
      | cons a l ih =>
        simp only [map_cons, String.join_cons, String.length_append, List.sum_cons, ih]
        omega
    have hsum := hlength l
    rw [← h] at hsum
    have hzero : (l.map (fun a => (start a).length)).sum = 0 := by omega
    intro a ha
    have hlen : (start a).length = 0 := List.sum_eq_zero_iff_forall_eq_nat.1 hzero _ (List.mem_map_of_mem ha)
    simpa using hlen
  · intro h
    refine congrArg String.join (List.map_congr_left fun a ha => ?_)
    rw [h a ha, String.empty_append]

theorem filterMap_notices (f : StreamItem → Option β) (h : ∀ i ∈ notices, ∃ notice, i = .compatibilityNotice notice)
    (hnotice : ∀ notice, f (.compatibilityNotice notice) = none) {turn : StreamItem} (hturn : f turn = none) :
    (notices ++ [turn]).filterMap f = [] := by
  refine List.filterMap_eq_nil_iff.2 fun i hi => ?_
  rcases List.mem_append.1 hi with hi | hi
  · obtain ⟨notice, rfl⟩ := h i hi
    exact hnotice notice
  · rw [List.mem_singleton.1 hi, hturn]

theorem portable_native {c : ContentBlock} {j : Json} (h : c.native codec = some j) :
    portable j = (c.visible codec).map Block.json := by
  cases c with
  | text start deltas =>
    cases h
    rfl
  | thinking start deltas _ =>
    simp only [ContentBlock.native, Option.ite_none_left_eq_some] at h
    cases h.2
    rfl
  | redactedThinking _ =>
    cases h
    rfl
  | toolUse _ _ _ deltas =>
    simp only [ContentBlock.native, Option.map_eq_some_iff] at h
    obtain ⟨x, hx, rfl⟩ := h
    simp [ContentBlock.visible, hx, portable, nativeToolUse, Kernel.Json.get, asStr, asObject, Block.json]

theorem Ended.portable_payload (h : Ended codec r blocks reason) {state : ProviderState}
    (hstate : .providerState state ∈ blocks) :
    ∃ natives, state.payload = .array natives ∧ natives.filterMap Sse.portable = (portableBlocks blocks).map Block.json := by
  obtain ⟨hopen, hall, hpayload⟩ := h.native state hstate
  refine ⟨_, hpayload, ?_⟩
  rw [h.portable, hopen, Option.toList_none, List.filterMap_nil, append_nil, List.filterMap_filterMap,
    List.map_filterMap]
  refine List.filterMap_congr fun c hc => ?_
  obtain ⟨j, hj⟩ := Option.isSome_iff_exists.1 (hall c hc)
  rw [hj]
  exact portable_native hj

theorem Ended.tools (h : Ended codec r blocks reason) : blocks.filterMap Block.tool? =
    (r.closed.filterMap (ContentBlock.visible codec)).filterMap Block.tool? := by
  have hcut : (r.opened.toList.filterMap ContentBlock.cut).filterMap Block.tool? = [] := by
    refine List.filterMap_eq_nil_iff.2 fun b hb => ?_
    obtain ⟨c, -, hc⟩ := List.mem_filterMap.1 hb
    cases c with
    | text start deltas =>
      simp only [ContentBlock.cut, Option.ite_none_left_eq_some] at hc
      exact Option.some.inj hc.2 ▸ rfl
    | thinking start deltas _ =>
      simp only [ContentBlock.cut, Option.ite_none_left_eq_some] at hc
      exact Option.some.inj hc.2 ▸ rfl
    | redactedThinking _ => cases hc
    | toolUse _ _ _ deltas => cases hc
  have hstate : ∀ b : Block, b.isProviderState = true → b.tool? = none := by
    intro b hb
    cases b <;> first | rfl | cases hb
  rw [← filterMap_portableBlocks hstate, h.portable, filterMap_append, hcut, append_nil]

theorem Ended.said (h : Ended codec r blocks reason) :
    String.join (blocks.filterMap Block.text?) = String.join (r.contents.map fun c => c.textStart ++ c.textDeltas) ∧
      String.join (blocks.filterMap Block.thinking?) =
        String.join (r.contents.map fun c => c.thinkingStart ++ c.thinkingDeltas) := by
  constructor
  all_goals
    refine h.join (fun b hb => ?_) (fun c => ?_) (fun c => ?_)
    · cases b <;> first | rfl | cases hb
    · cases c with
      | toolUse _ _ input deltas =>
        simp only [ContentBlock.visible]
        cases ContentBlock.callInput codec input deltas <;> rfl
      | _ => rfl
    · cases c with
      | text start deltas | thinking start deltas signature =>
        by_cases hc : start ++ String.join deltas = ""
        · simp [ContentBlock.cut, ContentBlock.textStart, ContentBlock.textDeltas, ContentBlock.thinkingStart,
            ContentBlock.thinkingDeltas, hc]
        · simp [ContentBlock.cut, ContentBlock.textStart, ContentBlock.textDeltas, ContentBlock.thinkingStart,
            ContentBlock.thinkingDeltas, hc, Block.text?, Block.thinking?]
      | _ => rfl

/-- **What a completed turn says agrees with what was emitted exactly when no block started with text.**  Tool calls and
the native continuation always agree; a text that comes with the start of its block is never emitted. -/
theorem turn_faithful_iff (codec : Codec) (limits : Limits) (scope : String) (frames : List SseFrame) {p' : StreamParser}
    {items : List StreamItem} (hok : StreamParser.pushAll codec limits { routeScope := scope } frames = .ok (p', items))
    {blocks : List Block} {reason : StopReason} {usage : Usage} (hturn : .turnComplete blocks reason usage ∈ items) :
    Faithful items blocks ↔ ∀ c ∈ contentBlocks codec frames, c.textStart = "" ∧ c.thinkingStart = "" := by
  obtain ⟨_, before, notices, hfollows, rfl, hnotices, hended⟩ := turn_ended hok hturn
  have htext : emittedText (notices ++ [StreamItem.turnComplete blocks reason usage]) = "" := by
    rw [emittedText, filterMap_notices _ hnotices (fun _ => rfl) rfl, String.join_nil]
  have hthinking : emittedThinking (notices ++ [StreamItem.turnComplete blocks reason usage]) = "" := by
    rw [emittedThinking, filterMap_notices _ hnotices (fun _ => rfl) rfl, String.join_nil]
  have htools : (notices ++ [StreamItem.turnComplete blocks reason usage]).filterMap StreamItem.tool? = [] :=
    filterMap_notices _ hnotices (fun _ => rfl) rfl
  have htext' : emittedText (before ++ (notices ++ [StreamItem.turnComplete blocks reason usage])) =
      String.join ((contentBlocks codec frames).map ContentBlock.textDeltas) := by
    rw [emittedText_append, htext, String.append_empty, hfollows.text]
    rfl
  have hthinking' : emittedThinking (before ++ (notices ++ [StreamItem.turnComplete blocks reason usage])) =
      String.join ((contentBlocks codec frames).map ContentBlock.thinkingDeltas) := by
    rw [emittedThinking_append, hthinking, String.append_empty, hfollows.thinking]
    rfl
  have hstarts := join_starts_iff ContentBlock.textStart ContentBlock.textDeltas (contentBlocks codec frames)
  have hstarts' := join_starts_iff ContentBlock.thinkingStart ContentBlock.thinkingDeltas (contentBlocks codec frames)
  constructor
  · intro h
    have h1 := h.text
    have h2 := h.thinking
    rw [htext', hended.said.1] at h1
    rw [hthinking', hended.said.2] at h2
    exact fun c hc => ⟨hstarts.1 h1 c hc, hstarts'.1 h2 c hc⟩
  · intro h
    refine ⟨?_, ?_, ?_, fun state hstate => hended.portable_payload hstate⟩
    · rw [htext', hended.said.1]
      exact hstarts.2 fun c hc => (h c hc).1
    · rw [hthinking', hended.said.2]
      exact hstarts'.2 fun c hc => (h c hc).2
    · rw [filterMap_append, htools, append_nil, hfollows.tools, hfollows.holds.blocks, hended.tools]

end Faithful

section Forgiven

/-- What a result may hold for a content block: nothing, or the block with its whole content. -/
inductive Denotes (codec : Codec) : ContentBlock → Option Block → Prop
  | missing (c : ContentBlock) : Denotes codec c none
  | text (start : String) (deltas : List String) :
      Denotes codec (.text start deltas) (some (.text (start ++ String.join deltas)))
  | thinking (start : String) (deltas signature : List String) :
      Denotes codec (.thinking start deltas signature) (some (.thinking (start ++ String.join deltas)))
  | toolUse (id name : String) (start input : Json) (deltas : List String)
      (h : ContentBlock.callInput codec start deltas = some input) :
      Denotes codec (.toolUse id name start deltas) (some (.toolUse ⟨id, name, input⟩))

def ContentBlock.fragile : ContentBlock → Bool
  | .thinking _ _ _ | .toolUse _ _ _ _ => true
  | _ => false

/-- A tool call or reasoning that the result lacks, or reasoning that came without its signature. -/
def Lost (c : ContentBlock) (slot : Option Block) : Prop := c.fragile = true ∧ (slot = none ∨ c.unsigned = true)

/-- The result has the block, redacted reasoning in its native continuation. -/
def Present (blocks : List Block) (slot : Option Block) : ContentBlock → Prop
  | .redactedThinking data => ∃ state natives, .providerState state ∈ blocks ∧ state.payload = .array natives ∧
      nativeRedacted data ∈ natives
  | _ => slot ≠ none

/-- The portable blocks of the result are those of the stream in order, and what is lost of them is the last block of an
answer that was cut off. -/
def OnlyLastForgiven (codec : Codec) (contents : List ContentBlock) (blocks : List Block) (reason : StopReason) : Prop :=
  ∃ slots : List (Option Block), List.Forall₂ (Denotes codec) contents slots ∧
    slots.reduceOption = portableBlocks blocks ∧
    (reason = .maxTokens → ∀ x ∈ (contents.zip slots).dropLast, ¬ Lost x.1 x.2) ∧
    (reason ≠ .maxTokens → ∀ x ∈ contents.zip slots, Present blocks x.2 x.1)

variable {codec : Codec} {limits : Limits} {r : Reading} {blocks : List Block} {reason : StopReason}

theorem denotes_visible (c : ContentBlock) : Denotes codec c (c.visible codec) := by
  cases c with
  | text start deltas => exact .text start deltas
  | thinking start deltas signature => exact .thinking start deltas signature
  | redactedThinking _ => exact .missing _
  | toolUse id name input deltas =>
    simp only [ContentBlock.visible]
    cases h : ContentBlock.callInput codec input deltas with
    | none => exact .missing _
    | some x => exact .toolUse id name input x deltas h

theorem denotes_cut (c : ContentBlock) : Denotes codec c c.cut := by
  cases c with
  | text start deltas =>
    simp only [ContentBlock.cut]
    split
    · exact .missing _
    · exact .text start deltas
  | thinking start deltas signature =>
    simp only [ContentBlock.cut]
    split
    · exact .missing _
    · exact .thinking start deltas signature
  | redactedThinking _ => exact .missing _
  | toolUse _ _ _ deltas => exact .missing _

def Reading.slots (codec : Codec) (r : Reading) : List (Option Block) :=
  r.closed.map (ContentBlock.visible codec) ++ r.opened.toList.map ContentBlock.cut

theorem forall₂_slots (r : Reading) : List.Forall₂ (Denotes codec) r.contents (r.slots codec) := by
  refine List.rel_append ?_ ?_
  · exact List.forall₂_map_right_iff.2 (List.forall₂_same.2 fun c _ => denotes_visible c)
  · exact List.forall₂_map_right_iff.2 (List.forall₂_same.2 fun c _ => denotes_cut c)

theorem reduceOption_slots (r : Reading) : (r.slots codec).reduceOption =
    r.closed.filterMap (ContentBlock.visible codec) ++ r.opened.toList.filterMap ContentBlock.cut := by
  show (r.slots codec).filterMap id = _
  simp [Reading.slots, filterMap_append, List.filterMap_map]

variable {c : ContentBlock}

theorem visible_of_sound (hfragile : c.fragile = true) (h : c.badCall codec = false) : c.visible codec ≠ none := by
  cases c with
  | text start deltas => cases hfragile
  | thinking start deltas _ => exact Option.some_ne_none _
  | redactedThinking _ => cases hfragile
  | toolUse _ _ input deltas =>
    simp only [ContentBlock.visible]
    cases hc : ContentBlock.callInput codec input deltas with
    | none => simp [ContentBlock.badCall, hc] at h
    | some x => exact Option.some_ne_none _

theorem zip_map_self {α β : Type} (f : α → β) (l : List α) : l.zip (l.map f) = l.map (fun a => (a, f a)) := by
  induction l with
  | nil => rfl
  | cons a l ih => rw [map_cons, List.zip_cons_cons, ih, map_cons]

theorem mem_zip_dropLast {α β : Type} {l : List α} {l' : List β} (hlength : l.length = l'.length) {a : α}
    (ha : a ∈ l.dropLast) : ∃ b, (a, b) ∈ (l.zip l').dropLast := by
  have hne : l ≠ [] := by
    rintro rfl
    cases ha
  have hne' : l' ≠ [] := by
    rintro rfl
    exact hne (List.length_eq_zero_iff.1 hlength)
  have hinit : l.dropLast.length = l'.dropLast.length := by
    rw [List.length_dropLast, List.length_dropLast, hlength]
  have hzip : l.zip l' = l.dropLast.zip l'.dropLast ++ [(l.getLast hne, l'.getLast hne')] := by
    conv_lhs => rw [← List.dropLast_concat_getLast hne, ← List.dropLast_concat_getLast hne']
    rw [List.zip_append hinit]
    rfl
  rw [hzip, List.dropLast_concat]
  obtain ⟨i, hi, rfl⟩ := List.getElem_of_mem ha
  exact ⟨l'.dropLast[i], List.mem_iff_getElem.2 ⟨i, by simp [List.length_zip, hinit] at hi ⊢; omega, by simp⟩⟩

theorem mem_dropLast_zip {x : ContentBlock × Option Block} (h : x ∈ (r.contents.zip (r.slots codec)).dropLast) :
    x.1 ∈ r.contents.dropLast ∧ x.2 = x.1.visible codec := by
  have hzip : r.contents.zip (r.slots codec) = r.closed.map (fun c => (c, c.visible codec)) ++
      r.opened.toList.map (fun c => (c, c.cut)) := by
    rw [Reading.contents, Reading.slots, List.zip_append (by rw [List.length_map]), zip_map_self, zip_map_self]
  rw [hzip] at h
  cases hopened : r.opened with
  | none =>
    rw [hopened, Option.toList_none, map_nil, append_nil, ← List.map_dropLast] at h
    obtain ⟨c, hc, rfl⟩ := List.mem_map.1 h
    rw [Reading.contents, hopened, Option.toList_none, append_nil]
    exact ⟨hc, rfl⟩
  | some _ =>
    rw [hopened, Option.toList_some, List.map_singleton, List.dropLast_concat] at h
    obtain ⟨c, hc, rfl⟩ := List.mem_map.1 h
    rw [Reading.contents, hopened, Option.toList_some, List.dropLast_concat]
    exact ⟨hc, rfl⟩

theorem Ended.present (h : Ended codec r blocks reason) (hreason : reason ≠ .maxTokens) :
    ∀ x ∈ r.contents.zip (r.slots codec), Present blocks x.2 x.1 := by
  obtain ⟨hopen, hgood, hattached⟩ := h.kept hreason
  have hzip : r.contents.zip (r.slots codec) = r.closed.map (fun c => (c, c.visible codec)) := by
    rw [Reading.contents, Reading.slots, hopen, Option.toList_none, map_nil, append_nil, append_nil, zip_map_self]
  rw [hzip]
  intro x hx
  obtain ⟨c, hc, rfl⟩ := List.mem_map.1 hx
  cases c with
  | text start deltas => exact Option.some_ne_none _
  | thinking start deltas _ => exact Option.some_ne_none _
  | toolUse _ _ _ deltas => exact visible_of_sound rfl (hgood _ hc).1
  | redactedThinking _ =>
    obtain ⟨state, hstate⟩ := hattached (List.ne_nil_of_mem hc)
    exact ⟨state, _, hstate, (h.native state hstate).2.2, List.mem_filterMap.2 ⟨_, hc, rfl⟩⟩

theorem Denotes.badCall {slot : Option Block} (h : Denotes codec c slot) (hkept : c.fragile = true → slot ≠ none) :
    c.badCall codec = false := by
  cases h with
  | missing =>
    cases c with
    | toolUse id name input deltas => cases hkept rfl rfl
    | _ => rfl
  | text start deltas => rfl
  | thinking start deltas _ => rfl
  | toolUse id name start input deltas hinput => simp [ContentBlock.badCall, hinput]

theorem OnlyLastForgiven.sound {contents : List ContentBlock} (h : OnlyLastForgiven codec contents blocks .maxTokens)
    (hc : c ∈ contents.dropLast) : c.badCall codec = false ∧ c.unsigned = false := by
  obtain ⟨_, hdenotes, -, hmax, -⟩ := h
  obtain ⟨slot, hslot⟩ := mem_zip_dropLast hdenotes.length_eq hc
  have hdenote : Denotes codec c slot := (List.forall₂_iff_zip.1 hdenotes).2 (List.dropLast_subset _ hslot)
  have hkept := hmax rfl (c, slot) hslot
  refine ⟨hdenote.badCall fun hfragile hnone => hkept ⟨hfragile, .inl hnone⟩, ?_⟩
  cases c with
  | thinking _ _ _ => exact Bool.not_eq_true _ ▸ fun hu => hkept ⟨rfl, .inr hu⟩
  | _ => rfl

/-- **Only a cut-off last block is forgiven exactly when every block before the last is sound**: each tool call has an
object for its input and each reasoning block its signature. -/
theorem only_last_forgiven_iff (codec : Codec) (limits : Limits) (scope : String) (frames : List SseFrame)
    {p' : StreamParser} {items : List StreamItem}
    (hok : StreamParser.pushAll codec limits { routeScope := scope } frames = .ok (p', items))
    {blocks : List Block} {reason : StopReason} {usage : Usage} (hturn : .turnComplete blocks reason usage ∈ items) :
    OnlyLastForgiven codec (contentBlocks codec frames) blocks reason ↔
      ∀ c ∈ (contentBlocks codec frames).dropLast, c.badCall codec = false ∧ c.unsigned = false := by
  obtain ⟨_, before, _, -, -, -, hended⟩ := turn_ended hok hturn
  constructor
  · intro h c hc
    by_cases hreason : reason = .maxTokens
    · rw [hreason] at h
      exact h.sound hc
    · obtain ⟨hopen, hgood, -⟩ := hended.kept hreason
      have hclosed : contentBlocks codec frames = (frames.foldl (Reading.frame codec) {}).closed := by
        rw [contentBlocks, Reading.contents, hopen, Option.toList_none, append_nil]
      rw [hclosed] at hc
      exact hgood c (List.dropLast_subset _ hc)
  · intro h
    refine ⟨_, forall₂_slots _, by rw [reduceOption_slots, hended.portable], fun _ x hx => ?_, hended.present⟩
    obtain ⟨hmem, hslot⟩ := mem_dropLast_zip hx
    obtain ⟨hcall, hsigned⟩ := h x.1 hmem
    rintro ⟨hfragile, hnone | hunsigned⟩
    · exact visible_of_sound hfragile hcall (hslot ▸ hnone)
    · rw [hsigned] at hunsigned
      cases hunsigned

end Forgiven

section Scene

mutual

def plainLen : Json → Nat
  | .null => 4
  | .bool b => if b then 4 else 5
  | .posInt n => n.repr.length
  | .negInt n => n.repr.length
  | .float _ => 0
  | .string s => s.utf8ByteSize + 2
  | .array items => itemsLen items + 1
  | .object fields => fieldsLen fields + 1

/-- Each item with the bracket or the comma in front of it. -/
def itemsLen : List Json → Nat
  | [] => 1
  | [v] => plainLen v + 1
  | v :: w :: items => plainLen v + 1 + itemsLen (w :: items)

def fieldsLen : List (String × Json) → Nat
  | [] => 1
  | [(k, v)] => k.utf8ByteSize + 3 + plainLen v + 1
  | (k, v) :: w :: fields => k.utf8ByteSize + 3 + plainLen v + 1 + fieldsLen (w :: fields)

end

def sceneStart (index : Nat) (block : List (String × Json)) : Json :=
  .object [("content_block", .object block), ("index", .posInt index)]

def sceneDelta (index : Nat) (type key text : String) : Json :=
  .object [("delta", .object [(key, .string text), ("type", .string type)]), ("index", .posInt index)]

def sceneEnd (reason : String) : Json :=
  .object [("delta", .object [("stop_reason", .string reason)]), ("usage", .object [("output_tokens", .posInt 1)])]

def sceneTexts : List (String × Json) :=
  [("\x7b\x7d", .object []), ("\x7b\"message\":\x7b\"usage\":\x7b\"input_tokens\":1\x7d\x7d\x7d",
     .object [("message", .object [("usage", .object [("input_tokens", .posInt 1)])])]),
   ("\x7b\"content_block\":\x7b\"text\":\"\",\"type\":\"text\"\x7d,\"index\":0\x7d",
     sceneStart 0 [("text", .string ""), ("type", .string "text")]),
   ("\x7b\"content_block\":\x7b\"text\":\"Hi\",\"type\":\"text\"\x7d,\"index\":0\x7d",
     sceneStart 0 [("text", .string "Hi"), ("type", .string "text")]),
   ("\x7b\"delta\":\x7b\"text\":\"Hi\",\"type\":\"text_delta\"\x7d,\"index\":0\x7d",
     sceneDelta 0 "text_delta" "text" "Hi"),
   ("\x7b\"content_block\":\x7b\"id\":\"a\",\"input\":\x7b\x7d,\"name\":\"run\",\"type\":\"tool_use\"\x7d,\"index\":0\x7d",
     sceneStart 0 [("id", .string "a"), ("input", .object []), ("name", .string "run"), ("type", .string "tool_use")]),
   ("\x7b\"delta\":\x7b\"partial_json\":\"\x7b\",\"type\":\"input_json_delta\"\x7d,\"index\":0\x7d",
     sceneDelta 0 "input_json_delta" "partial_json" "\x7b"),
   ("\x7b\"content_block\":\x7b\"text\":\"\",\"type\":\"text\"\x7d,\"index\":1\x7d",
     sceneStart 1 [("text", .string ""), ("type", .string "text")]),
   ("\x7b\"index\":0\x7d", .object [("index", .posInt 0)]),
   ("\x7b\"index\":1\x7d", .object [("index", .posInt 1)]),
   ("\x7b\"delta\":\x7b\"stop_reason\":\"end_turn\"\x7d,\"usage\":\x7b\"output_tokens\":1\x7d\x7d", sceneEnd "end_turn"),
   ("\x7b\"delta\":\x7b\"stop_reason\":\"max_tokens\"\x7d,\"usage\":\x7b\"output_tokens\":1\x7d\x7d",
     sceneEnd "max_tokens")]

def sceneCodec : Codec where
  parse text := match sceneTexts.lookup text with
    | some v => .ok v
    | none => .error .eof
  encodedLen := plainLen

/-- The scene's frames: an event, and where its text stands in the list of texts. -/
def sceneFrames (frames : List (String × Nat)) : List SseFrame :=
  frames.map fun f => ⟨f.1, (sceneTexts[f.2]?.map Prod.fst).getD ""⟩

/-- A text block that starts with nothing and gets a delta. -/
def deltaScene : List SseFrame := sceneFrames [("message_start", 1), ("content_block_start", 2), ("content_block_delta", 4),
  ("content_block_stop", 8), ("message_delta", 10), ("message_stop", 0)]

def startScene : List SseFrame := sceneFrames [("message_start", 1), ("content_block_start", 3), ("content_block_stop", 8),
  ("message_delta", 10), ("message_stop", 0)]

def cutScene : List SseFrame := sceneFrames [("message_start", 1), ("content_block_start", 5), ("content_block_delta", 6),
  ("content_block_stop", 8), ("message_delta", 11), ("message_stop", 0)]

/-- A tool call with broken arguments, and a text block after it. -/
def brokenScene : List SseFrame := sceneFrames [("message_start", 1), ("content_block_start", 5), ("content_block_delta", 6),
  ("content_block_stop", 8), ("content_block_start", 7), ("content_block_stop", 9), ("message_delta", 11), ("message_stop", 0)]

/-- Whether the stream ends a turn that passes the check. -/
def endsTurn (check : List StreamItem → List Block → StopReason → Bool) (frames : List SseFrame) : Bool :=
  (StreamParser.pushAll sceneCodec {} { routeScope := "route" } frames).toOption.any fun x =>
    x.2.any fun i => match i with
      | .turnComplete blocks reason _ => check x.2 blocks reason
      | _ => false

theorem exists_turn {check : List StreamItem → List Block → StopReason → Bool} {frames : List SseFrame}
    (h : endsTurn check frames = true) : ∃ p' items blocks reason usage,
      StreamParser.pushAll sceneCodec {} { routeScope := "route" } frames = .ok (p', items) ∧
      .turnComplete blocks reason usage ∈ items ∧ check items blocks reason = true := by
  obtain ⟨⟨p', items⟩, hx, hany⟩ := (Option.any_eq_true _ _).1 h
  obtain ⟨i, hi, hcheck⟩ := List.any_eq_true.1 hany
  cases hrun : StreamParser.pushAll sceneCodec {} { routeScope := "route" } frames with
  | error e =>
    rw [hrun] at hx
    cases hx
  | ok x =>
    rw [hrun] at hx
    cases hx
    cases i with
    | turnComplete blocks reason usage => exact ⟨p', items, blocks, reason, usage, rfl, hi, hcheck⟩
    | _ => cases hcheck

theorem scenes_end : (endsTurn (fun _ _ _ => (contentBlocks sceneCodec deltaScene).all fun c =>
        decide (c.textStart = "" ∧ c.thinkingStart = "")) deltaScene &&
      endsTurn (fun items blocks _ => decide (emittedText items ≠ String.join (blocks.filterMap Block.text?))) startScene &&
      endsTurn (fun _ _ _ => (contentBlocks sceneCodec cutScene).dropLast.all fun c =>
        !c.badCall sceneCodec && !c.unsigned) cutScene && endsTurn (fun _ _ reason => decide (reason = .maxTokens) &&
        (contentBlocks sceneCodec brokenScene).dropLast.any fun c => c.badCall sceneCodec) brokenScene) = true := by
  decide +kernel

/-- A text that comes in deltas is emitted as it stands in the result. -/
theorem turn_faithful_iff_delta : ∃ p' items blocks reason usage,
    StreamParser.pushAll sceneCodec {} { routeScope := "route" } deltaScene = .ok (p', items) ∧
    .turnComplete blocks reason usage ∈ items ∧ Faithful items blocks := by
  have hscenes := scenes_end
  simp only [Bool.and_eq_true] at hscenes
  obtain ⟨p', items, blocks, reason, usage, hok, hturn, hempty⟩ := exists_turn hscenes.1.1.1
  have hempty' := fun c hc => of_decide_eq_true (List.all_eq_true.1 hempty c hc)
  exact ⟨p', items, blocks, reason, usage, hok, hturn,
    (turn_faithful_iff sceneCodec {} "route" deltaScene hok hturn).2 hempty'⟩

/-- A text that comes with the start of its block is in the result and was never emitted. -/
theorem not_turn_faithful : ¬ ∀ (codec : Codec) (limits : Limits) (scope : String) (frames : List SseFrame)
    (p' : StreamParser) (items : List StreamItem) (blocks : List Block) (reason : StopReason) (usage : Usage),
    StreamParser.pushAll codec limits { routeScope := scope } frames = .ok (p', items) →
    .turnComplete blocks reason usage ∈ items → Faithful items blocks := by
  intro h
  have hscenes := scenes_end
  simp only [Bool.and_eq_true] at hscenes
  obtain ⟨p', items, blocks, reason, usage, hok, hturn, hdiffers⟩ := exists_turn hscenes.1.1.2
  exact of_decide_eq_true hdiffers (h sceneCodec {} "route" startScene p' items blocks reason usage hok hturn).text

/-- A tool call whose arguments were cut off is the last block. -/
theorem only_last_forgiven_iff_cut : ∃ p' items blocks reason usage,
    StreamParser.pushAll sceneCodec {} { routeScope := "route" } cutScene = .ok (p', items) ∧
    .turnComplete blocks reason usage ∈ items ∧
    OnlyLastForgiven sceneCodec (contentBlocks sceneCodec cutScene) blocks reason := by
  have hscenes := scenes_end
  simp only [Bool.and_eq_true] at hscenes
  obtain ⟨p', items, blocks, reason, usage, hok, hturn, hsound⟩ := exists_turn hscenes.1.2
  refine ⟨p', items, blocks, reason, usage, hok, hturn,
    (only_last_forgiven_iff sceneCodec {} "route" cutScene hok hturn).2 fun c hc => ?_⟩
  simpa using List.all_eq_true.1 hsound c hc

/-- A tool call with broken arguments is forgiven although a block follows it. -/
theorem not_only_last_forgiven : ¬ ∀ (codec : Codec) (limits : Limits) (scope : String) (frames : List SseFrame)
    (p' : StreamParser) (items : List StreamItem) (blocks : List Block) (reason : StopReason) (usage : Usage),
    StreamParser.pushAll codec limits { routeScope := scope } frames = .ok (p', items) →
    .turnComplete blocks reason usage ∈ items → OnlyLastForgiven codec (contentBlocks codec frames) blocks reason := by
  intro h
  have hscenes := scenes_end
  simp only [Bool.and_eq_true] at hscenes
  obtain ⟨p', items, blocks, reason, usage, hok, hturn, hbroken⟩ := exists_turn hscenes.2
  rw [Bool.and_eq_true, decide_eq_true_eq] at hbroken
  obtain ⟨rfl, hany⟩ := hbroken
  obtain ⟨c, hc, hbad⟩ := List.any_eq_true.1 hany
  have hforgiven := h sceneCodec {} "route" brokenScene p' items blocks _ usage hok hturn
  rw [(hforgiven.sound hc).1] at hbad
  cases hbad

end Scene

end Iteron.Sse
