import Iteron.TranscriptReplay
/-!
# TranscriptValid — which records project to a transcript a provider accepts

A record is a sequence of episodes: what the operator says, replies, the terminals of their tool calls, and the message
with their results.  A crash may fall anywhere, and what a resumed session says next is recorded behind it.  The
projection repairs the end of the record only, so it is valid exactly when no message of the operator was recorded over
calls that had no results yet (`provider_valid_iff`).
-/
namespace Iteron.Transcript

/-- **A transcript a provider accepts**: every assistant message with tool calls is followed by a user message with a
result for each, and every result answers a call of the assistant message before it. -/
structure ProviderValid (messages : List Message) : Prop where
  answered : ∀ i (a : Message), messages[i]? = some a → a.role = .assistant → ∀ c ∈ a.calls,
    ∃ b : Message, messages[i + 1]? = some b ∧ b.role = .user ∧ ∃ r ∈ b.results, r.toolUseId = c.id
  asked : ∀ i (b : Message), messages[i]? = some b → ∀ r ∈ b.results,
    ∃ j, ∃ a : Message, i = j + 1 ∧ messages[j]? = some a ∧ a.role = .assistant ∧ ∃ c ∈ a.calls, c.id = r.toolUseId

/-- The results of a message answer these calls, all of them and no other. -/
structure Answers (calls : List ToolUse) (results : List ToolResult) : Prop where
  each : ∀ c ∈ calls, ∃ r ∈ results, r.toolUseId = c.id
  only : ∀ r ∈ results, ∃ c ∈ calls, c.id = r.toolUseId

/-- **The records a session leaves behind**, with the calls that have no results yet, and whether the operator spoke over
such calls. -/
inductive History : List Event → List ToolUse → Bool → Prop
  | nil : History [] [] false
  | say {es : List Event} {calls : List ToolUse} {spoke : Bool} (seq turn : Nat) (m : Message) : Spoken m →
      History es calls spoke →
      History (es ++ [{ seq := seq, turn := turn, kind := .message m }]) [] (spoke || !calls.isEmpty)
  | reply {es : List Event} {spoke : Bool} (seq turn : Nat) (m : Message) : m.role = .assistant → m.results = [] →
      History es [] spoke → History (es ++ [{ seq := seq, turn := turn, kind := .message m }]) m.calls spoke
  | results {es : List Event} {calls : List ToolUse} {spoke : Bool} (seq turn : Nat) (m : Message) : m.role = .user →
      calls ≠ [] → Answers calls m.results → History es calls spoke →
      History (es ++ [{ seq := seq, turn := turn, kind := .message m }]) [] spoke
  | note {es : List Event} {calls : List ToolUse} {spoke : Bool} (seq turn : Nat) (kind : EventKind) :
      (∀ m, kind ≠ .message m) → (∀ ms, kind ≠ .compaction ms) → History es calls spoke →
      History (es ++ [{ seq := seq, turn := turn, kind := kind }]) calls spoke

/-! ## Chains of messages -/

/-- What a message asks of the next one, and what the next one's results ask of it. -/
def Link (a b : Message) : Prop :=
  (a.isCall = true → b.role = .user ∧ ∀ c ∈ a.calls, ∃ r ∈ b.results, r.toolUseId = c.id) ∧
    ∀ r ∈ b.results, a.role = .assistant ∧ ∃ c ∈ a.calls, c.id = r.toolUseId

/-- Linked messages of which the first has no results. -/
structure Linked (messages : List Message) : Prop where
  chain : messages.IsChain Link
  first : ∀ m ∈ messages.head?, m.results = []

variable {xs : List Message} {m : Message}

theorem linked_concat (h : Linked xs) (hlast : ∀ a ∈ xs.getLast?, Link a m)
    (hfirst : xs = [] → m.results = []) : Linked (xs ++ [m]) := by
  refine ⟨List.isChain_append.2 ⟨h.chain, List.isChain_singleton m, fun a ha b hb => ?_⟩, fun x hx => ?_⟩
  · rw [List.head?_cons, Option.mem_some_iff] at hb
    subst hb
    exact hlast a ha
  · cases xs with
    | nil =>
      rw [List.nil_append, List.head?_cons, Option.mem_some_iff] at hx
      subst hx
      exact hfirst rfl
    | cons a xs => exact h.first x (by simpa using hx)

theorem Linked.of_concat (h : Linked (xs ++ [m])) :
    Linked xs ∧ (∀ a ∈ xs.getLast?, Link a m) ∧ (xs = [] → m.results = []) := by
  have hsplit := List.isChain_append.1 h.chain
  refine ⟨⟨hsplit.1, fun x hx => h.first x ?_⟩, fun a ha => hsplit.2.2 a ha m (by simp), fun hnil => ?_⟩
  · rw [List.head?_append, hx]
    rfl
  · subst hnil
    exact h.first m (by simp)

theorem isCall_eq_true : m.isCall = true ↔ m.role = .assistant ∧ m.calls ≠ [] := by
  simp [Message.isCall]

theorem Linked.providerValid (h : Linked xs) (hlast : xs.getLast?.any Message.isCall = false) : ProviderValid xs := by
  have hpair : ∀ i a b, xs[i]? = some a → xs[i + 1]? = some b → Link a b := by
    intro i a b ha hb
    obtain ⟨hi, rfl⟩ := List.getElem?_eq_some_iff.1 ha
    obtain ⟨hi', rfl⟩ := List.getElem?_eq_some_iff.1 hb
    exact List.isChain_iff_getElem.1 h.chain i hi'
  constructor
  · intro i a ha hrole c hc
    have hcall : a.isCall = true := isCall_eq_true.2 ⟨hrole, List.ne_nil_of_mem hc⟩
    cases hb : xs[i + 1]? with
    | some b =>
      obtain ⟨huser, heach⟩ := (hpair i a b ha hb).1 hcall
      exact ⟨b, rfl, huser, heach c hc⟩
    | none =>
      obtain ⟨hi, rfl⟩ := List.getElem?_eq_some_iff.1 ha
      have hend : xs.length = i + 1 := by
        rw [List.getElem?_eq_none_iff] at hb
        omega
      rw [List.getLast?_eq_getElem?, hend, Nat.add_sub_cancel, ha] at hlast
      exact absurd hcall (by simpa using hlast)
  · intro i b hb r hr
    cases i with
    | zero =>
      have hnone := h.first b (by rw [List.head?_eq_getElem?]; exact hb)
      rw [hnone] at hr
      cases hr
    | succ j =>
      obtain ⟨_, -⟩ := List.getElem?_eq_some_iff.1 hb
      obtain ⟨a, ha⟩ : ∃ a, xs[j]? = some a := ⟨_, List.getElem?_eq_getElem (by omega)⟩
      obtain ⟨hrole, hc⟩ := (hpair j a b ha hb).2 r hr
      exact ⟨j, a, rfl, ha, hrole, hc⟩

theorem Linked.trim_eq (h : Linked xs) (hlast : xs.getLast?.any Message.isCall = false) : trim xs = xs := by
  rcases List.eq_nil_or_concat xs with rfl | ⟨ys, m, rfl⟩
  · rfl
  rw [List.concat_eq_append] at h hlast ⊢
  rw [List.getLast?_concat] at hlast
  refine trim_of_not_dangling ?_
  have hm : m.isCall = false := hlast
  obtain ⟨-, hlink, hfirst⟩ := h.of_concat
  unfold dangling
  rw [hm, Bool.false_or, List.head?_reverse]
  cases hres : m.isResult with
  | false => rfl
  | true =>
    have hne : m.results ≠ [] := by simpa [Message.isResult] using (Bool.and_eq_true_iff.1 hres).2
    obtain ⟨r, hr⟩ := List.exists_mem_of_ne_nil _ hne
    cases hl : ys.getLast? with
    | none => cases hne (hfirst (List.getLast?_eq_none_iff.1 hl))
    | some a =>
      obtain ⟨hrole, c, hc, -⟩ := (hlink a hl).2 r hr
      have hcall : a.isCall = true := isCall_eq_true.2 ⟨hrole, List.ne_nil_of_mem hc⟩
      simp [hcall]

theorem trim_of_dangling (h : dangling m xs.reverse = true) : trim (xs ++ [m]) = trim xs := by
  unfold trim
  rw [List.reverse_append, List.reverse_singleton, List.singleton_append, trimRev, if_pos h]

/-! ## Merged records -/

/-- The merged messages end in the calls that have no results yet. -/
def Ends (messages : List Message) (calls : List ToolUse) : Prop :=
  if calls = [] then messages.getLast?.any Message.isCall = false
  else ∃ a ∈ messages.getLast?, a.role = .assistant ∧ a.calls = calls

variable {calls : List ToolUse}

theorem Ends.last_isCall {messages : List Message} (h : Ends messages calls) (hne : calls ≠ []) :
    ∃ a ∈ messages.getLast?, a.isCall = true ∧ a.calls = calls := by
  rw [Ends, if_neg hne] at h
  obtain ⟨a, ha, hrole, hcalls⟩ := h
  exact ⟨a, ha, isCall_eq_true.2 ⟨hrole, hcalls ▸ hne⟩, hcalls⟩

theorem merge_of_assistant (h : m.role = .assistant) : mergeAdjacentUserMessage xs m = xs ++ [m] := by
  rcases List.eq_nil_or_concat xs with rfl | ⟨_, _, rfl⟩
  · rfl
  · rw [List.concat_eq_append, merge_concat, if_neg (by simp [h])]

variable {a : Message}

theorem merge_after_call (ha : a ∈ xs.getLast?) (hcall : a.isCall = true) :
    mergeAdjacentUserMessage xs m = xs ++ [m] := by
  rcases List.eq_nil_or_concat xs with rfl | ⟨_, _, rfl⟩
  · rfl
  · rw [List.concat_eq_append, List.getLast?_concat, Option.mem_some_iff] at ha
    rw [List.concat_eq_append, merge_concat, if_neg]
    rintro ⟨-, hlast⟩
    rw [ha, (isCall_eq_true.1 hcall).1] at hlast
    cases hlast

theorem Spoken.results_eq (h : Spoken m) : m.results = [] := by
  unfold Message.results
  rw [List.filterMap_eq_nil_iff]
  intro b hb
  have := List.all_eq_true.1 h.text b hb
  cases b <;> simp_all [Block.isText, Block.toolResult?]

variable {xs : List Message}

theorem Linked.say {m : Message} (h : Linked xs) (hlast : xs.getLast?.any Message.isCall = false)
    (hm : Spoken m) : Linked (mergeAdjacentUserMessage xs m) := by
  have hnone := hm.results_eq
  rcases List.eq_nil_or_concat xs with rfl | ⟨_, last, rfl⟩
  · exact linked_concat h (by simp) (fun _ => hnone)
  rw [List.concat_eq_append] at h hlast ⊢
  rw [merge_concat]
  split
  · next hboth =>
    obtain ⟨hys, hlink, hfirst⟩ := h.of_concat
    have hres : ({ last with content := joinContent last.content m.content } : Message).results = last.results :=
      results_join hnone
    refine linked_concat hys (fun a ha => ?_) (fun hnil => hres.trans (hfirst hnil))
    obtain ⟨hcall, hasked⟩ := hlink a ha
    unfold Link
    rw [hres]
    exact ⟨fun hc => ⟨hboth.2, (hcall hc).2⟩, hasked⟩
  · refine linked_concat h (fun a ha => ?_) (by simp)
    rw [ha] at hlast
    have hno : a.isCall = false := hlast
    exact ⟨fun hc => absurd hc (by simp [hno]), by simp [hnone]⟩

theorem Linked.reply {m : Message} (h : Linked xs) (hlast : xs.getLast?.any Message.isCall = false)
    (hm : m.results = []) : Linked (xs ++ [m]) := by
  refine linked_concat h (fun a ha => ?_) (fun _ => hm)
  rw [ha] at hlast
  have hno : a.isCall = false := hlast
  exact ⟨fun hc => absurd hc (by simp [hno]), by simp [hm]⟩

theorem Linked.answer (h : Linked xs) (ha : a ∈ xs.getLast?) (hcall : a.isCall = true)
    (huser : m.role = .user) (hm : Answers a.calls m.results) : Linked (xs ++ [m]) := by
  refine linked_concat h (fun a' ha' => ?_) (fun hnil => ?_)
  · rw [ha] at ha'
    cases ha'
    exact ⟨fun _ => ⟨huser, hm.each⟩, fun r hr => ⟨(isCall_eq_true.1 hcall).1, hm.only r hr⟩⟩
  · subst hnil
    cases ha

/-- An assistant message with calls and, behind it, a user message without results. -/
def Broken (messages : List Message) : Prop :=
  ∃ xs, ∃ a u : Message, ∃ ys, messages = xs ++ a :: u :: ys ∧ a.isCall = true ∧ u.role = .user ∧ u.results = []

theorem Broken.append (h : Broken xs) (ys : List Message) : Broken (xs ++ ys) := by
  obtain ⟨us, a, u, vs, rfl, ha, hu, hres⟩ := h
  exact ⟨us, a, u, vs ++ ys, by simp, ha, hu, hres⟩

theorem Broken.say (h : Broken xs) {m : Message} (hm : Spoken m) :
    Broken (mergeAdjacentUserMessage xs m) := by
  obtain ⟨us, a, u, vs, rfl, ha, hu, hres⟩ := h
  rcases List.eq_nil_or_concat vs with rfl | ⟨ws, last, rfl⟩
  · have hsplit : us ++ [a, u] = (us ++ [a]) ++ [u] := by simp
    rw [hsplit, merge_concat, if_pos ⟨hm.user, hu⟩]
    exact ⟨us, a, { u with content := joinContent u.content m.content }, [], by simp, ha, hu,
      (results_join hm.results_eq).trans hres⟩
  · have hsplit : us ++ a :: u :: (ws.concat last) = (us ++ a :: u :: ws) ++ [last] := by simp
    rw [hsplit, merge_concat]
    have hbase : Broken (us ++ a :: u :: ws) := ⟨us, a, u, ws, rfl, ha, hu, hres⟩
    split
    · exact hbase.append _
    · rw [List.append_assoc]
      exact hbase.append _

theorem Broken.trim (h : Broken xs) : Broken (trim xs) := by
  obtain ⟨us, a, u, vs, rfl, ha, hu, hres⟩ := h
  induction vs using List.reverseRecOn with
  | nil =>
    have hsplit : us ++ [a, u] = (us ++ [a]) ++ [u] := by simp
    have hstay : dangling u (us ++ [a]).reverse = false := by
      have hrole : (Role.user == Role.assistant) = false := rfl
      simp [dangling, Message.isCall, Message.isResult, hu, hres, hrole]
    rw [hsplit, trim_of_not_dangling hstay]
    exact ⟨us, a, u, [], by simp, ha, hu, hres⟩
  | append_singleton vs last ih =>
    have hsplit : us ++ a :: u :: (vs ++ [last]) = (us ++ a :: u :: vs) ++ [last] := by simp
    rw [hsplit]
    cases hd : dangling last (us ++ a :: u :: vs).reverse with
    | true =>
      rw [trim_of_dangling hd]
      exact ih
    | false =>
      rw [trim_of_not_dangling hd]
      have hbase : Broken (us ++ a :: u :: vs) := ⟨us, a, u, vs, rfl, ha, hu, hres⟩
      exact hbase.append _

theorem Broken.not_providerValid (h : Broken xs) : ¬ ProviderValid xs := by
  obtain ⟨us, a, u, _, rfl, ha, -, hres⟩ := h
  intro hvalid
  obtain ⟨hrole, hne⟩ := isCall_eq_true.1 ha
  obtain ⟨c, hc⟩ := List.exists_mem_of_ne_nil _ hne
  obtain ⟨b, hb, -, r, hr, -⟩ := hvalid.answered us.length a (by simp) hrole c hc
  have hu : b = u := by simpa using hb.symm
  rw [hu, hres] at hr
  cases hr

/-! ## The projection of a history -/

variable {valid : ToolImage → Bool}

theorem projection_concat (es : List Event) (e : Event) :
    projection valid (es ++ [e]) = observe valid (projection valid es) e := List.foldl_concat ..

/-- What the merged messages of a history look like. -/
structure Shape (messages : List Message) (calls : List ToolUse) (spoke : Bool) : Prop where
  ends : Ends messages calls
  linked : spoke = false → Linked messages
  broken : spoke = true → Broken messages

theorem getLast?_merge_user (h : m.role = .user) :
    (mergeAdjacentUserMessage xs m).getLast?.any Message.isCall = false := by
  have hrole : (Role.user == Role.assistant) = false := rfl
  rcases List.eq_nil_or_concat xs with rfl | ⟨_, _, rfl⟩
  · simp [Message.isCall, h, hrole]
  · rw [List.concat_eq_append, merge_concat]
    split
    · next hboth => simp [Message.isCall, hboth.2, hrole]
    · simp [Message.isCall, h, hrole]

theorem History.shape {es : List Event} {spoke : Bool} (h : History es calls spoke) :
    Shape (mergeAll (projection valid es).messages) calls spoke := by
  induction h with
  | nil => exact ⟨rfl, fun _ => ⟨List.isChain_nil, by simp [projection, Projection.init, mergeAll]⟩, by simp⟩
  | @say es calls spoke seq turn m hm _ ih =>
    rw [projection_concat]
    show Shape (mergeAll ((projection valid es).messages ++ [m])) _ _
    rw [mergeAll_concat]
    refine ⟨?_, fun hover => ?_, fun hover => ?_⟩
    · exact getLast?_merge_user hm.user
    · simp only [Bool.or_eq_false_iff, Bool.not_eq_false', List.isEmpty_iff] at hover
      obtain ⟨hover, rfl⟩ := hover
      have hlast := ih.ends
      exact (ih.linked hover).say hlast hm
    · -- the calls stay open for ever once something else stands behind them
      by_cases hcalls : calls = []
      · subst hcalls
        exact (ih.broken (by simpa using hover)).say hm
      · obtain ⟨a, ha, hcall, -⟩ := ih.ends.last_isCall hcalls
        rw [merge_after_call ha hcall]
        obtain ⟨xs, hxs⟩ : ∃ xs, mergeAll (projection valid es).messages = xs ++ [a] :=
          ⟨_, (List.dropLast_append_getLast? a ha).symm⟩
        exact ⟨xs, a, m, [], by rw [hxs]; simp, hcall, hm.user, hm.results_eq⟩
  | @reply es spoke seq turn m hrole hres _ ih =>
    rw [projection_concat]
    show Shape (mergeAll ((projection valid es).messages ++ [m])) _ _
    have hlast := ih.ends
    rw [mergeAll_concat, merge_of_assistant hrole]
    refine ⟨?_, fun hover => (ih.linked hover).reply hlast hres, fun hover => (ih.broken hover).append _⟩
    unfold Ends
    split
    · next hnone => simp [Message.isCall, hnone]
    · exact ⟨m, by simp, hrole, rfl⟩
  | @results es calls spoke seq turn m huser hne hm _ ih =>
    rw [projection_concat]
    show Shape (mergeAll ((projection valid es).messages ++ [m])) _ _
    obtain ⟨a, ha, hcall, rfl⟩ := ih.ends.last_isCall hne
    rw [mergeAll_concat]
    refine ⟨?_, fun hover => ?_, fun hover => ?_⟩
    · exact getLast?_merge_user huser
    · rw [merge_after_call ha hcall]
      exact (ih.linked hover).answer ha hcall huser hm
    · rw [merge_after_call ha hcall]
      exact (ih.broken hover).append _
  | @note es calls spoke seq turn kind hmessage hcompaction _ ih =>
    have hsame : (projection valid (es ++ [{ seq := seq, turn := turn, kind := kind }])).messages =
        (projection valid es).messages := by
      rw [projection_concat]
      cases kind with
      | message m => cases hmessage m rfl
      | compaction ms => cases hcompaction ms rfl
      | toolDone _ => simp only [observe]; split <;> rfl
      | toolImageObserved _ => simp only [observe]; split <;> rfl
      | other => rfl
    rw [hsame]
    exact ih

/-! ## What the crash did not record -/

def Keyed (p : Projection) : Prop := ∀ entry ∈ p.terminalResults, entry.2.2.toolUseId = entry.1

variable {p : Projection}

theorem keyed_observe (h : Keyed p) (e : Event) : Keyed (observe valid p e) := by
  unfold observe
  cases e.kind with
  | message m => simp [Keyed, Projection.fresh, Projection.init]
  | compaction _ => simp [Keyed, Projection.fresh, Projection.init]
  | toolDone _ =>
    dsimp only
    split
    · intro entry hentry
      rcases List.mem_cons.1 hentry with rfl | hentry
      · rfl
      · exact h entry hentry
    · exact h
  | toolImageObserved _ =>
    dsimp only
    split
    · exact h
    · exact h
  | other => exact h

theorem keyed_projection (es : List Event) : Keyed (projection valid es) := by
  induction es using List.reverseRecOn with
  | nil => simp [Keyed, projection, Projection.init]
  | append_singleton es e ih =>
    rw [projection_concat]
    exact keyed_observe ih e

theorem terminalOf_toolUseId (h : Keyed p) {id : String} {seq : Nat} {result : ToolResult}
    (ht : terminalOf p id = some (seq, result)) : result.toolUseId = id := by
  unfold terminalOf at ht
  unfold Keyed at h
  revert h ht
  induction p.terminalResults with
  | nil => intro _ ht; cases ht
  | cons entry _ ih =>
    intro h ht
    rw [List.lookup_cons] at ht
    split at ht
    · next heq =>
      have hentry := h entry (.head _)
      rw [Option.some.inj ht] at hentry
      rw [hentry]
      exact (beq_iff_eq.1 heq).symm
    · exact ih (fun entry' hentry' => h entry' (.tail _ hentry')) ht

theorem recoverResults_spec {p : Projection} (h : Keyed p) : ∀ (calls : List ToolUse) (used : List String)
    (results images : List Block), images.filterMap Block.toolResult? = [] →
    ∃ rs : List ToolResult, rs.map ToolResult.toolUseId = calls.map ToolUse.id ∧
      (recoverResults p calls used results images).1.filterMap Block.toolResult? = results.filterMap Block.toolResult? ++ rs ∧
      (recoverResults p calls used results images).2.filterMap Block.toolResult? = []
  | [], _, results, images, himages => ⟨[], rfl, by simp [recoverResults], himages⟩
  | call :: calls, used, results, images, himages => by
    have hstep : ∀ (result : ToolResult) (used' : List String) (more : List Block),
        result.toolUseId = call.id → (images ++ more).filterMap Block.toolResult? = [] →
        ∃ rs : List ToolResult, rs.map ToolResult.toolUseId = (call :: calls).map ToolUse.id ∧
          (recoverResults p calls used' (results ++ [.toolResult result]) (images ++ more)).1.filterMap
            Block.toolResult? = results.filterMap Block.toolResult? ++ rs ∧
          (recoverResults p calls used' (results ++ [.toolResult result]) (images ++ more)).2.filterMap
            Block.toolResult? = [] := by
      intro result used' more hid hmore
      obtain ⟨rs, hids, hfirst, hsecond⟩ := recoverResults_spec h calls used' (results ++ [.toolResult result])
        (images ++ more) hmore
      refine ⟨result :: rs, by simp [hid, hids], ?_, hsecond⟩
      rw [hfirst, List.filterMap_append]
      simp [Block.toolResult?]
    simp only [recoverResults]
    split
    · next seq result hterm =>
      have hid : result.toolUseId = call.id := by
        split at hterm
        · cases hterm
        · exact terminalOf_toolUseId h hterm
      refine hstep result (call.id :: used) _ hid ?_
      rw [List.filterMap_append, himages, List.nil_append]
      split
      · rfl
      · rw [List.filterMap_map]
        simp [Function.comp_def, Block.toolResult?]
    · have := hstep (missingTerminal call.id) used [] rfl (by simpa using himages)
      simpa using this

theorem answers_of_map {rs : List ToolResult}
    (h : rs.map ToolResult.toolUseId = calls.map ToolUse.id) : Answers calls rs := by
  constructor
  · intro c hc
    have : c.id ∈ rs.map ToolResult.toolUseId := h ▸ List.mem_map_of_mem hc
    obtain ⟨r, hr, hid⟩ := List.mem_map.1 this
    exact ⟨r, hr, hid⟩
  · intro r hr
    have : r.toolUseId ∈ calls.map ToolUse.id := h ▸ List.mem_map_of_mem hr
    obtain ⟨c, hc, hid⟩ := List.mem_map.1 this
    exact ⟨c, hc, hid⟩

theorem recovered_cases (h : Keyed p) : recovered p = [] ∨ ∃ a ∈ p.messages.getLast?, a.isCall = true ∧
      ∃ m, recovered p = [m] ∧ m.role = .user ∧ Answers a.calls m.results := by
  unfold recovered
  cases hl : p.messages.getLast? with
  | none => exact .inl rfl
  | some a =>
    dsimp only
    split
    · next hif =>
      obtain ⟨_, hids, hfirst, hsecond⟩ := recoverResults_spec h a.calls [] [] [] rfl
      refine .inr ⟨a, rfl, hif.2.2, _, rfl, rfl, ?_⟩
      unfold Message.results
      rw [List.filterMap_append, hfirst, hsecond]
      simpa using answers_of_map hids
    · exact .inl rfl

theorem getLast?_isCall_eq (ha : a ∈ xs.getLast?) (hcall : a.isCall = true) : a ∈ (mergeAll xs).getLast? := by
  rcases List.eq_nil_or_concat xs with rfl | ⟨_, m, rfl⟩
  · cases ha
  · rw [List.concat_eq_append, List.getLast?_concat, Option.mem_some_iff] at ha
    subst ha
    rw [List.concat_eq_append, mergeAll_concat, merge_of_assistant (isCall_eq_true.1 hcall).1]
    simp

/-- **When a record projects to a valid transcript.**  For every history of episodes, with any terminals recorded and any
message of results missing, the projection is one a provider accepts if and only if the operator never spoke over calls
that had no recorded results. -/
theorem provider_valid_iff {es : List Event} {calls : List ToolUse} {spoke : Bool} (h : History es calls spoke) :
    ProviderValid (projectVerifiedMessages valid es) ↔ spoke = false := by
  have hshape : Shape (mergeAll (projection valid es).messages) calls spoke := h.shape
  have hkeyed : Keyed (projection valid es) := keyed_projection es
  unfold projectVerifiedMessages
  rcases recovered_cases hkeyed with hnone | ⟨a, ha, hcall, m, hm, huser, hanswers⟩
  · rw [hnone, List.append_nil, reconcileTranscript]
    cases spoke with
    | true => exact ⟨fun hvalid => absurd hvalid (hshape.broken rfl).trim.not_providerValid, by simp⟩
    | false =>
      refine ⟨fun _ => rfl, fun _ => ?_⟩
      have hlinked := hshape.linked rfl
      by_cases hcalls : calls = []
      · have hlast := hshape.ends
        rw [Ends, if_pos hcalls] at hlast
        rw [hlinked.trim_eq hlast]
        exact hlinked.providerValid hlast
      · -- the unanswered call goes, and what stands before it is no call
        obtain ⟨a, ha, hcall, -⟩ := hshape.ends.last_isCall hcalls
        obtain ⟨xs, hxs⟩ : ∃ xs, mergeAll (projection valid es).messages = xs ++ [a] :=
          ⟨_, (List.dropLast_append_getLast? a ha).symm⟩
        rw [hxs] at hlinked ⊢
        obtain ⟨hbefore, hlink, -⟩ := hlinked.of_concat
        have hlast : xs.getLast?.any Message.isCall = false := by
          cases hl : xs.getLast? with
          | none => rfl
          | some b =>
            cases hb : b.isCall with
            | false => simpa using hb
            | true =>
              have := ((hlink b hl).1 hb).1
              rw [(isCall_eq_true.1 hcall).1] at this
              cases this
        rw [trim_of_dangling (by simp [dangling, hcall]), hbefore.trim_eq hlast]
        exact hbefore.providerValid hlast
  · have hlast := getLast?_isCall_eq ha hcall
    have hend : (mergeAll (projection valid es).messages ++ [m]).getLast?.any Message.isCall = false := by
      have hrole : (Role.user == Role.assistant) = false := rfl
      simp [Message.isCall, huser, hrole]
    rw [hm, reconcileTranscript, mergeAll_concat, merge_after_call hlast hcall]
    cases spoke with
    | true =>
      exact ⟨fun hvalid => absurd hvalid ((hshape.broken rfl).append [m]).trim.not_providerValid, by simp⟩
    | false =>
      have hlinked := (hshape.linked rfl).answer hlast hcall huser hanswers
      rw [hlinked.trim_eq hend]
      exact ⟨fun _ => rfl, fun _ => hlinked.providerValid hend⟩

/-! ## A turn that died in its tools -/

def toolCall : ToolUse := { id := "first", name := "edit", input := .object [] }

def callMessage : Message := { role := .assistant, content := [.toolUse toolCall] }

def doneResult : ToolResult :=
  { toolUseId := "first", content := "already changed the world", isError := false, trust := .workspace, latencyMs := 2 }

def diedInTool : List Event :=
  [{ seq := 0, turn := 0, kind := .message (.userText "task") }, { seq := 1, turn := 0, kind := .message callMessage },
    { seq := 2, turn := 0, kind := .toolDone doneResult }]

theorem history_diedInTool : History diedInTool [toolCall] false :=
  .note 2 0 (.toolDone doneResult) (by simp) (by simp)
    (.reply 1 0 callMessage rfl rfl (.say 0 0 (.userText "task") (spoken_userText _) .nil))

/-- The projection of the dead turn is valid. -/
theorem provider_valid_diedInTool : ProviderValid (projectVerifiedMessages noImage diedInTool) :=
  (provider_valid_iff history_diedInTool).2 rfl

/-- The next instruction of the resumed session makes it invalid for good: its call is followed by a message without the
result. -/
theorem not_provider_valid_resumed :
    History (diedInTool ++ [{ seq := 3, turn := 1, kind := .message (.userText "go on") }]) [] true ∧
      ¬ ProviderValid (projectVerifiedMessages noImage
        (diedInTool ++ [{ seq := 3, turn := 1, kind := .message (.userText "go on") }])) := by
  refine ⟨.say 3 1 (.userText "go on") (spoken_userText _) history_diedInTool, fun h => ?_⟩
  obtain ⟨b, hb, -, r, hr, -⟩ := h.answered 1 callMessage rfl rfl toolCall (.head _)
  cases hb
  cases hr

end Iteron.Transcript
