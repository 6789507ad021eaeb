import Mathlib.Data.List.Chain
import Iteron.Transcript
/-!
# TranscriptReplay — resuming reproduces the live transcript

What is live and what is recorded agree once both are merged (`Agrees`).  A seed counts messages of the transcript it
was planned on, and replay counts them in the merged one; so the two stay together as long as a compaction inside a turn
is planned on a transcript that has no adjacent user messages (`resume_reproduces`).
-/
namespace Iteron.Transcript

/-! ## Merging -/

theorem mergeAll_concat (xs : List Message) (m : Message) :
    mergeAll (xs ++ [m]) = mergeAdjacentUserMessage (mergeAll xs) m := List.foldl_concat ..

theorem merge_concat (xs : List Message) (last m : Message) :
    mergeAdjacentUserMessage (xs ++ [last]) m = if m.role = .user ∧ last.role = .user then
      xs ++ [{ last with content := joinContent last.content m.content }] else xs ++ [last] ++ [m] := by
  unfold mergeAdjacentUserMessage
  rw [List.getLast?_concat]
  rw [List.dropLast_concat]

@[simp] theorem merge_nil (m : Message) : mergeAdjacentUserMessage [] m = [m] := rfl

def Alternating (messages : List Message) : Prop :=
  messages.IsChain (fun a b => ¬ (a.role = .user ∧ b.role = .user))

variable {xs : List Message} {m : Message}

theorem merge_of_alternating (h : Alternating (xs ++ [m])) : mergeAdjacentUserMessage xs m = xs ++ [m] := by
  rcases List.eq_nil_or_concat xs with rfl | ⟨_, last, rfl⟩
  · rfl
  · rw [List.concat_eq_append] at h ⊢
    rw [merge_concat, if_neg]
    intro hboth
    have hlast := (List.isChain_append.1 h).2.2 last (by simp) m (by simp)
    exact hlast ⟨hboth.2, hboth.1⟩

theorem Alternating.of_concat (h : Alternating (xs ++ [m])) : Alternating xs :=
  (List.isChain_append.1 h).1

theorem mergeAll_of_alternating (xs : List Message) (h : Alternating xs) : mergeAll xs = xs := by
  induction xs using List.reverseRecOn with
  | nil => rfl
  | append_singleton xs m ih => rw [mergeAll_concat, ih h.of_concat, merge_of_alternating h]

theorem alternating_merge (m : Message) (h : Alternating xs) : Alternating (mergeAdjacentUserMessage xs m) := by
  rcases List.eq_nil_or_concat xs with rfl | ⟨_, last, rfl⟩
  · exact List.isChain_singleton m
  · rw [List.concat_eq_append] at h ⊢
    rw [merge_concat]
    have hsplit := List.isChain_append.1 h
    split
    · refine List.isChain_append.2 ⟨hsplit.1, List.isChain_singleton _, fun x hx y hy => ?_⟩
      have := hsplit.2.2 x hx last (by simp)
      rw [List.head?_cons, Option.mem_some_iff] at hy
      subst hy
      exact this
    · next hne =>
      refine List.isChain_append.2 ⟨h, List.isChain_singleton _, fun x hx y hy => ?_⟩
      rw [List.getLast?_concat, Option.mem_some_iff] at hx
      rw [List.head?_cons, Option.mem_some_iff] at hy
      subst hx hy
      exact fun hboth => hne ⟨hboth.2, hboth.1⟩

theorem alternating_mergeAll (xs : List Message) : Alternating (mergeAll xs) := by
  induction xs using List.reverseRecOn with
  | nil => exact List.isChain_nil
  | append_singleton xs m ih =>
    rw [mergeAll_concat]
    exact alternating_merge m ih

theorem mergeAll_idem (xs : List Message) : mergeAll (mergeAll xs) = mergeAll xs :=
  mergeAll_of_alternating _ (alternating_mergeAll xs)

variable {l : List Block}

theorem boundaryBlock_join {m : List Block} (hm : m.all Block.isText) (hl : l ≠ []) (hne : m ≠ []) :
    boundaryBlock (joinContent l m) = boundaryBlock l := by
  have hjoin : joinContent l m = l ++ [boundaryBlock m] ++ m := if_pos ⟨hl, hne⟩
  have hall : (joinContent l m).all Block.isText = l.all Block.isText := by
    rw [hjoin, List.all_append, List.all_append, hm]
    simp [boundaryBlock, Block.isText]
  unfold boundaryBlock
  rw [hall]

theorem joinContent_assoc {u m : List Block} (hm : m.all Block.isText) :
    joinContent (joinContent u l) m = joinContent u (joinContent l m) := by
  by_cases hu : u = []
  · simp [joinContent, hu]
  by_cases hl : l = []
  · simp [joinContent, hl]
  by_cases hne : m = []
  · simp [joinContent, hne]
  have hboundary := boundaryBlock_join hm hl hne
  have hul : joinContent u l = u ++ [boundaryBlock l] ++ l := if_pos ⟨hu, hl⟩
  have hlm : joinContent l m = l ++ [boundaryBlock m] ++ m := if_pos ⟨hl, hne⟩
  have houter : joinContent u (joinContent l m) = u ++ [boundaryBlock (joinContent l m)] ++ joinContent l m :=
    if_pos ⟨hu, by rw [hlm]; simp⟩
  have hinner : joinContent (joinContent u l) m = joinContent u l ++ [boundaryBlock m] ++ m :=
    if_pos ⟨by rw [hul]; simp, hne⟩
  rw [houter, hboundary, hinner, hul, hlm]
  simp

/-- What the operator says: a user message of text. -/
structure Spoken (m : Message) : Prop where
  user : m.role = .user
  text : m.content.all Block.isText

theorem mergeAll_merge (hm : Spoken m) (live : List Message) :
    mergeAll (mergeAdjacentUserMessage live m) = mergeAdjacentUserMessage (mergeAll live) m := by
  rcases List.eq_nil_or_concat live with rfl | ⟨xs, last, rfl⟩
  · rfl
  rw [List.concat_eq_append, merge_concat]
  split
  · next hboth =>
    rw [mergeAll_concat, mergeAll_concat]
    -- the last message of what stands before decides whether both are merged into it
    rcases List.eq_nil_or_concat (mergeAll xs) with hnil | ⟨_, u, hys⟩
    · rw [hnil, merge_nil, merge_nil]
      have := merge_concat [] last m
      rw [if_pos hboth] at this
      exact this.symm
    · rw [hys, List.concat_eq_append, merge_concat, merge_concat]
      by_cases hu : u.role = .user
      · rw [if_pos ⟨hboth.2, hu⟩, if_pos ⟨hboth.2, hu⟩, merge_concat, if_pos ⟨hm.user, hu⟩]
        simp only [joinContent_assoc hm.text]
      · rw [if_neg (fun h => hu h.2), if_neg (fun h => hu h.2), merge_concat, if_pos hboth]
  · rw [mergeAll_concat]

/-! ## Repair -/

theorem trim_of_not_dangling (h : dangling m xs.reverse = false) : trim (xs ++ [m]) = xs ++ [m] := by
  unfold trim
  rw [List.reverse_append, List.reverse_singleton, List.singleton_append, trimRev, h]
  simp

/-- Every message with results follows one with calls. -/
structure Paired (messages : List Message) : Prop where
  chain : messages.IsChain (fun a b => b.isResult = true → a.isCall = true)
  first : ∀ m ∈ messages.head?, m.isResult = false

theorem paired_concat : Paired (xs ++ [m]) ↔
    Paired xs ∧ (m.isResult = true → xs.getLast?.any Message.isCall = true) := by
  constructor
  · rintro ⟨hchain, hfirst⟩
    have hsplit := List.isChain_append.1 hchain
    refine ⟨⟨hsplit.1, fun x hx => hfirst x ?_⟩, fun hm => ?_⟩
    · rw [List.head?_append, hx]
      rfl
    · rcases List.eq_nil_or_concat xs with rfl | ⟨_, last, rfl⟩
      · exact absurd (hfirst m (by simp)) (by simp [hm])
      · rw [List.concat_eq_append, List.getLast?_concat] at hsplit ⊢
        exact hsplit.2.2 last rfl m (by simp) hm
  · rintro ⟨⟨hchain, hfirst⟩, hm⟩
    refine ⟨List.isChain_append.2 ⟨hchain, List.isChain_singleton m, fun x hx y hy hres => ?_⟩, fun x hx => ?_⟩
    · rw [List.head?_cons, Option.mem_some_iff] at hy
      subst hy
      have := hm hres
      rw [hx] at this
      exact this
    · cases xs with
      | nil =>
        rw [List.nil_append, List.head?_cons, Option.mem_some_iff] at hx
        subst hx
        cases hres : m.isResult with
        | false => rfl
        | true => exact absurd (hm hres) (by simp)
      | cons a xs => exact hfirst x (by simpa using hx)

theorem Paired.trim_eq (h : Paired xs) (hlast : xs.getLast?.any Message.isCall = false) : trim xs = xs := by
  rcases List.eq_nil_or_concat xs with rfl | ⟨_, m, rfl⟩
  · rfl
  · rw [List.concat_eq_append] at h hlast ⊢
    rw [List.getLast?_concat] at hlast
    refine trim_of_not_dangling ?_
    have hm : m.isCall = false := hlast
    unfold dangling
    rw [hm, Bool.false_or, List.head?_reverse]
    cases hres : m.isResult with
    | false => rfl
    | true =>
      rw [(paired_concat.1 h).2 hres]
      rfl

theorem results_join {m : List Block} (hm : m.filterMap Block.toolResult? = []) :
    (joinContent l m).filterMap Block.toolResult? = l.filterMap Block.toolResult? := by
  unfold joinContent
  split
  · rw [List.filterMap_append, List.filterMap_append, hm]
    simp [boundaryBlock, Block.toolResult?]
  · rw [List.filterMap_append, hm, List.append_nil]

theorem getLast?_isCall_mergeAll (xs : List Message) :
    (mergeAll xs).getLast?.any Message.isCall = xs.getLast?.any Message.isCall := by
  rcases List.eq_nil_or_concat xs with rfl | ⟨ys, m, rfl⟩
  · rfl
  rw [List.concat_eq_append, mergeAll_concat, List.getLast?_concat]
  rcases List.eq_nil_or_concat (mergeAll ys) with hnil | ⟨_, _, hzs⟩
  · rw [hnil]
    rfl
  · rw [hzs, List.concat_eq_append, merge_concat]
    split
    · next hboth =>
      have hrole : (Role.user == Role.assistant) = false := rfl
      simp [Message.isCall, hboth.1, hboth.2, hrole]
    · simp

theorem isResult_join {last : Message} (hm : m.results = []) :
    ({ last with content := joinContent last.content m.content } : Message).isResult = last.isResult := by
  unfold Message.isResult Message.results
  rw [results_join hm]

theorem results_of_not_isResult (hrole : m.role = .user) (h : m.isResult = false) : m.results = [] := by
  simpa [Message.isResult, hrole] using h

theorem paired_merge (hxs : Paired xs)
    (hm : m.isResult = true → xs.getLast?.any Message.isCall = true) : Paired (mergeAdjacentUserMessage xs m) := by
  rcases List.eq_nil_or_concat xs with rfl | ⟨_, _, rfl⟩
  · exact paired_concat.2 ⟨hxs, hm⟩
  rw [List.concat_eq_append] at hxs hm ⊢
  rw [merge_concat]
  split
  · next hboth =>
    have hno : m.isResult = false := by
      cases hres : m.isResult with
      | false => rfl
      | true =>
        have hcall := hm hres
        simp [Message.isCall, hboth.2] at hcall
    obtain ⟨hpaired, hbefore⟩ := paired_concat.1 hxs
    refine paired_concat.2 ⟨hpaired, fun hres => hbefore ?_⟩
    rwa [isResult_join (results_of_not_isResult hboth.1 hno)] at hres
  · exact paired_concat.2 ⟨hxs, hm⟩

theorem paired_mergeAll (xs : List Message) (h : Paired xs) : Paired (mergeAll xs) := by
  induction xs using List.reverseRecOn with
  | nil => exact h
  | append_singleton xs m ih =>
    obtain ⟨hxs, hm⟩ := paired_concat.1 h
    rw [mergeAll_concat]
    rw [← getLast?_isCall_mergeAll] at hm
    exact paired_merge (ih hxs) hm

/-! ## Seeds -/

variable {c : Char}

theorem splitOnce_digits {pat : List Char} (rest : List Char) : ∀ {digits : List Char}, c ∉ digits →
    splitOnce (c :: pat) (digits ++ (c :: pat) ++ rest) = some digits
  | [], _ => by
    have hprefix : (c :: pat).isPrefixOf (c :: (pat ++ rest)) = true := by
      rw [List.isPrefixOf_iff_prefix]
      exact List.prefix_append _ _
    rw [List.nil_append, List.cons_append, splitOnce, if_pos hprefix]
  | d :: digits, h => by
    have hd : c ≠ d := fun he => h (by simp [he])
    have ih : splitOnce (c :: pat) (digits ++ (c :: pat) ++ rest) = some digits := splitOnce_digits rest (fun hmem => h (.tail _ hmem))
    rw [List.cons_append, List.cons_append, splitOnce, if_neg (by simp [hd]), ih]
    rfl

variable {n : Nat}

theorem isDigit_of_mem_toDigits (h : c ∈ Nat.toDigits 10 n) : c.isDigit = true :=
  Nat.isDigit_of_mem_toDigits (by decide) (by decide) h

theorem parseCount_toDigits (n : Nat) : parseCount (Nat.toDigits 10 n) = some n := by
  have hne : Nat.toDigits 10 n ≠ [] := Nat.toDigits_ne_nil
  have hall : (Nat.toDigits 10 n).all Char.isDigit = true := List.all_eq_true.2 (fun c hc => isDigit_of_mem_toDigits hc)
  have hplus : (Nat.toDigits 10 n).head? ≠ some '+' := by
    intro hhead
    have := isDigit_of_mem_toDigits (List.mem_of_mem_head? hhead)
    cases this
  unfold parseCount
  rw [if_neg hplus]
  simp only [hne, hall, ne_eq, not_false_eq_true, and_self, if_true, Nat.ofDigitChars_ten_toDigits]

theorem compactionSummaryRange_summary (n : Nat) (summary : String) :
    compactionSummaryRange (compactionSummaryMessage n summary) = some n := by
  have htext : (compactionMarkerOpen ++ toString n ++ compactionMarkerClose ++ "\n" ++ summary).toList =
      compactionMarkerOpen.toList ++ (Nat.toDigits 10 n ++ compactionMarkerClose.toList ++ ('\n' :: summary.toList)) := by
    simp [String.toList_append, toString, Nat.repr, List.append_assoc]
  have hclose : compactionMarkerClose.toList = ' ' :: "earlier turns summarized]".toList := by decide
  have hspace : ' ' ∉ Nat.toDigits 10 n := fun hmem => absurd (isDigit_of_mem_toDigits hmem) (by decide)
  unfold compactionSummaryRange compactionSummaryMessage Message.userText
  rw [List.head?_cons]
  dsimp only
  rw [htext, if_pos (by rw [List.isPrefixOf_iff_prefix]; exact List.prefix_append _ _), List.drop_left, hclose,
    splitOnce_digits _ hspace, Option.bind_some, parseCount_toDigits]

variable {first : Message} {rest : List Message}

theorem replayCompaction_seed (hn : n ≤ rest.length) (summary : String) :
    replayCompaction (first :: rest) [compactionSummaryMessage n summary] =
      first :: compactionSummaryMessage n summary :: rest.drop n := by
  unfold replayCompaction
  dsimp only
  rw [compactionSummaryRange_summary]
  exact if_neg (Nat.not_lt.2 hn)

/-! ## Plans -/

theorem retain_lt (policy : CompactionPolicy) (messages : List Message) : ∀ (cursor retained : Nat),
    cursor ≤ messages.length → 2 ≤ messages.length → retain policy messages cursor retained < messages.length
  | 0, _, _, hlen => by simp only [retain]; omega
  | 1, _, _, hlen => by simp only [retain]; omega
  | cursor + 2, retained, hcur, hlen => by
    simp only [retain]
    split
    · next hstop => exact hstop.1
    · exact retain_lt policy messages (cursor + 1) _ (by omega) hlen

theorem walkBack_le (messages : List Message) : ∀ k, walkBack messages k ≤ k
  | 0 => Nat.le_refl _
  | 1 => Nat.le_refl _
  | k + 2 => by
    simp only [walkBack]
    split
    · have := walkBack_le messages (k + 1)
      omega
    · exact Nat.le_refl _

theorem walkBack_not_result (messages : List Message) : ∀ k, 1 < walkBack messages k →
    messages[walkBack messages k]?.any Message.isResult = false
  | 0, h => by simp [walkBack] at h
  | 1, h => by simp [walkBack] at h
  | k + 2, h => by
    simp only [walkBack] at h ⊢
    split
    · next hres =>
      rw [if_pos hres] at h
      exact walkBack_not_result messages (k + 1) h
    · next hres => simpa using hres

variable {messages : List Message} {plan : CompactionPlan}

/-- **What a plan is**: the first message, those after it up to a message that has no results, and the rest. -/
theorem forcePlan_cases {policy : CompactionPolicy} (h : forcePlan policy messages = some plan) :
    ∃ first rest n, messages = first :: rest ∧ n < rest.length ∧ plan.taskAnchor = first ∧
      plan.toSummarize.length = n ∧ plan.keepVerbatim = rest.drop n ∧ (rest[n]?.any Message.isResult) = false := by
  cases messages with
  | nil => cases h
  | cons first rest =>
    simp only [forcePlan] at h
    split at h
    · cases h
    · cases h
      have hlen : 2 ≤ (first :: rest).length := by
        cases rest with
        | nil =>
          have : keepFrom policy [first] ≤ 1 := by
            refine le_trans (walkBack_le _ _) ?_
            split
            · simp
            · simp [retain]
          omega
        | cons b rest => simp
      have hlt : keepFrom policy (first :: rest) < (first :: rest).length := by
        refine lt_of_le_of_lt (walkBack_le _ _) ?_
        split
        · omega
        · exact retain_lt policy _ _ 0 (Nat.le_refl _) hlen
      have hnot : (first :: rest)[keepFrom policy (first :: rest)]?.any Message.isResult = false :=
        walkBack_not_result _ _ (show 1 < keepFrom policy (first :: rest) by omega)
      obtain ⟨n, hn⟩ : ∃ n, keepFrom policy (first :: rest) = n + 1 := ⟨_, (Nat.succ_pred (by omega)).symm⟩
      rw [hn] at hlt hnot
      refine ⟨first, rest, n, rfl, by simpa using hlt, rfl, ?_, ?_, by simpa using hnot⟩
      · rw [hn, List.length_take]
        simp only [List.length_cons] at hlt
        omega
      · rw [hn, List.drop_succ_cons]

theorem paired_rebuild (h : Paired (first :: rest)) (hn : n < rest.length)
    (hnot : rest[n]?.any Message.isResult = false) (summary : String) :
    Paired (first :: compactionSummaryMessage n summary :: rest.drop n) ∧
      (first :: compactionSummaryMessage n summary :: rest.drop n).getLast? = (first :: rest).getLast? := by
  obtain ⟨m, hm⟩ : ∃ m, rest[n]? = some m := ⟨_, List.getElem?_eq_getElem hn⟩
  have hdrop : rest.drop n = m :: rest.drop (n + 1) := by
    rw [List.drop_eq_getElem_cons hn]
    congr 1
    rw [List.getElem?_eq_getElem hn] at hm
    exact Option.some.inj hm
  have hseed : (compactionSummaryMessage n summary).isResult = false := rfl
  constructor
  · refine ⟨?_, fun x hx => h.first x (by simpa using hx)⟩
    rw [hdrop, List.isChain_cons_cons, List.isChain_cons_cons]
    refine ⟨fun hres => absurd hres (by rw [hseed]; simp), fun hres => ?_, ?_⟩
    · rw [hm] at hnot
      have : m.isResult = false := hnot
      rw [this] at hres
      cases hres
    · rw [← hdrop]
      exact h.chain.tail.drop n
  · obtain ⟨last, hlast⟩ : ∃ last, rest.getLast? = some last := by
      cases hrest : rest.getLast? with
      | some last => exact ⟨last, rfl⟩
      | none =>
        rw [List.getLast?_eq_none_iff] at hrest
        rw [hrest] at hn
        cases hn
    rw [List.getLast?_cons_cons, List.getLast?_cons, List.getLast?_cons, List.getLast?_drop, if_neg (Nat.not_le.2 hn), hlast]
    rfl

/-! ## Sessions -/

/-- What a session has live and what it has recorded. -/
structure Session where
  events : List Event
  live : List Message

def Session.init : Session := { events := [], live := [] }

inductive Step where
  | say (turn : Nat) (message : Message)
  | reply (turn : Nat) (message : Message)
  | results (turn : Nat) (message : Message)
  | note (turn : Nat) (kind : EventKind)
  | compactInTurn (turn : Nat) (summary : String)
  | compactTurnEnd (turn : Nat) (summary : String)
  | followUp

def Session.record (s : Session) (turn : Nat) (kind : EventKind) : List Event :=
  s.events ++ [{ seq := s.events.length, turn := turn, kind := kind }]

def Session.step (valid : ToolImage → Bool) (policy : CompactionPolicy) (s : Session) : Step → Session
  | .say turn message =>
    { events := s.record turn (.message message), live := mergeAdjacentUserMessage s.live message }
  | .reply turn message => { events := s.record turn (.message message), live := s.live ++ [message] }
  | .results turn message => { events := s.record turn (.message message), live := s.live ++ [message] }
  | .note turn kind => { s with events := s.record turn kind }
  | .compactInTurn turn summary =>
    match forcePlan policy s.live with
    | none => s
    | some plan => { events := s.record turn (.compaction (compactionSeed plan summary)), live := rebuild plan summary }
  | .compactTurnEnd turn summary =>
    match forcePlan policy (projectVerifiedMessages valid s.events) with
    | none => s
    | some plan =>
      let events := s.record turn (.compaction (compactionSeed plan summary))
      { events := events, live := projectVerifiedMessages valid events }
  | .followUp => { s with live := reconcileTranscript s.live }

/-- The last live message is a tool call without its results. -/
def Session.unanswered (s : Session) : Bool := s.live.getLast?.any Message.isCall

/-- A step as the session takes it: the operator speaks text, results follow their call, and the transcript is not
rewritten while a call is unanswered. -/
def Session.Takes (s : Session) : Step → Prop
  | .say _ message => Spoken message
  | .reply _ message => message.role = .assistant
  | .results _ message => message.role = .user ∧ s.unanswered = true
  | .note _ kind => (∀ m, kind ≠ .message m) ∧ ∀ ms, kind ≠ .compaction ms
  | .compactInTurn _ _ => s.unanswered = false
  | .compactTurnEnd _ _ => s.unanswered = false
  | .followUp => s.unanswered = false

/-- A compaction inside a turn is planned on a transcript without adjacent user messages. -/
def Session.Merged (s : Session) : Step → Prop
  | .compactInTurn _ _ => Alternating s.live
  | _ => True

/-- The sessions whose steps all meet a condition on the state before them. -/
inductive Reached (valid : ToolImage → Bool) (policy : CompactionPolicy) (meets : Session → Step → Prop) : Session → Prop
  | init : Reached valid policy meets Session.init
  | step {s : Session} (e : Step) : Reached valid policy meets s → s.Takes e → meets s e →
      Reached valid policy meets (s.step valid policy e)

/-- **Live and recorded agree once both are merged**, and no result is without its call. -/
structure Agrees (valid : ToolImage → Bool) (s : Session) : Prop where
  same : mergeAll (projection valid s.events).messages = mergeAll s.live
  paired : Paired (mergeAll s.live)

variable {valid : ToolImage → Bool} {policy : CompactionPolicy}

theorem projection_record (s : Session) (turn : Nat) (kind : EventKind) : projection valid (s.record turn kind) =
      observe valid (projection valid s.events) { seq := s.events.length, turn := turn, kind := kind } :=
  List.foldl_concat ..

variable {s : Session}

theorem Agrees.project_eq (h : Agrees valid s) (hlast : s.unanswered = false) :
    projectVerifiedMessages valid s.events = mergeAll s.live ∧ reconcileTranscript s.live = mergeAll s.live := by
  have hcall : (mergeAll s.live).getLast?.any Message.isCall = false := by
    rw [getLast?_isCall_mergeAll]
    exact hlast
  have hrecorded : (projection valid s.events).messages.getLast?.any Message.isCall = false := by
    rw [← getLast?_isCall_mergeAll, h.same]
    exact hcall
  have hnone : recovered (projection valid s.events) = [] := by
    unfold recovered
    cases hl : (projection valid s.events).messages.getLast? with
    | none => rfl
    | some m =>
      rw [hl] at hrecorded
      have hm : m.isCall = false := hrecorded
      simp [hm]
  have htrim := h.paired.trim_eq hcall
  refine ⟨?_, htrim⟩
  unfold projectVerifiedMessages
  rw [hnone, List.append_nil, reconcileTranscript, h.same, htrim]

theorem Agrees.push (h : Agrees valid s) (turn : Nat) (hm : m.isResult = true → s.unanswered = true) :
    Agrees valid { events := s.record turn (.message m), live := s.live ++ [m] } := by
  constructor
  · rw [projection_record]
    show mergeAll ((projection valid s.events).messages ++ [m]) = _
    rw [mergeAll_concat, mergeAll_concat, h.same]
  · rw [mergeAll_concat]
    refine paired_merge h.paired (fun hres => ?_)
    rw [getLast?_isCall_mergeAll]
    exact hm hres

/-- **A compaction, replayed.**  When the record projects to the list the plan was made on, replaying the seed rebuilds
it. -/
theorem observe_seed (turn : Nat) (summary : String) (hplan : forcePlan policy messages = some plan)
    (hprior : reconcileTranscript (projection valid s.events).messages = messages) :
    (projection valid (s.record turn (.compaction (compactionSeed plan summary)))).messages = rebuild plan summary := by
  obtain ⟨_, _, n, rfl, hn, hfirst, hlen, hkeep, -⟩ := forcePlan_cases hplan
  simp only [projection_record, observe, Projection.fresh]
  rw [hprior, compactionSeed, hlen, replayCompaction_seed (Nat.le_of_lt hn), rebuild, hfirst, hkeep, hlen]

theorem paired_of_plan (summary : String) (hplan : forcePlan policy messages = some plan) (h : Paired messages) :
    Paired (rebuild plan summary) ∧ (rebuild plan summary).getLast? = messages.getLast? := by
  obtain ⟨_, _, n, rfl, hn, hfirst, hlen, hkeep, hnot⟩ := forcePlan_cases hplan
  rw [rebuild, hfirst, hkeep, hlen]
  exact paired_rebuild h hn hnot summary

theorem Agrees.step {e : Step} (h : Agrees valid s) (htakes : s.Takes e) (hmerged : s.Merged e) :
    Agrees valid (s.step valid policy e) := by
  cases e with
  | say turn message =>
    have hspoken : Spoken message := htakes
    have hno : message.isResult = false := by
      have hnone : message.results = [] := by
        unfold Message.results
        rw [List.filterMap_eq_nil_iff]
        intro b hb
        have := List.all_eq_true.1 hspoken.text b hb
        cases b <;> simp_all [Block.isText, Block.toolResult?]
      simp [Message.isResult, hnone]
    have hpush := h.push turn (m := message) (fun hres => by rw [hno] at hres; cases hres)
    have hsame : mergeAll (mergeAdjacentUserMessage s.live message) = mergeAll (s.live ++ [message]) := by
      rw [mergeAll_merge hspoken, mergeAll_concat]
    exact ⟨hpush.same.trans hsame.symm, hsame ▸ hpush.paired⟩
  | reply turn message =>
    have hrole : message.role = .assistant := htakes
    have hno : message.isResult = false := by
      have : (Role.assistant == Role.user) = false := rfl
      simp [Message.isResult, hrole, this]
    exact h.push turn (fun hres => by rw [hno] at hres; cases hres)
  | results turn message => exact h.push turn (fun _ => htakes.2)
  | note turn kind =>
    refine ⟨?_, h.paired⟩
    show mergeAll (projection valid (s.record turn kind)).messages = mergeAll s.live
    rw [projection_record, ← h.same]
    cases kind with
    | message m => exact absurd rfl (htakes.1 m)
    | compaction ms => exact absurd rfl (htakes.2 ms)
    | toolDone _ => simp only [observe]; split <;> rfl
    | toolImageObserved _ => simp only [observe]; split <;> rfl
    | other => rfl
  | compactInTurn turn summary =>
    simp only [Session.step]
    cases hplan : forcePlan policy s.live with
    | none => exact h
    | some plan =>
      have hlive : mergeAll s.live = s.live := mergeAll_of_alternating _ hmerged
      have hprior : reconcileTranscript (projection valid s.events).messages = s.live := by
        have := (h.project_eq htakes).2
        rw [reconcileTranscript, h.same, ← reconcileTranscript, this, hlive]
      have hpaired := (paired_of_plan summary hplan (hlive ▸ h.paired)).1
      refine ⟨congrArg mergeAll (observe_seed turn summary hplan hprior), paired_mergeAll _ hpaired⟩
  | compactTurnEnd turn summary =>
    simp only [Session.step]
    obtain ⟨hproject, hreconcile⟩ := h.project_eq htakes
    cases hplan : forcePlan policy (projectVerifiedMessages valid s.events) with
    | none => exact h
    | some plan =>
      rw [hproject] at hplan
      have hprior : reconcileTranscript (projection valid s.events).messages = mergeAll s.live := by
        rw [reconcileTranscript, h.same, ← reconcileTranscript, hreconcile]
      have hseed := observe_seed turn summary hplan hprior
      obtain ⟨hpaired, hlast⟩ := paired_of_plan summary hplan h.paired
      -- right after the seed the record and the rebuilt transcript agree, so its projection is that transcript merged
      have hrebuilt : Agrees valid
          { events := s.record turn (.compaction (compactionSeed plan summary)), live := rebuild plan summary } :=
        ⟨congrArg mergeAll hseed, paired_mergeAll _ hpaired⟩
      have hanswered : (rebuild plan summary).getLast?.any Message.isCall = false := by
        rw [hlast, getLast?_isCall_mergeAll]
        exact htakes
      have hlive := (hrebuilt.project_eq hanswered).1
      dsimp only at hlive ⊢
      rw [hlive]
      refine ⟨?_, ?_⟩
      · rw [mergeAll_idem]
        exact hrebuilt.same
      · rw [mergeAll_idem]
        exact hrebuilt.paired
  | followUp =>
    have hreconcile := (h.project_eq htakes).2
    simp only [Session.step]
    rw [hreconcile]
    refine ⟨?_, ?_⟩
    · rw [mergeAll_idem]
      exact h.same
    · rw [mergeAll_idem]
      exact h.paired

theorem Reached.agrees (h : Reached valid policy Session.Merged s) : Agrees valid s := by
  induction h with
  | init => exact ⟨rfl, List.isChain_nil, by simp [Session.init, mergeAll]⟩
  | step e _ htakes hmerged ih => exact ih.step htakes hmerged

/-- **Resume reproduces the live transcript.**  In every session whose compactions inside a turn find no two adjacent
user messages in the live transcript, at every point where no tool call is unanswered, projecting the record gives the
live transcript reconciled. -/
theorem resume_reproduces {s : Session} (h : Reached valid policy Session.Merged s) (hlast : s.unanswered = false) :
    projectVerifiedMessages valid s.events = reconcileTranscript s.live := by
  obtain ⟨hproject, hreconcile⟩ := h.agrees.project_eq hlast
  rw [hproject, hreconcile]

/-! ## Two compactions in one turn loop -/

def samplePolicy : CompactionPolicy := { keepRecent := 2, retentionTokens := 0, contentTokens := fun _ => 1 }

def answer (text : String) : Message := { role := .assistant, content := [.text text] }

def noImage (_ : ToolImage) : Bool := false

def onceCompacted : List Step :=
  [.say 1 (.userText "the task"), .reply 1 (answer "first"), .say 2 (.userText "second ask"), .reply 2 (answer "second"),
    .say 3 (.userText "third ask"), .compactInTurn 3 "so far"]

/-- Two more, and compacted again while the first summary still stands beside the task. -/
def twiceCompacted : List Step :=
  onceCompacted ++ [Step.reply 3 (answer "third"), .say 4 (.userText "fourth ask"), .compactInTurn 4 "and then"]

def Session.run (steps : List Step) : Session := steps.foldl (Session.step noImage samplePolicy) Session.init

/-- Every step is one the session takes and meets the condition. -/
def Follows (meets : Session → Step → Prop) : Session → List Step → Prop
  | _, [] => True
  | s, e :: steps => s.Takes e ∧ meets s e ∧ Follows meets (s.step noImage samplePolicy e) steps

theorem reached_run {meets : Session → Step → Prop} : ∀ (steps : List Step) {s : Session},
    Reached noImage samplePolicy meets s → Follows meets s steps →
    Reached noImage samplePolicy meets (steps.foldl (Session.step noImage samplePolicy) s)
  | [], _, hs, _ => hs
  | e :: steps, _, hs, h => reached_run steps (.step e hs h.1 h.2.1) h.2.2

theorem spoken_userText (text : String) : Spoken (.userText text) := ⟨rfl, rfl⟩

theorem alternating_of_roles
    (h : (messages.map Message.role).IsChain (fun a b => ¬ (a = .user ∧ b = .user))) : Alternating messages :=
  (List.isChain_map Message.role).1 h

/-- After the first compaction the record still projects to the live transcript. -/
theorem resume_reproduces_onceCompacted : projectVerifiedMessages noImage (Session.run onceCompacted).events =
      reconcileTranscript (Session.run onceCompacted).live := by
  have hfollows : Follows Session.Merged Session.init onceCompacted :=
    ⟨spoken_userText _, trivial, rfl, trivial, spoken_userText _, trivial, rfl, trivial, spoken_userText _, trivial,
      by show Session.unanswered _ = false; rfl, alternating_of_roles (by decide), trivial⟩
  exact resume_reproduces (reached_run onceCompacted .init hfollows) (by rfl)

/-- After the second it does not: replay counts the task and the first summary as one message, and drops the answer
before the last ask. -/
theorem not_resume_reproduces_twiceCompacted :
    Reached noImage samplePolicy (fun _ _ => True) (Session.run twiceCompacted) ∧
      (Session.run twiceCompacted).unanswered = false ∧
      projectVerifiedMessages noImage (Session.run twiceCompacted).events ≠
        reconcileTranscript (Session.run twiceCompacted).live := by
  have hfollows : Follows (fun _ _ => True) Session.init twiceCompacted :=
    ⟨spoken_userText _, trivial, rfl, trivial, spoken_userText _, trivial, rfl, trivial, spoken_userText _, trivial,
      by show Session.unanswered _ = false; rfl, trivial, rfl, trivial, spoken_userText _, trivial,
      by show Session.unanswered _ = false; rfl, trivial, trivial⟩
  refine ⟨reached_run twiceCompacted .init hfollows, by rfl, fun heq => ?_⟩
  have hlength := congrArg List.length heq
  have hrecord : (projectVerifiedMessages noImage (Session.run twiceCompacted).events).length = 1 := by decide +kernel
  have hlive : (reconcileTranscript (Session.run twiceCompacted).live).length = 3 := by decide +kernel
  rw [hrecord, hlive] at hlength
  cases hlength

end Iteron.Transcript
