import Iteron.TranscriptReplay
/-!
# Compaction — what a forced compaction cuts out of a transcript

The plan as the code slices it, where a slice that starts past its end ends the process, and what it says of every
transcript: the three parts are the whole, and no tool result is kept without its call.
-/
namespace Iteron.Transcript

variable {policy : CompactionPolicy} {messages : List Message} {plan : CompactionPlan}

/-- `messages[start..end]`; out of range, the process ends. -/
def slice (messages : List Message) (start stop : Nat) : Option (List Message) :=
  if start ≤ stop ∧ stop ≤ messages.length then some ((messages.take stop).drop start) else none

/-- `messages[k]`. -/
def index (messages : List Message) (k : Nat) : Option Message := messages[k]?

/-- The walk of `plan_unconditional_with_window` past tool results, with its reads. -/
def walkBackRead (messages : List Message) : Nat → Option Nat
  | 0 => some 0
  | 1 => some 1
  | keepFrom + 2 =>
    match index messages (keepFrom + 2) with
    | none => none
    | some m => if m.isResult then walkBackRead messages (keepFrom + 1) else some (keepFrom + 2)

/-- `force_plan` with its slices: nothing when the process ends, else the plan or the absence of one. -/
def forcePlanSliced (policy : CompactionPolicy) (messages : List Message) : Option (Option CompactionPlan) :=
  match messages with
  | [] => some none
  | taskAnchor :: _ => do
    let keepFrom ← walkBackRead messages (if policy.keepRecent > 0 then messages.length - policy.keepRecent
      else retain policy messages messages.length 0)
    let toSummarize ← slice messages 1 keepFrom
    let keepVerbatim ← slice messages keepFrom messages.length
    if toSummarize.isEmpty then return none
    return some { taskAnchor := taskAnchor, toSummarize := toSummarize, keepVerbatim := keepVerbatim }

/-! ## Slices in range -/

/-- The floor asks for every message to be kept, the first one included. -/
def FloorCoversAll (policy : CompactionPolicy) (messages : List Message) : Prop :=
  messages ≠ [] ∧ 0 < policy.keepRecent ∧ messages.length ≤ policy.keepRecent

theorem walkBackRead_eq (messages : List Message) : ∀ k, k ≤ 1 ∨ k < messages.length →
    walkBackRead messages k = some (walkBack messages k)
  | 0, _ => rfl
  | 1, _ => rfl
  | k + 2, h => by
    have hlt : k + 2 < messages.length := by omega
    simp only [walkBackRead, walkBack, index, List.getElem?_eq_getElem hlt, Option.any_some]
    split
    · exact walkBackRead_eq messages (k + 1) (.inr (by omega))
    · rfl

theorem cut_range (hne : messages ≠ []) (h : ¬ FloorCoversAll policy messages) :
    let k := if policy.keepRecent > 0 then messages.length - policy.keepRecent
      else retain policy messages messages.length 0
    1 ≤ k ∧ (k ≤ 1 ∨ k < messages.length) := by
  have hpos : 0 < messages.length := List.length_pos_iff.2 hne
  have hretain : ∀ cursor retained, 1 ≤ cursor → 1 ≤ retain policy messages cursor retained := by
    intro cursor
    induction cursor using Nat.strong_induction_on with
    | _ cursor ih =>
      intro retained hc
      match cursor, hc with
      | 1, _ => simp [retain]
      | cursor + 2, _ =>
        simp only [retain]
        split
        · omega
        · exact ih (cursor + 1) (by omega) _ (by omega)
  by_cases hkeep : policy.keepRecent > 0
  · rw [if_pos hkeep]
    have hlt : policy.keepRecent < messages.length := by
      by_contra hle
      exact h ⟨hne, hkeep, by omega⟩
    omega
  · rw [if_neg hkeep]
    refine ⟨hretain _ 0 hpos, ?_⟩
    by_cases hlen : 2 ≤ messages.length
    · exact .inr (retain_lt policy messages _ 0 (Nat.le_refl _) hlen)
    · have hone : messages.length = 1 := by omega
      rw [hone]
      exact .inl (by simp [retain])

theorem walkBack_pos (messages : List Message) : ∀ k, 1 ≤ k → 1 ≤ walkBack messages k
  | 1, _ => Nat.le_refl _
  | k + 2, _ => by
    simp only [walkBack]
    split
    · exact walkBack_pos messages (k + 1) (by omega)
    · omega

/-- Outside that case the slices are in range, and the plan is the one without them. -/
theorem forcePlanSliced_eq (h : ¬ FloorCoversAll policy messages) :
    forcePlanSliced policy messages = some (forcePlan policy messages) := by
  cases messages with
  | nil => rfl
  | cons first rest =>
    obtain ⟨hpos, hrange⟩ := cut_range (by simp) h
    generalize hk : (if policy.keepRecent > 0 then (first :: rest).length - policy.keepRecent
      else retain policy (first :: rest) (first :: rest).length 0) = k at hpos hrange
    have hwalk := walkBack_le (first :: rest) k
    have hwpos := walkBack_pos (first :: rest) k hpos
    have hkeep : keepFrom policy (first :: rest) = walkBack (first :: rest) k := by rw [keepFrom, hk]
    have hlen : (first :: rest).length = rest.length + 1 := rfl
    simp only [forcePlanSliced, forcePlan, hk, walkBackRead_eq _ k hrange, hkeep, Option.bind_eq_bind, Option.bind_some]
    generalize walkBack (first :: rest) k = w at hwalk hwpos
    have hw : w ≤ (first :: rest).length := by omega
    obtain ⟨n, rfl⟩ : ∃ n, w = n + 1 := ⟨w - 1, by omega⟩
    have hsummarize : slice (first :: rest) 1 (n + 1) = some (rest.take n) := by
      rw [slice, if_pos ⟨hwpos, hw⟩]
      rfl
    have hverbatim : slice (first :: rest) (n + 1) (first :: rest).length = some (rest.drop n) := by
      rw [slice, if_pos ⟨hw, Nat.le_refl _⟩, List.take_length, List.drop_succ_cons]
    rw [hsummarize, hverbatim]
    cases n with
    | zero => rfl
    | succ n =>
      have hrest : rest ≠ [] := by
        rintro rfl
        simp at hw
      obtain ⟨_, rest, rfl⟩ := List.exists_cons_of_ne_nil hrest
      simp

theorem forcePlanSliced_covers (h : FloorCoversAll policy messages) : forcePlanSliced policy messages = none := by
  obtain ⟨hne, hpos, _⟩ := h
  obtain ⟨first, rest, rfl⟩ := List.exists_cons_of_ne_nil hne
  have hzero : (first :: rest).length - policy.keepRecent = 0 := by omega
  have hslice : slice (first :: rest) 1 0 = none := by
    rw [slice, if_neg (by omega)]
  simp only [forcePlanSliced, if_pos hpos, hzero, walkBackRead, hslice, Option.bind_eq_bind, Option.bind_some,
    Option.bind_none]

/-! ## Parts and answers -/

theorem forcePlan_parts (h : forcePlan policy messages = some plan) :
    plan.taskAnchor :: plan.toSummarize ++ plan.keepVerbatim = messages ∧ plan.toSummarize ≠ [] ∧
      ∃ m tail, plan.keepVerbatim = m :: tail ∧ m.isResult = false := by
  obtain ⟨_, rest, n, rfl, hn, hanchor, hlen, hkeep, hnot⟩ := forcePlan_cases h
  have hsum : plan.toSummarize = rest.take n := by
    simp only [forcePlan] at h
    split at h
    · cases h
    · cases h
      rw [← hlen]
      simp
  have hdrop : rest.drop n = rest[n] :: rest.drop (n + 1) := List.drop_eq_getElem_cons hn
  refine ⟨?_, ?_, rest[n], rest.drop (n + 1), hkeep.trans hdrop, ?_⟩
  · rw [hanchor, hsum, hkeep, List.cons_append, List.take_append_drop]
  · rintro hnil
    simp only [forcePlan] at h
    split at h
    · cases h
    · cases h
      simp only [List.take_eq_nil_iff] at hnil
      rcases hnil with hnil | hnil
      · omega
      · rw [hnil] at hn
        simp at hn
  · rw [List.getElem?_eq_getElem hn] at hnot
    simpa using hnot

/-- Every message with results follows, over nothing but such messages, the assistant message with their calls. -/
def Answered (messages : List Message) : Prop :=
  ∀ pre (m : Message) post, messages = pre ++ m :: post → m.isResult = true → ∀ r ∈ m.results,
    ∃ before, ∃ call : Message, ∃ between, pre = before ++ call :: between ∧ call.role = .assistant ∧
      (∃ t ∈ call.calls, t.id = r.toolUseId) ∧ ∀ k ∈ between, k.isResult = true

theorem Answered.tail {front back : List Message} {m : Message} (h : Answered (front ++ m :: back))
    (hm : m.isResult = false) (lead : List Message) (hlead : ∀ k ∈ lead, k.isResult = false) :
    Answered (lead ++ m :: back) := by
  intro pre x post hsplit hx r hr
  rw [List.append_eq_append_iff] at hsplit
  rcases hsplit with ⟨mid, rfl, hmid⟩ | ⟨mid, rfl, hmid⟩
  · -- the results stand in the tail: so does the message with their calls
    cases mid with
    | nil =>
      cases hmid
      rw [hm] at hx
      cases hx
    | cons y mid =>
      cases hmid
      obtain ⟨_, call, between, hpre, hrole, hcall, hbetween⟩ := h (front ++ m :: mid) x post (by simp) hx r hr
      rw [List.append_eq_append_iff] at hpre
      rcases hpre with ⟨extra, rfl, hextra⟩ | ⟨extra, rfl, hextra⟩
      · exact ⟨lead ++ extra, call, between, by rw [List.append_assoc, ← hextra], hrole, hcall, hbetween⟩
      · cases extra with
        | nil =>
          rw [List.nil_append] at hextra
          exact ⟨lead, call, between, by rw [hextra], hrole, hcall, hbetween⟩
        | cons z extra =>
          cases hextra
          rw [hbetween m (by simp)] at hm
          cases hm
  · cases mid with
    | nil =>
      cases hmid
      rw [hm] at hx
      cases hx
    | cons y mid =>
      cases hmid
      rw [hlead x (by simp)] at hx
      cases hx

theorem answered_rebuild (h : forcePlan policy messages = some plan) (hans : Answered messages) (summary : String) :
    Answered (rebuild plan summary) := by
  obtain ⟨hparts, -, m, _, hkeep, hm⟩ := forcePlan_parts h
  have hfirst : plan.taskAnchor.isResult = false := by
    by_contra hres
    rw [Bool.not_eq_false] at hres
    have hne : plan.taskAnchor.results ≠ [] := by
      intro hnil
      simp [Message.isResult, hnil] at hres
    obtain ⟨r, _, hr⟩ := List.exists_cons_of_ne_nil hne
    obtain ⟨_, _, _, hpre, -⟩ := hans [] plan.taskAnchor _ hparts.symm hres r (by rw [hr]; simp)
    simp at hpre
  rw [hkeep] at hparts
  have htail := hans
  rw [← hparts] at htail
  rw [rebuild, hkeep]
  refine htail.tail hm [plan.taskAnchor, compactionSummaryMessage plan.toSummarize.length summary] fun k hk => ?_
  simp only [List.mem_cons, List.not_mem_nil, or_false] at hk
  rcases hk with rfl | rfl
  · exact hfirst
  · rfl

/-! ## The whole of it -/

/-- Planning ends in no slice out of range; a plan's parts are the transcript, neither the summarized nor the kept part is
empty, and what is rebuilt around any summary is answered where the transcript is. -/
def Plans (policy : CompactionPolicy) (messages : List Message) : Prop :=
  ∃ result, forcePlanSliced policy messages = some result ∧ ∀ plan, result = some plan →
    plan.taskAnchor :: plan.toSummarize ++ plan.keepVerbatim = messages ∧ plan.toSummarize ≠ [] ∧
      plan.keepVerbatim ≠ [] ∧ (Answered messages → ∀ summary, Answered (rebuild plan summary))

/-- **A forced compaction partitions every transcript**, unless its floor covers the whole of it. -/
theorem plans_iff (policy : CompactionPolicy) (messages : List Message) :
    Plans policy messages ↔ ¬ FloorCoversAll policy messages := by
  constructor
  · rintro ⟨_, hresult, -⟩ hcovers
    rw [forcePlanSliced_covers hcovers] at hresult
    cases hresult
  · intro hcovers
    refine ⟨_, forcePlanSliced_eq hcovers, fun plan hplan => ?_⟩
    obtain ⟨hparts, hsummarize, m, _, hkeep, -⟩ := forcePlan_parts hplan
    exact ⟨hparts, hsummarize, by rw [hkeep]; simp, fun hans summary => answered_rebuild hplan hans summary⟩

/-- One message under a floor of one. -/
theorem not_plans_single : ¬ Plans ⟨1, 0, fun _ => 0⟩ [.userText "task"] := by
  rintro ⟨_, hresult, -⟩
  cases hresult

end Iteron.Transcript
