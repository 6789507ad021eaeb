import Iteron.WorkflowAgent
/-!
# WorkflowReason — the texts of failed children in the task graph

What a child reports of its failure is cut to a bounded text and journaled as the detail of a terminal.  The cut counts
characters and drops control characters; the reducer counts bytes, asks for a text that is not empty, and refuses
characters that override the direction of text.
-/
namespace Iteron.WorkflowAgent

open Dag TaskDag Refuse

inductive AttemptTerminal where
  | succeeded (resultDigest : String) (disposition : AttemptDisposition)
  | failed (code detail : String) (disposition : AttemptDisposition)
  | unknownEffect (reason : String)

def AttemptTerminal.command (attempt : AttemptId) : AttemptTerminal → Command
  | .succeeded resultDigest disposition =>
    .completeAttempt .controller attempt .succeeded disposition (some resultDigest) none none
  | .failed code detail disposition =>
    .completeAttempt .controller attempt .failed disposition none (some code) (some (World.boundedReason detail))
  | .unknownEffect reason =>
    .completeAttempt .controller attempt .unknownEffect .unknownEffect none none (some (World.boundedReason reason))

/-- `finish_attempt`: the charge and the terminal, as one batch. -/
def finishAttempt (task : TaskId) (attempt : AttemptId) (tokens elapsedMs : Nat) (terminal : AttemptTerminal) :
    List Command :=
  [.chargeBudget .controller task { turns := 1, tokens := tokens, costMicrousd := 0, wallMs := elapsedMs },
    terminal.command attempt]

def finishTaskFailure (task : TaskId) (code detail : String) : Command := World.finishCommand task (.failure code detail)

/-- Neither the shape check nor the validation refuses the command. -/
def Accepts (H : Digests) (d : TaskDag) (c : Command) : Prop :=
  d.validateCommandShape c = .ok () ∧ d.validateCommand H c = .ok ()

/-- The reducer's checks on a text pass, and no command that ends a task or an attempt is refused for the text where it
is accepted with some other. -/
structure Journalable (text : String) : Prop where
  visible : ∀ name, validateVisible (World.boundedReason text) maxReasonBytes name = .ok ()
  task : ∀ H d task code other, Accepts H d (finishTaskFailure task code other) →
    Accepts H d (finishTaskFailure task code text)
  attempt : ∀ H d attempt code disposition other,
    Accepts H d ((AttemptTerminal.failed code other disposition).command attempt) →
      Accepts H d ((AttemptTerminal.failed code text disposition).command attempt)
  unknown : ∀ H d attempt other, Accepts H d ((AttemptTerminal.unknownEffect other).command attempt) →
    Accepts H d ((AttemptTerminal.unknownEffect text).command attempt)

def keptChars (text : String) : List Char := (text.toList.filter (fun c => !Text.isControl c)).take 1024

variable {text : String}

theorem not_isControl_of_mem_keptChars {c : Char} (h : c ∈ keptChars text) : Text.isControl c = false := by
  have hmem := List.mem_of_mem_take h
  simpa using (List.mem_filter.1 hmem).2

theorem visible_iff (text name : String) : validateVisible (World.boundedReason text) maxReasonBytes name = .ok () ↔
    keptChars text ≠ [] ∧ (String.ofList (keptChars text)).utf8ByteSize ≤ 2048 ∧
      ∀ c ∈ keptChars text, Text.isBidiOverride c = false := by
  have hchars : ((String.ofList (keptChars text)).toList.any
      (fun c => (Text.isControl c && c != '\n' && c != '\t') || Text.isBidiOverride c) = true) ↔
      ∃ c ∈ keptChars text, Text.isBidiOverride c = true := by
    rw [String.toList_ofList, List.any_eq_true]
    refine exists_congr (fun c => and_congr_right (fun hc => ?_))
    rw [not_isControl_of_mem_keptChars hc]
    simp
  have hempty : (String.ofList (keptChars text)).isEmpty = true ↔ keptChars text = [] := by
    rw [String.isEmpty_iff]
    constructor
    · intro h
      have htext := congrArg String.toList h
      simpa using htext
    · intro h
      rw [h]
  show validateVisible (String.ofList (keptChars text)) maxReasonBytes name = .ok () ↔ _
  unfold validateVisible
  simp only [bind_eq_ok, refuseIf_eq_ok, hchars, hempty, not_or, not_exists, not_and, maxReasonBytes, not_lt]
  constructor
  · rintro ⟨_, ⟨hne, hsize⟩, hbidi⟩
    exact ⟨hne, hsize, fun c hc => by simpa using hbidi c hc⟩
  · rintro ⟨hne, hsize, hbidi⟩
    exact ⟨(), ⟨hne, hsize⟩, fun c hc => by simp [hbidi c hc]⟩

theorem size_of_visible (h : ∀ name, validateVisible (World.boundedReason text) maxReasonBytes name = .ok ()) :
    (World.boundedReason text).utf8ByteSize ≤ maxReasonBytes := by
  have hv := h ""
  simp only [validateVisible, bind_eq_ok, refuseIf_eq_ok, not_or, not_lt] at hv
  obtain ⟨_, ⟨-, hsize⟩, -⟩ := hv
  exact hsize

theorem completionShape_of_size {subject detail detail' : String} {digest code : Option String}
    (hsize : detail'.utf8ByteSize ≤ maxReasonBytes)
    (h : validateCommandShape.completionShape subject digest code (some detail) = .ok ()) :
    validateCommandShape.completionShape subject digest code (some detail') = .ok () := by
  simp only [validateCommandShape.completionShape, bind_eq_ok, refuseIf_eq_ok] at h ⊢
  obtain ⟨_, hdigest, _, hcode, -⟩ := h
  exact ⟨(), hdigest, (), hcode, by simpa using hsize⟩

/-- **When a failure text can be journaled**: exactly when one of its characters is kept, the kept ones fit the reducer's
bytes, and none of them overrides the direction of text. -/
theorem failure_text_journalable (text : String) : Journalable text ↔
    keptChars text ≠ [] ∧ (String.ofList (keptChars text)).utf8ByteSize ≤ 2048 ∧
      ∀ c ∈ keptChars text, Text.isBidiOverride c = false := by
  constructor
  · intro h
    exact (visible_iff text "").1 (h.visible "")
  · intro h
    have hvisible : ∀ name, validateVisible (World.boundedReason text) maxReasonBytes name = .ok () :=
      fun name => (visible_iff text name).2 h
    have hsize := size_of_visible hvisible
    refine ⟨hvisible, ?_, ?_, ?_⟩
    · rintro H d _ code other ⟨hshape, hvalid⟩
      refine ⟨completionShape_of_size hsize hshape, ?_⟩
      simp only [finishTaskFailure, World.finishCommand, validateCommand, validateCompletion, bind_eq_ok] at hvalid ⊢
      obtain ⟨_, hauth, target, htarget, _, hadmitted, _, hchild, _, hattempt, _, hack, hterminal⟩ := hvalid
      refine ⟨(), hauth, target, htarget, (), hadmitted, (), hchild, (), hattempt, (), ?_, ?_⟩
      · cases hs : target.state with
        | cancelling _ => simp [hs, validateAcknowledgement, bind_eq_ok] at hack
        | _ => rfl
      · simp only [validateTerminal, validateDetail, bind_eq_ok] at hterminal ⊢
        obtain ⟨c, hc, _, hcode, _, -, hdigest⟩ := hterminal
        exact ⟨c, hc, (), hcode, (), hvisible _, hdigest⟩
    · rintro H d attempt code _ other ⟨hshape, hvalid⟩
      refine ⟨completionShape_of_size hsize hshape, ?_⟩
      simp only [AttemptTerminal.command, validateCommand, validateAttemptCompletion, validateDetail, bind_eq_ok]
        at hvalid ⊢
      obtain ⟨_, hactor, a, ha, _, hrunning, c, hc, _, hcode, _, -, hdisposition⟩ := hvalid
      exact ⟨(), hactor, a, ha, (), hrunning, c, hc, (), hcode, (), hvisible _, hdisposition⟩
    · rintro H d attempt other ⟨hshape, hvalid⟩
      refine ⟨completionShape_of_size hsize hshape, ?_⟩
      simp only [AttemptTerminal.command, validateCommand, validateAttemptCompletion, orElseError_eq_ok, bind_eq_ok]
        at hvalid ⊢
      obtain ⟨_, hactor, a, ha, _, hrunning, _, -, _, -, hdisposition⟩ := hvalid
      exact ⟨(), hactor, a, ha, (), hrunning, _, rfl, (), hvisible _, hdisposition⟩

/-- A child that reports an empty error, and one whose error holds a direction override. -/
theorem not_failure_text_journalable : ¬ Journalable "" ∧ ¬ Journalable (.ofList ['a', Char.ofNat 8238]) := by
  refine ⟨fun h => ?_, fun h => ?_⟩
  · obtain ⟨hkept, -⟩ := (visible_iff "" "").1 (h.visible "")
    exact hkept (by decide)
  · obtain ⟨-, -, hplain⟩ := (visible_iff _ "").1 (h.visible "")
    have hmem : Char.ofNat 8238 ∈ keptChars (.ofList ['a', Char.ofNat 8238]) := by
      rw [keptChars, String.toList_ofList]
      decide
    exact absurd (hplain _ hmem) (by decide)

end Iteron.WorkflowAgent
