import Iteron.Machine
import Iteron.Utf8
/-!
# ProcessOutput — paging through the output of a process

A stream keeps a tail of the bytes it observed, and a frame is a page of them from a cursor on, read as text on its own.
A reader that asks for each frame where the last one ended gets every retained byte once and in order; its texts are the
text of the stream where the pages end between two characters.
-/
namespace Iteron.ProcessOutput

open Machine (u64Max saturatingAdd)
open Utf8 (utf8 isUtf8 fromUtf8Lossy)

structure OutputFrame where
  text : String
  encoding : String
  oldestCursor : Nat
  nextCursor : Nat
  observedCursor : Nat
  gap : Bool
  hasMore : Bool
  closed : Bool

/-- The parameters that the ring reads when it is used. -/
structure Tunables where
  maxExecDeltas : Nat
  pollOutputBytesPerStream : Nat

structure OutputRing where
  bytes : List UInt8 := []
  oldestCursor : Nat := 0
  observedCursor : Nat := 0
  retainedLimit : Nat
  observedLimit : Nat
  deltas : Nat := 0
  limitNotified : Bool := false
  closed : Bool := false

namespace OutputRing

def evict (limit : Nat) : List UInt8 → Nat → List UInt8 × Nat
  | [], oldest => ([], oldest)
  | b :: rest, oldest =>
    if limit < (b :: rest).length then evict limit rest (saturatingAdd oldest 1) else (b :: rest, oldest)

/-- The ring after a chunk, and whether this chunk crossed a ceiling first. -/
def push (tn : Tunables) (ring : OutputRing) (chunk : List UInt8) : OutputRing × Bool :=
  let kept := evict ring.retainedLimit (ring.bytes ++ chunk) ring.oldestCursor
  let ring' :=
    { ring with
      deltas := saturatingAdd ring.deltas 1, observedCursor := saturatingAdd ring.observedCursor chunk.length
      bytes := kept.1, oldestCursor := kept.2 }
  if (ring'.observedLimit < ring'.observedCursor || tn.maxExecDeltas < ring'.deltas) && !ring.limitNotified then
    ({ ring' with limitNotified := true }, true)
  else (ring', false)

def close (ring : OutputRing) : OutputRing := { ring with closed := true }

/-- The offset of a cursor in the retained bytes, and how many of them a page takes from there. -/
def pageOffset (ring : OutputRing) (start : Nat) : Nat := min (start - ring.oldestCursor) ring.bytes.length

def pageLength (tn : Tunables) (ring : OutputRing) (start : Nat) : Nat :=
  min (ring.bytes.length - ring.pageOffset start) tn.pollOutputBytesPerStream

def page (tn : Tunables) (ring : OutputRing) (start : Nat) : List UInt8 :=
  (ring.bytes.drop (ring.pageOffset start)).take (ring.pageLength tn start)

def frame (tn : Tunables) (ring : OutputRing) (requestedCursor : Nat) : Except String OutputFrame :=
  if ring.observedCursor < requestedCursor then
    .error s!"cursor {requestedCursor} is beyond observed output cursor {ring.observedCursor}"
  else
    let start := max requestedCursor ring.oldestCursor
    let nextCursor := saturatingAdd start (ring.pageLength tn start)
    .ok
      { text := fromUtf8Lossy (ring.page tn start)
        encoding := "utf8-lossy"
        oldestCursor := ring.oldestCursor
        nextCursor
        observedCursor := ring.observedCursor
        gap := decide (requestedCursor < ring.oldestCursor)
        hasMore := decide (nextCursor < ring.observedCursor)
        closed := ring.closed }

end OutputRing

/-! ## A reader of the stream -/

/-- A frame with the cursor it was asked for and the ring that gave it. -/
structure Polled where
  requested : Nat
  ring : OutputRing
  frame : OutputFrame

def Polled.start (p : Polled) : Nat := max p.requested p.ring.oldestCursor

/-- The stream and its reader: where the reader stands, and as history what was pushed and what was polled. -/
structure Reader where
  ring : OutputRing
  cursor : Nat := 0
  pushed : List UInt8 := []
  polled : List Polled := []

inductive Event where
  | push (chunk : List UInt8)
  | close
  | poll

/-- A stream is closed once its last chunk was read, so nothing is pushed after that. -/
def step (tn : Tunables) (σ : Reader) : Event → Option Reader
  | .push chunk =>
    if σ.ring.closed then none else some { σ with ring := (σ.ring.push tn chunk).1, pushed := σ.pushed ++ chunk }
  | .close => some { σ with ring := σ.ring.close }
  | .poll =>
    match σ.ring.frame tn σ.cursor with
    | .error _ => none
    | .ok f => some { σ with cursor := f.nextCursor, polled := σ.polled ++ [⟨σ.cursor, σ.ring, f⟩] }

def run (tn : Tunables) (σ : Reader) (es : List Event) : Option Reader := es.foldlM (step tn) σ

def fresh (retainedLimit observedLimit : Nat) : Reader := { ring := { retainedLimit, observedLimit } }

/-! ## What the ring holds -/

/-- The ring holds the end of what was pushed, and its cursors count the bytes. -/
structure Holds (pushed : List UInt8) (ring : OutputRing) : Prop where
  observed : ring.observedCursor = pushed.length
  oldest : ring.oldestCursor ≤ pushed.length
  bytes : ring.bytes = pushed.drop ring.oldestCursor

theorem saturatingAdd_eq {a b : Nat} (h : a + b ≤ u64Max) : saturatingAdd a b = a + b := Nat.min_eq_left h

theorem evict_spec (limit : Nat) {bytes : List UInt8} {oldest : Nat} (hroom : oldest + bytes.length ≤ u64Max) :
    ∃ k, k ≤ bytes.length ∧ OutputRing.evict limit bytes oldest = (bytes.drop k, oldest + k) := by
  induction bytes generalizing oldest with
  | nil => exact ⟨0, Nat.le_refl 0, rfl⟩
  | cons b _ ih =>
    rw [List.length_cons] at hroom
    unfold OutputRing.evict
    split
    · have hone : saturatingAdd oldest 1 = oldest + 1 := saturatingAdd_eq (by omega)
      obtain ⟨k, hk, heq⟩ := @ih (oldest + 1) (by omega)
      refine ⟨k + 1, Nat.succ_le_succ hk, ?_⟩
      rw [hone, heq, List.drop_succ_cons, Nat.add_assoc, Nat.add_comm 1 k]
    · exact ⟨0, Nat.zero_le _, rfl⟩

section

variable {tn : Tunables} {pushed chunk : List UInt8} {ring : OutputRing}

theorem push_fields (tn : Tunables) (ring : OutputRing) (chunk : List UInt8) :
    (ring.push tn chunk).1.bytes = (OutputRing.evict ring.retainedLimit (ring.bytes ++ chunk) ring.oldestCursor).1 ∧
      (ring.push tn chunk).1.oldestCursor = (OutputRing.evict ring.retainedLimit (ring.bytes ++ chunk) ring.oldestCursor).2 ∧
      (ring.push tn chunk).1.observedCursor = saturatingAdd ring.observedCursor chunk.length ∧
      (ring.push tn chunk).1.closed = ring.closed := by
  unfold OutputRing.push
  dsimp only
  split <;> exact ⟨rfl, rfl, rfl, rfl⟩

theorem Holds.push (hr : Holds pushed ring) (hroom : (pushed ++ chunk).length ≤ u64Max) :
    Holds (pushed ++ chunk) (ring.push tn chunk).1 := by
  obtain ⟨hbytes, holdest, hobserved, -⟩ := push_fields tn ring chunk
  have hretained : ring.bytes ++ chunk = (pushed ++ chunk).drop ring.oldestCursor := by
    rw [hr.bytes, List.drop_append_of_le_length hr.oldest]
  have hold := hr.oldest
  rw [List.length_append] at hroom
  have hlength : (ring.bytes ++ chunk).length = pushed.length + chunk.length - ring.oldestCursor := by
    rw [hretained, List.length_drop, List.length_append]
  obtain ⟨k, _, heq⟩ := @evict_spec ring.retainedLimit (ring.bytes ++ chunk) ring.oldestCursor (by omega)
  rw [heq] at hbytes holdest
  refine ⟨?_, ?_, ?_⟩
  · rw [hobserved, hr.observed, List.length_append, saturatingAdd_eq hroom]
  · rw [holdest, List.length_append]
    omega
  · rw [hbytes, holdest, hretained, List.drop_drop]

/-- **A page is cut from what was pushed**, and it ends where the next one starts. -/
theorem Holds.page (tn : Tunables) (hr : Holds pushed ring) (hroom : pushed.length ≤ u64Max) {start : Nat}
    (hstart : ring.oldestCursor ≤ start) (hend : start ≤ pushed.length) :
    ring.page tn start = (pushed.drop start).take (ring.pageLength tn start) ∧
      start + ring.pageLength tn start ≤ pushed.length ∧
      saturatingAdd start (ring.pageLength tn start) = start + ring.pageLength tn start := by
  have hlength : ring.bytes.length = pushed.length - ring.oldestCursor := by rw [hr.bytes, List.length_drop]
  have hoffset : ring.pageOffset start = start - ring.oldestCursor := by
    rw [OutputRing.pageOffset, hlength]
    omega
  have hfits : start + ring.pageLength tn start ≤ pushed.length := by
    have hle : ring.pageLength tn start ≤ ring.bytes.length - ring.pageOffset start := Nat.min_le_left _ _
    omega
  refine ⟨?_, hfits, saturatingAdd_eq (Nat.le_trans hfits hroom)⟩
  rw [OutputRing.page, hoffset, hr.bytes, List.drop_drop]
  congr 2
  omega

end

/-! ## The pages of a reader -/

def Polled.span (pushed : List UInt8) (p : Polled) : List UInt8 :=
  (pushed.drop p.start).take (p.frame.nextCursor - p.start)

/-- Each page was asked for where the one before it ended, and starts there or later. -/
def Consecutive : Nat → List Polled → Nat → Prop
  | c, [], c' => c = c'
  | c, p :: ps, c' => p.requested = c ∧ p.start ≤ p.frame.nextCursor ∧ Consecutive p.frame.nextCursor ps c'

theorem Consecutive.snoc {c c' : Nat} {ps : List Polled} (h : Consecutive c ps c') {p : Polled} (hp : p.requested = c')
    (hle : p.start ≤ p.frame.nextCursor) : Consecutive c (ps ++ [p]) p.frame.nextCursor := by
  induction ps generalizing c with
  | nil =>
    obtain rfl : c = c' := h
    exact ⟨hp, hle, rfl⟩
  | cons q ps ih => exact ⟨h.1, h.2.1, ih h.2.2⟩

/-- What a frame says is so: its text is its page's, a gap is where bytes before the page were dropped, and more is there
where later bytes are retained. -/
structure Faithful (pushed : List UInt8) (p : Polled) : Prop where
  text : p.frame.text = fromUtf8Lossy (p.span pushed)
  inside : p.frame.nextCursor ≤ pushed.length
  gap : p.frame.gap = true ↔ p.requested < p.start
  hasMore : p.frame.hasMore = true ↔ p.ring.bytes.drop (p.frame.nextCursor - p.ring.oldestCursor) ≠ []

/-- **The pages of a reader are exact**: consecutive, so that no byte is in two of them, and each as its frame says; and
the next page can be asked for. -/
structure PagesExact (tn : Tunables) (σ : Reader) : Prop where
  consecutive : Consecutive 0 σ.polled σ.cursor
  faithful : ∀ p ∈ σ.polled, Faithful σ.pushed p
  polls : (step tn σ .poll).isSome = true

/-- **The texts of a reader are exact**: when the stream is a text and no page reports a gap they start it, and they are
all of it once a page of the closed stream says there is no more. -/
def TextExact (σ : Reader) : Prop :=
  ∀ text : String, utf8 text = σ.pushed → (∀ p ∈ σ.polled, p.frame.gap = false) →
    (∃ rest, text = String.join (σ.polled.map (·.frame.text)) ++ rest) ∧
      ∀ p, σ.polled.getLast? = some p → p.frame.closed = true → p.frame.hasMore = false →
        String.join (σ.polled.map (·.frame.text)) = text

def Aligned (σ : Reader) : Prop := ∀ p ∈ σ.polled, isUtf8 (p.span σ.pushed) = true

structure Kept (σ : Reader) : Prop where
  holds : Holds σ.pushed σ.ring
  cursor : σ.cursor ≤ σ.pushed.length
  consecutive : Consecutive 0 σ.polled σ.cursor
  faithful : ∀ p ∈ σ.polled, Faithful σ.pushed p
  last : ∀ p, σ.polled.getLast? = some p → p.frame.nextCursor = σ.cursor
  ended : ∀ p ∈ σ.polled, p.frame.closed = true →
    σ.ring.closed = true ∧ (p.frame.hasMore = false → σ.pushed.length ≤ p.frame.nextCursor)

theorem kept_fresh (retainedLimit observedLimit : Nat) : Kept (fresh retainedLimit observedLimit) where
  holds := ⟨rfl, Nat.le_refl _, rfl⟩
  cursor := Nat.le_refl _
  consecutive := rfl
  faithful := fun _ hp => absurd hp List.not_mem_nil
  last := fun _ hp => by cases hp
  ended := fun _ hp => absurd hp List.not_mem_nil

section

variable {tn : Tunables} {σ σ' : Reader} {e : Event}

theorem span_append {pushed : List UInt8} {p : Polled} (hstart : p.start ≤ pushed.length)
    (hnext : p.frame.nextCursor ≤ pushed.length) (chunk : List UInt8) : p.span (pushed ++ chunk) = p.span pushed := by
  rw [Polled.span, Polled.span, List.drop_append_of_le_length hstart, List.take_append_of_le_length]
  rw [List.length_drop]
  omega

variable {ps : List Polled}

theorem Consecutive.start_le {c c' : Nat} (h : Consecutive c ps c') : ∀ p ∈ ps, p.start ≤ p.frame.nextCursor := by
  induction ps generalizing c with
  | nil => exact fun p hp => absurd hp List.not_mem_nil
  | cons q ps ih =>
    intro p hp
    rcases List.mem_cons.1 hp with rfl | hp
    · exact h.2.1
    · exact ih h.2.2 p hp

theorem Kept.push (hk : Kept σ) {chunk : List UInt8} (hopen : σ.ring.closed = false)
    (hroom : (σ.pushed ++ chunk).length ≤ u64Max) :
    Kept { σ with ring := (σ.ring.push tn chunk).1, pushed := σ.pushed ++ chunk } where
  holds := hk.holds.push hroom
  cursor := by
    rw [List.length_append]
    exact Nat.le_trans hk.cursor (Nat.le_add_right _ _)
  consecutive := hk.consecutive
  faithful := fun p hp => by
    have hf := hk.faithful p hp
    have hspan := span_append (Nat.le_trans (hk.consecutive.start_le p hp) hf.inside) hf.inside chunk
    refine ⟨hf.text.trans (by rw [hspan]), ?_, hf.gap, hf.hasMore⟩
    have := hf.inside
    rw [List.length_append]
    omega
  last := hk.last
  ended := fun p hp hclosed => by
    have hnow := (hk.ended p hp hclosed).1
    rw [hopen] at hnow
    cases hnow

theorem Kept.close (hk : Kept σ) : Kept { σ with ring := σ.ring.close } where
  holds := ⟨hk.holds.observed, hk.holds.oldest, hk.holds.bytes⟩
  cursor := hk.cursor
  consecutive := hk.consecutive
  faithful := hk.faithful
  last := hk.last
  ended := fun p hp hclosed => ⟨rfl, (hk.ended p hp hclosed).2⟩

theorem frame_ok (tn : Tunables) (hr : Holds σ.pushed σ.ring) (hroom : σ.pushed.length ≤ u64Max)
    (hcursor : σ.cursor ≤ σ.pushed.length) : ∃ f, σ.ring.frame tn σ.cursor = .ok f ∧ Faithful σ.pushed ⟨σ.cursor, σ.ring, f⟩ ∧
      (⟨σ.cursor, σ.ring, f⟩ : Polled).start ≤ f.nextCursor ∧ f.closed = σ.ring.closed ∧
      (f.hasMore = false → σ.pushed.length ≤ f.nextCursor) := by
  have hstart : σ.ring.oldestCursor ≤ max σ.cursor σ.ring.oldestCursor := Nat.le_max_right _ _
  have hend : max σ.cursor σ.ring.oldestCursor ≤ σ.pushed.length := Nat.max_le.2 ⟨hcursor, hr.oldest⟩
  obtain ⟨hpage, hfits, hnext⟩ := hr.page tn hroom hstart hend
  have hcheck : ¬ σ.ring.observedCursor < σ.cursor := by
    rw [hr.observed]
    omega
  refine ⟨_, if_neg hcheck, ⟨?_, ?_, ?_, ?_⟩, ?_, rfl, ?_⟩
  · rw [hpage, Polled.span]
    dsimp only [Polled.start]
    rw [hnext, Nat.add_sub_cancel_left]
  · rw [hnext]
    exact hfits
  · show decide (σ.cursor < σ.ring.oldestCursor) = true ↔ σ.cursor < max σ.cursor σ.ring.oldestCursor
    rw [decide_eq_true_iff]
    omega
  · show decide (saturatingAdd _ _ < _) = true ↔ σ.ring.bytes.drop (saturatingAdd _ _ - σ.ring.oldestCursor) ≠ []
    rw [hnext, decide_eq_true_iff, hr.observed, hr.bytes, List.drop_drop, ne_eq, List.drop_eq_nil_iff, Nat.not_le]
    omega
  · rw [hnext]
    exact Nat.le_add_right _ _
  · intro hmore
    have hmore' : ¬ saturatingAdd (max σ.cursor σ.ring.oldestCursor) (σ.ring.pageLength tn _) < σ.ring.observedCursor :=
      of_decide_eq_false hmore
    rw [hr.observed] at hmore'
    exact Nat.not_lt.1 hmore'

theorem Kept.poll (hk : Kept σ) (hroom : σ.pushed.length ≤ u64Max) (hstep : step tn σ .poll = some σ') : Kept σ' := by
  obtain ⟨f, hf, hfaithful, hle, hclosed, hended⟩ := frame_ok tn hk.holds hroom hk.cursor
  simp only [step, hf] at hstep
  cases hstep
  refine ⟨hk.holds, hfaithful.inside, hk.consecutive.snoc rfl hle, ?_, ?_, ?_⟩
  · intro p hp
    rcases List.mem_append.1 hp with hp | hp
    · exact hk.faithful p hp
    · exact List.mem_singleton.1 hp ▸ hfaithful
  · intro p hp
    rw [List.getLast?_append, List.getLast?_singleton, Option.some_or] at hp
    rw [← Option.some.inj hp]
  · intro p hp hpc
    rcases List.mem_append.1 hp with hp | hp
    · exact hk.ended p hp hpc
    · rw [List.mem_singleton] at hp
      subst hp
      exact ⟨hclosed ▸ hpc, hended⟩

theorem pushed_step (hstep : step tn σ e = some σ') : σ.pushed.length ≤ σ'.pushed.length := by
  cases e with
  | push _ =>
    simp only [step] at hstep
    split at hstep
    · cases hstep
    · cases hstep
      simp only [List.length_append]
      omega
  | close =>
    cases hstep
    exact Nat.le_refl _
  | poll =>
    simp only [step] at hstep
    split at hstep
    · cases hstep
    · cases hstep
      exact Nat.le_refl _

variable {es : List Event}

theorem pushed_run (hrun : run tn σ es = some σ') : σ.pushed.length ≤ σ'.pushed.length := by
  induction es generalizing σ with
  | nil => exact Option.some.inj hrun ▸ Nat.le_refl _
  | cons e es ih =>
    obtain ⟨_, h1, hrest⟩ := Option.bind_eq_some_iff.1 hrun
    exact Nat.le_trans (pushed_step h1) (ih hrest)

theorem Kept.step (hk : Kept σ) (hroom : σ'.pushed.length ≤ u64Max) (hstep : step tn σ e = some σ') : Kept σ' := by
  have hbefore := Nat.le_trans (pushed_step hstep) hroom
  cases e with
  | push _ =>
    simp only [ProcessOutput.step] at hstep
    split at hstep
    · cases hstep
    · rename_i hopen
      cases hstep
      exact hk.push (eq_false_of_ne_true hopen) hroom
  | close =>
    cases hstep
    exact hk.close
  | poll => exact hk.poll hbefore hstep

theorem Kept.run (hk : Kept σ) (hroom : σ'.pushed.length ≤ u64Max) (hrun : run tn σ es = some σ') : Kept σ' := by
  induction es generalizing σ with
  | nil => exact Option.some.inj hrun ▸ hk
  | cons e es ih =>
    obtain ⟨_, h1, hrest⟩ := Option.bind_eq_some_iff.1 hrun
    refine ih (hk.step ?_ h1) hrest
    exact Nat.le_trans (pushed_run hrest) hroom

theorem Consecutive.covers {pushed : List UInt8} {c c' : Nat} (h : Consecutive c ps c')
    (hf : ∀ p ∈ ps, Faithful pushed p) (hgap : ∀ p ∈ ps, p.frame.gap = false) :
    c ≤ c' ∧ ps.flatMap (Polled.span pushed) = (pushed.drop c).take (c' - c) := by
  induction ps generalizing c with
  | nil =>
    obtain rfl : c = c' := h
    rw [Nat.sub_self, List.take_zero]
    exact ⟨Nat.le_refl c, rfl⟩
  | cons p ps ih =>
    obtain ⟨_, _, hrest⟩ := h
    have hstart : p.start = c := by
      have hno := (hf p (.head _)).gap.not.1 (ne_true_of_eq_false (hgap p (.head _)))
      have hmax : p.requested ≤ p.start := Nat.le_max_left _ _
      omega
    obtain ⟨_, heq⟩ := ih hrest (fun q hq => hf q (List.mem_cons_of_mem p hq))
      (fun q hq => hgap q (List.mem_cons_of_mem p hq))
    refine ⟨by omega, ?_⟩
    rw [List.flatMap_cons, heq, Polled.span, hstart]
    have hsplit : c' - c = (p.frame.nextCursor - c) + (c' - p.frame.nextCursor) := by omega
    have hdrop : pushed.drop p.frame.nextCursor = (pushed.drop c).drop (p.frame.nextCursor - c) := by
      rw [List.drop_drop]
      congr 1
      omega
    rw [hsplit, List.take_add, hdrop]

theorem utf8_join {pushed : List UInt8} (hf : ∀ p ∈ ps, Faithful pushed p) (ha : ∀ p ∈ ps, isUtf8 (p.span pushed) = true) :
    utf8 (String.join (ps.map (·.frame.text))) = ps.flatMap (Polled.span pushed) := by
  induction ps with
  | nil => rfl
  | cons p ps ih =>
    obtain ⟨_, htext⟩ := Utf8.isUtf8_iff.1 (ha p (.head _))
    rw [List.map_cons, String.join_cons, Utf8.utf8_append, List.flatMap_cons,
      ih (fun q hq => hf q (List.mem_cons_of_mem p hq)) (fun q hq => ha q (List.mem_cons_of_mem p hq)),
      (hf p (.head _)).text, ← htext, Utf8.fromUtf8Lossy_utf8]

theorem Kept.text (hk : Kept σ) (ha : Aligned σ) : TextExact σ := by
  intro text htext hgap
  obtain ⟨-, hcover⟩ := hk.consecutive.covers hk.faithful hgap
  have hjoin := utf8_join hk.faithful ha
  rw [hcover, List.drop_zero, Nat.sub_zero] at hjoin
  have hbytes : utf8 (String.ofList (String.join (σ.polled.map (·.frame.text))).toList) ++ σ.pushed.drop σ.cursor =
      utf8 (String.ofList text.toList) := by
    rw [String.ofList_toList, String.ofList_toList, hjoin, List.take_append_drop, htext]
  obtain ⟨rest, hrest, hleft⟩ := Utf8.prefix_of_utf8 hbytes
  have hsplit : text = String.join (σ.polled.map (·.frame.text)) ++ String.ofList rest := by
    apply String.toList_inj.1
    rw [String.toList_append, String.toList_ofList, hrest]
  refine ⟨⟨_, hsplit⟩, fun p hp hclosed hmore => ?_⟩
  have hin := List.mem_of_getLast? hp
  have hall : σ.pushed.length ≤ σ.cursor := hk.last p hp ▸ (hk.ended p hin hclosed).2 hmore
  rw [List.drop_eq_nil_of_le hall, Utf8.utf8_eq_nil] at hleft
  rw [hsplit, hleft, String.append_empty]

end

/-- **Paging is lossless.**  In every run of a stream and its reader the pages are exact, as long as the cursors can count
the bytes; and the texts are exact when each page ends between two characters. -/
theorem paging_lossless (tn : Tunables) (retainedLimit observedLimit : Nat) (es : List Event) (σ : Reader)
    (hrun : run tn (fresh retainedLimit observedLimit) es = some σ) (hroom : σ.pushed.length ≤ u64Max) :
    PagesExact tn σ ∧ (Aligned σ → TextExact σ) := by
  have hk := (kept_fresh retainedLimit observedLimit).run hroom hrun
  obtain ⟨f, hf, -⟩ := frame_ok tn hk.holds hroom hk.cursor
  refine ⟨⟨hk.consecutive, hk.faithful, ?_⟩, hk.text⟩
  simp only [step, hf, Option.isSome_some]

/-- Pages of at most four bytes, and a ring that keeps eight. -/
def small : Tunables := ⟨100, 4⟩

def sevenBytes : List Event :=
  [.push [104, 195, 169], .poll, .push [108, 108, 111, 33], .close, .poll, .poll]

theorem sevenBytes_run : (run small (fresh 8 100) sevenBytes).map (fun σ =>
      decide (σ.pushed = utf8 "héllo!" ∧ σ.pushed.length = 7 ∧ σ.polled.map (·.frame.gap) = [false, false, false] ∧
        σ.polled.map (·.frame.text) = ["hé", "llo!", ""] ∧ σ.polled.all (fun p => isUtf8 (p.span σ.pushed)))) =
      some true := by
  rfl

theorem paging_lossless_sevenBytes :
    ∃ σ, run small (fresh 8 100) sevenBytes = some σ ∧ PagesExact small σ ∧ TextExact σ := by
  obtain ⟨σ, hσ, hfacts⟩ := Option.map_eq_some_iff.1 sevenBytes_run
  obtain ⟨-, hlength, -, -, haligned⟩ := of_decide_eq_true hfacts
  obtain ⟨hpages, htexts⟩ := paging_lossless small 8 100 sevenBytes σ hσ (by rw [hlength]; decide)
  exact ⟨σ, hσ, hpages, htexts (fun p hp => List.all_eq_true.1 haligned p hp)⟩

/-- A character whose two bytes come in two chunks, each polled at once. -/
def splitChar : List Event := [.push [195], .poll, .push [169], .close, .poll]

theorem splitChar_run : (run small (fresh 8 100) splitChar).map (fun σ =>
      decide (σ.pushed = utf8 "é" ∧ (∀ p ∈ σ.polled, p.frame.gap = false) ∧
        String.join (σ.polled.map (·.frame.text)) = "\uFFFD\uFFFD")) = some true := by
  rfl

/-- Its texts are not a part of the text. -/
theorem not_paging_lossless :
    ¬ ∀ (es : List Event) (σ : Reader), run small (fresh 8 100) es = some σ → PagesExact small σ ∧ TextExact σ := by
  intro h
  obtain ⟨σ, hσ, hfacts⟩ := Option.map_eq_some_iff.1 splitChar_run
  obtain ⟨hpushed, hgap, hjoin⟩ := of_decide_eq_true hfacts
  obtain ⟨⟨_, hrest⟩, -⟩ := (h splitChar σ hσ).2 "é" hpushed.symm hgap
  rw [hjoin] at hrest
  have hlist := congrArg String.toList hrest
  rw [String.toList_append] at hlist
  exact absurd (List.cons.inj hlist).1 (by decide)

end Iteron.ProcessOutput
