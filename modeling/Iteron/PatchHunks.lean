import Iteron.EditExact
import Iteron.EditNormalized
import Iteron.Running
import Iteron.Utf8
import Mathlib.Data.List.Pairwise
/-!
# PatchHunks — the order of the hunks of a file

The hunks of a file are planned against its snapshot, checked against each other, sized one after the other, and spliced
in the order of their spans.  What they give is the snapshot with every span replaced at once, and the order of the
request matters exactly for the running size (`order_free_iff`).
-/
namespace Iteron.Patch

open Refuse Running
open Edit (Plan)
open Utf8

def renderHunks (P : Planner) (r : Resolved) (original : Bytes) (hunks : List Hunk) : Except PatchFailure Bytes := do
  let edits ← hunks.zipIdx.foldlM (planHunk P r original) []
  (renderSnapshotEdits original edits).mapError (fun hunkIndex =>
    .hunk "updated_file_too_large" r.fileIndex hunkIndex r.request.path
      ("updated file exceeds " ++ toString maxFileBytes ++ " bytes"))

def Planner.editing (P : Planner) (limits : Edit.Limits) : Planner :=
  { P with planUniqueEdit := fun content hunk =>
      (Edit.planUniqueEdit limits content (utf8 hunk.old) (utf8 hunk.new)).map (fun plan =>
        (plan.start, plan.stop, plan.replacement)) }

/-! ## Spans -/

def SnapshotEdit.plan (edit : SnapshotEdit) : Plan := ⟨edit.start, edit.stop, edit.replacement⟩

def Apart (a b : Plan) : Prop := a.stop ≤ b.start ∨ b.stop ≤ a.start

def InText (original : Bytes) (p : Plan) : Prop := p.start < p.stop ∧ p.stop ≤ original.length

def growth (p : Plan) : Int := p.replacement.length - (p.stop - p.start : Nat)

theorem Apart.symm {a b : Plan} (h : Apart a b) : Apart b a := Or.symm h

theorem spansOverlap_eq_false {a b : SnapshotEdit} : spansOverlap a b = false ↔ Apart a.plan b.plan := by
  rw [spansOverlap, Bool.and_eq_false_iff, decide_eq_false_iff_not, decide_eq_false_iff_not, Nat.not_lt, Nat.not_lt, Apart,
    or_comm]
  rfl

/-- The original with every span replaced at once: the first byte of a span gives the replacement, its other bytes
nothing, and every other byte itself. -/
def replaceSpans (ps : List Plan) : Nat → Bytes → Bytes
  | _, [] => []
  | i, b :: rest =>
    ((ps.find? (fun p => p.start == i)).map Plan.replacement).getD [] ++
      ((if ps.any (fun p => decide (p.start ≤ i) && decide (i < p.stop)) then [] else [b]) ++ replaceSpans ps (i + 1) rest)

section
variable {ps : List Plan} {rest : Bytes}

theorem replaceSpans_outside (hnonempty : ∀ p ∈ ps, p.start < p.stop) : ∀ {seg : Bytes} {i : Nat},
    (∀ p ∈ ps, p.stop ≤ i ∨ i + seg.length ≤ p.start) →
    replaceSpans ps i (seg ++ rest) = seg ++ replaceSpans ps (i + seg.length) rest
  | [], i, _ => rfl
  | b :: seg, i, h => by
    rw [List.length_cons] at h
    have hfind : ps.find? (fun p => p.start == i) = none := by
      rw [List.find?_eq_none]
      intro p hp
      have := hnonempty p hp
      have := h p hp
      simp only [beq_iff_eq]
      omega
    have hany : ps.any (fun p => decide (p.start ≤ i) && decide (i < p.stop)) = false := by
      rw [List.any_eq_false]
      intro p hp
      have := h p hp
      simp only [Bool.and_eq_true, decide_eq_true_eq]
      omega
    have ih : replaceSpans ps (i + 1) (seg ++ rest) = seg ++ replaceSpans ps (i + 1 + seg.length) rest :=
      replaceSpans_outside hnonempty (fun p hp => by have := h p hp; omega)
    rw [List.cons_append, replaceSpans, hfind, hany, ih, List.length_cons, Nat.add_right_comm, Nat.add_assoc]
    rfl

variable {p : Plan}

theorem replaceSpans_inside (hp : p ∈ ps) (hstarts : ∀ q ∈ ps, q.start ≤ p.start ∨ p.stop ≤ q.start) :
    ∀ {seg : Bytes} {i : Nat}, p.start < i → i + seg.length ≤ p.stop →
    replaceSpans ps i (seg ++ rest) = replaceSpans ps (i + seg.length) rest
  | [], i, _, _ => rfl
  | b :: seg, i, hi, hlen => by
    rw [List.length_cons] at hlen
    have hfind : ps.find? (fun p => p.start == i) = none := by
      rw [List.find?_eq_none]
      intro q hq
      have := hstarts q hq
      simp only [beq_iff_eq]
      omega
    have hany : ps.any (fun p => decide (p.start ≤ i) && decide (i < p.stop)) = true := by
      rw [List.any_eq_true]
      refine ⟨p, hp, ?_⟩
      simp only [Bool.and_eq_true, decide_eq_true_eq]
      omega
    have ih : replaceSpans ps (i + 1) (seg ++ rest) = replaceSpans ps (i + 1 + seg.length) rest :=
      replaceSpans_inside hp hstarts (by omega) (by omega)
    rw [List.cons_append, replaceSpans, hfind, hany, ih, List.length_cons, Nat.add_right_comm, Nat.add_assoc]
    rfl

theorem replaceSpans_span {seg : Bytes} (hp : p ∈ ps) (hstarts : ∀ q ∈ ps, q.start = p.start → q = p)
    (hothers : ∀ q ∈ ps, q.start ≤ p.start ∨ p.stop ≤ q.start) (hlen : p.start + seg.length = p.stop) (hpos : p.start < p.stop) :
    replaceSpans ps p.start (seg ++ rest) = p.replacement ++ replaceSpans ps p.stop rest := by
  cases seg with
  | nil =>
    rw [List.length_nil] at hlen
    omega
  | cons b seg =>
    rw [List.length_cons] at hlen
    have hfind : ps.find? (fun q => q.start == p.start) = some p := by
      cases hq : ps.find? (fun q => q.start == p.start) with
      | none => exact absurd (List.find?_eq_none.1 hq p hp) (by simp)
      | some q =>
        have hstart : q.start = p.start := by simpa using List.find?_some hq
        rw [hstarts q (List.mem_of_find?_eq_some hq) hstart]
    have hany : ps.any (fun q => decide (q.start ≤ p.start) && decide (p.start < q.stop)) = true := by
      rw [List.any_eq_true]
      exact ⟨p, hp, by simpa using hpos⟩
    have hinside : replaceSpans ps (p.start + 1) (seg ++ rest) = replaceSpans ps (p.start + 1 + seg.length) rest :=
      replaceSpans_inside hp hothers (by omega) (by omega)
    rw [List.cons_append, replaceSpans, hfind, hany, hinside, show p.start + 1 + seg.length = p.stop by omega]
    rfl

end

/-! ## Spans laid out one behind the other -/

def Laid (length : Nat) : Nat → List SnapshotEdit → Prop
  | cursor, [] => cursor ≤ length
  | cursor, e :: es => cursor ≤ e.start ∧ e.start < e.stop ∧ Laid length e.stop es

section
variable {original : Bytes} {edits : List SnapshotEdit} {ps : List Plan}

theorem laid_of_sorted : ∀ {edits : List SnapshotEdit} {cursor : Nat}, cursor ≤ original.length →
    edits.Pairwise (fun a b => a.start ≤ b.start) → edits.Pairwise (fun a b => Apart a.plan b.plan) →
    (∀ e ∈ edits, InText original e.plan) → (∀ e ∈ edits, cursor ≤ e.start) → Laid original.length cursor edits
  | [], _, hcursor, _, _, _, _ => hcursor
  | e :: es, cursor, _, hsorted, hapart, hin, hfrom => by
    obtain ⟨hpos, hstop⟩ := hin e (.head _)
    refine ⟨hfrom e (.head _), hpos, ?_⟩
    refine laid_of_sorted hstop hsorted.of_cons hapart.of_cons (fun x hx => hin x (List.mem_cons_of_mem e hx)) ?_
    intro x hx
    have hle := List.rel_of_pairwise_cons hsorted hx
    have hlt : x.start < x.stop := (hin x (List.mem_cons_of_mem e hx)).1
    obtain h | h := List.rel_of_pairwise_cons hapart hx
    · exact h
    · have : x.stop ≤ e.start := h
      omega

theorem Laid.sum_le : ∀ {edits : List SnapshotEdit} {length cursor : Nat}, Laid length cursor edits →
    cursor + (edits.map (fun e => e.stop - e.start)).sum ≤ length
  | [], _, _, h => h
  | e :: es, length, cursor, h => by
    have ih := Laid.sum_le h.2.2
    have hcursor := h.1
    have hpos := h.2.1
    rw [List.map_cons, List.sum_cons]
    omega

theorem Laid.stop_le : ∀ {edits : List SnapshotEdit} {length cursor : Nat}, Laid length cursor edits → cursor ≤ length
  | [], _, _, h => h
  | e :: _, length, cursor, h => by
    have := Laid.stop_le h.2.2
    have := h.1
    have := h.2.1
    omega

theorem Laid.le_start : ∀ {edits : List SnapshotEdit} {length cursor : Nat}, Laid length cursor edits →
    ∀ e ∈ edits, cursor ≤ e.start
  | [], _, _, _, e, he => by cases he
  | e :: es, length, cursor, h, x, hx => by
    obtain ⟨hcursor, _, hrest⟩ := h
    rw [List.mem_cons] at hx
    obtain rfl | hx := hx
    · exact hcursor
    · have := Laid.le_start hrest x hx
      omega

theorem drop_split (original : Bytes) {i j k : Nat} (hij : i ≤ j) (hjk : j ≤ k) :
    original.drop i = (original.drop i).take (j - i) ++ ((original.drop j).take (k - j) ++ original.drop k) := by
  have hj : original.drop j = (original.drop i).drop (j - i) := by rw [List.drop_drop, Nat.add_sub_cancel' hij]
  have hk : original.drop k = (original.drop j).drop (k - j) := by rw [List.drop_drop, Nat.add_sub_cancel' hjk]
  rw [hk, List.take_append_drop, hj, List.take_append_drop]

/-- **Splicing** spans that are laid out replaces them at once. -/
theorem spliceEdits_eq (hnonempty : ∀ p ∈ ps, p.start < p.stop) (hunique : ∀ p ∈ ps, ∀ q ∈ ps, q ≠ p → Apart q p) :
    ∀ {edits : List SnapshotEdit} {cursor : Nat}, Laid original.length cursor edits →
    (∀ p ∈ ps, p.stop ≤ cursor ∨ p ∈ edits.map SnapshotEdit.plan) → (∀ e ∈ edits, e.plan ∈ ps) →
    spliceEdits original cursor edits = replaceSpans ps cursor (original.drop cursor)
  | [], cursor, _, hleft, _ => by
    have houtside : replaceSpans ps cursor (original.drop cursor ++ []) =
        original.drop cursor ++ replaceSpans ps (cursor + (original.drop cursor).length) [] :=
      replaceSpans_outside hnonempty (fun p hp => (hleft p hp).imp_right (by simp))
    rw [List.append_nil] at houtside
    rw [spliceEdits, houtside, replaceSpans, List.append_nil]
  | e :: es, cursor, hlaid, hleft, hright => by
    obtain ⟨hcursor, hpos, hrest⟩ := hlaid
    have hstop := hrest.stop_le
    have hmem := hright e (.head _)
    have hothers (q : Plan) (hq : q ∈ ps) (hne : q ≠ e.plan) : q.stop ≤ e.start ∨ e.stop ≤ q.start := hunique _ hmem q hq hne
    have ih := spliceEdits_eq hnonempty hunique hrest ?_ ?_
    · have hsplit := drop_split original hcursor (Nat.le_of_lt hpos)
      have hlen1 : cursor + ((original.drop cursor).take (e.start - cursor)).length = e.start := by
        rw [List.length_take, List.length_drop]
        omega
      have hlen2 : e.plan.start + ((original.drop e.start).take (e.stop - e.start)).length = e.plan.stop := by
        rw [List.length_take, List.length_drop]
        show e.start + min (e.stop - e.start) (original.length - e.start) = e.stop
        omega
      have hspan : replaceSpans ps e.start ((original.drop e.start).take (e.stop - e.start) ++ original.drop e.stop) =
          e.replacement ++ replaceSpans ps e.stop (original.drop e.stop) := by
        refine replaceSpans_span hmem (fun q hq hstart => ?_) (fun q hq => ?_) hlen2 hpos
        · by_contra hne
          have := hothers q hq hne
          have := hnonempty q hq
          have : q.start = e.start := hstart
          omega
        · by_cases hne : q = e.plan
          · rw [hne]
            exact .inl (Nat.le_refl _)
          · have := hothers q hq hne
            have := hnonempty q hq
            show q.start ≤ e.start ∨ e.stop ≤ q.start
            omega
      have houtside : replaceSpans ps cursor ((original.drop cursor).take (e.start - cursor) ++
          ((original.drop e.start).take (e.stop - e.start) ++ original.drop e.stop)) =
          (original.drop cursor).take (e.start - cursor) ++ replaceSpans ps e.start
            ((original.drop e.start).take (e.stop - e.start) ++ original.drop e.stop) := by
        rw [replaceSpans_outside hnonempty, hlen1]
        intro p hp
        rw [hlen1]
        refine (hleft p hp).imp_right fun h => ?_
        rw [List.map_cons, List.mem_cons, List.mem_map] at h
        obtain rfl | ⟨x, hx, rfl⟩ := h
        · exact Nat.le_refl _
        · have : e.stop ≤ x.start := hrest.le_start x hx
          exact Nat.le_trans (Nat.le_of_lt hpos) this
      rw [spliceEdits, ih]
      conv_rhs => rw [hsplit]
      rw [houtside, hspan, List.append_assoc]
    · intro p hp
      obtain h | h := hleft p hp
      · exact .inl (by omega)
      · rw [List.map_cons, List.mem_cons] at h
        obtain rfl | h := h
        · exact .inl (Nat.le_refl _)
        · exact .inr h
    · exact fun x hx => hright x (List.mem_cons_of_mem e hx)

/-! ## The running size -/

theorem renderedLength_ok {acc n : Nat} {e : SnapshotEdit} (hspan : e.stop - e.start ≤ acc) :
    renderedLength acc e = .ok n ↔ acc - (e.stop - e.start) + e.replacement.length = n ∧ n ≤ maxFileBytes := by
  rw [renderedLength, Machine.checkedSub, if_pos hspan, Option.bind_some, Machine.checkedAdd]
  have hmax : maxFileBytes ≤ Machine.u64Max := by decide
  by_cases hle : acc - (e.stop - e.start) + e.replacement.length ≤ Machine.u64Max
  · rw [if_pos hle]
    simp only
    split
    · rename_i hfit
      rw [Except.ok.injEq]
      exact ⟨fun h => ⟨h, h ▸ hfit⟩, And.left⟩
    · rename_i hover
      refine ⟨fun h => (by cases h), fun h => ?_⟩
      exact absurd (h.1 ▸ h.2) hover
  · rw [if_neg hle]
    refine ⟨fun h => (by cases h), fun h => ?_⟩
    omega

theorem foldlM_renderedLength : ∀ {edits : List SnapshotEdit} {acc : Nat}, (edits.map (fun e => e.stop - e.start)).sum ≤ acc →
    ((∃ n, edits.foldlM renderedLength acc = .ok n) ↔ Fits maxFileBytes acc (edits.map (fun e => growth e.plan)))
  | [], acc, _ => ⟨fun _ => trivial, fun _ => ⟨acc, rfl⟩⟩
  | e :: es, acc, hsum => by
    rw [List.map_cons, List.sum_cons] at hsum
    have hspan : e.stop - e.start ≤ acc := by omega
    have hgrowth : (acc : Int) + growth e.plan = (acc - (e.stop - e.start) + e.replacement.length : Nat) := by
      simp only [growth, SnapshotEdit.plan]
      omega
    have hsum' : (es.map (fun e => e.stop - e.start)).sum ≤ acc - (e.stop - e.start) + e.replacement.length := by omega
    rw [List.map_cons, Fits, hgrowth, ← foldlM_renderedLength hsum', List.foldlM_cons]
    constructor
    · rintro ⟨n, hn⟩
      obtain ⟨m, hm, hn⟩ := bind_eq_ok.1 hn
      obtain ⟨rfl, hle⟩ := (renderedLength_ok hspan).1 hm
      exact ⟨by exact_mod_cast hle, n, hn⟩
    · rintro ⟨hle, n, hn⟩
      exact ⟨n, bind_eq_ok.2 ⟨_, (renderedLength_ok hspan).2 ⟨rfl, by exact_mod_cast hle⟩, hn⟩⟩

/-- **Rendering** succeeds exactly when the sizes fit, and replaces all spans at once. -/
theorem renderSnapshotEdits_iff (hapart : edits.Pairwise (fun a b => Apart a.plan b.plan))
    (hin : ∀ e ∈ edits, InText original e.plan) (hps : ∀ p, p ∈ ps ↔ p ∈ edits.map SnapshotEdit.plan) :
    ((∃ u, renderSnapshotEdits original edits = .ok u) ↔ Fits maxFileBytes original.length (edits.map (fun e => growth e.plan))) ∧
      ∀ u, renderSnapshotEdits original edits = .ok u → u = replaceSpans ps 0 original := by
  have : Std.Symm (fun a b : SnapshotEdit => Apart a.plan b.plan) := ⟨fun _ _ h => h.symm⟩
  have hperm := List.perm_insertionSort (fun a b : SnapshotEdit => a.start ≤ b.start) edits
  have hsorted := List.pairwise_insertionSort (fun a b : SnapshotEdit => a.start ≤ b.start) edits
  have hlaid : Laid original.length 0 (edits.insertionSort (fun a b => a.start ≤ b.start)) := by
    refine laid_of_sorted (Nat.zero_le _) hsorted ?_ (fun e he => hin e (hperm.mem_iff.1 he)) (fun e _ => Nat.zero_le _)
    exact (hperm.symm.pairwise_iff (fun h => h.symm)).1 hapart
  have hsum : (edits.map (fun e => e.stop - e.start)).sum ≤ original.length := by
    have := hlaid.sum_le
    rwa [(hperm.map _).sum_eq, Nat.zero_add] at this
  have hsplice : spliceEdits original 0 (edits.insertionSort (fun a b => a.start ≤ b.start)) = replaceSpans ps 0 original := by
    refine spliceEdits_eq ?_ ?_ hlaid ?_ ?_
    · intro p hp
      obtain ⟨e, he, rfl⟩ := List.mem_map.1 ((hps p).1 hp)
      exact (hin e he).1
    · intro p hp q hq hne
      obtain ⟨e, he, rfl⟩ := List.mem_map.1 ((hps p).1 hp)
      obtain ⟨x, hx, rfl⟩ := List.mem_map.1 ((hps q).1 hq)
      refine hapart.forall hx he ?_
      rintro rfl
      exact hne rfl
    · intro p hp
      obtain ⟨e, he, rfl⟩ := List.mem_map.1 ((hps p).1 hp)
      exact .inr (List.mem_map_of_mem (hperm.mem_iff.2 he))
    · intro e he
      exact (hps _).2 (List.mem_map_of_mem (hperm.mem_iff.1 he))
  rw [renderSnapshotEdits, ← foldlM_renderedLength hsum]
  constructor
  · constructor
    · rintro ⟨u, hu⟩
      obtain ⟨n, hn, -⟩ := bind_eq_ok.1 hu
      exact ⟨n, hn⟩
    · rintro ⟨n, hn⟩
      exact ⟨_, bind_eq_ok.2 ⟨n, hn, rfl⟩⟩
  · intro u hu
    obtain ⟨n, -, hu⟩ := bind_eq_ok.1 hu
    rw [← pure_eq_ok.1 hu, hsplice]

end

/-! ## Planning -/

section
variable (P : Planner) (r : Resolved) (original : Bytes)

def planOf (hunk : Hunk) : Option Plan :=
  (P.planUniqueEdit original hunk).toOption.map (fun t => ⟨t.1, t.2.1, t.2.2⟩)

theorem planHunk_ok {edits edits' : List SnapshotEdit} {hunk : Hunk} {i : Nat} :
    planHunk P r original edits (hunk, i) = .ok edits' ↔ ∃ e : SnapshotEdit, planOf P original hunk = some e.plan ∧
      e.hunkIndex = i ∧ (∀ x ∈ edits, Apart x.plan e.plan) ∧ edits' = edits ++ [e] := by
  have hforM (e : SnapshotEdit) (err : SnapshotEdit → PatchFailure) (u : PUnit) :
      (edits.find? (spansOverlap e)).forM (fun prior => (.error (err prior) : Except PatchFailure PUnit)) = .ok u ↔
        ∀ x ∈ edits, Apart x.plan e.plan := by
    cases hf : edits.find? (spansOverlap e) with
    | none =>
      refine ⟨fun _ x hx => ?_, fun _ => rfl⟩
      have := List.find?_eq_none.1 hf x hx
      exact (spansOverlap_eq_false.1 (by simpa using this)).symm
    | some x =>
      refine ⟨fun h => (by cases h), fun h => ?_⟩
      have hover := List.find?_some hf
      have := spansOverlap_eq_false.2 (h x (List.mem_of_find?_eq_some hf)).symm
      rw [hover] at this
      cases this
  constructor
  · intro h
    obtain ⟨⟨start, stop, replacement⟩, hplan, h⟩ := bind_eq_ok.1 h
    obtain ⟨u, hno, h⟩ := bind_eq_ok.1 h
    rw [mapError_eq_ok] at hplan
    refine ⟨⟨i, start, stop, replacement⟩, ?_, rfl, (hforM _ _ u).1 hno, (pure_eq_ok.1 h).symm⟩
    rw [planOf, hplan]
    rfl
  · rintro ⟨e, hplan, rfl, hapart, rfl⟩
    have hplan' : P.planUniqueEdit original hunk = .ok (e.start, e.stop, e.replacement) := by
      rw [planOf] at hplan
      cases hp : P.planUniqueEdit original hunk with
      | error err =>
        rw [hp] at hplan
        cases hplan
      | ok t =>
        rw [hp] at hplan
        obtain ⟨start, stop, replacement⟩ := t
        have := Option.some.inj hplan
        cases this
        rfl
    refine bind_eq_ok.2 ⟨_, mapError_eq_ok.2 hplan', ?_⟩
    exact bind_eq_ok.2 ⟨⟨⟩, (hforM _ _ _).2 hapart, rfl⟩

/-- **Planning** succeeds exactly when every hunk has a span and no two overlap. -/
theorem foldlM_planHunk : ∀ {l : List (Hunk × Nat)} {edits : List SnapshotEdit},
    edits.Pairwise (fun a b => Apart a.plan b.plan) → ((∃ edits', l.foldlM (planHunk P r original) edits = .ok edits') ↔
        (∀ x ∈ l, (planOf P original x.1).isSome = true) ∧
          (edits.map SnapshotEdit.plan ++ (l.map Prod.fst).filterMap (planOf P original)).Pairwise Apart) ∧
      ∀ edits', l.foldlM (planHunk P r original) edits = .ok edits' →
        edits'.map SnapshotEdit.plan = edits.map SnapshotEdit.plan ++ (l.map Prod.fst).filterMap (planOf P original) ∧
          edits'.Pairwise (fun a b => Apart a.plan b.plan)
  | [], edits, hapart => by
    refine ⟨⟨fun _ => ⟨by simp, ?_⟩, fun _ => ⟨edits, rfl⟩⟩, fun edits' h => ?_⟩
    · simpa [List.pairwise_map] using hapart
    · obtain rfl : edits = edits' := by simpa [pure, Except.pure] using h
      exact ⟨by simp, hapart⟩
  | (hunk, i) :: l, edits, hapart => by
    rw [List.foldlM_cons]
    cases hplan : planOf P original hunk with
    | none =>
      have hfail (edits' : List SnapshotEdit) :
          (planHunk P r original edits (hunk, i) >>= fun s => l.foldlM (planHunk P r original) s) ≠ .ok edits' := by
        intro h
        obtain ⟨s, hs, -⟩ := bind_eq_ok.1 h
        obtain ⟨e, he, -⟩ := (planHunk_ok P r original).1 hs
        rw [hplan] at he
        cases he
      refine ⟨⟨?_, fun h => ?_⟩, fun edits' h => absurd h (hfail edits')⟩
      · rintro ⟨edits', h⟩
        exact absurd h (hfail edits')
      · have := h.1 (hunk, i) (.head _)
        rw [hplan] at this
        cases this
    | some p =>
      have hcons : ((((hunk, i) :: l).map Prod.fst).filterMap (planOf P original)) =
          p :: (l.map Prod.fst).filterMap (planOf P original) := by
        rw [List.map_cons, List.filterMap_cons_some hplan]
      rw [hcons]
      by_cases hno : ∀ x ∈ edits, Apart x.plan p
      · -- the hunk is planned, and the others are planned after it
        obtain ⟨e, rfl, hindex⟩ : ∃ e : SnapshotEdit, e.plan = p ∧ e.hunkIndex = i :=
          ⟨⟨i, p.start, p.stop, p.replacement⟩, rfl, rfl⟩
        have hstep : planHunk P r original edits (hunk, i) = .ok (edits ++ [e]) :=
          (planHunk_ok P r original).2 ⟨e, hplan, hindex, hno, rfl⟩
        have hpair : (edits ++ [e]).Pairwise (fun a b => Apart a.plan b.plan) := by
          refine List.pairwise_append.2 ⟨hapart, List.pairwise_singleton _ _, fun x hx y hy => ?_⟩
          rw [List.mem_singleton.1 hy]
          exact hno x hx
        have hcat : (edits ++ [e]).map SnapshotEdit.plan ++ (l.map Prod.fst).filterMap (planOf P original) =
            edits.map SnapshotEdit.plan ++ e.plan :: (l.map Prod.fst).filterMap (planOf P original) := by
          rw [List.map_append, List.append_assoc]
          rfl
        have ih := foldlM_planHunk (l := l) hpair
        rw [hcat] at ih
        rw [hstep, ok_bind]
        refine ⟨ih.1.trans (and_congr_left' ?_), ih.2⟩
        rw [List.forall_mem_cons, hplan]
        simp
      · have hfail (edits' : List SnapshotEdit) :
            (planHunk P r original edits (hunk, i) >>= fun s => l.foldlM (planHunk P r original) s) ≠ .ok edits' := by
          intro h
          obtain ⟨s, hs, -⟩ := bind_eq_ok.1 h
          obtain ⟨e, he, -, hall, -⟩ := (planHunk_ok P r original).1 hs
          rw [hplan, Option.some.injEq] at he
          exact hno (he ▸ hall)
        refine ⟨⟨?_, fun h => ?_⟩, fun edits' h => absurd h (hfail edits')⟩
        · rintro ⟨edits', h⟩
          exact absurd h (hfail edits')
        · refine absurd (fun x hx => ?_) hno
          exact (List.pairwise_append.1 h.2).2.2 _ (List.mem_map_of_mem hx) p (.head _)

def plansOf (hunks : List Hunk) : List Plan := hunks.filterMap (planOf P original)

def hunkGrowth (hunk : Hunk) : Int := ((planOf P original hunk).map growth).getD 0

variable {hunks : List Hunk}

theorem map_hunkGrowth (h : ∀ x ∈ hunks, (planOf P original x).isSome = true) :
    (plansOf P original hunks).map growth = hunks.map (hunkGrowth P original) := by
  induction hunks with
  | nil => rfl
  | cons hunk hunks ih =>
    obtain ⟨p, hp⟩ := Option.isSome_iff_exists.1 (h hunk (.head _))
    rw [plansOf, List.filterMap_cons_some hp, List.map_cons, List.map_cons, hunkGrowth, hp]
    exact congrArg _ (ih (fun x hx => h x (List.mem_cons_of_mem hunk hx)))

def Plannable (hunks : List Hunk) : Prop :=
  (∀ x ∈ hunks, (planOf P original x).isSome = true) ∧ (plansOf P original hunks).Pairwise Apart

def PlansInText : Prop := ∀ hunk p, planOf P original hunk = some p → InText original p

/-- **The hunks of a file** are rendered exactly when they can be planned and their sizes fit, and then all spans are
replaced at once. -/
theorem renderHunks_iff (hin : PlansInText P original) {ps : List Plan}
    (hps : ∀ p, p ∈ ps ↔ p ∈ plansOf P original hunks) : ((∃ u, renderHunks P r original hunks = .ok u) ↔
        Plannable P original hunks ∧ Fits maxFileBytes original.length (hunks.map (hunkGrowth P original))) ∧
      ∀ u, renderHunks P r original hunks = .ok u → u = replaceSpans ps 0 original := by
  have hfst : hunks.zipIdx.map Prod.fst = hunks := List.zipIdx_map_fst ..
  have hall : (∀ x ∈ hunks.zipIdx, (planOf P original x.1).isSome = true) ↔
      ∀ x ∈ hunks, (planOf P original x).isSome = true := by
    conv_rhs => rw [← hfst]
    rw [List.forall_mem_map]
  obtain ⟨hplan, hval⟩ := foldlM_planHunk P r original (l := hunks.zipIdx) List.Pairwise.nil
  rw [hfst, List.map_nil, List.nil_append, hall] at hplan
  rw [hfst, List.map_nil, List.nil_append] at hval
  have hedits (edits : List SnapshotEdit) (h : hunks.zipIdx.foldlM (planHunk P r original) [] = .ok edits) :
      ((∃ u, renderSnapshotEdits original edits = .ok u) ↔
        Fits maxFileBytes original.length (hunks.map (hunkGrowth P original))) ∧
      ∀ u, renderSnapshotEdits original edits = .ok u → u = replaceSpans ps 0 original := by
    obtain ⟨hmap, hpair⟩ := hval edits h
    have hgrowth : edits.map (fun e => growth e.plan) = hunks.map (hunkGrowth P original) := by
      rw [← map_hunkGrowth P original (hplan.1 ⟨edits, h⟩).1, plansOf, ← hmap, List.map_map]
      rfl
    rw [← hgrowth]
    refine renderSnapshotEdits_iff hpair (fun e he => ?_) (fun p => by rw [hps p, plansOf, hmap])
    have hmem : e.plan ∈ hunks.filterMap (planOf P original) := hmap ▸ List.mem_map_of_mem he
    obtain ⟨hunk, -, hhunk⟩ := List.mem_filterMap.1 hmem
    exact hin hunk _ hhunk
  constructor
  · constructor
    · rintro ⟨u, hu⟩
      obtain ⟨edits, hok, hu⟩ := bind_eq_ok.1 hu
      exact ⟨hplan.1 ⟨edits, hok⟩, (hedits edits hok).1.1 ⟨u, mapError_eq_ok.1 hu⟩⟩
    · rintro ⟨hp, hfits⟩
      obtain ⟨edits, hok⟩ := hplan.2 hp
      obtain ⟨u, hu⟩ := (hedits edits hok).1.2 hfits
      exact ⟨u, bind_eq_ok.2 ⟨edits, hok, mapError_eq_ok.2 hu⟩⟩
  · intro u hu
    obtain ⟨edits, hok, hu⟩ := bind_eq_ok.1 hu
    exact (hedits edits hok).2 u (mapError_eq_ok.1 hu)

/-- Every order of the hunks succeeds as this one does, and gives the original with all spans replaced at once. -/
def OrderFree (hunks : List Hunk) : Prop :=
  ∀ hunks', hunks'.Perm hunks →
    ((∃ u, renderHunks P r original hunks' = .ok u) ↔ ∃ u, renderHunks P r original hunks = .ok u) ∧
      ∀ u, renderHunks P r original hunks' = .ok u → u = replaceSpans (plansOf P original hunks) 0 original

theorem Plannable.perm {hunks' : List Hunk} (hp : hunks'.Perm hunks) (h : Plannable P original hunks) :
    Plannable P original hunks' :=
  ⟨fun x hx => h.1 x (hp.mem_iff.1 hx), ((hp.filterMap _).pairwise_iff (fun h => h.symm)).2 h.2⟩

theorem orderFree_iff (hin : PlansInText P original) (hunks : List Hunk) : OrderFree P r original hunks ↔
    ¬ Plannable P original hunks ∨ (maxFileBytes < original.length + (hunks.map (hunkGrowth P original)).sum ∨
        ∀ x ∈ hunks, maxFileBytes < original.length + hunkGrowth P original x) ∨
      AllFit maxFileBytes original.length (hunkGrowth P original) hunks := by
  have hmem (hunks' : List Hunk) (hp : hunks'.Perm hunks) (p : Plan) :
      p ∈ plansOf P original hunks ↔ p ∈ plansOf P original hunks' := (hp.filterMap _).mem_iff.symm
  have hiff (hunks' : List Hunk) (hp : hunks'.Perm hunks) := renderHunks_iff P r original hin (hmem hunks' hp)
  by_cases hplan : Plannable P original hunks
  · rw [← perm_fits_iff]
    simp only [hplan, not_true_eq_false, false_or]
    constructor
    · intro h hunks' hp
      have hsame := (h hunks' hp).1
      rw [(hiff hunks' hp).1, (hiff hunks (List.Perm.refl hunks)).1] at hsame
      have hplan' := hplan.perm P original hp
      constructor
      · intro hfits
        exact (hsame.1 ⟨hplan', hfits⟩).2
      · intro hfits
        exact (hsame.2 ⟨hplan, hfits⟩).2
    · intro h hunks' hp
      refine ⟨?_, (hiff hunks' hp).2⟩
      rw [(hiff hunks' hp).1, (hiff hunks (List.Perm.refl hunks)).1]
      exact and_congr ⟨fun h' => h'.perm P original hp.symm, fun h' => h'.perm P original hp⟩ (h hunks' hp)
  · refine ⟨fun _ => .inl hplan, fun _ hunks' hp => ⟨?_, (hiff hunks' hp).2⟩⟩
    rw [(hiff hunks' hp).1, (hiff hunks (List.Perm.refl hunks)).1]
    exact ⟨fun h => absurd (h.1.perm P original hp.symm) hplan, fun h => absurd h.1 hplan⟩

end

/-! ## With the edit tool -/

theorem plansInText_editing (P : Planner) (limits : Edit.Limits) (original : Bytes) :
    PlansInText (P.editing limits) original := by
  intro hunk p hp
  obtain ⟨t, ht, rfl⟩ := Option.map_eq_some_iff.1 hp
  cases hplan : Edit.planUniqueEdit limits original (utf8 hunk.old) (utf8 hunk.new) with
  | error _ =>
    simp only [Planner.editing, hplan] at ht
    cases ht
  | ok _ =>
    simp only [Planner.editing, hplan] at ht
    cases ht
    obtain ⟨hold, -, -, ⟨s, hm, rfl⟩ | ⟨-, hnormal⟩⟩ := Edit.planUniqueEdit_ok hplan
    · have hlen := List.IsPrefix.length_le ((Edit.matchIndices_singleton_iff hold).1 hm).1
      have hpos := List.length_pos_of_ne_nil hold
      rw [List.length_drop] at hlen
      show s < s + (utf8 hunk.old).length ∧ s + (utf8 hunk.old).length ≤ original.length
      omega
    · exact Edit.planNormalizedEdit_span hnormal

/-- **The order of the hunks does not matter** exactly when they cannot be planned, when no order keeps the running size
within the limit, or when no choice of them is over it. -/
theorem order_free_iff (P : Planner) (limits : Edit.Limits) (r : Resolved) (original : Bytes) (hunks : List Hunk) :
    OrderFree (P.editing limits) r original hunks ↔ ¬ Plannable (P.editing limits) original hunks ∨
        (maxFileBytes < original.length + (hunks.map (hunkGrowth (P.editing limits) original)).sum ∨
          ∀ x ∈ hunks, maxFileBytes < original.length + hunkGrowth (P.editing limits) original x) ∨
        AllFit maxFileBytes original.length (hunkGrowth (P.editing limits) original) hunks :=
  orderFree_iff (P.editing limits) r original (plansInText_editing P limits original) hunks

def onePlanner : Planner := ⟨fun path => .ok path, isUtf8, fun _ _ => .error .emptyAnchor, fun _ => ""⟩

def oneRequest : Resolved := ⟨0, ⟨"notes", []⟩, "notes"⟩

/-- A text of `x` with `abb` at its end. -/
def longText (n : Nat) : Bytes := List.replicate n 120 ++ [97, 98, 98]

theorem length_longText (n : Nat) : (longText n).length = n + 3 := by simp [longText]

variable {c : UInt8}

theorem longText_get {n s : Nat} (h : (longText n)[s]? = some c) :
    (s < n ∧ c = 120) ∨ (s = n ∧ c = 97) ∨ (s = n + 1 ∧ c = 98) ∨ (s = n + 2 ∧ c = 98) := by
  rw [longText] at h
  by_cases hs : s < n
  · rw [List.getElem?_append_left (by simpa using hs), List.getElem?_replicate_of_lt hs] at h
    exact .inl ⟨hs, (Option.some.inj h).symm⟩
  · obtain ⟨k, rfl⟩ := Nat.exists_eq_add_of_le (Nat.not_lt.1 hs)
    rw [List.getElem?_append_right (by simp), List.length_replicate, Nat.add_sub_cancel_left] at h
    rcases k with _ | _ | _ | k
    · exact .inr (.inl ⟨rfl, (Option.some.inj h).symm⟩)
    · exact .inr (.inr (.inl ⟨rfl, (Option.some.inj h).symm⟩))
    · exact .inr (.inr (.inr ⟨rfl, (Option.some.inj h).symm⟩))
    · cases h

theorem occursAt_get {pat text : Bytes} {s k : Nat} (h : Edit.OccursAt pat text s) (hc : pat[k]? = some c) :
    text[s + k]? = some c := by
  obtain ⟨rest, hrest⟩ := h
  have hleft : (pat ++ rest)[k]? = pat[k]? := List.getElem?_append_left (List.getElem?_eq_some_iff.1 hc).1
  rwa [hrest, List.getElem?_drop, hc] at hleft

theorem planOf_longText {n s : Nat} {old new : String} {pat replacement : Bytes} (hold : utf8 old = pat)
    (hnew : utf8 new = replacement) (hpat : pat ≠ []) (hne : pat ≠ replacement)
    (hclean : (Edit.suspiciousUnicode pat).or (Edit.suspiciousUnicode replacement) = none)
    (hs : Edit.OccursAt pat (longText n) s) (hunique : ∀ s', Edit.OccursAt pat (longText n) s' → s' = s) :
    planOf (onePlanner.editing {}) (longText n) ⟨old, new⟩ = some ⟨s, s + pat.length, replacement⟩ := by
  have hm : Edit.matchIndices pat 0 (longText n) = [s] := by
    refine (Edit.matchIndices_singleton_iff hpat).2 ⟨hs, fun s' hs' => ?_⟩
    have := hunique s' hs'
    have := List.length_pos_of_ne_nil hpat
    omega
  simp only [planOf, Planner.editing, hold, hnew, Edit.planUniqueEdit_eq hpat hne hclean hm]
  rfl

theorem planOf_grow (n : Nat) : planOf (onePlanner.editing {}) (longText n) ⟨"a", "cc"⟩ = some ⟨n, n + 1, [99, 99]⟩ := by
  refine planOf_longText (by rfl) (by rfl) (List.cons_ne_nil 97 []) (by decide) (by decide) ?_ ?_
  · rw [Edit.OccursAt, longText, List.drop_left' (List.length_replicate ..)]
    decide
  · intro s hs
    have := longText_get (occursAt_get (k := 0) hs rfl)
    simp at this
    omega

theorem planOf_shrink (n : Nat) : planOf (onePlanner.editing {}) (longText n) ⟨"bb", "d"⟩ = some ⟨n + 1, n + 3, [100]⟩ := by
  refine planOf_longText (by rfl) (by rfl) (List.cons_ne_nil 98 [98]) (by decide) (by decide) ?_ ?_
  · rw [Edit.OccursAt, longText, ← List.drop_drop, List.drop_left' (List.length_replicate ..)]
    decide
  · intro s hs
    have h0 := longText_get (occursAt_get (k := 0) hs rfl)
    have h1 := longText_get (occursAt_get (k := 1) hs rfl)
    simp at h0 h1
    omega

/-- In a file of the largest size a hunk that grows fits only after one that shrinks. -/
theorem not_order_free_grow_first :
    ¬ OrderFree (onePlanner.editing {}) oneRequest (longText 4194301) [⟨"a", "cc"⟩, ⟨"bb", "d"⟩] := by
  have hgrow := planOf_grow 4194301
  have hshrink := planOf_shrink 4194301
  have hgrowth : hunkGrowth (onePlanner.editing {}) (longText 4194301) ⟨"a", "cc"⟩ = 1 := by
    rw [hunkGrowth, hgrow]
    decide
  have hgrowth' : hunkGrowth (onePlanner.editing {}) (longText 4194301) ⟨"bb", "d"⟩ = -1 := by
    rw [hunkGrowth, hshrink]
    decide
  rw [order_free_iff, length_longText]
  rintro (hplan | (hsum | hfirst) | hall)
  · refine hplan ⟨?_, ?_⟩
    · simp [hgrow, hshrink]
    · rw [plansOf, List.filterMap_cons_some hgrow, List.filterMap_cons_some hshrink]
      simp [Apart]
  · simp [hgrowth, hgrowth', maxFileBytes] at hsum
  · have := hfirst ⟨"bb", "d"⟩ (by simp)
    rw [hgrowth'] at this
    simp [maxFileBytes] at this
  · have := hall [⟨"a", "cc"⟩] (by simp) (List.cons_ne_nil _ _)
    simp [hgrowth, maxFileBytes] at this

end Iteron.Patch
