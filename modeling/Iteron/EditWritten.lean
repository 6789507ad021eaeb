import Iteron.EditJoin
/-!
# EditWritten — the written file of an edit

The written file is the mark, the edited text, and its repaired end.  Behind an exact anchor the line endings are those of
the content and of the new text, and a mark comes to the front only where the text before it is deleted.
-/
namespace Iteron.Edit
open Patch (Bytes UniqueEditError)
open Utf8
open List (append_nil cons_append cons_prefix_cons length_cons nil_append prefix_append)

variable {limits : Limits} {a b t u text content file written : Bytes} {old new : String}

/-! ## The written file -/

def bomOf (file : Bytes) : Bytes := if utf8Bom <+: file then utf8Bom else []

/-- The edited text with its end repaired as the content ends. -/
def ended (content updated : Bytes) : Bytes :=
  if content.getLast? = some lf then (if updated.getLast? = some lf then updated else updated ++ [cr, lf])
  else (popLineEndings updated.reverse).reverse

theorem bomOf_contentOf (file : Bytes) : bomOf file ++ contentOf file = file := by
  rw [bomOf, contentOf]
  split
  · rename_i h
    obtain ⟨_, rfl⟩ := h
    rw [List.drop_left]
  · rfl

theorem bomOf_cases (file : Bytes) : bomOf file = utf8Bom ∨ bomOf file = [] := by
  rw [bomOf]
  split
  · exact .inl rfl
  · exact .inr rfl

theorem crLfOnly_bomOf : CrLfOnly (bomOf file ++ t) ↔ CrLfOnly t := by
  obtain h | h := bomOf_cases file
  · rw [h]
    refine ⟨fun hall => hall.of_append_right ?_, fun ht => CrLfOnly.append (crLfOnly_of_not_mem (by decide)) ht⟩
    intro hhead
    cases t with
    | nil => cases hhead
    | cons c t =>
      rw [List.head?_cons, Option.some.injEq] at hhead
      have := hall utf8Bom t (by rw [hhead])
      revert this
      decide
  · rw [h, nil_append]

theorem getLast?_bomOf : (bomOf file ++ t).getLast? = some lf ↔ t.getLast? = some lf := by
  obtain h | h := bomOf_cases file
  · rw [h, List.getLast?_append]
    cases t.getLast? with
    | none => decide
    | some c => rfl
  · rw [h, nil_append]

theorem editFile_ok (hcrlf : CrLfOnly file) (hlf : lf ∈ file) (h : editFile limits file old new = .ok written) :
    ∃ plan, planUniqueEdit limits (contentOf file) (utf8 old) (asCrLf (utf8 new)) = .ok plan ∧
      isUtf8 (contentOf file) = true ∧ written = bomOf file ++ ended (contentOf file) (plan.apply (contentOf file)) := by
  have hfile := bomOf_contentOf file
  have hcontent : CrLfOnly (contentOf file) := crLfOnly_bomOf.1 (hfile.symm ▸ hcrlf)
  have hmem : lf ∈ contentOf file := by
    rw [← hfile, List.mem_append] at hlf
    obtain hbom | hlf := hlf
    · obtain h | h := bomOf_cases file
      · rw [h] at hbom
        exact absurd hbom (by decide)
      · rw [h] at hbom
        cases hbom
    · exact hlf
  have hfirst : ((contentOf file).takeWhile (· != lf)).getLast? = some cr := by
    obtain ⟨x, y, hxy, hx⟩ := List.eq_append_cons_of_mem hmem
    have htake : (contentOf file).takeWhile (· != lf) = x := by
      rw [hxy, List.takeWhile_append_of_pos]
      · simp
      · intro c hc
        simp only [bne_iff_ne, ne_eq]
        rintro rfl
        exact hx hc
    rw [htake]
    exact hcontent x y hxy
  have hend (hlast : (contentOf file).getLast? = some lf) : [cr, lf] <:+ contentOf file := by
    obtain ⟨x, hx⟩ := List.getLast?_eq_some_iff.1 hlast
    obtain ⟨y, hy⟩ := List.getLast?_eq_some_iff.1 (hcontent x [] hx)
    exact ⟨y, by rw [hx, hy]; simp⟩
  obtain ⟨_, hparse, h⟩ := Refuse.bind_eq_ok.1 h
  obtain ⟨_, hupdated, h⟩ := Refuse.bind_eq_ok.1 h
  rw [Refuse.pure_eq_ok] at h
  rw [EditableText.parse] at hparse
  split at hparse
  · cases hparse
  split at hparse
  · cases hparse
  rename_i hutf8
  cases hparse
  simp only [EditableText.normalizeReplacement] at hupdated
  rw [applyUniqueEdit] at hupdated
  cases hplan : planUniqueEdit limits (contentOf file) (utf8 old) (toCrLf (toLf (utf8 new))) with
  | error _ =>
    rw [hplan] at hupdated
    cases hupdated
  | ok plan =>
    rw [hplan] at hupdated
    cases hupdated
    refine ⟨plan, hplan, by simpa using hutf8, ?_⟩
    rw [← h, EditableText.encode, bomOf]
    congr 1
    · simp
    · rw [EditableText.restoreEnd, ended]
      by_cases hlast : (contentOf file).getLast? = some lf
      · simp only [if_pos hlast, if_pos (hend hlast)]
        rfl
      · simp only [if_neg hlast]

theorem getLast?_ended (content u : Bytes) : (ended content u).getLast? = some lf ↔ content.getLast? = some lf := by
  rw [ended]
  split <;> rename_i hlast
  · simp only [hlast, iff_true]
    split
    · rename_i hu
      exact hu
    · rw [List.getLast?_append]
      rfl
  · obtain ⟨_, -, -, hhead⟩ := popLineEndings_spec u.reverse
    rw [List.getLast?_reverse]
    exact ⟨fun h => absurd h hhead, fun h => absurd h hlast⟩

theorem ended_popped (h : content.getLast? ≠ some lf) (u : Bytes) :
    ∃ t, u = ended content u ++ t ∧ ∀ c ∈ t, c = cr ∨ c = lf := by
  obtain ⟨popped, heq, hpopped, -⟩ := popLineEndings_spec u.reverse
  refine ⟨popped.reverse, ?_, fun c hc => hpopped c (List.mem_reverse.1 hc)⟩
  rw [ended, if_neg h, ← List.reverse_append, ← heq, List.reverse_reverse]

theorem ended_cases (content u : Bytes) : (∃ t, ended content u = u ++ t ∧ (t = [] ∨ t = [cr, lf])) ∨
      ∃ t, u = ended content u ++ t ∧ ∀ c ∈ t, c = cr ∨ c = lf := by
  by_cases h : content.getLast? = some lf
  · rw [ended, if_pos h]
    split
    · exact .inl ⟨[], (append_nil u).symm, .inl rfl⟩
    · exact .inl ⟨[cr, lf], rfl, .inr rfl⟩
  · exact .inr (ended_popped h u)

theorem CrLfOnly.ended (h : CrLfOnly u) (content : Bytes) : CrLfOnly (ended content u) := by
  obtain ⟨t, heq, ht⟩ | ⟨t, heq, -⟩ := ended_cases content u
  · rw [heq]
    refine h.append ?_
    obtain rfl | rfl := ht
    · exact crLfOnly_of_not_mem List.not_mem_nil
    · exact crLfOnly_pair
  · rw [heq] at h
    exact h.of_append_left

theorem crLfOnly_ended_iff (ha : CrLfOnly a) (hcr : a.getLast? ≠ some cr) (hb : cr ∉ b) (hlast : content.getLast? ≠ some lf) :
    CrLfOnly (ended content (a ++ lf :: b)) ↔ ∀ c ∈ b, c = lf := by
  obtain ⟨t, heq, ht⟩ := ended_popped hlast (a ++ lf :: b)
  constructor
  · intro h c hc
    by_contra hne
    obtain ⟨x, y, rfl⟩ := List.append_of_mem hc
    have hsplit : (a ++ lf :: x) ++ c :: y = ended content (a ++ lf :: (x ++ c :: y)) ++ t := by
      rw [← heq]
      simp
    rcases List.append_eq_append_iff.1 hsplit with ⟨z, hz, -⟩ | ⟨z, hz, hzt⟩
    · refine hcr (h a (x ++ z) ?_)
      rw [hz]
      simp
    · cases z with
      | nil =>
        rw [append_nil] at hz
        exact hcr (h a x hz.symm)
      | cons d z =>
        have hct : c ∈ t := by
          rw [hzt]
          exact List.mem_append_right _ (.head _)
        obtain rfl | rfl := ht c hct
        · exact hb hc
        · exact hne rfl
  · intro h
    have hend : (ended content (a ++ lf :: b)).getLast? ≠ some lf := fun hlf => hlast ((getLast?_ended content _).1 hlf)
    rcases List.append_eq_append_iff.1 heq with ⟨z, hz, hzt⟩ | ⟨z, hz, -⟩
    · cases z with
      | nil =>
        rw [append_nil] at hz
        rw [hz]
        exact ha
      | cons d z =>
        -- what is left would end in a line feed
        refine absurd ?_ hend
        have hall : ∀ c ∈ d :: z, c = lf := by
          intro c hc
          have : c ∈ lf :: b := by
            rw [hzt]
            exact List.mem_append_left _ hc
          rw [List.mem_cons] at this
          exact this.elim id (h c)
        rw [hz, List.getLast?_append, List.getLast?_eq_some_getLast (List.cons_ne_nil d z)]
        rw [Option.some_or, Option.some.injEq]
        exact hall _ (List.getLast_mem _)
    · rw [hz] at ha
      exact ha.of_append_left

/-! ## The byte-order mark -/

theorem bom_append_iff (ht : ∀ c, t.head? = some c → c.toNat < 128) : utf8Bom <+: u ++ t ↔ utf8Bom <+: u := by
  have hno (c : UInt8) (hc : c.toNat < 128) : c ≠ 0xEF ∧ c ≠ 0xBB ∧ c ≠ 0xBF := by
    refine ⟨?_, ?_, ?_⟩
    all_goals
      rintro rfl
      revert hc
      decide
  refine ⟨fun h => ?_, fun h => h.trans (prefix_append u t)⟩
  rcases u with _ | ⟨x, _ | ⟨y, _ | ⟨z, u⟩⟩⟩
  · cases t with
    | nil => exact h
    | cons c t =>
      obtain ⟨h1, -⟩ := List.cons_prefix_cons.1 h
      exact absurd h1.symm (hno c (ht c rfl)).1
  · cases t with
    | nil => exact h
    | cons c t =>
      obtain ⟨-, h⟩ := List.cons_prefix_cons.1 h
      obtain ⟨h2, -⟩ := List.cons_prefix_cons.1 h
      exact absurd h2.symm (hno c (ht c rfl)).2.1
  · cases t with
    | nil => exact h
    | cons c t =>
      obtain ⟨-, h⟩ := List.cons_prefix_cons.1 h
      obtain ⟨-, h⟩ := List.cons_prefix_cons.1 h
      obtain ⟨h3, -⟩ := List.cons_prefix_cons.1 h
      exact absurd h3.symm (hno c (ht c rfl)).2.2
  · rw [utf8Bom, cons_append, cons_append, cons_append, cons_prefix_cons, cons_prefix_cons, cons_prefix_cons] at h
    rw [utf8Bom, cons_prefix_cons, cons_prefix_cons, cons_prefix_cons]
    exact ⟨h.1, h.2.1, h.2.2.1, List.nil_prefix⟩

theorem bom_ended_iff (content u : Bytes) : utf8Bom <+: ended content u ↔ utf8Bom <+: u := by
  have hascii {t : Bytes} (h : ∀ c ∈ t, c = cr ∨ c = lf) (c : UInt8) (hc : t.head? = some c) : c.toNat < 128 := by
    obtain rfl | rfl := h c (List.mem_of_mem_head? hc)
    · decide
    · decide
  obtain ⟨t, heq, ht⟩ | ⟨t, heq, ht⟩ := ended_cases content u
  · rw [heq]
    refine bom_append_iff (hascii ?_)
    obtain rfl | rfl := ht
    · simp
    · simp
  · have := bom_append_iff (u := ended content u) (hascii ht)
    rw [← heq] at this
    exact this.symm

theorem bom_bomOf (h : ¬ utf8Bom <+: file) : bomOf file = [] ∧ contentOf file = file := ⟨if_neg h, if_neg h⟩

theorem suspicious_of_bom : ∀ {lead : Bytes}, (∀ c ∈ lead, isBlank c = true) → utf8Bom <+: text →
    suspiciousUnicode (lead ++ text) ≠ none
  | [], _, h => by
    obtain ⟨rest, rfl⟩ := h
    have hcodepoints : codepoints (utf8Bom ++ rest) = 0xFEFF :: codepoints rest := by
      rw [utf8Bom, cons_append, cons_append, cons_append, nil_append, codepoints.eq_def]
      rfl
    rw [nil_append, suspiciousUnicode, hcodepoints, List.find?_cons_of_pos (by decide)]
    exact Option.some_ne_none _
  | c :: lead, hlead, h => by
    have ih := suspicious_of_bom (fun d hd => hlead d (List.mem_cons_of_mem c hd)) h
    have hc : c = 32 ∨ c = 9 := by simpa [isBlank] using hlead c (.head _)
    have hcodepoints : ∃ n, codepoints (c :: (lead ++ text)) = n :: codepoints (lead ++ text) ∧ isSuspicious n = false := by
      obtain rfl | rfl := hc
      · exact ⟨32, by rw [codepoints.eq_def]; rfl, rfl⟩
      · exact ⟨9, by rw [codepoints.eq_def]; rfl, rfl⟩
    obtain ⟨n, hn, hs⟩ := hcodepoints
    rw [cons_append, suspiciousUnicode, hn, List.find?_cons_of_neg (by simp [hs])]
    exact ih

/-! ## The exact tier -/

variable {pat : Bytes}

theorem content_at {s : Nat} (h : OccursAt pat text s) : text = text.take s ++ (pat ++ text.drop (s + pat.length)) := by
  obtain ⟨rest, hrest⟩ := h
  have hdrop : text.drop (s + pat.length) = rest := by
    rw [← List.drop_drop, ← hrest, List.drop_left]
  rw [hdrop, hrest, List.take_append_drop]

/-- No place of the anchor starts or ends between a carriage return and its line feed. -/
def KeepsPairs (content old : Bytes) : Prop :=
  ∀ s, OccursAt old content s → ¬ CutsPair content s ∧ ¬ CutsPair content (s + old.length)

theorem crLfOnly_exact {s : Nat} (hcrlf : CrLfOnly content) (hs : OccursAt pat content s)
    (hpairs : KeepsPairs content pat) (ht : CrLfOnly t) :
    CrLfOnly (content.take s ++ (t ++ content.drop (s + pat.length))) := by
  have hbefore : CrLfOnly (content.take s) := by
    refine CrLfOnly.of_append_left (b := content.drop s) ?_
    rwa [List.take_append_drop]
  refine hbefore.append (ht.append ?_)
  have hsplit := List.take_append_drop (s + pat.length) content
  refine CrLfOnly.of_append_right (a := content.take (s + pat.length)) (by rwa [hsplit]) ?_
  intro hhead
  refine (hpairs s hs).2 ⟨?_, hhead⟩
  cases hd : content.drop (s + pat.length) with
  | nil =>
    rw [hd] at hhead
    cases hhead
  | cons c rest =>
    rw [hd, List.head?_cons, Option.some.injEq] at hhead
    rw [hd, hhead] at hsplit
    exact hcrlf _ rest hsplit.symm

variable {rest : Bytes}

theorem asCrLf_cons_ef (h : asCrLf text = 0xEF :: rest) : ∃ more, text = 0xEF :: more ∧ rest = asCrLf more := by
  cases text with
  | nil => cases h
  | cons c more =>
    rw [asCrLf, toLf] at h
    split at h
    · rename_i hc
      cases more with
      | nil => cases hc.2
      | cons d more =>
        rw [List.head?_cons, Option.some.injEq] at hc
        have hne : ¬ (d = cr ∧ more.head? = some lf) := by
          rw [hc.2]
          exact fun h => absurd h.1 (by decide)
        rw [toLf, if_neg hne, toCrLf_cons, if_pos hc.2, cons_append, List.cons.injEq] at h
        cases h.1
    · rw [toCrLf_cons] at h
      split at h
      · rw [cons_append, List.cons.injEq] at h
        cases h.1
      · rw [cons_append, List.cons.injEq] at h
        exact ⟨more, by rw [h.1], h.2.symm⟩

theorem asCrLf_cons_continues {c : UInt8} (h : Continues c) : asCrLf (c :: rest) = c :: asCrLf rest := by
  have hcr : c ≠ cr := by
    rintro rfl
    exact absurd h.1 (by decide)
  have hlf : c ≠ lf := by
    rintro rfl
    exact absurd h.1 (by decide)
  rw [asCrLf, toLf, if_neg (fun h => hcr h.1), toCrLf_cons, if_neg hlf]
  rfl

theorem not_bom_of_new (hne : new ≠ "") (hclean : suspiciousUnicode (asCrLf (utf8 new)) = none) :
    ¬ utf8Bom <+: asCrLf (utf8 new) ++ b := by
  intro h
  cases hnew : asCrLf (utf8 new) with
  | nil =>
    rw [asCrLf_eq_nil, utf8_eq_nil] at hnew
    exact hne hnew
  | cons c _ =>
    rw [hnew, cons_append, utf8Bom, cons_prefix_cons] at h
    obtain ⟨rfl, h⟩ := h
    obtain ⟨_, hmore, hrest⟩ := asCrLf_cons_ef hnew
    obtain ⟨x, y, tail, rfl, hx, hy⟩ := continues_of_ef hmore
    rw [asCrLf_cons_continues hx, asCrLf_cons_continues hy] at hrest
    rw [hrest, cons_append, cons_append, cons_prefix_cons, cons_prefix_cons] at h
    obtain ⟨rfl, rfl, -⟩ := h
    rw [hnew, hrest] at hclean
    have hmark : suspiciousUnicode ([] ++ (utf8Bom ++ asCrLf tail)) ≠ none :=
      suspicious_of_bom (by simp) (prefix_append _ _)
    exact hmark hclean

section

variable (hcontent : isUtf8 content = true) (hbom : ¬ utf8Bom <+: content) (hold : utf8 old ≠ [])
include hcontent hbom hold

variable {s : Nat}

theorem not_bom_before (hs : OccursAt (utf8 old) content s) (hpos : 0 < s) : ¬ utf8Bom <+: content.take s ++ b := by
  intro h
  obtain ⟨_, hwhole⟩ := isUtf8_iff.1 hcontent
  obtain ⟨c, rest, hfirst⟩ := List.exists_cons_of_ne_nil hold
  have hstart : (content.drop s).head? = some c := by
    obtain ⟨more, hmore⟩ := hs
    rw [← hmore, hfirst]
    rfl
  have hnot := not_continues_head hfirst
  -- the bytes from the first on are those of one character
  have hcut : 3 ≤ s ∨ ¬ ∃ rest, content = 0xEF :: rest := by
    by_contra hshort
    rw [not_or, Nat.not_le, not_not] at hshort
    obtain ⟨_, rest, hef⟩ := hshort
    obtain ⟨x, y, more, rfl, hx, hy⟩ := continues_of_ef (hwhole.trans hef)
    obtain rfl | rfl : s = 1 ∨ s = 2 := by omega
    · rw [hef] at hstart
      exact hnot (Option.some.inj hstart ▸ hx)
    · rw [hef] at hstart
      exact hnot (Option.some.inj hstart ▸ hy)
  obtain _ | hne := hcut
  · refine hbom ?_
    have hlen : utf8Bom.length ≤ (content.take s).length := by
      have : utf8 old <+: content.drop s := hs
      have hle := this.length_le
      rw [hfirst, length_cons, List.length_drop] at hle
      rw [List.length_take, utf8Bom, length_cons, length_cons, length_cons, List.length_nil]
      omega
    exact (List.prefix_of_prefix_length_le h (prefix_append _ b) hlen).trans (List.take_prefix s content)
  · refine hne ?_
    cases hcontent : content with
    | nil =>
      rw [hcontent, List.drop_nil] at hstart
      cases hstart
    | cons d rest =>
      obtain ⟨n, rfl⟩ : ∃ n, s = n + 1 := ⟨s - 1, by omega⟩
      rw [hcontent, List.take_succ_cons, cons_append, utf8Bom, cons_prefix_cons] at h
      exact ⟨rest, by rw [h.1]⟩

theorem bom_exact_iff (hclean : suspiciousUnicode (asCrLf (utf8 new)) = none) (hs : OccursAt (utf8 old) content s)
    (hfirst : ∀ s', OccursAt (utf8 old) content s' → s ≤ s') :
    utf8Bom <+: content.take s ++ (asCrLf (utf8 new) ++ content.drop (s + (utf8 old).length)) ↔
      new = "" ∧ utf8 old ++ utf8Bom <+: content := by
  obtain rfl | hpos := Nat.eq_zero_or_pos s
  · rw [List.take_zero, nil_append, Nat.zero_add]
    by_cases hnew : new = ""
    · have hnil : asCrLf (utf8 new) = [] := asCrLf_eq_nil.2 (utf8_eq_nil.2 hnew)
      have hat := content_at hs
      rw [List.take_zero, nil_append, Nat.zero_add] at hat
      rw [hnil, nil_append]
      refine ⟨fun h => ⟨hnew, ?_⟩, fun h => ?_⟩
      · rw [hat]
        exact (List.prefix_append_right_inj _).2 h
      · have hmark := h.2
        rw [hat] at hmark
        exact (List.prefix_append_right_inj _).1 hmark
    · exact ⟨fun h => absurd h (not_bom_of_new hnew hclean), fun h => absurd h.1 hnew⟩
  · refine ⟨fun h => absurd h (not_bom_before hcontent hbom hold hs hpos), fun h => ?_⟩
    have hzero : OccursAt (utf8 old) content 0 := (prefix_append _ _).trans h.2
    have := hfirst 0 hzero
    omega

end

end Iteron.Edit
