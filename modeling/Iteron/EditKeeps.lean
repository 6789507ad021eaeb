import Iteron.EditWritten
/-!
# EditKeeps — the format that an edit keeps

In a file whose line feeds all follow carriage returns an edit keeps this, the line feed at the end, and the byte-order
mark, but for two kinds of edits (`keeps_style_iff`): several lines for an unterminated last line that matched up to
blanks, and the deletion of the text before a second mark.
-/
namespace Iteron.Edit
open Patch (Bytes UniqueEditError)
open Utf8
open List (append_assoc append_nil cons_append length_append mem_append nil_append prefix_append)

variable {limits : Limits} {a b t u text content file written : Bytes} {old new : String} {plan : Plan}

/-! ## The normalized tier -/

theorem ascii_behind {trail eol rest : Bytes} (htrail : ∀ b ∈ trail, isBlank b = true)
    (heol : eol = [] ∨ eol = [lf] ∨ eol = [cr, lf]) (hrest : eol = [] → rest = []) (c : UInt8)
    (hc : (trail ++ (eol ++ rest)).head? = some c) : c.toNat < 128 := by
  cases trail with
  | cons d trail =>
    rw [cons_append, List.head?_cons, Option.some.injEq] at hc
    have hd : d = 32 ∨ d = 9 := by simpa [isBlank] using htrail d (.head _)
    rw [← hc]
    obtain rfl | rfl := hd
    · decide
    · decide
  | nil =>
    obtain rfl | rfl | rfl := heol
    · rw [hrest rfl] at hc
      cases hc
    · rw [← Option.some.inj hc]
      decide
    · rw [← Option.some.inj hc]
      decide

def newCore (new : Bytes) : Bytes := ((lineParts new).head?.map Parts.core).getD []

variable {c : UInt8}

theorem getLast?_append_ne (ha : a.getLast? ≠ some c) (hb : c ∉ b) : (a ++ b).getLast? ≠ some c := by
  rw [List.getLast?_append]
  cases hlast : b.getLast? with
  | none => exact ha
  | some d =>
    rw [Option.some_or, Ne, Option.some.injEq]
    rintro rfl
    exact hb (List.mem_of_mem_getLast? hlast)

theorem not_mem_of_blank (hc : isBlank c = false) (h : ∀ d ∈ t, isBlank d = true) : c ∉ t := by
  intro hm
  rw [h c hm] at hc
  cases hc

section
variable {old new : Bytes} {pre ms post : List Parts} {first last : Parts}
  (h : Around limits content old new plan pre ms post first last)
include h

theorem Around.first_cases : first.eol ≠ [] ∨ (ms = [first] ∧ post = [] ∧ last = first ∧ first.eol = []) := by
  obtain ⟨rest, rfl⟩ := List.head?_eq_some_iff.1 h.head
  by_cases heol : first.eol = []
  · have hnil : rest ++ post = [] := by
      by_contra hne
      have hlines : lineParts content = pre ++ (first :: (rest ++ post)) := by rw [h.lines, cons_append]
      exact eol_ne_nil_of_append hlines hne heol
    rw [List.append_eq_nil_iff] at hnil
    have hlast := h.getLast
    rw [hnil.1, List.getLast?_singleton, Option.some.injEq] at hlast
    exact .inr ⟨by rw [hnil.1], hnil.2, hlast.symm, heol⟩
  · exact .inl heol

theorem Around.mem_lines {p : Parts} (hp : p ∈ pre ∨ p ∈ ms ∨ p ∈ post) : p ∈ lineParts content := by
  rw [h.lines, mem_append, mem_append]
  exact hp

theorem Around.first_mem : first ∈ lineParts content := h.mem_lines (.inr (.inl (List.mem_of_mem_head? h.head)))

theorem Around.last_mem : last ∈ lineParts content := h.mem_lines (.inr (.inl (List.mem_of_mem_getLast? h.getLast)))

theorem Around.eol_eq : (((placed (joined pre).length ms).find? NormalizedLine.hasEol).map
    (fun l => slice content l.contentEnd l.fullEnd)).getD [lf] = if first.eol = [] then [lf] else first.eol := by
  obtain ⟨rest, rfl⟩ := List.head?_eq_some_iff.1 h.head
  obtain heol | ⟨hms, -, -, heol⟩ := h.first_cases
  · have hhas : (first.place (joined pre).length).hasEol = true := by
      rw [Parts.hasEol_place, Parts.hasEol]
      simpa using heol
    rw [placed, List.find?_cons_of_pos hhas, if_neg heol]
    refine slice_eq (a := joined pre ++ first.body) (c := joined rest ++ joined post) ?_ ?_ ?_
    · rw [h.content_eq, joined_cons, Parts.text_eq]
      simp
    · simp only [Parts.place, Parts.body, length_append]
      omega
    · simp only [Parts.place, Parts.body, length_append]
      omega
  · have hhas : ¬ (first.place (joined pre).length).hasEol = true := by
      rw [Parts.hasEol_place, Parts.hasEol, heol]
      decide
    rw [hms, placed, placed, List.find?_cons_of_neg hhas, if_pos heol]
    rfl

theorem Around.post_nil (heol : last.eol = []) : post = [] := by
  obtain ⟨init, hinit⟩ := List.getLast?_eq_some_iff.1 h.getLast
  by_contra hne
  have hlines : lineParts content = (pre ++ init) ++ (last :: post) := by
    rw [h.lines, hinit]
    simp
  exact eol_ne_nil_of_append hlines hne heol

theorem Around.replacement_head : ∃ d, plan.replacement ++ ((last.trail ++ last.eol) ++ joined post) = newCore new ++ d ∧
    ∀ c, d.head? = some c → c.toNat < 128 := by
  have hfirst := lineParts_ok content first h.first_mem
  have hlast := lineParts_ok content last h.last_mem
  have hpost (heol : last.eol = []) : joined post = [] := by
    rw [h.post_nil heol]
    rfl
  have hbehind := ascii_behind hlast.trail hlast.eol hpost
  obtain ⟨hlen, hne, hr⟩ | ⟨hnil, hr⟩ | ⟨-, hne, hr⟩ := normalizedReplacement_cases h.replacement
  · rw [length_placed] at hlen
    have hsame : (placed 0 (lineParts new)).length = ms.length := by rw [length_placed, hlen]
    have hcores := replaceCores_joined new hsame h.getLast h.content_eq
    rw [h.lead_eq, map_core_lines, ← hr] at hcores
    obtain ⟨rest, rfl⟩ := List.head?_eq_some_iff.1 h.head
    obtain ⟨p, ps, hnew⟩ := List.exists_cons_of_ne_nil hne
    rw [hnew, List.map_cons, List.zipWith_cons_cons, joined_cons, Parts.withCore, Parts.text] at hcores
    simp only [append_assoc, List.append_cancel_left_eq] at hcores
    refine ⟨first.trail ++ (first.eol ++ (joined (List.zipWith Parts.withCore rest (ps.map Parts.core)) ++ joined post)),
      ?_, ascii_behind hfirst.trail hfirst.eol ?_⟩
    · rw [newCore, hnew, ← append_assoc, hcores]
      simp
    · intro heol
      obtain hsome | ⟨hms, hpost, -⟩ := h.first_cases
      · cases hsome heol
      · rw [(List.cons.inj hms).2, hpost]
        rfl
  · rw [hr, newCore, hnil]
    exact ⟨_, rfl, by rwa [append_assoc]⟩
  · rw [h.eol_eq] at hr
    obtain ⟨p, ps, hnew⟩ := List.exists_cons_of_ne_nil hne
    have hp := lineParts_ok new p (by rw [hnew]; exact .head _)
    have htext := joined_lineParts new
    rw [hnew] at hr htext
    rw [newCore, hnew]
    cases ps with
    | nil =>
      refine ⟨(last.trail ++ last.eol) ++ joined post, ?_, by rwa [append_assoc]⟩
      rw [hr, joinLines_single _ htext.symm]
      rfl
    | cons q ps =>
      rw [joinLines_first _ htext.symm] at hr
      refine ⟨p.trail ++ ((if first.eol = [] then [lf] else first.eol) ++ (joinParts (if first.eol = [] then [lf] else
        first.eol) (q :: ps) ++ ((last.trail ++ last.eol) ++ joined post))), ?_, ascii_behind hp.trail ?_ ?_⟩
      · rw [hr]
        simp
      · split
        · exact .inr (.inl rfl)
        · exact hfirst.eol
      · intro hnil
        split at hnil
        · cases hnil
        · rename_i heol
          cases heol hnil

section

variable (hcrlf : CrLfOnly content)
include hcrlf

theorem Around.not_bom (hbom : ¬ utf8Bom <+: content) (hclean : suspiciousUnicode new = none) :
    ¬ utf8Bom <+: plan.apply content := by
  rw [h.apply_eq]
  intro hmark
  cases pre with
  | cons q pre =>
    -- a line before the place: its body is followed by a line ending
    have hlines : lineParts content = [] ++ (q :: (pre ++ (ms ++ post))) := h.lines
    have hms : ms ≠ [] := by
      intro hnil
      have := h.head
      rw [hnil] at this
      cases this
    have heol : q.eol = [cr, lf] := by
      refine (hcrlf.lineParts q (by rw [hlines]; exact .head _)).resolve_left ?_
      exact eol_ne_nil_of_append hlines (by simp [hms])
    rw [joined_cons, Parts.text_eq, heol, append_assoc, append_assoc] at hmark
    refine hbom (((bom_append_iff ?_).1 hmark).trans ?_)
    · intro c hc
      rw [← Option.some.inj hc]
      decide
    · have hcontent := joined_lineParts content
      rw [hlines, nil_append, joined_cons, Parts.text_eq, append_assoc] at hcontent
      rw [← hcontent]
      exact prefix_append _ _
  | nil =>
    rw [joined_nil, nil_append] at hmark
    cases hlead : first.lead with
    | cons c _ =>
      have hc : c = 32 ∨ c = 9 := by
        have := (lineParts_ok content first h.first_mem).lead c (by rw [hlead]; exact .head _)
        simpa [isBlank] using this
      rw [hlead, cons_append, utf8Bom, List.cons_prefix_cons] at hmark
      obtain rfl | rfl := hc
      · cases hmark.1
      · cases hmark.1
    | nil =>
      obtain ⟨d, heq, hascii⟩ := h.replacement_head
      rw [hlead, nil_append, heq, bom_append_iff hascii, newCore] at hmark
      cases hnew : lineParts new with
      | nil =>
        rw [hnew] at hmark
        exact absurd hmark (by decide)
      | cons p ps =>
        have hp := lineParts_ok new p (by rw [hnew]; exact .head _)
        have htext := joined_lineParts new
        rw [hnew] at hmark
        rw [hnew, joined_cons, Parts.text, append_assoc, append_assoc] at htext
        have hcore : utf8Bom <+: p.core := hmark
        have hsuspicious :=
          suspicious_of_bom hp.lead (hcore.trans (prefix_append p.core ((p.trail ++ p.eol) ++ joined ps)))
        rw [htext] at hsuspicious
        exact hsuspicious hclean

theorem Around.crLfOnly_parts {p : Parts} (hp : p ∈ pre ∨ p ∈ ms ∨ p ∈ post) : lf ∉ p.body ∧ (p.eol = [] ∨ p.eol = [cr, lf]) :=
  ⟨(lineParts_ok content p (h.mem_lines hp)).body, hcrlf.lineParts p (h.mem_lines hp)⟩

theorem Around.crLfOnly_before : CrLfOnly (joined pre ++ first.lead) := by
  refine (CrLfOnly.joined (fun p hp => h.crLfOnly_parts hcrlf (.inl hp))).append (crLfOnly_of_not_mem ?_)
  have hbody := (lineParts_ok content first h.first_mem).body
  rw [Parts.body, mem_append, not_or] at hbody
  exact hbody.1

theorem Around.crLfOnly_after : CrLfOnly ((last.trail ++ last.eol) ++ joined post) := by
  obtain ⟨hbody, heol⟩ := h.crLfOnly_parts hcrlf (.inr (.inl (List.mem_of_mem_getLast? h.getLast)))
  rw [Parts.body, mem_append, mem_append, not_or, not_or] at hbody
  refine ((crLfOnly_of_not_mem hbody.2.2).append ?_).append (CrLfOnly.joined (fun p hp => h.crLfOnly_parts hcrlf (.inr (.inr hp))))
  obtain heol | heol := heol
  · rw [heol]
    exact crLfOnly_of_not_mem List.not_mem_nil
  · rw [heol]
    exact crLfOnly_pair

theorem Around.crLfOnly_same (hlen : (lineParts new).length = ms.length) (hne : lineParts new ≠ []) :
    CrLfOnly (plan.apply content) := by
  have hr := normalizedReplacement_same h.replacement (by rw [length_placed, hlen]) hne
  have hsame : (placed 0 (lineParts new)).length = ms.length := by rw [length_placed, hlen]
  have hcores := replaceCores_joined new hsame h.getLast h.content_eq
  rw [h.lead_eq, map_core_lines, ← hr] at hcores
  have hsplit : first.lead ++ (plan.replacement ++ ((last.trail ++ last.eol) ++ joined post)) =
      joined (List.zipWith Parts.withCore ms ((lineParts new).map Parts.core)) ++ joined post := by
    rw [← hcores]
    simp
  rw [h.apply_eq, hsplit]
  refine (CrLfOnly.joined (fun p hp => h.crLfOnly_parts hcrlf (.inl hp))).append
    (CrLfOnly.append (CrLfOnly.joined fun p hp => ?_) (CrLfOnly.joined (fun p hp => h.crLfOnly_parts hcrlf (.inr (.inr hp)))))
  obtain ⟨i, hi⟩ := List.mem_iff_getElem?.1 hp
  obtain ⟨m, c, hm, hc, rfl⟩ := List.getElem?_zipWith_eq_some.1 hi
  obtain ⟨hbody, heol⟩ := h.crLfOnly_parts hcrlf (.inr (.inl (List.mem_of_getElem? hm)))
  obtain ⟨q, hq, rfl⟩ := List.mem_map.1 (List.mem_of_getElem? hc)
  have hcore := (lineParts_ok new q hq).body
  rw [Parts.body, mem_append, mem_append, not_or, not_or] at hbody hcore
  refine ⟨?_, heol⟩
  rw [Parts.body, mem_append, mem_append, not_or, not_or]
  exact ⟨hbody.1, hcore.2.1, hbody.2.2⟩

theorem Around.crLfOnly_joined (heol : first.eol = [cr, lf])
    (hlen : (lineParts new).length ≠ ms.length) : CrLfOnly (plan.apply content) := by
  have hr : CrLfOnly plan.replacement := by
    obtain ⟨hsame, -⟩ | ⟨-, hr⟩ | ⟨-, hne, hr⟩ := normalizedReplacement_cases h.replacement
    · rw [length_placed] at hsame
      cases hlen hsame
    · rw [hr]
      exact crLfOnly_of_not_mem List.not_mem_nil
    · rw [h.eol_eq, heol, if_neg (List.cons_ne_nil _ _)] at hr
      obtain ⟨p, ps, hnew⟩ := List.exists_cons_of_ne_nil hne
      have hok := lineParts_ok new
      have htext := joined_lineParts new
      rw [hnew] at hr hok htext
      have hp := (hok p (.head _)).body
      rw [Parts.body, mem_append, mem_append, not_or, not_or] at hp
      cases ps with
      | nil =>
        rw [hr, joinLines_single _ htext.symm]
        exact crLfOnly_of_not_mem hp.2.1
      | cons q ps =>
        rw [hr, joinLines_first _ htext.symm]
        exact (crLfOnly_of_not_mem hp.2.1).append ((crLfOnly_of_not_mem hp.2.2).append
          (crLfOnly_pair.append (crLfOnly_joinParts (fun r hr => hok r (List.mem_cons_of_mem p hr)))))
  have hsplit := (h.crLfOnly_before hcrlf).append (hr.append (h.crLfOnly_after hcrlf))
  rw [h.apply_eq, ← append_assoc]
  exact hsplit

theorem Around.before_ne_cr : (joined pre ++ first.lead).getLast? ≠ some cr := by
  have hms : ms ≠ [] := by
    intro hnil
    have := h.head
    rw [hnil] at this
    cases this
  refine getLast?_append_ne ?_ (not_mem_of_blank (by decide) (lineParts_ok content first h.first_mem).lead)
  cases hlast : pre.getLast? with
  | none =>
    rw [List.getLast?_eq_none_iff.1 hlast]
    exact Option.some_ne_none cr |>.symm
  | some q =>
    obtain ⟨init, hinit⟩ := List.getLast?_eq_some_iff.1 hlast
    have hlines : lineParts content = init ++ (q :: (ms ++ post)) := by
      rw [h.lines, hinit]
      simp
    have hq := h.crLfOnly_parts hcrlf (.inl (List.mem_of_mem_getLast? hlast))
    have heol := hq.2.resolve_left (eol_ne_nil_of_append hlines (by simp [hms]))
    rw [hinit, joined_append, joined_cons, joined_nil, append_nil, Parts.text_eq, heol, ← append_assoc,
      List.getLast?_append]
    exact fun hcr => absurd (Option.some.inj hcr) (by decide)

end

theorem Around.content_ne_lf (hpost : post = []) (hlast : last.eol = []) : content.getLast? ≠ some lf := by
  obtain ⟨_, hinit⟩ := List.getLast?_eq_some_iff.1 h.getLast
  have hcontent := h.content_eq
  rw [hinit, hpost, joined_append, joined_cons, joined_nil, append_nil, append_nil, Parts.text_eq, hlast,
    append_nil, ← append_assoc] at hcontent
  have hne := lineParts_text_ne_nil content last h.last_mem
  rw [Parts.text_eq, hlast, append_nil] at hne
  have hbody := (lineParts_ok content last h.last_mem).body
  rw [hcontent, List.getLast?_append, List.getLast?_eq_some_getLast hne, Option.some_or, Ne, Option.some.injEq]
  intro heq
  exact hbody (heq ▸ List.getLast_mem hne)

/-- **The normalized tier** keeps the line endings, but for several new lines in place of an unterminated last one. -/
theorem Around.crLfOnly_iff (hcrlf : CrLfOnly content) (hnew : NoLoneCr new) : CrLfOnly (ended content (plan.apply content)) ↔
      ¬ (first.eol = [] ∧ afterLine new ≠ [] ∧ (first.trail ≠ [] ∨ ∃ c ∈ afterLine new, c ≠ cr ∧ c ≠ lf)) := by
  by_cases hlen : (lineParts new).length = ms.length
  · have hne : lineParts new ≠ [] := by
      intro hnil
      have hms := h.head
      rw [hnil, List.length_nil, eq_comm, List.length_eq_zero_iff] at hlen
      rw [hlen] at hms
      cases hms
    refine ⟨fun _ hbad => ?_, fun _ => (h.crLfOnly_same hcrlf hlen hne).ended content⟩
    obtain heol | ⟨hms, -⟩ := h.first_cases
    · exact heol hbad.1
    · rw [hms] at hlen
      exact hbad.2.1 (afterLine_of_length hlen)
  by_cases hne : lineParts new = []
  · have hnil : new = [] := by rw [← joined_lineParts new, hne]; rfl
    have hr : plan.replacement = [] := by
      obtain ⟨hsame, -⟩ | ⟨-, hr⟩ | ⟨-, hsome, -⟩ := normalizedReplacement_cases h.replacement
      · rw [length_placed] at hsame
        cases hlen hsame
      · exact hr
      · cases hsome hne
    refine ⟨fun _ hbad => hbad.2.1 (by rw [hnil]; rfl), fun _ => CrLfOnly.ended ?_ content⟩
    rw [h.apply_eq, hr, nil_append, ← append_assoc]
    exact (h.crLfOnly_before hcrlf).append (h.crLfOnly_after hcrlf)
  obtain heol | ⟨hms, hpost, hlast, heol⟩ := h.first_cases
  · have heol' := (hcrlf.lineParts first h.first_mem).resolve_left heol
    exact ⟨fun _ hbad => heol hbad.1, fun _ => (h.crLfOnly_joined hcrlf heol' hlen).ended content⟩
  -- the only matched line is unterminated, so the new lines are joined by a bare line feed
  rw [hms, List.length_singleton] at hlen
  obtain ⟨p, q, ps, hlines, hafter⟩ := lineParts_cons_cons hlen hne
  have htext := joined_lineParts new
  have hafterNe : afterLine new ≠ [] := by
    intro hnil
    rw [hnil, lineParts_nil] at hafter
    cases hafter
  have hsuffix : NoLoneCr (afterLine new) := by
    rw [← firstLine_text new] at hnew
    exact hnew.of_append_right
  have hr : plan.replacement = p.core ++ (p.trail ++ ([lf] ++ joinParts [lf] (q :: ps))) := by
    obtain ⟨hsame, -⟩ | ⟨hnil, -⟩ | ⟨-, -, hr⟩ := normalizedReplacement_cases h.replacement
    · rw [length_placed, hms] at hsame
      cases hlen hsame
    · cases hne hnil
    · rw [h.eol_eq, if_pos heol, hlines] at hr
      rw [hlines] at htext
      rw [hr, joinLines_first _ htext.symm]
  have happly : plan.apply content = ((joined pre ++ first.lead) ++ (p.core ++ p.trail)) ++
      lf :: (joinParts [lf] (q :: ps) ++ first.trail) := by
    rw [h.apply_eq, hr, hpost, hlast, heol]
    simp
  have hp : p ∈ lineParts new := by rw [hlines]; exact .head _
  have hcore : lf ∉ p.core ++ p.trail ∧ cr ∉ p.core ++ p.trail := by
    have h1 := (lineParts_ok new p hp).body
    have h2 := hnew.lineParts p hp
    rw [Parts.body, mem_append, not_or] at h1 h2
    exact ⟨h1.2, h2.2⟩
  have htrail := (lineParts_ok content first h.first_mem).trail
  have hjoined : cr ∉ joinParts [lf] (q :: ps) ++ first.trail := by
    rw [mem_append, not_or]
    refine ⟨fun hm => ?_, not_mem_of_blank (by decide) htrail⟩
    obtain ⟨r, hr, hm⟩ := mem_joinParts (by decide) hm
    exact hnew.lineParts r (by rw [hlines]; exact List.mem_cons_of_mem p hr) hm
  rw [happly, crLfOnly_ended_iff ((h.crLfOnly_before hcrlf).append (crLfOnly_of_not_mem hcore.1))
    (getLast?_append_ne (h.before_ne_cr hcrlf) hcore.2) hjoined (h.content_ne_lf hpost (by rw [hlast, heol])),
    ← joinParts_lineParts hsuffix, hafter]
  constructor
  · rintro hall ⟨-, -, htrailNe | ⟨c, hc, hne⟩⟩
    · obtain ⟨c, hc⟩ := List.exists_mem_of_ne_nil _ htrailNe
      have := hall c (List.mem_append_right _ hc)
      rw [this] at hc
      exact not_mem_of_blank (by decide) htrail hc
    · exact hne (hall c (List.mem_append_left _ hc))
  · intro hgood c hc
    by_contra hne
    refine hgood ⟨heol, hafterNe, ?_⟩
    rw [mem_append] at hc
    obtain hc | hc := hc
    · exact .inr ⟨c, hc, hne⟩
    · exact .inl (List.ne_nil_of_mem hc)

end

/-! ## The whole edit -/

/-- The format of a file: its line feeds follow carriage returns, it ends in a line feed, it has a mark. -/
def KeepsStyle (file written : Bytes) : Prop :=
  CrLfOnly written ∧ (written.getLast? = some lf ↔ file.getLast? = some lf) ∧ (utf8Bom <+: written ↔ utf8Bom <+: file)

/-- Several lines take the place of an unterminated last line that matches up to blanks only: there is more than line
endings behind the first new line, or blanks end the old one. -/
def JoinsByLf (content : Bytes) (old new : String) : Prop :=
  ¬ utf8 old <:+: content ∧ MatchesAt content (utf8 old) ((lineParts content).length - 1) ∧
    ∃ last, (lineParts content).getLast? = some last ∧ last.eol = [] ∧ afterLine (utf8 new) ≠ [] ∧
      (last.trail ≠ [] ∨ ∃ c ∈ afterLine (utf8 new), c ≠ cr ∧ c ≠ lf)

/-- The text before a mark is deleted, in a file that does not start with one. -/
def BaresMark (file : Bytes) (old new : String) : Prop :=
  ¬ utf8Bom <+: file ∧ new = "" ∧ utf8 old ++ utf8Bom <+: file

theorem afterLine_asCrLf_iff (raw : Bytes) : (afterLine (asCrLf raw) ≠ [] ↔ afterLine raw ≠ []) ∧
      ((∃ c ∈ afterLine (asCrLf raw), c ≠ cr ∧ c ≠ lf) ↔ ∃ c ∈ afterLine raw, c ≠ cr ∧ c ≠ lf) := by
  rw [afterLine_asCrLf]
  refine ⟨not_congr asCrLf_eq_nil, ?_⟩
  constructor
  · rintro ⟨c, hc, hne⟩
    exact ⟨c, (mem_asCrLf hne.1 hne.2).1 hc, hne⟩
  · rintro ⟨c, hc, hne⟩
    exact ⟨c, (mem_asCrLf hne.1 hne.2).2 hc, hne⟩

theorem not_infix_of_matchIndices {pat : Bytes} (hpat : pat ≠ []) (h : matchIndices pat 0 content = []) : ¬ pat <:+: content := by
  rintro ⟨x, y, hxy⟩
  refine matchIndices_nil hpat h x.length ?_
  rw [OccursAt, ← hxy, append_assoc, List.drop_left]
  exact prefix_append pat y

section
variable (hcrlf : CrLfOnly content) (hnew : NoLoneCr (utf8 new))
include hcrlf hnew

theorem crLfOnly_normalized (hold : utf8 old ≠ []) (hm : matchIndices (utf8 old) 0 content = [])
    (h : planNormalizedEdit limits content (utf8 old) (asCrLf (utf8 new)) = .ok plan) :
    CrLfOnly (ended content (plan.apply content)) ↔ ¬ JoinsByLf content old new := by
  obtain ⟨-, i, pre, ms, post, first, _, haround, _, _, hunique⟩ := exists_around h
  obtain ⟨hne, hbyte⟩ := afterLine_asCrLf_iff (utf8 new)
  rw [haround.crLfOnly_iff hcrlf (noLoneCr_asCrLf hnew), hne, hbyte, not_iff_not]
  have hlen : (lineParts content).length = pre.length + (ms.length + post.length) := by
    rw [haround.lines, length_append, length_append]
  constructor
  · rintro ⟨heol, hafter, hrest⟩
    obtain hsome | ⟨hms, hpost, -, -⟩ := haround.first_cases
    · cases hsome heol
    have hlast : (lineParts content).getLast? = some first := by
      rw [haround.lines, hms, hpost, append_nil, List.getLast?_concat]
    refine ⟨not_infix_of_matchIndices hold hm, ?_, first, hlast, heol, hafter, hrest⟩
    rw [hms, hpost, List.length_singleton, List.length_nil] at hlen
    rwa [show (lineParts content).length - 1 = i by omega]
  · rintro ⟨-, hmatch, l, hl, heol, hafter, hrest⟩
    have hlast := hunique _ hmatch
    have hpos : 0 < ms.length := List.length_pos_of_mem (List.mem_of_mem_head? haround.head)
    have hms : ms.length = 1 ∧ post.length = 0 := by omega
    obtain ⟨m, rfl⟩ := List.length_eq_one_iff.1 hms.1
    have hpost := List.length_eq_zero_iff.1 hms.2
    have hfirst := haround.head
    rw [List.head?_cons, Option.some.injEq] at hfirst
    rw [haround.lines, hpost, append_nil, List.getLast?_concat, Option.some.injEq] at hl
    rw [← hfirst, hl]
    exact ⟨heol, hafter, hrest⟩

theorem crLfOnly_planned (hpairs : KeepsPairs content (utf8 old))
    (h : planUniqueEdit limits content (utf8 old) (asCrLf (utf8 new)) = .ok plan) :
    CrLfOnly (ended content (plan.apply content)) ↔ ¬ JoinsByLf content old new := by
  obtain ⟨hold, -, -, ⟨s, hm, rfl⟩ | ⟨hm, hplan⟩⟩ := planUniqueEdit_ok h
  · obtain ⟨hs, -⟩ := (matchIndices_singleton_iff hold).1 hm
    refine ⟨fun _ hbad => ?_, fun _ => (crLfOnly_exact hcrlf hs hpairs (crLfOnly_toCrLf _)).ended content⟩
    exact hbad.1 (List.IsInfix.trans hs.isInfix (List.drop_suffix s content).isInfix)
  · exact crLfOnly_normalized hcrlf hnew hold hm hplan

end

theorem bom_planned (hcrlf : CrLfOnly content) (hutf8 : isUtf8 content = true) (hbom : ¬ utf8Bom <+: content)
    (h : planUniqueEdit limits content (utf8 old) (asCrLf (utf8 new)) = .ok plan) :
    utf8Bom <+: ended content (plan.apply content) ↔ new = "" ∧ utf8 old ++ utf8Bom <+: content := by
  rw [bom_ended_iff]
  obtain ⟨hold, -, hsus, ⟨s, hm, rfl⟩ | ⟨hm, hplan⟩⟩ := planUniqueEdit_ok h
  · obtain ⟨hs, hall⟩ := (matchIndices_singleton_iff hold).1 hm
    exact bom_exact_iff hutf8 hbom hold (Option.or_eq_none_iff.1 hsus).2 hs (fun s' hs' => (hall s' hs').1)
  · obtain ⟨-, i, _, _, _, _, _, haround, -⟩ := exists_around hplan
    refine ⟨fun hmark => absurd hmark (haround.not_bom hcrlf hbom (Option.or_eq_none_iff.1 hsus).2), fun hbad => ?_⟩
    exact absurd ((prefix_append _ _).trans hbad.2).isInfix (not_infix_of_matchIndices hold hm)

/-- **An edit keeps the format of a file** of carriage returns and line feeds exactly when it neither joins several lines
by a bare line feed nor bares a mark. -/
theorem keeps_style_iff (hcrlf : CrLfOnly file) (hlf : lf ∈ file) (hnew : NoLoneCr (utf8 new))
    (hpairs : KeepsPairs (contentOf file) (utf8 old)) (h : editFile limits file old new = .ok written) :
    KeepsStyle file written ↔ ¬ JoinsByLf (contentOf file) old new ∧ ¬ BaresMark file old new := by
  obtain ⟨plan, hplan, hutf8, rfl⟩ := editFile_ok hcrlf hlf h
  have hfile := bomOf_contentOf file
  have hcontent : CrLfOnly (contentOf file) := crLfOnly_bomOf.1 (hfile.symm ▸ hcrlf)
  have hend : (bomOf file ++ ended (contentOf file) (plan.apply (contentOf file))).getLast? = some lf ↔
      file.getLast? = some lf := by
    rw [getLast?_bomOf, getLast?_ended]
    conv_rhs => rw [← hfile, getLast?_bomOf]
  have hmark : (utf8Bom <+: bomOf file ++ ended (contentOf file) (plan.apply (contentOf file)) ↔ utf8Bom <+: file) ↔
      ¬ BaresMark file old new := by
    by_cases hbom : utf8Bom <+: file
    · have hprefix : utf8Bom <+: bomOf file ++ ended (contentOf file) (plan.apply (contentOf file)) := by
        rw [bomOf, if_pos hbom]
        exact prefix_append _ _
      exact ⟨fun _ hbad => hbad.1 hbom, fun _ => ⟨fun _ => hbom, fun _ => hprefix⟩⟩
    · obtain ⟨hnil, hsame⟩ := bom_bomOf hbom
      rw [hsame] at hplan hcontent hutf8 ⊢
      rw [hnil, nil_append, bom_planned hcontent hutf8 hbom hplan, BaresMark]
      simp [hbom]
  rw [KeepsStyle, crLfOnly_bomOf, crLfOnly_planned hcontent hnew hpairs hplan, hmark]
  simp only [hend, true_and]

theorem editFile_evaluated : editFile {} [97, 13, 10] "a" "b" = .ok [98, 13, 10] ∧
    editFile {} [120, 13, 10, 97] " a" "b\nc" = .ok [120, 13, 10, 98, 10, 99] := by
  decide +kernel

/-- A new text for the only line. -/
theorem keeps_style_iff_one_line : editFile {} [97, 13, 10] "a" "b" = .ok [98, 13, 10] ∧
    (KeepsStyle [97, 13, 10] [98, 13, 10] ↔
      ¬ JoinsByLf (contentOf [97, 13, 10]) "a" "b" ∧ ¬ BaresMark [97, 13, 10] "a" "b") := by
  have hedit := editFile_evaluated.1
  have hcrlf : CrLfOnly [97, 13, 10] := (crLfOnly_of_not_mem (by decide : lf ∉ [97])).append crLfOnly_pair
  have hold : utf8 "a" = [97] := by rfl
  have hcontent : contentOf [97, 13, 10] = [97, 13, 10] := by decide
  refine ⟨hedit, keeps_style_iff hcrlf (by decide) (noLoneCr_of_not_mem (by decide)) ?_ hedit⟩
  intro s hs
  rw [hold, hcontent] at hs ⊢
  rcases s with _ | _ | _ | s
  · exact ⟨fun h => absurd h.1 (by decide), fun h => absurd h.1 (by decide)⟩
  · exact absurd (List.cons_prefix_cons.1 hs).1 (by decide)
  · exact absurd (List.cons_prefix_cons.1 hs).1 (by decide)
  · exact absurd hs.length_le (by simp)

/-- Two lines for an unterminated last line that matches up to a blank are joined by a bare line feed. -/
theorem not_keeps_style_last_line : CrLfOnly [120, 13, 10, 97] ∧ lf ∈ [120, 13, 10, 97] ∧ NoLoneCr (utf8 "b\nc") ∧
      KeepsPairs (contentOf [120, 13, 10, 97]) (utf8 " a") ∧
      editFile {} [120, 13, 10, 97] " a" "b\nc" = .ok [120, 13, 10, 98, 10, 99] ∧
      ¬ KeepsStyle [120, 13, 10, 97] [120, 13, 10, 98, 10, 99] := by
  have hold : utf8 " a" = [32, 97] := by rfl
  have hcontent : contentOf [120, 13, 10, 97] = [120, 13, 10, 97] := by decide
  refine ⟨?_, by decide, noLoneCr_of_not_mem (by decide), ?_, editFile_evaluated.2, ?_⟩
  · exact (crLfOnly_of_not_mem (by decide : lf ∉ [120])).append
      (crLfOnly_pair.append (crLfOnly_of_not_mem (by decide : lf ∉ [97])))
  · intro s hs
    rw [hold, hcontent] at hs
    exact absurd (hs.isInfix.trans (List.drop_suffix s _).isInfix) (by decide)
  · intro h
    exact absurd (h.1 [120, 13, 10, 98] [99] rfl) (by decide)

end Iteron.Edit
