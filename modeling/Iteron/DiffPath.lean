import Iteron.DiffSections
/-!
# DiffPath — the path of a section header

The header of a section names its path twice, with a blank between the two and no quotes.  The reader cuts it at the
first ` b/`, which is the one between the two paths exactly when the path holds none itself.
-/
namespace Iteron.Diff

open Refuse Search

variable {p q tail : List Char}

def secondMark : List Char := " b/".toList

/-- What stands behind `diff --git ` when the first path is `p` and the second is `q`. -/
def twoPaths (p q : List Char) : List Char := "a/".toList ++ p ++ (secondMark ++ q)

theorem secondMark_in_first (h : secondMark <:+: "a/".toList ++ p) : secondMark <:+: p := by
  have ha : secondMark <:+: [] ++ 'a' :: ('/' :: p) := h
  obtain hnil | hslash := infix_append_cons (by decide) ha
  · exact absurd (List.infix_nil.1 hnil) (by decide)
  · obtain ⟨u, v, huv⟩ := hslash
    cases u with
    | nil => cases huv
    | cons c u => exact ⟨u, v, by injection huv⟩

theorem splitOnce_twoPaths (h : ¬ secondMark <:+: p) (q : List Char) :
    splitOnce secondMark (twoPaths p q) = some ("a/".toList ++ p, q) := by
  have hfree : FreeBefore secondMark ("a/".toList ++ p) (secondMark ++ q) :=
    freeBefore_self (by decide) (fun hin => h (secondMark_in_first hin))
  rw [splitOnce, twoPaths, splitFirst_append hfree, splitFirst_of_starts (List.prefix_append secondMark q)]
  simp

theorem splitOnce_early (h : secondMark <:+: p) (q : List Char) :
    ∃ before after, splitOnce secondMark (twoPaths p q) = some (before, after) ∧ q.length + 3 ≤ after.length := by
  obtain ⟨u, v, huv⟩ := h
  have htext : twoPaths p q = ("a/".toList ++ u) ++ (secondMark ++ (v ++ (secondMark ++ q))) := by
    rw [twoPaths, ← huv]
    simp
  cases hsplit : splitFirst secondMark (twoPaths p q) with
  | none =>
    refine absurd ?_ (splitFirst_none hsplit)
    exact ⟨_, _, (List.append_assoc _ _ _)⟩
  | some cut =>
    obtain ⟨before, after⟩ := cut
    refine ⟨before, after.drop secondMark.length, by rw [splitOnce, hsplit]; rfl, ?_⟩
    have hlen := splitFirst_length hsplit
    rw [htext] at hsplit hlen
    have hle := splitFirst_le hsplit
    have hthree : secondMark.length = 3 := rfl
    simp only [List.length_append, List.length_drop, hthree] at hlen hle ⊢
    omega

theorem not_quoted (hp : '"' ∉ p) (hq : '"' ∉ q) : (['"'].isPrefixOf (twoPaths p q) ||
    (splitFirst [' ', '"'] (twoPaths p q)).isSome) = false := by
  have hmem : '"' ∉ twoPaths p q := by
    have hmarks : '"' ∉ "a/".toList ∧ '"' ∉ secondMark := by decide
    simp only [twoPaths, List.mem_append, not_or]
    exact ⟨⟨hmarks.1, hp⟩, hmarks.2, hq⟩
  have hnone : splitFirst [' ', '"'] (twoPaths p q) = none := by
    by_contra hsome
    obtain ⟨⟨before, _⟩, hsplit⟩ := Option.ne_none_iff_exists'.1 hsome
    obtain ⟨htext, hstart, -⟩ := splitFirst_some hsplit
    refine hmem ?_
    rw [htext]
    exact List.mem_append_right before (hstart.subset (by decide))
  rw [hnone]
  rfl

theorem parseGitHeaderPath_twoPaths (hp : '"' ∉ p) (hq : '"' ∉ q) : parseGitHeaderPath (twoPaths p q) =
    .ok (((splitOnce secondMark (twoPaths p q)).map Prod.snd).getD (twoPaths p q)) := by
  unfold parseGitHeaderPath
  rw [not_quoted hp hq]
  rfl

/-- **The path of a header** is the second path, exactly when the first holds no mark. -/
theorem parseGitHeaderPath_iff (hp : '"' ∉ p) (hq : '"' ∉ q) : ∃ path, parseGitHeaderPath (twoPaths p q) = .ok path ∧
      (¬ secondMark <:+: p → path = q) ∧ (secondMark <:+: p → q.length + 3 ≤ path.length) := by
  refine ⟨_, parseGitHeaderPath_twoPaths hp hq, ?_, ?_⟩
  · intro h
    rw [splitOnce_twoPaths h q]
    rfl
  · intro h
    obtain ⟨_, _, hsplit, hlen⟩ := splitOnce_early h q
    rw [hsplit]
    exact hlen

/-! ## Sections headed by a path -/

/-- A section headed `diff --git a/p b/p`. -/
def headed (p body : List Char) : List Char := gitHeader ++ twoPaths p p ++ '\n' :: body

theorem stripCr_append_cons (a b : List Char) (c : Char) (hc : c ≠ '\r') :
    stripCr (a ++ c :: b) = a ++ c :: stripCr b := by
  unfold stripCr
  obtain rfl | ⟨b, d, rfl⟩ := List.eq_nil_or_concat b
  · simp [hc]
  · rw [List.concat_eq_append, ← List.cons_append, ← List.append_assoc, List.getLast?_concat, List.getLast?_concat, List.dropLast_concat,
      List.dropLast_concat]
    by_cases hd : some d = some '\r'
    · rw [if_pos hd, if_pos hd]
    · rw [if_neg hd, if_neg hd, List.append_assoc, List.cons_append]

theorem sectionOf_headed {body : List Char} (hline : '\n' ∉ p) (hsingle : ∀ l ∈ lines body, ¬ gitHeader <+: l) :
    SectionOf (headed p body) (twoPaths p (stripCr p)) (lines body) := by
  have hheader : '\n' ∉ gitHeader ++ twoPaths p p := by
    have hmarks : '\n' ∉ gitHeader ∧ '\n' ∉ "a/".toList ∧ '\n' ∉ secondMark := by decide
    simp only [twoPaths, List.mem_append, not_or]
    exact ⟨hmarks.1, ⟨hmarks.2.1, hline⟩, hmarks.2.2, hline⟩
  refine ⟨?_, hsingle⟩
  rw [headed, lines, linesFrom_line hheader, List.nil_append]
  have hcut : gitHeader ++ twoPaths p p = (gitHeader ++ "a/".toList ++ p ++ [' ', 'b']) ++ '/' :: p := by
    simp [twoPaths, secondMark]
  rw [hcut, stripCr_append_cons _ _ _ (by decide)]
  simp [twoPaths, secondMark]

theorem byteLen_append (a b : List Char) : byteLen (a ++ b) = byteLen a + byteLen b := by
  simp [byteLen]

theorem byteLen_stripCr (l : List Char) : byteLen (stripCr l) ≤ byteLen l := by
  unfold stripCr
  by_cases h : l.getLast? = some '\r'
  · obtain ⟨_, rfl⟩ := List.getLast?_eq_some_iff.1 h
    rw [if_pos h, List.dropLast_concat, byteLen_append]
    omega
  · rw [if_neg h]

variable {limit : Nat} {rest rest' path path' text : List Char} {body : List (List Char)} {r : Reader}

theorem Alone.renamed (h : Alone limit rest body path r) (hsingle : ∀ l ∈ body, ¬ gitHeader <+: l)
    (hlen : byteLen (gitHeader ++ rest') ≤ maxLineBytes) (hnamed : parseGitHeaderPath rest' = .ok path') :
    ∃ r', Alone limit rest' body path' r' := by
  obtain ⟨_, hread, hclose⟩ := h.read
  obtain ⟨mode, hread', -⟩ := readLines_amid limit hsingle hread (some path') []
    (show Carried none none none from .inl ⟨rfl, rfl⟩)
  exact ⟨_, hlen, hnamed, ⟨_, hread', closeHunk_amid hclose (some path') [] mode⟩, h.room⟩

theorem parse_of_alone (hs : SectionOf text rest body) (h : Alone (min limit maxEntries) rest body path r)
    (hsize : byteLen text ≤ maxDiffBytes) : parseUnified text limit = .ok [r.entry path] := by
  obtain ⟨_, f, _, hread, hflush, hentry, -⟩ := section_amid [] none hs h h.room
  have hown : f = r.entry path := hentry.2 (by simp)
  unfold parseUnified
  have hstart : ({} : Reader) = between [] none := rfl
  rw [refuseIf_of_not (Nat.not_lt.2 hsize), ok_bind, hstart, hread, ok_bind, hflush, ok_bind, hown]
  rfl

theorem length_stripCr (p : List Char) : (p.getLast? = some '\r' ∧ (stripCr p).length + 1 = p.length) ∨
    (p.getLast? ≠ some '\r' ∧ stripCr p = p) := by
  unfold stripCr
  by_cases h : p.getLast? = some '\r'
  · obtain ⟨_, rfl⟩ := List.getLast?_eq_some_iff.1 h
    exact .inl ⟨h, by simp⟩
  · exact .inr ⟨h, if_neg h⟩

theorem mem_stripCr {c : Char} (h : c ∈ stripCr p) : c ∈ p := by
  unfold stripCr at h
  split at h
  · exact List.mem_of_mem_dropLast h
  · exact h

/-- **The path of a section is the path of its header**, exactly when the path holds no ` b/` and does not end in a
carriage return. -/
theorem header_path_iff (p body : List Char) (limit : Nat) (hline : '\n' ∉ p) (hquote : '"' ∉ p)
    (hsingle : ∀ l ∈ lines body, ¬ gitHeader <+: l)
    (hbody : ∃ q fs, '\n' ∉ q ∧ parseUnified (headed q body) limit = .ok fs)
    (hlen : byteLen (gitHeader ++ twoPaths p p) ≤ maxLineBytes) (hsize : byteLen (headed p body) ≤ maxDiffBytes) :
    (∃ f, parseUnified (headed p body) limit = .ok [f] ∧ f.path = p) ↔
      ¬ " b/".toList <:+: p ∧ p.getLast? ≠ some '\r' := by
  obtain ⟨q, fs, hq, hparse⟩ := hbody
  obtain ⟨_, _, halone, -⟩ := section_alone (sectionOf_headed hq hsingle) hparse
  obtain ⟨path, hnamed, hkept, hearly⟩ := parseGitHeaderPath_iff hquote (fun h => hquote (mem_stripCr h))
  have hlen' : byteLen (gitHeader ++ twoPaths p (stripCr p)) ≤ maxLineBytes := by
    have := byteLen_stripCr p
    simp only [twoPaths, byteLen_append] at hlen ⊢
    omega
  obtain ⟨r, halone⟩ := halone.renamed hsingle hlen' hnamed
  rw [parse_of_alone (sectionOf_headed hline hsingle) halone hsize]
  have hpath : (∃ f, (.ok [r.entry path] : Except DiffError (List FileDiff)) = .ok [f] ∧ f.path = p) ↔ path = p := by
    simp [Reader.entry]
  rw [hpath]
  by_cases hmark : secondMark <:+: p
  · have hlong := hearly hmark
    constructor
    · intro heq
      rw [heq] at hlong
      obtain ⟨-, hcr⟩ | ⟨-, hcr⟩ := length_stripCr p
      · omega
      · rw [hcr] at hlong
        omega
    · rintro ⟨hno, -⟩
      cases hno hmark
  · rw [hkept hmark]
    obtain ⟨hcr, hshort⟩ | ⟨hcr, hsame⟩ := length_stripCr p
    · simp only [hcr, ne_eq, not_true_eq_false, and_false, iff_false]
      intro heq
      rw [heq] at hshort
      omega
    · simp only [hsame, hcr, ne_eq, not_false_eq_true, and_true, true_iff]
      exact hmark

/-- A path with a blank. -/
theorem header_path_iff_blank :
    ∃ f, parseUnified (headed "my file".toList "new file mode 100644\n".toList) 1 = .ok [f] ∧ f.path = "my file".toList := by
  refine (header_path_iff "my file".toList "new file mode 100644\n".toList 1 (by decide) (by decide) (by decide)
    ⟨['x'], [⟨['x'], none, .text []⟩], by decide, by rfl⟩ (by decide) (by decide)).2 ?_
  constructor
  · decide
  · decide

/-- **A path that holds ` b/`** is cut at its own mark. -/
theorem not_header_path : '\n' ∉ "x b/y".toList ∧ '"' ∉ "x b/y".toList ∧
    parseUnified (headed "x b/y".toList "new file mode 100644\n".toList) 1000 =
      .ok [⟨"y b/x b/y".toList, none, .text []⟩] := by
  refine ⟨by decide, by decide, by rfl⟩

end Iteron.Diff
