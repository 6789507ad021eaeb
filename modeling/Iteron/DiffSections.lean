import Iteron.Diff
/-!
# DiffSections — the files of a diff, one by one

The reader keeps one state for the file at hand.  A file read behind others is read as it is alone, but for a mode change
that an earlier file left behind: the entry of a file with hunks or with binary content does not use its mode change, and
the next file without content reports it as its own (`sections_independent_iff`).
-/
namespace Iteron.Diff

open Refuse
open List (any_cons append_assoc cons_append flatMap_cons flatten_cons foldlM_cons mem_cons_of_mem singleton_append)

variable {limit : Nat} {r r1 : Reader} {line : List Char} {ls : List (List Char)}

/-! ## Lines -/

theorem linesFrom_append (line text rest : List Char) :
    linesFrom line (text ++ '\n' :: rest) = linesFrom line (text ++ ['\n']) ++ lines rest := by
  induction text generalizing line with
  | nil => simp [linesFrom, lines]
  | cons c text ih =>
    rw [cons_append, cons_append, linesFrom, linesFrom]
    by_cases hc : c = '\n'
    · rw [if_pos hc, if_pos hc, ih, cons_append]
    · rw [if_neg hc, if_neg hc, ih]

theorem lines_append {text rest : List Char} (h : text.getLast? = some '\n') :
    lines (text ++ rest) = lines text ++ lines rest := by
  obtain ⟨init, rfl⟩ := List.getLast?_eq_some_iff.1 h
  rw [append_assoc, singleton_append]
  exact linesFrom_append [] init rest

theorem linesFrom_line {body : List Char} (h : '\n' ∉ body) (line rest : List Char) :
    linesFrom line (body ++ '\n' :: rest) = stripCr (line ++ body) :: lines rest := by
  induction body generalizing line with
  | nil => simp [linesFrom, lines]
  | cons c body ih =>
    have hc : c ≠ '\n' := fun hc => h (by rw [hc]; exact .head _)
    rw [cons_append, linesFrom, if_neg hc, ih (fun hm => h (mem_cons_of_mem c hm)), append_assoc, singleton_append]

theorem lines_flatten : ∀ {sections : List (List Char)}, (∀ s ∈ sections.dropLast, s.getLast? = some '\n') →
    lines sections.flatten = sections.flatMap lines
  | [], _ => rfl
  | [s], _ => by simp
  | s :: t :: sections, h => by
    rw [flatten_cons, lines_append (h s (by simp)), flatMap_cons,
      lines_flatten (fun u hu => h u (by rw [List.dropLast_cons_cons]; exact mem_cons_of_mem s hu))]

theorem stripStart_append (pat rest : List Char) : stripStart pat (pat ++ rest) = some rest := by
  simp [stripStart]

variable {pat : List Char}

theorem stripStart_eq_none {text : List Char} : stripStart pat text = none ↔ ¬ pat <+: text := by
  unfold stripStart
  by_cases h : pat <+: text
  · simp [h]
  · simp [h]

/-! ## What a line says of its file -/

def saysMode (line : List Char) : Bool := oldMode.isPrefixOf line

def saysHunk (line : List Char) : Bool := hunkMark.isPrefixOf line

/-- The file has a `old mode` line. -/
def hasMode (ls : List (List Char)) : Bool := ls.any saysMode

def hasContent (ls : List (List Char)) : Bool := ls.any (fun l => saysHunk l || isBinaryLine l)

/-- The reader with another path, with other files before and with another mode. -/
def Reader.amid (r : Reader) (path : Option (List Char)) (files : List FileDiff) (mode : Option (List Char × List Char)) :
    Reader := { r with path, files, mode }

/-- What becomes of a mode found at the start of a file: the file's own mode replaces it, and else it stays. -/
def Carried (found own mode : Option (List Char × List Char)) : Prop :=
  (own = none ∧ mode.isSome = found.isSome) ∨ (own.isSome ∧ mode = own)

theorem closeHunk_ok (h : r.closeHunk = .ok r1) : (r.current = none ∧ r1 = r) ∨
    ∃ hunk, r.current = some hunk ∧ verify hunk = .ok () ∧ r1 = { r with hunks := r.hunks ++ [hunk], current := none } := by
  unfold Reader.closeHunk at h
  cases hc : r.current with
  | none =>
    rw [hc] at h
    exact .inl ⟨rfl, (Except.ok.inj h).symm⟩
  | some hunk =>
    rw [hc] at h
    simp only [bind_eq_ok, pure_eq_ok] at h
    obtain ⟨_, hv, rfl⟩ := h
    exact .inr ⟨hunk, rfl, hv, rfl⟩

theorem closeHunk_amid (h : r.closeHunk = .ok r1) (path : Option (List Char)) (files : List FileDiff)
    (mode : Option (List Char × List Char)) : (r.amid path files mode).closeHunk = .ok (r1.amid path files mode) := by
  obtain ⟨hc, rfl⟩ | ⟨_, hc, hv, rfl⟩ := closeHunk_ok h
  · simp [Reader.closeHunk, Reader.amid, hc]
  · simp [Reader.closeHunk, Reader.amid, hc, hv]

theorem openHunk_amid (h : r.openHunk line = .ok r1) (path : Option (List Char)) (files : List FileDiff)
    (mode : Option (List Char × List Char)) : (r.amid path files mode).openHunk line = .ok (r1.amid path files mode) := by
  unfold Reader.openHunk at h ⊢
  rw [bind_eq_ok] at h ⊢
  obtain ⟨r', hclose, h⟩ := h
  refine ⟨r'.amid path files mode, closeHunk_amid hclose path files mode, ?_⟩
  rw [bind_eq_ok] at h ⊢
  obtain ⟨u, hmany, h⟩ := h
  refine ⟨u, refuseIf_eq_ok.2 (refuseIf_eq_ok.1 hmany), ?_⟩
  cases hp : parseHeader line with
  | none => rw [hp] at h; cases h
  | some _ =>
    rw [hp] at h
    cases h
    rfl

theorem bodyLine_amid (h : r.bodyLine line = .ok r1) (path : Option (List Char)) (files : List FileDiff)
    (mode : Option (List Char × List Char)) : (r.amid path files mode).bodyLine line = .ok (r1.amid path files mode) := by
  unfold Reader.bodyLine at h ⊢
  have hcurrent : (r.amid path files mode).current = r.current := rfl
  rw [hcurrent]
  cases hc : r.current with
  | none =>
    rw [hc] at h
    cases h
    rfl
  | some _ =>
    rw [hc] at h
    dsimp only at h ⊢
    by_cases hline : line.head? = some ' ' ∨ line.head? = some '+' ∨ line.head? = some '-'
    · rw [if_pos hline, bind_eq_ok] at h
      obtain ⟨u, hmany, h⟩ := h
      cases h
      rw [if_pos hline, hmany]
      rfl
    · rw [if_neg hline] at h ⊢
      cases h
      rfl

theorem closeHunk_kept (h : r.closeHunk = .ok r1) : r1.mode = r.mode ∧ r1.binary = r.binary ∧ r1.current = none ∧
    (r1.hunks ≠ [] ↔ r.hunks ≠ [] ∨ r.current.isSome) := by
  obtain ⟨hc, rfl⟩ | ⟨_, hc, -, rfl⟩ := closeHunk_ok h
  · simp [hc]
  · simp [hc]

def Reader.holdsContent (r : Reader) : Bool := r.binary || !r.hunks.isEmpty || r.current.isSome

theorem closeHunk_content (h : r.closeHunk = .ok r1) : r.holdsContent = r1.holdsContent := by
  obtain ⟨-, rfl⟩ | ⟨_, hc, -, rfl⟩ := closeHunk_ok h
  · rfl
  · simp [Reader.holdsContent, hc]

theorem openHunk_kept (h : r.openHunk line = .ok r1) : r1.mode = r.mode ∧ r1.binary = r.binary ∧ r1.current.isSome := by
  unfold Reader.openHunk at h
  simp only [bind_eq_ok] at h
  obtain ⟨_, hclose, _, -, h⟩ := h
  cases hp : parseHeader line with
  | none => rw [hp] at h; cases h
  | some _ =>
    rw [hp] at h
    cases h
    exact ⟨(closeHunk_kept hclose).1, (closeHunk_kept hclose).2.1, rfl⟩

theorem bodyLine_kept (h : r.bodyLine line = .ok r1) : r1.mode = r.mode ∧ r1.binary = r.binary ∧ r1.hunks = r.hunks ∧
    r1.current.isSome = r.current.isSome := by
  unfold Reader.bodyLine at h
  cases hc : r.current with
  | none =>
    rw [hc] at h
    cases h
    simp [hc]
  | some _ =>
    rw [hc] at h
    dsimp only at h
    by_cases hline : line.head? = some ' ' ∨ line.head? = some '+' ∨ line.head? = some '-'
    · rw [if_pos hline, bind_eq_ok] at h
      obtain ⟨_, -, h⟩ := h
      cases h
      exact ⟨rfl, rfl, rfl, rfl⟩
    · rw [if_neg hline] at h
      cases h
      simp [hc]

variable {c : Char}

theorem head_of_isPrefixOf {text : List Char} (h : (c :: pat).isPrefixOf text = true) : text.head? = some c := by
  obtain ⟨t, rfl⟩ := List.isPrefixOf_iff_prefix.1 h
  rfl

theorem head_of_stripStart {text rest : List Char} (h : stripStart (c :: pat) text = some rest) :
    text.head? = some c := by
  unfold stripStart at h
  split at h
  · exact head_of_isPrefixOf (by assumption)
  · cases h

theorem newMode_line {m : List Char} (h : stripStart newMode line = some m) (r : Reader) :
    (if hunkMark.isPrefixOf line then r.openHunk line else r.bodyLine line) = .ok r := by
  have hhead : line.head? = some 'n' := head_of_stripStart h
  have hmark : ¬ hunkMark.isPrefixOf line = true := by
    intro hp
    obtain ⟨t, rfl⟩ := List.isPrefixOf_iff_prefix.1 hp
    cases hhead
  rw [if_neg hmark]
  unfold Reader.bodyLine
  cases hc : r.current with
  | none => rfl
  | some hunk => simp [hhead]

variable {found mode : Option (List Char × List Char)}

theorem fileLine_amid (h : r.fileLine line = .ok r1)
    (path : Option (List Char)) (files : List FileDiff) (hmode : Carried found r.mode mode) :
    ∃ mode1, (r.amid path files mode).fileLine line = .ok (r1.amid path files mode1) ∧ Carried found r1.mode mode1 := by
  unfold Reader.fileLine at h ⊢
  by_cases hbinary : isBinaryLine line = true
  · rw [if_pos hbinary] at h ⊢
    cases h
    exact ⟨mode, rfl, hmode⟩
  rw [if_neg hbinary] at h ⊢
  cases hrename : stripStart renameFrom line with
  | some source =>
    rw [hrename] at h
    simp only [bind_eq_ok, pure_eq_ok] at h
    obtain ⟨value, hvalue, rfl⟩ := h
    exact ⟨mode, by simp [hvalue, Reader.amid], hmode⟩
  | none =>
  rw [hrename] at h
  cases hcopy : stripStart copyFrom line with
  | some source =>
    rw [hcopy] at h
    simp only [bind_eq_ok, pure_eq_ok] at h
    obtain ⟨value, hvalue, rfl⟩ := h
    exact ⟨mode, by simp [hvalue, Reader.amid], hmode⟩
  | none =>
  rw [hcopy] at h
  cases hold : stripStart oldMode line with
  | some m =>
    rw [hold] at h
    cases h
    exact ⟨some (trim m, []), rfl, .inr ⟨rfl, rfl⟩⟩
  | none =>
  rw [hold] at h
  cases hnew : stripStart newMode line with
  | none =>
    rw [hnew] at h
    by_cases hmark : hunkMark.isPrefixOf line = true
    · refine ⟨mode, ?_, ?_⟩
      · simp only [Option.bind_none, if_pos hmark] at h ⊢
        exact openHunk_amid h path files mode
      · simp only [Option.bind_none, if_pos hmark] at h
        rwa [(openHunk_kept h).1]
    · simp only [Option.bind_none, if_neg hmark] at h ⊢
      exact ⟨mode, bodyLine_amid h path files mode, by rwa [(bodyLine_kept h).1]⟩
  | some m =>
    rw [hnew] at h
    cases hown : r.mode with
    | none =>
      simp only [hown, Option.map_none, newMode_line hnew] at h
      cases h
      cases mode with
      | none => exact ⟨none, newMode_line hnew (r.amid path files none), hmode⟩
      | some old =>
        refine ⟨some (old.1, trim m), rfl, ?_⟩
        rw [hown] at hmode ⊢
        simpa [Carried] using hmode
    | some own =>
      rw [hown] at h hmode
      cases h
      obtain ⟨hnone, -⟩ | ⟨-, rfl⟩ := hmode
      · cases hnone
      · exact ⟨some (own.1, trim m), rfl, .inr ⟨rfl, rfl⟩⟩

theorem not_saysMode (h : line.head? = some c) (hc : c ≠ 'o') : saysMode line = false := by
  rw [Bool.eq_false_iff]
  intro hp
  exact hc (Option.some.inj (h.symm.trans (head_of_isPrefixOf hp)))

theorem not_saysHunk (h : line.head? = some c) (hc : c ≠ '@') : saysHunk line = false := by
  rw [Bool.eq_false_iff]
  intro hp
  exact hc (Option.some.inj (h.symm.trans (head_of_isPrefixOf hp)))

theorem binary_head (h : isBinaryLine line = true) : line.head? = some 'B' ∨ line.head? = some 'G' := by
  rw [isBinaryLine, Bool.or_eq_true] at h
  exact h.imp head_of_isPrefixOf head_of_isPrefixOf

/-- **What a line adds to the file**: the mode of an `old mode` line, content from a hunk and from a binary marker. -/
theorem fileLine_says (h : r.fileLine line = .ok r1) : r1.mode.isSome = (r.mode.isSome || saysMode line) ∧
    r1.holdsContent = (r.holdsContent || (saysHunk line || isBinaryLine line)) := by
  unfold Reader.fileLine at h
  by_cases hbinary : isBinaryLine line = true
  · rw [if_pos hbinary] at h
    cases h
    have hmode : saysMode line = false := by
      obtain hb | hg := binary_head hbinary
      · exact not_saysMode hb (by decide)
      · exact not_saysMode hg (by decide)
    simp [hmode, hbinary, Reader.holdsContent]
  rw [if_neg hbinary] at h
  cases hrename : stripStart renameFrom line with
  | some source =>
    rw [hrename] at h
    simp only [bind_eq_ok, pure_eq_ok] at h
    obtain ⟨value, -, rfl⟩ := h
    have hhead : line.head? = some 'r' := head_of_stripStart hrename
    simp [not_saysMode hhead, not_saysHunk hhead, hbinary, Reader.holdsContent]
  | none =>
  rw [hrename] at h
  cases hcopy : stripStart copyFrom line with
  | some source =>
    rw [hcopy] at h
    simp only [bind_eq_ok, pure_eq_ok] at h
    obtain ⟨value, -, rfl⟩ := h
    have hhead : line.head? = some 'c' := head_of_stripStart hcopy
    simp [not_saysMode hhead, not_saysHunk hhead, hbinary, Reader.holdsContent]
  | none =>
  rw [hcopy] at h
  cases hold : stripStart oldMode line with
  | some m =>
    rw [hold] at h
    cases h
    have hhead : line.head? = some 'o' := head_of_stripStart hold
    have hmode : saysMode line = true := by
      by_contra hnot
      unfold saysMode at hnot
      rw [stripStart, if_neg hnot] at hold
      cases hold
    simp [hmode, not_saysHunk hhead, hbinary, Reader.holdsContent]
  | none =>
  rw [hold] at h
  have hmode : saysMode line = false := by
    rw [stripStart_eq_none] at hold
    rw [Bool.eq_false_iff]
    exact fun hp => hold (List.isPrefixOf_iff_prefix.1 hp)
  cases hnew : (stripStart newMode line).bind (fun m => r.mode.map (fun mode => (m, mode.1))) with
  | some p =>
    rw [hnew] at h
    cases h
    obtain ⟨m, hm, hown⟩ := Option.bind_eq_some_iff.1 hnew
    obtain ⟨mode, hown, -⟩ := Option.map_eq_some_iff.1 hown
    have hhead : line.head? = some 'n' := head_of_stripStart hm
    simp [hmode, not_saysHunk hhead, hbinary, Reader.holdsContent, hown]
  | none =>
    rw [hnew] at h
    by_cases hmark : hunkMark.isPrefixOf line = true
    · simp only [if_pos hmark] at h
      obtain ⟨hkept, -, hcurrent⟩ := openHunk_kept h
      have hhunk : saysHunk line = true := hmark
      simp [hkept, hmode, hhunk, Reader.holdsContent, hcurrent]
    · simp only [if_neg hmark] at h
      obtain ⟨hkept, hb, hhunks, hcurrent⟩ := bodyLine_kept h
      have hhunk : saysHunk line = false := Bool.eq_false_iff.2 hmark
      simp [hkept, hmode, hhunk, hbinary, Reader.holdsContent, hb, hhunks, hcurrent]

/-! ## One file -/

def between (files : List FileDiff) (mode : Option (List Char × List Char)) : Reader := { files, mode }

theorem readLine_file (h : ¬ gitHeader <+: line) (hok : r.readLine limit line = .ok r1) :
    byteLen line ≤ maxLineBytes ∧ r.fileLine line = .ok r1 := by
  unfold Reader.readLine at hok
  rw [stripStart_eq_none.2 h, bind_eq_ok] at hok
  obtain ⟨_, hlen, hok⟩ := hok
  exact ⟨Nat.not_lt.1 (refuseIf_eq_ok.1 hlen), hok⟩

theorem readLine_of_file (h : ¬ gitHeader <+: line) (hlen : byteLen line ≤ maxLineBytes) (hok : r.fileLine line = .ok r1) :
    r.readLine limit line = .ok r1 := by
  unfold Reader.readLine
  rw [stripStart_eq_none.2 h, refuseIf_of_not (Nat.not_lt.2 hlen)]
  exact hok

theorem readLines_amid (limit' : Nat)
    (hfile : ∀ l ∈ ls, ¬ gitHeader <+: l) (h : ls.foldlM (Reader.readLine limit) r = .ok r1) (path : Option (List Char)) (files : List FileDiff)
    (hmode : Carried found r.mode mode) :
    ∃ mode1, ls.foldlM (Reader.readLine limit') (r.amid path files mode) = .ok (r1.amid path files mode1) ∧
      Carried found r1.mode mode1 := by
  induction ls generalizing r mode with
  | nil =>
    cases h
    exact ⟨mode, rfl, hmode⟩
  | cons l ls ih =>
    rw [foldlM_cons, bind_eq_ok] at h
    obtain ⟨_, hl, h⟩ := h
    have hnot := hfile l (.head _)
    obtain ⟨hlen, hl⟩ := readLine_file hnot hl
    obtain ⟨_, hl', hmode'⟩ := fileLine_amid hl path files hmode
    obtain ⟨mode1, hls, hmode1⟩ := ih (fun l' hl' => hfile l' (mem_cons_of_mem l hl')) h hmode'
    refine ⟨mode1, ?_, hmode1⟩
    rw [foldlM_cons, readLine_of_file hnot hlen hl', ok_bind]
    exact hls

theorem readLines_says (hfile : ∀ l ∈ ls, ¬ gitHeader <+: l) (h : ls.foldlM (Reader.readLine limit) r = .ok r1) :
    r1.mode.isSome = (r.mode.isSome || hasMode ls) ∧ r1.holdsContent = (r.holdsContent || hasContent ls) := by
  induction ls generalizing r with
  | nil =>
    cases h
    simp [hasMode, hasContent]
  | cons l ls ih =>
    rw [foldlM_cons, bind_eq_ok] at h
    obtain ⟨_, hl, h⟩ := h
    obtain ⟨hmode, hcontent⟩ := fileLine_says (readLine_file (hfile l (.head _)) hl).2
    obtain ⟨hmode', hcontent'⟩ := ih (fun l' hl' => hfile l' (mem_cons_of_mem l hl')) h
    simp [hmode', hmode, hcontent', hcontent, hasMode, hasContent, Bool.or_assoc]

def Reader.entry (r : Reader) (path : List Char) : FileDiff := { path, origin := r.origin, change := r.change.1 }

theorem flush_of_close {path : List Char} {r' : Reader} (hclose : r.closeHunk = .ok r') (hpath : r'.path = some path)
    (hroom : r'.files.length < limit) :
    r.flush limit = .ok (between (r'.files ++ [r'.entry path]) (if r'.change.2 then none else r'.mode)) := by
  have hlen : ¬ limit < (r'.files ++ [r'.entry path]).length := by
    rw [List.length_append, List.length_singleton]
    omega
  unfold Reader.flush
  rw [hclose, ok_bind, hpath]
  simp only [Reader.entry] at hlen
  simp only [refuseIf_of_not hlen, ok_bind, between, Reader.entry, (closeHunk_kept hclose).2.2.1]
  rfl

theorem flush_between (files : List FileDiff) (mode : Option (List Char × List Char)) :
    (between files mode).flush limit = .ok (between files mode) := rfl

/-- A section: the lines of one file, behind its own `diff --git` line. -/
structure SectionOf (text rest : List Char) (body : List (List Char)) : Prop where
  split : lines text = (gitHeader ++ rest) :: body
  single : ∀ l ∈ body, ¬ gitHeader <+: l

/-- A section read alone: the reader at its end, and its entry. -/
structure Alone (limit : Nat) (rest : List Char) (body : List (List Char)) (path : List Char) (r : Reader) : Prop where
  headerLen : byteLen (gitHeader ++ rest) ≤ maxLineBytes
  named : parseGitHeaderPath rest = .ok path
  read : ∃ r0, body.foldlM (Reader.readLine limit) { path := some path } = .ok r0 ∧ r0.closeHunk = .ok r
  room : 0 < limit

theorem readLine_header {rest path : List Char} (hlen : byteLen (gitHeader ++ rest) ≤ maxLineBytes)
    (hpath : parseGitHeaderPath rest = .ok path) (hflush : r.flush limit = .ok r1) :
    r.readLine limit (gitHeader ++ rest) = .ok { r1 with path := some path } := by
  unfold Reader.readLine
  rw [refuseIf_of_not (Nat.not_lt.2 hlen), stripStart_append, ok_bind]
  simp only [hflush, hpath, ok_bind]
  rfl

theorem amid_self (r : Reader) : r.amid r.path r.files r.mode = r := rfl

theorem readLines_kept (hfile : ∀ l ∈ ls, ¬ gitHeader <+: l) (h : ls.foldlM (Reader.readLine limit) r = .ok r1) :
    r1.path = r.path ∧ r1.files = r.files := by
  have hmode : Carried r.mode r.mode r.mode := by
    cases r.mode with
    | none => exact .inl ⟨rfl, rfl⟩
    | some m => exact .inr ⟨rfl, rfl⟩
  obtain ⟨_, hamid, -⟩ := readLines_amid limit hfile h r.path r.files hmode
  rw [amid_self, h] at hamid
  have heq := Except.ok.inj hamid
  exact ⟨(congrArg Reader.path heq).trans rfl, (congrArg Reader.files heq).trans rfl⟩

theorem closeHunk_same (h : r.closeHunk = .ok r1) : r1.path = r.path ∧ r1.files = r.files := by
  obtain ⟨-, rfl⟩ | ⟨_, -, -, rfl⟩ := closeHunk_ok h
  · exact ⟨rfl, rfl⟩
  · exact ⟨rfl, rfl⟩

variable {text rest path : List Char} {body : List (List Char)}

theorem section_alone {fs : List FileDiff} (hs : SectionOf text rest body) (h : parseUnified text limit = .ok fs) :
    ∃ path r, Alone (min limit maxEntries) rest body path r ∧ fs = [r.entry path] := by
  unfold parseUnified at h
  simp only [bind_eq_ok, pure_eq_ok] at h
  obtain ⟨_, -, r0, hread, _, hflush, rfl⟩ := h
  rw [hs.split, foldlM_cons, bind_eq_ok] at hread
  obtain ⟨_, hheader, hread⟩ := hread
  unfold Reader.readLine at hheader
  rw [stripStart_append, bind_eq_ok] at hheader
  obtain ⟨_, hlen, hheader⟩ := hheader
  have hempty : ({} : Reader).flush (min limit maxEntries) = .ok {} := rfl
  simp only [hempty, ok_bind, bind_eq_ok, pure_eq_ok] at hheader
  obtain ⟨path, hpath, rfl⟩ := hheader
  have hflush' := hflush
  unfold Reader.flush at hflush'
  rw [bind_eq_ok] at hflush'
  obtain ⟨r, hclose, hflush'⟩ := hflush'
  obtain ⟨hkept, hfiles⟩ := readLines_kept hs.single hread
  obtain ⟨hpath', hfiles'⟩ := closeHunk_same hclose
  rw [hfiles] at hfiles'
  rw [hkept] at hpath'
  rw [hpath'] at hflush'
  simp only [bind_eq_ok, pure_eq_ok, refuseIf_eq_ok, hfiles', List.nil_append, List.length_singleton] at hflush'
  obtain ⟨_, _, rfl⟩ := hflush'
  exact ⟨path, r, ⟨Nat.not_lt.1 (refuseIf_eq_ok.1 hlen), hpath, ⟨r0, hread, hclose⟩, by omega⟩, rfl⟩

theorem change_used (r : Reader) (h : r.current = none) : r.change.2 = !r.holdsContent := by
  unfold Reader.change Reader.holdsContent
  by_cases hb : r.binary = true
  · simp [hb]
  · by_cases hh : r.hunks = []
    · cases hm : r.mode with
      | none => simp [hb, hh, h]
      | some m => simp [hb, hh, h]
    · simp [hb, hh, h]

variable {files : List FileDiff}

theorem entry_amid {path' : Option (List Char)} (h : r.current = none) (hmode : Carried found r.mode mode) :
    (r.amid path' files mode).entry path = r.entry path ↔
      ¬ (found.isSome = true ∧ r.holdsContent = false ∧ r.mode.isSome = false) := by
  have hparts : (r.amid path' files mode).entry path = r.entry path ↔ (r.amid path' files mode).change.1 = r.change.1 := by
    simp [Reader.entry, Reader.amid]
  rw [hparts]
  by_cases hcontent : r.holdsContent = true
  · have hsame : (r.amid path' files mode).change = r.change := by
      simp only [Reader.holdsContent, h, Option.isSome_none, Bool.or_false, Bool.or_eq_true] at hcontent
      unfold Reader.change Reader.amid
      obtain hb | hh := hcontent
      · simp [hb]
      · have hne : r.hunks ≠ [] := by simpa using hh
        simp [hne]
    simp [hsame, hcontent]
  · have hbare : r.binary = false ∧ r.hunks = [] := by
      simpa [Reader.holdsContent, h] using hcontent
    obtain ⟨hown, hfound⟩ | ⟨hown, rfl⟩ := hmode
    · cases mode with
      | none =>
        simp [Reader.change, Reader.amid, hbare, hown, ← hfound]
      | some m =>
        simp only [Reader.change, Reader.amid, hbare, hown, ← hfound, hcontent, Option.isSome_none]
        cases r.origin <;> simp
    · have hsame : (r.amid path' files r.mode).change = r.change := rfl
      simp [hsame, hown]

/-- **A section read behind others**: its entry is its own unless it takes a mode that was left behind, and it leaves a
mode behind when it has content. -/
theorem section_amid (files : List FileDiff) (mode : Option (List Char × List Char)) (hs : SectionOf text rest body)
    (halone : Alone limit rest body path r) (hroom : files.length < limit) :
    ∃ r1 f mode1, (lines text).foldlM (Reader.readLine limit) (between files mode) = .ok r1 ∧
      r1.flush limit = .ok (between (files ++ [f]) mode1) ∧
      (f = r.entry path ↔ ¬ (mode.isSome = true ∧ hasContent body = false ∧ hasMode body = false)) ∧
      mode1.isSome = ((mode.isSome || hasMode body) && hasContent body) := by
  obtain ⟨r0, hread, hclose⟩ := halone.read
  have hstart : Carried mode none mode := .inl ⟨rfl, rfl⟩
  obtain ⟨mode1, hread', hmode1⟩ := readLines_amid limit hs.single hread (some path) files hstart
  obtain ⟨hsaid, hsaid'⟩ := readLines_says hs.single hread
  obtain ⟨hkept, -, hcurrent, -⟩ := closeHunk_kept hclose
  have hcontent : r.holdsContent = hasContent body := by
    rw [← closeHunk_content hclose, hsaid']
    rfl
  have hmode : r.mode.isSome = hasMode body := by
    rw [hkept, hsaid]
    rfl
  rw [← hkept] at hmode1
  have hclose' := closeHunk_amid hclose (some path) files mode1
  refine ⟨r0.amid (some path) files mode1, (r.amid (some path) files mode1).entry path, _, ?_,
    flush_of_close hclose' rfl hroom, ?_, ?_⟩
  · rw [hs.split, foldlM_cons, readLine_header halone.headerLen halone.named (flush_between files mode), ok_bind]
    exact hread'
  · rw [entry_amid hcurrent hmode1, hcontent, hmode]
  · have hused : (r.amid (some path) files mode1).change.2 = !hasContent body := by
      rw [change_used (r.amid (some path) files mode1) hcurrent, ← hcontent]
      rfl
    rw [hused, ← hmode]
    obtain ⟨hown, hfound⟩ | ⟨hown, rfl⟩ := hmode1
    · cases hasContent body <;> simp [Reader.amid, hown, hfound]
    · cases hasContent body <;> simp [Reader.amid, hown]

/-! ## Rows of files -/

def finish (limit : Nat) (ls : List (List Char)) (r : Reader) : Except DiffError Reader :=
  ls.foldlM (Reader.readLine limit) r >>= Reader.flush limit

theorem finish_flush (hls : ls = [] ∨ ∃ rest ls', ls = (gitHeader ++ rest) :: ls')
    (h : r.flush limit = .ok (between files mode)) : finish limit ls r = finish limit ls (between files mode) := by
  obtain rfl | ⟨rest, ls', rfl⟩ := hls
  · exact h
  · have hheader : r.readLine limit (gitHeader ++ rest) = (between files mode).readLine limit (gitHeader ++ rest) := by
      unfold Reader.readLine
      rw [stripStart_append]
      simp only [h, flush_between]
    unfold finish
    rw [foldlM_cons, foldlM_cons, hheader]

def IsSection (text : List Char) : Prop := ∃ rest body, SectionOf text rest body

/-- A mode change is left behind by a file with content, passes every file with content, and is taken by a file that has
neither content nor a mode change of its own. -/
def leaks : Bool → List (List Char) → Bool
  | _, [] => false
  | held, text :: texts =>
    (held && !hasContent (lines text) && !hasMode (lines text)) ||
      leaks ((held || hasMode (lines text)) && hasContent (lines text)) texts

theorem SectionOf.says (h : SectionOf text rest body) :
    hasMode (lines text) = hasMode body ∧ hasContent (lines text) = hasContent body := by
  have hhead : (gitHeader ++ rest).head? = some 'd' := rfl
  have hbinary : isBinaryLine (gitHeader ++ rest) = false := by
    rw [Bool.eq_false_iff]
    intro hb
    obtain hb | hg := binary_head hb
    · cases hb
    · cases hg
  rw [h.split, hasMode, hasContent, any_cons, any_cons, not_saysMode hhead (by decide),
    not_saysHunk hhead (by decide), hbinary]
  exact ⟨rfl, rfl⟩

variable {texts : List (List Char)}

theorem sections_begin (h : ∀ t ∈ texts, IsSection t) :
    texts.flatMap lines = [] ∨ ∃ rest ls', texts.flatMap lines = (gitHeader ++ rest) :: ls' := by
  cases texts with
  | nil => exact .inl rfl
  | cons t texts =>
    obtain ⟨rest, body, hs⟩ := h t (.head _)
    refine .inr ⟨rest, body ++ texts.flatMap lines, ?_⟩
    rw [flatMap_cons, hs.split, cons_append]

theorem finish_append {ls' : List (List Char)} (h : ls.foldlM (Reader.readLine limit) r = .ok r1) :
    finish limit (ls ++ ls') r = finish limit ls' r1 := by
  unfold finish
  rw [List.foldlM_append, h, ok_bind]

/-- **A row of sections** has their entries, exactly when no mode change leaks. -/
theorem finish_sections : ∀ {texts : List (List Char)} {parts : List (List FileDiff)} (files : List FileDiff)
    (mode : Option (List Char × List Char)), (∀ t ∈ texts, IsSection t) →
    List.Forall₂ (fun t fs => parseUnified t limit = .ok fs) texts parts → files.length + texts.length ≤ min limit maxEntries →
    ∃ out mode1, finish (min limit maxEntries) (texts.flatMap lines) (between files mode) = .ok (between (files ++ out) mode1) ∧
      (out = parts.flatten ↔ leaks mode.isSome texts = false)
  | [], _, files, mode, _, .nil, _ => ⟨[], mode, by rw [List.append_nil]; rfl, by simp [leaks]⟩
  | t :: texts, fs :: parts, files, mode, hsection, .cons hparse hrest, hroom => by
    obtain ⟨_, body, hs⟩ := hsection t (.head _)
    have hsection' : ∀ t ∈ texts, IsSection t := fun u hu => hsection u (mem_cons_of_mem t hu)
    obtain ⟨_, r, halone, rfl⟩ := section_alone hs hparse
    rw [List.length_cons] at hroom
    obtain ⟨_, f, mode1, hread, hflush, hown, hmode1⟩ :=
      section_amid files mode hs halone (show files.length < min limit maxEntries by omega)
    obtain ⟨out, mode2, hfinish, hout⟩ := finish_sections (files ++ [f]) mode1 hsection' hrest
      (by rw [List.length_append, List.length_singleton]; omega)
    refine ⟨f :: out, mode2, ?_, ?_⟩
    · rw [flatMap_cons, finish_append hread, finish_flush (sections_begin hsection') hflush, hfinish,
        append_assoc, singleton_append]
    · have hhead : leaks mode.isSome (t :: texts) = false ↔
          ¬ (mode.isSome = true ∧ hasContent body = false ∧ hasMode body = false) ∧ leaks mode1.isSome texts = false := by
        rw [leaks, hs.says.1, hs.says.2, hmode1, Bool.or_eq_false_iff]
        simp only [Bool.and_assoc, Bool.and_eq_false_imp, Bool.not_eq_true', Bool.not_eq_false', not_and, Bool.not_eq_false]
      rw [hhead, ← hown, ← hout, flatten_cons, singleton_append, List.cons_eq_cons]

/-- A mode change found before the files is taken by the first of them that has no content, if that has no mode. -/
def Taken (texts : List (List Char)) : Prop :=
  ∃ passed target rest, texts = passed ++ target :: rest ∧ (∀ t ∈ passed, hasContent (lines t) = true) ∧
    hasMode (lines target) = false ∧ hasContent (lines target) = false

/-- A file with a mode change and with content leaves the mode change to a later file. -/
def Leaks (texts : List (List Char)) : Prop :=
  ∃ before source rest, texts = before ++ source :: rest ∧ hasMode (lines source) = true ∧
    hasContent (lines source) = true ∧ Taken rest

theorem not_taken_nil : ¬ Taken [] := by
  rintro ⟨_, _, _, h, -⟩
  simp at h

theorem not_leaks_nil : ¬ Leaks [] := by
  rintro ⟨_, _, _, h, -⟩
  simp at h

variable {t : List Char}

theorem taken_cons : Taken (t :: texts) ↔
    (hasMode (lines t) = false ∧ hasContent (lines t) = false) ∨ (hasContent (lines t) = true ∧ Taken texts) := by
  constructor
  · rintro ⟨passed, target, rest, h, hpassed, hmode, hcontent⟩
    cases passed with
    | nil =>
      cases h
      exact .inl ⟨hmode, hcontent⟩
    | cons u passed =>
      cases h
      exact .inr ⟨hpassed t (.head _), passed, target, rest, rfl,
        fun v hv => hpassed v (mem_cons_of_mem t hv), hmode, hcontent⟩
  · rintro (⟨hmode, hcontent⟩ | ⟨ht, passed, target, rest, rfl, hpassed, hmode, hcontent⟩)
    · exact ⟨[], t, texts, rfl, by simp, hmode, hcontent⟩
    · refine ⟨t :: passed, target, rest, rfl, ?_, hmode, hcontent⟩
      intro v hv
      obtain rfl | hv := List.mem_cons.1 hv
      · exact ht
      · exact hpassed v hv

theorem leaks_cons : Leaks (t :: texts) ↔
    (hasMode (lines t) = true ∧ hasContent (lines t) = true ∧ Taken texts) ∨ Leaks texts := by
  constructor
  · rintro ⟨before, source, rest, h, hmode, hcontent, htaken⟩
    cases before with
    | nil =>
      cases h
      exact .inl ⟨hmode, hcontent, htaken⟩
    | cons u before =>
      cases h
      exact .inr ⟨before, source, rest, rfl, hmode, hcontent, htaken⟩
  · rintro (⟨hmode, hcontent, htaken⟩ | ⟨before, source, rest, rfl, hmode, hcontent, htaken⟩)
    · exact ⟨[], t, texts, rfl, hmode, hcontent, htaken⟩
    · exact ⟨t :: before, source, rest, rfl, hmode, hcontent, htaken⟩

theorem leaks_iff {held : Bool} : leaks held texts = true ↔ (held = true ∧ Taken texts) ∨ Leaks texts := by
  induction texts generalizing held with
  | nil => simp [leaks, not_taken_nil, not_leaks_nil]
  | cons t texts ih =>
    rw [leaks, Bool.or_eq_true, ih, taken_cons, leaks_cons]
    cases hasMode (lines t) <;> cases hasContent (lines t) <;> simp
    tauto

/-- The files of a row of sections are the files of its sections, each read alone. -/
def Independent (limit : Nat) (sections : List (List Char)) : Prop :=
  ∃ parts, sections.mapM (fun s => parseUnified s limit) = .ok parts ∧
    parseUnified sections.flatten limit = .ok parts.flatten

/-- **The sections of a diff are independent** exactly when no mode change leaks from a file with content to a file
without any. -/
theorem sections_independent_iff (limit : Nat) (sections : List (List Char)) (hsection : ∀ s ∈ sections, IsSection s)
    (hends : ∀ s ∈ sections.dropLast, s.getLast? = some '\n')
    (haccepts : ∀ s ∈ sections, ∃ fs, parseUnified s limit = .ok fs) (hsize : byteLen sections.flatten ≤ maxDiffBytes)
    (hcount : sections.length ≤ min limit maxEntries) : Independent limit sections ↔ ¬ Leaks sections := by
  obtain ⟨parts, hparts⟩ := exists_mapM haccepts
  obtain ⟨out, mode, hfinish, hout⟩ := finish_sections [] none hsection (mapM_ok hparts)
    (by rwa [List.length_nil, Nat.zero_add])
  have hparse : parseUnified sections.flatten limit = .ok out := by
    unfold parseUnified
    rw [refuseIf_of_not (Nat.not_lt.2 hsize), lines_flatten hends, ok_bind, ← bind_assoc]
    unfold finish at hfinish
    have hstart : between [] none = ({} : Reader) := rfl
    rw [hstart] at hfinish
    rw [hfinish]
    rfl
  have hleaks : leaks (none : Option (List Char × List Char)).isSome sections = false ↔ ¬ Leaks sections := by
    rw [← Bool.not_eq_true, leaks_iff]
    simp
  rw [← hleaks, ← hout]
  constructor
  · rintro ⟨_, hparts', hparse'⟩
    rw [hparts] at hparts'
    cases hparts'
    rw [hparse] at hparse'
    exact Except.ok.inj hparse'
  · rintro rfl
    exact ⟨parts, hparts, hparse⟩

def checkSection (text : List Char) : Bool :=
  match lines text with
  | [] => false
  | l :: body => gitHeader.isPrefixOf l && body.all (fun l => !gitHeader.isPrefixOf l)

theorem checkSection_iff {text : List Char} : checkSection text = true ↔ IsSection text := by
  unfold checkSection
  constructor
  · intro h
    cases hl : lines text with
    | nil => rw [hl] at h; cases h
    | cons l body =>
      rw [hl] at h
      simp only [Bool.and_eq_true, List.all_eq_true, Bool.not_eq_true'] at h
      obtain ⟨rest, rfl⟩ := List.isPrefixOf_iff_prefix.1 h.1
      refine ⟨rest, body, hl, fun l hl hp => ?_⟩
      rw [← List.isPrefixOf_iff_prefix, h.2 l hl] at hp
      cases hp
  · rintro ⟨rest, body, hs⟩
    rw [hs.split]
    simp only [Bool.and_eq_true, List.all_eq_true, Bool.not_eq_true']
    exact ⟨List.isPrefixOf_iff_prefix.2 ⟨rest, rfl⟩,
      fun l hl => Bool.eq_false_iff.2 (fun hp => hs.single l hl (List.isPrefixOf_iff_prefix.1 hp))⟩

instance (text : List Char) : Decidable (IsSection text) := decidable_of_iff _ checkSection_iff

def editedScript : List Char :=
  "diff --git a/run.sh b/run.sh\nold mode 100644\nnew mode 100755\n@@ -1 +1 @@\n-a\n+b\n".toList

def emptyFile : List Char := "diff --git a/empty b/empty\nnew file mode 100644\n".toList

/-- A mode change alone, and a file renamed: the mode change is used where it stands. -/
theorem sections_independent_iff_rename : Independent 2
    ["diff --git a/run.sh b/run.sh\nold mode 100644\nnew mode 100755\n".toList,
      "diff --git a/x b/y\nrename from x\nrename to y\n".toList] := by
  rw [String.toList_ofList, String.toList_ofList]
  refine (sections_independent_iff 2 _ ?_ ?_ ?_ ?_ ?_).2 ?_
  · decide
  · decide
  · intro s hs
    simp only [List.mem_cons, List.not_mem_nil, or_false] at hs
    obtain rfl | rfl := hs
    · exact ⟨[⟨"run.sh".toList, none, .modeOnly "100644".toList "100755".toList⟩], by rfl⟩
    · exact ⟨[⟨['y'], some ⟨['x'], false⟩, .renameOnly⟩], by rfl⟩
  · decide
  · decide
  · exact fun h => absurd (show leaks false _ = true from leaks_iff.2 (.inr h)) (by decide)

/-- **An empty file behind an edited script** is reported as a mode change. -/
theorem not_sections_independent : (∀ s ∈ [editedScript, emptyFile], IsSection s ∧ s.getLast? = some '\n') ∧
    parseUnified emptyFile 1000 = .ok [⟨"empty".toList, none, .text []⟩] ∧
    (∃ script, parseUnified editedScript 1000 = .ok [script] ∧ parseUnified (editedScript ++ emptyFile) 1000 =
      .ok [script, ⟨"empty".toList, none, .modeOnly "100644".toList "100755".toList⟩]) ∧
    ¬ Independent 1000 [editedScript, emptyFile] := by
  have hedited : editedScript = _ := String.toList_ofList
  have hadded : emptyFile = _ := String.toList_ofList
  have hscript : parseUnified editedScript 1000 = .ok [⟨"run.sh".toList, none,
      .text [⟨"@@ -1 +1 @@".toList, 1, 1, 1, 1, ["-a".toList, "+b".toList]⟩]⟩] := by rw [hedited]; rfl
  have hempty : parseUnified emptyFile 1000 = .ok [⟨"empty".toList, none, .text []⟩] := by rw [hadded]; rfl
  have hboth : parseUnified (editedScript ++ emptyFile) 1000 = .ok [⟨"run.sh".toList, none,
      .text [⟨"@@ -1 +1 @@".toList, 1, 1, 1, 1, ["-a".toList, "+b".toList]⟩]⟩,
      ⟨"empty".toList, none, .modeOnly "100644".toList "100755".toList⟩] := by
    rw [hedited, hadded]
    decide +kernel
  refine ⟨by rw [hedited, hadded]; decide, hempty, ⟨_, hscript, hboth⟩, ?_⟩
  rintro ⟨_, hparts, hparse⟩
  rw [flatten_cons, flatten_cons, List.flatten_nil, List.append_nil, hboth] at hparse
  rw [List.mapM_cons, List.mapM_cons, List.mapM_nil, hscript, hempty] at hparts
  cases hparts
  simp at hparse

end Iteron.Diff
