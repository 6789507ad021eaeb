import Iteron.EditLines
/-!
# EditNormalized — the scan for an anchor up to blanks

The scan over line hashes meets every place whose hashes are those of the anchor, and the check behind it keeps those
whose lines are the anchor's up to blanks (`scan_spec`).  Within the limits an anchor with something to match is accepted
exactly when it has one place (`planNormalizedEdit_iff`).
-/
namespace Iteron.Edit
open Patch (Bytes UniqueEditError)
open List (all_map append_assoc drop_drop length_append length_drop length_eq_zero_iff length_nil length_pos_of_ne_nil
  length_take map_drop map_take ne_nil_of_mem take_append_drop)

variable {limits : Limits} {content old new : Bytes} {i e : Nat}

/-! ## Places -/

/-- The lines of the content from `i` on are the lines of the anchor up to blanks and line endings, and end in a line
ending if the anchor does. -/
def MatchesAt (content old : Bytes) (i : Nat) : Prop :=
  i + (lineParts old).length ≤ (lineParts content).length ∧
    (((lineParts content).drop i).take (lineParts old).length).map Parts.core = (lineParts old).map Parts.core ∧
    ((lineParts old).getLast?.any Parts.hasEol = true →
      (lineParts content)[i + (lineParts old).length - 1]?.any Parts.hasEol = true)

def lineHashes (text : Bytes) : List UInt64 := (lineParts text).map (fun p => stableLineHash p.core)

/-- Line `e` ends a row of lines with the hashes of the anchor's lines. -/
def candidateAt (content old : Bytes) (e : Nat) : Bool := (lineHashes old).isSuffixOf ((lineHashes content).take (e + 1))

/-- How many rows of lines have the hashes of the anchor's lines. -/
def candidates (content old : Bytes) : Nat :=
  ((List.range (lineParts content).length).filter (candidateAt content old)).length

def endsMatch (content old : Bytes) (e : Nat) : Prop :=
  (lineParts old).length ≤ e + 1 ∧ MatchesAt content old (e + 1 - (lineParts old).length)

theorem suffix_take_iff {α : Type} {l xs : List α} {m : Nat} (hm : m ≤ xs.length) :
    l <:+ xs.take m ↔ l.length ≤ m ∧ (xs.drop (m - l.length)).take l.length = l := by
  have hlen : (xs.take m).length = m := List.length_take_of_le hm
  constructor
  · intro h
    have hle : l.length ≤ m := hlen ▸ h.length_le
    refine ⟨hle, ?_⟩
    have := List.suffix_iff_eq_drop.1 h
    rw [hlen, List.drop_take, Nat.sub_sub_self hle] at this
    exact this.symm
  · rintro ⟨hle, heq⟩
    rw [List.suffix_iff_eq_drop, hlen, List.drop_take, Nat.sub_sub_self hle]
    exact heq.symm

theorem zip_all_iff {α β γ : Type} [BEq γ] [LawfulBEq γ] {f : α → γ} {g : β → γ} : ∀ {xs : List α} {ys : List β},
    xs.length = ys.length → ((xs.zip ys).all (fun p => f p.1 == g p.2) = true ↔ xs.map f = ys.map g)
  | [], [], _ => by simp
  | x :: xs, y :: ys, h => by
    rw [List.zip_cons_cons, List.all_cons, Bool.and_eq_true, zip_all_iff (Nat.succ.inj h)]
    simp

theorem endsMatch.candidateAt (h : endsMatch content old e) (he : e < (lineParts content).length) :
    candidateAt content old e = true := by
  obtain ⟨hlen, _, hcores, -⟩ := h
  rw [Edit.candidateAt, List.isSuffixOf_iff_suffix, suffix_take_iff (by simpa [lineHashes] using Nat.succ_le_of_lt he)]
  refine ⟨by simpa [lineHashes] using hlen, ?_⟩
  have := congrArg (List.map stableLineHash) hcores
  simpa [lineHashes, map_take, map_drop, Function.comp_def] using this

section
variable (content old : Bytes)

theorem verified_iff {e : Nat} {line : NormalizedLine} (hline : (placed 0 (lineParts content))[e]? = some line)
    (hlen : (lineParts old).length ≤ e + 1) : verified content (placed 0 (lineParts content)) old (placed 0 (lineParts old))
      (e + 1 - (placed 0 (lineParts old)).length) line = true ↔ endsMatch content old e := by
  have he : e < (lineParts content).length := by
    obtain ⟨h, -⟩ := List.getElem?_eq_some_iff.1 hline
    simpa using h
  have hline' : (lineParts content)[e]?.any Parts.hasEol = line.hasEol := by
    have := congrArg (fun l => l[e]?) (map_hasEol_placed 0 (lineParts content))
    simp only [List.getElem?_map, hline, Option.map_some] at this
    cases hp : (lineParts content)[e]? with
    | none => simp [hp] at this
    | some p => simpa [hp] using this.symm
  have hlast : (placed 0 (lineParts old)).getLast?.any NormalizedLine.hasEol = (lineParts old).getLast?.any Parts.hasEol := by
    have := congrArg List.getLast? (map_hasEol_placed 0 (lineParts old))
    cases hp : (lineParts old).getLast? <;> cases hq : (placed 0 (lineParts old)).getLast? <;> simp_all
  have hwindow : (((placed 0 (lineParts content)).drop (e + 1 - (lineParts old).length)).take (lineParts old).length).map
      (fun l => l.core content) = (((lineParts content).drop (e + 1 - (lineParts old).length)).take
        (lineParts old).length).map Parts.core := by
    rw [map_take, map_drop, map_core_lines, map_take, map_drop]
  have hequal : normalizedSequenceEqual content
      (((placed 0 (lineParts content)).drop (e + 1 - (lineParts old).length)).take (lineParts old).length) old
      (placed 0 (lineParts old)) = true ↔ (((lineParts content).drop (e + 1 - (lineParts old).length)).take
        (lineParts old).length).map Parts.core = (lineParts old).map Parts.core := by
    rw [← hwindow, ← map_core_lines old, normalizedSequenceEqual]
    refine zip_all_iff (f := fun l : NormalizedLine => l.core content) (g := fun l : NormalizedLine => l.core old) ?_
    simp only [length_take, length_drop, length_placed]
    omega
  have hidx : e + 1 - (lineParts old).length + (lineParts old).length - 1 = e := by omega
  rw [verified, length_placed, Bool.and_eq_true, hequal, hlast, endsMatch, MatchesAt, hidx, hline']
  constructor
  · rintro ⟨hcores, heol⟩
    refine ⟨hlen, by omega, hcores, fun h => ?_⟩
    simpa [h] using heol
  · rintro ⟨-, -, hcores, heol⟩
    refine ⟨hcores, ?_⟩
    cases h : (lineParts old).getLast?.any Parts.hasEol with
    | false => rfl
    | true => simpa using heol h

/-! ## The scan -/

def FoundBy (n : Nat) (found : Option Nat) : Prop :=
  (found = none ∧ ∀ e < n, ¬ endsMatch content old e) ∨
    ∃ e < n, found = some (e + 1 - (lineParts old).length) ∧ endsMatch content old e ∧
      ∀ e' < n, endsMatch content old e' → e' = e

variable {n : Nat}

theorem FoundBy.skip {found : Option Nat} (h : FoundBy content old n found) (hn : ¬ endsMatch content old n) :
    FoundBy content old (n + 1) found := by
  have hother (e : Nat) (he : e < n + 1) (hmatch : endsMatch content old e) : e < n := by
    refine Nat.lt_of_le_of_ne (Nat.le_of_lt_succ he) ?_
    rintro rfl
    exact hn hmatch
  obtain ⟨rfl, hnone⟩ | ⟨e, he, rfl, hmatch, hunique⟩ := h
  · exact .inl ⟨rfl, fun e he hmatch => hnone e (hother e he hmatch) hmatch⟩
  · exact .inr ⟨e, Nat.lt_succ_of_lt he, rfl, hmatch, fun e' he' hm' => hunique e' (hother e' he' hm') hm'⟩

theorem FoundBy.first (h : FoundBy content old n none) (hn : endsMatch content old n) :
    FoundBy content old (n + 1) (some (n + 1 - (lineParts old).length)) := by
  obtain ⟨-, hnone⟩ | ⟨e, -, hsome, -⟩ := h
  · refine .inr ⟨n, Nat.lt_succ_self n, rfl, hn, fun e he hmatch => ?_⟩
    by_contra hne
    exact hnone e (by omega) hmatch
  · cases hsome

def Ambiguous : Prop := ∃ e e', e < e' ∧ e' < (lineParts content).length ∧ endsMatch content old e ∧ endsMatch content old e'

/-- The scan ends with the one place or without any, or it stops: within the limit, at a second place. -/
def Settled (limits : Limits) (result : Except UniqueEditError (Option Nat)) : Prop :=
  (∃ found, result = .ok found ∧ FoundBy content old (lineParts content).length found) ∨ ((∃ err, result = .error err) ∧
      (candidates content old ≤ limits.maxNormalizedCandidateChecks → Ambiguous content old))

theorem length_lineHashes (text : Bytes) : (lineHashes text).length = (lineParts text).length := List.length_map ..

def candidatesBefore (index : Nat) : Nat := ((List.range index).filter (candidateAt content old)).length

theorem candidatesBefore_succ (index : Nat) : candidatesBefore content old (index + 1) =
    candidatesBefore content old index + if candidateAt content old index then 1 else 0 := by
  rw [candidatesBefore, candidatesBefore, List.range_succ, List.filter_append, length_append]
  cases h : candidateAt content old index <;> simp [h]

theorem candidatesBefore_le {index : Nat} (h : index ≤ (lineParts content).length) :
    candidatesBefore content old index ≤ candidates content old :=
  ((List.range_sublist.2 h).filter _).length_le

/-- **The scan** finds the one place there is, or that there is none, or stops at a second one. -/
theorem scan_spec (hold : lineParts old ≠ []) : ∀ (rest : List NormalizedLine) (index matched : Nat) (found : Option Nat),
    (placed 0 (lineParts content)).drop index = rest → index ≤ (lineParts content).length →
    Kmp.Longest (lineHashes old) ((lineParts old).length - 1) ((lineHashes content).take index) matched →
    FoundBy content old index found →
    Settled content old limits (scan limits content (placed 0 (lineParts content)) old (placed 0 (lineParts old))
      (Kmp.prefixTable (lineHashes old)) index matched (candidatesBefore content old index) found rest) := by
  intro rest
  induction rest with
  | nil =>
    intro index matched found hdrop hle _ hfound
    have hend : index = (lineParts content).length := by
      have := congrArg List.length hdrop
      rw [length_drop, length_placed, length_nil] at this
      omega
    rw [hend] at hfound
    exact .inl ⟨found, rfl, hfound⟩
  | cons line rest ih =>
    intro index matched found hdrop hle hlongest hfound
    have hpos : 0 < (lineParts old).length := length_pos_of_ne_nil hold
    have hplen := length_lineHashes old
    have htable := Kmp.tableOk_prefixTable (lineHashes old)
    have hlt : index < (lineParts content).length := by
      have := congrArg List.length hdrop
      rw [length_drop, length_placed, List.length_cons] at this
      omega
    have hline : (placed 0 (lineParts content))[index]? = some line := by
      rw [← List.head?_drop, hdrop]
      rfl
    have hrest : (placed 0 (lineParts content)).drop (index + 1) = rest := by
      rw [← drop_drop, hdrop]
      rfl
    have hhash : (lineHashes content).take (index + 1) = (lineHashes content).take index ++ [line.hash] := by
      have := congrArg (fun l => l[index]?) (map_hash_placed 0 (lineParts content))
      simp only [List.getElem?_map, hline, Option.map_some] at this
      rw [List.take_add_one]
      simp [lineHashes, ← this]
    have hstep : Kmp.Longest (lineHashes old) (lineParts old).length ((lineHashes content).take (index + 1))
        (Kmp.advance (lineHashes old) (Kmp.prefixTable (lineHashes old)) line.hash matched) := by
      have := Kmp.longest_advance (x := line.hash) hlongest (by omega) (htable.mono (by have := hlongest.1; omega))
      rw [← hhash] at this
      rwa [Nat.sub_add_cancel hpos] at this
    have hcand : candidateAt content old index = true ↔
        Kmp.advance (lineHashes old) (Kmp.prefixTable (lineHashes old)) line.hash matched = (lineParts old).length := by
      rw [candidateAt, List.isSuffixOf_iff_suffix]
      constructor
      · intro hsuffix
        refine Nat.le_antisymm hstep.1 (hstep.2.2 _ (Nat.le_refl _) ?_)
        rwa [← hplen, List.take_length]
      · intro hfull
        have := hstep.2.1
        rwa [hfull, ← hplen, List.take_length] at this
    have hhashes : (placed 0 (lineParts old)).map NormalizedLine.hash = lineHashes old := map_hash_placed ..
    rw [scan, hhashes, length_placed]
    split
    · -- the hashes are not the anchor's here
      rename_i hne
      have hno : ¬ candidateAt content old index = true := fun h => hne (hcand.1 h)
      have hcount : candidatesBefore content old (index + 1) = candidatesBefore content old index := by
        rw [candidatesBefore_succ, if_neg hno, Nat.add_zero]
      rw [← hcount]
      refine ih (index + 1) _ found hrest hlt ?_ (hfound.skip _ _ (fun h => hno (h.candidateAt hlt)))
      have hle' := hstep.1
      exact ⟨by omega, hstep.2.1, fun j hj => hstep.2.2 j (by omega)⟩
    · rename_i heq
      rw [not_not] at heq
      have hcount : candidatesBefore content old (index + 1) = candidatesBefore content old index + 1 := by
        rw [candidatesBefore_succ, if_pos (hcand.2 heq)]
      have hbound : candidatesBefore content old (index + 1) ≤ candidates content old :=
        candidatesBefore_le content old (Nat.succ_le_of_lt hlt)
      have hsuffix : lineHashes old <:+ (lineHashes content).take (index + 1) :=
        List.isSuffixOf_iff_suffix.1 (hcand.2 heq)
      have hlen : (lineParts old).length ≤ index + 1 := by
        have := hsuffix.length_le
        rw [length_take, hplen] at this
        omega
      have hnext : Kmp.Longest (lineHashes old) ((lineParts old).length - 1) ((lineHashes content).take (index + 1))
          ((Kmp.prefixTable (lineHashes old)).getD
            (Kmp.advance (lineHashes old) (Kmp.prefixTable (lineHashes old)) line.hash matched - 1) 0) := by
        rw [← hplen]
        refine Kmp.longest_fallback ?_ htable hsuffix (by rwa [hplen])
        exact List.ne_nil_of_length_pos (by omega)
      have hverified := verified_iff content old hline hlen
      rw [length_placed] at hverified
      split
      · refine .inr ⟨⟨_, rfl⟩, fun hlimit => ?_⟩
        omega
      rw [← hcount]
      split
      · rename_i hok
        have hmatch := hverified.1 hok
        split
        · -- a second place
          obtain ⟨hnone, -⟩ | ⟨e, he, -, hfirst, -⟩ := hfound
          · cases hnone
          · exact .inr ⟨⟨_, rfl⟩, fun _ => ⟨e, index, he, hlt, hfirst, hmatch⟩⟩
        · exact ih (index + 1) _ _ hrest hlt hnext (hfound.first _ _ hmatch)
      · rename_i hbad
        exact ih (index + 1) _ found hrest hlt hnext (hfound.skip _ _ (fun h => hbad (hverified.2 h)))

theorem settled_scan (limits : Limits) (hold : lineParts old ≠ []) :
    Settled content old limits (scan limits content (placed 0 (lineParts content)) old (placed 0 (lineParts old))
      (Kmp.prefixTable (lineHashes old)) 0 0 0 none (placed 0 (lineParts content))) := by
  refine scan_spec content old hold _ 0 0 none rfl (Nat.zero_le _) ⟨Nat.zero_le _, by simp, fun j hj hsuffix => ?_⟩
    (.inl ⟨rfl, fun e he => absurd he (Nat.not_lt_zero e)⟩)
  have hlen := hsuffix.length_le
  rw [length_take, length_lineHashes, List.take_zero, length_nil] at hlen
  omega

end

/-! ## The plan -/

theorem endsMatch_of_matchesAt (hold : lineParts old ≠ []) (h : MatchesAt content old i) :
    endsMatch content old (i + (lineParts old).length - 1) ∧ i + (lineParts old).length - 1 < (lineParts content).length := by
  have hpos : 0 < (lineParts old).length := length_pos_of_ne_nil hold
  have hle := h.1
  refine ⟨⟨by omega, ?_⟩, by omega⟩
  rwa [show i + (lineParts old).length - 1 + 1 - (lineParts old).length = i by omega]

theorem FoundBy.not_matchesAt (hold : lineParts old ≠ []) (h : FoundBy content old (lineParts content).length none) :
    ¬ MatchesAt content old i := by
  intro hi
  obtain ⟨-, hnone⟩ | ⟨e, -, hsome, -⟩ := h
  · obtain ⟨hends, hlt⟩ := endsMatch_of_matchesAt hold hi
    exact hnone _ hlt hends
  · cases hsome

theorem FoundBy.existsUnique (hold : lineParts old ≠ []) (h : FoundBy content old (lineParts content).length (some i)) :
    MatchesAt content old i ∧ ∀ j, MatchesAt content old j → j = i := by
  obtain ⟨hnone, -⟩ | ⟨e, -, hsome, hmatch, hunique⟩ := h
  · cases hnone
  · cases hsome
    refine ⟨hmatch.2, fun j hj => ?_⟩
    obtain ⟨hends, hlt⟩ := endsMatch_of_matchesAt hold hj
    have := hunique _ hlt hends
    have := length_pos_of_ne_nil hold
    omega

theorem Ambiguous.not_existsUnique (h : Ambiguous content old) : ¬ ∃! j, MatchesAt content old j := by
  obtain ⟨e, _, _, -, hfirst, hsecond⟩ := h
  rintro ⟨j, -, hunique⟩
  have h1 := hunique _ hfirst.2
  have h2 := hunique _ hsecond.2
  have hle := hfirst.1
  omega

theorem normalizedLines_ok (h : (lineParts content).length ≤ limits.maxNormalizedLines) :
    normalizedLines limits content = .ok (placed 0 (lineParts content)) := by
  rw [normalizedLines, if_neg (Nat.not_lt.2 h)]

theorem normalizedLines_eq_ok {ls : List NormalizedLine} (h : normalizedLines limits content = .ok ls) :
    (lineParts content).length ≤ limits.maxNormalizedLines ∧ placed 0 (lineParts content) = ls := by
  rw [normalizedLines] at h
  split at h
  · cases h
  · rename_i hle
    exact ⟨Nat.not_lt.1 hle, Except.ok.inj h⟩

theorem normalizedReplacement_ok (content : Bytes) (hnew : (lineParts new).length ≤ limits.maxNormalizedLines)
    (matched : List NormalizedLine) : ∃ replacement, normalizedReplacement limits content matched new = .ok replacement := by
  rw [normalizedReplacement, normalizedLines_ok hnew]
  simp only [bind, Except.bind, pure, Except.pure]
  split
  · exact ⟨_, rfl⟩
  · split
    · exact ⟨_, rfl⟩
    · exact ⟨_, rfl⟩

variable {matched : List NormalizedLine} {replacement : Bytes}

theorem normalizedReplacement_cases (h : normalizedReplacement limits content matched new = .ok replacement) :
    ((lineParts new).length = matched.length ∧ lineParts new ≠ [] ∧
        replacement = replaceCores content new matched (placed 0 (lineParts new))) ∨
      (lineParts new = [] ∧ replacement = []) ∨ ((lineParts new).length ≠ matched.length ∧ lineParts new ≠ [] ∧
        replacement = joinLines (((matched.find? NormalizedLine.hasEol).map
          (fun l => slice content l.contentEnd l.fullEnd)).getD [lf]) new true (placed 0 (lineParts new))) := by
  have hnil : placed 0 (lineParts new) = [] ↔ lineParts new = [] := by
    rw [← length_eq_zero_iff, length_placed, length_eq_zero_iff]
  obtain ⟨_, hlines, h⟩ := Refuse.bind_eq_ok.1 h
  obtain ⟨-, rfl⟩ := normalizedLines_eq_ok hlines
  simp only [length_placed, ne_eq, hnil] at h
  split at h
  · rename_i hsame
    exact .inl ⟨hsame.1, hsame.2, (Except.ok.inj h).symm⟩
  · rename_i hother
    split at h
    · rename_i hempty
      exact .inr (.inl ⟨hnil.1 (List.isEmpty_iff.1 hempty), (Except.ok.inj h).symm⟩)
    · rename_i hne
      rw [List.isEmpty_iff, hnil] at hne
      exact .inr (.inr ⟨fun hlen => hother ⟨hlen, hne⟩, hne, (Except.ok.inj h).symm⟩)

theorem normalizedReplacement_same (h : normalizedReplacement limits content matched new = .ok replacement)
    (hlen : (lineParts new).length = matched.length) (hne : lineParts new ≠ []) :
    replacement = replaceCores content new matched (placed 0 (lineParts new)) := by
  obtain ⟨-, -, hr⟩ | ⟨hnil, -⟩ | ⟨hother, -⟩ := normalizedReplacement_cases h
  · exact hr
  · cases hne hnil
  · cases hother hlen

def Parts.withCore (p : Parts) (core : Bytes) : Parts := { p with core := core }

theorem replaceCores_joined (new : Bytes) : ∀ {ms : List Parts} {last : Parts} {pre post : Bytes} {ls : List NormalizedLine},
    ls.length = ms.length → ms.getLast? = some last → content = pre ++ (joined ms ++ post) →
    (ms.head?.map Parts.lead).getD [] ++ (replaceCores content new (placed pre.length ms) ls ++ (last.trail ++ last.eol)) =
      joined (List.zipWith Parts.withCore ms (ls.map (fun l => l.core new)))
  | [m], last, pre, post, [l], _, hlast, _ => by
    obtain rfl : m = last := by simpa using hlast
    simp [placed, replaceCores, Parts.withCore, Parts.text]
  | m :: m' :: ms, last, pre, post, l :: ls, hlen, hlast, hcontent => by
    have hnext : content = (pre ++ m.text) ++ (joined (m' :: ms) ++ post) := by
      rw [hcontent, joined_cons, append_assoc, append_assoc]
    have ih := replaceCores_joined new (Nat.succ.inj hlen) (by rwa [List.getLast?_cons_cons] at hlast) hnext
    have hstart : pre.length + m.text.length = (pre ++ m.text).length := (length_append ..).symm
    have hgap : slice content (m.place pre.length).coreEnd (m'.place (pre ++ m.text).length).coreStart =
        m.trail ++ (m.eol ++ m'.lead) := by
      refine slice_eq (a := pre ++ (m.lead ++ m.core)) (c := m'.core ++ (m'.trail ++ (m'.eol ++ (joined ms ++ post)))) ?_ ?_ ?_
      · rw [hcontent]
        simp [Parts.text]
      · simp [Parts.place]
        omega
      · simp [Parts.place, Parts.text]
        omega
    rw [placed] at ih
    rw [placed, placed, hstart, replaceCores, hgap, List.map_cons, List.zipWith_cons_cons, joined_cons, ← ih]
    simp [Parts.withCore, Parts.text]
  | [], _, _, _, _, _, hlast, _ => by simp at hlast
  | _ :: _, _, _, _, [], hlen, _, _ => by simp at hlen
  | [_], _, _, _, _ :: _ :: _, hlen, _, _ => by simp at hlen

theorem placed_window {cs : List Parts} {n : Nat} (h : i + n ≤ cs.length) :
    ((placed 0 cs).drop i).take n = placed (joined (cs.take i)).length ((cs.drop i).take n) := by
  have hsplit : cs = cs.take i ++ ((cs.drop i).take n ++ cs.drop (i + n)) := by
    rw [← drop_drop, take_append_drop, take_append_drop]
  have hi : (placed 0 (cs.take i)).length = i := by
    rw [length_placed, length_take]
    omega
  have hn (start : Nat) : (placed start ((cs.drop i).take n)).length = n := by
    rw [length_placed, length_take, length_drop]
    omega
  conv_lhs => rw [hsplit, placed_append, placed_append]
  rw [List.drop_left' hi, List.take_left' (hn _), Nat.zero_add]

variable {plan : Plan}

variable {ms : List Parts}

theorem apply_span {pre post : Bytes} {last : Parts} (hlast : ms.getLast? = some last)
    (hcontent : content = pre ++ (joined ms ++ post))
    (hstart : plan.start = pre.length + ((ms.head?.map Parts.lead).getD []).length)
    (hstop : plan.stop = pre.length + ((joined ms).length - (last.trail ++ last.eol).length)) : plan.apply content =
      pre ++ ((ms.head?.map Parts.lead).getD [] ++ (plan.replacement ++ ((last.trail ++ last.eol) ++ post))) := by
  have hhead : ∃ rest, joined ms = (ms.head?.map Parts.lead).getD [] ++ rest := by
    cases ms with
    | nil => simp at hlast
    | cons m ms => exact ⟨m.core ++ (m.trail ++ m.eol) ++ joined ms, by simp [Parts.text]⟩
  have htail : ∃ body, joined ms = body ++ (last.trail ++ last.eol) := by
    obtain ⟨init, rfl⟩ := List.getLast?_eq_some_iff.1 hlast
    exact ⟨joined init ++ (last.lead ++ last.core), by simp [Parts.text]⟩
  obtain ⟨rest, hrest⟩ := hhead
  obtain ⟨body, hbody⟩ := htail
  have htake : content.take plan.start = pre ++ (ms.head?.map Parts.lead).getD [] := by
    rw [hcontent, hrest, append_assoc, ← append_assoc, hstart, ← length_append, List.take_left]
  have hdrop : content.drop plan.stop = (last.trail ++ last.eol) ++ post := by
    have hlength : pre.length + ((joined ms).length - (last.trail ++ last.eol).length) = (pre ++ body).length := by
      simp only [hbody, length_append]
      omega
    rw [hstop, hlength, hcontent, hbody, append_assoc, ← append_assoc, List.drop_left]
  rw [Plan.apply, htake, hdrop, append_assoc]

theorem all_blank_iff (text : Bytes) : (placed 0 (lineParts text)).all (fun line => (line.core text).isEmpty) = true ↔
    ∀ p ∈ lineParts text, p.core = [] := by
  have hall : (placed 0 (lineParts text)).all (fun line => (line.core text).isEmpty) =
      ((placed 0 (lineParts text)).map (fun line => line.core text)).all List.isEmpty := by
    rw [all_map]
    rfl
  rw [hall, map_core_lines, all_map, List.all_eq_true]
  simp

def SpansCores (content old : Bytes) (i : Nat) (plan : Plan) : Prop :=
  (placed 0 (lineParts content))[i]?.map NormalizedLine.coreStart = some plan.start ∧
    (placed 0 (lineParts content))[i + (lineParts old).length - 1]?.map NormalizedLine.coreEnd = some plan.stop

/-- The content with the cores of the new lines in the place of those from line `i` on. -/
def withCores (content new : Bytes) (i : Nat) : Bytes :=
  joined ((lineParts content).take i ++ (List.zipWith Parts.withCore
    (((lineParts content).drop i).take (lineParts new).length) ((lineParts new).map Parts.core) ++
      (lineParts content).drop (i + (lineParts new).length)))

theorem coreEnd_getLast {last : Parts} (start : Nat) (h : ms.getLast? = some last) :
    (placed start ms).getLast?.map NormalizedLine.coreEnd =
      some (start + ((joined ms).length - (last.trail ++ last.eol).length)) := by
  obtain ⟨_, rfl⟩ := List.getLast?_eq_some_iff.1 h
  rw [placed_append, placed, placed, List.getLast?_concat, Option.map_some]
  simp only [Parts.place, joined_append, joined_cons, joined_nil, Parts.text, length_append, List.append_nil]
  congr 1
  omega

def planOf (matched : List NormalizedLine) (replacement : Bytes) : Plan where
  start := (matched.head?.map NormalizedLine.coreStart).getD 0
  stop := (matched.getLast?.map NormalizedLine.coreEnd).getD 0
  replacement := replacement

theorem spansCores_planOf (hold : lineParts old ≠ []) (hi : MatchesAt content old i) (replacement : Bytes) : SpansCores content old i
    (planOf (((placed 0 (lineParts content)).drop i).take (lineParts old).length) replacement) := by
  have hpos := length_pos_of_ne_nil hold
  have hle := hi.1
  have hhead : (((placed 0 (lineParts content)).drop i).take (lineParts old).length).head? =
      (placed 0 (lineParts content))[i]? := by
    rw [List.head?_take, if_neg (by omega), List.head?_drop]
  have hgetLast : (((placed 0 (lineParts content)).drop i).take (lineParts old).length).getLast? =
      (placed 0 (lineParts content))[i + (lineParts old).length - 1]? := by
    rw [List.getLast?_eq_getElem?, length_take, length_drop, length_placed,
      List.getElem?_take_of_lt (by omega), List.getElem?_drop]
    congr 1
    omega
  rw [SpansCores, planOf, hhead, hgetLast, List.getElem?_eq_getElem (by rw [length_placed]; omega),
    List.getElem?_eq_getElem (by rw [length_placed]; omega)]
  exact ⟨rfl, rfl⟩

/-- The texts have at most so many lines, and at most so many rows of lines have the hashes of the anchor. -/
structure WithinLimits (limits : Limits) (content old new : Bytes) : Prop where
  content_lines : (lineParts content).length ≤ limits.maxNormalizedLines
  old_lines : (lineParts old).length ≤ limits.maxNormalizedLines
  new_lines : (lineParts new).length ≤ limits.maxNormalizedLines
  checks : candidates content old ≤ limits.maxNormalizedCandidateChecks

instance {limits : Limits} {content old new : Bytes} : Decidable (WithinLimits limits content old new) :=
  decidable_of_iff (_ ∧ _ ∧ _ ∧ _) ⟨fun h => ⟨h.1, h.2.1, h.2.2.1, h.2.2.2⟩, fun h => ⟨h.1, h.2, h.3, h.4⟩⟩

structure PlannedAt (limits : Limits) (content old new : Bytes) (plan : Plan) (i : Nat) : Prop where
  matches_at : MatchesAt content old i
  unique : ∀ j, MatchesAt content old j → j = i
  spans : SpansCores content old i plan
  replacement : normalizedReplacement limits content
    (((placed 0 (lineParts content)).drop i).take (lineParts old).length) new = .ok plan.replacement

theorem planNormalizedEdit_cases (limits : Limits) (content old new : Bytes) :
    ((∃ err, planNormalizedEdit limits content old new = .error err) ∧
        (WithinLimits limits content old new → (∃ p ∈ lineParts old, p.core ≠ []) → ¬ ∃! i, MatchesAt content old i)) ∨
      (∃ p ∈ lineParts old, p.core ≠ []) ∧ ∃ plan i, planNormalizedEdit limits content old new = .ok plan ∧
        PlannedAt limits content old new plan i := by
  have hhashes : (placed 0 (lineParts old)).map NormalizedLine.hash = lineHashes old := map_hash_placed ..
  by_cases hc : (lineParts content).length ≤ limits.maxNormalizedLines
  case neg =>
    refine .inl ⟨⟨.normalizationLimit "line count exceeds 262144", ?_⟩, fun h => absurd h.content_lines hc⟩
    rw [planNormalizedEdit, normalizedLines, if_pos (Nat.lt_of_not_le hc)]
    rfl
  by_cases ho : (lineParts old).length ≤ limits.maxNormalizedLines
  case neg =>
    refine .inl ⟨⟨.normalizationLimit "line count exceeds 262144", ?_⟩, fun h => absurd h.old_lines ho⟩
    rw [planNormalizedEdit, normalizedLines_ok hc, normalizedLines, if_pos (Nat.lt_of_not_le ho)]
    rfl
  rw [planNormalizedEdit, normalizedLines_ok hc, normalizedLines_ok ho]
  simp only [bind, Except.bind, pure, Except.pure, throw, throwThe, MonadExceptOf.throw, length_placed, hhashes]
  by_cases hblank : (placed 0 (lineParts old)).all (fun line => (line.core old).isEmpty) = true
  · rw [if_pos hblank]
    refine .inl ⟨⟨_, rfl⟩, fun _ hcore => ?_⟩
    obtain ⟨p, hp, hne⟩ := hcore
    cases hne ((all_blank_iff old).1 hblank p hp)
  have hcore : ∃ p ∈ lineParts old, p.core ≠ [] := by
    rw [all_blank_iff] at hblank
    simpa using hblank
  have hold : lineParts old ≠ [] := by
    obtain ⟨p, hp, -⟩ := hcore
    exact ne_nil_of_mem hp
  rw [if_neg hblank]
  by_cases hshort : (lineParts content).length < (lineParts old).length
  · rw [if_pos hshort]
    refine .inl ⟨⟨_, rfl⟩, fun _ _ => ?_⟩
    rintro ⟨i, hi, -⟩
    have := hi.1
    omega
  rw [if_neg hshort]
  obtain ⟨found, hscan, hfound⟩ | ⟨⟨err, hscan⟩, htwo⟩ := settled_scan content old limits hold
  case inr =>
    rw [hscan]
    exact .inl ⟨⟨_, rfl⟩, fun h _ => (htwo h.checks).not_existsUnique⟩
  rw [hscan]
  cases found with
  | none =>
    refine .inl ⟨⟨_, rfl⟩, fun _ _ => ?_⟩
    rintro ⟨i, hi, -⟩
    exact hfound.not_matchesAt hold hi
  | some i =>
    obtain ⟨hi, hunique⟩ := hfound.existsUnique hold
    cases hreplacement : normalizedReplacement limits content
        (((placed 0 (lineParts content)).drop i).take (lineParts old).length) new with
    | error err =>
      refine .inl ⟨⟨err, ?_⟩, fun h _ => ?_⟩
      · simp only [hreplacement]
      · obtain ⟨replacement, hok⟩ := normalizedReplacement_ok content h.new_lines
          (((placed 0 (lineParts content)).drop i).take (lineParts old).length)
        rw [hok] at hreplacement
        cases hreplacement
    | ok replacement =>
      refine .inr ⟨hcore, planOf (((placed 0 (lineParts content)).drop i).take (lineParts old).length) replacement, i, ?_,
        hi, hunique, spansCores_planOf hold hi replacement, hreplacement⟩
      simp only [hreplacement]
      rfl

/-- The lines of the content around those of a place, and what is planned for these. -/
structure Around (limits : Limits) (content old new : Bytes) (plan : Plan) (pre ms post : List Parts) (first last : Parts) :
    Prop where
  lines : lineParts content = pre ++ (ms ++ post)
  cores : ms.map Parts.core = (lineParts old).map Parts.core
  head : ms.head? = some first
  getLast : ms.getLast? = some last
  start : plan.start = (joined pre).length + first.lead.length
  stop : plan.stop = (joined pre).length + ((joined ms).length - (last.trail ++ last.eol).length)
  replacement : normalizedReplacement limits content (placed (joined pre).length ms) new = .ok plan.replacement

theorem PlannedAt.around (h : PlannedAt limits content old new plan i) (hold : lineParts old ≠ []) :
    ∃ first last, Around limits content old new plan ((lineParts content).take i)
      (((lineParts content).drop i).take (lineParts old).length) ((lineParts content).drop (i + (lineParts old).length))
      first last := by
  obtain ⟨hle, hcores, -⟩ := h.matches_at
  have hpos := length_pos_of_ne_nil hold
  have hlen : (((lineParts content).drop i).take (lineParts old).length).length = (lineParts old).length := by
    rw [length_take, length_drop]
    omega
  have hne : ((lineParts content).drop i).take (lineParts old).length ≠ [] := List.ne_nil_of_length_pos (by omega)
  have hsplit : lineParts content = (lineParts content).take i ++ (((lineParts content).drop i).take (lineParts old).length ++
      (lineParts content).drop (i + (lineParts old).length)) := by
    rw [← drop_drop, take_append_drop, take_append_drop]
  have hi : (placed 0 ((lineParts content).take i)).length = i := by
    rw [length_placed, length_take]
    omega
  obtain ⟨last, hlast⟩ := Option.ne_none_iff_exists'.1 (mt List.getLast?_eq_none_iff.1 hne)
  obtain ⟨first, _, hfirst⟩ := List.exists_cons_of_ne_nil hne
  obtain ⟨hstart, hstop⟩ := h.spans
  have hreplacement := h.replacement
  rw [placed_window hle] at hreplacement
  refine ⟨first, last, hsplit, hcores, by rw [hfirst]; rfl, hlast, ?_, ?_, hreplacement⟩
  · rw [hsplit, placed_append, List.getElem?_append_right (by omega), hi, Nat.sub_self, hfirst] at hstart
    simpa [placed, Parts.place] using hstart.symm
  · have hend := coreEnd_getLast (joined ((lineParts content).take i)).length hlast
    rw [List.getLast?_eq_getElem?, length_placed, hlen] at hend
    rw [hsplit, placed_append, placed_append, List.getElem?_append_right (by omega), hi,
      List.getElem?_append_left (by rw [length_placed, hlen]; omega), Nat.zero_add,
      show i + (lineParts old).length - 1 - i = (lineParts old).length - 1 by omega, hend] at hstop
    exact (Option.some.inj hstop).symm

section
variable {plan : Plan} {pre ms post : List Parts} {first last : Parts}

section

variable (h : Around limits content old new plan pre ms post first last)
include h

theorem Around.content_eq : content = joined pre ++ (joined ms ++ joined post) := by
  rw [← joined_append, ← joined_append, ← h.lines, joined_lineParts]

theorem Around.lead_eq : (ms.head?.map Parts.lead).getD [] = first.lead := by
  rw [h.head]
  rfl

theorem Around.apply_eq : plan.apply content =
      joined pre ++ (first.lead ++ (plan.replacement ++ ((last.trail ++ last.eol) ++ joined post))) := by
  have hlead := h.lead_eq
  have hspan := apply_span h.getLast h.content_eq (by rw [hlead, h.start]) h.stop
  rwa [hlead] at hspan

end

end

theorem PlannedAt.apply_eq (h : PlannedAt limits content old new plan i) (hold : lineParts old ≠ [])
    (hlen : (lineParts new).length = (lineParts old).length) : plan.apply content = withCores content new i := by
  obtain ⟨_, _, hr⟩ := h.around hold
  have hms : (((lineParts content).drop i).take (lineParts old).length).length = (lineParts old).length := by
    simpa using congrArg List.length hr.cores
  have hreplacement : plan.replacement = replaceCores content new (placed (joined ((lineParts content).take i)).length
      (((lineParts content).drop i).take (lineParts old).length)) (placed 0 (lineParts new)) := by
    refine normalizedReplacement_same hr.replacement ?_ ?_
    · rw [length_placed, hms, hlen]
    · rw [Ne, ← length_eq_zero_iff, hlen, length_eq_zero_iff]
      exact hold
  have hsame : (placed 0 (lineParts new)).length =
      (((lineParts content).drop i).take (lineParts old).length).length := by
    rw [length_placed, hlen, hms]
  have hcores := replaceCores_joined new hsame hr.getLast hr.content_eq
  rw [hr.lead_eq, map_core_lines] at hcores
  rw [hr.apply_eq, hreplacement, withCores, joined_append, joined_append, hlen, ← hcores]
  simp

theorem exists_around (h : planNormalizedEdit limits content old new = .ok plan) :
    (∃ p ∈ lineParts old, p.core ≠ []) ∧ ∃ i pre ms post first last,
      Around limits content old new plan pre ms post first last ∧ pre.length = i ∧ MatchesAt content old i ∧
        ∀ j, MatchesAt content old j → j = i := by
  obtain ⟨⟨_, herr⟩, -⟩ | ⟨hcore, _, i, hplan, hi⟩ := planNormalizedEdit_cases limits content old new
  · rw [herr] at h
    cases h
  · rw [hplan] at h
    cases h
    obtain ⟨p, hp, -⟩ := id hcore
    obtain ⟨first, last, haround⟩ := hi.around (ne_nil_of_mem hp)
    have hle := hi.matches_at.1
    refine ⟨hcore, i, _, _, _, first, last, haround, ?_, hi.matches_at, hi.unique⟩
    rw [length_take]
    omega

theorem length_joined_ge {p : Parts} : ∀ {ms : List Parts} {first last : Parts}, ms.head? = some first →
    ms.getLast? = some last → p ∈ ms → first.lead.length + p.core.length + (last.trail ++ last.eol).length ≤ (joined ms).length
  | [m], first, last, hfirst, hlast, hp => by
    obtain rfl : m = first := by simpa using hfirst
    obtain rfl : m = last := by simpa using hlast
    obtain rfl := List.mem_singleton.1 hp
    simp only [joined_cons, joined_nil, Parts.text, length_append, length_nil]
    omega
  | m :: m' :: ms, first, last, hfirst, hlast, hp => by
    obtain rfl : m = first := by simpa using hfirst
    rw [List.getLast?_cons_cons] at hlast
    rw [joined_cons, length_append, Parts.text]
    simp only [length_append] at *
    rw [List.mem_cons] at hp
    obtain rfl | hp := hp
    · have := length_joined_ge (p := m') rfl hlast (.head _)
      simp only [length_append] at this
      omega
    · have := length_joined_ge rfl hlast hp
      simp only [length_append] at this
      omega

theorem planNormalizedEdit_span (h : planNormalizedEdit limits content old new = .ok plan) :
    plan.start < plan.stop ∧ plan.stop ≤ content.length := by
  obtain ⟨⟨q, hq, hne⟩, i, _, ms, _, _, _, haround, -⟩ := exists_around h
  have hcore : q.core ∈ ms.map Parts.core := by
    rw [haround.cores]
    exact List.mem_map_of_mem hq
  obtain ⟨p, hp, hpq⟩ := List.mem_map.1 hcore
  have hlen := length_joined_ge haround.head haround.getLast hp
  have hpos : 0 < p.core.length := by
    rw [hpq]
    exact length_pos_of_ne_nil hne
  have hcontent := congrArg List.length haround.content_eq
  rw [length_append, length_append] at hcontent
  rw [haround.start, haround.stop]
  omega

section
variable (hlimits : WithinLimits limits content old new) (hcore : ∃ p ∈ lineParts old, p.core ≠ [])
include hlimits hcore

/-- **Matching up to blanks** accepts an anchor that is not all blank exactly when it has one place; the span runs from
the first core of the place to its last, and as many new lines as old ones change nothing outside the cores. -/
theorem planNormalizedEdit_iff :
    ((∃ plan, planNormalizedEdit limits content old new = .ok plan) ↔ ∃! i, MatchesAt content old i) ∧
      ∀ plan, planNormalizedEdit limits content old new = .ok plan → ∃ i, MatchesAt content old i ∧
        SpansCores content old i plan ∧
        ((lineParts new).length = (lineParts old).length → plan.apply content = withCores content new i) := by
  obtain ⟨⟨_, herr⟩, hnone⟩ | ⟨-, plan, i, hplan, hi⟩ := planNormalizedEdit_cases limits content old new
  · rw [herr]
    refine ⟨⟨?_, fun h => absurd h (hnone hlimits hcore)⟩, ?_⟩
    · rintro ⟨plan, hplan⟩
      cases hplan
    · intro plan hplan
      cases hplan
  · rw [hplan]
    refine ⟨⟨fun _ => ⟨i, hi.matches_at, hi.unique⟩, fun _ => ⟨plan, rfl⟩⟩, fun plan' hplan' => ?_⟩
    cases hplan'
    refine ⟨i, hi.matches_at, hi.spans, hi.apply_eq ?_⟩
    obtain ⟨p, hp, -⟩ := hcore
    exact ne_nil_of_mem hp

end

theorem edits_evaluated : ((∃ p ∈ lineParts [98, 32, 99, 10], p.core ≠ []) ∧
      WithinLimits {} [97, 10, 9, 98, 32, 99, 32, 10] [98, 32, 99, 10] [120]) ∧
    lineParts [97, 10, 10, 98] = [⟨[], [97], [], [10]⟩, ⟨[], [], [], [10]⟩, ⟨[], [98], [], []⟩] ∧
    lineParts [32] = [⟨[32], [], [], []⟩] ∧ WithinLimits {} [97, 10, 10, 98] [32] [120] := by
  decide +kernel

/-- The second line `b c` between a tab and a blank. -/
theorem planNormalizedEdit_iff_second_line : (∃ p ∈ lineParts [98, 32, 99, 10], p.core ≠ []) ∧
      ((∃ plan, planNormalizedEdit {} [97, 10, 9, 98, 32, 99, 32, 10] [98, 32, 99, 10] [120] = .ok plan) ↔
        ∃! i, MatchesAt [97, 10, 9, 98, 32, 99, 32, 10] [98, 32, 99, 10] i) := by
  obtain ⟨⟨hcore, hlimits⟩, -⟩ := edits_evaluated
  exact ⟨hcore, (planNormalizedEdit_iff hlimits hcore).1⟩

/-- A blank anchor is refused where a single empty line matches it. -/
theorem planNormalizedEdit_refuses_blank :
    WithinLimits {} [97, 10, 10, 98] [32] [120] ∧ ¬ [32] <:+: [97, 10, 10, 98] ∧ (∃! i, MatchesAt [97, 10, 10, 98] [32] i) ∧
      ¬ ∃ plan, planNormalizedEdit {} [97, 10, 10, 98] [32] [120] = .ok plan := by
  obtain ⟨-, hcontent, hold, hlimits⟩ := edits_evaluated
  refine ⟨hlimits, by decide, ?_, ?_⟩
  · refine ⟨1, ?_, fun i hi => ?_⟩
    · simp [MatchesAt, hcontent, hold, Parts.hasEol]
    · simp only [MatchesAt, hcontent, hold, List.length_cons, length_nil] at hi
      obtain ⟨_, hcores, -⟩ := hi
      have hi : i = 0 ∨ i = 1 ∨ i = 2 := by omega
      obtain rfl | rfl | rfl := hi
      · simp at hcores
      · rfl
      · simp at hcores
  · rintro ⟨plan, hplan⟩
    have hrefused : planNormalizedEdit {} [97, 10, 10, 98] [32] [120] = .error (.anchorNotFound none) := by
      rw [planNormalizedEdit, normalizedLines_ok hlimits.content_lines, normalizedLines_ok hlimits.old_lines]
      simp only [bind, Except.bind, pure, Except.pure, throw, throwThe, MonadExceptOf.throw]
      rw [if_pos ((all_blank_iff _).2 (by simp [hold]))]
    rw [hrefused] at hplan
    cases hplan

end Iteron.Edit
