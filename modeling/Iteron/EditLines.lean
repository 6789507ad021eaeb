import Iteron.Edit
/-!
# EditLines — a text and its lines

A text is its lines, one behind the other, and the offsets of a line cut its parts out of the text.
-/
namespace Iteron.Edit
open Patch (Bytes UniqueEditError)
open List (append_assoc append_nil cons_append cons_ne_nil length_append length_cons map_cons mem_cons nil_append)

variable {text pre post : Bytes} {ps : List Parts} {p : Parts} {start i : Nat}

def joined (ps : List Parts) : Bytes := ps.flatMap Parts.text

@[simp] theorem joined_nil : joined [] = [] := rfl

@[simp] theorem joined_cons (p : Parts) (ps : List Parts) : joined (p :: ps) = p.text ++ joined ps := rfl

@[simp] theorem joined_append (ps qs : List Parts) : joined (ps ++ qs) = joined ps ++ joined qs := List.flatMap_append

def Parts.hasEol (p : Parts) : Bool := !p.eol.isEmpty

theorem firstLine_cases (text : Bytes) : (lf ∉ text ∧ firstLine text = partsOf text [] ∧ afterLine text = []) ∨
      ∃ body eol rest, text = body ++ (eol ++ rest) ∧ lf ∉ body ∧ firstLine text = partsOf body eol ∧ afterLine text = rest ∧
        (eol = [cr, lf] ∨ (eol = [lf] ∧ body.getLast? ≠ some cr)) := by
  have hsplit := List.takeWhile_append_dropWhile (p := (· != lf)) (l := text)
  have hbody : lf ∉ text.takeWhile (· != lf) := fun hm => by simpa using List.mem_takeWhile_imp hm
  rw [firstLine, afterLine]
  cases hd : text.dropWhile (· != lf) with
  | nil =>
    rw [hd, append_nil] at hsplit
    rw [hsplit] at hbody
    refine .inl ⟨hbody, ?_, rfl⟩
    simp only [hsplit, Nat.lt_irrefl, if_false]
  | cons b rest =>
    have hb : b = lf := by
      have := List.head_dropWhile_not (· != lf) (l := text) (by rw [hd]; exact cons_ne_nil b rest)
      simp only [hd, List.head_cons] at this
      simpa using this
    rw [hd, hb] at hsplit
    have hlt : (text.takeWhile (· != lf)).length < text.length := by
      have := congrArg List.length hsplit
      rw [length_append, length_cons] at this
      omega
    simp only [hlt, if_true]
    refine .inr ?_
    by_cases hcr : (text.takeWhile (· != lf)).getLast? = some cr
    · obtain ⟨init, hinit⟩ := List.getLast?_eq_some_iff.1 hcr
      refine ⟨init, [cr, lf], rest, ?_, ?_, ?_, rfl, .inl rfl⟩
      · rw [← hsplit, hinit]
        simp
      · intro hm
        exact hbody (by rw [hinit]; exact List.mem_append_left _ hm)
      · rw [if_pos hcr, hinit, List.dropLast_concat]
    · exact ⟨_, [lf], rest, hsplit.symm, hbody, if_neg hcr, rfl, .inr ⟨rfl, hcr⟩⟩

theorem firstLine_text (text : Bytes) : (firstLine text).text ++ afterLine text = text := by
  obtain ⟨-, hfirst, hafter⟩ | ⟨_, _, _, htext, -, hfirst, hafter, -⟩ := firstLine_cases text
  · rw [hfirst, hafter, partsOf_text, append_nil, append_nil]
  · rw [hfirst, hafter, partsOf_text, append_assoc, ← htext]

theorem lineParts_nil : lineParts [] = [] := by rw [lineParts]; rfl

theorem lineParts_cons (h : text ≠ []) : lineParts text = firstLine text :: lineParts (afterLine text) := by
  rw [lineParts, dif_neg h]

theorem lines_induction {P : Bytes → Prop} (nil : P []) (cons : ∀ text, text ≠ [] → P (afterLine text) → P text) :
    ∀ text, P text := by
  intro text
  induction hn : text.length using Nat.strong_induction_on generalizing text with
  | h n ih =>
    by_cases h : text = []
    · rw [h]
      exact nil
    · exact cons text h (ih _ (by rw [← hn]; exact length_afterLine_lt h) _ rfl)

/-- **A text is its lines.** -/
theorem joined_lineParts (text : Bytes) : joined (lineParts text) = text := by
  refine lines_induction (P := fun text => joined (lineParts text) = text) ?_ ?_ text
  · rw [lineParts_nil]
    rfl
  · intro text h ih
    rw [lineParts_cons h, joined_cons, ih, firstLine_text]

theorem slice_append (a b c : Bytes) : slice (a ++ (b ++ c)) a.length (a.length + b.length) = b := by
  rw [slice, List.drop_left, Nat.add_sub_cancel_left, List.take_left]

theorem slice_eq {a b c : Bytes} {n m : Nat} (htext : text = a ++ (b ++ c)) (hn : n = a.length) (hm : m = a.length + b.length) :
    slice text n m = b := by
  rw [htext, hn, hm, slice_append]

/-! ## Offsets -/

@[simp] theorem length_placed : ∀ (start : Nat) (ps : List Parts), (placed start ps).length = ps.length
  | _, [] => rfl
  | start, p :: ps => by rw [placed, length_cons, length_placed, length_cons]

theorem placed_append : ∀ (start : Nat) (ps qs : List Parts),
    placed start (ps ++ qs) = placed start ps ++ placed (start + (joined ps).length) qs
  | _, [], _ => rfl
  | start, p :: ps, qs => by
    rw [cons_append, placed, placed, placed_append, cons_append, joined_cons, length_append, Nat.add_assoc]

@[simp] theorem map_hash_placed : ∀ (start : Nat) (ps : List Parts),
    (placed start ps).map NormalizedLine.hash = ps.map (fun p => stableLineHash p.core)
  | _, [] => rfl
  | start, p :: ps => by
    rw [placed, map_cons, map_hash_placed, map_cons]
    rfl

theorem Parts.hasEol_place (p : Parts) (start : Nat) : (p.place start).hasEol = p.hasEol := by
  cases h : p.eol with
  | nil => simp [NormalizedLine.hasEol, Parts.hasEol, Parts.place, h]
  | cons b _ => simp [NormalizedLine.hasEol, Parts.hasEol, Parts.place, h]

theorem map_hasEol_placed : ∀ (start : Nat) (ps : List Parts), (placed start ps).map NormalizedLine.hasEol = ps.map Parts.hasEol
  | _, [] => rfl
  | start, p :: ps => by rw [placed, map_cons, map_hasEol_placed, map_cons, Parts.hasEol_place]

theorem Parts.core_place (h : text = pre ++ (p.text ++ post)) (hstart : start = pre.length) :
    (p.place start).core text = p.core := by
  refine slice_eq (a := pre ++ p.lead) (c := p.trail ++ (p.eol ++ post)) ?_ ?_ ?_
  · rw [h, Parts.text]
    simp
  · simp [Parts.place, hstart]
  · simp [Parts.place, hstart]

theorem map_core_placed : ∀ {ps : List Parts} {pre : Bytes} {start : Nat}, text = pre ++ (joined ps ++ post) → start = pre.length →
    (placed start ps).map (fun line => line.core text) = ps.map Parts.core
  | [], _, _, _, _ => rfl
  | p :: ps, pre, start, h, hstart => by
    rw [joined_cons, append_assoc] at h
    rw [placed, map_cons, map_cons, Parts.core_place h hstart]
    have hnext : text = (pre ++ p.text) ++ (joined ps ++ post) := by rw [h, append_assoc]
    rw [map_core_placed hnext (by rw [length_append, hstart])]

theorem map_core_lines (text : Bytes) :
    (placed 0 (lineParts text)).map (fun line => line.core text) = (lineParts text).map Parts.core := by
  have htext : text = [] ++ (joined (lineParts text) ++ []) := by
    rw [joined_lineParts, nil_append, append_nil]
  exact map_core_placed htext rfl

/-! ## The parts of a line -/

def Parts.body (p : Parts) : Bytes := p.lead ++ (p.core ++ p.trail)

theorem Parts.text_eq (p : Parts) : p.text = p.body ++ p.eol := by simp [Parts.text, Parts.body]

theorem partsOf_body (content eol : Bytes) : (partsOf content eol).body = content := by
  have h := partsOf_text content eol
  rw [Parts.text_eq] at h
  exact List.append_cancel_right h

theorem partsOf_trail {content eol : Bytes} (h : (partsOf content eol).trail ≠ []) : (partsOf content eol).core ≠ [] := by
  intro hcore
  have hall : ∀ b ∈ content.dropWhile isBlank, isBlank b = true := List.rdropWhile_eq_nil_iff.1 hcore
  have hnil : content.dropWhile isBlank = [] := by
    cases hd : content.dropWhile isBlank with
    | nil => rfl
    | cons b rest =>
      have hb := List.head_dropWhile_not isBlank (l := content) (by rw [hd]; exact cons_ne_nil b rest)
      simp only [hd, List.head_cons] at hb
      rw [hall b (by rw [hd]; exact .head _)] at hb
      cases hb
  refine h ?_
  rw [partsOf, hnil]
  rfl

theorem partsOf_blank (content eol : Bytes) :
    (∀ b ∈ (partsOf content eol).lead, isBlank b = true) ∧ ∀ b ∈ (partsOf content eol).trail, isBlank b = true :=
  ⟨fun _ hb => List.mem_takeWhile_imp hb, fun _ hb => List.mem_rtakeWhile_imp hb⟩

structure Parts.Ok (p : Parts) : Prop where
  body : lf ∉ p.body
  eol : p.eol = [] ∨ p.eol = [lf] ∨ p.eol = [cr, lf]
  lead : ∀ b ∈ p.lead, isBlank b = true
  trail : ∀ b ∈ p.trail, isBlank b = true
  core : p.trail ≠ [] → p.core ≠ []

theorem partsOf_ok {body eol : Bytes} (hbody : lf ∉ body) (heol : eol = [] ∨ eol = [lf] ∨ eol = [cr, lf]) :
    (partsOf body eol).Ok where
  body := by rwa [partsOf_body]
  eol := heol
  lead := (partsOf_blank body eol).1
  trail := (partsOf_blank body eol).2
  core := partsOf_trail

theorem lineParts_ok (text : Bytes) : ∀ p ∈ lineParts text, p.Ok := by
  refine lines_induction (P := fun text => ∀ p ∈ lineParts text, p.Ok) ?_ ?_ text
  · intro p hp
    rw [lineParts_nil] at hp
    cases hp
  · intro text h ih p hp
    rw [lineParts_cons h, mem_cons] at hp
    obtain rfl | hp := hp
    · obtain ⟨hlf, hfirst, -⟩ | ⟨_, _, _, -, hbody, hfirst, -, heol⟩ := firstLine_cases text
      · rw [hfirst]
        exact partsOf_ok hlf (.inl rfl)
      · rw [hfirst]
        refine partsOf_ok hbody ?_
        obtain rfl | ⟨rfl, -⟩ := heol
        · exact .inr (.inr rfl)
        · exact .inr (.inl rfl)
    · exact ih p hp

theorem lineParts_text_ne_nil (text : Bytes) : ∀ p ∈ lineParts text, p.text ≠ [] := by
  refine lines_induction (P := fun text => ∀ p ∈ lineParts text, p.text ≠ []) ?_ ?_ text
  · intro p hp
    rw [lineParts_nil] at hp
    cases hp
  · intro text h ih p hp
    rw [lineParts_cons h, mem_cons] at hp
    obtain rfl | hp := hp
    · intro hnil
      have hsplit := congrArg List.length (firstLine_text text)
      rw [hnil, nil_append] at hsplit
      have := length_afterLine_lt h
      omega
    · exact ih p hp

theorem eol_ne_nil_of_append {pre : List Parts} : ∀ {text : Bytes}, lineParts text = pre ++ (p :: ps) → ps ≠ [] →
    p.eol ≠ [] := by
  induction pre with
  | nil =>
    intro text h hne
    have htext : text ≠ [] := by
      rintro rfl
      rw [lineParts_nil] at h
      cases h
    rw [lineParts_cons htext, nil_append, List.cons.injEq] at h
    obtain ⟨-, -, hafter⟩ | ⟨_, _, _, -, -, hfirst, -, heol⟩ := firstLine_cases text
    · rw [hafter, lineParts_nil] at h
      cases hne h.2.symm
    · rw [← h.1, hfirst]
      obtain rfl | ⟨rfl, -⟩ := heol
      · exact cons_ne_nil _ _
      · exact cons_ne_nil _ _
  | cons q pre ih =>
    intro text h hne
    have htext : text ≠ [] := by
      rintro rfl
      rw [lineParts_nil] at h
      cases h
    rw [lineParts_cons htext, cons_append, List.cons.injEq] at h
    exact ih h.2 hne

end Iteron.Edit
