import Iteron.EditFile
/-!
# EditStyle — line endings of a file and of an edit

The lines of a text whose line feeds all follow carriage returns end in both, and the new text of an edit is brought into
that form line by line.
-/
namespace Iteron.Edit
open Patch (Bytes UniqueEditError)
open Utf8
open List (append_assoc cons_append mem_cons nil_append not_mem_nil)

variable {limits : Limits} {a b t text content file written : Bytes} {old new : String} {ps : List Parts} {p : Parts}

/-! ## Line feeds behind carriage returns -/

def CrLfOnly (text : Bytes) : Prop := ∀ a b, text = a ++ lf :: b → a.getLast? = some cr

def NoLoneCr (text : Bytes) : Prop := ∀ a b, text = a ++ cr :: b → b.head? = some lf

/-- The offset is between a carriage return and its line feed. -/
def CutsPair (text : Bytes) (s : Nat) : Prop := (text.take s).getLast? = some cr ∧ (text.drop s).head? = some lf

theorem crLfOnly_of_not_mem (h : lf ∉ text) : CrLfOnly text := by
  intro a b hab
  refine absurd ?_ h
  rw [hab]
  exact List.mem_append_right _ (.head _)

theorem crLfOnly_pair : CrLfOnly [cr, lf] := by
  intro a b hab
  rcases a with _ | ⟨x, _ | ⟨y, a⟩⟩
  · simp [cr, lf] at hab
  · simp only [cons_append, nil_append, List.cons.injEq] at hab
    rw [← hab.1]
    rfl
  · simp at hab

theorem CrLfOnly.append (ha : CrLfOnly a) (hb : CrLfOnly b) : CrLfOnly (a ++ b) := by
  intro x y hxy
  rcases List.append_eq_append_iff.1 hxy with ⟨z, rfl, hz⟩ | ⟨z, rfl, hz⟩
  · have hlast := hb z y hz
    rw [List.getLast?_append, hlast]
    rfl
  · cases z with
    | nil =>
      have := hb [] y hz.symm
      cases this
    | cons c z =>
      rw [cons_append, List.cons.injEq] at hz
      refine ha x z ?_
      rw [hz.1]

theorem CrLfOnly.of_append_left (h : CrLfOnly (a ++ b)) : CrLfOnly a := by
  intro x y hxy
  refine h x (y ++ b) ?_
  rw [hxy, append_assoc, cons_append]

theorem CrLfOnly.of_append_right (h : CrLfOnly (a ++ b)) (hb : b.head? ≠ some lf) : CrLfOnly b := by
  intro x y hxy
  have := h (a ++ x) y (by rw [hxy, append_assoc])
  rw [List.getLast?_append] at this
  cases hx : x.getLast? with
  | none =>
    rw [List.getLast?_eq_none_iff] at hx
    rw [hxy, hx] at hb
    cases hb rfl
  | some c => rwa [hx] at this

theorem CrLfOnly.behind (h : CrLfOnly (a ++ lf :: b)) : CrLfOnly b := by
  refine CrLfOnly.of_append_right (a := a ++ [lf]) (by simpa using h) ?_
  intro hb
  cases b with
  | nil => cases hb
  | cons c b =>
    rw [List.head?_cons, Option.some.injEq] at hb
    have := h (a ++ [lf]) b (by simp [hb])
    rw [List.getLast?_concat] at this
    cases this

theorem CrLfOnly.joined (h : ∀ p ∈ ps, lf ∉ p.body ∧ (p.eol = [] ∨ p.eol = [cr, lf])) : CrLfOnly (joined ps) := by
  induction ps with
  | nil => exact crLfOnly_of_not_mem (not_mem_nil)
  | cons p ps ih =>
    obtain ⟨hbody, heol⟩ := h p (.head _)
    rw [joined_cons, Parts.text_eq]
    refine CrLfOnly.append (CrLfOnly.append (crLfOnly_of_not_mem hbody) ?_) (ih (fun q hq => h q (List.mem_cons_of_mem p hq)))
    obtain heol | heol := heol
    · rw [heol]
      exact crLfOnly_of_not_mem (not_mem_nil)
    · rw [heol]
      exact crLfOnly_pair

theorem CrLfOnly.lineParts (h : CrLfOnly text) : ∀ p ∈ lineParts text, p.eol = [] ∨ p.eol = [cr, lf] := by
  refine lines_induction (P := fun text => CrLfOnly text → ∀ p ∈ Edit.lineParts text, p.eol = [] ∨ p.eol = [cr, lf]) ?_ ?_ text h
  · intro _ p hp
    rw [lineParts_nil] at hp
    cases hp
  · intro text hne ih h p hp
    rw [lineParts_cons hne, mem_cons] at hp
    obtain ⟨-, hfirst, hafter⟩ | ⟨body, eol, rest, htext, -, hfirst, hafter, heol⟩ := firstLine_cases text
    · rw [hafter, lineParts_nil] at hp
      obtain rfl | hp := hp
      · rw [hfirst]
        exact .inl rfl
      · cases hp
    · have hcr : eol = [cr, lf] := by
        obtain rfl | ⟨rfl, hbare⟩ := heol
        · rfl
        · cases hbare (h body rest htext)
      obtain rfl | hp := hp
      · rw [hfirst, hcr]
        exact .inr rfl
      · refine ih ?_ p hp
        rw [hafter]
        refine CrLfOnly.behind (a := body ++ [cr]) ?_
        rwa [htext, hcr, ← List.singleton_append, append_assoc, ← append_assoc] at h

theorem NoLoneCr.append (ha : NoLoneCr a) (hb : NoLoneCr b) : NoLoneCr (a ++ b) := by
  intro x y hxy
  rcases List.append_eq_append_iff.1 hxy with ⟨z, rfl, hz⟩ | ⟨z, rfl, hz⟩
  · exact hb z y hz
  · cases z with
    | nil =>
      exact hb [] y hz.symm
    | cons c z =>
      rw [cons_append, List.cons.injEq] at hz
      have := ha x z (by rw [hz.1])
      rw [hz.2, List.head?_append, this]
      rfl

theorem NoLoneCr.of_append_right (h : NoLoneCr (a ++ b)) : NoLoneCr b := by
  intro x y hxy
  refine h (a ++ x) y ?_
  rw [hxy, append_assoc]

theorem noLoneCr_of_not_mem (h : cr ∉ text) : NoLoneCr text := by
  intro a b hab
  refine absurd ?_ h
  rw [hab]
  exact List.mem_append_right _ (.head _)

theorem noLoneCr_pair : NoLoneCr [cr, lf] := by
  intro a b hab
  rcases a with _ | ⟨x, _ | ⟨y, a⟩⟩
  · rw [nil_append, List.cons.injEq] at hab
    rw [← hab.2]
    rfl
  · simp [cr, lf] at hab
  · simp at hab

theorem NoLoneCr.lineParts (h : NoLoneCr text) : ∀ p ∈ lineParts text, cr ∉ p.body := by
  refine lines_induction (P := fun text => NoLoneCr text → ∀ p ∈ Edit.lineParts text, cr ∉ p.body) ?_ ?_ text h
  · intro _ p hp
    rw [lineParts_nil] at hp
    cases hp
  · intro text hne ih h p hp
    rw [lineParts_cons hne, mem_cons] at hp
    obtain ⟨hlf, hfirst, hafter⟩ | ⟨body, eol, rest, htext, hlf, hfirst, hafter, heol⟩ := firstLine_cases text
    · rw [hafter, lineParts_nil] at hp
      obtain rfl | hp := hp
      · rw [hfirst, partsOf_body]
        intro hm
        obtain ⟨x, y, hxy⟩ := List.append_of_mem hm
        have := List.mem_of_mem_head? (h x y hxy)
        rw [hxy] at hlf
        exact hlf (List.mem_append_right _ (.tail _ this))
      · cases hp
    · obtain rfl | hp := hp
      · rw [hfirst, partsOf_body]
        intro hm
        obtain ⟨x, y, hxy⟩ := List.append_of_mem hm
        have hhead := h x (y ++ (eol ++ rest)) (by rw [htext, hxy, append_assoc, cons_append])
        cases y with
        | nil =>
          obtain rfl | ⟨rfl, hbare⟩ := heol
          · cases hhead
          · rw [hxy, List.getLast?_concat] at hbare
            exact hbare rfl
        | cons c y =>
          rw [cons_append, List.head?_cons, Option.some.injEq] at hhead
          rw [hxy, hhead] at hlf
          exact hlf (by simp)
      · refine ih ?_ p hp
        rw [hafter]
        refine NoLoneCr.of_append_right (a := body ++ eol) ?_
        rwa [append_assoc, ← htext]

/-! ## The new text under the line ending of the file -/

/-- The new text in a file of carriage returns and line feeds. -/
def asCrLf (text : Bytes) : Bytes := toCrLf (toLf text)

theorem toCrLf_cons (c : UInt8) (text : Bytes) : toCrLf (c :: text) = (if c = lf then [cr, lf] else [c]) ++ toCrLf text := rfl

theorem toCrLf_append (a b : Bytes) : toCrLf (a ++ b) = toCrLf a ++ toCrLf b := List.flatMap_append

theorem lf_mem_toCrLf : lf ∈ toCrLf text ↔ lf ∈ text := by
  rw [toCrLf, List.mem_flatMap]
  constructor
  · rintro ⟨c, hc, hm⟩
    split at hm
    · rename_i hlf
      exact hlf ▸ hc
    · rw [List.mem_singleton.1 hm]
      exact hc
  · intro h
    exact ⟨lf, h, by simp⟩

theorem crLfOnly_toCrLf (text : Bytes) : CrLfOnly (toCrLf text) := by
  induction text with
  | nil => exact crLfOnly_of_not_mem not_mem_nil
  | cons c text ih =>
    rw [toCrLf_cons]
    refine CrLfOnly.append ?_ ih
    split
    · exact crLfOnly_pair
    · rename_i hc
      exact crLfOnly_of_not_mem (by simpa using Ne.symm hc)

theorem noLoneCr_toCrLf (h : cr ∉ text) : NoLoneCr (toCrLf text) := by
  induction text with
  | nil => exact noLoneCr_of_not_mem not_mem_nil
  | cons c text ih =>
    rw [mem_cons, not_or] at h
    rw [toCrLf_cons]
    refine NoLoneCr.append ?_ (ih h.2)
    split
    · exact noLoneCr_pair
    · exact noLoneCr_of_not_mem (by simpa using h.1)

variable {c : UInt8}

theorem NoLoneCr.tail (h : NoLoneCr (c :: text)) : NoLoneCr text := by
  intro a b hab
  exact h (c :: a) b (by rw [hab, cons_append])

theorem cr_not_mem_toLf : ∀ {text : Bytes}, NoLoneCr text → cr ∉ toLf text
  | [], _ => not_mem_nil
  | c :: text, h => by
    rw [toLf]
    split
    · exact cr_not_mem_toLf h.tail
    · rename_i hc
      rw [mem_cons, not_or]
      refine ⟨?_, cr_not_mem_toLf h.tail⟩
      rintro rfl
      exact hc ⟨rfl, h [] text rfl⟩

theorem noLoneCr_asCrLf (h : NoLoneCr text) : NoLoneCr (asCrLf text) := noLoneCr_toCrLf (cr_not_mem_toLf h)

theorem toLf_eq_nil : ∀ {text : Bytes}, toLf text = [] ↔ text = []
  | [] => by simp [toLf]
  | c :: text => by
    rw [toLf]
    split
    · rename_i hc
      rw [toLf_eq_nil]
      constructor
      · rintro rfl
        cases hc.2
      · intro h
        cases h
    · simp

theorem asCrLf_eq_nil : asCrLf text = [] ↔ text = [] := by
  have htoLf : text = [] ↔ toLf text = [] := toLf_eq_nil.symm
  rw [asCrLf, htoLf]
  cases toLf text with
  | nil => rfl
  | cons c _ =>
    rw [toCrLf_cons]
    split
    · simp
    · simp

theorem mem_toLf : ∀ {text : Bytes} {c : UInt8}, c ≠ cr → (c ∈ toLf text ↔ c ∈ text)
  | [], _, _ => by rw [toLf]
  | d :: text, c, hc => by
    rw [toLf]
    split
    · rename_i hd
      rw [mem_toLf hc, hd.1, mem_cons]
      simp [hc]
    · rw [mem_cons, mem_cons, mem_toLf hc]

theorem mem_asCrLf (hcr : c ≠ cr) (hlf : c ≠ lf) : c ∈ asCrLf text ↔ c ∈ text := by
  have htoLf : c ∈ text ↔ c ∈ toLf text := (mem_toLf hcr).symm
  rw [htoLf, asCrLf, toCrLf, List.mem_flatMap]
  constructor
  · rintro ⟨d, hd, hm⟩
    split at hm
    · simp [hcr, hlf] at hm
    · rw [List.mem_singleton.1 hm]
      exact hd
  · intro h
    exact ⟨c, h, by simp [hlf]⟩

theorem afterLine_of_not_mem (h : lf ∉ text) : afterLine text = [] := by
  have : text.dropWhile (· != lf) = [] := by
    rw [List.dropWhile_eq_nil_iff]
    intro c hc
    simp only [bne_iff_ne, ne_eq]
    rintro rfl
    exact h hc
  rw [afterLine, this]
  rfl

theorem afterLine_append (h : lf ∉ a) : afterLine (a ++ lf :: b) = b := by
  have : (a ++ lf :: b).dropWhile (· != lf) = lf :: b := by
    rw [List.dropWhile_append_of_pos]
    · simp
    · intro c hc
      simp only [bne_iff_ne, ne_eq]
      rintro rfl
      exact h hc
  rw [afterLine, this]
  rfl

theorem toLf_append_lf : ∀ {a : Bytes} (b : Bytes), lf ∉ a → ∃ x, toLf (a ++ lf :: b) = x ++ lf :: toLf b ∧ lf ∉ x
  | [], b, _ => ⟨[], by rw [nil_append, toLf, if_neg (by simp [cr, lf])]; rfl, not_mem_nil⟩
  | c :: a, b, h => by
    rw [mem_cons, not_or] at h
    obtain ⟨x, hx, hlf⟩ := toLf_append_lf b h.2
    rw [cons_append, toLf]
    split
    · exact ⟨x, hx, hlf⟩
    · refine ⟨c :: x, by rw [hx, cons_append], ?_⟩
      rw [mem_cons, not_or]
      exact ⟨h.1, hlf⟩

theorem afterLine_asCrLf (text : Bytes) : afterLine (asCrLf text) = asCrLf (afterLine text) := by
  by_cases h : lf ∈ text
  · obtain ⟨a, b, rfl, ha⟩ := List.eq_append_cons_of_mem h
    obtain ⟨x, hx, hlf⟩ := toLf_append_lf b ha
    have hpair : toCrLf (x ++ lf :: toLf b) = (toCrLf x ++ [cr]) ++ lf :: asCrLf b := by
      rw [toCrLf_append, toCrLf_cons, if_pos rfl, asCrLf]
      simp
    rw [asCrLf, hx, hpair, afterLine_append ha, afterLine_append]
    rw [List.mem_append, lf_mem_toCrLf, not_or]
    exact ⟨hlf, by simp [cr, lf]⟩
  · have hnorm : lf ∉ asCrLf text := by
      rwa [asCrLf, lf_mem_toCrLf, mem_toLf (by simp [cr, lf])]
    rw [afterLine_of_not_mem h, afterLine_of_not_mem hnorm]
    rfl

/-! ## The end of the file -/

theorem popLineEndings_spec : ∀ (text : Bytes), ∃ popped, text = popped ++ popLineEndings text ∧
    (∀ c ∈ popped, c = cr ∨ c = lf) ∧ (popLineEndings text).head? ≠ some lf
  | [] => ⟨[], rfl, by simp, by simp [popLineEndings]⟩
  | [c] => by
    rw [popLineEndings]
    split <;> rename_i hc
    · exact ⟨[c], rfl, by simp [hc], by simp⟩
    · exact ⟨[], rfl, by simp, by simpa using hc⟩
  | c :: d :: rest => by
    rw [popLineEndings]
    split <;> rename_i hc
    · split
      · rename_i hd
        obtain ⟨popped, heq, hpopped, hhead⟩ := popLineEndings_spec rest
        refine ⟨c :: d :: popped, by rw [cons_append, cons_append, ← heq], ?_, hhead⟩
        intro x hx
        rw [mem_cons, mem_cons] at hx
        obtain rfl | rfl | hx := hx
        · exact .inr hc
        · exact .inl hd
        · exact hpopped x hx
      · obtain ⟨popped, heq, hpopped, hhead⟩ := popLineEndings_spec (d :: rest)
        refine ⟨c :: popped, by rw [cons_append, ← heq], ?_, hhead⟩
        intro x hx
        rw [mem_cons] at hx
        obtain rfl | hx := hx
        · exact .inr hc
        · exact hpopped x hx
    · exact ⟨[], rfl, by simp, by simpa using hc⟩

end Iteron.Edit
