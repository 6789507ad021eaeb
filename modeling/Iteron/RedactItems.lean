import Iteron.RedactTokens
/-!
# RedactItems — what a mask hides and what it leaves

A masked line is a row of characters the mask leaves and of texts it hides.  Hiding writes no bracket the line did not
have except at the front of a marker, so the scanner reads the masked line as it read the line, and finds nothing in it
to mask (`clean_scrub`).
-/
namespace Iteron.Redact
open Search
open List (append_assoc append_nil cons_append cons_prefix_cons mem_append mem_append_right mem_cons nil_append
  prefix_append)

variable {c : Char} {line rest w m a t : List Char}

/-! ## Items -/

inductive Item where
  | plain (c : Char)
  | hidden (w : List Char)

def Item.text : Item → List Char
  | .plain c => [c]
  | .hidden w => w

def Item.shown : Item → List Char
  | .plain c => [c]
  | .hidden w => marker w

def source (is : List Item) : List Char := is.flatMap Item.text

def shown (is : List Item) : List Char := is.flatMap Item.shown

@[simp] theorem source_nil : source [] = [] := rfl

@[simp] theorem shown_nil : shown [] = [] := rfl

@[simp] theorem source_plain (is : List Item) : source (.plain c :: is) = c :: source is := rfl

@[simp] theorem shown_plain (is : List Item) : shown (.plain c :: is) = c :: shown is := rfl

@[simp] theorem source_hidden (is : List Item) : source (.hidden w :: is) = w ++ source is := rfl

@[simp] theorem shown_hidden (is : List Item) : shown (.hidden w :: is) = marker w ++ shown is := rfl

@[simp] theorem source_append (is js : List Item) : source (is ++ js) = source is ++ source js := List.flatMap_append

@[simp] theorem shown_append (is js : List Item) : shown (is ++ js) = shown is ++ shown js := List.flatMap_append

@[simp] theorem source_map_plain : ∀ w : List Char, source (w.map .plain) = w
  | [] => rfl
  | c :: w => congrArg (c :: ·) (source_map_plain w)

@[simp] theorem shown_map_plain : ∀ w : List Char, shown (w.map .plain) = w
  | [] => rfl
  | c :: w => congrArg (c :: ·) (shown_map_plain w)

theorem marker_cons (w : List Char) : marker w = '[' :: (markerOpen.tail ++ (hint w ++ markerClose)) := rfl

theorem starts_source (ha : '[' ∉ a) : ∀ {is : List Item}, a <+: shown is → a <+: source is := by
  intro is
  induction is generalizing a with
  | nil => exact id
  | cons i is ih =>
    intro h
    cases a with
    | nil => exact List.nil_prefix
    | cons d a =>
      cases i with
      | plain c =>
        rw [shown_plain, cons_prefix_cons] at h
        rw [source_plain, cons_prefix_cons]
        exact ⟨h.1, ih (fun hm => ha (.tail _ hm)) h.2⟩
      | hidden w =>
        rw [shown_hidden, marker_cons, cons_append, cons_prefix_cons] at h
        rw [h.1] at ha
        cases ha (.head _)

/-! ## The items of a line -/

def scalarItems (w : List Char) : List Item := if looksSecret w then [.hidden w] else w.map .plain

def componentItems : List Char → List Char → List Item
  | component, [] => scalarItems component
  | component, c :: cs =>
    if isSlash c then scalarItems component ++ .plain c :: componentItems [] cs else componentItems (component ++ [c]) cs

def wordItems (w : List Char) : List Item := if isPath w then componentItems [] w else scalarItems w

def Token.items : Token → List Item
  | .separator c => [.plain c]
  | .word w => wordItems w
  | .generated m => m.map .plain
  | .bracket => [.plain '[']

def items (line : List Char) : List Item := (tokens line).flatMap Token.items

theorem shown_scalarItems (w : List Char) : shown (scalarItems w) = maskScalarIfSecret w := by
  rw [scalarItems, maskScalarIfSecret]
  split <;> simp

theorem source_scalarItems (w : List Char) : source (scalarItems w) = w := by
  rw [scalarItems]
  split <;> simp

theorem shown_componentItems : ∀ cs component : List Char, shown (componentItems component cs) = maskComponents component cs
  | [], component => shown_scalarItems component
  | c :: cs, component => by
    rw [componentItems, maskComponents]
    split
    · rw [shown_append, shown_plain, shown_scalarItems, shown_componentItems cs]
    · exact shown_componentItems cs _

theorem source_componentItems : ∀ cs component : List Char, source (componentItems component cs) = component ++ cs
  | [], component => by rw [componentItems, source_scalarItems, append_nil]
  | c :: cs, component => by
    rw [componentItems]
    split
    · rw [source_append, source_plain, source_scalarItems, source_componentItems cs, nil_append]
    · rw [source_componentItems cs, append_assoc]
      rfl

theorem shown_wordItems (w : List Char) : shown (wordItems w) = maskIfSecret w := by
  rw [wordItems, maskIfSecret]
  split
  · exact shown_componentItems w []
  · exact shown_scalarItems w

theorem source_wordItems (w : List Char) : source (wordItems w) = w := by
  rw [wordItems]
  split
  · exact source_componentItems w []
  · exact source_scalarItems w

theorem items_nil : items [] = [] := by rw [items, tokens_nil]; rfl

theorem items_separator (hc : isSeparator c = true) : items (c :: rest) = .plain c :: items rest := by
  rw [items, tokens_separator hc]
  rfl

theorem items_generated (h : Generated m) : items (m ++ rest) = m.map .plain ++ items rest := by
  rw [items, tokens_generated h]
  rfl

theorem items_bracket (h : markerOpen <+: '[' :: rest) (hm : generatedMarkerLen ('[' :: rest) = none) :
    items ('[' :: rest) = .plain '[' :: items rest := by
  rw [items, tokens_bracket h hm]
  rfl

theorem items_word (hw : IsWord w) (hfree : FreeBefore markerOpen w rest) (hb : Boundary rest) :
    items (w ++ rest) = wordItems w ++ items rest := by
  rw [items, tokens_word hw hfree hb]
  rfl

theorem shown_items (line : List Char) : shown (items line) = scrubTokensInLine line := by
  rw [items, shown, List.flatMap_assoc, scrubTokensInLine]
  refine List.flatMap_congr (fun t _ => ?_)
  cases t with
  | separator c => rfl
  | word w => exact shown_wordItems w
  | generated m => exact shown_map_plain m
  | bracket => rfl

theorem source_items (line : List Char) : source (items line) = line := by
  induction line using scan_induction with
  | nil => rw [items_nil]; rfl
  | separator c rest hc ih => rw [items_separator hc, source_plain, ih]
  | generated m rest hm ih => rw [items_generated hm, source_append, source_map_plain, ih]
  | bracket rest h hm ih => rw [items_bracket h hm, source_plain, ih]
  | word w rest hw hfree hb ih => rw [items_word hw hfree hb, source_append, source_wordItems, ih]

/-! ## What is hidden -/

theorem byteLen_le : ∀ w : List Char, byteLen w ≤ 4 * w.length
  | [] => Nat.le_refl 0
  | c :: w => by
    have := byteLen_le w
    have := Char.utf8Size_le_four c
    simp only [byteLen, List.map_cons, List.sum_cons, List.length_cons] at *
    omega

theorem four_le_of_byteLen (h : 20 ≤ byteLen w) : 4 ≤ w.length := by
  have := byteLen_le w
  omega

theorem looksLikeJwt_head (h : looksLikeJwt w = true) : ∃ t, w = 'e' :: t ∧ 4 ≤ w.length := by
  rw [looksLikeJwt] at h
  split at h
  · rename_i hpre
    obtain ⟨t, rfl⟩ := List.isPrefixOf_iff_prefix.1 hpre
    cases t with
    | nil => cases h
    | cons c t => exact ⟨_, rfl, by simp⟩
  · cases h

theorem looksLikeHexOrB64Token_head (h : looksLikeHexOrB64Token w = true) :
    ∃ c t, w = c :: t ∧ isHintChar c = true ∧ 4 ≤ w.length := by
  rw [looksLikeHexOrB64Token] at h
  split at h
  · cases h
  · have hfour : 4 ≤ w.length := four_le_of_byteLen (by omega)
    cases w with
    | nil => cases hfour
    | cons c t =>
      refine ⟨c, t, rfl, ?_, hfour⟩
      split at h
      · cases h
      · rename_i hall
        simp only [Bool.not_eq_true, Bool.not_eq_false', List.all_cons, Bool.and_eq_true] at hall
        have := hall.1
        simp only [isHintChar, Bool.or_eq_true] at this ⊢
        grind

theorem looksSecret_head (h : looksSecret w = true) : ∃ c t, w = c :: t ∧ isHintChar c = true ∧ 4 ≤ w.length := by
  have hstart (p : List Char) (hp : p.isPrefixOf w = true) (hc : p.head?.any isHintChar = true)
      (hlen : 4 ≤ p.length ∨ 20 ≤ byteLen w) : ∃ c t, w = c :: t ∧ isHintChar c = true ∧ 4 ≤ w.length := by
    obtain ⟨t, rfl⟩ := List.isPrefixOf_iff_prefix.1 hp
    have hfour : 4 ≤ (p ++ t).length := by
      obtain hlen | hlen := hlen
      · rw [List.length_append]
        omega
      · exact four_le_of_byteLen hlen
    cases p with
    | nil => cases hc
    | cons c p => exact ⟨c, p ++ t, rfl, hc, hfour⟩
  simp only [looksSecret, Bool.or_eq_true, Bool.and_eq_true, decide_eq_true_eq] at h
  obtain (((((((⟨h, hl⟩ | h) | ⟨(h | h) | h, hl⟩) | h) | h) | ⟨h, hl⟩) | ⟨h, hl⟩) | h) | ⟨-, h⟩ := h
  · exact hstart _ h (by decide) (.inr (by omega))
  · exact hstart _ h (by decide) (.inl (by decide))
  · exact hstart _ h (by decide) (.inr (by omega))
  · exact hstart _ h (by decide) (.inr (by omega))
  · exact hstart _ h (by decide) (.inr (by omega))
  · exact hstart _ h (by decide) (.inl (by decide))
  · exact hstart _ h (by decide) (.inl (by decide))
  · exact hstart _ h (by decide) (.inr (by omega))
  · exact hstart _ h (by decide) (.inr (by omega))
  · obtain ⟨t, rfl, hfour⟩ := looksLikeJwt_head h
    exact ⟨'e', t, rfl, by decide, hfour⟩
  · exact looksLikeHexOrB64Token_head h

theorem isHintChar_hint (h : c ∈ hint w) : isHintChar c = true := by
  obtain ⟨d, -, rfl⟩ := List.mem_map.1 h
  split
  · assumption
  · decide

theorem Generated.bracket_not_mem (h : Generated m) : '[' ∉ m.tail := by
  obtain ⟨h, -, hchars, rfl⟩ := h
  simp only [markerOpen, markerClose, cons_append, List.tail_cons, nil_append, mem_cons, mem_append, List.not_mem_nil]
  rintro (h | h | h | h | h | h | h | h | h | h | h | h | h) <;> first | exact absurd h (by decide) | skip
  exact absurd (hchars _ h) (by decide)

theorem generated_marker (h : looksSecret w = true) : Generated (marker w) := by
  obtain ⟨-, -, -, -, _⟩ := looksSecret_head h
  refine ⟨hint w, ?_, fun c hc => isHintChar_hint hc, rfl⟩
  rw [hint, List.length_map, List.length_take]
  omega

/-! ## A masked line has nothing to mask -/

def Clean (line : List Char) : Prop := ∀ w, Token.word w ∈ tokens line → maskIfSecret w = w

theorem scrub_of_clean (h : Clean line) : scrubTokensInLine line = line := by
  have hsource : (tokens line).flatMap (fun t => source t.items) = line := by
    have := source_items line
    rwa [items, source, List.flatMap_assoc] at this
  refine Eq.trans (List.flatMap_congr (fun t ht => ?_)) hsource
  cases t with
  | separator c => rfl
  | word w => exact (h w ht).trans (source_wordItems w).symm
  | generated m => exact (source_map_plain m).symm
  | bracket => rfl

theorem clean_nil : Clean [] := by simp [Clean, tokens_nil]

theorem clean_separator (hc : isSeparator c = true) (h : Clean rest) : Clean (c :: rest) := by
  simpa [Clean, tokens_separator hc] using h

theorem clean_generated (hm : Generated m) (h : Clean rest) : Clean (m ++ rest) := by
  simpa [Clean, tokens_generated hm] using h

theorem clean_bracket (hopen : markerOpen <+: '[' :: rest) (hm : generatedMarkerLen ('[' :: rest) = none)
    (h : Clean rest) : Clean ('[' :: rest) := by
  simpa [Clean, tokens_bracket hopen hm] using h

theorem clean_word (hw : IsWord w) (hfree : FreeBefore markerOpen w rest) (hb : Boundary rest)
    (hfix : maskIfSecret w = w) (h : Clean rest) : Clean (w ++ rest) := by
  intro v hv
  rw [tokens_word hw hfree hb, mem_cons] at hv
  obtain hv | hv := hv
  · cases hv
    exact hfix
  · exact h v hv

theorem freeBefore_word (h : ∀ c ∈ w, isSeparator c = false) : FreeBefore markerOpen w [] := by
  intro a b hab _ hopen
  rw [append_nil] at hopen
  have hc : ':' ∈ w := by
    rw [hab]
    exact mem_append_right a (hopen.subset (by decide))
  exact absurd (h ':' hc) (by decide)

theorem freeBefore_marker (h : ∀ c ∈ w, isSeparator c = false) : FreeBefore markerOpen w (marker a ++ rest) := by
  have hhead : ∀ d r, marker a ++ rest = d :: r → d ∉ markerOpen.tail := by
    intro d r hd
    cases hd
    decide
  have := freeBefore_append (freeBefore_word h) hhead
  rwa [nil_append] at this

theorem scrub_separator (hc : isSeparator c = true) : scrubTokensInLine (c :: rest) = c :: scrubTokensInLine rest := by
  rw [scrubTokensInLine, tokens_separator hc]
  rfl

theorem scrub_generated (h : Generated m) : scrubTokensInLine (m ++ rest) = m ++ scrubTokensInLine rest := by
  rw [scrubTokensInLine, tokens_generated h]
  rfl

theorem scrub_bracket (h : markerOpen <+: '[' :: rest) (hm : generatedMarkerLen ('[' :: rest) = none) :
    scrubTokensInLine ('[' :: rest) = '[' :: scrubTokensInLine rest := by
  rw [scrubTokensInLine, tokens_bracket h hm]
  rfl

theorem scrub_word (hw : IsWord w) (hfree : FreeBefore markerOpen w rest) (hb : Boundary rest) :
    scrubTokensInLine (w ++ rest) = maskIfSecret w ++ scrubTokensInLine rest := by
  rw [scrubTokensInLine, tokens_word hw hfree hb]
  rfl

theorem starts_scrub (ha : '[' ∉ a) (h : a <+: w ++ scrubTokensInLine rest) : a <+: w ++ rest := by
  have hshown : w ++ scrubTokensInLine rest = shown (w.map .plain ++ items rest) := by
    rw [shown_append, shown_map_plain, shown_items]
  rw [hshown] at h
  have := starts_source ha h
  rwa [source_append, source_map_plain, source_items] at this

theorem starts_marker_scrub (h : markerOpen <+: line) : markerOpen <+: scrubTokensInLine line := by
  cases hm : generatedMarkerLen line with
  | some n =>
    obtain ⟨m, t, hgen, rfl⟩ := generated_of_generatedMarkerLen hm
    rw [scrub_generated hgen]
    exact hgen.starts.trans (prefix_append m _)
  | none =>
    obtain ⟨t, rfl⟩ := h
    have hword : IsWord ['R', 'E', 'D', 'A', 'C', 'T', 'E', 'D'] := ⟨by simp, List.all_iff_forall_prop.1 (by decide)⟩
    have hfree : FreeBefore markerOpen ['R', 'E', 'D', 'A', 'C', 'T', 'E', 'D'] (':' :: t) := by
      intro a b hab hb hopen
      cases b with
      | nil => exact hb rfl
      | cons x b =>
        rw [markerOpen, cons_append, cons_prefix_cons] at hopen
        have : '[' ∈ a ++ x :: b := mem_append_right a (by rw [hopen.1]; exact .head _)
        rw [← hab] at this
        exact absurd this (by decide)
    have htail : scrubTokensInLine (['R', 'E', 'D', 'A', 'C', 'T', 'E', 'D'] ++ ':' :: t) =
        ['R', 'E', 'D', 'A', 'C', 'T', 'E', 'D'] ++ ':' :: scrubTokensInLine t := by
      rw [scrub_word hword hfree (.inr (.inl ⟨':', t, rfl, by decide⟩)), scrub_separator (by decide)]
      exact congrArg (· ++ ':' :: scrubTokensInLine t) (by decide)
    have hline : scrubTokensInLine (markerOpen ++ t) = markerOpen ++ scrubTokensInLine t := by
      refine (scrub_bracket (prefix_append markerOpen t) hm).trans ?_
      exact congrArg ('[' :: ·) htail
    rw [hline]
    exact prefix_append markerOpen _

theorem boundary_scrub (h : Boundary rest) : Boundary (scrubTokensInLine rest) := by
  obtain rfl | ⟨c, t, rfl, hc⟩ | h := h
  · exact .inl (by rw [scrubTokensInLine, tokens_nil]; rfl)
  · exact .inr (.inl ⟨c, scrubTokensInLine t, scrub_separator hc, hc⟩)
  · exact .inr (.inr (starts_marker_scrub h))

theorem freeBefore_scrub (h : FreeBefore markerOpen w rest) : FreeBefore markerOpen w (scrubTokensInLine rest) := by
  intro a b hab hb hopen
  cases b with
  | nil => exact hb rfl
  | cons x b =>
    refine h a (x :: b) hab hb ?_
    rw [markerOpen, cons_append, cons_prefix_cons] at hopen ⊢
    exact ⟨hopen.1, starts_scrub (by decide) hopen.2⟩

theorem generatedMarkerLen_scrub (h : generatedMarkerLen ('[' :: rest) = none) :
    generatedMarkerLen ('[' :: scrubTokensInLine rest) = none := by
  cases hm : generatedMarkerLen ('[' :: scrubTokensInLine rest) with
  | none => rfl
  | some n =>
    obtain ⟨m, t, hgen, heq⟩ := generated_of_generatedMarkerLen hm
    obtain ⟨d, m', rfl⟩ := List.exists_cons_of_ne_nil (show m ≠ [] by
      rintro rfl
      exact absurd hgen.length_eq (by decide))
    obtain ⟨rfl, hrest⟩ := List.cons.inj heq
    have hstart : m' <+: [] ++ rest := starts_scrub hgen.bracket_not_mem ⟨t, hrest.symm⟩
    obtain ⟨_, ht'⟩ := hstart
    have : generatedMarkerLen ('[' :: rest) = some 16 := by
      rw [← nil_append rest, ← ht']
      exact generatedMarkerLen_of_generated hgen
    rw [h] at this
    cases this

/-! ### The components of a path -/

theorem maskComponents_append : ∀ {w : List Char}, (∀ c ∈ w, isSlash c = false) → ∀ component : List Char,
    maskComponents component (w ++ rest) = maskComponents (component ++ w) rest
  | [], _, component => by simp
  | c :: w, h, component => by
    have hc : isSlash c = false := h c (.head _)
    rw [cons_append, maskComponents, if_neg (by simp [hc]),
      maskComponents_append (fun d hd => h d (.tail _ hd)), append_assoc]
    rfl

def Settled (pre : List Char) : Prop :=
  isPath pre = true ∧ ∀ cs, maskComponents [] (pre ++ cs) = pre ++ maskComponents [] cs

theorem settled_slash (hc : isSlash c = true) : Settled [c] := by
  refine ⟨hc, fun cs => ?_⟩
  rw [cons_append, maskComponents, if_pos hc]
  rfl

variable {pre : List Char}

theorem Settled.step {component : List Char} (h : Settled pre) (hcomp : ∀ d ∈ component, isSlash d = false)
    (hplain : maskScalarIfSecret component = component) (hc : isSlash c = true) :
    Settled (pre ++ (component ++ [c])) := by
  obtain ⟨hpath, hsettled⟩ := h
  constructor
  · cases pre with
    | nil => cases hpath
    | cons d pre => exact hpath
  · intro cs
    rw [append_assoc, hsettled, append_assoc, maskComponents_append hcomp, nil_append, cons_append,
      maskComponents, if_pos hc, hplain]
    simp

theorem Settled.mask {component : List Char} (h : Settled pre) (hcomp : ∀ d ∈ component, isSlash d = false)
    (hplain : maskScalarIfSecret component = component) : maskIfSecret (pre ++ component) = pre ++ component := by
  have hpath : isPath (pre ++ component) = true := by
    cases pre with
    | nil => cases h.1
    | cons d pre => exact h.1
  have hlast : maskComponents [] component = component := by
    have : maskComponents [] (component ++ []) = maskComponents ([] ++ component) [] := maskComponents_append hcomp []
    rwa [append_nil, nil_append, maskComponents, hplain] at this
  rw [maskIfSecret, if_pos hpath, h.2, hlast]

theorem Settled.mask_self (h : Settled pre) : maskIfSecret pre = pre := by
  have : maskIfSecret (pre ++ []) = pre ++ [] := h.mask (by simp) (by decide)
  rwa [append_nil] at this

theorem Settled.ne_nil (h : Settled pre) : pre ≠ [] := by
  rintro rfl
  cases h.1

theorem Settled.clean_marker (h : Settled pre) (hsep : ∀ d ∈ pre, isSeparator d = false)
    (hsecret : looksSecret w = true) (hrest : Clean rest) : Clean (pre ++ (marker w ++ rest)) := by
  refine clean_word ⟨h.ne_nil, hsep⟩ (freeBefore_marker hsep) (.inr (.inr ?_)) h.mask_self
    (clean_generated (generated_marker hsecret) hrest)
  exact (generated_marker hsecret).starts.trans (prefix_append _ _)

theorem freeBefore_suffix (pre : List Char) (h : FreeBefore markerOpen (pre ++ w) rest) :
    FreeBefore markerOpen w rest := by
  intro a b hab hb
  exact h (pre ++ a) b (by rw [hab, append_assoc]) hb

theorem clean_components {z : List Char} (hz : Clean z) (hb : Boundary z) : ∀ cs component pre : List Char,
    Settled pre → (∀ d ∈ component, isSlash d = false) → (∀ d ∈ pre ++ (component ++ cs), isSeparator d = false) →
    FreeBefore markerOpen (pre ++ (component ++ cs)) z → Clean (pre ++ (maskComponents component cs ++ z)) := by
  intro cs
  induction cs with
  | nil =>
    intro component pre hpre hcomp hsep hfree
    rw [append_nil] at hsep hfree
    rw [maskComponents, maskScalarIfSecret]
    split
    · rename_i hsecret
      exact hpre.clean_marker (fun d hd => hsep d (List.mem_append_left _ hd)) hsecret hz
    · rename_i hplain
      have hne : pre ++ component ≠ [] := by simp [hpre.ne_nil]
      rw [← append_assoc]
      refine clean_word ⟨hne, hsep⟩ hfree hb (hpre.mask hcomp ?_) hz
      rw [maskScalarIfSecret, if_neg hplain]
  | cons c cs ih =>
    intro component pre hpre hcomp hsep hfree
    rw [maskComponents]
    split <;> rename_i hc
    · rw [maskScalarIfSecret]
      split
      · rename_i hsecret
        have hnext : Clean ([c] ++ (maskComponents [] cs ++ z)) := by
          refine ih [] [c] (settled_slash hc) (by simp) (fun d hd => hsep d ?_) ?_
          · exact mem_append_right _ (mem_append_right _ hd)
          · exact freeBefore_suffix (pre ++ component) (by simpa using hfree)
        rw [append_assoc]
        exact hpre.clean_marker (fun d hd => hsep d (List.mem_append_left _ hd)) hsecret hnext
      · rename_i hplain
        have hstep := hpre.step hcomp (by rw [maskScalarIfSecret, if_neg hplain]) hc
        have := ih [] _ hstep (by simp) (by simpa using hsep) (by simpa using hfree)
        simpa using this
    · have hcomp' : ∀ d ∈ component ++ [c], isSlash d = false := by
        intro d hd
        obtain hd | hd := List.mem_append.1 hd
        · exact hcomp d hd
        · rw [List.mem_singleton.1 hd]
          simpa using hc
      exact ih (component ++ [c]) pre hpre hcomp' (by simpa using hsep) (by simpa using hfree)

/-- **Masking once is enough**: the scanner finds nothing to mask in what it wrote. -/
theorem clean_scrub (line : List Char) : Clean (scrubTokensInLine line) := by
  induction line using scan_induction with
  | nil =>
    rw [scrubTokensInLine, tokens_nil]
    exact clean_nil
  | separator c rest hc ih =>
    rw [scrub_separator hc]
    exact clean_separator hc ih
  | generated m rest hm ih =>
    rw [scrub_generated hm]
    exact clean_generated hm ih
  | bracket rest h hm ih =>
    have hopen := starts_marker_scrub h
    rw [scrub_bracket h hm] at hopen ⊢
    exact clean_bracket hopen (generatedMarkerLen_scrub hm) ih
  | word w rest hw hfree hb ih =>
    have hfree' := freeBefore_scrub hfree
    have hb' := boundary_scrub hb
    rw [scrub_word hw hfree hb, maskIfSecret]
    split <;> rename_i hpath
    · cases w with
      | nil => cases hpath
      | cons c cs =>
        have hc : isSlash c = true := hpath
        have := clean_components ih hb' cs [] [c] (settled_slash hc) (by simp) hw.2 hfree'
        rw [maskComponents, if_pos hc]
        exact this
    · rw [maskScalarIfSecret]
      split
      · rename_i hsecret
        exact clean_generated (generated_marker hsecret) ih
      · rename_i hplain
        refine clean_word hw hfree' hb' ?_ ih
        rw [maskIfSecret, if_neg hpath, maskScalarIfSecret, if_neg hplain]

/-! ## Where a line can be cut -/

/-- Nothing the scanner reads in front of this text reaches into it. -/
def Cut (t : List Char) : Prop :=
  Boundary t ∧ ∀ d r, t = d :: r → d ∉ markerOpen.tail ∧ isHintChar d = false ∧ d ∉ markerClose

theorem cut_newline : Cut ('\n' :: rest) := by
  refine ⟨.inr (.inl ⟨'\n', rest, rfl, by decide⟩), fun d r hd => ?_⟩
  cases hd
  decide

theorem cut_marker (h : markerOpen <+: t) : Cut t := by
  refine ⟨.inr (.inr h), fun d r hd => ?_⟩
  subst hd
  rw [markerOpen, cons_prefix_cons] at h
  rw [← h.1]
  decide

theorem Generated.not_mem_of_cut {d : Char} {r : List Char} (h : Generated m) (ht : Cut (d :: r)) : d ∉ m.tail := by
  obtain ⟨hopen, hhint, hclose⟩ := ht.2 d r rfl
  obtain ⟨h, -, hchars, rfl⟩ := h
  intro hmem
  rw [markerOpen, cons_append, List.tail_cons, mem_append, mem_append] at hmem
  obtain hmem | hmem | hmem := hmem
  · exact hopen hmem
  · rw [hchars d hmem] at hhint
    cases hhint
  · exact hclose hmem

theorem generatedMarkerLen_append (h : generatedMarkerLen (c :: line) = none) (ht : Cut t) :
    generatedMarkerLen (c :: (line ++ t)) = none := by
  cases hm : generatedMarkerLen (c :: (line ++ t)) with
  | none => rfl
  | some n =>
    obtain ⟨m, r, hgen, heq⟩ := generated_of_generatedMarkerLen hm
    have hinside : m <+: c :: line := by
      obtain hin | ⟨cut, hcut⟩ := List.prefix_or_prefix_of_prefix (⟨r, heq.symm⟩ : m <+: (c :: line) ++ t)
        (prefix_append (c :: line) t)
      · exact hin
      · cases cut with
        | nil => rw [← hcut, append_nil]
        | cons d cut =>
          rw [← hcut, ← cons_append, append_assoc] at heq
          have ht' : t = d :: (cut ++ r) := List.append_cancel_left heq
          rw [ht'] at ht
          refine absurd ?_ (hgen.not_mem_of_cut ht)
          rw [← hcut]
          simp
    obtain ⟨_, hr'⟩ := hinside
    rw [← hr', generatedMarkerLen_of_generated hgen] at h
    cases h

theorem tokens_append (line : List Char) (ht : Cut t) : tokens (line ++ t) = tokens line ++ tokens t := by
  induction line using scan_induction with
  | nil => rw [tokens_nil]; rfl
  | separator c rest hc ih =>
    rw [cons_append, tokens_separator hc, tokens_separator hc, ih]
    rfl
  | generated m rest hm ih =>
    rw [append_assoc, tokens_generated hm, tokens_generated hm, ih]
    rfl
  | bracket rest h hm ih =>
    have hopen : markerOpen <+: '[' :: (rest ++ t) := h.trans (prefix_append ('[' :: rest) t)
    rw [cons_append, tokens_bracket hopen (generatedMarkerLen_append hm ht), tokens_bracket h hm, ih]
    rfl
  | word w rest hw hfree hb ih =>
    have hb' : Boundary (rest ++ t) := by
      obtain rfl | ⟨c, r, rfl, hc⟩ | h := hb
      · exact ht.1
      · exact .inr (.inl ⟨c, r ++ t, rfl, hc⟩)
      · exact .inr (.inr (h.trans (prefix_append rest t)))
    have hfree' := freeBefore_append hfree (fun d r hd => (ht.2 d r hd).1)
    rw [append_assoc, tokens_word hw hfree' hb', tokens_word hw hfree hb, ih]
    rfl

theorem items_append (line : List Char) (ht : Cut t) : items (line ++ t) = items line ++ items t := by
  rw [items, tokens_append line ht, List.flatMap_append]
  rfl

theorem clean_append (h : Clean line) (ht : Cut t) (hclean : Clean t) : Clean (line ++ t) := by
  intro w hw
  rw [tokens_append line ht, mem_append] at hw
  obtain hw | hw := hw
  · exact h w hw
  · exact hclean w hw

/-! ## What the items hide -/

/-- What a mask of the scanner hides: a secret, part of a word, that starts no path. -/
def Hideable (w : List Char) : Prop := looksSecret w = true ∧ (∀ c ∈ w, isSeparator c = false) ∧ isPath w = false

variable {v : List Char}

theorem hidden_scalarItems (h : .hidden v ∈ scalarItems w) : v = w ∧ looksSecret w = true := by
  rw [scalarItems] at h
  split at h
  · rename_i hsecret
    simp only [List.mem_singleton, Item.hidden.injEq] at h
    exact ⟨h, hsecret⟩
  · simp at h

theorem hidden_componentItems : ∀ {cs component : List Char}, (∀ d ∈ component, isSlash d = false) →
    .hidden v ∈ componentItems component cs → looksSecret v = true ∧ (∀ d ∈ v, isSlash d = false) ∧ ∀ d ∈ v, d ∈ component ++ cs
  | [], component, hcomp, h => by
    obtain ⟨rfl, hsecret⟩ := hidden_scalarItems h
    exact ⟨hsecret, hcomp, fun d hd => by simpa using hd⟩
  | c :: cs, component, hcomp, h => by
    rw [componentItems] at h
    split at h
    · simp only [mem_append, mem_cons, reduceCtorEq, false_or] at h
      obtain h | h := h
      · obtain ⟨rfl, hsecret⟩ := hidden_scalarItems h
        exact ⟨hsecret, hcomp, fun d hd => List.mem_append_left _ hd⟩
      · obtain ⟨hsecret, hslash, hmem⟩ := hidden_componentItems (by simp) h
        exact ⟨hsecret, hslash, fun d hd => mem_append_right _ (.tail _ (hmem d hd))⟩
    · rename_i hc
      have hcomp' : ∀ d ∈ component ++ [c], isSlash d = false := by
        intro d hd
        obtain hd | hd := List.mem_append.1 hd
        · exact hcomp d hd
        · rw [List.mem_singleton.1 hd]
          simpa using hc
      obtain ⟨hsecret, hslash, hmem⟩ := hidden_componentItems hcomp' h
      exact ⟨hsecret, hslash, fun d hd => by simpa using hmem d hd⟩

theorem hidden_wordItems (hw : ∀ c ∈ w, isSeparator c = false) (h : .hidden v ∈ wordItems w) : Hideable v := by
  rw [wordItems] at h
  split at h
  · obtain ⟨hsecret, hslash, hmem⟩ := hidden_componentItems (by simp) h
    refine ⟨hsecret, fun d hd => hw d (hmem d hd), ?_⟩
    cases v with
    | nil => rfl
    | cons d v => exact hslash d (.head _)
  · rename_i hpath
    obtain ⟨rfl, hsecret⟩ := hidden_scalarItems h
    exact ⟨hsecret, hw, by simpa using hpath⟩

theorem hidden_items : .hidden v ∈ items line → Hideable v := by
  induction line using scan_induction with
  | nil => simp [items_nil]
  | separator c rest hc ih => simpa [items_separator hc] using ih
  | generated m rest hm ih => simpa [items_generated hm] using ih
  | bracket rest h hm ih => simpa [items_bracket h hm] using ih
  | word w rest hw hfree hb ih =>
    intro h
    rw [items_word hw hfree hb, mem_append] at h
    obtain h | h := h
    · exact hidden_wordItems hw.2 h
    · exact ih h

end Iteron.Redact
