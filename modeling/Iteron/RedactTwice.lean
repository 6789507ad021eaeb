import Iteron.RedactLines
/-!
# RedactTwice — scrubbing a scrubbed text

The scanner leaves what it wrote alone, so a second scrub changes a line only through its URLs: where a word hidden in
the userinfo of an authority brings a colon that was not there (`scrub_scrub_iff`).
-/
namespace Iteron.Redact
open Search
open List (cons_append cons_prefix_cons forall_mem_cons map_cons mem_append nil_append)

variable {l a x : List Char} {is info : List Item}

/-! ## Authorities of a masked line -/

/-- What a mask shows in an authority in front of its `@`: no `@`, and nothing that ends the authority. -/
def inAuthority : Item → Bool
  | .plain c => c != '@' && !endsAuthority c
  | .hidden w => !(hint w).contains '/'

/-- Right behind the first colon of the userinfo stands a hidden word, or a marker the text had already. -/
def Guarded (info : List Item) : Prop :=
  ∃ (user : List Char) (password : List Item), info = user.map .plain ++ .plain ':' :: password ∧ ':' ∉ user ∧
    ((∃ w t, password = .hidden w :: t) ∨ markerOpen.map .plain <+: password)

/-- A word is hidden in a userinfo, and not as the password. -/
def Exposed (line : List Char) : Prop :=
  ∃ before info after, items line = before ++ (schemeSeparator.map .plain ++ (info ++ .plain '@' :: after)) ∧
    (∀ i ∈ info, inAuthority i = true) ∧ (∃ w, .hidden w ∈ info) ∧ ¬ Guarded info

theorem starts_items (ha : '[' ∉ a) : ∀ {is : List Item}, a <+: shown is → a.map .plain <+: is := by
  intro is
  induction is generalizing a with
  | nil =>
    intro h
    rw [shown_nil, List.prefix_nil] at h
    simp [h]
  | cons i is ih =>
    intro h
    cases a with
    | nil => exact List.nil_prefix
    | cons d a =>
      cases i with
      | plain c =>
        rw [shown_plain, cons_prefix_cons] at h
        rw [map_cons, h.1, cons_prefix_cons]
        exact ⟨rfl, ih (fun hm => ha (.tail _ hm)) h.2⟩
      | hidden w =>
        rw [shown_hidden, marker_cons, cons_append, cons_prefix_cons] at h
        rw [h.1] at ha
        cases ha (.head _)

theorem shown_eq_cons {c : Char} (hc : c ≠ '[') (h : shown is = c :: x) : ∃ js, is = .plain c :: js ∧ shown js = x := by
  have hone : '[' ∉ [c] := by simpa using Ne.symm hc
  have hstart : [c].map Item.plain <+: is := starts_items hone ⟨x, h.symm⟩
  obtain ⟨js, rfl⟩ := hstart
  exact ⟨js, rfl, (List.cons.inj h).2⟩

theorem markerOpen_starts_iff : markerOpen <+: shown is ↔ (∃ w t, is = .hidden w :: t) ∨ markerOpen.map .plain <+: is := by
  constructor
  · intro h
    cases is with
    | nil => exact absurd h (by decide)
    | cons i is =>
      cases i with
      | plain c =>
        rw [shown_plain, markerOpen, cons_prefix_cons] at h
        refine .inr ?_
        rw [markerOpen, map_cons, ← h.1, cons_prefix_cons]
        exact ⟨rfl, starts_items (by decide) h.2⟩
      | hidden w => exact .inl ⟨w, is, rfl⟩
  · rintro (⟨w, t, rfl⟩ | ⟨t, rfl⟩)
    · exact (markerOpen_starts_marker w).trans (List.prefix_append _ _)
    · exact List.prefix_append _ _

theorem colon_not_mem_hint (w : List Char) : ':' ∉ hint w ++ markerClose := by
  rw [mem_append]
  rintro (h | h)
  · exact absurd (isHintChar_hint h) (by decide)
  · exact absurd h (by decide)

theorem marker_colon (w : List Char) : marker w = markerOpen.dropLast ++ ':' :: (hint w ++ markerClose) := rfl

theorem hint_head {w : List Char} (h : Hideable w) : ∃ c t, hint w = c :: t ∧ c ≠ '/' ∧ c ≠ '[' := by
  obtain ⟨hsecret, -, hpath⟩ := h
  obtain ⟨c, t, rfl, hc, -⟩ := looksSecret_head hsecret
  refine ⟨c, (t.take 3).map (fun c => if isHintChar c then c else '_'), ?_, ?_, ?_⟩
  · rw [hint, List.take_succ_cons, map_cons, if_pos hc]
  · rintro rfl
    exact Bool.noConfusion hpath
  · rintro rfl
    cases hc

/-- A cut in what is shown falls between two items or inside a marker. -/
theorem shown_cut {z : List Char} (hshown : shown is = a ++ z) : (∃ ia iz, is = ia ++ iz ∧ shown ia = a ∧ shown iz = z) ∨
      ∃ w b e d rest, .hidden w ∈ is ∧ marker w = b ++ e :: d ∧ z = e :: d ++ rest := by
  induction is generalizing a with
  | nil =>
    obtain ⟨rfl, rfl⟩ := List.append_eq_nil_iff.1 hshown.symm
    exact .inl ⟨[], [], rfl, rfl, rfl⟩
  | cons i is ih =>
    have next {b : List Char} (hb : shown is = b ++ z) (hi : shown [i] ++ b = a) :
        (∃ ia iz, i :: is = ia ++ iz ∧ shown ia = a ∧ shown iz = z) ∨
          ∃ w b e d rest, .hidden w ∈ i :: is ∧ marker w = b ++ e :: d ∧ z = e :: d ++ rest := by
      obtain ⟨ia, iz, rfl, hia, hiz⟩ | ⟨w, b, e, d, rest, hw, hcut⟩ := ih hb
      · exact .inl ⟨i :: ia, iz, rfl, by rw [← List.singleton_append, shown_append, hia, hi], hiz⟩
      · exact .inr ⟨w, b, e, d, rest, .tail _ hw, hcut⟩
    rw [← List.singleton_append, shown_append] at hshown
    obtain ⟨d, rfl, hrest⟩ | ⟨d, hitem, hrest⟩ := List.append_eq_append_iff.1 hshown
    · exact next hrest rfl
    · cases d with
      | nil => exact next (b := []) hrest.symm (by rw [hitem, List.append_nil, List.append_nil])
      | cons e d =>
        cases i with
        | plain c =>
          cases a with
          | nil => exact .inl ⟨[], _, rfl, rfl, by rw [hrest, ← nil_append (e :: d), ← hitem]; rfl⟩
          | cons _ _ => simp at hitem
        | hidden w => exact .inr ⟨w, a, e, d, _, .head _, by simpa using hitem, hrest⟩

theorem shown_scheme (h : ∀ w, .hidden w ∈ is → Hideable w) (hshown : shown is = a ++ (schemeSeparator ++ x)) :
    ∃ ia ix, is = ia ++ (schemeSeparator.map .plain ++ ix) ∧ shown ia = a ∧ shown ix = x := by
  obtain ⟨ia, iz, rfl, hia, hiz⟩ | ⟨w, b, e, d, rest, hw, hmarker, hcut⟩ := shown_cut hshown
  · obtain ⟨_, rfl, hslashes⟩ := shown_eq_cons (by decide) hiz
    obtain ⟨_, rfl, hslash⟩ := shown_eq_cons (by decide) hslashes
    obtain ⟨ix, rfl, hix⟩ := shown_eq_cons (by decide) hslash
    exact ⟨ia, ix, rfl, hia, hix⟩
  · simp only [schemeSeparator, cons_append, nil_append, List.cons.injEq] at hcut
    obtain ⟨rfl, hslash⟩ := hcut
    rw [marker_colon, List.append_cons_inj_of_notMem (by decide) (colon_not_mem_hint w)] at hmarker
    obtain ⟨c, t, hhint, hc, -⟩ := hint_head (h w hw)
    rw [← hmarker.2.2, hhint, cons_append, cons_append, List.cons.injEq] at hslash
    cases hc hslash.1.symm

theorem at_not_mem_marker (w : List Char) : '@' ∉ marker w := by
  rw [marker, mem_append, mem_append]
  rintro (h | h | h)
  · exact absurd h (by decide)
  · exact absurd (isHintChar_hint h) (by decide)
  · exact absurd h (by decide)

theorem shown_at (hshown : shown is = a ++ '@' :: x) :
    ∃ ia ix, is = ia ++ .plain '@' :: ix ∧ shown ia = a ∧ shown ix = x := by
  obtain ⟨ia, iz, rfl, hia, hiz⟩ | ⟨w, b, e, d, rest, -, hmarker, hcut⟩ := shown_cut hshown
  · obtain ⟨ix, rfl, hix⟩ := shown_eq_cons (by decide) hiz
    exact ⟨ia, ix, rfl, hia, hix⟩
  · rw [cons_append, List.cons.injEq] at hcut
    refine absurd ?_ (at_not_mem_marker w)
    rw [hmarker, ← hcut.1]
    simp

theorem endsAuthority_hintChar {c : Char} (h : isHintChar c = true) (hend : endsAuthority c = true) : c = '/' := by
  by_contra hc
  simp only [endsAuthority, Bool.or_eq_true, beq_iff_eq] at hend
  rcases hend with (((((((((((((((h' | h') | h') | h') | h') | h') | h') | h') | h') | h') | h') | h') | h') | h') | h') | h') | h' <;>
    first | exact hc h' | (subst h'; exact absurd h (by decide))

theorem isInfo_marker_iff (w : List Char) : IsInfo (marker w) ↔ '/' ∉ hint w := by
  constructor
  · intro h hm
    have := (h '/' (List.mem_append_right _ (List.mem_append_left _ hm))).2
    cases this
  · intro h c hc
    refine ⟨?_, ?_⟩
    · rintro rfl
      exact at_not_mem_marker w hc
    · rw [marker, mem_append, mem_append] at hc
      obtain hc | hc | hc := hc
      · exact (isInfo_frame c (List.mem_append_left _ hc)).2
      · by_contra hend
        rw [Bool.not_eq_false] at hend
        exact h (endsAuthority_hintChar (isHintChar_hint hc) hend ▸ hc)
      · exact (isInfo_frame c (List.mem_append_right _ hc)).2

theorem isInfo_shown : ∀ {info : List Item}, IsInfo (shown info) ↔ ∀ i ∈ info, inAuthority i = true
  | [] => by simp [IsInfo]
  | .plain c :: info => by
    have ih : IsInfo (shown info) ↔ ∀ i ∈ info, inAuthority i = true := isInfo_shown
    rw [forall_mem_cons, ← ih, shown_plain, IsInfo, forall_mem_cons]
    simp [inAuthority, IsInfo]
  | .hidden w :: info => by
    have ih : IsInfo (shown info) ↔ ∀ i ∈ info, inAuthority i = true := isInfo_shown
    have hmarker := isInfo_marker_iff w
    rw [forall_mem_cons, ← ih, shown_hidden, IsInfo, List.forall_mem_append]
    simpa [inAuthority, IsInfo] using fun _ => hmarker

theorem exists_first_hidden : ∀ {info : List Item}, (∃ w, .hidden w ∈ info) →
    ∃ (user : List Char) (w : List Char) (t : List Item), info = user.map .plain ++ .hidden w :: t
  | [], h => by
    obtain ⟨w, hw⟩ := h
    cases hw
  | .hidden w :: info, _ => ⟨[], w, info, rfl⟩
  | .plain c :: info, h => by
    obtain ⟨w, hw⟩ := h
    obtain ⟨user, v, t, rfl⟩ := exists_first_hidden ⟨w, (List.mem_cons.1 hw).resolve_left (by simp)⟩
    exact ⟨c :: user, v, t, rfl⟩

theorem shown_eq_source : ∀ {is : List Item}, (∀ w, .hidden w ∉ is) → shown is = source is
  | [], _ => rfl
  | .plain c :: is, h => by
    rw [shown_plain, source_plain, shown_eq_source (fun w hw => h w (List.mem_cons_of_mem _ hw))]
  | .hidden w :: is, h => absurd (.head _) (h w)

theorem maskUserinfo_shown_iff (h : ∀ w, .hidden w ∈ info → Hideable w) (hw : ∃ w, .hidden w ∈ info) :
    maskUserinfo (shown info) = shown info ↔ Guarded info := by
  obtain ⟨user, w, t, rfl⟩ := exists_first_hidden hw
  constructor
  · intro hmask
    by_cases hc : ':' ∈ user
    · obtain ⟨u, v, rfl, hu⟩ := List.eq_append_cons_of_mem hc
      have hitems : (u ++ ':' :: v).map Item.plain ++ .hidden w :: t =
          u.map .plain ++ .plain ':' :: (v.map .plain ++ .hidden w :: t) := by simp
      rw [hitems] at hmask ⊢
      rw [shown_append, shown_map_plain, shown_plain, maskUserinfo_eq_self_iff hu] at hmask
      refine ⟨u, _, rfl, hu, markerOpen_starts_iff.1 (hmask.resolve_left ?_)⟩
      simp [marker_cons]
    · have hshown : shown (user.map Item.plain ++ .hidden w :: t) =
          (user ++ markerOpen.dropLast) ++ ':' :: (hint w ++ (markerClose ++ shown t)) := by
        rw [shown_append, shown_map_plain, shown_hidden, marker_colon]
        simp
      have hfront : ':' ∉ user ++ markerOpen.dropLast := by
        rw [mem_append, not_or]
        exact ⟨hc, by decide⟩
      rw [hshown, maskUserinfo_eq_self_iff hfront] at hmask
      obtain ⟨c, r, hhint, -, hc'⟩ := hint_head (h w (by simp))
      rw [hhint] at hmask
      obtain hmask | hmask := hmask
      · cases hmask
      · rw [markerOpen, cons_append, cons_prefix_cons] at hmask
        cases hc' hmask.1.symm
  · rintro ⟨u, _, hitems, hu, hpassword⟩
    rw [hitems, shown_append, shown_map_plain, shown_plain]
    exact maskUserinfo_kept hu (.inr (markerOpen_starts_iff.2 hpassword))

theorem settledUrls_scrub_iff (hl : SettledUrls l) : SettledUrls (scrubTokensInLine l) ↔ ¬ Exposed l := by
  have hhidden : ∀ w, .hidden w ∈ items l → Hideable w := fun w hw => hidden_items hw
  rw [← shown_items]
  constructor
  · rintro hsettled ⟨before, info, after, hitems, hinfo, hw, hguard⟩
    refine hguard ((maskUserinfo_shown_iff (fun w hw => hhidden w ?_) hw).1 ?_)
    · rw [hitems]
      simp [hw]
    · refine hsettled (shown before) (shown info) (shown after) ?_ (isInfo_shown.2 hinfo)
      rw [hitems]
      simp
  · intro hexposed a info rest hshown hinfo
    obtain ⟨ia, _, hitems, -, hix⟩ := shown_scheme hhidden hshown
    obtain ⟨ii, ir, rfl, rfl, -⟩ := shown_at hix
    by_cases hw : ∃ w, .hidden w ∈ ii
    · refine (maskUserinfo_shown_iff (fun w hw => hhidden w ?_) hw).2 ?_
      · rw [hitems]
        simp [hw]
      · by_contra hguard
        exact hexposed ⟨ia, ii, ir, hitems, isInfo_shown.1 hinfo, hw, hguard⟩
    · have hplain : shown ii = source ii := shown_eq_source (fun w hm => hw ⟨w, hm⟩)
      rw [hplain] at hinfo ⊢
      refine hl (source ia) (source ii) (source ir) ?_ hinfo
      rw [← source_items l, hitems]
      simp

/-! ## A second scrub -/

theorem shown_eq_source_of_front {p t : List Char} : ∀ {is : List Item}, (∀ w, .hidden w ∈ is → Hideable w) →
    shown is ++ t = source is ++ p → shown is = source is
  | [], _, _ => rfl
  | .plain c :: is, h, heq => by
    rw [shown_plain, source_plain] at heq ⊢
    rw [shown_eq_source_of_front (fun w hw => h w (List.mem_cons_of_mem _ hw)) (List.cons.inj heq).2]
  | .hidden w :: is, h, heq => by
    obtain ⟨hsecret, -, -⟩ := h w (.head _)
    obtain ⟨c, r, rfl, hc, -⟩ := looksSecret_head hsecret
    have hhead : '[' = c := (List.cons.inj heq).1
    rw [← hhead] at hc
    cases hc

/-- **A masked line** is left alone by a second mask exactly when no word is exposed in it. -/
theorem maskLine_maskLine_iff (l : List Char) :
    maskLine (maskLine l) = maskLine l ↔ ¬ Exposed (maskUrlCredentials l) := by
  have hsettled : SettledUrls (maskUrlCredentials l) :=
    (maskUrlCredentials_eq_self _).1 (maskUrlCredentials_twice l)
  rw [← settledUrls_scrub_iff hsettled, ← maskUrlCredentials_eq_self]
  constructor
  · intro htwice
    by_contra hurl
    obtain ⟨q, p, t, hq, hmasked, ht, hp⟩ := maskUrlCredentials_change _ hurl
    have hscan : scrubTokensInLine (q ++ t) = q ++ p := by
      rw [← hmasked, ← hq]
      exact htwice
    rw [← shown_items, items_append q (cut_marker ht), shown_append] at hscan
    have hfront : shown (items q) = source (items q) := by
      refine shown_eq_source_of_front (t := shown (items t)) (p := p) (fun w hw => hidden_items hw) ?_
      rw [source_items]
      exact hscan
    rw [hfront, source_items, shown_items] at hscan
    refine hp ?_
    rw [← List.append_cancel_left hscan]
    exact starts_marker_scrub ht
  · intro hurl
    have : maskUrlCredentials (maskLine l) = maskLine l := hurl
    rw [maskLine, this]
    exact scrub_of_clean (clean_scrub _)

/-- The lines the loop of `scrub` masks; the flag is `in_pem`. -/
def keptLines : Bool → List (List Char) → List (List Char)
  | _, [] => []
  | inPem, l :: ls =>
    if beginsKey l then keptLines true ls
    else if inPem then keptLines (!endsKey l) ls
    else l :: keptLines false ls

theorem maskLine_keyNotice : maskLine keyNotice = keyNotice := by decide +kernel

theorem beginsKey_keyNotice : beginsKey keyNotice = false := by rfl

theorem not_beginsKey_scrubLines : ∀ (ls : List (List Char)) (inPem : Bool), ∀ l ∈ scrubLines inPem ls, beginsKey l = false
  | [], _, l, h => by cases h
  | line :: ls, inPem, l, h => by
    rw [scrubLines] at h
    split at h
    · obtain rfl | h := List.mem_cons.1 h
      · exact beginsKey_keyNotice
      · exact not_beginsKey_scrubLines ls _ l h
    · rename_i hb
      split at h
      · exact not_beginsKey_scrubLines ls _ l h
      · obtain rfl | h := List.mem_cons.1 h
        · exact beginsKey_maskLine (by simpa using hb)
        · exact not_beginsKey_scrubLines ls _ l h

theorem scrubLines_of_no_begin : ∀ {ls : List (List Char)}, (∀ l ∈ ls, beginsKey l = false) →
    scrubLines false ls = ls.map maskLine
  | [], _ => rfl
  | l :: ls, h => by
    have hl := h l (.head _)
    rw [scrubLines, if_neg (by simp [hl]), if_neg (by simp),
      scrubLines_of_no_begin (fun l' hl' => h l' (.tail _ hl')), map_cons]

theorem forall_scrubLines : ∀ (ls : List (List Char)) (inPem : Bool),
    (∀ l ∈ scrubLines inPem ls, maskLine l = l) ↔ ∀ l ∈ keptLines inPem ls, maskLine (maskLine l) = maskLine l
  | [], _ => by simp [scrubLines, keptLines]
  | line :: ls, inPem => by
    rw [scrubLines, keptLines]
    split
    · rw [forall_mem_cons, forall_scrubLines ls true]
      simp [maskLine_keyNotice]
    · split
      · exact forall_scrubLines ls _
      · rw [forall_mem_cons, forall_mem_cons, forall_scrubLines ls false]

/-- **Scrubbing twice** is scrubbing once exactly when no line that is masked hides a word in the userinfo of a URL other
than as its password. -/
theorem scrub_scrub_iff (s : List Char) : scrub (scrub s) = scrub s ↔
    ∀ l ∈ keptLines false (splitInclusive s), ¬ Exposed (maskUrlCredentials l) := by
  have hlined := lined_scrubLines false (lined_splitInclusive s)
  have hagain : scrub (scrub s) = ((scrubLines false (splitInclusive s)).map maskLine).flatten := by
    rw [scrub, scrub, splitInclusive_flatten hlined, scrubLines_of_no_begin (not_beginsKey_scrubLines _ _)]
  have hlined' : Lined ((scrubLines false (splitInclusive s)).map maskLine) := by
    rw [← scrubLines_of_no_begin (not_beginsKey_scrubLines _ _)]
    exact lined_scrubLines false hlined
  have hlines : scrub (scrub s) = scrub s ↔ ∀ l ∈ scrubLines false (splitInclusive s), maskLine l = l := by
    rw [hagain, scrub]
    constructor
    · intro h l hl
      have hmap := flatten_inj hlined' hlined h
      exact List.map_eq_map_iff.1 (hmap.trans (List.map_id _).symm) l hl
    · intro h
      rw [List.map_congr_left h, List.map_id']
  rw [hlines, forall_scrubLines]
  exact forall₂_congr (fun l _ => maskLine_maskLine_iff l)

/-- A secret user of a URL with a password is read again as a password. -/
theorem scrub_scrub_secret_user : scrub (scrub "http://sk-ant-x:pw@host".toList) ≠ scrub "http://sk-ant-x:pw@host".toList := by
  rw [String.toList_ofList]
  decide +kernel

end Iteron.Redact
