import Iteron.RedactItems
/-!
# RedactUrl — the passwords of URLs

Every authority of a line is read once, and one with a userinfo is settled when its password is empty or already masked.
The line is left alone exactly when all its userinfos are settled (`maskUrlCredentials_eq_self`).
-/
namespace Iteron.Redact
open Search
open List (append_assoc append_cancel_left cons_append nil_append prefix_append)

variable {c : Char} {line rest tail before info a b : List Char}

/-! ## Authorities -/

/-- A text that can stand before the `@` of an authority. -/
def IsInfo (info : List Char) : Prop := ∀ c ∈ info, c ≠ '@' ∧ endsAuthority c = false

theorem userinfo_of_isInfo : ∀ {info : List Char}, IsInfo info → userinfo (info ++ '@' :: rest) = some (info, rest)
  | [], _ => by simp [userinfo]
  | c :: info, h => by
    obtain ⟨hat, hend⟩ := h c (.head _)
    have ih : userinfo (info ++ '@' :: rest) = some (info, rest) :=
      userinfo_of_isInfo (fun d hd => h d (.tail _ hd))
    rw [cons_append, userinfo, if_neg hat, if_neg (by simp [hend]), ih]
    rfl

theorem userinfo_some : ∀ {tail info rest : List Char}, userinfo tail = some (info, rest) →
    tail = info ++ '@' :: rest ∧ IsInfo info
  | [], _, _, h => by cases h
  | c :: tail, info, rest, h => by
    rw [userinfo] at h
    split at h <;> rename_i hat
    · cases h
      exact ⟨by rw [hat]; rfl, by simp [IsInfo]⟩
    · split at h
      · cases h
      · rename_i hend
        obtain ⟨⟨i, r⟩, hi, heq⟩ := Option.map_eq_some_iff.1 h
        cases heq
        obtain ⟨rfl, hinfo⟩ := userinfo_some hi
        refine ⟨rfl, fun d hd => ?_⟩
        obtain rfl | hd := List.mem_cons.1 hd
        · exact ⟨hat, by simpa using hend⟩
        · exact hinfo d hd

/-! ## Laws of the loop -/

theorem maskUrlCredentials_none (h : splitFirst schemeSeparator line = none) : maskUrlCredentials line = line := by
  rw [maskUrlCredentials]
  split
  · rfl
  · rename_i heq
    rw [h] at heq
    cases heq

theorem splitFirst_scheme (h : FreeBefore schemeSeparator before (schemeSeparator ++ tail)) :
    splitFirst schemeSeparator (before ++ (schemeSeparator ++ tail)) = some (before, schemeSeparator ++ tail) := by
  rw [splitFirst_append h, splitFirst_of_starts (prefix_append _ _)]
  simp

theorem maskUrlCredentials_bare (h : FreeBefore schemeSeparator before (schemeSeparator ++ tail))
    (hinfo : userinfo tail = none) :
    maskUrlCredentials (before ++ (schemeSeparator ++ tail)) = before ++ (schemeSeparator ++ maskUrlCredentials tail) := by
  rw [maskUrlCredentials]
  split <;> rename_i heq
  · rw [splitFirst_scheme h] at heq
    cases heq
  · rw [splitFirst_scheme h] at heq
    cases heq
    rw [List.drop_left, append_assoc]
    split
    · rfl
    · rename_i heq
      rw [hinfo] at heq
      cases heq

theorem maskUrlCredentials_info (h : FreeBefore schemeSeparator before (schemeSeparator ++ (info ++ '@' :: rest)))
    (hinfo : IsInfo info) : maskUrlCredentials (before ++ (schemeSeparator ++ (info ++ '@' :: rest))) =
      before ++ (schemeSeparator ++ (maskUserinfo info ++ '@' :: maskUrlCredentials rest)) := by
  rw [maskUrlCredentials]
  split <;> rename_i heq
  · rw [splitFirst_scheme h] at heq
    cases heq
  · rw [splitFirst_scheme h] at heq
    cases heq
    rw [List.drop_left, append_assoc]
    split <;> rename_i heq
    · rw [userinfo_of_isInfo hinfo] at heq
      cases heq
    · rw [userinfo_of_isInfo hinfo] at heq
      cases heq
      rfl

/-- **Every line is read this way**: the cases of an argument about the passwords. -/
theorem url_induction {motive : List Char → Prop}
    (plain : ∀ line, ¬ schemeSeparator <:+: line → maskUrlCredentials line = line → motive line)
    (bare : ∀ before tail, FreeBefore schemeSeparator before (schemeSeparator ++ tail) → userinfo tail = none →
      motive tail → motive (before ++ (schemeSeparator ++ tail)))
    (info : ∀ before info rest, FreeBefore schemeSeparator before (schemeSeparator ++ (info ++ '@' :: rest)) →
      IsInfo info → motive rest → motive (before ++ (schemeSeparator ++ (info ++ '@' :: rest))))
    (line : List Char) : motive line := by
  induction hn : line.length using Nat.strong_induction_on generalizing line with
  | h n ih =>
    have shorter (t : List Char) (ht : t.length < line.length) : motive t := ih t.length (by omega) t rfl
    cases hs : splitFirst schemeSeparator line with
    | none => exact plain line (splitFirst_none hs) (maskUrlCredentials_none hs)
    | some p =>
      obtain ⟨before, _⟩ := p
      obtain ⟨rfl, ⟨tail, rfl⟩, hfree⟩ := splitFirst_some hs
      cases hi : userinfo tail with
      | none => exact bare before tail hfree hi (shorter tail (by simp [schemeSeparator]; omega))
      | some q =>
        obtain ⟨i, rest⟩ := q
        obtain ⟨rfl, hinfo⟩ := userinfo_some hi
        exact info before i rest hfree hinfo (shorter rest (by simp [schemeSeparator]; omega))

/-! ## One userinfo -/

theorem maskUserinfo_of_no_colon (h : ':' ∉ info) : maskUserinfo info = info := by
  have hs : splitFirst [':'] info = none := by
    cases hs : splitFirst [':'] info with
    | none => rfl
    | some p =>
      obtain ⟨hinfo, hstart, -⟩ := splitFirst_some hs
      refine absurd ?_ h
      rw [hinfo]
      exact List.mem_append_right _ (hstart.subset (.head _))
  rw [maskUserinfo, hs]

theorem splitFirst_colon (h : ':' ∉ a) : splitFirst [':'] (a ++ ':' :: b) = some (a, ':' :: b) := by
  have hfree : FreeBefore [':'] a (':' :: b) := by
    intro x y hxy hy hstart
    cases y with
    | nil => exact hy rfl
    | cons d y =>
      rw [cons_append, List.cons_prefix_cons] at hstart
      refine h ?_
      rw [hxy, hstart.1]
      simp
  rw [splitFirst_append hfree, splitFirst_of_starts (by simp)]
  simp

theorem maskUserinfo_kept (h : ':' ∉ a) (hb : b = [] ∨ markerOpen <+: b) : maskUserinfo (a ++ ':' :: b) = a ++ ':' :: b := by
  rw [maskUserinfo, splitFirst_colon h]
  refine if_neg ?_
  simp only [Bool.and_eq_true, Bool.not_eq_true', List.isEmpty_eq_false_iff, not_and, Bool.not_eq_false,
    List.isPrefixOf_iff_prefix]
  exact fun hne => hb.resolve_left hne

theorem maskUserinfo_masked (h : ':' ∉ a) (hb : ¬ (b = [] ∨ markerOpen <+: b)) :
    maskUserinfo (a ++ ':' :: b) = a ++ ':' :: marker b := by
  rw [not_or] at hb
  rw [maskUserinfo, splitFirst_colon h]
  refine if_pos ?_
  simp only [Bool.and_eq_true, Bool.not_eq_true', List.isEmpty_eq_false_iff]
  refine ⟨hb.1, ?_⟩
  rw [Bool.eq_false_iff, Ne, List.isPrefixOf_iff_prefix]
  exact hb.2

theorem markerOpen_starts_marker (b : List Char) : markerOpen <+: marker b := prefix_append _ _

theorem maskUserinfo_cases (info : List Char) : maskUserinfo info = info ∨
    ∃ a b, info = a ++ ':' :: b ∧ ':' ∉ a ∧ b ≠ [] ∧ ¬ markerOpen <+: b ∧ maskUserinfo info = a ++ ':' :: marker b := by
  by_cases hc : ':' ∈ info
  · obtain ⟨a, b, rfl, ha⟩ := List.eq_append_cons_of_mem hc
    by_cases hb : b = [] ∨ markerOpen <+: b
    · exact .inl (maskUserinfo_kept ha hb)
    · have hmask := maskUserinfo_masked ha hb
      rw [not_or] at hb
      exact .inr ⟨a, b, rfl, ha, hb.1, hb.2, hmask⟩
  · exact .inl (maskUserinfo_of_no_colon hc)

theorem maskUserinfo_eq_self_iff (ha : ':' ∉ a) : maskUserinfo (a ++ ':' :: b) = a ++ ':' :: b ↔ b = [] ∨ markerOpen <+: b := by
  constructor
  · intro h
    by_contra hb
    rw [maskUserinfo_masked ha hb] at h
    refine hb (.inr ?_)
    have := append_cancel_left h
    rw [List.cons.injEq] at this
    rw [← this.2]
    exact markerOpen_starts_marker b
  · exact maskUserinfo_kept ha

theorem maskUserinfo_twice (info : List Char) : maskUserinfo (maskUserinfo info) = maskUserinfo info := by
  obtain h | ⟨a, b, -, ha, -, -, h⟩ := maskUserinfo_cases info
  · rw [h, h]
  · rw [h]
    exact maskUserinfo_kept ha (.inr (markerOpen_starts_marker b))

theorem isInfo_frame : IsInfo (markerOpen ++ markerClose) := List.all_iff_forall_prop.1 (by decide)

theorem isInfo_marker (h : IsInfo b) : IsInfo (marker b) := by
  intro c hc
  rw [marker, List.mem_append, List.mem_append] at hc
  obtain hc | hc | hc := hc
  · exact isInfo_frame c (List.mem_append_left _ hc)
  · obtain ⟨d, hd, rfl⟩ := List.mem_map.1 hc
    split
    · exact h d (List.mem_of_mem_take hd)
    · decide
  · exact isInfo_frame c (List.mem_append_right _ hc)

theorem isInfo_maskUserinfo (h : IsInfo info) : IsInfo (maskUserinfo info) := by
  obtain heq | ⟨a, b, rfl, -, -, -, heq⟩ := maskUserinfo_cases info
  · rwa [heq]
  · rw [heq]
    intro c hc
    obtain hc | hc := List.mem_append.1 hc
    · exact h c (List.mem_append_left _ hc)
    · obtain rfl | hc := List.mem_cons.1 hc
      · exact h ':' (by simp)
      · exact isInfo_marker (fun d hd => h d (by simp [hd])) c hc

/-! ## Every authority of a line -/

theorem userinfo_slash_none (x y : List Char) : ∀ {p : List Char}, userinfo (p ++ '/' :: x) = none →
    userinfo (p ++ '/' :: y) = none
  | [], _ => by
    rw [nil_append, userinfo, if_neg (by decide), if_pos (by decide)]
  | c :: p, h => by
    rw [cons_append, userinfo] at h ⊢
    split at h
    · cases h
    · rename_i hat
      rw [if_neg hat]
      split at h <;> rename_i hend
      · rw [if_pos hend]
      · rw [if_neg hend]
        exact Option.map_eq_none_iff.2 (userinfo_slash_none x y (Option.map_eq_none_iff.1 h))

theorem maskUrlCredentials_front (line : List Char) : maskUrlCredentials line = line ∨
    ∃ p x y, line = p ++ '/' :: x ∧ maskUrlCredentials line = p ++ '/' :: y := by
  have hslash (before x : List Char) : before ++ (schemeSeparator ++ x) = (before ++ [':']) ++ '/' :: ('/' :: x) := by
    simp [schemeSeparator]
  induction line using url_induction with
  | plain line _ h => exact .inl h
  | bare before _ hfree hinfo =>
    rw [maskUrlCredentials_bare hfree hinfo]
    exact .inr ⟨_, _, _, hslash _ _, hslash _ _⟩
  | info before info _ hfree hinfo =>
    rw [maskUrlCredentials_info hfree hinfo]
    exact .inr ⟨_, _, _, hslash _ _, hslash _ _⟩

theorem userinfo_maskUrlCredentials (h : userinfo tail = none) : userinfo (maskUrlCredentials tail) = none := by
  obtain heq | ⟨p, x, y, rfl, heq⟩ := maskUrlCredentials_front tail
  · rwa [heq]
  · rw [heq]
    exact userinfo_slash_none x y h

theorem maskUrlCredentials_twice (line : List Char) :
    maskUrlCredentials (maskUrlCredentials line) = maskUrlCredentials line := by
  induction line using url_induction with
  | plain line _ h => rw [h, h]
  | bare before _ hfree hinfo ih =>
    rw [maskUrlCredentials_bare hfree hinfo,
      maskUrlCredentials_bare (freeBefore_congr hfree) (userinfo_maskUrlCredentials hinfo), ih]
  | info before info _ hfree hinfo ih =>
    rw [maskUrlCredentials_info hfree hinfo, maskUrlCredentials_info (freeBefore_congr hfree) (isInfo_maskUserinfo hinfo),
      maskUserinfo_twice, ih]

variable {x : List Char}

theorem scheme_cases (hfree : FreeBefore schemeSeparator before (schemeSeparator ++ tail))
    (h : before ++ (schemeSeparator ++ tail) = a ++ (schemeSeparator ++ x)) :
    (a = before ∧ x = tail) ∨ ∃ a', a = before ++ (schemeSeparator ++ a') ∧ tail = a' ++ (schemeSeparator ++ x) := by
  obtain ⟨d, rfl, hd⟩ | ⟨d, rfl, hd⟩ := List.append_eq_append_iff.1 h
  · rcases d with _ | ⟨c, _ | ⟨d, _ | ⟨e, f⟩⟩⟩
    · exact .inl ⟨by simp, (append_cancel_left hd).symm⟩
    · simp [schemeSeparator] at hd
    · simp [schemeSeparator] at hd
    · obtain ⟨rfl, rfl, rfl, rfl⟩ := hd
      exact .inr ⟨f, rfl, rfl⟩
  · by_cases hne : d = []
    · subst hne
      exact .inl ⟨by simp, append_cancel_left hd⟩
    · refine absurd ?_ (hfree a d rfl hne)
      rw [← hd]
      exact prefix_append _ _

theorem scheme_after_info : ∀ {info a : List Char}, IsInfo info →
    info ++ '@' :: rest = a ++ (schemeSeparator ++ x) → ∃ a', a = info ++ '@' :: a' ∧ rest = a' ++ (schemeSeparator ++ x)
  | [], [], _, h => by simp [schemeSeparator] at h
  | [], d :: a, _, h => by
    rw [nil_append, cons_append, List.cons.injEq] at h
    exact ⟨a, by rw [← h.1]; rfl, h.2⟩
  | [c], [], _, h => by simp [schemeSeparator] at h
  | c :: d :: info, [], hinfo, h => by
    simp only [schemeSeparator, cons_append, nil_append, List.cons.injEq] at h
    have := (hinfo d (by simp)).2
    rw [h.2.1] at this
    cases this
  | c :: info, d :: a, hinfo, h => by
    rw [cons_append, cons_append, List.cons.injEq] at h
    obtain ⟨a', rfl, hrest⟩ := scheme_after_info (fun e he => hinfo e (.tail _ he)) h.2
    exact ⟨a', by rw [h.1]; rfl, hrest⟩

theorem info_inj {info' rest' : List Char} (h : IsInfo info) (h' : IsInfo info')
    (heq : info' ++ '@' :: rest' = info ++ '@' :: rest) : info' = info ∧ rest' = rest := by
  have hsome : userinfo (info' ++ '@' :: rest') = some (info', rest') := userinfo_of_isInfo h'
  rw [heq, userinfo_of_isInfo h] at hsome
  cases hsome
  exact ⟨rfl, rfl⟩

def SettledUrls (line : List Char) : Prop :=
  ∀ a info rest, line = a ++ (schemeSeparator ++ (info ++ '@' :: rest)) → IsInfo info → maskUserinfo info = info

theorem settledUrls_bare (hfree : FreeBefore schemeSeparator before (schemeSeparator ++ tail)) (hinfo : userinfo tail = none) :
    SettledUrls (before ++ (schemeSeparator ++ tail)) ↔ SettledUrls tail := by
  constructor
  · intro h a info rest htail
    refine h (before ++ (schemeSeparator ++ a)) info rest ?_
    rw [htail]
    simp
  · intro h a info rest hline hi
    obtain ⟨-, rfl⟩ | ⟨a', -, htail⟩ := scheme_cases hfree hline
    · rw [userinfo_of_isInfo hi] at hinfo
      cases hinfo
    · exact h a' info rest htail hi

theorem settledUrls_info (hfree : FreeBefore schemeSeparator before (schemeSeparator ++ (info ++ '@' :: rest)))
    (hinfo : IsInfo info) : SettledUrls (before ++ (schemeSeparator ++ (info ++ '@' :: rest))) ↔
      maskUserinfo info = info ∧ SettledUrls rest := by
  constructor
  · intro h
    refine ⟨h before info rest rfl hinfo, fun a i r hrest => h (before ++ (schemeSeparator ++ (info ++ '@' :: a))) i r ?_⟩
    rw [hrest]
    simp
  · rintro ⟨hfirst, hrest⟩ a i r hline hi
    obtain ⟨-, heq⟩ | ⟨_, -, htail⟩ := scheme_cases hfree hline
    · obtain ⟨rfl, -⟩ := info_inj hinfo hi heq
      exact hfirst
    · obtain ⟨a'', -, hrest'⟩ := scheme_after_info hinfo htail
      exact hrest a'' i r hrest' hi

theorem maskUrlCredentials_eq_self (line : List Char) : maskUrlCredentials line = line ↔ SettledUrls line := by
  induction line using url_induction with
  | plain line hnone h =>
    refine ⟨fun _ a info rest hline _ => absurd ⟨a, info ++ '@' :: rest, ?_⟩ hnone, fun _ => h⟩
    rw [hline, append_assoc]
  | bare before _ hfree hinfo ih =>
    rw [maskUrlCredentials_bare hfree hinfo, settledUrls_bare hfree hinfo, ← ih]
    simp
  | info before info rest hfree hinfo ih =>
    rw [maskUrlCredentials_info hfree hinfo, settledUrls_info hfree hinfo, ← ih]
    constructor
    · intro h
      exact info_inj hinfo (isInfo_maskUserinfo hinfo) (append_cancel_left (append_cancel_left h))
    · rintro ⟨hfirst, hrest⟩
      rw [hfirst, hrest]

theorem maskUrlCredentials_change (line : List Char) (h : maskUrlCredentials line ≠ line) :
    ∃ q p t, line = q ++ p ∧ maskUrlCredentials line = q ++ t ∧ markerOpen <+: t ∧ ¬ markerOpen <+: p := by
  induction line using url_induction with
  | plain line _ hline => cases h hline
  | bare before _ hfree hinfo ih =>
    rw [maskUrlCredentials_bare hfree hinfo] at h ⊢
    obtain ⟨q, p, t, htail, hmasked, ht, hp⟩ := ih (fun heq => h (by rw [heq]))
    refine ⟨before ++ (schemeSeparator ++ q), p, t, ?_, ?_, ht, hp⟩
    · rw [htail]
      simp
    · rw [hmasked]
      simp
  | info before info rest hfree hinfo ih =>
    rw [maskUrlCredentials_info hfree hinfo] at h ⊢
    obtain heq | ⟨a, b, rfl, -, -, hopen, heq⟩ := maskUserinfo_cases info
    · rw [heq] at h ⊢
      obtain ⟨q, p, t, hrest, hmasked, ht, hp⟩ := ih (fun heq => h (by rw [heq]))
      refine ⟨before ++ (schemeSeparator ++ (info ++ '@' :: q)), p, t, ?_, ?_, ht, hp⟩
      · rw [hrest]
        simp
      · rw [hmasked]
        simp
    · rw [heq]
      refine ⟨before ++ (schemeSeparator ++ (a ++ [':'])), b ++ '@' :: rest, marker b ++ '@' :: maskUrlCredentials rest,
        by simp, by simp, (markerOpen_starts_marker b).trans (prefix_append _ _), fun hp => ?_⟩
      obtain hin | hlong := List.prefix_or_prefix_of_prefix hp (prefix_append (b ++ ['@']) rest |>.trans (by simp))
      · obtain hin | hin := List.prefix_concat_iff.1 hin
        · have : '@' ∈ markerOpen := by rw [hin]; simp
          exact absurd this (by decide)
        · exact hopen hin
      · have : '@' ∈ markerOpen := hlong.subset (by simp)
        exact absurd this (by decide)

end Iteron.Redact
