import Mathlib.Data.List.Infix
/-!
# Search — where a pattern first stands in a list

The first occurrence of a pattern cuts a list in what stands before it and what starts with it.
-/
namespace Iteron.Search

variable {α : Type} {pat xs before rest : List α}

/-- No occurrence of the pattern starts in the first list where it is followed by the second. -/
def FreeBefore (pat before rest : List α) : Prop := ∀ a b, before = a ++ b → b ≠ [] → ¬ pat <+: b ++ rest

theorem freeBefore_nil : FreeBefore pat [] rest := by
  intro a b h hb
  exact absurd (List.append_eq_nil_iff.1 h.symm).2 hb

variable {x : α}

theorem freeBefore_cons : FreeBefore pat (x :: before) rest ↔
    ¬ pat <+: x :: (before ++ rest) ∧ FreeBefore pat before rest := by
  constructor
  · intro h
    refine ⟨h [] (x :: before) rfl (by simp), fun a b hab hb => h (x :: a) b (by rw [hab]; rfl) hb⟩
  · rintro ⟨hhead, htail⟩ a b hab hb
    cases a with
    | nil =>
      rw [List.nil_append] at hab
      rw [← hab]
      exact hhead
    | cons y a =>
      cases hab
      exact htail a b rfl hb

theorem freeBefore_append {t : List α} (h : FreeBefore pat before rest) (ht : ∀ d r, t = d :: r → d ∉ pat.tail) :
    FreeBefore pat before (rest ++ t) := by
  intro a b hab hb hpat
  rw [← List.append_assoc] at hpat
  obtain hin | ⟨cut, hcut⟩ := List.prefix_or_prefix_of_prefix hpat (List.prefix_append (b ++ rest) t)
  · exact h a b hab hb hin
  · rw [← hcut, List.prefix_append_right_inj] at hpat
    cases cut with
    | nil => exact h a b hab hb (by rw [← hcut, List.append_nil])
    | cons d cut =>
      obtain ⟨r, rfl⟩ := hpat
      refine ht d (cut ++ r) rfl ?_
      rw [← hcut]
      cases b with
      | nil => cases hb rfl
      | cons x b => simp

theorem freeBefore_congr {rest' : List α} (h : FreeBefore pat before (pat ++ rest)) :
    FreeBefore pat before (pat ++ rest') := by
  intro a b hab hb hpat
  refine h a b hab hb ?_
  rw [← List.append_assoc] at hpat ⊢
  have hshort : pat <+: b ++ pat := by
    refine List.prefix_of_prefix_length_le hpat (List.prefix_append _ _) ?_
    rw [List.length_append]
    omega
  exact hshort.trans (List.prefix_append _ _)

theorem infix_append_cons (hx : x ∉ pat) (h : pat <:+: before ++ x :: rest) : pat <:+: before ∨ pat <:+: rest := by
  obtain ⟨s, t, h⟩ := h
  obtain ⟨d, hbefore, -⟩ | ⟨d, hd, ht⟩ := List.append_eq_append_iff.1 h
  · exact .inl ⟨s, d, hbefore.symm⟩
  · cases d with
    | nil => exact .inl ⟨s, [], by rw [List.append_nil, hd, List.append_nil]⟩
    | cons y d =>
      cases ht
      obtain ⟨e, -, hpat⟩ | ⟨e, -, hpat⟩ := List.append_eq_append_iff.1 hd
      · cases hx (by simp [hpat])
      · cases e with
        | nil =>
          rw [List.nil_append] at hpat
          cases hx (by rw [← hpat]; exact .head _)
        | cons z e =>
          cases hpat
          exact .inr ⟨e, t, rfl⟩

theorem freeBefore_self {c : α} {tail : List α} (hc : c ∉ tail) (h : ¬ c :: tail <:+: before) :
    FreeBefore (c :: tail) before (c :: tail ++ rest) := by
  intro a b hab hb hpat
  obtain hin | ⟨cut, hcut⟩ := List.prefix_or_prefix_of_prefix hpat (List.prefix_append b _)
  · refine h ?_
    rw [hab]
    exact hin.isInfix.trans (List.infix_append a b [] |>.trans (by rw [List.append_nil]))
  · rw [← hcut, List.prefix_append_right_inj] at hpat
    cases cut with
    | nil =>
      refine h ⟨a, [], ?_⟩
      rw [hab, ← hcut, List.append_nil, List.append_nil]
    | cons d cut =>
      rw [hcut, List.cons_append, List.cons_prefix_cons] at hpat
      cases b with
      | nil => cases hb rfl
      | cons x b =>
        obtain ⟨-, htail⟩ := List.cons.inj hcut
        refine hc ?_
        rw [← htail, hpat.1]
        simp

variable [DecidableEq α]

/-- What stands before the first occurrence of the pattern, and what starts with it. -/
def splitFirst (pat : List α) : List α → Option (List α × List α)
  | [] => if pat = [] then some ([], []) else none
  | x :: xs =>
    if pat.isPrefixOf (x :: xs) then some ([], x :: xs) else (splitFirst pat xs).map (fun p => (x :: p.1, p.2))

theorem splitFirst_of_starts (h : pat <+: xs) : splitFirst pat xs = some ([], xs) := by
  cases xs with
  | nil =>
    rw [List.prefix_nil] at h
    simp [splitFirst, h]
  | cons x xs => rw [splitFirst, if_pos (List.isPrefixOf_iff_prefix.2 h)]

theorem splitFirst_cons (h : ¬ pat <+: x :: xs) :
    splitFirst pat (x :: xs) = (splitFirst pat xs).map (fun p => (x :: p.1, p.2)) := by
  rw [splitFirst, if_neg (fun hp => h (List.isPrefixOf_iff_prefix.1 hp))]

theorem splitFirst_append : ∀ {before : List α}, FreeBefore pat before rest →
    splitFirst pat (before ++ rest) = (splitFirst pat rest).map (fun p => (before ++ p.1, p.2))
  | [], _ => by simp
  | x :: before, h => by
    obtain ⟨hhead, htail⟩ := freeBefore_cons.1 h
    rw [List.cons_append, splitFirst_cons hhead, splitFirst_append htail, Option.map_map]
    rfl

theorem splitFirst_some : ∀ {xs before rest : List α}, splitFirst pat xs = some (before, rest) →
    xs = before ++ rest ∧ pat <+: rest ∧ FreeBefore pat before rest
  | [], _, _, h => by
    rw [splitFirst] at h
    split at h
    · rename_i hp
      cases h
      exact ⟨rfl, by rw [hp], freeBefore_nil⟩
    · cases h
  | x :: xs, _, _, h => by
    by_cases hx : pat <+: x :: xs
    · rw [splitFirst_of_starts hx] at h
      cases h
      exact ⟨rfl, hx, freeBefore_nil⟩
    · rw [splitFirst_cons hx] at h
      obtain ⟨⟨b, r⟩, hsplit, heq⟩ := Option.map_eq_some_iff.1 h
      cases heq
      obtain ⟨rfl, hpat, hfree⟩ := splitFirst_some hsplit
      exact ⟨rfl, hpat, freeBefore_cons.2 ⟨hx, hfree⟩⟩

theorem splitFirst_length (h : splitFirst pat xs = some (before, rest)) : before.length + rest.length = xs.length := by
  rw [(splitFirst_some h).1, List.length_append]

theorem splitFirst_le {u v : List α} (h : splitFirst pat (u ++ (pat ++ v)) = some (before, rest)) :
    before.length ≤ u.length := by
  obtain ⟨hsplit, -, hfree⟩ := splitFirst_some h
  obtain ⟨a, hbefore, hrest⟩ | ⟨a, hu, -⟩ := List.append_eq_append_iff.1 hsplit
  · by_cases ha : a = []
    · rw [hbefore, ha, List.append_nil]
    · refine absurd ?_ (hfree u a hbefore ha)
      rw [← hrest]
      exact List.prefix_append pat v
  · rw [hu, List.length_append]
    omega

theorem splitFirst_none : ∀ {xs : List α}, splitFirst pat xs = none → ¬ pat <:+: xs
  | [], h => by
    rw [splitFirst] at h
    split at h
    · cases h
    · rwa [List.infix_nil]
  | x :: xs, h => by
    by_cases hx : pat <+: x :: xs
    · rw [splitFirst_of_starts hx] at h
      cases h
    · rw [splitFirst_cons hx, Option.map_eq_none_iff] at h
      rw [List.infix_cons_iff]
      rintro (hp | hp)
      · exact hx hp
      · exact splitFirst_none h hp

end Iteron.Search
