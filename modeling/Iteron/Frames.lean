import Mathlib.Data.List.Infix
/-!
# Frames — a stream cut at its separators

A cutter finds the first separator of a stream.  Where the stream goes on does not move a separator that was found, so
the blocks of a stream are those of its first part and those of the rest with what follows.  A reader of chunks refuses a
block, or a rest, that is longer than a bound.
-/
namespace Iteron.Frames

open List (append_assoc append_nil length_drop length_take_of_le nil_append take_append_drop)

variable {α F : Type}

/-- Where the first block ends and how long its separator is. -/
structure Cutter (α : Type) where
  find : List α → Option (Nat × Nat)
  inside : ∀ {bytes i n}, find bytes = some (i, n) → 0 < n ∧ i + n ≤ bytes.length
  stable : ∀ {bytes i n}, find bytes = some (i, n) → ∀ more, find (bytes.take (i + n) ++ more) = some (i, n)

namespace Cutter

variable (c : Cutter α)

theorem length_drop_lt {bytes : List α} {i n : Nat} (h : c.find bytes = some (i, n)) :
    (bytes.drop (i + n)).length < bytes.length := by
  obtain ⟨_, _⟩ := c.inside h
  rw [length_drop]
  omega

/-- The blocks with the lengths of their separators, and the rest. -/
def split (bytes : List α) : List (List α × Nat) × List α :=
  match _hfind : c.find bytes with
  | none => ([], bytes)
  | some (i, n) =>
    let r := split (bytes.drop (i + n))
    ((bytes.take i, n) :: r.1, r.2)
termination_by bytes.length
decreasing_by exact c.length_drop_lt (by assumption)

variable {c} {bytes more : List α} {i n : Nat}

theorem split_none (h : c.find bytes = none) : c.split bytes = ([], bytes) := by
  rw [split]
  split
  · rfl
  · rename_i hsome
    rw [h] at hsome
    cases hsome

theorem split_some (h : c.find bytes = some (i, n)) :
    c.split bytes = ((bytes.take i, n) :: (c.split (bytes.drop (i + n))).1, (c.split (bytes.drop (i + n))).2) := by
  rw [split]
  split
  · rename_i hnone
    rw [h] at hnone
    cases hnone
  · rename_i i' n' hsome
    rw [h] at hsome
    cases hsome
    rfl

theorem split_induction {P : List α → Prop} (none : ∀ bytes, c.find bytes = none → P bytes)
    (some : ∀ bytes i n, c.find bytes = some (i, n) → P (bytes.drop (i + n)) → P bytes) (bytes : List α) : P bytes := by
  induction hlength : bytes.length using Nat.strongRecOn generalizing bytes with
  | _ _ ih =>
    cases hfind : c.find bytes with
    | none => exact none bytes hfind
    | some p => exact some bytes p.1 p.2 hfind (ih _ (hlength ▸ c.length_drop_lt hfind) _ rfl)

theorem find_append (h : c.find bytes = some (i, n)) (more : List α) : c.find (bytes ++ more) = some (i, n) := by
  have hmore := c.stable h (bytes.drop (i + n) ++ more)
  rwa [← append_assoc, take_append_drop] at hmore

theorem find_rest (bytes : List α) : c.find (c.split bytes).2 = none := by
  induction bytes using c.split_induction with
  | none bytes h =>
    rw [split_none h]
    exact h
  | some bytes i n h ih =>
    rw [split_some h]
    exact ih

/-- **The blocks of a longer stream** are those of its first part, and those of the rest with what follows. -/
theorem split_append (bytes more : List α) :
    c.split (bytes ++ more) = ((c.split bytes).1 ++ (c.split ((c.split bytes).2 ++ more)).1,
      (c.split ((c.split bytes).2 ++ more)).2) := by
  induction bytes using c.split_induction with
  | none bytes h => rw [split_none h, nil_append]
  | some bytes i n h ih =>
    have hle := (c.inside h).2
    have hdrop : (bytes ++ more).drop (i + n) = bytes.drop (i + n) ++ more := List.drop_append_of_le_length hle
    have htake : (bytes ++ more).take i = bytes.take i := List.take_append_of_le_length (by omega)
    rw [split_some (find_append h more), hdrop, htake, ih, split_some h]
    rfl

theorem length_lt_of_find (hrest : c.find bytes = none) (h : c.find (bytes ++ more) = some (i, n)) :
    bytes.length < i + n := by
  by_contra hlt
  have htake : (bytes ++ more).take (i + n) = bytes.take (i + n) := List.take_append_of_le_length (by omega)
  have hfind := c.stable h (bytes.drop (i + n))
  rw [htake, take_append_drop, hrest] at hfind
  cases hfind

theorem find_short (h : c.find bytes = some (i, n)) {k : Nat} (hk : k < i + n) : c.find (bytes.take k) = none := by
  cases hfind : c.find (bytes.take k) with
  | none => rfl
  | some p =>
    have hsame := find_append hfind (bytes.drop k)
    rw [take_append_drop, h] at hsame
    cases hsame
    have hin := (c.inside hfind).2
    rw [List.length_take] at hin
    omega

theorem exists_of_mem_split {block : List α} (hmem : (block, n) ∈ (c.split bytes).1) :
    ∃ front back, bytes = front ++ back ∧ (c.split front).2 = [] ∧ c.find back = some (block.length, n) := by
  induction bytes using c.split_induction with
  | none bytes h =>
    rw [split_none h] at hmem
    cases hmem
  | some bytes i m h ih =>
    rw [split_some h] at hmem
    have hle := (c.inside h).2
    rcases List.mem_cons.1 hmem with heq | hmem
    · cases heq
      have hnil : c.find ([] : List α) = none := by
        cases hfind : c.find ([] : List α) with
        | none => rfl
        | some p =>
          have hin := c.inside hfind
          simp only [List.length_nil] at hin
          omega
      have hlength : (bytes.take i).length = i := length_take_of_le (by omega)
      exact ⟨[], bytes, rfl, by rw [split_none hnil], by rw [hlength]; exact h⟩
    · obtain ⟨front, back, hdrop, hrest, hfind⟩ := ih hmem
      refine ⟨bytes.take (i + m) ++ front, back, ?_, ?_, hfind⟩
      · rw [append_assoc, ← hdrop, take_append_drop]
      · have hfront := c.stable h front
        have hdropfront : (bytes.take (i + m) ++ front).drop (i + m) = front := by
          have hlength : (bytes.take (i + m)).length = i + m := length_take_of_le hle
          rw [List.drop_append_of_le_length (Nat.le_of_eq hlength.symm), List.drop_of_length_le (Nat.le_of_eq hlength),
            nil_append]
        rw [split_some hfront, hdropfront]
        exact hrest

end Cutter

/-! ## Cutting at words -/

def Hit (needles : List (List α)) (bytes : List α) (i n : Nat) : Prop :=
  ∃ needle ∈ needles, needle.length = n ∧ needle <+: bytes.drop i

def FirstHit (needles : List (List α)) (bytes : List α) (i n : Nat) : Prop :=
  Hit needles bytes i n ∧ ∀ j < i, ∀ m, ¬ Hit needles bytes j m

/-- Words of which none ends inside another one that began before it. -/
structure Apart (needles : List (List α)) : Prop where
  nonempty : ∀ needle ∈ needles, needle ≠ []
  inner : ∀ needle ∈ needles, ∀ other ∈ needles, ∀ k, 0 < k → k + needle.length < other.length → ¬ needle <+: other.drop k

section Words

variable {needles : List (List α)} {bytes : List α} {i n : Nat}

theorem Hit.inside (hneedles : Apart needles) (h : Hit needles bytes i n) : 0 < n ∧ i + n ≤ bytes.length := by
  obtain ⟨needle, hmem, rfl, hpre⟩ := h
  have hlength := hpre.length_le
  have hpos := List.length_pos_of_ne_nil (hneedles.nonempty needle hmem)
  rw [length_drop] at hlength
  omega

theorem FirstHit.stable (hneedles : Apart needles) (h : FirstHit needles bytes i n) (more : List α) :
    FirstHit needles (bytes.take (i + n) ++ more) i n := by
  obtain ⟨hhit, hfirst⟩ := h
  have hle := (hhit.inside hneedles).2
  have hlength : (bytes.take (i + n)).length = i + n := length_take_of_le hle
  have hdrop : ∀ j ≤ i + n, (bytes.take (i + n) ++ more).drop j = (bytes.take (i + n)).drop j ++ more :=
    fun j hj => List.drop_append_of_le_length (Nat.le_trans hj (Nat.le_of_eq hlength.symm))
  have hback : ∀ j, (bytes.take (i + n)).drop j <+: bytes.drop j := fun j => (List.take_prefix (i + n) bytes).drop j
  obtain ⟨needle, hmem, rfl, hpre⟩ := hhit
  have hkept : needle <+: (bytes.take (i + needle.length) ++ more).drop i := by
    rw [hdrop i (by omega)]
    refine List.IsPrefix.trans ?_ (List.prefix_append _ more)
    refine List.prefix_of_prefix_length_le hpre (hback i) ?_
    rw [length_drop, hlength]
    omega
  refine ⟨⟨needle, hmem, rfl, hkept⟩, fun j hj m hhit => ?_⟩
  obtain ⟨other, hother, rfl, hpre'⟩ := hhit
  by_cases hend : j + other.length ≤ i + needle.length
  · refine hfirst j hj other.length ⟨other, hother, rfl, ?_⟩
    rw [hdrop j (by omega)] at hpre'
    refine List.IsPrefix.trans (List.prefix_of_prefix_length_le hpre' (List.prefix_append _ more) ?_) (hback j)
    rw [length_drop, hlength]
    omega
  · refine hneedles.inner needle hmem other hother (i - j) (by omega) (by omega) ?_
    have hlater := hpre'.drop (i - j)
    rw [List.drop_drop, Nat.add_sub_cancel' (Nat.le_of_lt hj)] at hlater
    refine List.prefix_of_prefix_length_le hkept hlater ?_
    rw [length_drop]
    omega

def Cutter.ofWords (hneedles : Apart needles) (find : List α → Option (Nat × Nat))
    (hfind : ∀ bytes i n, find bytes = some (i, n) ↔ FirstHit needles bytes i n) : Cutter α where
  find := find
  inside := fun h => ((hfind _ _ _).1 h).1.inside hneedles
  stable := fun h more => (hfind _ _ _).2 (((hfind _ _ _).1 h).stable hneedles more)

/-- `windows(n).position`: where a word first starts. -/
def position [BEq α] (needle : List α) : List α → Option Nat
  | [] => none
  | b :: bytes => if needle.isPrefixOf (b :: bytes) then some 0 else (position needle bytes).map (· + 1)

variable {needle : List α}

theorem position_eq_some_iff [BEq α] [LawfulBEq α] (hne : needle ≠ []) :
    position needle bytes = some i ↔ needle <+: bytes.drop i ∧ ∀ j < i, ¬ needle <+: bytes.drop j := by
  induction bytes generalizing i with
  | nil =>
    rw [position]
    simp [hne]
  | cons b bytes ih =>
    rw [position]
    by_cases hpre : needle <+: b :: bytes
    · rw [if_pos (List.isPrefixOf_iff_prefix.2 hpre)]
      constructor
      · intro h
        cases h
        exact ⟨hpre, fun j hj => absurd hj (Nat.not_lt_zero j)⟩
      · rintro ⟨-, hfirst⟩
        rcases Nat.eq_zero_or_pos i with rfl | hi
        · rfl
        · cases hfirst 0 hi hpre
    · rw [if_neg (fun h => hpre (List.isPrefixOf_iff_prefix.1 h)), Option.map_eq_some_iff]
      constructor
      · rintro ⟨k, hk, rfl⟩
        obtain ⟨hhit, hfirst⟩ := ih.1 hk
        refine ⟨hhit, fun j hj => ?_⟩
        cases j with
        | zero => exact hpre
        | succ j => exact hfirst j (Nat.lt_of_succ_lt_succ hj)
      · rintro ⟨hhit, hfirst⟩
        cases i with
        | zero => cases hpre hhit
        | succ i => exact ⟨i, ih.2 ⟨hhit, fun j hj => hfirst (j + 1) (Nat.succ_lt_succ hj)⟩, rfl⟩

theorem position_eq_none_iff [BEq α] [LawfulBEq α] (hne : needle ≠ []) :
    position needle bytes = none ↔ ∀ j, ¬ needle <+: bytes.drop j := by
  constructor
  · intro hnone j
    induction j using Nat.strongRecOn with
    | _ j ih =>
      intro hhit
      rw [(position_eq_some_iff hne).2 ⟨hhit, ih⟩] at hnone
      cases hnone
  · intro hall
    cases hpos : position needle bytes with
    | none => rfl
    | some i => exact absurd ((position_eq_some_iff hne).1 hpos).1 (hall i)

end Words

/-! ## Reading chunks -/

/-- A reader of blocks: a block that is too long, or that it refuses, ends the stream. -/
structure Reader (α F : Type) where
  cutter : Cutter α
  read : List α → Option (Option F)
  bound : Nat

namespace Reader

variable (r : Reader α F)

def accept : List (List α × Nat) → Option (List F)
  | [] => some []
  | block :: blocks =>
    if r.bound < block.1.length then none
    else (r.read block.1).bind (fun frame => (accept blocks).map (fun frames => frame.toList ++ frames))

def push (rest chunk : List α) : Option (List F × List α) :=
  (r.accept (r.cutter.split (rest ++ chunk)).1).bind (fun frames =>
    if r.bound < (r.cutter.split (rest ++ chunk)).2.length then none
    else some (frames, (r.cutter.split (rest ++ chunk)).2))

def pushAll (rest : List α) : List (List α) → Option (List F × List α)
  | [] => some ([], rest)
  | chunk :: chunks =>
    (r.push rest chunk).bind (fun a => (pushAll a.2 chunks).map (fun b => (a.1 ++ b.1, b.2)))

/-- Every block fits the bound together with all but the last byte of its separator. -/
def Smooth (bytes : List α) : Prop := ∀ block ∈ (r.cutter.split bytes).1, block.1.length + block.2 ≤ r.bound + 1

/-- A block of the stream is too long or refused, or its rest is too long. -/
def Refused (bytes : List α) : Prop :=
  (∃ block ∈ (r.cutter.split bytes).1, r.bound < block.1.length ∨ r.read block.1 = none) ∨
    r.bound < (r.cutter.split bytes).2.length

variable {r} {rest bytes : List α} {chunks : List (List α)}

theorem accept_append (blocks blocks' : List (List α × Nat)) :
    r.accept (blocks ++ blocks') = (r.accept blocks).bind (fun a => (r.accept blocks').map (fun b => a ++ b)) := by
  induction blocks with
  | nil =>
    rw [nil_append, accept]
    cases r.accept blocks' <;> rfl
  | cons block blocks ih =>
    rw [List.cons_append, accept, accept, ih]
    split
    · rfl
    · cases r.read block.1 with
      | none => rfl
      | some _ =>
        cases r.accept blocks with
        | none => rfl
        | some a =>
          cases r.accept blocks' with
          | none => rfl
          | some b => simp

theorem accept_eq_none_iff {blocks : List (List α × Nat)} :
    r.accept blocks = none ↔ ∃ block ∈ blocks, r.bound < block.1.length ∨ r.read block.1 = none := by
  induction blocks with
  | nil => simp [accept]
  | cons block blocks ih =>
    rw [accept]
    by_cases hlong : r.bound < block.1.length
    · simp [hlong]
    · cases hread : r.read block.1 with
      | none => simp [hread]
      | some _ => simp [hlong, hread, ih]

variable {frames : List F} {last : List α}

theorem pushAll_sound (hrest : r.cutter.find rest = none) (hbound : rest.length ≤ r.bound)
    (h : r.pushAll rest chunks = some (frames, last)) : r.accept (r.cutter.split (rest ++ chunks.flatten)).1 = some frames ∧
      (r.cutter.split (rest ++ chunks.flatten)).2 = last ∧ last.length ≤ r.bound := by
  induction chunks generalizing rest frames with
  | nil =>
    cases h
    rw [List.flatten_nil, append_nil, Cutter.split_none hrest]
    exact ⟨rfl, rfl, hbound⟩
  | cons _ chunks ih =>
    obtain ⟨a, ha, hmap⟩ := Option.bind_eq_some_iff.1 h
    obtain ⟨b, hb, heq⟩ := Option.map_eq_some_iff.1 hmap
    obtain ⟨_, hfirst, hcheck⟩ := Option.bind_eq_some_iff.1 ha
    split at hcheck
    · cases hcheck
    · rename_i hle
      cases hcheck
      cases heq
      obtain ⟨haccept, hlast, hlength⟩ := ih (Cutter.find_rest _) (Nat.not_lt.1 hle) hb
      rw [List.flatten_cons, ← append_assoc, Cutter.split_append, accept_append, hfirst, haccept]
      exact ⟨rfl, hlast, hlength⟩

theorem pushAll_smooth (hrest : r.cutter.find rest = none)
    (haccept : r.accept (r.cutter.split (rest ++ chunks.flatten)).1 = some frames)
    (hlast : (r.cutter.split (rest ++ chunks.flatten)).2 = last) (hlength : last.length ≤ r.bound)
    (hsmooth : r.Smooth (rest ++ chunks.flatten)) : r.pushAll rest chunks = some (frames, last) := by
  induction chunks generalizing rest frames with
  | nil =>
    rw [List.flatten_nil, append_nil, Cutter.split_none hrest] at haccept hlast
    rw [pushAll, ← hlast, ← Option.some.inj haccept]
  | cons chunk chunks ih =>
    rw [Smooth] at hsmooth
    rw [List.flatten_cons, ← append_assoc, Cutter.split_append] at haccept hlast hsmooth
    rw [accept_append] at haccept
    obtain ⟨first, hfirst, hmap⟩ := Option.bind_eq_some_iff.1 haccept
    obtain ⟨_, hlater, rfl⟩ := Option.map_eq_some_iff.1 hmap
    have hnext := r.cutter.find_rest (rest ++ chunk)
    have hsmooth' : r.Smooth ((r.cutter.split (rest ++ chunk)).2 ++ chunks.flatten) :=
      fun block hblock => hsmooth block (List.mem_append_right _ hblock)
    -- the rest is within the bound, because the next block or the last rest is
    have hle : ¬ r.bound < (r.cutter.split (rest ++ chunk)).2.length := by
      cases hfind : r.cutter.find ((r.cutter.split (rest ++ chunk)).2 ++ chunks.flatten) with
      | none =>
        rw [Cutter.split_none hfind] at hlast
        have hsum := congrArg List.length hlast
        rw [List.length_append] at hsum
        omega
      | some p =>
        have hlt := Cutter.length_lt_of_find hnext hfind
        have hin := (r.cutter.inside hfind).2
        have hblock := hsmooth' _ (by rw [Cutter.split_some hfind]; exact .head _)
        rw [length_take_of_le (by omega)] at hblock
        omega
    have hpush : r.push rest chunk = some (first, (r.cutter.split (rest ++ chunk)).2) := by
      rw [push, hfirst, Option.bind_some, if_neg hle]
    rw [pushAll, hpush, Option.bind_some, ih hnext hlater hlast hsmooth']
    rfl

theorem find_nil : r.cutter.find ([] : List α) = none := by
  cases hfind : r.cutter.find ([] : List α) with
  | none => rfl
  | some p =>
    have hin := r.cutter.inside hfind
    simp only [List.length_nil] at hin
    omega

theorem pushAll_refused (h : r.Refused chunks.flatten) : r.pushAll [] chunks = none := by
  cases hpush : r.pushAll [] chunks with
  | none => rfl
  | some a =>
    obtain ⟨haccept, hlast, _⟩ := pushAll_sound find_nil (Nat.zero_le _) hpush
    rw [nil_append] at haccept hlast
    rcases h with h | h
    · rw [accept_eq_none_iff.2 h] at haccept
      cases haccept
    · rw [hlast] at h
      omega

theorem pushAll_whole (h : ¬ r.Refused bytes) : ∃ frames, r.pushAll [] [bytes] = some (frames, (r.cutter.split bytes).2) := by
  rw [Refused, not_or, ← accept_eq_none_iff] at h
  obtain ⟨frames, hframes⟩ := Option.ne_none_iff_exists'.1 h.1
  refine ⟨frames, ?_⟩
  have hpush : r.push [] bytes = some (frames, (r.cutter.split bytes).2) := by
    rw [push, nil_append, hframes, Option.bind_some, if_neg h.2]
  rw [pushAll, hpush, Option.bind_some, pushAll, Option.map_some, append_nil]

/-- A block that fits the bound only without its separator is refused where the separator is cut. -/
theorem pushAll_cut {block : List α} {n : Nat} (hmem : (block, n) ∈ (r.cutter.split bytes).1)
    (hlong : r.bound + 1 < block.length + n) : ∃ front back, front ++ back = bytes ∧ r.pushAll [] [front, back] = none := by
  obtain ⟨front, back, rfl, hrest, hfind⟩ := Cutter.exists_of_mem_split hmem
  have hin := (r.cutter.inside hfind).2
  refine ⟨front ++ back.take (block.length + n - 1), back.drop (block.length + n - 1), ?_, ?_⟩
  · rw [append_assoc, take_append_drop]
  · have hshort : r.cutter.find (back.take (block.length + n - 1)) = none := Cutter.find_short hfind (by omega)
    have htail : (r.cutter.split (front ++ back.take (block.length + n - 1))).2 = back.take (block.length + n - 1) := by
      rw [Cutter.split_append, hrest, nil_append, Cutter.split_none hshort]
    have hover : r.bound < (back.take (block.length + n - 1)).length := by
      rw [List.length_take]
      omega
    have hpush : r.push [] (front ++ back.take (block.length + n - 1)) = none := by
      rw [push, nil_append, htail]
      simp only [if_pos hover]
      cases r.accept (r.cutter.split (front ++ back.take (block.length + n - 1))).1 <;> rfl
    rw [pushAll, hpush, Option.bind_none]

/-- **A stream that is refused, or whose blocks fit the bound with their separators, is read alike however it is cut.** -/
theorem pushAll_eq (h : r.Refused bytes ∨ r.Smooth bytes) {xs ys : List (List α)} (hxs : xs.flatten = bytes)
    (hys : ys.flatten = bytes) : r.pushAll [] xs = r.pushAll [] ys := by
  by_cases hrefused : r.Refused bytes
  · rw [pushAll_refused (hxs ▸ hrefused), pushAll_refused (hys ▸ hrefused)]
  · have hsmooth := h.resolve_left hrefused
    rw [Refused, not_or, ← accept_eq_none_iff] at hrefused
    obtain ⟨frames, hframes⟩ := Option.ne_none_iff_exists'.1 hrefused.1
    have hpush : ∀ zs : List (List α), zs.flatten = bytes →
        r.pushAll [] zs = some (frames, (r.cutter.split bytes).2) := by
      rintro zs rfl
      exact pushAll_smooth find_nil hframes rfl (Nat.not_lt.1 hrefused.2) hsmooth
    rw [hpush xs hxs, hpush ys hys]

theorem exists_cut (h : ¬ (r.Refused bytes ∨ r.Smooth bytes)) :
    (∃ a, r.pushAll [] [bytes] = some a) ∧ ∃ front back, front ++ back = bytes ∧ r.pushAll [] [front, back] = none := by
  rw [not_or] at h
  obtain ⟨hrefused, hsmooth⟩ := h
  obtain ⟨_, hwhole⟩ := pushAll_whole hrefused
  have hexists : ∃ block n, (block, n) ∈ (r.cutter.split bytes).1 ∧ r.bound + 1 < block.length + n := by
    by_contra hnone
    refine hsmooth (fun block hblock => ?_)
    by_contra hlt
    exact hnone ⟨block.1, block.2, hblock, Nat.not_le.1 hlt⟩
  obtain ⟨block, n, hmem, hlong⟩ := hexists
  exact ⟨⟨_, hwhole⟩, pushAll_cut hmem hlong⟩

end Reader

end Iteron.Frames
