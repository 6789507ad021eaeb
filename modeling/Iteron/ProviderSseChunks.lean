import Iteron.ProviderSse
/-!
# ProviderSseChunks — a provider's stream cut anywhere

A decoder reads a stream as the blocks it is cut into, whatever the chunks are, but for one thing: the bound on the bytes
that wait counts the bytes of a blank line that is not complete yet, and the bound on a block does not.
-/
namespace Iteron.ProviderSse

open Frames
open Sse (SseFrame)

variable {F : Type}

namespace Wire

variable (w : Wire F)

def reader (cutter : Cutter UInt8) : Reader UInt8 F := ⟨cutter, fun block => (w.parse block).toOption, w.maxSseFrameBytes⟩

def Overlong (bytes : List UInt8) : Prop := ∃ limit, w.maxStreamBytes = some limit ∧ limit < bytes.length

variable {w} {cutter : Cutter UInt8}

theorem drain_spec (hcut : cutter.find = w.frameBoundary) {fuel : Nat} {d : Decoder} (hd : d.cursor ≤ d.pending.length)
    (hfuel : d.rest.length ≤ fuel) :
    ((w.reader cutter).accept (cutter.split d.rest).1 = none ∧ ∃ e, w.drain fuel d = .error e) ∨
      ∃ frames cursor, (w.reader cutter).accept (cutter.split d.rest).1 = some frames ∧
        w.drain fuel d = .ok ({ d with cursor, dataFrames := d.dataFrames + frames.length }, frames) ∧
        cursor ≤ d.pending.length ∧ d.pending.drop cursor = (cutter.split d.rest).2 := by
  induction fuel generalizing d with
  | zero =>
    have hnil : d.rest = [] := List.eq_nil_of_length_eq_zero (Nat.le_zero.1 hfuel)
    have hnone : cutter.find d.rest = none := hnil ▸ @Reader.find_nil _ _ (w.reader cutter)
    rw [Cutter.split_none hnone]
    exact .inr ⟨[], d.cursor, rfl, rfl, hd, rfl⟩
  | succ fuel ih =>
    unfold drain
    cases hfind : w.frameBoundary d.rest with
    | none =>
      rw [Cutter.split_none (hcut ▸ hfind)]
      exact .inr ⟨[], d.cursor, rfl, rfl, hd, rfl⟩
    | some p =>
      obtain ⟨boundary, separatorLen⟩ := p
      have hfind' : cutter.find d.rest = some (boundary, separatorLen) := hcut ▸ hfind
      obtain ⟨_, hin⟩ := cutter.inside hfind'
      have hlength : (d.rest.take boundary).length = boundary := List.length_take_of_le (by omega)
      have hrest : ∀ k, { d with cursor := d.cursor + boundary + separatorLen, dataFrames := k }.rest =
          d.rest.drop (boundary + separatorLen) := by
        intro k
        rw [Decoder.rest, Decoder.rest, List.drop_drop, Nat.add_assoc]
      have hnext : d.cursor + boundary + separatorLen ≤ d.pending.length := by
        rw [Decoder.rest, List.length_drop] at hin
        omega
      have hshort : (d.rest.drop (boundary + separatorLen)).length ≤ fuel := by
        rw [List.length_drop]
        omega
      rw [Cutter.split_some hfind', Reader.accept]
      have hbound : (w.reader cutter).bound = w.maxSseFrameBytes := rfl
      have hread : (w.reader cutter).read (d.rest.take boundary) = (w.parse (d.rest.take boundary)).toOption := rfl
      dsimp only
      rw [hlength, hbound, hread]
      by_cases hlong : w.maxSseFrameBytes < boundary
      · rw [if_pos hlong, if_pos hlong]
        exact .inl ⟨rfl, _, rfl⟩
      · rw [if_neg hlong, if_neg hlong]
        cases hparse : w.parse (d.rest.take boundary) with
        | error e => exact .inl ⟨rfl, _, rfl⟩
        | ok frame =>
          rcases @ih { d with cursor := d.cursor + boundary + separatorLen, dataFrames := d.dataFrames + frame.toList.length }
              hnext (by rw [hrest]; exact hshort) with ⟨hnone, e, herror⟩ | ⟨frames, cursor, hsome, hok, hle, hdrop⟩
          · rw [hrest] at hnone
            refine .inl ⟨by rw [hnone]; rfl, e, ?_⟩
            cases frame with
            | none => exact herror
            | some frame => simp only [Option.toList_some, List.length_singleton] at herror; simp only [herror]
          · rw [hrest] at hsome hdrop
            refine .inr ⟨frame.toList ++ frames, cursor, by rw [hsome]; rfl, ?_, hle, hdrop⟩
            cases frame with
            | none => exact hok
            | some frame =>
              simp only [Option.toList_some, List.length_singleton] at hok
              simp only [hok, Option.toList_some, List.singleton_append, List.length_cons]
              rw [Nat.add_assoc, Nat.add_comm 1]

theorem rest_compact (d : Decoder) : (compact d).rest = d.rest := by
  unfold compact
  split
  · rfl
  · rfl

variable {d : Decoder}

theorem compact_le (hd : d.cursor ≤ d.pending.length) : (compact d).cursor ≤ (compact d).pending.length := by
  unfold compact
  split
  · exact Nat.zero_le _
  · exact hd

theorem compact_counts (d : Decoder) : (compact d).dataFrames = d.dataFrames ∧ (compact d).totalBytes = d.totalBytes := by
  unfold compact
  split <;> exact ⟨rfl, rfl⟩

structure At (w : Wire F) (d : Decoder) (rest : List UInt8) (total frames : Nat) : Prop where
  cursor : d.cursor ≤ d.pending.length
  rest : d.rest = rest
  total : d.totalBytes = total
  frames : d.dataFrames = frames

variable {rest : List UInt8} {total count : Nat}

section

variable (hcut : cutter.find = w.frameBoundary)
include hcut

theorem push_spec (hd : At w d rest total count) (bytes : List UInt8)
    (htotal : ∀ limit, w.maxStreamBytes = some limit → total + bytes.length ≤ limit) :
    ((w.reader cutter).push rest bytes = none ∧ ∃ e, w.push d bytes = .error e) ∨
      ∃ d' frames rest', (w.reader cutter).push rest bytes = some (frames, rest') ∧ w.push d bytes = .ok (d', frames) ∧
        At w d' rest' (total + bytes.length) (count + frames.length) := by
  have hcount : ¬ w.maxStreamBytes.any (fun limit => decide (limit < d.totalBytes + bytes.length)) = true := by
    rw [hd.total, Option.any_eq_true]
    rintro ⟨limit, hlimit, hlt⟩
    have := htotal limit hlimit
    simp only [decide_eq_true_eq] at hlt
    omega
  have hrest : { d with pending := d.pending ++ bytes, totalBytes := d.totalBytes + bytes.length }.rest = rest ++ bytes := by
    rw [← hd.rest, Decoder.rest, Decoder.rest, List.drop_append_of_le_length hd.cursor]
  have hcursor : d.cursor ≤ (d.pending ++ bytes).length := by
    rw [List.length_append]
    exact Nat.le_trans hd.cursor (Nat.le_add_right _ _)
  have hfuel : { d with pending := d.pending ++ bytes, totalBytes := d.totalBytes + bytes.length }.rest.length ≤
      (d.pending ++ bytes).length := by
    rw [Decoder.rest, List.length_drop]
    exact Nat.sub_le _ _
  unfold push
  rw [if_neg hcount]
  rcases @drain_spec _ w cutter hcut _ { d with pending := d.pending ++ bytes, totalBytes := d.totalBytes + bytes.length }
      hcursor hfuel with ⟨hnone, e, herror⟩ | ⟨frames, cursor, hsome, hok, hle, hdrop⟩
  · rw [hrest] at hnone
    rw [herror]
    exact .inl ⟨by rw [Reader.push]; exact congrArg (fun o => Option.bind o _) hnone, e, rfl⟩
  · rw [hrest] at hsome hdrop
    have hlength : (d.pending ++ bytes).length - cursor = (cutter.split (rest ++ bytes)).2.length := by
      rw [← hdrop, List.length_drop]
    rw [hok]
    dsimp only
    rw [hlength, Reader.push]
    have hsplit : (w.reader cutter).cutter = cutter := rfl
    have hbound : (w.reader cutter).bound = w.maxSseFrameBytes := rfl
    rw [hsplit, hsome, Option.bind_some, hbound]
    by_cases hlong : w.maxSseFrameBytes < (cutter.split (rest ++ bytes)).2.length
    · rw [if_pos hlong, if_pos hlong]
      exact .inl ⟨rfl, _, rfl⟩
    · rw [if_neg hlong, if_neg hlong]
      refine .inr ⟨_, frames, _, rfl, rfl, ⟨compact_le hle, (rest_compact _).trans hdrop, ?_, ?_⟩⟩
      · rw [(compact_counts _).2, hd.total]
      · rw [(compact_counts _).1, hd.frames]

theorem pushAll_spec (hd : At w d rest total count) (chunks : List (List UInt8))
    (htotal : ∀ limit, w.maxStreamBytes = some limit → total + chunks.flatten.length ≤ limit) :
    ((w.reader cutter).pushAll rest chunks = none ∧ ∃ e, w.pushAll d chunks = .error e) ∨
      ∃ d' frames rest', (w.reader cutter).pushAll rest chunks = some (frames, rest') ∧
        w.pushAll d chunks = .ok (d', frames) ∧ At w d' rest' (total + chunks.flatten.length) (count + frames.length) := by
  induction chunks generalizing d rest total count with
  | nil => exact .inr ⟨d, [], rest, rfl, rfl, hd⟩
  | cons chunk chunks ih =>
    rw [List.flatten_cons, List.length_append] at htotal ⊢
    unfold pushAll Reader.pushAll
    rcases push_spec hcut hd chunk (fun limit hlimit => by have := htotal limit hlimit; omega) with
      ⟨hnone, e, herror⟩ | ⟨d', frames, rest', hsome, hok, hd'⟩
    · rw [hnone, herror]
      exact .inl ⟨rfl, e, rfl⟩
    · rw [hsome, hok, Option.bind_some]
      dsimp only
      rcases ih hd' (fun limit hlimit => by have := htotal limit hlimit; omega) with
        ⟨hnone, e, herror⟩ | ⟨d'', frames', rest'', hsome', hok', hd''⟩
      · rw [hnone, herror]
        exact .inl ⟨rfl, e, rfl⟩
      · rw [hsome', hok']
        refine .inr ⟨d'', frames ++ frames', rest'', rfl, rfl, ?_⟩
        rw [List.length_append, ← Nat.add_assoc, ← Nat.add_assoc]
        exact hd''

theorem pushAll_overlong {limit : Nat} (hlimit : w.maxStreamBytes = some limit)
    (hd : At w d rest total count) {chunks : List (List UInt8)}
    (htotal : total ≤ limit) (hover : limit < total + chunks.flatten.length) : ∃ e, w.pushAll d chunks = .error e := by
  induction chunks generalizing d rest total count with
  | nil =>
    rw [List.flatten_nil, List.length_nil] at hover
    omega
  | cons chunk chunks ih =>
    rw [List.flatten_cons, List.length_append] at hover
    unfold pushAll
    by_cases hchunk : limit < total + chunk.length
    · have hcount : w.maxStreamBytes.any (fun limit => decide (limit < d.totalBytes + chunk.length)) = true := by
        rw [hd.total, hlimit]
        exact decide_eq_true hchunk
      unfold push
      rw [if_pos hcount]
      exact ⟨_, rfl⟩
    · rcases push_spec hcut hd chunk (fun limit' hlimit' => by
          cases hlimit.symm.trans hlimit'
          exact Nat.not_lt.1 hchunk) with ⟨-, e, herror⟩ | ⟨d', frames, rest', -, hok, hd'⟩
      · rw [herror]
        exact ⟨e, rfl⟩
      · obtain ⟨e, herror⟩ := ih hd' (Nat.not_lt.1 hchunk) (by omega)
        rw [hok]
        dsimp only
        rw [herror]
        exact ⟨e, rfl⟩

end

/-- What `finish` answers is a matter of the bytes that are left and of the frames before them. -/
def Settles (finish : Decoder → Except ProviderError Unit) : Prop :=
  ∀ d d' : Decoder, d.rest = d'.rest → d.dataFrames = d'.dataFrames → finish d = finish d'

theorem at_start (w : Wire F) : At w {} [] 0 0 := ⟨Nat.le_refl _, rfl, rfl, rfl⟩

variable {finish : Decoder → Except ProviderError Unit}

theorem outcome_overlong (hcut : cutter.find = w.frameBoundary)
    {chunks : List (List UInt8)} (h : w.Overlong chunks.flatten) : w.outcome finish chunks = none := by
  obtain ⟨limit, hlimit, _⟩ := h
  obtain ⟨e, herror⟩ := pushAll_overlong hcut hlimit (at_start w) (Nat.zero_le limit) (by rwa [Nat.zero_add])
  rw [outcome, herror]

theorem outcome_eq (hcut : cutter.find = w.frameBoundary) {finish : Decoder → Except ProviderError Unit}
    {chunks : List (List UInt8)} (h : ¬ w.Overlong chunks.flatten) :
    ((w.reader cutter).pushAll [] chunks = none ∧ w.outcome finish chunks = none) ∨
      ∃ d frames rest, (w.reader cutter).pushAll [] chunks = some (frames, rest) ∧ w.outcome finish chunks = some (frames, finish d) ∧
        d.rest = rest ∧ d.dataFrames = frames.length := by
  have htotal : ∀ limit, w.maxStreamBytes = some limit → 0 + chunks.flatten.length ≤ limit := by
    intro limit hlimit
    rw [Nat.zero_add]
    exact Nat.not_lt.1 (fun hlt => h ⟨limit, hlimit, hlt⟩)
  rcases pushAll_spec hcut (at_start w) chunks htotal with ⟨hnone, e, herror⟩ | ⟨d, frames, rest, hsome, hok, hd⟩
  · rw [outcome, herror]
    exact .inl ⟨hnone, rfl⟩
  · rw [outcome, hok]
    exact .inr ⟨d, frames, rest, hsome, rfl, hd.rest, hd.frames.trans (Nat.zero_add _)⟩

/-- The streams that are decoded alike however they are cut: too long ones, those that are refused for a block or for
their rest, and those in which every block fits the bound with all but the last byte of its separator. -/
def Even (w : Wire F) (cutter : Cutter UInt8) (bytes : List UInt8) : Prop :=
  w.Overlong bytes ∨ (w.reader cutter).Refused bytes ∨ (w.reader cutter).Smooth bytes

theorem outcome_even (hcut : cutter.find = w.frameBoundary)
    (hfinish : Settles finish) {bytes : List UInt8} (h : w.Even cutter bytes) {xs ys : List (List UInt8)}
    (hxs : xs.flatten = bytes) (hys : ys.flatten = bytes) : w.outcome finish xs = w.outcome finish ys := by
  by_cases hover : w.Overlong bytes
  · rw [outcome_overlong hcut (hxs ▸ hover), outcome_overlong hcut (hys ▸ hover)]
  · have hsame := Reader.pushAll_eq (h.resolve_left hover) hxs hys
    rcases @outcome_eq _ w cutter hcut finish _ (hxs ▸ hover) with ⟨hnone, hout⟩ | ⟨d, _, _, hsome, hout, hrest, hcount⟩
    · rcases @outcome_eq _ w cutter hcut finish _ (hys ▸ hover) with ⟨-, hout'⟩ | ⟨d', frames', rest', hsome', -⟩
      · rw [hout, hout']
      · rw [hnone, hsome'] at hsame
        cases hsame
    · rcases @outcome_eq _ w cutter hcut finish _ (hys ▸ hover) with ⟨hnone', -⟩ | ⟨d', frames', rest', hsome', hout', hrest', hcount'⟩
      · rw [hsome, hnone'] at hsame
        cases hsame
      · rw [hsome, hsome'] at hsame
        cases hsame
        rw [hout, hout', hfinish d d' (hrest.trans hrest'.symm) (hcount.trans hcount'.symm)]

theorem outcome_uneven (hcut : cutter.find = w.frameBoundary) {finish : Decoder → Except ProviderError Unit}
    {bytes : List UInt8} (h : ¬ w.Even cutter bytes) :
    ∃ front back, front ++ back = bytes ∧ w.outcome finish [front, back] = none ∧ w.outcome finish [bytes] ≠ none := by
  rw [Even, not_or] at h
  obtain ⟨hover, hnot⟩ := h
  obtain ⟨⟨a, hwhole⟩, front, back, hjoin, hcutnone⟩ := Reader.exists_cut hnot
  have hover1 : ¬ w.Overlong [front, back].flatten := by
    rw [List.flatten_cons, List.flatten_singleton, hjoin]
    exact hover
  have hover2 : ¬ w.Overlong [bytes].flatten := by rwa [List.flatten_singleton]
  refine ⟨front, back, hjoin, ?_, ?_⟩
  · rcases @outcome_eq _ w cutter hcut finish _ hover1 with ⟨-, hout⟩ | ⟨d, frames, rest, hsome, -⟩
    · exact hout
    · rw [hcutnone] at hsome
      cases hsome
  · rcases @outcome_eq _ w cutter hcut finish _ hover2 with ⟨hnone, -⟩ | ⟨d, frames, rest, -, hout, -⟩
    · rw [hwhole] at hnone
      cases hnone
    · rw [hout]
      exact Option.some_ne_none _

theorem outcome_iff (hcut : cutter.find = w.frameBoundary) (hfinish : Settles finish) (bytes : List UInt8) :
    (∀ xs ys : List (List UInt8), xs.flatten = bytes → ys.flatten = bytes → w.outcome finish xs = w.outcome finish ys) ↔
      w.Even cutter bytes := by
  constructor
  · intro hall
    by_contra hnot
    obtain ⟨front, back, hjoin, hnone, hsome⟩ := @outcome_uneven _ w cutter hcut finish bytes hnot
    have hflat : [front, back].flatten = bytes := by rw [List.flatten_cons, List.flatten_singleton, hjoin]
    exact hsome ((hall [bytes] [front, back] List.flatten_singleton hflat).trans hnone)
  · intro h xs ys hxs hys
    exact outcome_even hcut hfinish h hxs hys

end Wire

/-! ## The blank lines of the two wires -/

def FirstOf (hit : Nat → Nat → Prop) : Option (Nat × Nat) → Prop
  | none => ∀ i n, ¬ hit i n
  | some p => hit p.1 p.2 ∧ ∀ j < p.1, ∀ n, ¬ hit j n

variable {best : Option (Nat × Nat)}

theorem FirstOf.better {hit : Nat → Nat → Prop} (hbest : FirstOf hit best) (bytes needle : List UInt8) (hne : needle ≠ []) :
    FirstOf (fun i n => hit i n ∨ needle.length = n ∧ needle <+: bytes.drop i)
      (Responses.better best (position needle bytes) needle.length) := by
  cases hfound : position needle bytes with
  | none =>
    have hnone := (position_eq_none_iff hne).1 hfound
    cases best with
    | none =>
      rintro i n (h | ⟨-, h⟩)
      · exact hbest i n h
      · exact hnone i h
    | some p =>
      refine ⟨.inl hbest.1, ?_⟩
      rintro j hj n (h | ⟨-, h⟩)
      · exact hbest.2 j hj n h
      · exact hnone j h
  | some _ =>
    obtain ⟨hhit, hfirst⟩ := (position_eq_some_iff hne).1 hfound
    cases best with
    | none =>
      refine ⟨.inr ⟨rfl, hhit⟩, ?_⟩
      rintro j hj n (h | ⟨-, h⟩)
      · exact hbest j n h
      · exact hfirst j hj h
    | some p =>
      unfold Responses.better
      dsimp only
      split
      · rename_i hlt
        refine ⟨.inr ⟨rfl, hhit⟩, ?_⟩
        rintro j hj n (h | ⟨-, h⟩)
        · exact hbest.2 j (Nat.lt_trans hj hlt) n h
        · exact hfirst j hj h
      · rename_i hle
        refine ⟨.inl hbest.1, ?_⟩
        rintro j hj n (h | ⟨-, h⟩)
        · exact hbest.2 j hj n h
        · exact hfirst j (Nat.lt_of_lt_of_le hj (Nat.not_lt.1 hle)) h

variable {needles : List (List UInt8)}

theorem FirstOf.eq_some_iff {bytes : List UInt8} (hbest : FirstOf (Hit needles bytes) best)
    (hfree : ∀ needle ∈ needles, ∀ other ∈ needles, needle <+: other → needle = other) (i n : Nat) :
    best = some (i, n) ↔ FirstHit needles bytes i n := by
  constructor
  · rintro rfl
    exact hbest
  · rintro ⟨hhit, hfirst⟩
    cases best with
    | none => cases hbest i n hhit
    | some p =>
      obtain ⟨hhit', hfirst'⟩ := hbest
      have hi : p.1 = i := by
        rcases Nat.lt_trichotomy p.1 i with hlt | heq | hgt
        · cases hfirst p.1 hlt p.2 hhit'
        · exact heq
        · cases hfirst' i hgt n hhit
      obtain ⟨needle, hneedle, rfl, hpre⟩ := hhit
      obtain ⟨other, hother, hlength, hpre'⟩ := hhit'
      rw [hi] at hpre'
      have hsame : needle = other := by
        rcases List.prefix_or_prefix_of_prefix hpre hpre' with h | h
        · exact hfree needle hneedle other hother h
        · exact (hfree other hother needle hneedle h).symm
      rw [hsame, hlength, ← hi]

theorem FirstOf.congr {hit hit' : Nat → Nat → Prop} (hbest : FirstOf hit best)
    (h : ∀ i n, hit i n ↔ hit' i n) : FirstOf hit' best := by
  have heq : hit = hit' := funext (fun i => funext (fun n => propext (h i n)))
  exact heq ▸ hbest

theorem firstOf_none : FirstOf (fun _ _ => False) none := fun _ _ h => h

theorem apart_of_short (hlength : ∀ needle ∈ needles, 2 ≤ needle.length ∧ needle.length ≤ 4)
    (hinner : ∀ needle ∈ needles, ∀ other ∈ needles, 1 + needle.length < other.length → ¬ needle <+: other.drop 1) :
    Apart needles := by
  constructor
  · rintro needle hneedle rfl
    exact absurd (hlength [] hneedle).1 (by decide)
  · intro needle hneedle other hother k hk hlt
    have htwo := (hlength needle hneedle).1
    have hfour := (hlength other hother).2
    obtain rfl : k = 1 := by omega
    exact hinner needle hneedle other hother hlt

namespace Responses

def separators : List (List UInt8) := [[13, 10, 13, 10], [10, 10], [13, 13]]

theorem separators_apart : Apart separators := apart_of_short (by decide) (by decide)

theorem frameBoundary_iff (bytes : List UInt8) (i n : Nat) :
    frameBoundary bytes = some (i, n) ↔ FirstHit separators bytes i n := by
  have hfirst := ((firstOf_none.better bytes [13, 10, 13, 10] (by decide)).better bytes [10, 10] (by decide)).better
    bytes [13, 13] (by decide)
  refine FirstOf.eq_some_iff (hfirst.congr (fun i n => ?_)) (by decide) i n
  simp [Hit, separators, or_assoc]

def cutter : Cutter UInt8 := .ofWords separators_apart frameBoundary frameBoundary_iff

theorem settles_finish : Wire.Settles finish := by
  intro d d' hrest _
  rw [finish, finish, hrest]

end Responses

namespace Anthropic

def separators : List (List UInt8) := [[10, 10], [13, 10, 13, 10]]

theorem separators_apart : Apart separators := apart_of_short (by decide) (by decide)

theorem frameBoundary_eq (buf : List UInt8) :
    frameBoundary buf = Responses.better (Responses.better none (position [10, 10] buf) 2) (position [13, 10, 13, 10] buf) 4 := by
  unfold frameBoundary
  cases position [10, 10] buf <;> cases position [13, 10, 13, 10] buf <;> rfl

theorem frameBoundary_iff (bytes : List UInt8) (i n : Nat) :
    frameBoundary bytes = some (i, n) ↔ FirstHit separators bytes i n := by
  have hfirst := (firstOf_none.better bytes [10, 10] (by decide)).better bytes [13, 10, 13, 10] (by decide)
  rw [frameBoundary_eq]
  refine FirstOf.eq_some_iff (hfirst.congr (fun i n => ?_)) (by decide) i n
  simp [Hit, separators]

def cutter : Cutter UInt8 := .ofWords separators_apart frameBoundary frameBoundary_iff

theorem settles_finish : Wire.Settles finish := by
  intro d d' hrest hframes
  rw [finish, finish, Decoder.refuse, Decoder.refuse, Decoder.refuse, Decoder.refuse, hrest, hframes]

end Anthropic

/-! ## A block that fits only without its blank line -/

def colons (m : Nat) : List UInt8 := List.replicate m 58 ++ [10, 10]

theorem firstHit_colons (hline : [10, 10] ∈ needles)
    (hcolon : ∀ needle ∈ needles, ∃ b rest, needle = b :: rest ∧ b ≠ 58) (m : Nat) : FirstHit needles (colons m) m 2 := by
  unfold colons
  refine ⟨⟨[10, 10], hline, rfl, ?_⟩, ?_⟩
  · rw [List.drop_left' List.length_replicate]
  · rintro j _ n ⟨needle, hneedle, -, hpre⟩
    obtain ⟨b, rest, rfl, hb⟩ := hcolon needle hneedle
    have hdrop : (List.replicate m (58 : UInt8) ++ [10, 10]).drop j = 58 :: (List.replicate (m - j - 1) 58 ++ [10, 10]) := by
      rw [List.drop_append_of_le_length (by rw [List.length_replicate]; omega), List.drop_replicate]
      obtain ⟨k, hk⟩ : ∃ k, m - j = k + 1 := ⟨m - j - 1, by omega⟩
      rw [hk, List.replicate_succ, List.cons_append, Nat.add_sub_cancel]
    rw [hdrop] at hpre
    exact hb (List.cons_prefix_cons.1 hpre).1

theorem fromUtf8_colons (m : Nat) : Utf8.fromUtf8 (List.replicate m 58) = some (String.ofList (List.replicate m ':')) := by
  have hascii : ∀ c ∈ List.replicate m ':', c.toNat < 128 := by
    intro c hc
    rw [(List.mem_replicate.1 hc).2]
    decide
  have hbytes : Utf8.utf8 (String.ofList (List.replicate m ':')) = List.replicate m 58 := by
    rw [Utf8.utf8_ascii hascii, List.map_replicate]
    rfl
  rw [← hbytes, Utf8.fromUtf8_utf8]

theorem uneven_colons {w : Wire F} {cutter : Cutter UInt8} (hfind : cutter.find (colons w.maxSseFrameBytes) = some (w.maxSseFrameBytes, 2))
    (htotal : ∀ limit, w.maxStreamBytes = some limit → w.maxSseFrameBytes + 2 ≤ limit)
    (hparse : ∃ frame, w.parse (List.replicate w.maxSseFrameBytes 58) = .ok frame) :
    ¬ w.Even cutter (colons w.maxSseFrameBytes) := by
  generalize hm : w.maxSseFrameBytes = m at hfind htotal hparse ⊢
  have hlength : (colons m).length = m + 2 := by
    rw [colons, List.length_append, List.length_replicate]
    rfl
  have htake : (colons m).take m = List.replicate m 58 := List.take_left' List.length_replicate
  have hdrop : (colons m).drop (m + 2) = [] := List.drop_eq_nil_of_le (Nat.le_of_eq hlength)
  have hnil : cutter.split [] = ([], []) := Cutter.split_none (@Reader.find_nil _ _ (w.reader cutter))
  have hsplit : cutter.split (colons m) = ([(List.replicate m 58, 2)], []) := by
    rw [Cutter.split_some hfind, htake, hdrop, hnil]
  have hbound : (w.reader cutter).bound = m := hm
  have hcutter : (w.reader cutter).cutter = cutter := rfl
  rintro (⟨limit, hlimit, _⟩ | (⟨_, hmem, hbad⟩ | hlong) | hsmooth)
  · have := htotal limit hlimit
    omega
  · rw [hcutter, hsplit] at hmem
    obtain rfl := List.mem_singleton.1 hmem
    rcases hbad with hlong | hnone
    · rw [hbound, List.length_replicate] at hlong
      exact Nat.lt_irrefl _ hlong
    · obtain ⟨frame, hframe⟩ := hparse
      have hread : (w.reader cutter).read (List.replicate m 58) = (w.parse (List.replicate m 58)).toOption := rfl
      rw [hread, hframe] at hnone
      cases hnone
  · rw [hcutter, hsplit] at hlong
    cases Nat.not_lt_zero _ hlong
  · have hblock := hsmooth (List.replicate m 58, 2) (by
      rw [hcutter, hsplit]
      exact List.mem_singleton.2 rfl)
    rw [hbound, List.length_replicate] at hblock
    omega

theorem responses_uneven : ¬ Responses.wire.Even Responses.cutter (colons Responses.wire.maxSseFrameBytes) := by
  have hcolon : ∀ needle ∈ Responses.separators, ∃ b rest, needle = b :: rest ∧ b ≠ 58 := by
    intro needle hneedle
    simp only [Responses.separators, List.mem_cons, List.not_mem_nil, or_false] at hneedle
    rcases hneedle with rfl | rfl | rfl <;> exact ⟨_, _, rfl, by decide⟩
  have hfirst : ∀ m, Responses.cutter.find (colons m) = some (m, 2) :=
    fun m => (Responses.frameBoundary_iff _ m 2).2 (firstHit_colons (by decide) hcolon m)
  have hparse : ∀ m, ∃ frame, Responses.wire.parse (List.replicate m 58) = .ok frame := by
    intro m
    have heq : Responses.wire.parse = Responses.parseWireFrame := rfl
    rw [heq, Responses.parseWireFrame, fromUtf8_colons]
    dsimp only
    split <;> exact ⟨_, rfl⟩
  refine uneven_colons (hfirst Responses.wire.maxSseFrameBytes) (fun limit hlimit => ?_) (hparse Responses.wire.maxSseFrameBytes)
  cases hlimit
  have hle : maxSseFrameBytes + 2 ≤ maxStreamBytes := by decide
  exact hle

theorem anthropic_uneven : ¬ Anthropic.wire.Even Anthropic.cutter (colons Anthropic.wire.maxSseFrameBytes) := by
  have hcolon : ∀ needle ∈ Anthropic.separators, ∃ b rest, needle = b :: rest ∧ b ≠ 58 := by
    intro needle hneedle
    simp only [Anthropic.separators, List.mem_cons, List.not_mem_nil, or_false] at hneedle
    rcases hneedle with rfl | rfl <;> exact ⟨_, _, rfl, by decide⟩
  have hfirst : ∀ m, Anthropic.cutter.find (colons m) = some (m, 2) :=
    fun m => (Anthropic.frameBoundary_iff _ m 2).2 (firstHit_colons (by decide) hcolon m)
  have hparse : ∀ m, ∃ frame, Anthropic.wire.parse (List.replicate m 58) = .ok frame := by
    intro m
    have heq : Anthropic.wire.parse = Anthropic.parseBlock := rfl
    rw [heq, Anthropic.parseBlock, fromUtf8_colons]
    dsimp only
    split <;> exact ⟨_, rfl⟩
  refine uneven_colons (hfirst Anthropic.wire.maxSseFrameBytes) (fun limit hlimit => ?_) (hparse Anthropic.wire.maxSseFrameBytes)
  cases hlimit

/-- **When a provider's stream is decoded alike however it is cut**: exactly when it is too long, when a block or the rest is
refused, or when every block fits the bound together with all but the last byte of its blank line. -/
theorem decoding_ignores_chunks (bytes : List UInt8) :
    ((∀ xs ys : List (List UInt8), xs.flatten = bytes → ys.flatten = bytes →
        Responses.wire.outcome Responses.finish xs = Responses.wire.outcome Responses.finish ys) ↔
      Responses.wire.Even Responses.cutter bytes) ∧
    ((∀ xs ys : List (List UInt8), xs.flatten = bytes → ys.flatten = bytes →
        Anthropic.wire.outcome Anthropic.finish xs = Anthropic.wire.outcome Anthropic.finish ys) ↔
      Anthropic.wire.Even Anthropic.cutter bytes) :=
  ⟨Wire.outcome_iff rfl Responses.settles_finish bytes, Wire.outcome_iff rfl Anthropic.settles_finish bytes⟩

/-- Both decoders take the full block in one chunk, and refuse it in two. -/
theorem not_decoding_ignores_chunks :
    (∃ front back, front ++ back = colons maxSseFrameBytes ∧ Responses.wire.outcome Responses.finish [front, back] = none ∧
      Responses.wire.outcome Responses.finish [colons maxSseFrameBytes] ≠ none) ∧
    ∃ front back, front ++ back = colons maxSseFrameBytes ∧ Anthropic.wire.outcome Anthropic.finish [front, back] = none ∧
      Anthropic.wire.outcome Anthropic.finish [colons maxSseFrameBytes] ≠ none :=
  ⟨Wire.outcome_uneven rfl responses_uneven, Wire.outcome_uneven rfl anthropic_uneven⟩

end Iteron.ProviderSse
