import Mathlib.Data.String.Basic
import Iteron.Distinct
import Iteron.Refuse
/-!
# Porcelain — the changes of a workspace, and what an operation would lose

The status stream is a row of records, each ended by a NUL byte.  A record with `R` or `C` in its status is followed by
the path it came from, so where a record begins depends on the letters of the records before it (`Framed`).  The changes
are sorted, freed of duplicates and cut at a limit, and an operation is judged safe only on a set that was not cut.
-/
namespace Iteron.Porcelain

open Refuse Distinct

inductive ParseError where
  | shortRecord (index : Nat)
  | missingOrigin (path : String)
  | invalidUtf8

inductive Status where
  | added
  | modified
  | deleted
  | renamed
  | copied
  | unmerged
  | untracked
  deriving DecidableEq

inductive Presence where
  | staged
  | unstaged
  | stagedAndUnstaged
  | untracked
  deriving DecidableEq

structure Entry where
  path : String
  /-- Present only for renames and copies. -/
  origin : Option String
  status : Status
  presence : Presence
  deriving DecidableEq

/-! ## The derived order -/

def Status.rank : Status → Nat
  | .added => 0
  | .modified => 1
  | .deleted => 2
  | .renamed => 3
  | .copied => 4
  | .unmerged => 5
  | .untracked => 6

def Presence.rank : Presence → Nat
  | .staged => 0
  | .unstaged => 1
  | .stagedAndUnstaged => 2
  | .untracked => 3

/-- Entries are compared field by field, an absent origin before any. -/
def Entry.key (e : Entry) : String ×ₗ WithBot String ×ₗ Nat ×ₗ Nat :=
  toLex (e.path, toLex (e.origin, toLex (e.status.rank, e.presence.rank)))

theorem Status.rank_injective : Function.Injective Status.rank := by
  intro a b h
  cases a <;> cases b <;> first | rfl | cases h

theorem Presence.rank_injective : Function.Injective Presence.rank := by
  intro a b h
  cases a <;> cases b <;> first | rfl | cases h

theorem Entry.key_injective : Function.Injective Entry.key := by
  intro a b h
  have hpath : a.path = b.path := congrArg (fun k => (ofLex k).1) h
  have horigin : a.origin = b.origin := congrArg (fun k => (ofLex (ofLex k).2).1) h
  have hstatus : a.status = b.status :=
    Status.rank_injective (congrArg (fun k => (ofLex (ofLex (ofLex k).2).2).1) h)
  have hpresence : a.presence = b.presence :=
    Presence.rank_injective (congrArg (fun k => (ofLex (ofLex (ofLex k).2).2).2) h)
  cases a
  cases hpath
  cases horigin
  cases hstatus
  cases hpresence
  rfl

instance : LinearOrder Entry := LinearOrder.lift' Entry.key Entry.key_injective

structure ChangeSet where
  entries : List Entry
  /-- How many entries the limit cut off. -/
  truncated : Nat

/-! ## Reading -/

def utf8 (bytes : List UInt8) : Except ParseError String :=
  match String.fromUTF8? bytes.toByteArray with
  | some text => .ok text
  | none => .error .invalidUtf8

def letter (c : Char) : UInt8 := c.val.toUInt8

def statusFrom (code : UInt8) : Option Status :=
  if code = letter 'A' then some .added
  else if code = letter 'M' then some .modified
  else if code = letter 'D' then some .deleted
  else if code = letter 'R' then some .renamed
  else if code = letter 'C' then some .copied
  else if code = letter 'U' then some .unmerged
  else if code = letter 'T' then some .modified
  else none

def onSide (code : UInt8) : Bool := code != letter ' ' && code != letter '?'

/-- Where the change lives; a record with nothing on either side is none. -/
def presenceOf (x y : UInt8) : Option Presence :=
  match onSide x, onSide y with
  | true, true => some .stagedAndUnstaged
  | true, false => some .staged
  | false, true => some .unstaged
  | false, false => none

/-- A conflict wins over either side; else the staged side names what happened. -/
def statusOf (x y : UInt8) : Status :=
  if x = letter 'U' ∨ y = letter 'U' ∨ (x = letter 'A' ∧ y = letter 'A') ∨ (x = letter 'D' ∧ y = letter 'D') then .unmerged
  else (statusFrom (if onSide x then x else y)).getD .modified

def moved (x y : UInt8) : Bool :=
  x == letter 'R' || x == letter 'C' || y == letter 'R' || y == letter 'C'

def trackedEntry (x y : UInt8) (path : String) (origin : Option String) : Option Entry :=
  (presenceOf x y).map (fun presence => { path, origin, status := statusOf x y, presence })

def readRecords : Nat → List (List UInt8) → Except ParseError (List Entry)
  | _, [] => .ok []
  | index, [] :: pieces => readRecords index pieces
  | index, (x :: y :: _ :: rest) :: pieces => do
    let path ← utf8 rest
    if x = letter '!' ∧ y = letter '!' then readRecords (index + 1) pieces
    else if x = letter '?' ∧ y = letter '?' then
      return { path, origin := none, status := .untracked, presence := .untracked } :: (← readRecords (index + 1) pieces)
    else if moved x y then
      match pieces with
      | [] => .error (.missingOrigin path)
      | [] :: _ => .error (.missingOrigin path)
      | origin :: pieces =>
        let origin ← utf8 origin
        return (trackedEntry x y path (some origin)).toList ++ (← readRecords (index + 1) pieces)
    else return (trackedEntry x y path none).toList ++ (← readRecords (index + 1) pieces)
  | index, _ :: _ => .error (.shortRecord index)

def boundedSet (limit : Nat) (entries : List Entry) : ChangeSet :=
  if limit < entries.length then { entries := entries.take limit, truncated := entries.length - limit }
  else { entries, truncated := 0 }

def parsePorcelain (bytes : List UInt8) (limit : Nat) : Except ParseError ChangeSet := do
  let entries ← readRecords 0 (bytes.splitOn 0)
  return boundedSet limit (distinct entries)

/-! ## The guard -/

inductive Operation where
  | removeWorktree
  | hardReset
  | checkout
  | merge

inductive Verdict where
  | safe
  | incomplete (operation : Operation) (examined : List Entry) (unexamined : Nat)
  | wouldLose (operation : Operation) (entries : List Entry)

def wouldLose (entry : Entry) : Operation → Bool
  | .removeWorktree => true
  | .hardReset => entry.presence != .untracked
  | .checkout => entry.presence == .untracked
  | .merge => entry.presence == .untracked

def atRisk (changes : ChangeSet) (operation : Operation) : List Entry :=
  changes.entries.filter (fun e => wouldLose e operation)

def assess (changes : ChangeSet) (operation : Operation) : Verdict :=
  if 0 < changes.truncated then .incomplete operation (atRisk changes operation) changes.truncated
  else if atRisk changes operation = [] then .safe
  else .wouldLose operation (atRisk changes operation)

def remediationPaths (changes : ChangeSet) (operation : Operation) : List String :=
  match assess changes operation with
  | .safe => []
  | .incomplete .. => (atRisk changes operation).map Entry.path
  | .wouldLose .. => (atRisk changes operation).map Entry.path

/-! ## Records -/

/-- A record of the stream: its two status letters, its path and the path it came from. -/
structure Record where
  x : UInt8
  y : UInt8
  path : List UInt8
  origin : Option (List UInt8)

/-- The pieces between the NUL bytes are these records.  A record whose letters say that the path moved takes the next
piece as its origin, whatever that piece looks like. -/
inductive Framed : List (List UInt8) → List Record → Prop
  | nil : Framed [] []
  | blank {pieces : List (List UInt8)} {records : List Record} (h : Framed pieces records) :
    Framed ([] :: pieces) records
  | plain {pieces : List (List UInt8)} {records : List Record} {x y s : UInt8} {path : List UInt8}
    (hmoved : moved x y = false) (h : Framed pieces records) :
    Framed ((x :: y :: s :: path) :: pieces) (⟨x, y, path, none⟩ :: records)
  | moved {pieces : List (List UInt8)} {records : List Record} {x y s : UInt8} {path origin : List UInt8}
    (hmoved : moved x y = true) (horigin : origin ≠ []) (h : Framed pieces records) :
    Framed ((x :: y :: s :: path) :: origin :: pieces) (⟨x, y, path, some origin⟩ :: records)

/-- The entry a record describes.  An ignored path and a record with nothing on either side describe none. -/
inductive Describes : Record → Entry → Prop
  | untracked {path : List UInt8} {p : String} (hpath : utf8 path = .ok p) :
    Describes ⟨letter '?', letter '?', path, none⟩ ⟨p, none, .untracked, .untracked⟩
  | tracked {x y : UInt8} {path : List UInt8} {src : Option (List UInt8)} {p : String} {o : Option String}
    {presence : Presence}
    (hignored : ¬ (x = letter '!' ∧ y = letter '!')) (hpresence : presenceOf x y = some presence)
    (hpath : utf8 path = .ok p) (horigin : src.mapM utf8 = .ok o) :
    Describes ⟨x, y, path, src⟩ ⟨p, o, statusOf x y, presence⟩

variable {pieces : List (List UInt8)} {records : List Record} {x y s : UInt8} {path origin : List UInt8}

theorem Framed.unique {records' : List Record} (h : Framed pieces records) (h' : Framed pieces records') :
    records = records' := by
  induction h generalizing records' with
  | nil => cases h'; rfl
  | blank _ ih =>
    cases h' with
    | blank h' => exact ih h'
  | plain hmoved _ ih =>
    cases h' with
    | plain _ h' => rw [ih h']
    | moved hmoved' => rw [hmoved] at hmoved'; cases hmoved'
  | moved hmoved _ _ ih =>
    cases h' with
    | plain hmoved' => rw [hmoved] at hmoved'; cases hmoved'
    | moved _ _ h' => rw [ih h']

variable {p : String} {e : Entry}

theorem mem_trackedEntry {o : Option String} {src : Option (List UInt8)}
    (hignored : ¬ (x = letter '!' ∧ y = letter '!')) (huntracked : ¬ (x = letter '?' ∧ y = letter '?'))
    (hpath : utf8 path = .ok p) (horigin : src.mapM utf8 = .ok o) :
    e ∈ (trackedEntry x y p o).toList ↔ Describes ⟨x, y, path, src⟩ e := by
  rw [Option.mem_toList, trackedEntry, Option.map_eq_some_iff]
  constructor
  · rintro ⟨_, hpresence, rfl⟩
    exact .tracked hignored hpresence hpath horigin
  · intro h
    cases h with
    | untracked => exact absurd ⟨rfl, rfl⟩ huntracked
    | tracked _ hpresence hpath' horigin' =>
      rw [hpath] at hpath'
      rw [horigin] at horigin'
      cases hpath'
      cases horigin'
      exact ⟨_, hpresence, rfl⟩

theorem describes_untracked (hpath : utf8 path = .ok p) :
    e ∈ [Entry.mk p none .untracked .untracked] ↔ Describes ⟨letter '?', letter '?', path, none⟩ e := by
  rw [List.mem_singleton]
  constructor
  · rintro rfl
    exact .untracked hpath
  · intro h
    generalize hx : letter '?' = x at h
    cases h with
    | untracked hpath' =>
      rw [hpath] at hpath'
      cases hpath'
      rfl
    | tracked _ hpresence =>
      rw [← hx] at hpresence
      cases hpresence

theorem not_describes_ignored : ¬ Describes ⟨letter '!', letter '!', path, none⟩ e := by
  intro h
  generalize hx : letter '!' = x at h
  cases h with
  | untracked => cases hx
  | tracked hignored => exact hignored ⟨hx.symm, hx.symm⟩

theorem described_cons {r : Record} {first entries : List Entry} (hfirst : ∀ e, e ∈ first ↔ Describes r e)
    (hrest : ∀ e, e ∈ entries ↔ ∃ r ∈ records, Describes r e) :
    ∀ e, e ∈ first ++ entries ↔ ∃ r' ∈ r :: records, Describes r' e := by
  intro e
  rw [List.mem_append, hfirst, hrest, List.exists_mem_cons_iff]

/-- **The reader follows the records**: its entries are those the records describe. -/
theorem readRecords_ok : ∀ {pieces : List (List UInt8)} {index : Nat} {entries : List Entry},
    readRecords index pieces = .ok entries → ∃ records, Framed pieces records ∧ ∀ e, e ∈ entries ↔ ∃ r ∈ records, Describes r e
  | [], _, _, h => by
    cases h
    exact ⟨[], .nil, by simp⟩
  | [] :: pieces, index, entries, h => by
    obtain ⟨records, hframed, hmem⟩ := readRecords_ok (show readRecords _ pieces = .ok entries from h)
    exact ⟨records, .blank hframed, hmem⟩
  | [_] :: _, _, _, h => by cases h
  | [_, _] :: _, _, _, h => by cases h
  | (x :: y :: s :: rest) :: pieces, index, entries, h => by
    rw [readRecords, bind_eq_ok] at h
    obtain ⟨_, hpath, h⟩ := h
    by_cases hignored : x = letter '!' ∧ y = letter '!'
    · obtain ⟨rfl, rfl⟩ := hignored
      obtain ⟨records, hframed, hmem⟩ := readRecords_ok h
      exact ⟨_, .plain rfl hframed, described_cons (show ∀ e, e ∈ ([] : List Entry) ↔ _ by simp [not_describes_ignored]) hmem⟩
    rw [if_neg hignored] at h
    by_cases huntracked : x = letter '?' ∧ y = letter '?'
    · rw [if_pos huntracked, bind_eq_ok] at h
      obtain ⟨later, hlater, h⟩ := h
      cases h
      obtain ⟨rfl, rfl⟩ := huntracked
      obtain ⟨records, hframed, hmem⟩ := readRecords_ok hlater
      exact ⟨_, .plain rfl hframed, described_cons (fun e => describes_untracked hpath) hmem⟩
    rw [if_neg huntracked] at h
    by_cases hmoved : moved x y = true
    · rw [if_pos hmoved] at h
      cases pieces with
      | nil => cases h
      | cons origin pieces =>
        cases origin with
        | nil => cases h
        | cons b origin =>
          simp only [bind_eq_ok, pure_eq_ok] at h
          obtain ⟨_, hsource, later, hlater, rfl⟩ := h
          obtain ⟨records, hframed, hmem⟩ := readRecords_ok hlater
          refine ⟨_, .moved hmoved (List.cons_ne_nil b origin) hframed, described_cons (fun e => ?_) hmem⟩
          refine mem_trackedEntry hignored huntracked hpath ?_
          rw [Option.mapM_some, hsource]
          rfl
    · rw [if_neg hmoved, bind_eq_ok] at h
      obtain ⟨later, hlater, h⟩ := h
      cases h
      obtain ⟨records, hframed, hmem⟩ := readRecords_ok hlater
      refine ⟨_, .plain (Bool.eq_false_iff.2 hmoved) hframed, described_cons (fun e => ?_) hmem⟩
      exact mem_trackedEntry hignored huntracked hpath rfl

theorem boundedSet_count (limit : Nat) (entries : List Entry) :
    (boundedSet limit entries).entries.length + (boundedSet limit entries).truncated = entries.length := by
  unfold boundedSet
  by_cases h : limit < entries.length
  · rw [if_pos h]
    simp only [List.length_take]
    omega
  · rw [if_neg h]
    rfl

theorem boundedSet_whole {limit : Nat} {entries : List Entry} (h : (boundedSet limit entries).truncated = 0) :
    (boundedSet limit entries).entries = entries := by
  unfold boundedSet at h ⊢
  by_cases hlong : limit < entries.length
  · rw [if_pos hlong] at h
    simp only at h
    omega
  · rw [if_neg hlong]

theorem mem_of_mem_boundedSet {limit : Nat} {entries : List Entry} {e : Entry} (h : e ∈ (boundedSet limit entries).entries) :
    e ∈ entries := by
  unfold boundedSet at h
  split at h
  · exact List.mem_of_mem_take h
  · exact h

theorem assess_safe_iff (changes : ChangeSet) (operation : Operation) : assess changes operation = .safe ↔
    changes.truncated = 0 ∧ ∀ e ∈ changes.entries, wouldLose e operation = false := by
  have hrisk : atRisk changes operation = [] ↔ ∀ e ∈ changes.entries, wouldLose e operation = false := by
    rw [atRisk, List.filter_eq_nil_iff]
    simp only [Bool.not_eq_true]
  unfold assess
  by_cases hcut : 0 < changes.truncated
  · rw [if_pos hcut]
    simp only [reduceCtorEq, false_iff, not_and]
    omega
  · rw [if_neg hcut, ← hrisk]
    by_cases hnone : atRisk changes operation = []
    · simp [hnone]
      omega
    · simp [hnone]

/-- Whatever the verdict, the paths to stash or commit are those of the entries at risk. -/
theorem mem_remediationPaths {changes : ChangeSet} {operation : Operation} :
    p ∈ remediationPaths changes operation ↔ ∃ e ∈ changes.entries, wouldLose e operation = true ∧ e.path = p := by
  have hrisk : p ∈ (atRisk changes operation).map Entry.path ↔
      ∃ e ∈ changes.entries, wouldLose e operation = true ∧ e.path = p := by
    simp only [atRisk, List.mem_map, List.mem_filter, and_assoc]
  unfold remediationPaths
  cases hverdict : assess changes operation with
  | safe =>
    have hnone := ((assess_safe_iff changes operation).1 hverdict).2
    simp only [List.not_mem_nil, false_iff]
    rintro ⟨e, he, hlose, -⟩
    rw [hnone e he] at hlose
    cases hlose
  | incomplete => exact hrisk
  | wouldLose => exact hrisk

/-- **The guard is sound**: an operation is judged safe exactly when the set is whole and no record of the stream
describes an entry it would lose, and every distinct change is kept or counted. -/
theorem guard_sound (bytes : List UInt8) (limit : Nat) (set : ChangeSet) (operation : Operation)
    (h : parsePorcelain bytes limit = .ok set) :
    (∃ records, Framed (bytes.splitOn 0) records) ∧ ∀ records, Framed (bytes.splitOn 0) records →
      (assess set operation = .safe ↔
        set.truncated = 0 ∧ ∀ r ∈ records, ∀ e, Describes r e → wouldLose e operation = false) ∧
      set.entries.length + set.truncated = Set.ncard {e | ∃ r ∈ records, Describes r e} := by
  unfold parsePorcelain at h
  rw [bind_eq_ok] at h
  obtain ⟨_, hread, h⟩ := h
  cases h
  obtain ⟨records, hframed, hmem⟩ := readRecords_ok hread
  refine ⟨⟨records, hframed⟩, fun records' hframed' => ?_⟩
  obtain rfl := hframed.unique hframed'
  constructor
  · rw [assess_safe_iff]
    refine and_congr_right (fun hwhole => ?_)
    rw [boundedSet_whole hwhole]
    constructor
    · intro hall r hr e he
      exact hall e (mem_distinct.2 ((hmem e).2 ⟨r, hr, he⟩))
    · intro hall e he
      obtain ⟨r, hr, hdescribes⟩ := (hmem e).1 (mem_distinct.1 he)
      exact hall r hr e hdescribes
  · rw [boundedSet_count, length_distinct]
    simp only [hmem]

/-- A renamed file and an untracked one, at a limit of one: nothing is judged safe, and the other change is counted. -/
theorem guard_sound_cut : assess ⟨[⟨"a", none, .untracked, .untracked⟩], 1⟩ .hardReset ≠ .safe ∧
    ∃ records, Framed (([82, 32, 32, 98, 0, 99, 0, 63, 63, 32, 97, 0] : List UInt8).splitOn 0) records ∧
      Set.ncard {e | ∃ r ∈ records, Describes r e} = 2 := by
  have h : parsePorcelain [82, 32, 32, 98, 0, 99, 0, 63, 63, 32, 97, 0] 1 =
      .ok ⟨[⟨"a", none, .untracked, .untracked⟩], 1⟩ := by rfl
  obtain ⟨⟨records, hframed⟩, hall⟩ := guard_sound _ 1 _ .hardReset h
  obtain ⟨hsafe, hcount⟩ := hall records hframed
  refine ⟨fun hs => ?_, records, hframed, hcount.symm⟩
  exact absurd (hsafe.1 hs).1 (by decide)

/-- **What is offered to be stashed or committed is what would be lost**: each path is that of a record the operation would
lose; and where the set is whole, each such record's path is offered, and the operation is safe for what remains. -/
theorem remediation_sound (bytes : List UInt8) (limit : Nat) (set : ChangeSet) (operation : Operation) (records : List Record)
    (h : parsePorcelain bytes limit = .ok set) (hframed : Framed (bytes.splitOn 0) records) :
    (∀ p ∈ remediationPaths set operation, ∃ r ∈ records, ∃ e, Describes r e ∧ wouldLose e operation = true ∧ e.path = p) ∧
    (set.truncated = 0 → (∀ r ∈ records, ∀ e, Describes r e → wouldLose e operation = true →
        e.path ∈ remediationPaths set operation) ∧
      assess { set with entries := set.entries.filter (fun e => e.path ∉ remediationPaths set operation) } operation =
        .safe) := by
  unfold parsePorcelain at h
  rw [bind_eq_ok] at h
  obtain ⟨_, hread, h⟩ := h
  cases h
  obtain ⟨_, hframed', hmem⟩ := readRecords_ok hread
  obtain rfl := hframed'.unique hframed
  refine ⟨fun p hp => ?_, fun hwhole => ⟨fun r hr e he hlose => ?_, (assess_safe_iff _ _).2 ⟨hwhole, fun e he => ?_⟩⟩⟩
  · obtain ⟨e, he, hlose, hpath⟩ := mem_remediationPaths.1 hp
    obtain ⟨r, hr, hdescribes⟩ := (hmem e).1 (mem_distinct.1 (mem_of_mem_boundedSet he))
    exact ⟨r, hr, e, hdescribes, hlose, hpath⟩
  · refine mem_remediationPaths.2 ⟨e, ?_, hlose, rfl⟩
    rw [boundedSet_whole hwhole]
    exact mem_distinct.2 ((hmem e).2 ⟨r, hr, he⟩)
  · obtain ⟨he, hkept⟩ := List.mem_filter.1 he
    by_contra hlose
    exact of_decide_eq_true hkept (mem_remediationPaths.2 ⟨e, he, Bool.not_eq_false _ ▸ hlose, rfl⟩)

theorem remediation_sound_renamed : ∃ records,
    Framed (([82, 32, 32, 98, 0, 99, 0, 63, 63, 32, 97, 0] : List UInt8).splitOn 0) records ∧
      ∃ r ∈ records, ∃ e, Describes r e ∧ wouldLose e .hardReset = true ∧ e.path = "b" := by
  have hread : readRecords 0 (([82, 32, 32, 98, 0, 99, 0, 63, 63, 32, 97, 0] : List UInt8).splitOn 0) =
      .ok [⟨"b", some "c", .renamed, .staged⟩, ⟨"a", none, .untracked, .untracked⟩] := by rfl
  obtain ⟨records, hframed, -⟩ := readRecords_ok hread
  exact ⟨records, hframed, (remediation_sound _ 2 ⟨[⟨"a", none, .untracked, .untracked⟩, ⟨"b", some "c", .renamed, .staged⟩], 0⟩
    .hardReset records (by rfl) hframed).1 "b" (by decide)⟩

end Iteron.Porcelain
