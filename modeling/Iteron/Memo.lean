import Iteron.Transcript
import Iteron.Utf8
import Mathlib.Data.List.Nodup
import Mathlib.Algebra.Ring.Nat
/-!
# Memo — the results of pure tools that are kept

Pure results are kept under a digest of the tool's name and input.  Every effecting attempt clears what is kept and moves
the generation on, and a result is only kept if the generation is still the one its lookup missed in.  Time is read from
a monotonic clock.
-/
namespace Iteron.Memo

open Kernel (Json)
open Transcript (ToolUse ToolResult)
open Utf8 (utf8)

def maxToolNameBytes : Nat := 256

def maxInputBytes : Nat := 64 * 1024

def maxInputDepth : Nat := 32

def maxInputNodes : Nat := 4096

def maxContainerItems : Nat := 4096

def maxTtlSeconds : Nat := 86400

def defaultTtlSeconds : Nat := 60

/-- The digest of the key, and the text of an input. -/
structure Codec (K : Type) where
  sha256 : List UInt8 → K
  encode : Json → List UInt8

/-- `input_is_keyable`: the nodes that are left, or `none` where a bound is passed. -/
def keyableNodes (maxKeyBytes depth remaining : Nat) : Json → Option Nat
  | .array items =>
    if maxInputDepth < depth ∨ remaining = 0 then none
    else if maxContainerItems < items.length then none
    else keyableItems maxKeyBytes (depth + 1) (remaining - 1) items
  | .object fields =>
    if maxInputDepth < depth ∨ remaining = 0 then none
    else if maxContainerItems < fields.length then none
    else keyableFields maxKeyBytes (depth + 1) (remaining - 1) fields
  | .string text =>
    if maxInputDepth < depth ∨ remaining = 0 ∨ maxKeyBytes < text.utf8ByteSize then none else some (remaining - 1)
  | _ => if maxInputDepth < depth ∨ remaining = 0 then none else some (remaining - 1)
where
  keyableItems (maxKeyBytes depth remaining : Nat) : List Json → Option Nat
    | [] => some remaining
    | value :: values =>
      (keyableNodes maxKeyBytes depth remaining value).bind (fun left => keyableItems maxKeyBytes depth left values)
  keyableFields (maxKeyBytes depth remaining : Nat) : List (String × Json) → Option Nat
    | [] => some remaining
    | field :: fields =>
      if maxKeyBytes < field.1.utf8ByteSize then none
      else
        (keyableNodes maxKeyBytes depth remaining field.2).bind (fun left => keyableFields maxKeyBytes depth left fields)

def beBytes (n : Nat) : List UInt8 :=
  [n / 256 ^ 7, n / 256 ^ 6, n / 256 ^ 5, n / 256 ^ 4, n / 256 ^ 3, n / 256 ^ 2, n / 256, n].map (fun d => UInt8.ofNat (d % 256))

def message (encode : Json → List UInt8) (name : String) (input : Json) : List UInt8 :=
  utf8 "iteron-tools-memo-v1\x00" ++ (beBytes name.utf8ByteSize ++ (utf8 name ++ encode input))

theorem utf8_injective {s s' : String} (h : utf8 s = utf8 s') : s = s' := by
  rw [← Utf8.fromUtf8Lossy_utf8 s, h, Utf8.fromUtf8Lossy_utf8]

theorem beBytes_inj {n m : Nat} (hn : n ≤ maxToolNameBytes) (hm : m ≤ maxToolNameBytes) (h : beBytes n = beBytes m) : n = m := by
  have hbyte : ∀ a b : Nat, UInt8.ofNat (a % 256) = UInt8.ofNat (b % 256) → a % 256 = b % 256 := by
    intro a b hab
    have := congrArg UInt8.toNat hab
    simpa using this
  simp only [beBytes, List.map_cons, List.map_nil, List.cons.injEq] at h
  have hhigh := hbyte _ _ h.2.2.2.2.2.2.1
  have hlow := hbyte _ _ h.2.2.2.2.2.2.2.1
  rw [maxToolNameBytes] at hn hm
  omega

theorem message_inj {encode : Json → List UInt8} (hencode : Function.Injective encode) {name name' : String} {input input' : Json}
    (hname : name.utf8ByteSize ≤ maxToolNameBytes) (hname' : name'.utf8ByteSize ≤ maxToolNameBytes)
    (h : message encode name input = message encode name' input') : name = name' ∧ input = input' := by
  have hrest := List.append_cancel_left h
  obtain ⟨hsize, hrest⟩ := List.append_inj hrest rfl
  have hlength := beBytes_inj hname hname' hsize
  obtain ⟨hutf, hinput⟩ := List.append_inj hrest (by rw [Utf8.length_utf8, Utf8.length_utf8, hlength])
  exact ⟨utf8_injective hutf, hencode hinput⟩

structure MemoEntry where
  result : ToolResult
  insertedAt : Nat

structure PendingInsert (K : Type) where
  generation : Nat
  key : K
  enabled : Bool

structure State (K : Type) where
  generation : Nat
  acceptsInserts : Bool
  cache : List (K × MemoEntry)
  insertionOrder : List K
  hits : Nat
  misses : Nat
  ttl : Nat
  policyInstalled : Bool
  activated : Bool
  optimizationInstalled : Bool
  capacity : Nat
  maxKeyBytes : Nat
  generationScoped : Bool

structure PureMemoCachePolicy where
  maxEntries : Nat
  maxKeyBytes : Nat
  generationScoped : Bool

inductive Lookup (K : Type) where
  | hit (result : ToolResult)
  | miss (pending : PendingInsert K)

def second : Nat := 10 ^ 9

namespace State

variable {K : Type}

def new (capacity : Nat) : State K where
  generation := 0
  acceptsInserts := decide (0 < capacity)
  cache := []
  insertionOrder := []
  hits := 0
  misses := 0
  ttl := defaultTtlSeconds * second
  policyInstalled := false
  activated := false
  optimizationInstalled := false
  capacity := capacity
  maxKeyBytes := maxInputBytes
  generationScoped := true

def key (s : State K) (codec : Codec K) (name : String) (input : Json) : Option K :=
  if maxToolNameBytes < name.utf8ByteSize then none
  else if (keyableNodes s.maxKeyBytes 0 maxInputNodes input).isNone then none
  else if s.maxKeyBytes < (codec.encode input).length then none
  else some (codec.sha256 (message codec.encode name input))

variable [DecidableEq K]

def get (s : State K) (key : K) : Option MemoEntry := (s.cache.find? (fun p => p.1 = key)).map Prod.snd

def expired (s : State K) (key : K) (now : Nat) : Bool :=
  (s.get key).any (fun entry => decide (s.ttl = 0) || decide (s.ttl ≤ now - entry.insertedAt))

def remove (s : State K) (key : K) : State K :=
  { s with
    cache := s.cache.filter (fun p => p.1 ≠ key)
    insertionOrder := s.insertionOrder.filter (fun candidate => candidate ≠ key) }

def lookupAt (s : State K) (key : K) (now : Nat) : Lookup K × State K :=
  let s := { s with activated := true }
  let s := if s.expired key now then s.remove key else s
  match s.get key with
  | some entry => (.hit entry.result, { s with hits := min (s.hits + 1) (2 ^ 64 - 1) })
  | none =>
    (.miss ⟨s.generation, key, s.acceptsInserts && decide (s.ttl ≠ 0)⟩, { s with misses := min (s.misses + 1) (2 ^ 64 - 1) })

def evict (s : State K) : State K :=
  if s.cache.length = s.capacity then
    match s.insertionOrder with
    | [] => s
    | oldest :: rest => { s with cache := s.cache.filter (fun p => p.1 ≠ oldest), insertionOrder := rest }
  else s

def completeAt (s : State K) (pending : PendingInsert K) (result : ToolResult) (now : Nat) : State K :=
  if result.isError = true ∨ pending.enabled = false then s
  else if s.acceptsInserts = false ∨ s.generation ≠ pending.generation then s
  else if (s.get pending.key).isSome then
    { s with cache := s.cache.map (fun p => if p.1 = pending.key then (p.1, ⟨result, now⟩) else p) }
  else
    let s := s.evict
    { s with
      insertionOrder := s.insertionOrder ++ [pending.key]
      cache := s.cache ++ [(pending.key, ⟨result, now⟩)] }

def installTtlSeconds (s : State K) (ttlSeconds : Nat) : Except String (State K) :=
  if maxTtlSeconds < ttlSeconds then .error "tool-result cache TTL exceeds 86400 seconds"
  else if s.policyInstalled then .error "tool-result cache TTL was already installed"
  else if s.activated then .error "tool-result cache TTL must be installed before the first lookup"
  else .ok { s with ttl := ttlSeconds * second, policyInstalled := true }

def installPolicy (s : State K) (policy : PureMemoCachePolicy) : Except String (State K) :=
  if s.optimizationInstalled then .error "pure memo cache policy was already installed"
  else if s.activated then .error "pure memo cache policy must be installed before the first lookup"
  else .ok { s with
    capacity := policy.maxEntries
    maxKeyBytes := policy.maxKeyBytes
    generationScoped := policy.generationScoped
    acceptsInserts := policy.generationScoped && decide (0 < policy.maxEntries)
    optimizationInstalled := true }

def invalidate (s : State K) : State K :=
  let s := { s with cache := [], insertionOrder := [] }
  if s.generation + 1 < 2 ^ 64 then { s with generation := s.generation + 1 } else { s with acceptsInserts := false }

/-! ## What is kept -/

structure Tidy (s : State K) : Prop where
  order : s.cache.map Prod.fst = s.insertionOrder
  nodup : s.insertionOrder.Nodup
  bounded : s.cache.length ≤ s.capacity
  room : s.acceptsInserts = true → 0 < s.capacity

variable {s : State K} {key : K} {now : Nat}

omit [DecidableEq K] in
theorem Tidy.same {s' : State K} (h : Tidy s) (hcache : s'.cache = s.cache) (horder : s'.insertionOrder = s.insertionOrder)
    (hcapacity : s'.capacity = s.capacity) (haccepts : s'.acceptsInserts = s.acceptsInserts) : Tidy s' where
  order := by rw [hcache, horder]; exact h.order
  nodup := by rw [horder]; exact h.nodup
  bounded := by rw [hcache, hcapacity]; exact h.bounded
  room := by rw [hcapacity, haccepts]; exact h.room

theorem mem_of_get {entry : MemoEntry} (h : s.get key = some entry) : (key, entry) ∈ s.cache := by
  obtain ⟨p, hp, rfl⟩ := Option.map_eq_some_iff.1 h
  have hkey := List.find?_some hp
  have hmem := List.mem_of_find?_eq_some hp
  simp only [decide_eq_true_eq] at hkey
  rw [← hkey]
  exact hmem

theorem not_mem_of_get (h : ¬ (s.get key).isSome = true) : key ∉ s.cache.map Prod.fst := by
  intro hmem
  obtain ⟨p, hp, rfl⟩ := List.mem_map.1 hmem
  refine h ?_
  rw [get, Option.isSome_map, List.find?_isSome]
  exact ⟨p, hp, by simp⟩

theorem map_filter_fst (key : K) : (s.cache.filter (fun p => p.1 ≠ key)).map Prod.fst =
    (s.cache.map Prod.fst).filter (fun candidate => candidate ≠ key) := by
  rw [List.filter_map]
  rfl

theorem Tidy.remove (h : Tidy s) (key : K) : Tidy (s.remove key) where
  order := (map_filter_fst key).trans (congrArg _ h.order)
  nodup := h.nodup.filter _
  bounded := Nat.le_trans (List.length_filter_le _ _) h.bounded
  room := h.room

theorem lookupAt_cases (s : State K) (key : K) (now : Nat) :
    (∃ entry s', s.lookupAt key now = (.hit entry.result, s') ∧ (key, entry) ∈ s.cache ∧ now - entry.insertedAt < s.ttl) ∨
      ∃ pending s', s.lookupAt key now = (.miss pending, s') ∧ pending.generation = s.generation ∧ pending.key = key := by
  unfold lookupAt
  dsimp only
  by_cases hexpired : { s with activated := true }.expired key now = true
  · rw [if_pos hexpired]
    have hgone : ({ s with activated := true }.remove key).get key = none := by
      rw [get, Option.map_eq_none_iff, List.find?_eq_none]
      intro p hp
      have hne := (List.mem_filter.1 hp).2
      simpa using hne
    rw [hgone]
    exact .inr ⟨_, _, rfl, rfl, rfl⟩
  · rw [if_neg hexpired]
    cases hget : { s with activated := true }.get key with
    | none => exact .inr ⟨_, _, rfl, rfl, rfl⟩
    | some entry =>
      refine .inl ⟨entry, _, rfl, mem_of_get hget, ?_⟩
      rw [expired, hget] at hexpired
      simp only [Option.any_some, Bool.or_eq_true, decide_eq_true_eq, not_or] at hexpired
      exact Nat.not_le.1 hexpired.2

structure Looked (s s' : State K) : Prop where
  generation : s'.generation = s.generation
  acceptsInserts : s'.acceptsInserts = s.acceptsInserts
  cache : ∀ p ∈ s'.cache, p ∈ s.cache
  ttl : s'.ttl = s.ttl
  activated : s'.activated = true
  tidy : Tidy s → Tidy s'

theorem lookupAt_looked (s : State K) (key : K) (now : Nat) : Looked s (s.lookupAt key now).2 := by
  unfold lookupAt
  dsimp only
  by_cases hexpired : { s with activated := true }.expired key now = true
  · rw [if_pos hexpired]
    split <;>
      exact ⟨rfl, rfl, fun p hp => (List.mem_filter.1 hp).1, rfl, rfl, fun h => (h.remove key).same rfl rfl rfl rfl⟩
  · rw [if_neg hexpired]
    split <;> exact ⟨rfl, rfl, fun p hp => hp, rfl, rfl, fun h => h.same rfl rfl rfl rfl⟩

theorem Tidy.evict (h : Tidy s) (hcapacity : 0 < s.capacity) :
    Tidy s.evict ∧ s.evict.cache.length < s.evict.capacity ∧ (∀ p ∈ s.evict.cache, p ∈ s.cache) ∧
      (∀ key ∈ s.evict.insertionOrder, key ∈ s.insertionOrder) := by
  unfold State.evict
  by_cases hfull : s.cache.length = s.capacity
  · rw [if_pos hfull]
    cases horder : s.insertionOrder with
    | nil =>
      have hnil : s.cache.length = 0 := by
        have := congrArg List.length (h.order.trans horder)
        rwa [List.length_map] at this
      omega
    | cons oldest rest =>
      have hnodup := h.nodup
      rw [horder] at hnodup
      obtain ⟨hnot, hrest⟩ := List.nodup_cons.1 hnodup
      have hkeys : (s.cache.filter (fun p => p.1 ≠ oldest)).map Prod.fst = rest := by
        rw [map_filter_fst, h.order, horder, List.filter_cons_of_neg (by simp), List.filter_eq_self]
        intro key hkey
        exact decide_eq_true (fun heq => hnot (heq ▸ hkey))
      have hlength : (s.cache.filter (fun p => p.1 ≠ oldest)).length < s.capacity := by
        have hmap := congrArg List.length hkeys
        have hall := congrArg List.length (h.order.trans horder)
        rw [List.length_map] at hmap hall
        rw [List.length_cons] at hall
        omega
      exact ⟨⟨hkeys, hrest, Nat.le_of_lt hlength, h.room⟩, hlength, fun p hp => (List.mem_filter.1 hp).1,
        fun key hkey => .tail _ hkey⟩
  · rw [if_neg hfull]
    exact ⟨h, Nat.lt_of_le_of_ne h.bounded hfull, fun p hp => hp, fun key hkey => hkey⟩

theorem evict_rest (s : State K) : s.evict.generation = s.generation ∧ s.evict.acceptsInserts = s.acceptsInserts ∧
    s.evict.ttl = s.ttl ∧ s.evict.activated = s.activated ∧ s.evict.capacity = s.capacity := by
  unfold evict
  split
  · split <;> exact ⟨rfl, rfl, rfl, rfl, rfl⟩
  · exact ⟨rfl, rfl, rfl, rfl, rfl⟩

structure Completed (s s' : State K) (pending : PendingInsert K) (result : ToolResult) (now : Nat) : Prop where
  generation : s'.generation = s.generation
  acceptsInserts : s'.acceptsInserts = s.acceptsInserts
  ttl : s'.ttl = s.ttl
  activated : s'.activated = s.activated
  cache : ∀ p ∈ s'.cache, p ∈ s.cache ∨ (p = (pending.key, ⟨result, now⟩) ∧ result.isError = false ∧
    s.acceptsInserts = true ∧ s.generation = pending.generation)
  tidy : Tidy s'

theorem completeAt_completed (h : Tidy s) (pending : PendingInsert K) (result : ToolResult) (now : Nat) :
    Completed s (s.completeAt pending result now) pending result now := by
  have hsame : Completed s s pending result now := ⟨rfl, rfl, rfl, rfl, fun p hp => .inl hp, h⟩
  unfold completeAt
  split
  · exact hsame
  · rename_i hgood
    rw [not_or] at hgood
    split
    · exact hsame
    · rename_i hopen
      rw [not_or, Bool.not_eq_false, not_not] at hopen
      have hresult : result.isError = false := eq_false_of_ne_true hgood.1
      split
      · refine ⟨rfl, rfl, rfl, rfl, ?_, ?_, h.nodup, ?_, h.room⟩
        · intro p hp
          obtain ⟨q, hq, rfl⟩ := List.mem_map.1 hp
          by_cases hkey : q.1 = pending.key
          · rw [if_pos hkey, hkey]
            exact .inr ⟨rfl, hresult, hopen⟩
          · rw [if_neg hkey]
            exact .inl hq
        · have hfst : ∀ p : K × MemoEntry, (if p.1 = pending.key then (p.1, (⟨result, now⟩ : MemoEntry)) else p).1 = p.1 := by
            intro p
            split <;> rfl
          rw [List.map_map]
          exact (List.map_congr_left (fun p _ => hfst p)).trans h.order
        · rw [List.length_map]
          exact h.bounded
      · rename_i hget
        obtain ⟨htidy, hroom, hcache, horder⟩ := h.evict (h.room hopen.1)
        obtain ⟨hgeneration, haccepts, httl, hactivated, _⟩ := s.evict_rest
        have hnew : pending.key ∉ s.evict.insertionOrder := by
          intro hin
          exact not_mem_of_get hget (h.order ▸ horder pending.key hin)
        refine ⟨hgeneration, haccepts, httl, hactivated, ?_, ?_, ?_, ?_, ?_⟩
        · intro p hp
          rcases List.mem_append.1 hp with hp | hp
          · exact .inl (hcache p hp)
          · exact .inr ⟨List.mem_singleton.1 hp, hresult, hopen⟩
        · rw [List.map_append, htidy.order]
          rfl
        · rw [List.nodup_append]
          refine ⟨htidy.nodup, List.nodup_singleton _, fun a ha b hb hab => ?_⟩
          rw [List.mem_singleton.1 hb] at hab
          exact hnew (hab ▸ ha)
        · rw [List.length_append, List.length_singleton]
          exact hroom
        · exact htidy.room

omit [DecidableEq K] in
theorem Tidy.invalidate (h : Tidy s) : Tidy s.invalidate := by
  unfold State.invalidate
  dsimp only
  split
  · exact ⟨rfl, List.nodup_nil, Nat.zero_le _, h.room⟩
  · exact ⟨rfl, List.nodup_nil, Nat.zero_le _, fun hfalse => absurd hfalse Bool.false_ne_true⟩

omit [DecidableEq K] in
theorem invalidate_spec (s : State K) : s.invalidate.cache = [] ∧ s.invalidate.ttl = s.ttl ∧
    s.invalidate.activated = s.activated ∧
    (s.invalidate.generation = s.generation + 1 ∧ s.invalidate.acceptsInserts = s.acceptsInserts ∨
      s.invalidate.generation = s.generation ∧ s.invalidate.acceptsInserts = false) := by
  unfold invalidate
  dsimp only
  split
  · exact ⟨rfl, rfl, rfl, .inl ⟨rfl, rfl⟩⟩
  · exact ⟨rfl, rfl, rfl, .inr ⟨rfl, rfl⟩⟩

end State

end Iteron.Memo
