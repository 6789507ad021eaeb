import Iteron.LspPending
import Mathlib.Order.Interval.Finset.Nat
/-!
# LspPendingRun — every id is accounted for

What a run told its callers is kept as a history beside the registry: the ids issued, accepted, asked to be cancelled,
reported as timed out, and no longer in flight.  The counters are compared with it.
-/
namespace Iteron.Lsp

open Machine (u64Max saturatingAdd)

/-! ## History -/

/-- What the run has answered: each issued id with its deadline, each accepted id with the time. -/
structure History where
  issued : List (Nat × Nat) := []
  accepted : List (Nat × Nat) := []
  requested : List Nat := []
  timedOut : List Nat := []
  retired : List Nat := []

def gone (s s' : PendingRequests) : List Nat := s.entries.keys.filter (fun id => !s'.entries.contains id)

def issuedBy : Request → Answer → List (Nat × Nat)
  | .issue _ nowMs timeoutMs, .issued (.ok c) => [(c.id, nowMs + timeoutMs)]
  | .issueForDocument _ _ nowMs timeoutMs, .issued (.ok c) => [(c.id, nowMs + timeoutMs)]
  | _, _ => []

def acceptedBy : Request → Answer → List (Nat × Nat)
  | .resolve _ _ nowMs, .resolved (.ok (.accepted r)) => [(r.correlation.id, nowMs)]
  | _, _ => []

def requestedBy : Answer → List Nat
  | .cancelled (.ok (.cancellationRequested c)) => [c.id]
  | _ => []

def timedOutBy (s : PendingRequests) : Answer → List Nat
  | .expired (.ok es) => es.map Expired.id
  | .cancelled (.ok (.timedOut e)) => [e.id]
  | .resolved (.ok (.late e)) => if s.entries.contains e.id then [e.id] else []
  | _ => []

def History.note (h : History) (s : PendingRequests) (q : Request) : History where
  issued := issuedBy q (s.serve q).2 ++ h.issued
  accepted := acceptedBy q (s.serve q).2 ++ h.accepted
  requested := requestedBy (s.serve q).2 ++ h.requested
  timedOut := timedOutBy s (s.serve q).2 ++ h.timedOut
  retired := gone s (s.serve q).1 ++ h.retired

/-- The states of a registry whose requests all met a condition, with their histories. -/
inductive Served (generation capacity : Nat) (meets : PendingRequests → Request → Prop) :
    PendingRequests → History → Prop
  | new (s : PendingRequests) (h : PendingRequests.withCapacity generation capacity = .ok s) :
    Served generation capacity meets s {}
  | serve (s : PendingRequests) (h : History) (q : Request) (hs : Served generation capacity meets s h)
    (hq : meets s q) : Served generation capacity meets (s.serve q).1 (h.note s q)

/-- **Every id is accounted for.** -/
structure Accounted (s : PendingRequests) (h : History) : Prop where
  unique : (h.issued.map Prod.fst).Nodup
  acceptedOnce : (h.accepted.map Prod.fst).Nodup
  acceptedInTime : ∀ p ∈ h.accepted, ∃ deadlineMs, (p.1, deadlineMs) ∈ h.issued ∧ p.2 < deadlineMs
  acceptedLive : ∀ p ∈ h.accepted, p.1 ∉ h.requested
  bounded : s.inFlight ≤ s.capacity
  balance : s.inFlight + h.retired.length = h.issued.length
  retiredOnce : h.retired.Nodup
  timedOutOnce : h.timedOut.Nodup
  timedOut : s.timedOut = h.timedOut.length
  requestedOnce : h.requested.Nodup
  cancelled : s.cancelled = h.requested.length

/-- A request before its deadline is released only if it was not asked to be cancelled before. -/
def Releasable (s : PendingRequests) : Request → Prop
  | .cancelAndRelease readerGeneration id nowMs =>
    readerGeneration = s.serverEpoch.generation → (∀ previousMs, s.lastNowMs = some previousMs → previousMs ≤ nowMs) →
      ∀ entry, s.entries[id]? = some entry → nowMs < entry.deadlineMs → entry.state = .active
  | _ => True

/-! ## The invariant -/

structure Kept (s : PendingRequests) (h : History) : Prop where
  unique : (h.issued.map Prod.fst).Nodup
  range : ∀ p ∈ h.issued, 1 ≤ p.1 ∧ p.1 ≤ maxJsonrpcNumericId
  fresh : ∀ next, s.nextId = some next → 1 ≤ next ∧ next ≤ maxJsonrpcNumericId ∧ ∀ p ∈ h.issued, p.1 < next
  live : ∀ id e, s.entries[id]? = some e →
    e.correlation.id = id ∧ (id, e.deadlineMs) ∈ h.issued ∧ id ∉ h.retired ∧ (e.state = .active ↔ id ∉ h.requested)
  out : ∀ p ∈ h.issued, s.entries[p.1]? = none → p.1 ∈ h.retired
  retired : ∀ id ∈ h.retired, id ∈ h.issued.map Prod.fst
  retiredOnce : h.retired.Nodup
  acceptedOnce : (h.accepted.map Prod.fst).Nodup
  accepted : ∀ p ∈ h.accepted, p.1 ∈ h.retired ∧ p.1 ∉ h.requested ∧
    ∃ deadlineMs, (p.1, deadlineMs) ∈ h.issued ∧ p.2 < deadlineMs
  timedOutOnce : h.timedOut.Nodup
  timedOutRetired : ∀ id ∈ h.timedOut, id ∈ h.retired
  timedOut : s.timedOut = h.timedOut.length
  requestedOnce : h.requested.Nodup
  requestedIssued : ∀ id ∈ h.requested, id ∈ h.issued.map Prod.fst
  cancelled : s.cancelled = h.requested.length
  bounded : s.entries.size ≤ s.capacity

theorem size_eq_card (t : Std.ExtTreeMap Nat Entry compare) : t.size = (Table.keys t).card := by
  have hnodup : t.keys.Nodup := Std.ExtTreeMap.nodup_keys
  rw [Table.keys, List.toFinset_card_of_nodup hnodup, Std.ExtTreeMap.length_keys]

variable {s s' : PendingRequests} {id : Nat}

theorem mem_gone : id ∈ gone s s' ↔ (∃ e, s.entries[id]? = some e) ∧ s'.entries[id]? = none := by
  unfold gone
  rw [List.mem_filter, Std.ExtTreeMap.mem_keys, Std.ExtTreeMap.mem_iff_isSome_getElem?, Option.isSome_iff_exists,
    Bool.not_eq_true', Table.contains_eq_false]

theorem nodup_gone (s s' : PendingRequests) : (gone s s').Nodup := by
  have hnodup : s.entries.keys.Nodup := Std.ExtTreeMap.nodup_keys
  exact hnodup.filter _

variable {h : History}

theorem Kept.count_le (hk : Kept s h) {ids : List Nat} (hids : ids.Nodup)
    (hsub : ∀ id ∈ ids, id ∈ h.issued.map Prod.fst) : ids.length ≤ maxJsonrpcNumericId := by
  have hle : ids.toFinset.card ≤ (Finset.Icc 1 maxJsonrpcNumericId).card := by
    refine Finset.card_le_card (fun id hid => ?_)
    obtain ⟨p, hp, rfl⟩ := List.mem_map.1 (hsub id (List.mem_toFinset.1 hid))
    exact Finset.mem_Icc.2 (hk.range p hp)
  rw [List.toFinset_card_of_nodup hids, Nat.card_Icc] at hle
  omega

theorem Kept.accounted (hk : Kept s h) : Accounted s h where
  unique := hk.unique
  acceptedOnce := hk.acceptedOnce
  acceptedInTime := fun p hp => (hk.accepted p hp).2.2
  acceptedLive := fun p hp => (hk.accepted p hp).2.1
  bounded := hk.bounded
  balance := by
    -- the issued ids are those in flight and those retired
    have hsplit : (h.issued.map Prod.fst).toFinset = Table.keys s.entries ∪ h.retired.toFinset := by
      ext id
      rw [Finset.mem_union, List.mem_toFinset, List.mem_toFinset, Table.mem_keys]
      constructor
      · intro hid
        obtain ⟨p, hp, rfl⟩ := List.mem_map.1 hid
        cases he : s.entries[p.1]? with
        | none => exact .inr (hk.out p hp he)
        | some e => exact .inl ⟨e, rfl⟩
      · rintro (⟨e, he⟩ | hid)
        · exact List.mem_map_of_mem (f := Prod.fst) (hk.live id e he).2.1
        · exact hk.retired id hid
    have hdisjoint : Disjoint (Table.keys s.entries) h.retired.toFinset := by
      rw [Finset.disjoint_left]
      intro id hid hret
      obtain ⟨e, he⟩ := (Table.mem_keys _ _).1 hid
      exact (hk.live id e he).2.2.1 (List.mem_toFinset.1 hret)
    have hcard := congrArg Finset.card hsplit
    rw [Finset.card_union_of_disjoint hdisjoint, List.toFinset_card_of_nodup hk.unique,
      List.toFinset_card_of_nodup hk.retiredOnce, List.length_map, ← size_eq_card] at hcard
    exact hcard.symm
  retiredOnce := hk.retiredOnce
  timedOutOnce := hk.timedOutOnce
  timedOut := hk.timedOut
  requestedOnce := hk.requestedOnce
  cancelled := hk.cancelled

/-! ## Moves -/

structure Same (s s' : PendingRequests) : Prop where
  entries : s'.entries = s.entries
  nextId : s'.nextId = s.nextId
  timedOut : s'.timedOut = s.timedOut
  cancelled : s'.cancelled = s.cancelled
  capacity : s'.capacity = s.capacity

theorem Kept.same (hk : Kept s h) (hs : Same s s') : Kept s' h where
  unique := hk.unique
  range := hk.range
  fresh := by rw [hs.nextId]; exact hk.fresh
  live := by rw [hs.entries]; exact hk.live
  out := by rw [hs.entries]; exact hk.out
  retired := hk.retired
  retiredOnce := hk.retiredOnce
  acceptedOnce := hk.acceptedOnce
  accepted := hk.accepted
  timedOutOnce := hk.timedOutOnce
  timedOutRetired := hk.timedOutRetired
  timedOut := by rw [hs.timedOut]; exact hk.timedOut
  requestedOnce := hk.requestedOnce
  requestedIssued := hk.requestedIssued
  cancelled := by rw [hs.cancelled]; exact hk.cancelled
  bounded := by rw [hs.entries, hs.capacity]; exact hk.bounded

variable {e : Entry}

theorem Kept.issue (hk : Kept s h)
    (hnext : s.nextId = some id) (hroom : s.entries.size < s.capacity) (hid : e.correlation.id = id)
    (hactive : e.state = .active) (hentries : s'.entries = s.entries.insert id e)
    (hnext' : s'.nextId = if id < maxJsonrpcNumericId then some (id + 1) else none)
    (htimed : s'.timedOut = s.timedOut) (hcancelled : s'.cancelled = s.cancelled)
    (hcapacity : s'.capacity = s.capacity) : Kept s' { h with issued := (id, e.deadlineMs) :: h.issued } := by
  obtain ⟨hpos, hmax, hbelow⟩ := hk.fresh id hnext
  have hnew : id ∉ h.issued.map Prod.fst := by
    intro hin
    obtain ⟨p, hp, heq⟩ := List.mem_map.1 hin
    have := hbelow p hp
    omega
  have hget : ∀ k, s'.entries[k]? = if id = k then some e else s.entries[k]? := by
    intro k
    rw [hentries, Table.get_insert]
  refine ⟨?_, ?_, ?_, ?_, ?_, ?_, hk.retiredOnce, hk.acceptedOnce, ?_, hk.timedOutOnce, hk.timedOutRetired, ?_,
    hk.requestedOnce, ?_, ?_, ?_⟩
  · exact List.nodup_cons.2 ⟨hnew, hk.unique⟩
  · exact List.forall_mem_cons.2 ⟨⟨hpos, hmax⟩, hk.range⟩
  · intro next hn
    rw [hnext'] at hn
    split at hn
    · cases hn
      refine ⟨by omega, by omega, List.forall_mem_cons.2 ⟨Nat.lt_succ_self id, fun p hp => ?_⟩⟩
      exact Nat.lt_succ_of_lt (hbelow p hp)
    · cases hn
  · intro k e' he'
    rw [hget] at he'
    split at he'
    · rename_i heq
      cases he'
      subst heq
      refine ⟨hid, .head _, fun hin => hnew (hk.retired _ hin), ?_⟩
      exact ⟨fun _ hin => hnew (hk.requestedIssued _ hin), fun _ => hactive⟩
    · obtain ⟨h1, h2, h3, h4⟩ := hk.live k e' he'
      exact ⟨h1, .tail _ h2, h3, h4⟩
  · refine List.forall_mem_cons.2 ⟨fun hnone => ?_, fun p hp hnone => ?_⟩
    · rw [hget, if_pos rfl] at hnone
      cases hnone
    · rw [hget] at hnone
      split at hnone
      · cases hnone
      · exact hk.out p hp hnone
  · exact fun k hin => .tail _ (hk.retired k hin)
  · intro p hp
    obtain ⟨h1, h2, d, hd, hlt⟩ := hk.accepted p hp
    exact ⟨h1, h2, d, .tail _ hd, hlt⟩
  · rw [htimed]
    exact hk.timedOut
  · exact fun k hin => .tail _ (hk.requestedIssued k hin)
  · rw [hcancelled]
    exact hk.cancelled
  · rw [hentries, hcapacity]
    exact Nat.le_trans Std.ExtTreeMap.size_insert_le hroom

theorem Kept.retire (hk : Kept s h) (s' : PendingRequests)
    (hentries : ∀ (id : Nat) (e : Entry), s'.entries[id]? = some e → s.entries[id]? = some e) (hnext : s'.nextId = s.nextId)
    (htimed : s'.timedOut = s.timedOut) (hcancelled : s'.cancelled = s.cancelled)
    (hcapacity : s'.capacity = s.capacity) : Kept s' { h with retired := gone s s' ++ h.retired } := by
  refine ⟨hk.unique, hk.range, ?_, ?_, ?_, ?_, ?_, hk.acceptedOnce, ?_, hk.timedOutOnce, ?_, ?_, hk.requestedOnce,
    hk.requestedIssued, ?_, ?_⟩
  · rw [hnext]
    exact hk.fresh
  · intro id e he
    obtain ⟨h1, h2, h3, h4⟩ := hk.live id e (hentries id e he)
    refine ⟨h1, h2, ?_, h4⟩
    rw [List.mem_append, not_or]
    refine ⟨fun hin => ?_, h3⟩
    rw [(mem_gone.1 hin).2] at he
    cases he
  · intro p hp hnone
    rw [List.mem_append]
    cases he : s.entries[p.1]? with
    | none => exact .inr (hk.out p hp he)
    | some e => exact .inl (mem_gone.2 ⟨⟨e, he⟩, hnone⟩)
  · intro id hid
    rcases List.mem_append.1 hid with hin | hin
    · obtain ⟨⟨e, he⟩, -⟩ := mem_gone.1 hin
      exact List.mem_map_of_mem (f := Prod.fst) (hk.live id e he).2.1
    · exact hk.retired id hin
  · rw [List.nodup_append]
    refine ⟨nodup_gone s s', hk.retiredOnce, fun id hin id' hin' heq => ?_⟩
    subst heq
    obtain ⟨⟨e, he⟩, -⟩ := mem_gone.1 hin
    exact (hk.live id e he).2.2.1 hin'
  · intro p hp
    obtain ⟨h1, h2⟩ := hk.accepted p hp
    exact ⟨List.mem_append_right _ h1, h2⟩
  · exact fun id hid => List.mem_append_right _ (hk.timedOutRetired id hid)
  · rw [htimed]
    exact hk.timedOut
  · rw [hcancelled]
    exact hk.cancelled
  · rw [hcapacity]
    refine Nat.le_trans ?_ hk.bounded
    rw [size_eq_card, size_eq_card]
    refine Finset.card_le_card (fun id hid => ?_)
    obtain ⟨e, he⟩ := (Table.mem_keys _ _).1 hid
    exact (Table.mem_keys _ _).2 ⟨e, hentries id e he⟩

variable {nowMs : Nat}

theorem Kept.accept (hk : Kept s h) {deadlineMs : Nat}
    (hret : id ∈ h.retired) (hnew : id ∉ h.accepted.map Prod.fst) (hreq : id ∉ h.requested)
    (hissued : (id, deadlineMs) ∈ h.issued) (hlt : nowMs < deadlineMs) :
    Kept s { h with accepted := (id, nowMs) :: h.accepted } :=
  { hk with
    acceptedOnce := List.nodup_cons.2 ⟨hnew, hk.acceptedOnce⟩
    accepted := List.forall_mem_cons.2 ⟨⟨hret, hreq, deadlineMs, hissued, hlt⟩, hk.accepted⟩ }

theorem Kept.timeOut (hk : Kept s h) (s' : PendingRequests) (ids : List Nat)
    (hret : ∀ id ∈ ids, id ∈ h.retired) (honce : ids.Nodup) (hnew : ∀ id ∈ ids, id ∉ h.timedOut)
    (hentries : s'.entries = s.entries) (hnext : s'.nextId = s.nextId)
    (htimed : s'.timedOut = saturatingAdd s.timedOut ids.length) (hcancelled : s'.cancelled = s.cancelled)
    (hcapacity : s'.capacity = s.capacity) : Kept s' { h with timedOut := ids ++ h.timedOut } := by
  have hnodup : (ids ++ h.timedOut).Nodup := by
    rw [List.nodup_append]
    refine ⟨honce, hk.timedOutOnce, fun id hin id' hin' heq => hnew id hin ?_⟩
    rw [heq]
    exact hin'
  have hsub : ∀ id ∈ ids ++ h.timedOut, id ∈ h.retired := by
    intro id hid
    rcases List.mem_append.1 hid with hin | hin
    · exact hret id hin
    · exact hk.timedOutRetired id hin
  have hfew := hk.count_le hnodup (fun id hid => hk.retired id (hsub id hid))
  refine ⟨hk.unique, hk.range, ?_, ?_, ?_, hk.retired, hk.retiredOnce, hk.acceptedOnce, hk.accepted, hnodup, hsub, ?_,
    hk.requestedOnce, hk.requestedIssued, ?_, ?_⟩
  · rw [hnext]
    exact hk.fresh
  · rw [hentries]
    exact hk.live
  · rw [hentries]
    exact hk.out
  · rw [htimed, hk.timedOut, List.length_append, saturatingAdd]
    rw [List.length_append] at hfew
    unfold maxJsonrpcNumericId at hfew
    unfold u64Max
    omega
  · rw [hcancelled]
    exact hk.cancelled
  · rw [hentries, hcapacity]
    exact hk.bounded

theorem Kept.request (hk : Kept s h) (id : Nat)
    (hissued : id ∈ h.issued.map Prod.fst) (hnew : id ∉ h.requested) (haccepted : id ∉ h.accepted.map Prod.fst)
    (hlive : ∀ (k : Nat) (e' : Entry), s'.entries[k]? = some e' → ∃ e, s.entries[k]? = some e ∧
      e'.correlation.id = e.correlation.id ∧ e'.deadlineMs = e.deadlineMs ∧ (e'.state = .active ↔ e.state = .active ∧ k ≠ id))
    (hout : ∀ k : Nat, s'.entries[k]? = none → s.entries[k]? = none) (hsize : s'.entries.size ≤ s.entries.size)
    (hnext : s'.nextId = s.nextId) (htimed : s'.timedOut = s.timedOut)
    (hcancelled : s'.cancelled = saturatingAdd s.cancelled 1) (hcapacity : s'.capacity = s.capacity) :
    Kept s' { h with requested := id :: h.requested } := by
  have hnodup : (id :: h.requested).Nodup := List.nodup_cons.2 ⟨hnew, hk.requestedOnce⟩
  have hsub : ∀ k ∈ id :: h.requested, k ∈ h.issued.map Prod.fst :=
    List.forall_mem_cons.2 ⟨hissued, hk.requestedIssued⟩
  have hfew := hk.count_le hnodup hsub
  refine ⟨hk.unique, hk.range, ?_, ?_, ?_, hk.retired, hk.retiredOnce, hk.acceptedOnce, ?_, hk.timedOutOnce,
    hk.timedOutRetired, ?_, hnodup, hsub, ?_, ?_⟩
  · rw [hnext]
    exact hk.fresh
  · intro k e' he'
    obtain ⟨e, he, hid, hdeadline, hstate⟩ := hlive k e' he'
    obtain ⟨h1, h2, h3, h4⟩ := hk.live k e he
    refine ⟨hid.trans h1, by rw [hdeadline]; exact h2, h3, ?_⟩
    rw [hstate, h4, List.mem_cons, not_or]
    exact ⟨fun h => ⟨h.2, h.1⟩, fun h => ⟨h.2, h.1⟩⟩
  · exact fun p hp hnone => hk.out p hp (hout p.1 hnone)
  · intro p hp
    obtain ⟨h1, h2, h3⟩ := hk.accepted p hp
    refine ⟨h1, ?_, h3⟩
    rw [List.mem_cons, not_or]
    refine ⟨fun heq => haccepted ?_, h2⟩
    rw [← heq]
    exact List.mem_map_of_mem (f := Prod.fst) hp
  · rw [htimed]
    exact hk.timedOut
  · rw [hcancelled, hk.cancelled, saturatingAdd, List.length_cons]
    rw [List.length_cons] at hfew
    unfold maxJsonrpcNumericId at hfew
    unfold u64Max
    omega
  · rw [hcapacity]
    exact Nat.le_trans hsize hk.bounded

theorem gone_eq_nil (h : ∀ id : Nat, s'.entries[id]? = none → s.entries[id]? = none) : gone s s' = [] := by
  rw [List.eq_nil_iff_forall_not_mem]
  intro id hin
  obtain ⟨⟨e, he⟩, hnone⟩ := mem_gone.1 hin
  rw [h id hnone] at he
  cases he

structure Left (s s' : PendingRequests) (id : Nat) (e : Entry) : Prop where
  found : s.entries[id]? = some e
  entries : s'.entries = s.entries.erase id
  nextId : s'.nextId = s.nextId
  capacity : s'.capacity = s.capacity

theorem Left.get (hl : Left s s' id e) (k : Nat) : s'.entries[k]? = if id = k then none else s.entries[k]? := by
  rw [hl.entries, Std.ExtTreeMap.getElem?_erase]
  simp only [Std.LawfulEqCmp.compare_eq_iff_eq]

def PendingRequests.uncounted (s s' : PendingRequests) : PendingRequests :=
  { s' with timedOut := s.timedOut, cancelled := s.cancelled }

theorem Kept.leave (hk : Kept s h) (hl : Left s s' id e) :
    Kept (s.uncounted s') { h with retired := gone s s' ++ h.retired } ∧ id ∈ gone s s' ++ h.retired ∧
      id ∉ h.accepted.map Prod.fst ∧ id ∉ h.timedOut ∧ e.correlation.id = id ∧ (id, e.deadlineMs) ∈ h.issued ∧
      (e.state = .active ↔ id ∉ h.requested) := by
  obtain ⟨hid, hissued, hret, hstate⟩ := hk.live id e hl.found
  refine ⟨hk.retire _ (fun k e' he' => ?_) hl.nextId rfl rfl hl.capacity, ?_, ?_, ?_, hid, hissued, hstate⟩
  · have hget := hl.get k
    rw [show (s.uncounted s').entries = s'.entries from rfl, hget] at he'
    split at he'
    · cases he'
    · exact he'
  · refine List.mem_append_left _ (mem_gone.2 ⟨⟨e, hl.found⟩, ?_⟩)
    rw [hl.get, if_pos rfl]
  · intro hin
    obtain ⟨p, hp, rfl⟩ := List.mem_map.1 hin
    exact hret (hk.accepted p hp).1
  · exact fun hin => hret (hk.timedOutRetired id hin)

/-! ## Requests -/

theorem observeClock_cases (s : PendingRequests) (nowMs : Nat) : (∃ e, observeClock s.lastNowMs nowMs = .error e) ∨
      (observeClock s.lastNowMs nowMs = .ok (some nowMs) ∧ ∀ previousMs, s.lastNowMs = some previousMs → previousMs ≤ nowMs) := by
  unfold observeClock
  cases s.lastNowMs with
  | none => exact .inr ⟨rfl, fun _ h => nomatch h⟩
  | some previousMs =>
    dsimp only
    split
    · exact .inl ⟨_, rfl⟩
    · rename_i hlt
      refine .inr ⟨rfl, fun p hp => ?_⟩
      cases hp
      exact Nat.not_lt.1 hlt

def PendingRequests.ticked (s : PendingRequests) (nowMs : Nat) : PendingRequests := { s with lastNowMs := some nowMs }

theorem atTime_cases {α : Type} (s : PendingRequests) (nowMs : Nat)
    (f : PendingRequests → PendingRequests × Except LspError α) : (∃ e, s.atTime nowMs f = (s, .error e)) ∨
      (s.atTime nowMs f = f (s.ticked nowMs) ∧ ∀ previousMs, s.lastNowMs = some previousMs → previousMs ≤ nowMs) := by
  unfold PendingRequests.atTime
  rcases observeClock_cases s nowMs with ⟨e, he⟩ | ⟨hok, hle⟩
  · rw [he]
    exact .inl ⟨e, rfl⟩
  · rw [hok]
    exact .inr ⟨rfl, hle⟩

variable {s' : PendingRequests}

theorem issueInner_cases (s : PendingRequests) (method : String) (snapshot : Option DocumentSnapshot)
    (nowMs timeoutMs : Nat) {r : Except LspError RequestCorrelation}
    (hr : s.issueInner method snapshot nowMs timeoutMs = (s', r)) : (Same s s' ∧ ∃ e, r = .error e) ∨
      ∃ id e, s.nextId = some id ∧ s.entries.size < s.capacity ∧ e.correlation.id = id ∧ e.state = .active ∧
        e.deadlineMs = nowMs + timeoutMs ∧ r = .ok e.correlation ∧ s' =
          { s.ticked nowMs with
            nextId := if id < maxJsonrpcNumericId then some (id + 1) else none
            entries := s.entries.insert id e } := by
  obtain ⟨rfl, rfl⟩ : _ ∧ _ := ⟨congrArg Prod.fst hr, congrArg Prod.snd hr⟩
  clear hr
  unfold PendingRequests.issueInner
  rcases atTime_cases s nowMs _ with ⟨e, he⟩ | ⟨hok, -⟩
  · rw [he]
    exact .inl ⟨⟨rfl, rfl, rfl, rfl, rfl⟩, e, rfl⟩
  · rw [hok]
    split
    · exact .inl ⟨⟨rfl, rfl, rfl, rfl, rfl⟩, _, rfl⟩
    · cases hadd : Machine.checkedAdd nowMs timeoutMs with
      | none => exact .inl ⟨⟨rfl, rfl, rfl, rfl, rfl⟩, _, rfl⟩
      | some deadlineMs =>
        dsimp only
        split
        · exact .inl ⟨⟨rfl, rfl, rfl, rfl, rfl⟩, _, rfl⟩
        · rename_i hroom
          cases hnext : (s.ticked nowMs).nextId with
          | none => exact .inl ⟨⟨rfl, rfl, rfl, rfl, rfl⟩, _, rfl⟩
          | some id =>
            refine .inr ⟨id, ⟨⟨s.serverEpoch, id, method⟩, snapshot, nowMs, deadlineMs, .active⟩, hnext,
              Nat.not_le.1 hroom, rfl, rfl, Machine.checkedAdd_eq_some hadd, rfl, rfl⟩

theorem retiredReply_quiet (s : PendingRequests) {readerGeneration : Nat} (h : s.entries[id]? = none) :
    acceptedBy (.resolve readerGeneration id nowMs) (.resolved (.ok (s.retiredReply id nowMs))) = [] ∧
      timedOutBy s (.resolved (.ok (s.retiredReply id nowMs))) = [] := by
  unfold PendingRequests.retiredReply
  split
  · split
    · exact ⟨rfl, rfl⟩
    · exact ⟨rfl, rfl⟩
    · refine ⟨rfl, if_neg ?_⟩
      rw [Bool.not_eq_true, Table.contains_eq_false]
      exact h
  · split
    · exact ⟨rfl, rfl⟩
    · exact ⟨rfl, rfl⟩

theorem resolve_cases (s : PendingRequests) (readerGeneration id nowMs : Nat)
    {r : Except LspError ReplyDisposition} (hr : s.resolve readerGeneration id nowMs = (s', r)) :
    (Same s s' ∧ acceptedBy (.resolve readerGeneration id nowMs) (.resolved r) = [] ∧ timedOutBy s (.resolved r) = []) ∨
      ∃ e, Left s s' id e ∧ s'.cancelled = s.cancelled ∧
        ((s'.timedOut = saturatingAdd s.timedOut 1 ∧ r = .ok (.late (PendingRequests.expired e nowMs))) ∨
          (s'.timedOut = s.timedOut ∧ nowMs < e.deadlineMs ∧ e.state = .active ∧
            r = .ok (.accepted ⟨e.correlation, e.documentSnapshot⟩)) ∨
          (s'.timedOut = s.timedOut ∧ r = .ok (.cancelled e.correlation))) := by
  obtain ⟨rfl, rfl⟩ : _ ∧ _ := ⟨congrArg Prod.fst hr, congrArg Prod.snd hr⟩
  clear hr
  unfold PendingRequests.resolve
  split
  · exact .inl ⟨⟨rfl, rfl, rfl, rfl, rfl⟩, rfl, rfl⟩
  · rcases atTime_cases s nowMs _ with ⟨e, he⟩ | ⟨hok, -⟩
    · rw [he]
      exact .inl ⟨⟨rfl, rfl, rfl, rfl, rfl⟩, rfl, rfl⟩
    · rw [hok]
      cases hget : (s.ticked nowMs).entries[id]? with
      | none => exact .inl ⟨⟨rfl, rfl, rfl, rfl, rfl⟩, retiredReply_quiet (s.ticked nowMs) hget⟩
      | some e =>
        dsimp only
        refine .inr ⟨e, ?_⟩
        split
        · exact ⟨⟨hget, rfl, rfl, rfl⟩, rfl, .inl ⟨rfl, rfl⟩⟩
        · rename_i hlate
          cases hstate : e.state with
          | active => exact ⟨⟨hget, rfl, rfl, rfl⟩, rfl, .inr (.inl ⟨rfl, Nat.not_le.1 hlate, rfl, rfl⟩)⟩
          | cancelling => exact ⟨⟨hget, rfl, rfl, rfl⟩, rfl, .inr (.inr ⟨rfl, rfl⟩)⟩

theorem absent_quiet (s s' : PendingRequests) (readerGeneration id : Nat) :
    requestedBy (.cancelled (.ok (s.absent readerGeneration id))) = [] ∧
      timedOutBy s' (.cancelled (.ok (s.absent readerGeneration id))) = [] := by
  unfold PendingRequests.absent
  split
  · exact ⟨rfl, rfl⟩
  · exact ⟨rfl, rfl⟩

theorem cancel_cases (s : PendingRequests) (readerGeneration id nowMs : Nat)
    {r : Except LspError CancelDisposition} (hr : s.cancel readerGeneration id nowMs = (s', r)) :
    (Same s s' ∧ requestedBy (.cancelled r) = [] ∧ timedOutBy s (.cancelled r) = []) ∨
      (∃ e, Left s s' id e ∧ s'.cancelled = s.cancelled ∧ s'.timedOut = saturatingAdd s.timedOut 1 ∧
        r = .ok (.timedOut (PendingRequests.expired e nowMs))) ∨ ∃ e, s.entries[id]? = some e ∧ e.state = .active ∧ s' =
          { s.ticked nowMs with
            entries := s.entries.insert id { e with state := .cancelling }
            cancelled := saturatingAdd s.cancelled 1 } ∧
        r = .ok (.cancellationRequested e.correlation) := by
  obtain ⟨rfl, rfl⟩ : _ ∧ _ := ⟨congrArg Prod.fst hr, congrArg Prod.snd hr⟩
  clear hr
  unfold PendingRequests.cancel
  split
  · exact .inl ⟨⟨rfl, rfl, rfl, rfl, rfl⟩, rfl, rfl⟩
  · rcases atTime_cases s nowMs _ with ⟨e, he⟩ | ⟨hok, -⟩
    · rw [he]
      exact .inl ⟨⟨rfl, rfl, rfl, rfl, rfl⟩, rfl, rfl⟩
    · rw [hok]
      cases hget : (s.ticked nowMs).entries[id]? with
      | none => exact .inl ⟨⟨rfl, rfl, rfl, rfl, rfl⟩, absent_quiet _ _ _ _⟩
      | some e =>
        dsimp only
        split
        · exact .inr (.inl ⟨e, ⟨hget, rfl, rfl, rfl⟩, rfl, rfl, rfl⟩)
        · cases hstate : e.state with
          | active => exact .inr (.inr ⟨e, hget, hstate, rfl, rfl⟩)
          | cancelling => exact .inl ⟨⟨rfl, rfl, rfl, rfl, rfl⟩, rfl, rfl⟩

theorem cancelAndRelease_cases (s : PendingRequests) (readerGeneration id nowMs : Nat)
    {r : Except LspError CancelDisposition} (hr : s.cancelAndRelease readerGeneration id nowMs = (s', r)) :
    (Same s s' ∧ requestedBy (.cancelled r) = [] ∧ timedOutBy s (.cancelled r) = []) ∨ ∃ e, Left s s' id e ∧
        ((s'.cancelled = s.cancelled ∧ s'.timedOut = saturatingAdd s.timedOut 1 ∧
            r = .ok (.timedOut (PendingRequests.expired e nowMs))) ∨
          (s'.cancelled = saturatingAdd s.cancelled 1 ∧ s'.timedOut = s.timedOut ∧
            r = .ok (.cancellationRequested e.correlation) ∧
            readerGeneration = s.serverEpoch.generation ∧ nowMs < e.deadlineMs ∧
            ∀ previousMs, s.lastNowMs = some previousMs → previousMs ≤ nowMs)) := by
  obtain ⟨rfl, rfl⟩ : _ ∧ _ := ⟨congrArg Prod.fst hr, congrArg Prod.snd hr⟩
  clear hr
  unfold PendingRequests.cancelAndRelease
  split
  · exact .inl ⟨⟨rfl, rfl, rfl, rfl, rfl⟩, rfl, rfl⟩
  · rename_i hgeneration
    rcases atTime_cases s nowMs _ with ⟨e, he⟩ | ⟨hok, hclock⟩
    · rw [he]
      exact .inl ⟨⟨rfl, rfl, rfl, rfl, rfl⟩, rfl, rfl⟩
    · rw [hok]
      cases hget : (s.ticked nowMs).entries[id]? with
      | none => exact .inl ⟨⟨rfl, rfl, rfl, rfl, rfl⟩, absent_quiet _ _ _ _⟩
      | some e =>
        dsimp only
        refine .inr ⟨e, ?_⟩
        split
        · exact ⟨⟨hget, rfl, rfl, rfl⟩, .inl ⟨rfl, rfl, rfl⟩⟩
        · rename_i hlate
          exact ⟨⟨hget, rfl, rfl, rfl⟩, .inr ⟨rfl, rfl, rfl, not_not.1 hgeneration, Nat.not_le.1 hlate, hclock⟩⟩

theorem foldl_sweep (nowMs : Nat) : ∀ (ids : List Nat) (s : PendingRequests) (out : List Expired),
    ids.Nodup → (∀ id ∈ ids, ∃ e, s.entries[id]? = some e ∧ e.correlation.id = id) →
    ((ids.foldl (PendingRequests.sweep nowMs) (s, out)).2.map Expired.id = out.map Expired.id ++ ids) ∧
      (∀ k : Nat, (ids.foldl (PendingRequests.sweep nowMs) (s, out)).1.entries[k]? =
        if k ∈ ids then none else s.entries[k]?) ∧
      (ids.foldl (PendingRequests.sweep nowMs) (s, out)).1.nextId = s.nextId ∧
      (ids.foldl (PendingRequests.sweep nowMs) (s, out)).1.timedOut = s.timedOut ∧
      (ids.foldl (PendingRequests.sweep nowMs) (s, out)).1.cancelled = s.cancelled ∧
      (ids.foldl (PendingRequests.sweep nowMs) (s, out)).1.capacity = s.capacity
  | [], s, out, _, _ => ⟨(List.append_nil _).symm, fun k => by rw [if_neg List.not_mem_nil]; rfl, rfl, rfl, rfl, rfl⟩
  | id :: ids, s, out, hnodup, hlive => by
    obtain ⟨hnew, hrest⟩ := List.nodup_cons.1 hnodup
    obtain ⟨⟨e, he, hid⟩, hothers⟩ := List.forall_mem_cons.1 hlive
    have hleft : Left s ((s.remove id).remember e.correlation (.timedOut e.issuedMs)) id e := ⟨he, rfl, rfl, rfl⟩
    have hsweep : PendingRequests.sweep nowMs (s, out) id =
        ((s.remove id).remember e.correlation (.timedOut e.issuedMs), out ++ [PendingRequests.expired e nowMs]) := by
      unfold PendingRequests.sweep
      rw [he]
    rw [List.foldl_cons, hsweep]
    obtain ⟨hids, hget, hnext, htimed, hcancelled, hcapacity⟩ := foldl_sweep nowMs ids
      ((s.remove id).remember e.correlation (.timedOut e.issuedMs)) (out ++ [PendingRequests.expired e nowMs]) hrest
      (fun k hk => by
        have hne : id ≠ k := fun heq => hnew (heq ▸ hk)
        rw [hleft.get, if_neg hne]
        exact hothers k hk)
    refine ⟨?_, fun k => ?_, hnext, htimed, hcancelled, hcapacity⟩
    · rw [hids, List.map_append, List.append_assoc]
      rw [← hid]
      rfl
    · rw [hget, hleft.get]
      by_cases hk : k ∈ ids
      · rw [if_pos hk, if_pos (List.mem_cons_of_mem _ hk)]
      · rw [if_neg hk]
        by_cases hidk : id = k
        · rw [if_pos hidk, if_pos (hidk ▸ List.mem_cons_self)]
        · rw [if_neg hidk, if_neg]
          rw [List.mem_cons, not_or]
          exact ⟨Ne.symm hidk, hk⟩

theorem nodup_due (s : PendingRequests) (nowMs : Nat) : (s.due nowMs).Nodup := by
  have hkeys : s.entries.keys.Nodup := Std.ExtTreeMap.nodup_keys
  rw [← Std.ExtTreeMap.map_fst_toList_eq_keys] at hkeys
  exact hkeys.sublist (List.filter_sublist.map _)

theorem live_of_mem_due (h : id ∈ s.due nowMs) : ∃ e, s.entries[id]? = some e := by
  obtain ⟨p, hp, rfl⟩ := List.mem_map.1 h
  exact ⟨p.2, (Table.mem_toList _ _ _).1 (List.mem_of_mem_filter hp)⟩

theorem gone_of_same (h : Same s s') : gone s s' = [] :=
  gone_eq_nil (fun id hnone => by rw [← h.entries]; exact hnone)

theorem Kept.mark (hk : Kept s h) (s' : PendingRequests) (he : s.entries[id]? = some e) (hactive : e.state = .active)
    (hentries : s'.entries = s.entries.insert id { e with state := .cancelling }) (hnext : s'.nextId = s.nextId)
    (htimed : s'.timedOut = s.timedOut) (hcancelled : s'.cancelled = saturatingAdd s.cancelled 1)
    (hcapacity : s'.capacity = s.capacity) : gone s s' = [] ∧ Kept s' { h with requested := id :: h.requested } := by
  have hget : ∀ k : Nat, s'.entries[k]? = if id = k then some { e with state := .cancelling } else s.entries[k]? := by
    intro k
    rw [hentries, Table.get_insert]
  obtain ⟨_, hissued, hret, hstate⟩ := hk.live id e he
  have hout : ∀ k : Nat, s'.entries[k]? = none → s.entries[k]? = none := by
    intro k hnone
    rw [hget] at hnone
    split at hnone
    · cases hnone
    · exact hnone
  have hkeys : Table.keys s'.entries = Table.keys s.entries := by
    rw [hentries, Table.keys_insert]
    exact Finset.insert_eq_of_mem ((Table.mem_keys _ _).2 ⟨e, he⟩)
  refine ⟨gone_eq_nil hout, hk.request id (List.mem_map_of_mem (f := Prod.fst) hissued) (hstate.1 hactive) ?_ ?_ hout ?_
    hnext htimed hcancelled hcapacity⟩
  · intro hin
    obtain ⟨p, hp, rfl⟩ := List.mem_map.1 hin
    exact hret (hk.accepted p hp).1
  · intro k e' he'
    rw [hget] at he'
    split at he'
    · rename_i heq
      subst heq
      cases he'
      refine ⟨e, he, rfl, rfl, ?_, fun h => absurd rfl h.2⟩
      intro h
      cases h
    · rename_i hne
      exact ⟨e', he', rfl, rfl, fun h => ⟨h, Ne.symm hne⟩, fun h => h.1⟩
  · rw [size_eq_card, size_eq_card, hkeys]

theorem kept_issue {s : PendingRequests} {h : History} (hk : Kept s h) {q : Request} {method : String}
    {snapshot : Option DocumentSnapshot} {nowMs timeoutMs : Nat}
    (hserve : s.serve q = ((s.issueInner method snapshot nowMs timeoutMs).1,
      .issued (s.issueInner method snapshot nowMs timeoutMs).2))
    (hissued : ∀ c, issuedBy q (.issued (.ok c)) = [(c.id, nowMs + timeoutMs)])
    (hquiet : ∀ e, issuedBy q (.issued (.error e)) = [] )
    (haccepted : ∀ r, acceptedBy q (.issued r) = []) : Kept (s.serve q).1 (h.note s q) := by
  unfold History.note
  rw [hserve]
  rcases issueInner_cases s method snapshot nowMs timeoutMs Prod.mk.eta.symm with ⟨hsame, e, he⟩ |
    ⟨id, e, hnext, hroom, hid, hactive, hdeadline, hok, hafter⟩
  · rw [he, hquiet, haccepted, gone_of_same hsame]
    exact hk.same hsame
  · rw [hok, hissued, haccepted, hafter]
    have hgone : gone s { s.ticked nowMs with
        nextId := if id < maxJsonrpcNumericId then some (id + 1) else none
        entries := s.entries.insert id e } = [] := by
      refine gone_eq_nil (fun k hnone => ?_)
      rw [Table.get_insert] at hnone
      split at hnone
      · cases hnone
      · exact hnone
    rw [hgone, hid, ← hdeadline]
    exact hk.issue hnext hroom hid hactive rfl rfl rfl rfl rfl

theorem Kept.expireOne (hk : Kept s h) (hleft : Left s s' id e) (hcancelled : s'.cancelled = s.cancelled)
    (htimed : s'.timedOut = saturatingAdd s.timedOut 1) : Kept s'
      { h with timedOut := [e.correlation.id] ++ h.timedOut, retired := gone s s' ++ h.retired } := by
  obtain ⟨hkept, hret, -, hnottime, hid, -, -⟩ := hk.leave hleft
  rw [hid]
  refine hkept.timeOut _ [id] ?_ (List.nodup_singleton id) ?_ rfl rfl htimed hcancelled rfl
  · intro k hk'
    rw [List.mem_singleton.1 hk']
    exact hret
  · intro k hk'
    rw [List.mem_singleton.1 hk']
    exact hnottime

theorem kept_resolve (hk : Kept s h) (readerGeneration id nowMs : Nat) :
    Kept (s.serve (.resolve readerGeneration id nowMs)).1 (h.note s (.resolve readerGeneration id nowMs)) := by
  unfold History.note PendingRequests.serve
  dsimp only
  rcases resolve_cases s readerGeneration id nowMs Prod.mk.eta.symm with ⟨hsame, hacc, htime⟩ | ⟨e, hleft, hcancelled, hcase⟩
  · rw [hacc, htime, gone_of_same hsame]
    exact hk.same hsame
  · obtain ⟨hkept, hret, hnotacc, -, hid, hissued, hstate⟩ := hk.leave hleft
    rcases hcase with ⟨htimed, hanswer⟩ | ⟨htimed, hlt, hactive, hanswer⟩ | ⟨htimed, hanswer⟩
    · rw [hanswer]
      have hby : timedOutBy s (.resolved (.ok (.late (PendingRequests.expired e nowMs)))) = [e.correlation.id] := by
        refine if_pos ?_
        show s.entries.contains e.correlation.id = true
        rw [hid, ← Std.ExtTreeMap.isSome_getElem?_eq_contains, hleft.found]
        rfl
      rw [hby]
      exact hk.expireOne hleft hcancelled htimed
    · have hby : acceptedBy (.resolve readerGeneration id nowMs) (.resolved (.ok (.accepted
          ⟨e.correlation, e.documentSnapshot⟩))) = [(id, nowMs)] := by
        rw [← hid]
        rfl
      rw [hanswer, hby]
      exact (hkept.accept hret hnotacc (hstate.1 hactive) hissued hlt).same ⟨rfl, rfl, htimed, hcancelled, rfl⟩
    · rw [hanswer]
      exact hkept.same ⟨rfl, rfl, htimed, hcancelled, rfl⟩

theorem kept_cancel (hk : Kept s h) (readerGeneration id nowMs : Nat) :
    Kept (s.serve (.cancel readerGeneration id nowMs)).1 (h.note s (.cancel readerGeneration id nowMs)) := by
  unfold History.note PendingRequests.serve
  dsimp only
  rcases cancel_cases s readerGeneration id nowMs Prod.mk.eta.symm with ⟨hsame, hreq, htime⟩ | ⟨e, hleft, hcancelled, htimed, hanswer⟩ |
    ⟨e, he, hactive, hafter, hanswer⟩
  · rw [hreq, htime, gone_of_same hsame]
    exact hk.same hsame
  · rw [hanswer]
    exact hk.expireOne hleft hcancelled htimed
  · obtain ⟨hgone, hkept⟩ := hk.mark (s.cancel readerGeneration id nowMs).1 he hactive (by rw [hafter])
      (by rw [hafter]; rfl) (by rw [hafter]; rfl) (by rw [hafter]) (by rw [hafter]; rfl)
    have hby : requestedBy (.cancelled (.ok (.cancellationRequested e.correlation))) = [id] := by
      rw [← (hk.live id e he).1]
      rfl
    rw [hanswer, hgone, hby]
    exact hkept

theorem kept_cancelAndRelease (hk : Kept s h) (readerGeneration id nowMs : Nat)
    (hq : Releasable s (.cancelAndRelease readerGeneration id nowMs)) :
    Kept (s.serve (.cancelAndRelease readerGeneration id nowMs)).1
      (h.note s (.cancelAndRelease readerGeneration id nowMs)) := by
  unfold History.note PendingRequests.serve
  dsimp only
  rcases cancelAndRelease_cases s readerGeneration id nowMs Prod.mk.eta.symm with ⟨hsame, hreq, htime⟩ | ⟨e, hleft, hcase⟩
  · rw [hreq, htime, gone_of_same hsame]
    exact hk.same hsame
  · rcases hcase with ⟨hcancelled, htimed, hanswer⟩ | ⟨hcancelled, htimed, hanswer, hgeneration, hlt, hclock⟩
    · rw [hanswer]
      exact hk.expireOne hleft hcancelled htimed
    · have hactive := hq hgeneration hclock e hleft.found hlt
      obtain ⟨hkept, _, hnotacc, -, hid, hissued, hstate⟩ := hk.leave hleft
      have hby : requestedBy (.cancelled (.ok (.cancellationRequested e.correlation))) = [id] := by
        rw [← hid]
        rfl
      rw [hanswer, hby]
      have hout : (s.uncounted (s.cancelAndRelease readerGeneration id nowMs).1).entries[id]? = none := by
        have := hleft.get id
        rw [if_pos rfl] at this
        exact this
      exact hkept.request id (List.mem_map_of_mem (f := Prod.fst) hissued) (hstate.1 hactive) hnotacc
        (fun k e' he' => ⟨e', he', rfl, rfl, fun h => ⟨h, fun heq => by
          subst heq
          rw [show (s.cancelAndRelease readerGeneration k nowMs).1.entries[k]? = none from hout] at he'
          cases he'⟩, fun h => h.1⟩)
        (fun _ hnone => hnone) (Nat.le_refl _) rfl htimed hcancelled rfl

theorem kept_expire (hk : Kept s h) (nowMs : Nat) : Kept (s.serve (.expire nowMs)).1 (h.note s (.expire nowMs)) := by
  unfold History.note PendingRequests.serve
  dsimp only
  unfold PendingRequests.expire
  rcases atTime_cases s nowMs _ with ⟨e, he⟩ | ⟨hok, -⟩
  · rw [he, gone_of_same ⟨rfl, rfl, rfl, rfl, rfl⟩]
    exact hk
  · rw [hok]
    have hids := nodup_due s nowMs
    obtain ⟨hreport, hget, hnext, htimed, hcancelled, hcapacity⟩ := foldl_sweep nowMs (s.due nowMs) (s.ticked nowMs) [] hids
      (fun id hid => by
        obtain ⟨e, he⟩ := live_of_mem_due hid
        exact ⟨e, he, (hk.live id e he).1⟩)
    have hdue : (s.ticked nowMs).due nowMs = s.due nowMs := rfl
    rw [hdue]
    generalize (s.due nowMs).foldl (PendingRequests.sweep nowMs) (s.ticked nowMs, []) = swept at *
    have hlength : swept.2.length = (s.due nowMs).length := by
      have := congrArg List.length hreport
      simpa using this
    have hretire := hk.retire swept.1 (fun id e he => by
      rw [hget] at he
      split at he
      · cases he
      · exact he) hnext htimed hcancelled hcapacity
    have hgone : ∀ id ∈ s.due nowMs, id ∈ gone s swept.1 := by
      intro id hid
      refine mem_gone.2 ⟨live_of_mem_due hid, ?_⟩
      rw [hget, if_pos hid]
    have hkept := hretire.timeOut { swept.1 with timedOut := saturatingAdd swept.1.timedOut swept.2.length } (s.due nowMs)
      (fun id hid => List.mem_append_left _ (hgone id hid)) hids
      (fun id hid hin => by
        obtain ⟨e, he⟩ := live_of_mem_due hid
        exact (hk.live id e he).2.2.1 (hk.timedOutRetired id hin))
      rfl rfl (by rw [hlength]) rfl rfl
    have hreport' : timedOutBy s (.expired (.ok swept.2)) = s.due nowMs := hreport
    rw [hreport']
    exact hkept

/-- **A request that meets the condition keeps the invariant.** -/
theorem kept_serve (hk : Kept s h) (q : Request) (hq : Releasable s q) : Kept (s.serve q).1 (h.note s q) := by
  cases q with
  | issue method nowMs timeoutMs =>
    exact @kept_issue s h hk _ method none nowMs timeoutMs rfl (fun _ => rfl) (fun _ => rfl) (fun _ => rfl)
  | issueForDocument method snapshot nowMs timeoutMs =>
    by_cases hepoch : snapshot.serverEpoch ≠ s.serverEpoch
    · have hserve : s.serve (.issueForDocument method snapshot nowMs timeoutMs) = (s.refuse, .issued (.error
          (.serverEpochMismatch s.serverEpoch.generation snapshot.serverEpoch.generation))) := by
        simp only [PendingRequests.serve, PendingRequests.issueForDocument, if_pos hepoch]
      unfold History.note
      have hsame : Same s s.refuse := ⟨rfl, rfl, rfl, rfl, rfl⟩
      rw [hserve, gone_of_same hsame]
      exact hk.same hsame
    · refine @kept_issue s h hk _ method (some snapshot) nowMs timeoutMs ?_ (fun _ => rfl) (fun _ => rfl) (fun _ => rfl)
      simp only [PendingRequests.serve, PendingRequests.issueForDocument, if_neg hepoch]
  | resolve readerGeneration id nowMs => exact kept_resolve hk readerGeneration id nowMs
  | cancel readerGeneration id nowMs => exact kept_cancel hk readerGeneration id nowMs
  | cancelAndRelease readerGeneration id nowMs => exact kept_cancelAndRelease hk readerGeneration id nowMs hq
  | expire nowMs => exact kept_expire hk nowMs

theorem kept_new {generation capacity : Nat}
    (h : PendingRequests.withCapacity generation capacity = .ok s) : Kept s {} := by
  unfold PendingRequests.withCapacity at h
  split at h
  · cases h
    refine ⟨List.nodup_nil, fun p hp => absurd hp List.not_mem_nil, ?_, ?_, fun p hp => absurd hp List.not_mem_nil,
      fun id hid => absurd hid List.not_mem_nil, List.nodup_nil, List.nodup_nil, fun p hp => absurd hp List.not_mem_nil,
      List.nodup_nil, fun id hid => absurd hid List.not_mem_nil, rfl, List.nodup_nil,
      fun id hid => absurd hid List.not_mem_nil, rfl, ?_⟩
    · intro next hnext
      cases hnext
      exact ⟨Nat.le_refl 1, by decide, fun p hp => absurd hp List.not_mem_nil⟩
    · intro id e he
      simp at he
    · simp
  · cases h

/-- **Every id is accounted for** in every state of a registry that never releases a request already asked to be
cancelled. -/
theorem registry_accounts (generation capacity : Nat) (s : PendingRequests) (h : History)
    (hs : Served generation capacity Releasable s h) : Accounted s h := by
  suffices hk : Kept s h from hk.accounted
  induction hs with
  | new s hnew => exact kept_new hnew
  | serve s h q _ hq ih => exact kept_serve ih q hq

/-- A registry of two slots after a request and its cancellation. -/
def cancelling : PendingRequests × History :=
  let new : PendingRequests := { serverEpoch := ⟨7⟩, capacity := 2 }
  let issued := (new.serve (.issue "hover" 0 10)).1
  ((issued.serve (.cancel 7 1 3)).1,
    (History.note {} new (.issue "hover" 0 10)).note issued (.cancel 7 1 3))

theorem served_cancelling (meets : PendingRequests → Request → Prop)
    (hissue : ∀ s, meets s (.issue "hover" 0 10)) (hcancel : ∀ s, meets s (.cancel 7 1 3)) :
    Served 7 2 meets cancelling.1 cancelling.2 :=
  .serve _ _ _ (.serve _ _ _ (.new _ rfl) (hissue _)) (hcancel _)

/-- A request issued, cancelled, and answered. -/
theorem registry_accounts_cancelled :
    Accounted (cancelling.1.serve (.resolve 7 1 5)).1 (cancelling.2.note cancelling.1 (.resolve 7 1 5)) ∧
      (cancelling.2.note cancelling.1 (.resolve 7 1 5)).requested = [1] :=
  ⟨registry_accounts 7 2 _ _ (.serve _ _ _ (served_cancelling Releasable (fun _ => trivial) (fun _ => trivial)) trivial),
    by rfl⟩

/-- A cancelled request is asked to be cancelled again when it is released, and counted twice. -/
theorem not_registry_accounts : ¬ ∀ s h, Served 7 2 (fun _ _ => True) s h → Accounted s h := by
  intro hall
  have haccounted := hall _ _ (.serve _ _ (.cancelAndRelease 7 1 5)
    (served_cancelling (fun _ _ => True) (fun _ => trivial) (fun _ => trivial)) trivial)
  have honce := haccounted.requestedOnce
  have htwice : (cancelling.2.note cancelling.1 (.cancelAndRelease 7 1 5)).requested = [1, 1] := by rfl
  rw [htwice] at honce
  simp at honce

end Iteron.Lsp
