import Iteron.PluginAdmit
/-!
# PluginMerge — the merged surface as a function of the set of manifests

The claims of the admitted manifests carry their own total order, so the sorted claims of a slot do not depend on the
order of the manifests; the wiring, the contests and the refusals are read off them.
-/
namespace Iteron.Plugin

open Refuse

section Sorted

variable {α β : Type} [LinearOrder β] {key : α → β} {l l' : List α}

theorem pairwise_sort (key : α → β) (l : List α) :
    (l.insertionSort (fun a b => key a ≤ key b)).Pairwise (fun a b => key a ≤ key b) := by
  exact List.pairwise_insertionSort _ l

theorem sort_perm (h : l.Perm l') (hinj : ∀ a ∈ l, ∀ b ∈ l, key a = key b → a = b) :
    l.insertionSort (fun a b => key a ≤ key b) = l'.insertionSort (fun a b => key a ≤ key b) := by
  refine List.Perm.eq_of_pairwise (fun a b ha hb hab hba => ?_) (pairwise_sort key l) (pairwise_sort key l') ?_
  · rw [List.mem_insertionSort] at ha hb
    exact hinj a ha b (h.mem_iff.2 hb) (le_antisymm hab hba)
  · exact (List.perm_insertionSort _ l).trans (h.trans (List.perm_insertionSort _ l').symm)

theorem head_sort {w : α} (h : (l.insertionSort (fun a b => key a ≤ key b)).head? = some w) :
    w ∈ l ∧ ∀ c ∈ l, key w ≤ key c := by
  have hsorted := pairwise_sort key l
  have hmem : ∀ c, c ∈ l.insertionSort (fun a b => key a ≤ key b) ↔ c ∈ l := fun c => List.mem_insertionSort _
  cases hs : l.insertionSort (fun a b => key a ≤ key b) with
  | nil =>
    rw [hs] at h
    cases h
  | cons x _ =>
    rw [hs] at h hsorted hmem
    obtain rfl : x = w := Option.some.inj h
    refine ⟨(hmem x).1 (.head _), fun c hc => ?_⟩
    rcases List.mem_cons.1 ((hmem c).2 hc) with rfl | hc
    · exact le_refl _
    · exact (List.pairwise_cons.1 hsorted).1 c hc

theorem head_sort_none : (l.insertionSort (fun a b => key a ≤ key b)).head? = none ↔ l = [] := by
  rw [List.head?_eq_none_iff, ← List.length_eq_zero_iff, List.length_insertionSort, List.length_eq_zero_iff]

end Sorted

section Group

variable {α β : Type} {cmp : α → α → Ordering} [Std.TransCmp cmp] [Std.LawfulEqCmp cmp] [DecidableEq α]

theorem mem_valuesAt {l : List (α × β)} {k : α} {v : β} : v ∈ Table.valuesAt l k ↔ (k, v) ∈ l := by
  simp only [Table.valuesAt, List.mem_map, List.mem_filter, decide_eq_true_eq, Prod.exists]
  constructor
  · rintro ⟨_, _, ⟨hmem, rfl⟩, rfl⟩
    exact hmem
  · intro hmem
    exact ⟨k, v, ⟨hmem, rfl⟩, rfl⟩

theorem sorted_group_perm {f : List β → List β} {l l' : List (α × β)} (h : l.Perm l')
    (hf : ∀ k, f (Table.valuesAt l k) = f (Table.valuesAt l' k)) :
    (Table.group l : Std.ExtTreeMap α (List β) cmp).map (fun _ l => f l) = (Table.group l').map (fun _ l => f l) := by
  refine Std.ExtTreeMap.ext_getElem? (fun k => ?_)
  rw [Table.get_map, Table.get_map, Table.get_group, Table.get_group]
  have hvalues : (Table.valuesAt l k).Perm (Table.valuesAt l' k) := (h.filter _).map _
  by_cases hnil : Table.valuesAt l k = []
  · rw [if_pos hnil, if_pos (by rw [hnil] at hvalues; exact hvalues.nil_eq.symm)]
  · rw [if_neg hnil, if_neg (fun h' => hnil (by rw [h'] at hvalues; exact hvalues.eq_nil)), Option.map_some, Option.map_some,
      hf k]

end Group

section Claims

variable {D D' : List Manifest} {ceiling : CapabilitySet}

def claimsOf (ceiling : CapabilitySet) (D : List Manifest) : List (Slot × Candidate) := D.flatMap (candidates ceiling)

variable {slot : Slot} {c : Candidate}

theorem mem_claimsOf : (slot, c) ∈ claimsOf ceiling D ↔
    ∃ m ∈ D, ∃ (i : Nat) (contribution : Contribution), m.contributions[i]? = some contribution ∧
      contribution.slot = slot ∧ c = candidate ceiling m contribution i := by
  simp only [claimsOf, candidates, List.mem_flatMap, List.mem_map, Prod.exists, List.mem_zipIdx_iff_getElem?,
    Prod.mk.injEq]
  refine exists_congr (fun m => and_congr_right (fun _ => ?_))
  constructor
  · rintro ⟨contribution, i, hget, hslot, hc⟩
    exact ⟨i, contribution, hget, hslot, hc.symm⟩
  · rintro ⟨i, contribution, hget, hslot, hc⟩
    exact ⟨contribution, i, hget, hslot, hc.symm⟩

theorem orderKey_eq {a b : Candidate} (h : a.orderKey = b.orderKey) :
    a.precedence = b.precedence ∧ a.plugin = b.plugin ∧ a.index = b.index := by
  simpa [Candidate.orderKey] using h

theorem claimsOf_injective (hD : Unique D) {s s' : Slot} {a b : Candidate} (ha : (s, a) ∈ claimsOf ceiling D)
    (hb : (s', b) ∈ claimsOf ceiling D) (hid : a.plugin = b.plugin) (hindex : a.index = b.index) : s = s' ∧ a = b := by
  obtain ⟨m, hm, i, x, hx, rfl, rfl⟩ := mem_claimsOf.1 ha
  obtain ⟨n, hn, j, y, hy, rfl, rfl⟩ := mem_claimsOf.1 hb
  obtain rfl := hD.eq hm hn hid
  obtain rfl : i = j := hindex
  cases hx.symm.trans hy
  exact ⟨rfl, rfl⟩

theorem claimsOf_nodup (hD : Unique D) : ((claimsOf ceiling D).map (fun p => (p.2.plugin, p.2.index))).Nodup := by
  rw [claimsOf, List.map_flatMap, List.nodup_flatMap]
  constructor
  · intro m _
    have heq : (candidates ceiling m).map (fun p => (p.2.plugin, p.2.index)) =
        (m.contributions.zipIdx.map Prod.snd).map (fun i => (m.plugin, i)) := by
      rw [candidates, List.map_map, List.map_map]
      rfl
    rw [heq]
    refine List.Nodup.map (fun i j h => (Prod.mk.inj h).2) ?_
    rw [List.zipIdx_map_snd]
    exact List.nodup_range'
  · have hpair : D.Pairwise (fun m n => m.plugin ≠ n.plugin) := List.pairwise_map.1 hD
    refine hpair.imp (fun {m n} hne => ?_)
    intro p hp hq
    obtain ⟨a, ha, rfl⟩ := List.mem_map.1 hp
    obtain ⟨b, hb, heq⟩ := List.mem_map.1 hq
    obtain ⟨_, _, rfl⟩ := List.mem_map.1 ha
    obtain ⟨_, _, rfl⟩ := List.mem_map.1 hb
    exact hne (Prod.mk.inj heq).1.symm

theorem mem_exclusive_values : c ∈ Table.valuesAt ((claimsOf ceiling D).filter (fun p => p.1.surface.isExclusive)) slot ↔
      (slot, c) ∈ claimsOf ceiling D ∧ slot.surface.isExclusive = true := by
  rw [mem_valuesAt, List.mem_filter]

def chainEntries (claims : List (Slot × Candidate)) : List (String × Candidate) :=
  (claims.filter (fun p => !p.1.surface.isExclusive)).map (fun p => (p.1.key, p.2))

theorem not_exclusive : (!slot.surface.isExclusive) = true ↔ slot = ⟨.hook, slot.key⟩ := by
  obtain ⟨surface, _⟩ := slot
  cases surface <;> simp [Surface.isExclusive]

theorem mem_chain_values {event : String} :
    c ∈ Table.valuesAt (chainEntries (claimsOf ceiling D)) event ↔ (⟨.hook, event⟩, c) ∈ claimsOf ceiling D := by
  rw [mem_valuesAt, chainEntries, List.mem_map]
  constructor
  · rintro ⟨⟨slot, _⟩, hmem, heq⟩
    obtain ⟨hmem, hchain⟩ := List.mem_filter.1 hmem
    obtain ⟨hkey, rfl⟩ := Prod.mk.inj heq
    have hslot : slot = ⟨.hook, slot.key⟩ := not_exclusive.1 hchain
    rw [hslot] at hmem
    rw [← hkey]
    exact hmem
  · intro hmem
    exact ⟨(⟨.hook, event⟩, c), List.mem_filter.2 ⟨hmem, rfl⟩, rfl⟩

theorem exclusiveClaims_perm (hD : Unique D) (h : D.Perm D') :
    exclusiveClaims (claimsOf ceiling D) = exclusiveClaims (claimsOf ceiling D') := by
  have hclaims : (claimsOf ceiling D).Perm (claimsOf ceiling D') := h.flatMap_right _
  refine sorted_group_perm (hclaims.filter _) (fun slot => sort_perm (((hclaims.filter _).filter _).map _) ?_)
  intro a ha b hb hkey
  obtain ⟨_, hid, hindex⟩ := orderKey_eq hkey
  exact (claimsOf_injective hD (mem_exclusive_values.1 ha).1 (mem_exclusive_values.1 hb).1 hid hindex).2

theorem chainClaims_perm (hD : Unique D) (h : D.Perm D') :
    chainClaims (claimsOf ceiling D) = chainClaims (claimsOf ceiling D') := by
  have hclaims : (claimsOf ceiling D).Perm (claimsOf ceiling D') := h.flatMap_right _
  have hentries : (chainEntries (claimsOf ceiling D)).Perm (chainEntries (claimsOf ceiling D')) :=
    (hclaims.filter _).map _
  refine sorted_group_perm hentries (fun event => sort_perm ((hentries.filter _).map _) ?_)
  intro a ha b hb hkey
  obtain ⟨_, hid, hindex⟩ := orderKey_eq hkey
  exact (claimsOf_injective hD (mem_chain_values.1 ha) (mem_chain_values.1 hb) hid hindex).2

end Claims

/-- **A composition does not depend on the order of the manifests.** -/
theorem composeGoverned_perm {manifests manifests' : List Manifest} (h : manifests.Perm manifests') (scope : RuntimeScope)
    (ceiling : CapabilitySet) : composeGoverned manifests scope ceiling = composeGoverned manifests' scope ceiling := by
  obtain ⟨hadmitted, hrefusals⟩ := admit_perm h scope
  have hunique := admit_unique manifests scope
  have hexclusive := @exclusiveClaims_perm _ _ ceiling hunique hadmitted
  have hchains := @chainClaims_perm _ _ ceiling hunique hadmitted
  have hsorted : sortRefusals (admitAll manifests scope).2 = sortRefusals (admitAll manifests' scope).2 :=
    sort_perm hrefusals (admit_consistent manifests scope).single
  rw [claimsOf, claimsOf] at hexclusive hchains
  simp only [composeGoverned, wire, hexclusive, hchains, hsorted]

theorem composeGoverned_deleted (manifests : List Manifest) (scope : RuntimeScope) (ceiling : CapabilitySet) :
    (composeGoverned (deleteRefused manifests (composeGoverned manifests scope ceiling).report.refusals) scope ceiling).wiring =
      (composeGoverned manifests scope ceiling).wiring := by
  have hsame : deleteRefused manifests (composeGoverned manifests scope ceiling).report.refusals =
      deleteRefused manifests (admitAll manifests scope).2 := by
    refine List.filter_congr (fun m _ => ?_)
    simp only [composeGoverned, sortRefusals, List.mem_map, List.mem_insertionSort]
  rw [hsame]
  simp only [composeGoverned, admit_deleted]

section Lookup

variable {D : List Manifest} {ceiling : CapabilitySet}

/-- Ranked before: higher precedence, or the same with a smaller plugin id. -/
def Manifest.Before (m n : Manifest) : Prop :=
  n.precedence < m.precedence ∨ m.precedence = n.precedence ∧ m.plugin < n.plugin

def Manifest.Claims (m : Manifest) (slot : Slot) : Prop := ∃ c ∈ m.contributions, c.slot = slot

/-- No other manifest that claims the slot is ranked before. -/
def First (S : Set Manifest) (slot : Slot) (m : Manifest) : Prop := ∀ n ∈ S, n.Claims slot → n = m ∨ m.Before n

theorem Manifest.Before.asymm {m n : Manifest} (h : m.Before n) (h' : n.Before m) : False := by
  rcases h with h | ⟨_, h⟩
  · rcases h' with h' | ⟨_, _⟩
    · omega
    · omega
  · rcases h' with h' | ⟨_, h'⟩
    · omega
    · exact lt_asymm h h'

theorem before_of_orderKey (hD : Unique D) {m n : Manifest} (hm : m ∈ D) (hn : n ∈ D) {x y : Contribution} {i j : Nat}
    (h : (candidate ceiling m x i).orderKey ≤ (candidate ceiling n y j).orderKey) : n = m ∨ m.Before n := by
  simp only [Candidate.orderKey, candidate, Prod.Lex.toLex_le_toLex] at h
  rcases h with h | ⟨hprec, h | ⟨hid, _⟩⟩
  · exact .inr (.inl h)
  · exact .inr (.inr ⟨hprec, h⟩)
  · exact .inl (hD.eq hn hm hid.symm)

theorem claims_of_get {m : Manifest} {i : Nat} {c : Contribution} (h : m.contributions[i]? = some c) : m.Claims c.slot :=
  ⟨c, List.mem_of_getElem? h, rfl⟩

theorem exclusive_get (slot : Slot) : (wire (claimsOf ceiling D)).exclusive[slot]? =
    (sortCandidates (Table.valuesAt ((claimsOf ceiling D).filter (fun p => p.1.surface.isExclusive)) slot)).head?.map
      (fun winner => winner.bind slot) := by
  rw [wire, Std.ExtTreeMap.getElem?_filterMap', exclusiveClaims, Table.get_map, Table.get_group]
  by_cases h : Table.valuesAt ((claimsOf ceiling D).filter (fun p => p.1.surface.isExclusive)) slot = []
  · rw [if_pos h, h]
    rfl
  · rw [if_neg h]
    rfl

theorem exclusive_some (hD : Unique D) {slot : Slot} {b : Binding} (h : (wire (claimsOf ceiling D)).exclusive[slot]? = some b) :
    slot.surface.isExclusive = true ∧ ∃ m ∈ D, First {n | n ∈ D} slot m ∧ ∃ (i : Nat) (c : Contribution),
      m.contributions[i]? = some c ∧ c.slot = slot ∧ b = (candidate ceiling m c i).bind slot := by
  rw [exclusive_get, Option.map_eq_some_iff] at h
  obtain ⟨w, hw, rfl⟩ := h
  obtain ⟨hmem, hfirst⟩ := head_sort hw
  obtain ⟨hclaim, hexclusive⟩ := mem_exclusive_values.1 hmem
  obtain ⟨m, hm, i, c, hc, hslot, rfl⟩ := mem_claimsOf.1 hclaim
  refine ⟨hexclusive, m, hm, fun n hn hclaims => ?_, i, c, hc, hslot, rfl⟩
  obtain ⟨x, hx, hxslot⟩ := hclaims
  obtain ⟨j, hj⟩ := List.getElem?_of_mem hx
  have hother : candidate ceiling n x j ∈
      Table.valuesAt ((claimsOf ceiling D).filter (fun p => p.1.surface.isExclusive)) slot :=
    mem_exclusive_values.2 ⟨mem_claimsOf.2 ⟨n, hn, j, x, hj, hxslot, rfl⟩, hexclusive⟩
  exact before_of_orderKey hD hm hn (hfirst _ hother)

theorem exclusive_none {slot : Slot} : (wire (claimsOf ceiling D)).exclusive[slot]? = none ↔
    ¬ (slot.surface.isExclusive = true ∧ ∃ m ∈ D, m.Claims slot) := by
  rw [exclusive_get, Option.map_eq_none_iff, sortCandidates, head_sort_none, List.eq_nil_iff_forall_not_mem]
  constructor
  · rintro h ⟨hexclusive, m, hm, x, hx, hslot⟩
    obtain ⟨i, hi⟩ := List.getElem?_of_mem hx
    exact h _ (mem_exclusive_values.2 ⟨mem_claimsOf.2 ⟨m, hm, i, x, hi, hslot, rfl⟩, hexclusive⟩)
  · rintro h c hc
    obtain ⟨hclaim, hexclusive⟩ := mem_exclusive_values.1 hc
    obtain ⟨m, hm, i, x, hx, hslot, _⟩ := mem_claimsOf.1 hclaim
    exact h ⟨hexclusive, m, hm, hslot ▸ claims_of_get hx⟩

/-- The claims on an event: the candidates of the hooks that subscribe to it. -/
def Subscribes (ceiling : CapabilitySet) (S : Set Manifest) (event : String) (c : Candidate) : Prop :=
  ∃ m ∈ S, ∃ (i : Nat) (action : String), m.contributions[i]? = some (.hook event action) ∧
    c = candidate ceiling m (.hook event action) i

variable {event : String}

theorem hook_slot {c : Contribution} (h : c.slot = ⟨.hook, event⟩) : ∃ action, c = .hook event action := by
  cases c <;> simp only [Contribution.slot, Contribution.surface, Slot.mk.injEq, reduceCtorEq, false_and, true_and] at h
  case hook event' action =>
    rw [h]
    exact ⟨action, rfl⟩

theorem mem_chain_subscribes {c : Candidate} :
    c ∈ Table.valuesAt (chainEntries (claimsOf ceiling D)) event ↔ Subscribes ceiling {m | m ∈ D} event c := by
  rw [mem_chain_values, mem_claimsOf]
  refine exists_congr (fun m => and_congr_right (fun _ => exists_congr (fun i => ?_)))
  constructor
  · rintro ⟨x, hx, hslot, hc⟩
    obtain ⟨action, rfl⟩ := hook_slot hslot
    exact ⟨action, hx, hc⟩
  · rintro ⟨action, hx, hc⟩
    exact ⟨_, hx, rfl, hc⟩

theorem hooks_eq (hD : Unique D) (event : String) : ∃ l : List Candidate,
    l.Pairwise (fun a b => a.orderKey < b.orderKey) ∧ (∀ c, c ∈ l ↔ Subscribes ceiling {m | m ∈ D} event c) ∧
      (wire (claimsOf ceiling D)).hooks event = l.map (fun c => c.bind ⟨.hook, event⟩) := by
  refine ⟨sortCandidates (Table.valuesAt (chainEntries (claimsOf ceiling D)) event), ?_, fun c => ?_, ?_⟩
  · have hids : ((Table.valuesAt (chainEntries (claimsOf ceiling D)) event).map (fun c => (c.plugin, c.index))).Nodup := by
      have hsub : ((Table.valuesAt (chainEntries (claimsOf ceiling D)) event).map (fun c => (c.plugin, c.index))).Sublist
          ((claimsOf ceiling D).map (fun p => (p.2.plugin, p.2.index))) := by
        rw [Table.valuesAt, chainEntries, List.filter_map, List.map_map, List.map_map]
        exact (List.filter_sublist.trans List.filter_sublist).map _
      exact (claimsOf_nodup hD).sublist hsub
    have hsorted := pairwise_sort Candidate.orderKey (Table.valuesAt (chainEntries (claimsOf ceiling D)) event)
    have hperm := List.perm_insertionSort (fun a b : Candidate => a.orderKey ≤ b.orderKey)
      (Table.valuesAt (chainEntries (claimsOf ceiling D)) event)
    have hdistinct := List.pairwise_map.1 ((hperm.map _).nodup_iff.2 hids)
    refine (hsorted.and hdistinct).imp (fun {a b} h => lt_of_le_of_ne h.1 (fun hkey => h.2 ?_))
    obtain ⟨_, hid, hindex⟩ := orderKey_eq hkey
    rw [hid, hindex]
  · rw [sortCandidates, List.mem_insertionSort, mem_chain_subscribes]
  · rw [Wiring.hooks, wire, Table.get_map, chainClaims, Table.get_map, Table.get_group]
    change Option.getD (Option.map _ (Option.map _
      (if Table.valuesAt (chainEntries (claimsOf ceiling D)) event = [] then none
        else some (Table.valuesAt (chainEntries (claimsOf ceiling D)) event)))) [] = _
    by_cases h : Table.valuesAt (chainEntries (claimsOf ceiling D)) event = []
    · rw [if_pos h, h]
      rfl
    · rw [if_neg h]
      rfl

theorem mem_contributors {w : Wiring} {p : String} : p ∈ w.contributors ↔
    (∃ (slot : Slot) (b : Binding), w.exclusive[slot]? = some b ∧ b.plugin = p) ∨
      ∃ event, ∃ b ∈ w.hooks event, b.plugin = p := by
  rw [Wiring.contributors, List.mem_append, List.mem_map, List.mem_flatMap]
  refine or_congr ?_ ?_
  · constructor
    · rintro ⟨b, hb, hp⟩
      obtain ⟨slot, hslot⟩ := (Table.mem_vals _ _).1 hb
      exact ⟨slot, b, hslot, hp⟩
    · rintro ⟨slot, b, hslot, hp⟩
      exact ⟨b, (Table.mem_vals _ _).2 ⟨slot, hslot⟩, hp⟩
  · constructor
    · rintro ⟨chain, hchain, hp⟩
      obtain ⟨event, hevent⟩ := (Table.mem_vals _ _).1 hchain
      obtain ⟨b, hb, hp⟩ := List.mem_map.1 hp
      refine ⟨event, b, ?_, hp⟩
      rw [Wiring.hooks, hevent]
      exact hb
    · rintro ⟨event, b, hb, hp⟩
      rw [Wiring.hooks] at hb
      cases hevent : w.chains[event]? with
      | none =>
        rw [hevent] at hb
        cases hb
      | some chain =>
        rw [hevent] at hb
        exact ⟨chain, (Table.mem_vals _ _).2 ⟨event, hevent⟩, List.mem_map.2 ⟨b, hb, hp⟩⟩

end Lookup

/-- A manifest of the set that subscribes to an event or is the first to claim some slot. -/
def HoldsBinding (S : Set Manifest) (m : Manifest) : Prop :=
  m ∈ S ∧ ((∃ event action, .hook event action ∈ m.contributions) ∨
    ∃ c ∈ m.contributions, c.slot.surface.isExclusive = true ∧ First S c.slot m)

theorem contributors_iff (manifests : List Manifest) (scope : RuntimeScope) (ceiling : CapabilitySet) {m : Manifest}
    (hm : m ∈ manifests) : m.plugin ∈ (composeGoverned manifests scope ceiling).wiring.contributors ↔
      HoldsBinding {n | n ∈ (admitAll manifests scope).1} m := by
  have hD := admit_unique manifests scope
  -- a manifest of the merge with the plugin id of `m` is `m`, since that id is declared once
  have hsame : ∀ n ∈ (admitAll manifests scope).1, n.plugin = m.plugin → n = m := by
    intro n hn hid
    obtain ⟨hmem, helig⟩ := List.mem_filter.1 (mem_admitAll hn)
    exact declared_le_one (eligible_iff.1 helig).1 hmem hm hid.symm
  rw [mem_contributors]
  constructor
  · rintro (⟨_, b, hslot, hid⟩ | ⟨event, b, hb, hid⟩)
    · obtain ⟨hexclusive, n, hn, hfirst, i, c, hc, hcslot, rfl⟩ := exclusive_some hD hslot
      obtain rfl := hsame n hn hid
      exact ⟨hn, .inr ⟨c, List.mem_of_getElem? hc, hcslot ▸ hexclusive, hcslot ▸ hfirst⟩⟩
    · obtain ⟨l, _, hl, hhooks⟩ := @hooks_eq _ ceiling hD event
      have hb' : b ∈ l.map (fun c => c.bind ⟨.hook, event⟩) := hhooks ▸ hb
      obtain ⟨c, hc, rfl⟩ := List.mem_map.1 hb'
      obtain ⟨n, hn, i, action, hget, rfl⟩ := (hl c).1 hc
      obtain rfl := hsame n hn hid
      exact ⟨hn, .inl ⟨event, action, List.mem_of_getElem? hget⟩⟩
  · rintro ⟨hmD, ⟨event, action, hhook⟩ | ⟨c, hc, hexclusive, hfirst⟩⟩
    · obtain ⟨i, hi⟩ := List.getElem?_of_mem hhook
      obtain ⟨l, _, hl, hhooks⟩ := @hooks_eq _ ceiling hD event
      have hmem : candidate ceiling m (.hook event action) i ∈ l := (hl _).2 ⟨m, hmD, i, action, hi, rfl⟩
      refine .inr ⟨event, (candidate ceiling m (.hook event action) i).bind ⟨.hook, event⟩, ?_, rfl⟩
      have hin : (candidate ceiling m (.hook event action) i).bind ⟨.hook, event⟩ ∈
          (wire (claimsOf ceiling (admitAll manifests scope).1)).hooks event := by
        rw [hhooks]
        exact List.mem_map.2 ⟨_, hmem, rfl⟩
      exact hin
    · cases hget : (wire (claimsOf ceiling (admitAll manifests scope).1)).exclusive[c.slot]? with
      | none => exact absurd ⟨hexclusive, m, hmD, c, hc, rfl⟩ (exclusive_none.1 hget)
      | some b =>
        obtain ⟨_, n, hn, hnfirst, i, x, hx, hxslot, rfl⟩ := exclusive_some hD hget
        have hnm : n = m := by
          rcases hfirst n hn (hxslot ▸ claims_of_get hx) with heq | hbefore
          · exact heq
          · rcases hnfirst m hmD ⟨c, hc, rfl⟩ with heq | hbefore'
            · exact heq.symm
            · exact (hbefore.asymm hbefore').elim
        refine .inl ⟨c.slot, _, hget, ?_⟩
        rw [hnm]
        rfl

inductive HostCall where
  | quarantine (plugin reason : String)
  | release (plugin : String)

def HostCall.leavesOut (plugin : String) (out : Bool) : HostCall → Bool
  | .quarantine p _ => out || decide (p = plugin)
  | .release p => out && decide (p ≠ plugin)

namespace Host

def call (h : Host) : HostCall → Host
  | .quarantine plugin reason => (h.quarantine plugin reason).1
  | .release plugin => (h.release plugin).1

/-- Whether the last call that names the plugin took it out of service. -/
def outOfService (calls : List HostCall) (plugin : String) : Bool :=
  calls.foldl (fun out c => c.leavesOut plugin out) false

/-- The composition is that of the manifests in service. -/
structure Derived (manifests : List Manifest) (scope : RuntimeScope) (ceiling : CapabilitySet) (calls : List HostCall)
    (h : Host) : Prop where
  manifests : h.manifests = manifests
  scope : h.scope = scope
  ceiling : h.ceiling = ceiling
  quarantined : ∀ plugin, h.quarantined.contains plugin = outOfService calls plugin
  composition : h.composition = composeGoverned h.inService h.scope h.ceiling

variable {manifests : List Manifest} {scope : RuntimeScope} {ceiling : CapabilitySet} {calls : List HostCall} {h : Host}

theorem Derived.call (hd : Derived manifests scope ceiling calls h) (c : HostCall) :
    Derived manifests scope ceiling (calls ++ [c]) (h.call c) := by
  have hout : ∀ plugin, outOfService (calls ++ [c]) plugin = c.leavesOut plugin (outOfService calls plugin) := by
    intro plugin
    rw [outOfService, List.foldl_append]
    rfl
  cases c with
  | quarantine p reason =>
    simp only [Host.call, Host.quarantine]
    by_cases hin : h.quarantined.contains p = true
    · rw [if_pos hin]
      refine ⟨hd.manifests, hd.scope, hd.ceiling, fun plugin => ?_, hd.composition⟩
      rw [hout, hd.quarantined, HostCall.leavesOut]
      by_cases hp : p = plugin
      · rw [← hp, ← hd.quarantined p, hin]
        rfl
      · simp [hp]
    · rw [if_neg hin]
      refine ⟨hd.manifests, hd.scope, hd.ceiling, fun plugin => ?_, ?_⟩
      · rw [hout, ← hd.quarantined, HostCall.leavesOut]
        show (h.quarantined.insert p reason).contains plugin = _
        by_cases hp : p = plugin
        · simp [hp]
        · simp [hp]
      · rfl
  | release p =>
    simp only [Host.call, Host.release]
    by_cases hin : h.quarantined.contains p = true
    · rw [if_pos hin]
      refine ⟨hd.manifests, hd.scope, hd.ceiling, fun plugin => ?_, ?_⟩
      · rw [hout, ← hd.quarantined, HostCall.leavesOut]
        show (h.quarantined.erase p).contains plugin = _
        by_cases hp : p = plugin
        · simp [hp]
        · simp [hp]
      · rfl
    · rw [if_neg hin]
      refine ⟨hd.manifests, hd.scope, hd.ceiling, fun plugin => ?_, hd.composition⟩
      rw [hout, hd.quarantined, HostCall.leavesOut]
      by_cases hp : p = plugin
      · rw [← hp, ← hd.quarantined p]
        simp [hin]
      · simp [hp]

theorem derived_calls (manifests : List Manifest) (scope : RuntimeScope) (ceiling : CapabilitySet) (calls : List HostCall) :
    Derived manifests scope ceiling calls (calls.foldl Host.call (Host.governed manifests scope ceiling)) := by
  suffices hrun : ∀ (rest before : List HostCall) (h : Host), Derived manifests scope ceiling before h →
      Derived manifests scope ceiling (before ++ rest) (rest.foldl Host.call h) by
    have hstart : Derived manifests scope ceiling [] (Host.governed manifests scope ceiling) := by
      refine ⟨rfl, rfl, rfl, fun plugin => ?_, ?_⟩
      · show (∅ : Std.ExtTreeMap String String compare).contains plugin = false
        simp
      · have hall : (Host.governed manifests scope ceiling).inService = manifests := by
          refine List.filter_eq_self.2 (fun m _ => ?_)
          show (!(∅ : Std.ExtTreeMap String String compare).contains m.plugin) = true
          simp
        rw [hall]
        rfl
    exact hrun calls [] _ hstart
  intro rest
  induction rest with
  | nil =>
    intro before h hd
    rw [List.append_nil]
    exact hd
  | cons c rest ih =>
    intro before h hd
    have hnext := ih (before ++ [c]) (h.call c) (hd.call c)
    rw [List.append_assoc] at hnext
    exact hnext

end Host

/-- **Composition is a function of the set of manifests.**  Permuting the manifests changes nothing; the merge is that of
the greatest supported set, and a manifest holds a binding when it is in that set and subscribes to an event or is the
first to claim some slot; deleting the refused manifests leaves the wiring; every exclusive slot claimed in the set is
bound to its first claimant, every event lists its subscriptions once and in order, and no binding exceeds the ceiling;
and after any calls of a supervisor the composition is that of the manifests in service. -/
theorem composition_of_set (manifests : List Manifest) (scope : RuntimeScope) (ceiling : CapabilitySet) :
    (∀ manifests', manifests.Perm manifests' →
      composeGoverned manifests' scope ceiling = composeGoverned manifests scope ceiling) ∧
    (∃ S : Set Manifest, IsGreatest {s : Set Manifest | Supported manifests scope s} S ∧
      (∀ m ∈ manifests, m.plugin ∈ (composeGoverned manifests scope ceiling).wiring.contributors ↔ HoldsBinding S m) ∧
      (∀ slot : Slot, slot.surface.isExclusive = true → (∃ m ∈ S, m.Claims slot) →
        ∃ m ∈ S, First S slot m ∧ ∃ (i : Nat) (c : Contribution), m.contributions[i]? = some c ∧ c.slot = slot ∧
          (composeGoverned manifests scope ceiling).wiring.exclusive[slot]? = some ((candidate ceiling m c i).bind slot)) ∧
      (∀ slot : Slot, ¬ (slot.surface.isExclusive = true ∧ ∃ m ∈ S, m.Claims slot) →
        (composeGoverned manifests scope ceiling).wiring.exclusive[slot]? = none) ∧
      (∀ event, ∃ l : List Candidate, l.Pairwise (fun a b => a.orderKey < b.orderKey) ∧
        (∀ c, c ∈ l ↔ Subscribes ceiling S event c) ∧
        (composeGoverned manifests scope ceiling).wiring.hooks event = l.map (fun c => c.bind ⟨.hook, event⟩))) ∧
    (composeGoverned (deleteRefused manifests (composeGoverned manifests scope ceiling).report.refusals) scope
      ceiling).wiring = (composeGoverned manifests scope ceiling).wiring ∧
    (∀ (b : Binding) (capability : Capability), ((∃ slot : Slot,
        (composeGoverned manifests scope ceiling).wiring.exclusive[slot]? = some b) ∨
        ∃ event, b ∈ (composeGoverned manifests scope ceiling).wiring.hooks event) →
      b.capabilities.contains capability = true → ceiling.contains capability = true) ∧
    (∀ calls : List HostCall, (calls.foldl Host.call (Host.governed manifests scope ceiling)).composition =
      composeGoverned (manifests.filter (fun m => !Host.outOfService calls m.plugin)) scope ceiling) := by
  have hD := admit_unique manifests scope
  refine ⟨fun manifests' h => (composeGoverned_perm h scope ceiling).symm, ⟨{m | m ∈ (admitAll manifests scope).1},
    admit_greatest manifests scope, fun m hm => contributors_iff manifests scope ceiling hm, ?_,
    fun slot hnone => exclusive_none.2 hnone, fun event => hooks_eq hD event⟩,
    composeGoverned_deleted manifests scope ceiling, ?_, ?_⟩
  · intro slot hexclusive hclaimed
    cases hget : (wire (claimsOf ceiling (admitAll manifests scope).1)).exclusive[slot]? with
    | none => exact absurd ⟨hexclusive, hclaimed⟩ (exclusive_none.1 hget)
    | some b =>
      obtain ⟨_, m, hm, hfirst, i, c, hc, hslot, rfl⟩ := exclusive_some hD hget
      exact ⟨m, hm, hfirst, i, c, hc, hslot, hget⟩
  · rintro b capability (⟨slot, hslot⟩ | ⟨event, hb⟩) hcontains
    · obtain ⟨_, m, _, _, i, c, _, _, rfl⟩ := exclusive_some hD hslot
      exact CapabilitySet.contains_of_intersect hcontains
    · obtain ⟨l, _, hl, hhooks⟩ := @hooks_eq _ ceiling hD event
      have hb' : b ∈ l.map (fun c => c.bind ⟨.hook, event⟩) := hhooks ▸ hb
      obtain ⟨c, hc, rfl⟩ := List.mem_map.1 hb'
      obtain ⟨m, _, i, _, _, rfl⟩ := (hl c).1 hc
      exact CapabilitySet.contains_of_intersect hcontains
  · intro calls
    have hd := Host.derived_calls manifests scope ceiling calls
    rw [hd.composition, Host.inService, hd.manifests, hd.scope, hd.ceiling]
    congr 1
    exact List.filter_congr (fun m _ => by rw [hd.quarantined])

section Scene

def sceneManifest (plugin : String) (precedence : Nat) : Manifest where
  plugin := plugin
  version := ⟨0, 0, 0⟩
  scope := .user
  precedence := precedence
  requires := []
  capabilities := .none
  contributions := [.skill "review" "reviews a change"]

/-- A manifest of the greatest supported set whose only slot is won by another holds no binding. -/
theorem not_contributors_greatest : ¬ ∀ S : Set Manifest, IsGreatest {s : Set Manifest |
        Supported [sceneManifest "alpha" 5, sceneManifest "beta" 1] .workspace s} S →
      ∀ m ∈ [sceneManifest "alpha" 5, sceneManifest "beta" 1],
        (m.plugin ∈ (composeGoverned [sceneManifest "alpha" 5, sceneManifest "beta" 1] .workspace
          .none).wiring.contributors ↔ m ∈ S) := by
  intro h
  have hbeta := h _ (admit_greatest _ _) (sceneManifest "beta" 1) (by simp)
  have hin : sceneManifest "beta" 1 ∈ (admitAll [sceneManifest "alpha" 5, sceneManifest "beta" 1] .workspace).1 := by
    decide
  have hout : "beta" ∉ (composeGoverned [sceneManifest "alpha" 5, sceneManifest "beta" 1] .workspace
      .none).wiring.contributors := by
    decide +kernel
  exact hout (hbeta.2 hin)

end Scene

end Iteron.Plugin
