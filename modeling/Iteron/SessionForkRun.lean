import Iteron.SessionHistory
/-!
# SessionForkRun — a fork keeps the history and what was in effect

A fork re-states the policy and the ceiling of the history it was taken from, so both are what they were.  Whatever is
appended later, and wherever the next fork is taken, the ceiling of a fork is never above that of the history it comes
from.
-/
namespace Iteron.Session

open Refuse

variable {E : Env} {s s₁ s₂ : Store} {parent child tenant run : String} {a createdAt v : Nat}
  {lines own : List ReadLine} {pinned : String} {history events : List Event} {branch : List ScopedEvent}

/-! ## What a fork writes -/

def JournalFile.kinds (file : JournalFile) : List EventKind := file.readLines.map ReadLine.kind

theorem append_ok {file file' : JournalFile} {event : Event} (h : append E tenant file event = .ok file') :
    file'.kinds = file.kinds ++ [E.redactKind event.kind] := by
  simp only [append, bind_eq_ok, refuseIf_eq_ok, pure_eq_ok] at h
  obtain ⟨_, -, _, -, _, -, _, -, _, -, _, -, _, -, rfl⟩ := h
  simp [JournalFile.kinds, JournalFile.readLines, JournalFile.chain, chainLine, ReadLine.kind, ChainLine.read]

theorem appendAll_ok : ∀ (events : List Event) {file file' : JournalFile}, events.foldlM (append E tenant) file = .ok file' →
    file'.kinds = file.kinds ++ events.map (fun event => E.redactKind event.kind)
  | [], file, file', h => by
    rw [List.foldlM_nil, pure_eq_ok] at h
    rw [h, List.map_nil, List.append_nil]
  | event :: events, file, file', h => by
    rw [List.foldlM_cons, bind_eq_ok] at h
    obtain ⟨_, hone, hrest⟩ := h
    rw [appendAll_ok events hrest, append_ok hone, List.map_cons, List.append_assoc, List.singleton_append]

/-- What a fork of a run at a line under a fresh id reads and writes. -/
structure Forked (E : Env) (s s₁ : Store) (parent : String) (a : Nat) (child : String) (branch : List ScopedEvent) :
    Prop where
  pinned : ∀ lines, Reads s parent lines → ∃ l ∈ lines, l.seq = a
  history : History s parent (some a) branch
  older : ∀ (r : String) file, s[r]? = some file → s₁[r]? = some file
  written : ∃ file lines hash createdAt, s₁[child]? = some file ∧
    file.kinds = (forkKinds E parent a createdAt lines hash (branch.map ScopedEvent.event)).map E.redactKind

theorem fork_ok (h : fork E s parent a tenant child createdAt = .ok s₁) (hfresh : s[child]? = none) :
    ∃ branch, Forked E s s₁ parent a child branch := by
  simp only [fork, bind_eq_ok] at h
  obtain ⟨_, -, ⟨lines, b⟩, hread, _, -, h⟩ := h
  cases hpin : lines.find? (fun l => l.seq = a) with
  | none =>
    simp only [hpin] at h
    cases h
  | some pinned =>
    simp only [hpin, bind_eq_ok, pure_eq_ok, hfresh, Option.getD_none] at h
    obtain ⟨branch, hbranch, _, -, _, -, _, -, file, hfile, rfl⟩ := h
    have hlines := readChain_ok hread
    obtain ⟨lines', _, _, hopen, hinherits, rfl⟩ := expand_ok.1 hbranch
    obtain ⟨-, -, rfl⟩ := openLines_some.1 hopen
    have hkinds := appendAll_ok _ hfile
    rw [List.map_map] at hkinds
    refine ⟨_, fun lines' hlines' => ?_, history_of_inherits hlines hinherits, fun r file' hr => ?_, file, lines,
      pinned.hash, createdAt, ?_, hkinds⟩
    · rw [Reads.unique hlines' hlines]
      exact ⟨pinned, List.mem_of_find?_eq_some hpin, by simpa using List.find?_some hpin⟩
    · rw [Table.get_insert, if_neg fun heq => ?_]
      · exact hr
      · rw [heq, hr] at hfresh
        cases hfresh
    · rw [Table.get_insert, if_pos rfl]

/-! ## Policy -/

theorem apply_forkKinds {kind : EventKind} (h : kind ∈ forkKinds E parent a createdAt lines pinned history) :
    (RuntimePolicyState.fromEvents history).apply kind = RuntimePolicyState.fromEvents history := by
  simp only [forkKinds, tunablesKind, policyBundleKind, List.mem_append, List.mem_cons, List.not_mem_nil, or_false,
    Option.mem_toList, Option.map_eq_some_iff] at h
  rcases h with (((((rfl | ⟨_, _, rfl⟩) | ⟨_, _, rfl⟩) | ⟨_, _, rfl⟩) | ⟨_, hturns, rfl⟩) | rfl | rfl) | ⟨_, _, rfl⟩
  · rfl
  · rfl
  · rfl
  · rfl
  · simp only [RuntimePolicyState.apply]
    split
    · rw [← hturns]
    · rfl
  · rfl
  · rfl
  · rfl

theorem foldl_apply_fixed {state : RuntimePolicyState} : ∀ {kinds : List EventKind},
    (∀ kind ∈ kinds, state.apply kind = state) → kinds.foldl RuntimePolicyState.apply state = state
  | [], _ => rfl
  | kind :: kinds, h => by
    rw [List.foldl_cons, h kind List.mem_cons_self]
    exact foldl_apply_fixed fun k hk => h k (.tail _ hk)

theorem fromEvents_append (history written : List Event) : RuntimePolicyState.fromEvents (history ++ written) =
    (written.map Event.kind).foldl RuntimePolicyState.apply (RuntimePolicyState.fromEvents history) := by
  unfold RuntimePolicyState.fromEvents
  rw [List.foldl_append, List.foldl_map]

variable {written : List Event}

theorem fromEvents_fork (hw : written.map Event.kind = (forkKinds E parent a createdAt lines pinned history).map E.redactKind) :
    RuntimePolicyState.fromEvents (history ++ written) = RuntimePolicyState.fromEvents history := by
  rw [fromEvents_append, hw]
  apply foldl_apply_fixed
  intro kind hkind
  obtain ⟨_, hkind', rfl⟩ := List.mem_map.1 hkind
  rw [apply_redactKind]
  exact apply_forkKinds hkind'

/-! ## Ceilings -/

theorem exactCeilings_append (xs ys : List Event) :
    exactCeilings (xs ++ ys) = exactCeilings xs ++ (ys.map Event.kind).filterMap exactMicrousd? := by
  rw [exactCeilings, List.filterMap_append, List.filterMap_map]
  rfl

theorem legacyCeilings_append (floor : F64 → Nat) (xs ys : List Event) : legacyCeilings floor (xs ++ ys) =
    legacyCeilings floor xs ++ ((ys.map Event.kind).filterMap legacyUsd?).map floor := by
  rw [legacyCeilings, legacyUsds, List.filterMap_append, List.map_append, List.filterMap_map]
  rfl

theorem min_or_of_mem {l : List Nat} (h : v ∈ l) : ∃ w, l.min? = some w ∧ w ≤ v := by
  cases hmin : l.min? with
  | none =>
    rw [List.min?_eq_none_iff.1 hmin] at h
    cases h
  | some w => exact ⟨w, rfl, (List.min?_eq_some_iff.1 hmin).2 v h⟩

variable {floor : F64 → Nat}

theorem ceiling_of_exact (h : v ∈ exactCeilings events) : ∃ w ≤ v, ceiling floor events = some w := by
  obtain ⟨w, hmin, hle⟩ := min_or_of_mem h
  exact ⟨w, hle, by rw [ceiling, hmin, Option.some_or]⟩

theorem ceiling_of_no_exact (h : ceiling floor history = some v)
    (hnone : (written.map Event.kind).filterMap exactMicrousd? = []) :
    ∃ w ≤ v, ceiling floor (history ++ written) = some w := by
  rw [ceiling, exactCeilings_append, hnone, List.append_nil]
  rw [ceiling] at h
  cases hexact : (exactCeilings history).min? with
  | some w =>
    rw [hexact, Option.some_or] at h
    exact ⟨v, le_rfl, by rw [Option.some_or, h]⟩
  | none =>
    rw [hexact, Option.none_or] at h
    rw [Option.none_or, legacyCeilings_append]
    have hmem : v ∈ legacyCeilings floor history := (List.min?_eq_some_iff.1 h).1
    obtain ⟨w, hmin, hle⟩ := min_or_of_mem (List.mem_append_left _ hmem)
    exact ⟨w, hle, hmin⟩

variable {β : Type} {f : EventKind → Option β}

theorem filterMap_toList {α : Type} {g : α → EventKind} (o : Option α) :
    (o.map g).toList.filterMap f = (o.bind (fun x => f (g x))).toList := by
  cases o with
  | none => rfl
  | some x => cases h : f (g x) <;> simp [h]

theorem filterMap_forkKinds (htunables : ∀ c i, f (.tunablesSnapshot c i) = none)
    (hbundle : ∀ c i, f (.policyBundleSnapshot c i) = none) (hturns : ∀ c n, f (.turnCeilingChanged c n) = none)
    (heffort : ∀ c e, f (.effortChanged c e) = none) (hpolicy : ∀ c m r, f (.policyChanged c m r) = none)
    (hmodel : ∀ m, f (.modelSelected m) = none) : (forkKinds E parent a createdAt lines pinned history).filterMap f =
      (f (.runStart (genesisStart E parent a createdAt lines pinned history))).toList ++
        ((ceiling E.legacyUsdToMicrousdFloor history).bind (fun value => f (.usdCeilingChanged .fork value))).toList := by
  have hstart : ∀ kind, [kind].filterMap f = (f kind).toList := by
    intro kind
    cases h : f kind <;> simp [h]
  simp only [forkKinds, tunablesKind, policyBundleKind, List.filterMap_append, filterMap_toList, hstart, htunables, hbundle,
    hturns, hmodel, Option.bind_fun_none, Option.toList_none, List.append_nil, List.filterMap_cons, heffort, hpolicy]

theorem exactMicrousd_forkKinds : (forkKinds E parent a createdAt lines pinned history).filterMap exactMicrousd? =
    (ceiling E.legacyUsdToMicrousdFloor history).toList := by
  rw [filterMap_forkKinds (fun _ _ => rfl) (fun _ _ => rfl) (fun _ _ => rfl) (fun _ _ => rfl) (fun _ _ _ => rfl)
    (fun _ => rfl)]
  cases ceiling E.legacyUsdToMicrousdFloor history <;> rfl

theorem legacyUsd_forkKinds : (forkKinds E parent a createdAt lines pinned history).filterMap legacyUsd? =
    ((ceiling E.legacyUsdToMicrousdFloor history).map E.microusdToUsd).toList := by
  rw [filterMap_forkKinds (fun _ _ => rfl) (fun _ _ => rfl) (fun _ _ => rfl) (fun _ _ => rfl) (fun _ _ _ => rfl)
    (fun _ => rfl)]
  simp [legacyUsd?, genesisStart]

theorem filterMap_redact (hf : ∀ kind, f (E.redactKind kind) = f kind) (kinds : List EventKind) :
    (kinds.map E.redactKind).filterMap f = kinds.filterMap f := by
  rw [List.filterMap_map]
  congr 1
  funext kind
  exact hf kind

theorem ceiling_fork (hw : written.map Event.kind = (forkKinds E parent a createdAt lines pinned history).map E.redactKind) :
    ceiling E.legacyUsdToMicrousdFloor (history ++ written) = ceiling E.legacyUsdToMicrousdFloor history := by
  rw [ceiling, exactCeilings_append, legacyCeilings_append, hw, filterMap_redact (exactMicrousd_redactKind E.toRedactor),
    filterMap_redact (legacyUsd_redactKind E.toRedactor), exactMicrousd_forkKinds, legacyUsd_forkKinds]
  cases hc : ceiling E.legacyUsdToMicrousdFloor history with
  | none =>
    simp only [Option.toList_none, Option.map_none, List.map_nil, List.append_nil]
    rw [← hc, ceiling]
  | some v =>
    have hmin : (exactCeilings history ++ [v]).min? = some v := by
      rw [List.min?_eq_some_iff]
      refine ⟨by simp, fun w hw => ?_⟩
      rcases List.mem_append.1 hw with hw | hw
      · obtain ⟨u, hu, hle⟩ := min_or_of_mem hw
        rw [ceiling, hu, Option.some_or] at hc
        exact Option.some.inj hc ▸ hle
      · exact le_of_eq (List.mem_singleton.1 hw).symm
    rw [Option.toList_some, hmin, Option.some_or]

/-! ## Forks of forks -/

/-- The ceiling of the run's history, up to whatever line, is at most the value. -/
def Bounded (E : Env) (s : Store) (run : String) (v : Nat) : Prop :=
  ∀ upto events, History s run upto events →
    ∃ w ≤ v, ceiling E.legacyUsdToMicrousdFloor (events.map ScopedEvent.event) = some w

theorem ownEvents_kinds {upto : Option Nat} (hn : Numbered lines) :
    ((ownEvents run upto lines).map ScopedEvent.event).map Event.kind <+: lines.map ReadLine.kind := by
  have hfilter : lines.filter (fun l => upto.all (fun u => l.seq ≤ u)) <+: lines := by
    cases upto with
    | none => simp
    | some u =>
      have htake : (lines.take (u + 1)).filter (fun l => decide (l.seq ≤ u)) = lines.take (u + 1) := by
        rw [List.filter_eq_self]
        intro l hl
        obtain ⟨i, hi⟩ := List.getElem?_of_mem hl
        rw [List.getElem?_take] at hi
        split at hi
        · rename_i hlt
          rw [hn i l hi]
          simpa using Nat.lt_succ_iff.1 hlt
        · cases hi
      have hdrop : (lines.drop (u + 1)).filter (fun l => decide (l.seq ≤ u)) = [] := by
        rw [List.filter_eq_nil_iff]
        intro l hl
        obtain ⟨i, hi⟩ := List.getElem?_of_mem hl
        rw [List.getElem?_drop] at hi
        rw [hn _ l hi]
        simp
        omega
      simp only [Option.all_some]
      rw [← List.take_append_drop (u + 1) lines, List.filter_append, htake, hdrop, List.append_nil]
      exact List.prefix_append _ _
  simp only [ownEvents, List.map_map]
  exact hfilter.map ReadLine.kind

theorem Forked.reads (h : Forked E s s₁ parent a child branch) (hkept : Kept s₁ s₂ child) (hown : Reads s₂ child own) :
    ∃ lines hash createdAt, (forkKinds E parent a createdAt lines hash (branch.map ScopedEvent.event)).map E.redactKind <+:
      own.map ReadLine.kind := by
  obtain ⟨file, lines, hash, createdAt, hfile, hkinds⟩ := h.written
  obtain ⟨_, hfile', hle⟩ := hkept child file (.self child) hfile
  obtain ⟨_, hfile'', rfl, -⟩ := hown
  cases hfile'.symm.trans hfile''
  exact ⟨lines, hash, createdAt, hkinds ▸ (hle.map ChainLine.read).map ReadLine.kind⟩

theorem edgeOf_fork (h : (forkKinds E parent a createdAt lines pinned history).map E.redactKind <+:
    own.map ReadLine.kind) : ∃ hash, edgeOf own = some { parent := parent, forkedAt := a, parentHash := hash } := by
  obtain ⟨_, hrest⟩ := h
  have hhead : own.head?.map ReadLine.kind =
      some (E.redactKind (.runStart (genesisStart E parent a createdAt lines pinned history))) := by
    rw [← List.head?_map, ← hrest]
    rfl
  exact ⟨_, by rw [edgeOf, hhead]; rfl⟩

theorem Lineage.older {r : String} (h : Lineage s run r) (holder : ∀ (r : String) file, s[r]? = some file → s₁[r]? = some file) :
    Lineage s₁ run r := by
  induction h with
  | self run => exact .self run
  | parent hfile hedge _ ih => exact .parent (holder _ _ hfile) hedge ih

section

variable (h : Forked E s s₁ parent a child branch) (hkept : Kept s₁ s₂ child)
include h hkept

theorem Forked.kept : Kept s s₂ parent := by
  obtain ⟨file, _, _, _, hfile, hkinds⟩ := h.written
  obtain ⟨_, hedge⟩ := edgeOf_fork (⟨[], by rw [List.append_nil, ← hkinds]; rfl⟩ : _ <+: file.readLines.map ReadLine.kind)
  exact fun r file' hr hr' => hkept r file' (.parent hfile hedge (hr.older h.older)) (h.older r file' hr')

/-- **The history of a fork is the branch it was taken from and its own events.** -/
theorem Forked.split {upto : Option Nat} {events : List ScopedEvent} (hhist : History s₂ child upto events) :
    ∃ own, Reads s₂ child own ∧ events = branch ++ ownEvents child upto own := by
  cases hhist with
  | root hown hroot =>
    obtain ⟨lines, hash, createdAt, hkinds⟩ := h.reads hkept hown
    obtain ⟨_, hedge⟩ := edgeOf_fork hkinds
    rw [hroot] at hedge
    cases hedge
  | @fork _ _ own _ _ _ hown hedge' _ _ hinherited =>
    obtain ⟨lines, hash, createdAt, hkinds⟩ := h.reads hkept hown
    obtain ⟨_, hedge⟩ := edgeOf_fork hkinds
    cases hedge'.symm.trans hedge
    refine ⟨own, hown, ?_⟩
    rw [h.history.kept hinherited (h.kept hkept) fun lines hlines => ⟨a, rfl, h.pinned lines hlines⟩]

/-- **A fork's ceiling is at most that of the branch it was taken from**, whatever was appended since. -/
theorem Forked.bounded
    (hv : ceiling E.legacyUsdToMicrousdFloor (branch.map ScopedEvent.event) = some v) : Bounded E s₂ child v := by
  intro upto events hhist
  obtain ⟨own, hown, rfl⟩ := h.split hkept hhist
  obtain ⟨lines, hash, createdAt, hkinds⟩ := h.reads hkept hown
  have hshown : ((ownEvents child upto own).map ScopedEvent.event).map Event.kind <+: own.map ReadLine.kind :=
    ownEvents_kinds hown.choose_spec.2.2
  have hwritten : ((forkKinds E parent a createdAt lines hash (branch.map ScopedEvent.event)).map
      E.redactKind).filterMap exactMicrousd? = [v] := by
    rw [filterMap_redact (exactMicrousd_redactKind E.toRedactor), exactMicrousd_forkKinds, hv, Option.toList_some]
  -- the fork writes the ceiling after lines that hold none
  obtain ⟨opening, kind, _, hsplit, hopening, hkind, -⟩ := List.filterMap_eq_cons_iff.1 hwritten
  rw [hsplit, List.append_cons] at hkinds
  rw [List.map_append]
  generalize (ownEvents child upto own).map ScopedEvent.event = shown at hshown
  have hcase : shown.map Event.kind <+: opening ∨ kind ∈ shown.map Event.kind := by
    rcases List.prefix_or_prefix_of_prefix hshown ((List.prefix_append _ _).trans hkinds) with hbefore | hafter
    · rcases List.prefix_concat_iff.1 hbefore with heq | hbefore
      · exact .inr (by rw [heq]; simp)
      · exact .inl hbefore
    · exact .inr (hafter.subset (by simp))
  rcases hcase with hbefore | hmem
  · refine ceiling_of_no_exact hv (List.filterMap_eq_nil_iff.2 fun k hk => ?_)
    exact hopening k (hbefore.subset hk)
  · apply ceiling_of_exact
    rw [exactCeilings_append]
    exact List.mem_append_right _ (List.mem_filterMap.2 ⟨kind, hmem, hkind⟩)

end

/-- The run was forked from a line of the first one, or from a line of a run that was, with anything appended between. -/
inductive Descends (E : Env) (s : Store) (run : String) (a : Nat) : Store → String → Prop
  | fork {s₁ s₂ : Store} {tenant child : String} {createdAt : Nat} : fork E s run a tenant child createdAt = .ok s₁ →
      s[child]? = none → Kept s₁ s₂ child → Descends E s run a s₂ child
  | again {s₁ s₂ s3 : Store} {parent tenant child : String} {a1 createdAt : Nat} : Descends E s run a s₁ parent →
      fork E s₁ parent a1 tenant child createdAt = .ok s₂ → s₁[child]? = none → Kept s₂ s3 child →
      Descends E s run a s3 child

theorem Bounded.mono {w : Nat} (h : Bounded E s run w) (hle : w ≤ v) : Bounded E s run v := by
  intro upto events hhist
  obtain ⟨u, hu, heq⟩ := h upto events hhist
  exact ⟨u, hu.trans hle, heq⟩

/-- **No chain of forks widens the ceiling.** -/
theorem Descends.bounded (h : Descends E s run a s₁ child) (hhist : History s run (some a) branch)
    (hv : ceiling E.legacyUsdToMicrousdFloor (branch.map ScopedEvent.event) = some v) : Bounded E s₁ child v := by
  induction h with
  | fork hfork hfresh hkept =>
    obtain ⟨branch', hforked⟩ := fork_ok hfork hfresh
    rw [hforked.history.unique hhist] at hv
    exact hforked.bounded hkept hv
  | again _ hfork hfresh hkept ih =>
    obtain ⟨branch', hforked⟩ := fork_ok hfork hfresh
    obtain ⟨w, hle, hw⟩ := ih (some _) branch' hforked.history
    exact (hforked.bounded hkept hw).mono hle

/-! ## The whole of it -/

/-- **A fork preserves history and policy.**  Loading the fork later, with no line of its lineage lost, gives the
parent's history up to the fork point and then the fork's own events; right after the fork the policy and the ceiling
are those of that history; and no descendant's ceiling is above it. -/
theorem fork_preserves (E : Env) (s s₁ : Store) (parent child tenant : String) (a createdAt : Nat)
    (hfork : fork E s parent a tenant child createdAt = .ok s₁) (hfresh : s[child]? = none) :
    ∃ branch, History s parent (some a) branch ∧
      (∀ s₂ events, Kept s₁ s₂ child → loadForkedScoped E s₂ child = .ok events →
        ∃ inherited lines own, Reads s₂ parent lines ∧ Reads s₂ child own ∧
          loadForkedScoped E s₂ parent = .ok (inherited ++ ownEvents parent none lines) ∧
          branch = inherited ++ ownEvents parent (some a) lines ∧ events = branch ++ ownEvents child none own) ∧
      (∀ events, loadForked E s₁ child = .ok events →
        RuntimePolicyState.fromEvents events = RuntimePolicyState.fromEvents (branch.map ScopedEvent.event) ∧
        ceiling E.legacyUsdToMicrousdFloor events = ceiling E.legacyUsdToMicrousdFloor (branch.map ScopedEvent.event)) ∧
      ∀ s₂ run events v, Descends E s parent a s₂ run → loadForked E s₂ run = .ok events →
        ceiling E.legacyUsdToMicrousdFloor (branch.map ScopedEvent.event) = some v →
        ∃ w ≤ v, ceiling E.legacyUsdToMicrousdFloor events = some w := by
  obtain ⟨branch, hforked⟩ := fork_ok hfork hfresh
  refine ⟨branch, hforked.history, ?_, ?_, ?_⟩
  · intro s₂ events hkept hload
    obtain ⟨own, hown, hall⟩ := load_parent hload
    obtain ⟨_, _, _, hkinds⟩ := hforked.reads hkept hown
    obtain ⟨hash, hedge⟩ := edgeOf_fork hkinds
    obtain ⟨lines, inherited, hlines, hparent, heq⟩ := hall _ hedge
    obtain ⟨_, hown', hsplit⟩ := hforked.split hkept (load_history hload)
    rw [hown'.unique hown] at hsplit
    refine ⟨inherited, lines, own, hlines, hown, hparent, ?_, hsplit⟩
    exact List.append_cancel_right (hsplit.symm.trans heq)
  · intro events hload
    obtain ⟨replayed, hreplayed, rfl⟩ := loadForked_ok hload
    obtain ⟨own, hown, rfl⟩ := hforked.split (Kept.refl s₁ child) (load_history hreplayed)
    obtain ⟨_, lines, hash, createdAt, hfile, hkinds⟩ := hforked.written
    obtain ⟨file', hfile', rfl, -⟩ := hown
    obtain rfl := Option.some.inj (hfile'.symm.trans hfile)
    have hwritten : ((ownEvents child none file'.readLines).map ScopedEvent.event).map Event.kind =
        (forkKinds E parent a createdAt lines hash (branch.map ScopedEvent.event)).map E.redactKind := by
      rw [← hkinds]
      simp [ownEvents, JournalFile.kinds, ReadLine.kind]
    rw [List.map_append]
    exact ⟨fromEvents_fork hwritten, ceiling_fork hwritten⟩
  · intro s₂ run events v hdescends hload hv
    obtain ⟨replayed, hreplayed, rfl⟩ := loadForked_ok hload
    exact hdescends.bounded hforked.history hv none replayed (load_history hreplayed)

/-! ## One fork -/

def plainEnv : Env where
  scrub := id
  redactOther := id
  hashLine := fun _ _ _ => "h"
  lineBytes := fun _ => 1
  readable := fun _ _ => .ok ()
  writable := fun _ => .ok ()
  validCheckpoint := fun _ => true
  usdValid := fun _ => true
  legacyUsdToMicrousdFloor := UInt64.toNat
  microusdToUsd := UInt64.ofNat

def plainStart : RunStart where
  cwd := "/w"
  model := "m"
  effort := .high
  createdAt := 0
  environment := none
  parentRun := none
  forkedAt := none
  parentHashAtSeq := none
  configDigest := ""
  agentDefinitionTag := none
  maxUsd := some 5

def plainLine : ChainLine where
  seq := 0
  tenant := "t"
  prev := zeroHash
  hash := "h"
  payload := { seq := 0, turn := 0, kind := .runStart plainStart }

def startedStore : Store := (∅ : Store).insert "p" { lines := [{ bytes := 1, content := some plainLine }] }

/-- The fork of a started run loads, and its ceiling is the run's. -/
theorem fork_preserves_started : ∃ s₁ branch events, fork plainEnv startedStore "p" 0 "t" "c" 7 = .ok s₁ ∧
    History startedStore "p" (some 0) branch ∧ loadForked plainEnv s₁ "c" = .ok events ∧ events.length = 5 ∧
    ceiling UInt64.toNat events = ceiling UInt64.toNat (branch.map ScopedEvent.event) := by
  have hrun : ((fork plainEnv startedStore "p" 0 "t" "c" 7).bind (fun s₁ => loadForked plainEnv s₁ "c")).toOption.map
      List.length = some 5 := by rfl
  obtain ⟨events, hevents, hlen⟩ := Option.map_eq_some_iff.1 hrun
  obtain ⟨s₁, hfork, hload⟩ := bind_eq_ok.1 (toOption_eq_some.1 hevents)
  have hfresh : startedStore["c"]? = none := by decide
  obtain ⟨branch, hhist, -, hsame, -⟩ := fork_preserves plainEnv startedStore s₁ "p" "c" "t" 0 7 hfork hfresh
  exact ⟨s₁, branch, events, hfork, hhist, hload, hlen, (hsame events hload).2⟩

end Iteron.Session
