import Iteron.SessionReads
/-!
# SessionHistory — the history of a run, whatever it costs to read

A store gives a run one history: that of its parent up to the fork point, and its own events.  A load that succeeds
returns it, the parent of what loads can be loaded too, and journals that only grow do not change the history up to a
line that was there.
-/
namespace Iteron.Session

open Refuse

variable {E : Env} {s s' : Store} {run : String} {upto : Option Nat} {lines lines' : List ReadLine}
  {events inherited : List ScopedEvent} {n : Nat} {b b' : Budget}

/-! ## One expansion -/

/-- What the lines of a run inherit when that many more parents may be followed. -/
def Inherits (E : Env) (s : Store) (n : Nat) (lines : List ReadLine) (b : Budget) (inherited : List ScopedEvent) : Prop :=
  (edgeOf lines = none ∧ inherited = []) ∨
    ∃ m edge parent b', n = m + 1 ∧ edgeOf lines = some edge ∧ parentLines E s lines edge b = .ok (parent, b') ∧
      expandScopedFrom E s m edge.parent (some edge.forkedAt) b' (some parent) = .ok inherited

theorem expand_ok {preloaded : Option (List ReadLine)} : expandScopedFrom E s n run upto b preloaded = .ok events ↔
      ∃ lines b1 inherited, openLines E s run b preloaded = .ok (lines, b1) ∧ Inherits E s n lines b1 inherited ∧
        inherited ++ ownEvents run upto lines = events := by
  constructor
  · intro h
    cases n <;> rw [expandScopedFrom, bind_eq_ok] at h <;> obtain ⟨⟨lines, b1⟩, hopen, h⟩ := h <;>
      cases hedge : edgeOf lines <;> simp only [hedge, bind_eq_ok, pure_eq_ok] at h
    · exact ⟨lines, b1, [], hopen, .inl ⟨hedge, rfl⟩, h⟩
    · cases h
    · exact ⟨lines, b1, [], hopen, .inl ⟨hedge, rfl⟩, h⟩
    · obtain ⟨⟨parent, b2⟩, hparent, inherited, hinherited, heq⟩ := h
      exact ⟨lines, b1, inherited, hopen, .inr ⟨_, _, parent, b2, rfl, hedge, hparent, hinherited⟩, heq⟩
  · rintro ⟨lines, b1, inherited, hopen, hinherits, heq⟩
    rcases hinherits with ⟨hedge, rfl⟩ | ⟨m, edge, parent, b2, rfl, hedge, hparent, hinherited⟩
    · cases n <;>
        · rw [expandScopedFrom, bind_eq_ok]
          refine ⟨(lines, b1), hopen, ?_⟩
          simp only [hedge, pure_eq_ok]
          exact heq
    · rw [expandScopedFrom, bind_eq_ok]
      refine ⟨(lines, b1), hopen, ?_⟩
      simp only [hedge, bind_eq_ok, pure_eq_ok]
      exact ⟨(parent, b2), hparent, inherited, hinherited, heq⟩

variable {b1 : Budget}

theorem beginExpand_ok :
    beginExpand b run = .ok b1 ↔ run ∉ b.expandedRuns ∧ { b with expandedRuns := run :: b.expandedRuns } = b1 := by
  simp only [beginExpand, ensureCanExpand, bind_eq_ok, refuseIf_eq_ok, pure_eq_ok]
  constructor
  · rintro ⟨_, h⟩
    exact h
  · intro h
    exact ⟨(), h⟩

theorem openLines_some : openLines E s run b (some lines) = .ok (lines', b1) ↔
    validateRunId run = .ok () ∧ beginExpand b run = .ok b1 ∧ lines = lines' := by
  simp only [openLines, bind_eq_ok, pure_eq_ok, Prod.mk.injEq]
  constructor
  · rintro ⟨_, hid, _, hbegin, hlines, rfl⟩
    exact ⟨hid, hbegin, hlines⟩
  · rintro ⟨hid, hbegin, hlines⟩
    exact ⟨(), hid, b1, hbegin, hlines, rfl⟩

theorem openLines_none : openLines E s run b none = .ok (lines, b1) ↔
    validateRunId run = .ok () ∧ ∃ b2, beginExpand b run = .ok b2 ∧ readChain E s run b2 = .ok (lines, b1) := by
  simp only [openLines, bind_eq_ok]
  constructor
  · rintro ⟨_, hid, h⟩
    exact ⟨hid, h⟩
  · rintro ⟨hid, h⟩
    exact ⟨(), hid, h⟩

variable {edge : Edge}

theorem parentLines_ok {parent : List ReadLine} (h : parentLines E s lines edge b = .ok (parent, b1)) :
    validateRunId edge.parent = .ok () ∧ edge.parent ∉ b.expandedRuns ∧
      readChain E s edge.parent b = .ok (parent, b1) ∧ ∃ l ∈ parent, l.seq = edge.forkedAt := by
  simp only [parentLines, ensureCanExpand, bind_eq_ok, refuseIf_eq_ok] at h
  obtain ⟨_, hfree, _, hid, ⟨parent', _⟩, hread, _, -, _, -, _, -, h⟩ := h
  cases hpin : parent'.find? (fun l => l.seq = edge.forkedAt) with
  | none =>
    simp only [hpin] at h
    cases h
  | some pinned =>
    simp only [hpin, bind_eq_ok, pure_eq_ok, Prod.mk.injEq] at h
    obtain ⟨_, -, rfl, rfl⟩ := h
    exact ⟨hid, hfree, hread, pinned, List.mem_of_find?_eq_some hpin, by simpa using List.find?_some hpin⟩

/-! ## Less spent before -/

theorem beginExpand_within (hw : b'.Within [] b) (h : beginExpand b run = .ok b1) :
    ∃ b1', beginExpand b' run = .ok b1' ∧ b1'.Within [] b1 := by
  obtain ⟨hfree, rfl⟩ := beginExpand_ok.1 h
  refine ⟨_, beginExpand_ok.2 ⟨fun hmem => hfree (hw.expandedRuns hmem), rfl⟩, hw.bytes, hw.physicalLines, hw.events, ?_⟩
  exact List.cons_subset_cons run hw.expandedRuns

theorem parentLines_within {parent : List ReadLine} (hw : b'.Within [] b)
    (h : parentLines E s lines edge b = .ok (parent, b1)) :
    ∃ b1', parentLines E s lines edge b' = .ok (parent, b1') ∧ b1'.Within [] b1 := by
  simp only [parentLines, ensureCanExpand, bind_eq_ok, refuseIf_eq_ok] at h ⊢
  obtain ⟨_, hfree, _, hid, ⟨parent', _⟩, hread, _, htenant, _, htunables, _, hbundle, h⟩ := h
  obtain ⟨b2', hread', hw'⟩ := readChain_within hw hread
  cases hpin : parent'.find? (fun l => l.seq = edge.forkedAt) with
  | none =>
    simp only [hpin] at h
    cases h
  | some _ =>
    simp only [hpin, bind_eq_ok, pure_eq_ok, Prod.mk.injEq] at h
    obtain ⟨_, hhash, rfl, rfl⟩ := h
    refine ⟨b2', ⟨(), fun hmem => hfree (hw.expandedRuns hmem), (), hid, (parent', b2'), hread', (), htenant,
      (), htunables, (), hbundle, ?_⟩, hw'⟩
    simp only [hpin, bind_eq_ok, pure_eq_ok, and_true]
    exact ⟨(), hhash⟩

theorem Inherits.within {n' : Nat} (h : Inherits E s n lines b inherited) (hn : n ≤ n') (hw : b'.Within [] b) :
    Inherits E s n' lines b' inherited := by
  induction n generalizing n' lines b b' inherited with
  | zero =>
    rcases h with hroot | ⟨m, _, _, _, hm, _⟩
    · exact .inl hroot
    · cases hm
  | succ n ih =>
    rcases h with hroot | ⟨m, edge, parent, _, hm, hedge, hparent, hexpand⟩
    · exact .inl hroot
    · cases hm
      obtain ⟨m', rfl⟩ : ∃ m', n' = m' + 1 := ⟨n' - 1, by omega⟩
      obtain ⟨b1', hparent', hw1⟩ := parentLines_within hw hparent
      obtain ⟨_, _, inherited2, hopen, hinherits, heq⟩ := expand_ok.1 hexpand
      obtain ⟨hid, hbegin, rfl⟩ := openLines_some.1 hopen
      obtain ⟨b2', hbegin', hw2⟩ := beginExpand_within hw1 hbegin
      refine .inr ⟨m', edge, parent, b1', rfl, hedge, hparent', ?_⟩
      refine expand_ok.2 ⟨parent, b2', inherited2, openLines_some.2 ⟨hid, hbegin', rfl⟩, ?_, heq⟩
      exact ih hinherits (by omega) hw2

/-- **Where a fork can be loaded its parent can be, and the fork begins with what the parent begins with.** -/
theorem load_parent (h : loadForkedScoped E s run = .ok events) :
    ∃ lines, Reads s run lines ∧ ∀ edge, edgeOf lines = some edge → ∃ parent inherited, Reads s edge.parent parent ∧
      loadForkedScoped E s edge.parent = .ok (inherited ++ ownEvents edge.parent none parent) ∧
      events = inherited ++ ownEvents edge.parent (some edge.forkedAt) parent ++ ownEvents run none lines := by
  obtain ⟨lines, b1, inherited, hopen, hinherits, rfl⟩ := expand_ok.1 h
  obtain ⟨-, _, -, hread⟩ := openLines_none.1 hopen
  refine ⟨lines, readChain_ok hread, fun edge hedge => ?_⟩
  rcases hinherits with ⟨hroot, -⟩ | ⟨m, edge', parent, b2, _, hedge', hparent, hexpand⟩
  · rw [hroot] at hedge
    cases hedge
  · obtain rfl := Option.some.inj (hedge'.symm.trans hedge)
    obtain ⟨hid, -, hreadParent, -⟩ := parentLines_ok hparent
    obtain ⟨_, _, inherited3, hopen3, hinherits3, rfl⟩ := expand_ok.1 hexpand
    obtain ⟨-, hbegin3, rfl⟩ := openLines_some.1 hopen3
    obtain ⟨_, rfl⟩ := beginExpand_ok.1 hbegin3
    refine ⟨parent, inherited3, readChain_ok hreadParent, ?_, rfl⟩
    -- the parent alone is read from an unspent budget that has expanded only the parent
    have hstart : Budget.Within [edge'.parent] { expandedRuns := [edge'.parent] } b1 :=
      ⟨Nat.zero_le _, Nat.zero_le _, Nat.zero_le _, by simp⟩
    obtain ⟨b2', hread', hw⟩ := readChain_within hstart hreadParent
    have hw' : Budget.Within [] b2' { b2 with expandedRuns := edge'.parent :: b2.expandedRuns } :=
      ⟨hw.bytes, hw.physicalLines, hw.events, hw.expandedRuns⟩
    refine expand_ok.2 ⟨parent, b2', inherited3, openLines_none.2 ⟨hid, _, beginExpand_ok.2 ⟨nofun, rfl⟩, hread'⟩, ?_, rfl⟩
    exact hinherits3.within (by omega) hw'

/-! ## Histories -/

/-- The logical history of a run, up to a line of it: its parent's up to the fork point, and its own events. -/
inductive History (s : Store) : String → Option Nat → List ScopedEvent → Prop
  | root {run : String} {upto : Option Nat} {lines : List ReadLine} : Reads s run lines → edgeOf lines = none →
      History s run upto (ownEvents run upto lines)
  | fork {run : String} {upto : Option Nat} {lines parent : List ReadLine} {edge : Edge} {inherited : List ScopedEvent} :
      Reads s run lines → edgeOf lines = some edge → Reads s edge.parent parent →
      (∃ l ∈ parent, l.seq = edge.forkedAt) → History s edge.parent (some edge.forkedAt) inherited →
      History s run upto (inherited ++ ownEvents run upto lines)

theorem history_of_inherits (hread : Reads s run lines) (h : Inherits E s n lines b inherited) :
    History s run upto (inherited ++ ownEvents run upto lines) := by
  induction n generalizing run upto lines b inherited with
  | zero =>
    rcases h with ⟨hroot, rfl⟩ | ⟨m, _, _, _, hm, _⟩
    · exact .root hread hroot
    · cases hm
  | succ n ih =>
    rcases h with ⟨hroot, rfl⟩ | ⟨m, _, _, _, hm, hedge, hparent, hexpand⟩
    · exact .root hread hroot
    · cases hm
      obtain ⟨-, -, hreadParent, hpinned⟩ := parentLines_ok hparent
      obtain ⟨_, _, _, hopen, hinherits, rfl⟩ := expand_ok.1 hexpand
      obtain ⟨-, -, rfl⟩ := openLines_some.1 hopen
      exact .fork hread hedge (readChain_ok hreadParent) hpinned (ih (readChain_ok hreadParent) hinherits)

/-- **A load that succeeds returns the history.** -/
theorem load_history (h : loadForkedScoped E s run = .ok events) : History s run none events := by
  obtain ⟨_, _, _, hopen, hinherits, rfl⟩ := expand_ok.1 h
  obtain ⟨-, _, -, hread⟩ := openLines_none.1 hopen
  exact history_of_inherits (readChain_ok hread) hinherits

theorem loadForked_ok {events : List Event} (h : loadForked E s run = .ok events) :
    ∃ replayed, loadForkedScoped E s run = .ok replayed ∧ replayed.map ScopedEvent.event = events := by
  unfold loadForked at h
  cases hload : loadForkedScoped E s run with
  | error e =>
    rw [hload] at h
    cases h
  | ok replayed =>
    rw [hload] at h
    exact ⟨replayed, rfl, Except.ok.inj h⟩

variable {events' : List ScopedEvent}

theorem History.unique (h : History s run upto events) (h' : History s run upto events') : events' = events := by
  induction h generalizing events' with
  | root hread hroot =>
    cases h' with
    | root hread' _ => rw [hread'.unique hread]
    | fork hread' hedge' _ _ _ =>
      rw [hread'.unique hread, hroot] at hedge'
      cases hedge'
  | fork hread hedge _ _ _ ih =>
    cases h' with
    | root hread' hroot' =>
      rw [hread'.unique hread, hedge] at hroot'
      cases hroot'
    | fork hread' hedge' _ _ hinherited =>
      rw [hread'.unique hread, hedge] at hedge'
      cases hedge'
      rw [hread'.unique hread, ih hinherited]

/-! ## Growing journals -/

/-- The run and what it was forked from, through all its parents. -/
inductive Lineage (s : Store) : String → String → Prop
  | self (run : String) : Lineage s run run
  | parent {run r : String} {file : JournalFile} {edge : Edge} : s[run]? = some file →
      edgeOf file.readLines = some edge → Lineage s edge.parent r → Lineage s run r

/-- No line of the run or of what it was forked from is lost. -/
def Kept (s s' : Store) (run : String) : Prop :=
  ∀ r file, Lineage s run r → s[r]? = some file → ∃ file', s'[r]? = some file' ∧ file.chain <+: file'.chain

theorem Kept.refl (s : Store) (run : String) : Kept s s run := fun _ file _ hfile => ⟨file, hfile, List.prefix_refl _⟩

theorem Kept.parent (h : Kept s s' run) (hread : Reads s run lines) (hedge : edgeOf lines = some edge) :
    Kept s s' edge.parent := by
  obtain ⟨_, hfile, rfl, -⟩ := hread
  exact fun r file' hr => h r file' (.parent hfile hedge hr)

theorem Kept.reads (h : Kept s s' run) (hread : Reads s run lines) (hread' : Reads s' run lines') : lines <+: lines' := by
  obtain ⟨file, hfile, rfl, -⟩ := hread
  obtain ⟨_, hfile', rfl, -⟩ := hread'
  obtain ⟨_, hfile'', hle⟩ := h run file (.self run) hfile
  cases hfile'.symm.trans hfile''
  exact hle.map ChainLine.read

theorem edgeOf_grown (h : lines <+: lines') (hne : lines ≠ []) : edgeOf lines' = edgeOf lines := by
  obtain ⟨_, rfl⟩ := h
  obtain ⟨l, _, rfl⟩ := List.exists_cons_of_ne_nil hne
  rfl

theorem ownEvents_grown {u : Nat} (h : lines <+: lines') (hn : Numbered lines') (hu : ∃ l ∈ lines, l.seq = u) :
    ownEvents run (some u) lines' = ownEvents run (some u) lines := by
  obtain ⟨rest, rfl⟩ := h
  obtain ⟨l, hl, rfl⟩ := hu
  obtain ⟨i, hi⟩ := List.getElem?_of_mem hl
  have hlt : i < lines.length := (List.getElem?_eq_some_iff.1 hi).1
  have hseq : l.seq = i := hn i l (by rw [List.getElem?_append_left hlt, hi])
  have hrest : rest.filter (fun m => decide (m.seq ≤ l.seq)) = [] := by
    rw [List.filter_eq_nil_iff]
    intro m hm
    obtain ⟨j, hj⟩ := List.getElem?_of_mem hm
    have hm : m.seq = lines.length + j := hn _ m (by rw [List.getElem?_append_right (Nat.le_add_right _ _)]; simpa using hj)
    simp only [decide_eq_true_eq]
    omega
  simp only [ownEvents, Option.all_some, List.filter_append, hrest, List.append_nil]

theorem History.kept (h : History s run upto events) (h' : History s' run upto events') (hkept : Kept s s' run)
    (hupto : ∀ lines, Reads s run lines → ∃ u, upto = some u ∧ ∃ l ∈ lines, l.seq = u) : events' = events := by
  induction h generalizing events' with
  | @root run upto lines hread hroot =>
    obtain ⟨u, rfl, hu⟩ := hupto lines hread
    have hne : lines ≠ [] := List.ne_nil_of_mem hu.choose_spec.1
    cases h' with
    | root hread' hroot' => exact ownEvents_grown (hkept.reads hread hread') hread'.choose_spec.2.2 hu
    | fork hread' hedge' _ _ _ =>
      rw [edgeOf_grown (hkept.reads hread hread') hne, hroot] at hedge'
      cases hedge'
  | @fork run upto lines _ _ _ hread hedge hparent _ _ ih =>
    obtain ⟨u, rfl, hu⟩ := hupto lines hread
    have hne : lines ≠ [] := List.ne_nil_of_mem hu.choose_spec.1
    cases h' with
    | root hread' hroot' =>
      rw [edgeOf_grown (hkept.reads hread hread') hne, hedge] at hroot'
      cases hroot'
    | fork hread' hedge' _ _ hinherited' =>
      rw [edgeOf_grown (hkept.reads hread hread') hne, hedge] at hedge'
      cases hedge'
      rw [ownEvents_grown (hkept.reads hread hread') hread'.choose_spec.2.2 hu]
      congr 1
      refine ih hinherited' (hkept.parent hread hedge) fun lines hl => ⟨_, rfl, ?_⟩
      obtain ⟨_, hfile, rfl, -⟩ := hl
      obtain ⟨_, hfile', rfl, -⟩ := hparent
      rwa [Option.some.inj (hfile.symm.trans hfile')]

end Iteron.Session
