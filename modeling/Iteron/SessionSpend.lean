import Iteron.SessionForkRun
/-!
# SessionSpend — what a load costs

A file is read under any budget that covers it or under none: whether its lines are in order does not depend on what was
spent before.  So a load of a fork succeeds when the files of its lineage are in order, name one another, and stay
together within the limits.
-/
namespace Iteron.Session

open Refuse
open List (foldlM_nil map_cons map_nil sum_cons sum_nil)

variable {E : Env} {s s' : Store} {run : String} {b b' : Budget} {lines parent : List ReadLine} {n : Nat}

/-! ## One file -/

def Budget.spend (b : Budget) (file : JournalFile) : Budget :=
  { b with bytes := b.bytes + file.length, physicalLines := b.physicalLines + file.lines.length,
           events := b.events + file.chain.length }

/-- The files can be read one after the other within the limits. -/
@[mk_iff]
structure Budget.Covers (b : Budget) (files : List JournalFile) : Prop where
  bytes : b.bytes + (files.map JournalFile.length).sum ≤ maxRolloutBytes
  physicalLines : b.physicalLines + (files.map (fun file => file.lines.length)).sum ≤ maxRolloutPhysicalLines
  events : b.events + (files.map (fun file => file.chain.length)).sum ≤ maxRolloutEvents

variable {files : List JournalFile}

theorem Budget.covers_cons {file : JournalFile} : b.Covers (file :: files) ↔ (b.spend file).Covers files := by
  constructor
  · rintro ⟨hbytes, hlines, hevents⟩
    simp only [map_cons, sum_cons] at hbytes hlines hevents
    refine ⟨?_, ?_, ?_⟩ <;>
      · simp only [Budget.spend]
        omega
  · rintro ⟨hbytes, hlines, hevents⟩
    simp only [Budget.spend] at hbytes hlines hevents
    refine ⟨?_, ?_, ?_⟩ <;>
      · simp only [map_cons, sum_cons]
        omega

theorem Budget.Covers.nil (h : b.Covers files) : b.Covers [] :=
  ⟨le_trans (Nat.le_add_right _ _) h.bytes, le_trans (Nat.le_add_right _ _) h.physicalLines,
    le_trans (Nat.le_add_right _ _) h.events⟩

def Budget.expand (b : Budget) (run : String) : Budget := { b with expandedRuns := run :: b.expandedRuns }

theorem Budget.covers_expand : (b.expand run).Covers files ↔ b.Covers files :=
  ⟨fun h => ⟨h.bytes, h.physicalLines, h.events⟩, fun h => ⟨h.bytes, h.physicalLines, h.events⟩⟩

/-- The file is in order: no line is too long and each continues the chain. -/
structure Verified (E : Env) (file : JournalFile) : Prop where
  short : ∀ line ∈ file.lines, line.bytes ≤ maxRecordLineBytes
  torn : file.torn ≤ maxRecordLineBytes
  chained : ∃ scan, file.chain.foldlM (verifyLine E) {} = .ok scan

def Line.file (line : Line) : JournalFile := { lines := [line] }

variable {line : Line}

theorem chargeLine_iff : chargeLine b line = .ok b' ↔ line.bytes ≤ maxRecordLineBytes ∧ b.bytes + line.bytes ≤ maxRolloutBytes ∧
      b.physicalLines + 1 ≤ maxRolloutPhysicalLines ∧
      { b with bytes := b.bytes + line.bytes, physicalLines := b.physicalLines + 1 } = b' := by
  simp only [chargeLine, chargeBytes, bind_eq_ok, refuseIf_eq_ok, pure_eq_ok, not_lt]
  constructor
  · rintro ⟨_, hshort, _, ⟨_, hbytes, rfl⟩, _, hlines, rfl⟩
    exact ⟨hshort, hbytes, hlines, rfl⟩
  · rintro ⟨hshort, hbytes, hlines, rfl⟩
    exact ⟨(), hshort, _, ⟨(), hbytes, rfl⟩, (), hlines, rfl⟩

theorem chargeEvent_iff :
    chargeEvent b = .ok b' ↔ b.events + 1 ≤ maxRolloutEvents ∧ { b with events := b.events + 1 } = b' := by
  simp only [chargeEvent, bind_eq_ok, refuseIf_eq_ok, pure_eq_ok, not_lt]
  constructor
  · rintro ⟨_, h⟩
    exact h
  · intro h
    exact ⟨(), h⟩

theorem visitLine_iff {scan scan' : Scan} (hb : b.Covers []) : visitLine E (scan, b) line = .ok (scan', b') ↔
      line.bytes ≤ maxRecordLineBytes ∧ line.content.toList.foldlM (verifyLine E) scan = .ok scan' ∧
        b.spend line.file = b' ∧ b.Covers [line.file] := by
  have hevents := hb.events
  unfold visitLine
  cases hc : line.content with
  | none =>
    simp only [bind_eq_ok, chargeLine_iff, pure_eq_ok, Prod.mk.injEq, Option.toList_none, foldlM_nil]
    have hspend : b.spend line.file = { b with bytes := b.bytes + line.bytes, physicalLines := b.physicalLines + 1 } := by
      simp [Budget.spend, Line.file, JournalFile.length, JournalFile.chain, hc]
    constructor
    · rintro ⟨_, ⟨hshort, hbytes, hlines, rfl⟩, rfl, rfl⟩
      exact ⟨hshort, rfl, hspend, Budget.covers_cons.2 (hspend ▸ ⟨hbytes, hlines, hevents⟩)⟩
    · rintro ⟨hshort, rfl, rfl, hcovers⟩
      exact ⟨_, ⟨hshort, hcovers.bytes, hcovers.physicalLines, rfl⟩, rfl, hspend.symm⟩
  | some _ =>
    simp only [bind_eq_ok, chargeLine_iff, chargeEvent_iff, pure_eq_ok, Prod.mk.injEq, Option.toList_some,
      List.foldlM_cons, foldlM_nil]
    have hspend : b.spend line.file =
        { b with bytes := b.bytes + line.bytes, physicalLines := b.physicalLines + 1, events := b.events + 1 } := by
      simp [Budget.spend, Line.file, JournalFile.length, JournalFile.chain, hc]
    constructor
    · rintro ⟨_, ⟨hshort, hbytes, hlines, rfl⟩, _, ⟨hone, rfl⟩, _, hscan, rfl, rfl⟩
      exact ⟨hshort, ⟨_, hscan, rfl⟩, hspend, Budget.covers_cons.2 (hspend ▸ ⟨hbytes, hlines, hone⟩)⟩
    · rintro ⟨hshort, ⟨_, hscan, rfl⟩, rfl, hcovers⟩
      rw [Budget.covers_cons, hspend] at hcovers
      exact ⟨_, ⟨hshort, hcovers.bytes, hcovers.physicalLines, rfl⟩, _, ⟨hcovers.events, rfl⟩, _, hscan, rfl, hspend.symm⟩

theorem Budget.spend_append (xs ys : List Line) (torn : Nat) :
    b.spend { lines := xs ++ ys, torn := torn } = (b.spend { lines := xs }).spend { lines := ys, torn := torn } := by
  simp only [Budget.spend, JournalFile.length, JournalFile.chain, List.map_append, List.sum_append, List.length_append,
    List.filterMap_append, Budget.mk.injEq]
  refine ⟨?_, ?_, ?_, trivial⟩ <;> omega

theorem visitAll_iff : ∀ (rest : List Line) {scan scan' : Scan} {b b' : Budget}, b.Covers [] →
    (rest.foldlM (visitLine E) (scan, b) = .ok (scan', b') ↔ (∀ line ∈ rest, line.bytes ≤ maxRecordLineBytes) ∧
        (rest.filterMap Line.content).foldlM (verifyLine E) scan = .ok scan' ∧
        b.spend { lines := rest } = b' ∧ b.Covers [{ lines := rest }])
  | [], scan, scan', b, b', hb => by
    have hspend : b.spend { lines := [] } = b := rfl
    simp only [foldlM_nil, List.filterMap_nil, pure_eq_ok, Prod.mk.injEq, hspend, Budget.covers_cons, hb, and_true,
      List.not_mem_nil, false_implies, implies_true, true_and]
  | line :: rest, scan, scan', b, b', hb => by
    have hfold : ((line :: rest).filterMap Line.content).foldlM (verifyLine E) scan =
        line.content.toList.foldlM (verifyLine E) scan >>=
          fun scan1 => (rest.filterMap Line.content).foldlM (verifyLine E) scan1 := by
      rw [← List.foldlM_append]
      cases hc : line.content with
      | none => rw [List.filterMap_cons_none hc, Option.toList_none, List.nil_append]
      | some _ => rw [List.filterMap_cons_some hc, Option.toList_some, List.singleton_append]
    have hspend : b.spend { lines := line :: rest } = (b.spend line.file).spend { lines := rest } :=
      Budget.spend_append [line] rest 0
    have hcovers : b.Covers [{ lines := line :: rest }] ↔ (b.spend line.file).Covers [{ lines := rest }] := by
      rw [Budget.covers_cons, Budget.covers_cons, hspend]
    rw [List.foldlM_cons, bind_eq_ok, hfold, hspend, hcovers]
    simp only [bind_eq_ok, List.forall_mem_cons]
    constructor
    · rintro ⟨⟨scan1, _⟩, hone, hrest⟩
      obtain ⟨hshort, hscan, rfl, hfits⟩ := (visitLine_iff hb).1 hone
      obtain ⟨hshorts, hscans, hb', hall⟩ := (visitAll_iff rest (Budget.covers_cons.1 hfits)).1 hrest
      exact ⟨⟨hshort, hshorts⟩, ⟨scan1, hscan, hscans⟩, hb', hall⟩
    · rintro ⟨⟨hshort, hshorts⟩, ⟨scan1, hscan, hscans⟩, hb', hall⟩
      refine ⟨(scan1, b.spend line.file), (visitLine_iff hb).2 ⟨hshort, hscan, rfl, ?_⟩, ?_⟩
      · exact Budget.covers_cons.2 hall.nil
      · exact (visitAll_iff rest hall.nil).2 ⟨hshorts, hscans, hb', hall⟩

/-- **A file in order is read by every budget that covers it, and no other file is.** -/
theorem readChain_iff {file : JournalFile} (hfile : s[run]? = some file) (hb : b.Covers []) :
    readChain E s run b = .ok (lines, b') ↔
      Verified E file ∧ file.readLines = lines ∧ b.spend file = b' ∧ b.Covers [file] := by
  have hspend : b.spend file = (b.spend { lines := file.lines }).spend { torn := file.torn } := by
    have happend := Budget.spend_append (b := b) file.lines [] file.torn
    rwa [List.append_nil] at happend
  have htorn : (b.spend { lines := file.lines }).spend { torn := file.torn } =
      { b.spend { lines := file.lines } with bytes := (b.spend { lines := file.lines }).bytes + file.torn } := by
    simp [Budget.spend, JournalFile.length, JournalFile.chain]
  simp only [readChain, hfile, bind_eq_ok, refuseIf_eq_ok, chargeBytes, pure_eq_ok, Prod.mk.injEq, not_lt]
  constructor
  · rintro ⟨_, hbytes, ⟨scan, _⟩, hall, _, hlast, _, ⟨_, -, rfl⟩, rfl, rfl⟩
    obtain ⟨hshort, hscan, rfl, hcovers⟩ := (visitAll_iff file.lines hb).1 hall
    refine ⟨⟨hshort, hlast, scan, hscan⟩, ?_, hspend.trans htorn, ?_⟩
    · exact (visitAll_ok file.lines hall (by intro i l hi; simp at hi)).1.symm
    · exact ⟨by simpa using hbytes, by simpa using hcovers.physicalLines, by simpa [JournalFile.chain] using hcovers.events⟩
  · rintro ⟨⟨hshort, hlast, scan, hscan⟩, rfl, rfl, hcovers⟩
    have hlines : b.Covers [{ lines := file.lines }] := by
      refine ⟨?_, hcovers.physicalLines, hcovers.events⟩
      have hbytes := hcovers.bytes
      simp only [map_cons, map_nil, sum_cons, sum_nil, JournalFile.length] at hbytes ⊢
      omega
    have hall := (visitAll_iff file.lines hb).2 ⟨hshort, hscan, rfl, hlines⟩
    have hbytes := hcovers.bytes
    simp only [map_cons, map_nil, sum_cons, sum_nil, Nat.add_zero] at hbytes
    refine ⟨(), hbytes, (scan, _), hall, (), hlast, _, ⟨(), ?_, rfl⟩, ?_, ?_⟩
    · simp only [Budget.spend, JournalFile.length] at hbytes ⊢
      omega
    · exact (visitAll_ok file.lines hall (by intro i l hi; simp at hi)).1
    · exact (hspend.trans htorn).symm

/-! ## A lineage -/

/-- The file is the parent that the lines of a fork name. -/
structure Linked (E : Env) (lines : List ReadLine) (edge : Edge) (file : JournalFile) : Prop where
  id : validateRunId edge.parent = .ok ()
  verified : Verified E file
  tenant : ensureTenant ((lines.head?.map ReadLine.tenant).getD "") ((file.readLines.head?.map ReadLine.tenant).getD
    ((lines.head?.map ReadLine.tenant).getD "")) 0 = .ok ()
  tunables : inherits TunablesCheckpoint.digestSha256 edge.parent (genesisTunablesEvent lines)
    (genesisTunablesEvent file.readLines) = true
  policyBundle : inherits Snapshot.digestSha256 edge.parent (genesisPolicyBundleEvent lines)
    (genesisPolicyBundleEvent file.readLines) = true
  pinned : ∃ l, file.readLines.find? (fun l => l.seq = edge.forkedAt) = some l ∧ l.hash = edge.parentHash

variable {edge : Edge}

theorem parentLines_iff {file : JournalFile} (hfile : s[edge.parent]? = some file) (hb : b.Covers []) :
    parentLines E s lines edge b = .ok (parent, b') ↔
      edge.parent ∉ b.expandedRuns ∧ Linked E lines edge file ∧ file.readLines = parent ∧ b.spend file = b' ∧
        b.Covers [file] := by
  simp only [parentLines, ensureCanExpand, bind_eq_ok, refuseIf_eq_ok, Bool.not_eq_false]
  constructor
  · rintro ⟨_, hfree, _, hid, ⟨_, _⟩, hread, _, htenant, _, htunables, _, hbundle, h⟩
    obtain ⟨hverified, rfl, rfl, hcovers⟩ := (readChain_iff hfile hb).1 hread
    cases hpin : file.readLines.find? (fun l => l.seq = edge.forkedAt) with
    | none =>
      simp only [hpin] at h
      cases h
    | some l =>
      simp only [hpin, bind_eq_ok, refuseIf_eq_ok, not_not, pure_eq_ok, Prod.mk.injEq] at h
      obtain ⟨_, hhash, rfl, rfl⟩ := h
      exact ⟨hfree, ⟨hid, hverified, htenant, htunables, hbundle, l, hpin, hhash⟩, rfl, rfl, hcovers⟩
  · rintro ⟨hfree, hlinked, rfl, rfl, hcovers⟩
    obtain ⟨l, hpin, hhash⟩ := hlinked.pinned
    refine ⟨(), hfree, (), hlinked.id, (_, _), (readChain_iff hfile hb).2 ⟨hlinked.verified, rfl, rfl, hcovers⟩, (),
      hlinked.tenant, (), hlinked.tunables, (), hlinked.policyBundle, ?_⟩
    simp only [hpin, bind_eq_ok, refuseIf_eq_ok, not_not, pure_eq_ok, and_true]
    exact ⟨(), hhash⟩

/-- The runs that lines descend from, the parent first, with their files. -/
inductive Ancestry (E : Env) (s : Store) : List ReadLine → List (String × JournalFile) → Prop
  | root {lines : List ReadLine} : edgeOf lines = none → Ancestry E s lines []
  | parent {lines : List ReadLine} {edge : Edge} {file : JournalFile} {rest : List (String × JournalFile)} :
      edgeOf lines = some edge → s[edge.parent]? = some file → Linked E lines edge file →
      Ancestry E s file.readLines rest → Ancestry E s lines ((edge.parent, file) :: rest)

variable {anc : List (String × JournalFile)}

theorem Ancestry.unique {anc' : List (String × JournalFile)} (h : Ancestry E s lines anc) (h' : Ancestry E s lines anc')
    : anc = anc' := by
  induction h generalizing anc' with
  | root hroot =>
    cases h' with
    | root _ => rfl
    | parent hedge _ _ _ =>
      rw [hroot] at hedge
      cases hedge
  | parent hedge hfile _ _ ih =>
    cases h' with
    | root hroot =>
      rw [hroot] at hedge
      cases hedge
    | parent hedge' hfile' _ hrest' =>
      cases hedge.symm.trans hedge'
      cases hfile.symm.trans hfile'
      rw [ih hrest']

theorem Ancestry.older (h : Ancestry E s lines anc)
    (holder : ∀ (r : String) file, s[r]? = some file → s'[r]? = some file) : Ancestry E s' lines anc := by
  induction h with
  | root hroot => exact .root hroot
  | parent hedge hfile hlinked _ ih => exact .parent hedge (holder _ _ hfile) hlinked ih

theorem Ancestry.stored (h : Ancestry E s lines anc) : ∀ p ∈ anc, s[p.1]? = some p.2 := by
  induction h with
  | root _ => simp
  | parent _ hfile _ _ ih =>
    intro p hp
    rcases List.mem_cons.1 hp with rfl | hp
    · exact hfile
    · exact ih p hp

def Fresh (b : Budget) (anc : List (String × JournalFile)) : Prop :=
  (anc.map Prod.fst).Nodup ∧ ∀ r ∈ anc.map Prod.fst, r ∉ b.expandedRuns

theorem fresh_cons {file : JournalFile} : Fresh b ((run, file) :: anc) ↔
      run ∉ b.expandedRuns ∧ Fresh ((b.spend file).expand run) anc := by
  have hexpanded : ((b.spend file).expand run).expandedRuns = run :: b.expandedRuns := rfl
  simp only [Fresh, hexpanded, map_cons, List.nodup_cons, List.forall_mem_cons]
  simp only [List.mem_cons, not_or]
  constructor
  · rintro ⟨⟨hself, hnodup⟩, hfree, hrest⟩
    exact ⟨hfree, hnodup, fun r hr => ⟨fun heq => hself (heq ▸ hr), hrest r hr⟩⟩
  · rintro ⟨hfree, hnodup, hrest⟩
    exact ⟨⟨fun hself => (hrest run hself).1 rfl, hnodup⟩, hfree, fun r hr => (hrest r hr).2⟩

theorem inherits_parent {file : JournalFile} (hedge : edgeOf lines = some edge) (hfile : s[edge.parent]? = some file)
    (hb : b.Covers []) : (∃ inherited, Inherits E s (n + 1) lines b inherited) ↔
      edge.parent ∉ b.expandedRuns ∧ Linked E lines edge file ∧ b.Covers [file] ∧
        ∃ inherited, Inherits E s n file.readLines ((b.spend file).expand edge.parent) inherited := by
  constructor
  · rintro ⟨inherited, ⟨hroot, -⟩ | ⟨m, _, _, _, hm, hedge', hparent, hexpand⟩⟩
    · rw [hroot] at hedge
      cases hedge
    · cases hm
      cases hedge.symm.trans hedge'
      obtain ⟨hfree, hlinked, rfl, rfl, hcovers⟩ := (parentLines_iff hfile hb).1 hparent
      obtain ⟨_, _, inherited2, hopen, hinherits, -⟩ := expand_ok.1 hexpand
      obtain ⟨-, hbegin, rfl⟩ := openLines_some.1 hopen
      obtain ⟨-, rfl⟩ := beginExpand_ok.1 hbegin
      exact ⟨hfree, hlinked, hcovers, inherited2, hinherits⟩
  · rintro ⟨hfree, hlinked, hcovers, inherited, hinherits⟩
    have hparent := (parentLines_iff (E := E) hfile hb).2 ⟨hfree, hlinked, rfl, rfl, hcovers⟩
    refine ⟨_, .inr ⟨n, edge, _, _, rfl, hedge, hparent, expand_ok.2 ⟨_, _, inherited, ?_, hinherits, rfl⟩⟩⟩
    exact openLines_some.2 ⟨hlinked.id, beginExpand_ok.2 ⟨hfree, rfl⟩, rfl⟩

theorem inherits_root (hroot : edgeOf lines = none) (hb : b.Covers []) : (∃ inherited, Inherits E s n lines b inherited) ↔
    ∃ anc, Ancestry E s lines anc ∧ anc.length ≤ n ∧ Fresh b anc ∧ b.Covers (anc.map Prod.snd) :=
  ⟨fun _ => ⟨[], .root hroot, Nat.zero_le _, ⟨List.nodup_nil, by simp⟩, hb⟩, fun _ => ⟨[], .inl ⟨hroot, rfl⟩⟩⟩

theorem inherits_iff (hb : b.Covers []) : (∃ inherited, Inherits E s n lines b inherited) ↔
    ∃ anc, Ancestry E s lines anc ∧ anc.length ≤ n ∧ Fresh b anc ∧ b.Covers (anc.map Prod.snd) := by
  induction n generalizing lines b with
  | zero =>
    cases hedge : edgeOf lines with
    | none => exact inherits_root hedge hb
    | some edge =>
      constructor
      · rintro ⟨inherited, ⟨hroot, -⟩ | ⟨m, _, _, _, hm, _⟩⟩
        · rw [hroot] at hedge
          cases hedge
        · cases hm
      · rintro ⟨anc, hanc, hlen, -⟩
        cases hanc with
        | root hroot =>
          rw [hroot] at hedge
          cases hedge
        | parent _ _ _ _ => cases hlen
  | succ n ih =>
    cases hedge : edgeOf lines with
    | none => exact inherits_root hedge hb
    | some edge =>
      constructor
      · rintro ⟨inherited, hinherits⟩
        obtain ⟨file, hfile⟩ : ∃ file, s[edge.parent]? = some file := by
          rcases hinherits with ⟨hroot, -⟩ | ⟨m, edge', parent, _, -, hedge', hparent, -⟩
          · rw [hroot] at hedge
            cases hedge
          · cases hedge.symm.trans hedge'
            obtain ⟨-, -, hread, -⟩ := parentLines_ok hparent
            obtain ⟨file, hfile, -⟩ := readChain_ok hread
            exact ⟨file, hfile⟩
        obtain ⟨hfree, hlinked, hcovers, hrest⟩ := (inherits_parent hedge hfile hb).1 ⟨inherited, hinherits⟩
        obtain ⟨anc, hanc, hlen, hfresh, hall⟩ := (ih (Budget.covers_expand.2 (Budget.covers_cons.1 hcovers))).1 hrest
        refine ⟨(edge.parent, file) :: anc, .parent hedge hfile hlinked hanc, Nat.succ_le_succ hlen,
          fresh_cons.2 ⟨hfree, hfresh⟩, ?_⟩
        exact Budget.covers_cons.2 (Budget.covers_expand.1 hall)
      · rintro ⟨anc, hanc, hlen, hfresh, hall⟩
        cases hanc with
        | root hroot =>
          rw [hroot] at hedge
          cases hedge
        | @parent _ edge' file rest hedge' hfile hlinked hrest =>
          cases hedge.symm.trans hedge'
          obtain ⟨hfree, hfresh⟩ := fresh_cons.1 hfresh
          have hleft := Budget.covers_cons.1 hall
          refine (inherits_parent hedge hfile hb).2 ⟨hfree, hlinked, Budget.covers_cons.2 hleft.nil, ?_⟩
          refine (ih (Budget.covers_expand.2 hleft.nil)).2 ⟨rest, hrest, Nat.le_of_succ_le_succ hlen, hfresh, ?_⟩
          exact Budget.covers_expand.2 hleft

end Iteron.Session
