import Iteron.SessionFork
/-!
# SessionReads — what a read of a journal gives and what it costs

A read that succeeds returns the lines of the file, each at its sequence number, and it succeeds again with the same
lines when less was spent before it.
-/
namespace Iteron.Session

open Refuse

variable {E : Env} {extra : List String}

/-! ## Reads -/

def JournalFile.readLines (file : JournalFile) : List ReadLine := file.chain.map ChainLine.read

def Numbered (lines : List ReadLine) : Prop := ∀ (i : Nat) (l : ReadLine), lines[i]? = some l → l.seq = i

def Reads (s : Store) (run : String) (lines : List ReadLine) : Prop :=
  ∃ file, s[run]? = some file ∧ lines = file.readLines ∧ Numbered lines

theorem verifyLine_ok {scan scan' : Scan} {cl : ChainLine} (h : verifyLine E scan cl = .ok scan') :
    scan'.lines = scan.lines ++ [cl.read] ∧ cl.seq = scan.lines.length := by
  simp only [verifyLine, ensureTenant, bind_eq_ok, refuseIf_eq_ok, pure_eq_ok] at h
  obtain ⟨_, -, _, hseq, _, -, _, -, _, -, _, -, rfl⟩ := h
  exact ⟨rfl, not_not.1 hseq⟩

variable {lines : List ReadLine}

theorem Numbered.concat {l : ReadLine} (h : Numbered lines) (hl : l.seq = lines.length) : Numbered (lines ++ [l]) := by
  intro i l' hi
  by_cases hlt : i < lines.length
  · rw [List.getElem?_append_left hlt] at hi
    exact h i l' hi
  · rw [List.getElem?_append_right (not_lt.1 hlt)] at hi
    cases hk : i - lines.length with
    | zero =>
      rw [hk] at hi
      cases hi
      omega
    | succ k =>
      rw [hk] at hi
      simp at hi

variable {line : Line}

theorem visitLine_ok {st st' : Scan × Budget} (h : visitLine E st line = .ok st') :
    ∃ budget, chargeLine st.2 line = .ok budget ∧ ((line.content = none ∧ st' = (st.1, budget)) ∨
        ∃ cl budget' scan, line.content = some cl ∧ chargeEvent budget = .ok budget' ∧
          verifyLine E st.1 cl = .ok scan ∧ st' = (scan, budget')) := by
  unfold visitLine at h
  rw [bind_eq_ok] at h
  obtain ⟨budget, hcharge, h⟩ := h
  refine ⟨budget, hcharge, ?_⟩
  cases hc : line.content with
  | none =>
    simp only [hc, pure_eq_ok] at h
    exact .inl ⟨rfl, h.symm⟩
  | some cl =>
    simp only [hc, bind_eq_ok, pure_eq_ok] at h
    obtain ⟨budget', hevent, scan, hscan, rfl⟩ := h
    exact .inr ⟨cl, budget', scan, rfl, hevent, hscan, rfl⟩

theorem visitAll_ok : ∀ (lines : List Line) {st st' : Scan × Budget}, lines.foldlM (visitLine E) st = .ok st' →
    Numbered st.1.lines → st'.1.lines = st.1.lines ++ (lines.filterMap Line.content).map ChainLine.read ∧ Numbered st'.1.lines
  | [], st, st', h, hn => by
    rw [List.foldlM_nil, pure_eq_ok] at h
    rw [← h]
    exact ⟨by simp, hn⟩
  | line :: lines, st, st', h, hn => by
    rw [List.foldlM_cons, bind_eq_ok] at h
    obtain ⟨_, hstep, hrest⟩ := h
    obtain ⟨_, -, hcase⟩ := visitLine_ok hstep
    rcases hcase with ⟨hc, rfl⟩ | ⟨_, _, scan, hc, -, hscan, rfl⟩
    · have hrest' := visitAll_ok lines hrest hn
      rw [List.filterMap_cons_none hc]
      exact hrest'
    · obtain ⟨hlines, hseq⟩ := verifyLine_ok hscan
      have hn' : Numbered scan.lines := by
        rw [hlines]
        exact hn.concat hseq
      obtain ⟨hl, hn''⟩ := visitAll_ok lines hrest hn'
      refine ⟨?_, hn''⟩
      rw [List.filterMap_cons_some hc, hl, hlines, List.map_cons, List.append_assoc, List.singleton_append]

variable {s : Store} {run : String}

theorem readChain_ok {budget budget' : Budget}
    (h : readChain E s run budget = .ok (lines, budget')) : Reads s run lines := by
  unfold readChain at h
  cases hfile : s[run]? with
  | none => simp [hfile] at h
  | some file =>
    simp only [hfile, bind_eq_ok, refuseIf_eq_ok, pure_eq_ok] at h
    obtain ⟨_, -, ⟨_, b⟩, hscan, _, -, _, -, heq⟩ := h
    cases heq
    obtain ⟨hlines, hn⟩ := visitAll_ok file.lines hscan (by intro i l hi; simp at hi)
    refine ⟨file, hfile, ?_, hn⟩
    rw [hlines]
    rfl

theorem Reads.unique {lines' : List ReadLine} (h : Reads s run lines) (h' : Reads s run lines') : lines = lines' := by
  obtain ⟨_, hfile, rfl, -⟩ := h
  obtain ⟨_, hfile', rfl, -⟩ := h'
  rw [Option.some.inj (hfile.symm.trans hfile')]

/-! ## Reads under a smaller budget -/

/-- No more spent, and no run expanded but those named and those expanded there. -/
structure Budget.Within (extra : List String) (b' b : Budget) : Prop where
  bytes : b'.bytes ≤ b.bytes
  physicalLines : b'.physicalLines ≤ b.physicalLines
  events : b'.events ≤ b.events
  expandedRuns : b'.expandedRuns ⊆ extra ++ b.expandedRuns

variable {b b' b1 : Budget}

theorem chargeBytes_within {n : Nat} (hw : b'.Within extra b) (h : chargeBytes b n = .ok b1) :
    ∃ b1', chargeBytes b' n = .ok b1' ∧ b1'.Within extra b1 := by
  simp only [chargeBytes, bind_eq_ok, refuseIf_eq_ok, pure_eq_ok] at h ⊢
  obtain ⟨_, _, rfl⟩ := h
  have hb := hw.bytes
  exact ⟨_, ⟨(), by omega, rfl⟩, by simp only; omega, hw.physicalLines, hw.events, hw.expandedRuns⟩

theorem chargeLine_within (hw : b'.Within extra b) (h : chargeLine b line = .ok b1) :
    ∃ b1', chargeLine b' line = .ok b1' ∧ b1'.Within extra b1 := by
  simp only [chargeLine, bind_eq_ok, refuseIf_eq_ok, pure_eq_ok] at h ⊢
  obtain ⟨_, hsize, _, hbytes, _, _, rfl⟩ := h
  obtain ⟨b2', hbytes', hw'⟩ := chargeBytes_within hw hbytes
  have hl := hw'.physicalLines
  exact ⟨_, ⟨(), hsize, b2', hbytes', (), by omega, rfl⟩, hw'.bytes, by simp only; omega, hw'.events, hw'.expandedRuns⟩

theorem chargeEvent_within (hw : b'.Within extra b) (h : chargeEvent b = .ok b1) :
    ∃ b1', chargeEvent b' = .ok b1' ∧ b1'.Within extra b1 := by
  simp only [chargeEvent, bind_eq_ok, refuseIf_eq_ok, pure_eq_ok] at h ⊢
  obtain ⟨_, _, rfl⟩ := h
  have he := hw.events
  exact ⟨_, ⟨(), by omega, rfl⟩, hw.bytes, hw.physicalLines, by simp only; omega, hw.expandedRuns⟩

theorem visitLine_within {scan scan1 : Scan} (hw : b'.Within extra b) (h : visitLine E (scan, b) line = .ok (scan1, b1)) :
    ∃ b1', visitLine E (scan, b') line = .ok (scan1, b1') ∧ b1'.Within extra b1 := by
  obtain ⟨_, hcharge, hcase⟩ := visitLine_ok h
  obtain ⟨b2', hcharge', hw'⟩ := chargeLine_within hw hcharge
  rcases hcase with ⟨hc, heq⟩ | ⟨cl, _, _, hc, hevent, hscan, heq⟩
  · cases heq
    refine ⟨b2', ?_, hw'⟩
    simp only [visitLine, hc, hcharge', ok_bind]
    rfl
  · cases heq
    obtain ⟨b3', hevent', hw''⟩ := chargeEvent_within hw' hevent
    refine ⟨b3', ?_, hw''⟩
    have hscan' : verifyLine E scan cl = .ok scan1 := hscan
    simp only [visitLine, hc, hcharge', hevent', hscan', ok_bind]
    rfl

theorem visitAll_within : ∀ (lines : List Line) {scan scan1 : Scan} {b b' b1 : Budget}, b'.Within extra b →
    lines.foldlM (visitLine E) (scan, b) = .ok (scan1, b1) →
    ∃ b1', lines.foldlM (visitLine E) (scan, b') = .ok (scan1, b1') ∧ b1'.Within extra b1
  | [], scan, scan1, b, b', b1, hw, h => by
    cases h
    exact ⟨b', rfl, hw⟩
  | line :: lines, scan, scan1, b, b', b1, hw, h => by
    rw [List.foldlM_cons, bind_eq_ok] at h
    obtain ⟨⟨_, _⟩, hstep, hrest⟩ := h
    obtain ⟨_, hstep', hw'⟩ := visitLine_within hw hstep
    obtain ⟨b1', hrest', hw''⟩ := visitAll_within lines hw' hrest
    refine ⟨b1', ?_, hw''⟩
    rw [List.foldlM_cons, hstep']
    exact hrest'

theorem readChain_within (hw : b'.Within extra b)
    (h : readChain E s run b = .ok (lines, b1)) : ∃ b1', readChain E s run b' = .ok (lines, b1') ∧ b1'.Within extra b1 := by
  unfold readChain at h ⊢
  cases hfile : s[run]? with
  | none => simp [hfile] at h
  | some file =>
    simp only [hfile, bind_eq_ok, refuseIf_eq_ok, pure_eq_ok] at h ⊢
    obtain ⟨_, _, ⟨scan, _⟩, hscan, _, hlast, _, htorn, heq⟩ := h
    cases heq
    obtain ⟨b2', hscan', hw'⟩ := visitAll_within file.lines hw hscan
    obtain ⟨b3', htorn', hw''⟩ := chargeBytes_within hw' htorn
    have hb := hw.bytes
    exact ⟨b3', ⟨(), by omega, (scan, b2'), hscan', (), hlast, b3', htorn', rfl⟩, hw''⟩

end Iteron.Session
