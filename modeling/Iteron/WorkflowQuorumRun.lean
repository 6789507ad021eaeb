import Iteron.History
import Iteron.WorkflowAgentRun
import Iteron.WorkflowQuorum
/-!
# WorkflowQuorumRun — when a quorum may stop its siblings

A group cancels its token only on the evidence of members that were answered, and with a strong veto only when no member
was answered with null before.  Five ways to answer a call do not tell its group.
-/
namespace Iteron.WorkflowQuorum

open History (Last Each last_head each_nil)
open WorkflowJournal (Record Cache)
open WorkflowAgent (RawCall Env Envelope envelopeFor nullRecord visibleRecord)

/-! ## What a group's token says -/

namespace Event

def isBegan (group : Nat) : Event → Bool
  | .began id => id = group
  | _ => false

def isEvidence (group : Nat) : Event → Bool
  | .settled id _ null => id = some group && !null
  | _ => false

def isNull (group : Nat) : Event → Bool
  | .settled id _ null => id = some group && null
  | _ => false

def evidenceRole (group : Nat) : Event → Option String
  | .settled id role null => if id = some group ∧ null = false then some role else none
  | _ => none

end Event

def evidenceRoles (group : Nat) (period : List Event) : Finset String :=
  (period.filterMap (Event.evidenceRole group)).toFinset

/-- **A token is cancelled on enough evidence and against no veto.** -/
def Justified (policy : EarlyStopQuorumPolicy) (log : List Event) : Prop :=
  Each (fun e before => ∀ group, e = .reached group →
    ∃ period earlier, Last (Event.isBegan group) before period (.began group) earlier ∧
      policy.minimumEvidence ≤ period.countP (Event.isEvidence group) ∧
      policy.requiredRoles ≤ (evidenceRoles group period).card ∧ ∀ x ∈ period, x.isNull group = false) log

/-- The member a move answers with null and without telling its group. -/
def unreported (move : Move) (phase : Phase) : Option RawCall :=
  match move, phase with
  | .beginTask _ .failed, .missed raw _ => some raw
  | .journal _ true, .journaling raw settlement =>
    if settlement.finishes = false ∧ settlement.report = none then raw else none
  | .journal _ false, .journaling raw settlement => if settlement.reportsFailure then none else raw
  | .finish _ true, .finishing raw settlement => if settlement.report = none then raw else none
  | .finish _ false, .finishing raw settlement => if settlement.reportsFailure then none else raw
  | _, _ => none

def Quiet (w : World) (raw : Option RawCall) : Prop :=
  ∀ (member : RawCall) (id : Nat) (g : Group), raw = some member → groupOf member = some id → w.groups[id]? = some g →
    g.quorumReached = true

/-- No member of a group that still waits for its quorum is answered with null behind its back. -/
def Reports (w : World) (move : Move) : Prop :=
  ∀ (n : Nat) (call : Call), move.target = some n → w.calls[n]? = some call → Quiet w (unreported move call.phase)

/-! ## The invariant -/

def Told (log : List Event) (id : Nat) (g : Group) : Prop :=
  ∃ period earlier, Last (Event.isBegan id) log period (.began id) earlier ∧ (g.quorumReached = false →
      g.evidence = period.countP (Event.isEvidence id) ∧ g.roles = evidenceRoles id period ∧
        (g.vetoed = false → ∀ x ∈ period, x.isNull id = false))

def Faithful (settlement : Settlement) : Prop :=
  (∀ evidence, settlement.report = some evidence → evidence = !settlement.envelope.isNull) ∧
    (settlement.reportsFailure = true → settlement.report = some false)

def FaithfulPhase : Phase → Prop
  | .journaling _ settlement => Faithful settlement
  | .finishing _ settlement => Faithful settlement
  | _ => True

structure Sound (policy : EarlyStopQuorumPolicy) (w : World) : Prop where
  justified : Justified policy w.log
  told : ∀ (id : Nat) (g : Group), w.groups[id]? = some g → Told w.log id g
  faithful : ∀ (n : Nat) (call : Call), w.calls[n]? = some call → FaithfulPhase call.phase

section

variable {policy : EarlyStopQuorumPolicy} {w w' : World} {log : List Event} {id : Nat} {g : Group}

/-! ## One event more -/

def Event.Foreign (id : Nat) (e : Event) : Prop :=
  e.isBegan id = false ∧ e.isEvidence id = false ∧ e.isNull id = false ∧ e.evidenceRole id = none

theorem foreign_settled {group : Option Nat} (hgroup : group ≠ some id) (role : String) (null : Bool) :
    (Event.settled group role null).Foreign id := by
  simp [Event.Foreign, Event.isBegan, Event.isEvidence, Event.isNull, Event.evidenceRole, hgroup]

theorem foreign_reached (group : Nat) : (Event.reached group).Foreign id := ⟨rfl, rfl, rfl, rfl⟩

theorem foreign_began {group : Nat} (hgroup : group ≠ id) : (Event.began group).Foreign id := by
  simp [Event.Foreign, Event.isBegan, Event.isEvidence, Event.isNull, Event.evidenceRole, hgroup]

variable {e : Event}

theorem evidenceRoles_cons_none (he : e.evidenceRole id = none) (period : List Event) :
    evidenceRoles id (e :: period) = evidenceRoles id period := by
  rw [evidenceRoles, List.filterMap_cons_none he, evidenceRoles]

theorem Told.foreign (ht : Told log id g) (he : e.Foreign id) : Told (e :: log) id g := by
  obtain ⟨period, earlier, hlast, hcounts⟩ := ht
  obtain ⟨hbegan, hevidence, hnull, hrole⟩ := he
  refine ⟨e :: period, earlier, hlast.cons hbegan, fun hwaiting => ?_⟩
  obtain ⟨hcount, hroles, hveto⟩ := hcounts hwaiting
  refine ⟨?_, ?_, ?_⟩
  · rw [List.countP_cons_of_neg (by rw [hevidence]; decide), hcount]
  · rw [evidenceRoles_cons_none hrole, hroles]
  · intro hfree x hx
    rcases List.mem_cons.1 hx with rfl | hx
    · exact hnull
    · exact hveto hfree x hx

theorem Told.reached (ht : Told log id g) (he : e.isBegan id = false) (hg : g.quorumReached = true) : Told (e :: log) id g := by
  obtain ⟨period, earlier, hlast, -⟩ := ht
  refine ⟨e :: period, earlier, hlast.cons he, fun hwaiting => ?_⟩
  rw [hg] at hwaiting
  cases hwaiting

theorem Justified.cons {e : Event} (hj : Justified policy log) (he : ∀ group, e ≠ .reached group) :
    Justified policy (e :: log) := by
  refine Each.cons hj ?_
  intro group hgroup
  exact (he group hgroup).elim

/-! ## Telling a group -/

/-- The group is told, and where it reaches its quorum by it the period has the evidence. -/
def Observed (policy : EarlyStopQuorumPolicy) (log : List Event) (id : Nat) (g : Group) (role : String) (null : Bool) : Prop :=
    Told (.settled (some id) role null :: log) id (g.observe policy role (!null)).1 ∧
      ((g.observe policy role (!null)).2 = true → ∃ period earlier,
        Last (Event.isBegan id) (.settled (some id) role null :: log) period (.began id) earlier ∧
          policy.minimumEvidence ≤ period.countP (Event.isEvidence id) ∧
          policy.requiredRoles ≤ (evidenceRoles id period).card ∧ ∀ x ∈ period, x.isNull id = false)

theorem told_observe (hveto : policy.strongVeto = true) (ht : Told log id g) (hwaiting : g.quorumReached = false)
    (role : String) (null : Bool) : Observed policy log id g role null := by
  unfold Observed
  obtain ⟨period, earlier, hlast, hcounts⟩ := ht
  obtain ⟨hcount, hroles, hfree⟩ := hcounts hwaiting
  have hlast' : Last (Event.isBegan id) (.settled (some id) role null :: log) (.settled (some id) role null :: period)
      (.began id) earlier := hlast.cons rfl
  -- the group with this member counted
  obtain ⟨g', hg', _, hcount', hroles', hfree'⟩ : ∃ g' : Group,
      g.observe policy role (!null) = (if !g'.vetoed && policy.minimumEvidence ≤ g'.evidence &&
        policy.requiredRoles ≤ g'.roles.card then ({ g' with quorumReached := true }, true) else (g', false)) ∧
      g'.quorumReached = false ∧
      g'.evidence = (Event.settled (some id) role null :: period).countP (Event.isEvidence id) ∧
      g'.roles = evidenceRoles id (Event.settled (some id) role null :: period) ∧
      (g'.vetoed = false → ∀ x ∈ Event.settled (some id) role null :: period, x.isNull id = false) := by
    cases null with
    | false =>
      refine ⟨{ g with evidence := g.evidence + 1, roles := insert role g.roles }, ?_, hwaiting, ?_, ?_, ?_⟩
      · unfold Group.observe
        rw [if_neg (by rw [hwaiting]; decide)]
        rfl
      · rw [List.countP_cons_of_pos (by simp [Event.isEvidence]), hcount]
      · have hrole : Event.evidenceRole id (.settled (some id) role false) = some role := by
          simp [Event.evidenceRole]
        rw [evidenceRoles, List.filterMap_cons_some hrole, List.toFinset_cons, hroles, evidenceRoles]
      · intro hfree' x hx
        rcases List.mem_cons.1 hx with rfl | hx
        · simp [Event.isNull]
        · exact hfree hfree' x hx
    | true =>
      refine ⟨{ g with vetoed := true }, ?_, hwaiting, ?_, ?_, ?_⟩
      · unfold Group.observe
        rw [if_neg (by rw [hwaiting]; decide), hveto]
        rfl
      · rw [List.countP_cons_of_neg (by simp [Event.isEvidence]), hcount]
      · rw [evidenceRoles_cons_none (by simp [Event.evidenceRole]), hroles]
      · intro hfree'
        cases hfree'
  rw [hg']
  split
  · rename_i hquorum
    rw [Bool.and_eq_true, Bool.and_eq_true, Bool.not_eq_true', decide_eq_true_eq, decide_eq_true_eq] at hquorum
    obtain ⟨⟨hclear, hevidence⟩, hrequired⟩ := hquorum
    refine ⟨⟨_, earlier, hlast', fun hwaiting' => by cases hwaiting'⟩, fun _ => ⟨_, earlier, hlast', ?_, ?_, hfree' hclear⟩⟩
    · rw [← hcount']
      exact hevidence
    · rw [← hroles']
      exact hrequired
  · refine ⟨⟨_, earlier, hlast', fun _ => ⟨hcount', hroles', hfree'⟩⟩, fun hreached => ?_⟩
    cases hreached

theorem told_after (hveto : policy.strongVeto = true) (ht : Told log id g) (role : String) (null : Bool) :
    Observed policy log id g role null := by
  by_cases hg : g.quorumReached = true
  · have hsame : g.observe policy role (!null) = (g, false) := by
      unfold Group.observe
      rw [if_pos hg]
    rw [Observed, hsame]
    refine ⟨ht.reached rfl hg, fun hreached => ?_⟩
    cases hreached
  · exact told_observe hveto ht (Bool.eq_false_of_not_eq_true hg) role null

theorem Sound.log_settled (hs : Sound policy w) (group : Option Nat) (role : String) (null : Bool)
    (hquiet : ∀ (id : Nat) (g : Group), group = some id → w.groups[id]? = some g → g.quorumReached = true) :
    Sound policy { w with log := .settled group role null :: w.log } := by
  refine ⟨hs.justified.cons (fun _ he => by cases he), ?_, hs.faithful⟩
  intro id g hg
  by_cases hgroup : group = some id
  · exact (hs.told id g hg).reached rfl (hquiet id g hgroup hg)
  · exact (hs.told id g hg).foreign (foreign_settled hgroup role null)

theorem Sound.tell (hveto : policy.strongVeto = true) (hs : Sound policy w) (group : Option Nat) (role : String) (null : Bool) :
    Sound policy ({ w with log := .settled group role null :: w.log }.observe policy group role (!null)) := by
  unfold World.observe
  split
  · refine hs.log_settled none role null (fun id g hgroup => ?_)
    cases hgroup
  · rename_i id
    dsimp only
    split
    · rename_i hnone
      refine hs.log_settled (some id) role null (fun id' g hgroup hg => ?_)
      cases hgroup
      rw [hnone] at hg
      cases hg
    · rename_i g hg
      have hothers : ∀ (id' : Nat) (g' : Group), id' ≠ id → w.groups[id']? = some g' →
          Told (.settled (some id) role null :: w.log) id' g' := fun id' g' hne hg' =>
        (hs.told id' g' hg').foreign (foreign_settled (fun h => hne (Option.some.inj h).symm) role null)
      have hjustified : Justified policy (.settled (some id) role null :: w.log) :=
        hs.justified.cons (fun _ he => by cases he)
      obtain ⟨htold, hquorum⟩ := told_after hveto (hs.told id g hg) role null
      have htolds : ∀ (id' : Nat) (g' : Group), (w.groups.insert id (g.observe policy role (!null)).1)[id']? = some g' →
            Told (.settled (some id) role null :: w.log) id' g' := by
        intro id' g' hg'
        rw [Std.ExtTreeMap.getElem?_insert] at hg'
        split at hg'
        · rename_i heq
          obtain rfl := compare_eq_iff_eq.1 heq
          cases hg'
          exact htold
        · rename_i hne
          exact hothers id' g' (fun h => hne (compare_eq_iff_eq.2 h.symm)) hg'
      split
      · rename_i hreached
        refine ⟨Each.cons hjustified ?_, ?_, hs.faithful⟩
        · intro group hgroup
          obtain rfl := Event.reached.inj hgroup
          exact hquorum hreached
        · intro id' g' hg'
          exact (htolds id' g' hg').foreign (foreign_reached id)
      · exact ⟨hjustified, htolds, hs.faithful⟩

/-! ## A step of a call -/

theorem Sound.setPhase {n : Nat} {call : Call} {phase : Phase} (hs : Sound policy w) (hphase : FaithfulPhase phase) :
    Sound policy (w.setPhase n call phase) := by
  refine ⟨hs.justified, hs.told, ?_⟩
  intro n' call' hcall
  rw [World.setPhase, Std.ExtTreeMap.getElem?_insert] at hcall
  split at hcall
  · cases hcall
    exact hphase
  · exact hs.faithful n' call' hcall

theorem Sound.outside (hs : Sound policy w) (hlog : w'.log = w.log) (hgroups : w'.groups = w.groups)
    (hcalls : w'.calls = w.calls) : Sound policy w' :=
  ⟨hlog ▸ hs.justified, hlog ▸ hgroups ▸ hs.told, hcalls ▸ hs.faithful⟩

variable {raw : Option RawCall} {envelope : Envelope}

theorem Sound.settle {n : Nat} {call : Call} {report : Option Bool} (hveto : policy.strongVeto = true)
    (hs : Sound policy w) (hreport : ∀ evidence, report = some evidence → evidence = !envelope.isNull)
    (hquiet : report = none → Quiet w raw) : Sound policy (w.settle policy n call raw envelope report) := by
  have hs' : Sound policy (w.setPhase n call (.answered raw envelope)) := hs.setPhase trivial
  cases raw with
  | none => exact hs'
  | some raw =>
    cases report with
    | none => exact hs'.log_settled _ _ _ (fun id g hgroup hg => hquiet rfl raw id g rfl hgroup hg)
    | some evidence =>
      obtain rfl := hreport evidence rfl
      exact hs'.tell hveto _ _ _

variable {n : Nat} {call : Call} {settlement : Settlement}

theorem Sound.fail {reason : String} (hveto : policy.strongVeto = true) (hs : Sound policy w)
    (hfaithful : Faithful settlement) (hquiet : settlement.reportsFailure = false → Quiet w raw) :
    Sound policy (w.fail policy n call raw settlement reason) := by
  have hs' : Sound policy { w with cancelled := true } := hs.outside rfl rfl rfl
  unfold World.fail
  cases hfailure : settlement.reportsFailure with
  | true =>
    refine hs'.settle hveto ?_ ?_
    · intro evidence hevidence
      rw [if_pos rfl, hfaithful.2 hfailure] at hevidence
      exact (Option.some.inj hevidence).symm
    · intro hnone
      rw [if_pos rfl, hfaithful.2 hfailure] at hnone
      cases hnone
  | false =>
    refine hs'.settle hveto ?_ ?_
    · intro evidence hevidence
      cases hevidence
    · intro _ member id g hraw hgroup hg
      exact hquiet hfailure member id g hraw hgroup hg

theorem isEvidence_eq (record : Record) : isEvidence record = !(envelopeFor record).isNull := by
  unfold isEvidence envelopeFor
  cases record.outcome <;> rfl

variable {E : Env}

theorem Sound.lookup (hveto : policy.strongVeto = true) (hs : Sound policy w) :
    Sound policy (w.lookup E policy n call) := by
  unfold World.lookup
  split
  · exact hs.setPhase trivial
  · split
    · exact hs.setPhase trivial
    · refine hs.settle hveto ?_ ?_
      · intro evidence hevidence
        rw [← Option.some.inj hevidence, isEvidence_eq]
      · intro hnone
        cases hnone

variable {key : String}

theorem faithful_unreported {record : Option Record} {finishes : Bool} :
    Faithful { key := key, record := record, finishes := finishes, envelope := envelope, report := none } :=
  ⟨fun _ h => (Option.some_ne_none _ h.symm).elim, fun h => (Bool.false_ne_true h).elim⟩

theorem Sound.check {raw : RawCall} (hs : Sound policy w) : Sound policy (w.check E n call raw key) := by
  unfold World.check
  split
  · exact hs.setPhase faithful_unreported
  · split
    · exact hs.setPhase faithful_unreported
    · split
      · refine hs.setPhase ⟨?_, fun _ => rfl⟩
        intro evidence hevidence
        exact (Option.some.inj hevidence).symm
      · exact hs.setPhase trivial

theorem Sound.recordOutcome (hs : Sound policy w) (hfaithful : Faithful settlement) :
    Sound policy (w.recordOutcome n call raw settlement) := by
  unfold World.recordOutcome
  split
  · exact hs.setPhase hfaithful
  · rename_i record _
    have hs' : Sound policy { w with journal := w.journal.insert settlement.key record } := hs.outside rfl rfl rfl
    exact hs'.setPhase hfaithful

variable {move : Move}

theorem Sound.advance {P : LivePolicy} (hveto : policy.strongVeto = true) (hs : Sound policy w)
    (hfaithful : FaithfulPhase call.phase) (hquiet : Quiet w (unreported move call.phase))
    (h : w.advance E P policy n call move = some w') : Sound policy w' := by
  unfold World.advance at h
  split at h
  · cases h
    exact hs.lookup hveto
  · cases h
    exact hs.setPhase faithful_unreported
  · cases h
    have hs' : Sound policy { w with cancelled := true } := hs.outside rfl rfl rfl
    refine hs'.settle hveto (fun _ hevidence => by cases hevidence) ?_
    intro _ member id g hraw
    cases hraw
  · cases h
    exact hs.setPhase trivial
  · cases h
    exact hs.setPhase faithful_unreported
  · rename_i raw key hphase
    cases h
    have hs' : Sound policy { w with cancelled := true } := hs.outside rfl rfl rfl
    refine hs'.settle hveto (fun _ hevidence => by cases hevidence) ?_
    intro _ member id g hraw
    rw [hphase] at hquiet
    exact hquiet member id g hraw
  · cases h
    exact hs.check
  · split at h
    · cases h
      exact hs.setPhase faithful_unreported
    · cases h
  · split at h
    · cases h
    · cases h
      exact hs.setPhase trivial
  · cases h
    refine hs.setPhase ⟨?_, fun hfailure => (Bool.false_ne_true hfailure).elim⟩
    intro evidence hevidence
    rw [← Option.some.inj hevidence, isEvidence_eq]
  · rename_i accepted raw settlement hphase
    rw [hphase] at hfaithful hquiet
    split at h
    · rename_i haccepted
      split at h
      · cases h
        exact hs.recordOutcome hfaithful
      · rename_i hfinishes
        split at h
        · cases h
        · rename_i record _
          cases h
          have hs' : Sound policy { w with journal := w.journal.insert settlement.key record } :=
            hs.outside rfl rfl rfl
          refine hs'.settle hveto hfaithful.1 ?_
          intro hnone member id g hraw
          refine hquiet member id g ?_
          rw [haccepted, unreported, if_pos ⟨Bool.eq_false_of_not_eq_true hfinishes, hnone⟩]
          exact hraw
    · rename_i hrefused
      cases h
      refine hs.fail hveto hfaithful ?_
      intro hfailure member id g hraw
      refine hquiet member id g ?_
      rw [Bool.eq_false_of_not_eq_true hrefused, unreported, if_neg (by rw [hfailure]; decide)]
      exact hraw
  · rename_i accepted raw settlement hphase
    rw [hphase] at hfaithful hquiet
    split at h
    · rename_i haccepted
      cases h
      refine hs.settle hveto hfaithful.1 ?_
      intro hnone member id g hraw
      refine hquiet member id g ?_
      rw [haccepted, unreported, if_pos hnone]
      exact hraw
    · rename_i hrefused
      cases h
      refine hs.fail hveto hfaithful ?_
      intro hfailure member id g hraw
      refine hquiet member id g ?_
      rw [Bool.eq_false_of_not_eq_true hrefused, unreported, if_neg (by rw [hfailure]; decide)]
      exact hraw
  · cases h

/-! ## Whole runs -/

theorem Sound.step {P : LivePolicy} (hveto : policy.strongVeto = true) (hs : Sound policy w)
    (hreports : Reports w move) (h : w.step E P policy move = some w') : Sound policy w' := by
  unfold World.step at h
  split at h
  · cases h
    have hs' : Sound policy { w with index := w.index + 1 } := hs.outside rfl rfl rfl
    exact @Sound.setPhase _ _ (w.index + 1) { arg := _, phase := .called } .called hs' trivial
  · cases h
    exact hs.outside rfl rfl rfl
  · split at h
    · cases h
      exact hs
    · cases h
      refine ⟨hs.justified.cons (fun _ he => by cases he), ?_, hs.faithful⟩
      intro id g hg
      rw [Std.ExtTreeMap.getElem?_insert] at hg
      split at hg
      · rename_i heq
        obtain rfl := compare_eq_iff_eq.1 heq
        cases hg
        exact ⟨[], w.log, last_head _ _ _, fun _ => ⟨rfl, rfl, fun _ x hx => by cases hx⟩⟩
      · rename_i hne
        exact (hs.told id g hg).foreign (foreign_began (fun h => hne (compare_eq_iff_eq.2 h)))
  · cases h
    refine ⟨hs.justified, ?_, hs.faithful⟩
    intro id g hg
    rw [Std.ExtTreeMap.getElem?_erase] at hg
    split at hg
    · cases hg
    · exact hs.told id g hg
  · split at h
    · cases h
    · rename_i n htarget
      split at h
      · cases h
      · rename_i call hcall
        exact hs.advance hveto (hs.faithful n call hcall) (hreports n call htarget hcall) h

end

/-! ## A group of two -/

section

variable (E : Env) (P : LivePolicy) (policy : EarlyStopQuorumPolicy)

def runTested (test : World → Move → Bool) (w : World) (moves : List Move) : Option World :=
  moves.foldlM (fun w move => if test w move then w.step E P policy move else none) w

theorem reached_runTested {journal : Cache} {meets : World → Move → Prop} {test : World → Move → Bool}
    (htest : ∀ w move, test w move = true → meets w move) :
    ∀ (moves : List Move) {w w' : World}, Reached E P policy journal meets w →
      runTested E P policy test w moves = some w' → Reached E P policy journal meets w'
  | [], w, w', hw, hrun => by
    cases hrun
    exact hw
  | move :: moves, w, w', hw, hrun => by
    obtain ⟨w1, hstep, hrest⟩ := Option.bind_eq_some_iff.1 hrun
    dsimp only at hstep
    split at hstep
    · rename_i hpass
      exact reached_runTested htest moves (.step w w1 move hw (htest w move hpass) hstep) hrest
    · cases hstep

end

namespace Sample

open WorkflowAgent.Sample (env)

/-- What a member of the first `parallelQuorum` group sends. -/
def memberCall (prompt speculativeSiblings : String) : String :=
  "\x7b\"prompt\":\"" ++ prompt ++ "\",\"label\":null,\"phase\":null,\"model\":null,\"effort\":null," ++
    "\"agentType\":null,\"speculativeSiblings\":" ++ speculativeSiblings ++
    ",\"dependsOn\":null,\"quorumGroup\":1,\"schema\":null\x7d"

def decode (text : String) : Option RawCall :=
  if text = memberCall "A" "1" then some { prompt := "A", speculativeSiblings := some 1, quorumGroup := some 1 }
  else if text = memberCall "B" "null" then some { prompt := "B", quorumGroup := some 1 }
  else if text = memberCall "C" "null" then some { prompt := "C", quorumGroup := some 1 }
  else none

def agentKey (raw : RawCall) : String :=
  if raw.prompt = "A" then "v2:875f8a00074cf833dc39a374e64d321abc4f23aa87608fbb8a5afcf3533ccf41"
  else if raw.prompt = "B" then "v2:9bb4adb9e5221534918391d3111d36c63ff8b8aab996554a3ffdd3516c0f2652"
  else "v2:f842911efb2effc610f2749ba7f187158097da775db1bb1d90db87ce4cd02a79"

def groupEnv : Env := { env with decode := decode, agentKey := agentKey }

def live : LivePolicy :=
  { taskAttempts := 1, stopOnFailure := false, schemaAttempts := 3, compiles := fun _ => none,
    validates := fun _ _ => none }

def oneVote : EarlyStopQuorumPolicy := ⟨1, 0, true, by decide, by decide, by decide, by decide⟩

/-- The member `n` runs and returns a text. -/
def returns (n : Nat) : List Move :=
  [.lookup n, .beginTask n .ready, .check n, .acquire n, .live n (fun _ => .selected (.text "done" 7 0 none)),
    .journal n true, .finish n true]

end Sample

end Iteron.WorkflowQuorum
