import Iteron.PromotionJournal
/-!
# PromotionLadder — what every accepted promotion journal says of its active bundle

The candidates in the active stage form a stack over the bootstrapped bundle, and each climbed every rung under its own
authorization (`active_candidates_climbed`).  One record is inverted once (`Step`), and the invariant follows a replay.
-/
namespace Iteron.Promotion

open Refuse

namespace JournalEvent

def Admits (identity : CandidateIdentity) : JournalEvent → Prop
  | .candidateAdmitted _ i _ | .checkpointCandidateAdmitted _ i _ _ => i = identity
  | _ => False

/-- The event moves the candidate with this digest one stage forward. -/
def Advances (digest : String) : JournalEvent → Prop
  | .stageTransition d _ _ _ _ => d = digest
  | _ => False

def Bootstraps (digest : String) : JournalEvent → Prop
  | .bootstrapped bundle => bundle.bundle.digest = digest
  | _ => False

end JournalEvent

/-- The request of a record is signed with the key of a party that holds the role of its operation. -/
def Authorized (A : Authority) (r : JournalRecord) : Prop :=
  ∃ anchor, A.promotionAnchors[r.content.authorizingParty]? = some anchor ∧
    r.content.request.operation.requiredRole ∈ anchor.roles ∧
    A.crypto.authorization anchor A.authorityId A.policyDigest r.content.request = .ok r.content.authorizationSignature

/-- What one applied event did, with the checks that let it. -/
inductive Step (s : AuthorityState) (request : PromotionRequest) : JournalEvent → AuthorityState → Prop
  | boot (bundle : DeploymentBundle) (hop : request.operation = .bootstrap) (hnone : s.activeBundleDigest = none)
      (hempty : s.bundles.isEmpty = true) :
    Step s request (.bootstrapped bundle)
      { s with activeBundleDigest := some bundle.bundle.digest, bundles := s.bundles.insert bundle.bundle.digest bundle }
  | admitted {event : JournalEvent} (bundle : DeploymentBundle) (identity : CandidateIdentity) (active : DeploymentBundle)
      (hevent : event.Admits identity) (hop : request.operation = .admitCandidate)
      (hdigest : request.candidateBundleDigest = identity.bundleDigest) (hbundle : bundle.bundle.digest = identity.bundleDigest)
      (hid : bundle.bundle.bundleId = identity.bundleId) (hroom : s.room identity = .ok ())
      (hactive : s.activeBundleDigest = some identity.baselineBundleDigest)
      (hbase : s.bundles[identity.baselineBundleDigest]? = some active)
      (hrollback : identity.rollbackBundleId = active.bundle.bundleId) : Step s request event (s.register bundle identity)
  | advanced (digest : String) (source target : DeploymentStage) (permit : Option StagePermit)
      (attestation : Option SignedStageObservation) (candidate : CandidateState)
      (hop : AuthorityState.expectedOperation source target = some request.operation)
      (hdigest : request.candidateBundleDigest = digest) (hcandidate : s.candidates[digest]? = some candidate)
      (hstage : candidate.stage = source) (hactive : s.activeBundleDigest = some candidate.identity.baselineBundleDigest) :
    Step s request (.stageTransition digest source target permit attestation)
      { s with candidates := s.candidates.insert digest { candidate with stage := target, permit },
               activeBundleDigest := if target = .active then some digest else s.activeBundleDigest }
  | refused (digest : String) (stage : DeploymentStage) (codes : List RefusalCode) (attestation : SignedStageObservation) :
    Step s request (.stageRefused digest stage codes attestation) s
  | rolledBack (digest : String) (source : DeploymentStage) (restoredId restoredDigest : String)
      (candidate : CandidateState) (hcandidate : s.candidates[digest]? = some candidate)
      (hstage : candidate.stage = source) (hbase : candidate.identity.baselineBundleDigest = restoredDigest)
      (hactive : s.activeBundleDigest = some (if source = .active then digest else restoredDigest)) :
    Step s request (.rolledBack digest source restoredId restoredDigest)
      { s with candidates := s.candidates.insert digest { candidate with stage := .rolledBack, permit := none },
               activeBundleDigest := some restoredDigest }

section Inversion

variable {A : Authority} {s s' : AuthorityState} {request : PromotionRequest}

theorem active_eq_ok {p : String × DeploymentBundle} (h : s.active = .ok p) :
    s.activeBundleDigest = some p.1 ∧ s.bundles[p.1]? = some p.2 := by
  unfold AuthorityState.active at h
  split at h
  · cases h
  · rename_i digest hdigest
    split at h
    · cases h
    · rename_i bundle hbundle
      cases h
      exact ⟨hdigest, hbundle⟩

theorem lookup_eq_ok {digest : String} {c : CandidateState} (h : s.lookup digest = .ok c) :
    s.candidates[digest]? = some c := by
  unfold AuthorityState.lookup at h
  split at h
  · cases h
  · rename_i hc
    cases h
    exact hc

variable {identity : CandidateIdentity} {bundle : DeploymentBundle} {u : Unit}

theorem namesBundle_eq_ok (h : AuthorityState.namesBundle request bundle identity = .ok u) :
    request.operation = .admitCandidate ∧
      request.candidateBundleDigest = identity.bundleDigest ∧ bundle.bundle.digest = identity.bundleDigest ∧
      bundle.bundle.bundleId = identity.bundleId := by
  simp only [AuthorityState.namesBundle, refuseIf_eq_ok, not_or, not_not] at h
  obtain ⟨hop, hrequest, hdigest, hid⟩ := h
  exact ⟨hop, hrequest.trans hdigest.symm, hdigest.symm, hid.symm⟩

variable {event : JournalEvent}

theorem applyCandidate_step (hevent : event.Admits identity) (h : s.applyCandidate A request bundle identity = .ok s') :
    Step s request event s' := by
  simp only [AuthorityState.applyCandidate, bind_eq_ok, refuseIf_eq_ok, pure_eq_ok, not_or, not_not] at h
  obtain ⟨_, hnames, _, _, _, hroom, p, hactive, _, _, _, ⟨hbase, hrollback, _⟩, rfl⟩ := h
  obtain ⟨hop, hdigest, hbundle, hid⟩ := namesBundle_eq_ok hnames
  obtain ⟨hactive, hget⟩ := active_eq_ok hactive
  rw [← hbase] at hactive hget
  exact .admitted bundle identity p.2 hevent hop hdigest hbundle hid hroom hactive hget hrollback

theorem applyCheckpointCandidate_step {checkpoint : PolicyCheckpoint}
    {policies : AdmissionPolicies} {attestations : List SignedCheckpointEvaluation} (hevent : event.Admits identity)
    (h : s.applyCheckpointCandidate A request checkpoint identity policies attestations = .ok s') :
    Step s request event s' := by
  simp only [AuthorityState.applyCheckpointCandidate, bind_eq_ok, refuseIf_eq_ok, pure_eq_ok, not_or, not_not] at h
  obtain ⟨_, _, bundle, _, _, hnames, _, hroom, p, hactive, _, _, _, ⟨hbase, hrollback, _⟩, _, _, rfl⟩ := h
  obtain ⟨hop, hdigest, hbundle, hid⟩ := namesBundle_eq_ok hnames
  obtain ⟨hactive, hget⟩ := active_eq_ok hactive
  rw [← hbase] at hactive hget
  exact .admitted bundle identity p.2 hevent hop hdigest hbundle hid hroom hactive hget hrollback

theorem applyEvent_step (h : s.applyEvent A request event = .ok s') : Step s request event s' := by
  cases event with
  | bootstrapped bundle =>
    simp only [AuthorityState.applyEvent, AuthorityState.applyBootstrap, bind_eq_ok, refuseIf_eq_ok, pure_eq_ok, not_or,
      not_not] at h
    obtain ⟨_, ⟨hop, _⟩, _, ⟨hnone, hempty⟩, _, _, rfl⟩ := h
    exact .boot bundle hop (by simpa using hnone) (by simpa using hempty)
  | candidateAdmitted bundle identity _ =>
    simp only [AuthorityState.applyEvent, bind_eq_ok, pure_eq_ok] at h
    obtain ⟨_, happly, _, _, rfl⟩ := h
    exact applyCandidate_step rfl happly
  | checkpointCandidateAdmitted _ identity _ _ => exact applyCheckpointCandidate_step rfl h
  | stageTransition digest source target permit attestation =>
    simp only [AuthorityState.applyEvent, AuthorityState.applyTransition, bind_eq_ok, refuseIf_eq_ok, pure_eq_ok, not_or,
      not_not] at h
    obtain ⟨_, ⟨hop, hdigest, _⟩, candidate, hlookup, _, hstage, _, hactive, _, _, rfl⟩ := h
    exact .advanced digest source target permit attestation candidate hop hdigest (lookup_eq_ok hlookup) hstage hactive
  | stageRefused digest stage codes attestation =>
    simp only [AuthorityState.applyEvent, AuthorityState.applyRefusal, bind_eq_ok, pure_eq_ok] at h
    obtain ⟨_, _, _, _, _, _, rfl⟩ := h
    exact .refused digest stage codes attestation
  | rolledBack digest source restoredId restoredDigest =>
    simp only [AuthorityState.applyEvent, AuthorityState.applyRollback, bind_eq_ok, refuseIf_eq_ok, pure_eq_ok, not_or,
      not_not] at h
    obtain ⟨_, _, candidate, hlookup, _, ⟨hstage, _, hbase⟩, _, hactive, _, _, rfl⟩ := h
    exact .rolledBack digest source restoredId restoredDigest candidate (lookup_eq_ok hlookup) hstage hbase hactive

theorem verifyAuthorization_eq_ok {r : JournalRecord} (h : verifyRecordAuthorization A r.content = .ok u) :
    Authorized A r := by
  simp only [verifyRecordAuthorization, verifyAuthorization, bind_eq_ok, refuseIf_eq_ok, not_not] at h
  obtain ⟨_, _, _, _, anchor, hparty, _, hrole, _, hsigned, hequal⟩ := h
  have hanchor : A.promotionAnchors[r.content.authorizingParty]? = some anchor := by
    unfold requireParty at hparty
    split at hparty
    · cases hparty
    · rename_i found hfound
      rw [← Except.ok.inj hparty]
      exact hfound
  exact ⟨anchor, hanchor, hrole, hequal ▸ hsigned⟩

def AuthorityState.use (s : AuthorityState) (id : String) : AuthorityState :=
  { s with usedAuthorizations := s.usedAuthorizations.insert id () }

/-- **One replayed record**: authorized, under a new authorization id, and one step of the reducer. -/
theorem replayRecord_step {r : JournalRecord} (h : replayRecord A s r = .ok s') : Authorized A r ∧
    s.usedAuthorizations[r.content.request.authorizationId]? = none ∧
    Step (s.use r.content.request.authorizationId) r.content.request r.content.event s' := by
  simp only [replayRecord, AuthorityState.apply, bind_eq_ok, refuseIf_eq_ok, Bool.not_eq_true] at h
  obtain ⟨_, hauth, _, _, _, _, _, hunused, happly⟩ := h
  exact ⟨verifyAuthorization_eq_ok hauth, (Table.contains_eq_false _ _).1 hunused, applyEvent_step happly⟩

end Inversion

section Climb

def rungs : DeploymentStage → List PromotionOperation
  | .candidate => [.admitCandidate]
  | .shadow => [.admitCandidate, .enterShadow]
  | .canary => [.admitCandidate, .enterShadow, .completeShadow]
  | .active => [.admitCandidate, .enterShadow, .completeShadow, .completeCanary]
  | _ => []

/-- A record whose request names the candidate and whose event admits it or moves it on. -/
def Rung (identity : CandidateIdentity) (r : JournalRecord) (op : PromotionOperation) : Prop :=
  r.content.request.operation = op ∧ r.content.request.candidateBundleDigest = identity.bundleDigest ∧
    if op = .admitCandidate then r.content.event.Admits identity else r.content.event.Advances identity.bundleDigest

/-- The rungs of a stage, in this order among the records. -/
def Climbed (records : List JournalRecord) (identity : CandidateIdentity) (stage : DeploymentStage) : Prop :=
  ∃ l : List JournalRecord, l.Sublist records ∧ List.Forall₂ (Rung identity) l (rungs stage)

theorem Climbed.append {records : List JournalRecord} {identity : CandidateIdentity} {stage : DeploymentStage}
    (h : Climbed records identity stage) (r : JournalRecord) : Climbed (records ++ [r]) identity stage := by
  obtain ⟨l, hl, hrungs⟩ := h
  exact ⟨l, hl.trans (List.sublist_append_left _ _), hrungs⟩

theorem rungs_expectedOperation {source target : DeploymentStage} {op : PromotionOperation}
    (h : AuthorityState.expectedOperation source target = some op) :
    rungs target = rungs source ++ [op] ∧ op ≠ .admitCandidate := by
  cases source <;> cases target <;> simp [AuthorityState.expectedOperation] at h <;> subst h <;> simp [rungs]

theorem Climbed.step {records : List JournalRecord} {identity : CandidateIdentity} {source target : DeploymentStage}
    {r : JournalRecord} (h : Climbed records identity source)
    (hop : AuthorityState.expectedOperation source target = some r.content.request.operation)
    (hdigest : r.content.request.candidateBundleDigest = identity.bundleDigest)
    (hevent : r.content.event.Advances identity.bundleDigest) : Climbed (records ++ [r]) identity target := by
  obtain ⟨l, hl, hrungs⟩ := h
  obtain ⟨heq, hne⟩ := rungs_expectedOperation hop
  refine ⟨l ++ [r], hl.append (List.Sublist.refl _), ?_⟩
  rw [heq]
  refine List.rel_append hrungs (List.Forall₂.cons ⟨rfl, hdigest, ?_⟩ List.Forall₂.nil)
  rw [if_neg hne]
  exact hevent

end Climb

/-- The active candidates from the top down, each admitted over the one below it. -/
def Links (s : AuthorityState) (root : String) : List String → Prop
  | [] => True
  | digest :: rest => (∃ c, s.candidates[digest]? = some c ∧ c.stage = .active ∧
      c.identity.baselineBundleDigest = rest.headD root) ∧ Links s root rest

variable {root : String}

theorem Links.congr {s s' : AuthorityState} : ∀ {stack : List String}, Links s root stack →
    (∀ d ∈ stack, s'.candidates[d]? = s.candidates[d]?) → Links s' root stack
  | [], _, _ => trivial
  | d :: rest, h, heq => by
    obtain ⟨⟨c, hc, hstage, hbase⟩, hrest⟩ := h
    refine ⟨⟨c, ?_, hstage, hbase⟩, hrest.congr (fun d' hd' => heq d' (.tail _ hd'))⟩
    rw [heq d List.mem_cons_self]
    exact hc

theorem Links.stage {s : AuthorityState} : ∀ {stack : List String}, Links s root stack →
    ∀ d ∈ stack, ∃ c, s.candidates[d]? = some c ∧ c.stage = .active
  | [], _, d, hd => by cases hd
  | top :: rest, h, d, hd => by
    obtain ⟨⟨c, hc, hstage, _⟩, hrest⟩ := h
    rcases List.mem_cons.1 hd with rfl | hd
    · exact ⟨c, hc, hstage⟩
    · exact hrest.stage d hd

/-- The active bundle is the top of the stack of active candidates over the bootstrapped bundle. -/
structure Stack (records : List JournalRecord) (s : AuthorityState) (root : String) (stack : List String) : Prop where
  boot : ∃ r ∈ records, r.content.request.operation = .bootstrap ∧ r.content.event.Bootstraps root
  stored : s.bundles.contains root = true
  notCandidate : s.candidates[root]? = none
  active : s.activeBundleDigest = some (stack.headD root)
  links : Links s root stack
  complete : ∀ (d : String) (c : CandidateState), s.candidates[d]? = some c → c.stage = .active → d ∈ stack
  distinct : stack.Nodup

section Stack

variable {records : List JournalRecord} {s : AuthorityState} {root : String} {stack : List String}

theorem Stack.not_mem (h : Stack records s root stack) {d : String} (hd : ∀ c, s.candidates[d]? = some c → c.stage ≠ .active) :
    d ∉ stack := by
  intro hin
  obtain ⟨c, hc, hstage⟩ := h.links.stage d hin
  exact hd c hc hstage

variable {digest : String} {c : CandidateState}

section

variable (h : Stack records s root stack) (r : JournalRecord)
include h r

theorem Stack.set
    (hroot : digest ≠ root) (hold : ∀ c, s.candidates[digest]? = some c → c.stage ≠ .active) (hnew : c.stage ≠ .active) :
    Stack (records ++ [r]) { s with candidates := s.candidates.insert digest c } root stack where
  boot := by
    obtain ⟨r', hr', hboot⟩ := h.boot
    exact ⟨r', List.mem_append_left _ hr', hboot⟩
  stored := h.stored
  notCandidate := by
    rw [Table.get_insert, if_neg hroot]
    exact h.notCandidate
  active := h.active
  links := h.links.congr (fun d hd => by
    rw [Table.get_insert, if_neg]
    rintro rfl
    exact h.not_mem hold hd)
  complete := fun d c' hget hstage => by
    rcases Table.insert_eq_some hget with ⟨_, rfl⟩ | ⟨_, hget⟩
    · cases hnew hstage
    · exact h.complete d c' hget hstage
  distinct := h.distinct

variable {c' : CandidateState}

theorem Stack.push (hget : s.candidates[digest]? = some c) (hold : c.stage ≠ .active) (hnew : c'.stage = .active)
    (hbase : s.activeBundleDigest = some c'.identity.baselineBundleDigest) :
    Stack (records ++ [r]) { s with candidates := s.candidates.insert digest c', activeBundleDigest := some digest } root
      (digest :: stack) := by
  have hnew' : digest ∉ stack := h.not_mem (fun c1 hc1 => by
    rw [hget] at hc1
    rw [← Option.some.inj hc1]
    exact hold)
  have hroot : digest ≠ root := by
    rintro rfl
    rw [h.notCandidate] at hget
    cases hget
  refine ⟨?_, h.stored, ?_, rfl, ⟨⟨c', ?_, hnew, ?_⟩, ?_⟩, fun d c1 hd hstage => ?_, List.nodup_cons.2 ⟨hnew', h.distinct⟩⟩
  · obtain ⟨r', hr', hboot⟩ := h.boot
    exact ⟨r', List.mem_append_left _ hr', hboot⟩
  · rw [Table.get_insert, if_neg hroot]
    exact h.notCandidate
  · rw [Table.get_insert, if_pos rfl]
  · rw [h.active] at hbase
    exact (Option.some.inj hbase).symm
  · refine h.links.congr (fun d hd => ?_)
    rw [Table.get_insert, if_neg]
    rintro rfl
    exact hnew' hd
  · rcases Table.insert_eq_some hd with ⟨rfl, _⟩ | ⟨_, hd⟩
    · exact .head _
    · exact .tail _ (h.complete d c1 hd hstage)

theorem Stack.pop (hget : s.candidates[digest]? = some c) (hactive : s.activeBundleDigest = some digest)
    (hnew : c'.stage ≠ .active) : ∃ rest, stack = digest :: rest ∧ c.identity.baselineBundleDigest = rest.headD root ∧
      Stack (records ++ [r]) { s with candidates := s.candidates.insert digest c',
                                      activeBundleDigest := some c.identity.baselineBundleDigest } root rest := by
  have htop : stack.headD root = digest := by
    rw [h.active] at hactive
    exact Option.some.inj hactive
  cases stack with
  | nil =>
    obtain rfl : root = digest := htop
    rw [h.notCandidate] at hget
    cases hget
  | cons top rest =>
    obtain rfl : top = digest := htop
    obtain ⟨⟨c1, hc1, _, hbase⟩, hrest⟩ := h.links
    cases hget.symm.trans hc1
    obtain ⟨hnotin, hnodup⟩ := List.nodup_cons.1 h.distinct
    have hroot : top ≠ root := by
      rintro rfl
      rw [h.notCandidate] at hget
      cases hget
    refine ⟨rest, rfl, hbase, ?_, h.stored, ?_, congrArg some hbase, ?_, fun d c1 hd hstage => ?_, hnodup⟩
    · obtain ⟨r', hr', hboot⟩ := h.boot
      exact ⟨r', List.mem_append_left _ hr', hboot⟩
    · rw [Table.get_insert, if_neg hroot]
      exact h.notCandidate
    · refine hrest.congr (fun d hd => ?_)
      rw [Table.get_insert, if_neg]
      rintro rfl
      exact hnotin hd
    · rcases Table.insert_eq_some hd with ⟨_, rfl⟩ | ⟨hne, hd⟩
      · cases hnew hstage
      · exact (List.mem_cons.1 (h.complete d c1 hd hstage)).resolve_left (Ne.symm hne)

end

end Stack

def authorizationIds (records : List JournalRecord) : List String :=
  records.map (fun r => r.content.request.authorizationId)

/-- What a replayed journal guarantees of its records and of the state. -/
structure Ladder (A : Authority) (records : List JournalRecord) (s : AuthorityState) : Prop where
  used : ∀ id : String, s.usedAuthorizations[id]? = none ↔ id ∉ authorizationIds records
  distinct : (authorizationIds records).Nodup
  authorized : ∀ r ∈ records, Authorized A r
  climbed : ∀ (d : String) (c : CandidateState), s.candidates[d]? = some c →
    c.identity.bundleDigest = d ∧ Climbed records c.identity c.stage
  shape : (s.activeBundleDigest = none ∧ ∀ d : String, s.candidates[d]? = none) ∨ ∃ root stack, Stack records s root stack

section Ladder

variable {A : Authority} {records : List JournalRecord} {s s' : AuthorityState} {r : JournalRecord}

theorem Ladder.start : Ladder A [] .start where
  used := by simp [AuthorityState.start, authorizationIds]
  distinct := List.nodup_nil
  authorized := fun r hr => by cases hr
  climbed := fun d c hc => by simp [AuthorityState.start] at hc
  shape := .inl ⟨rfl, by simp [AuthorityState.start]⟩

theorem Step.used {request : PromotionRequest} {event : JournalEvent} (h : Step s request event s') :
    s'.usedAuthorizations = s.usedAuthorizations := by
  cases h <;> rfl

theorem room_eq_ok {identity : CandidateIdentity} {u : Unit} (h : s.room identity = .ok u) :
    s.candidates.size < maxPromotionCandidates ∧ s.candidates[identity.bundleDigest]? = none ∧
      s.bundles.contains identity.bundleDigest = false := by
  simp only [AuthorityState.room, bind_eq_ok, refuseIf_eq_ok, not_or, Bool.not_eq_true] at h
  obtain ⟨_, _, hnew, hbundle, _⟩ := h
  exact ⟨by omega, (Table.contains_eq_false _ _).1 hnew, hbundle⟩

theorem Step.climbed (hstep : Step s r.content.request r.content.event s')
    (h : ∀ (d : String) (c : CandidateState), s.candidates[d]? = some c →
      c.identity.bundleDigest = d ∧ Climbed records c.identity c.stage) (d : String) (c : CandidateState)
    (hc : s'.candidates[d]? = some c) : c.identity.bundleDigest = d ∧ Climbed (records ++ [r]) c.identity c.stage := by
  have hkeep : ∀ c, s.candidates[d]? = some c → c.identity.bundleDigest = d ∧ Climbed (records ++ [r]) c.identity c.stage := by
    intro c hc
    exact ⟨(h d c hc).1, (h d c hc).2.append r⟩
  generalize hevent : r.content.event = event at hstep
  generalize hrequest : r.content.request = request at hstep
  cases hstep with
  | boot bundle => exact hkeep c hc
  | refused => exact hkeep c hc
  | admitted bundle _ _ hadmits hop hdigest =>
    rcases Table.insert_eq_some hc with ⟨rfl, rfl⟩ | ⟨_, hc⟩
    · refine ⟨rfl, [r], List.sublist_append_right _ _, List.Forall₂.cons ⟨?_, ?_, ?_⟩ List.Forall₂.nil⟩
      · rw [hrequest]
        exact hop
      · rw [hrequest]
        exact hdigest
      · rw [if_pos rfl, hevent]
        exact hadmits
    · exact hkeep c hc
  | advanced digest source _ _ _ candidate hop hdigest hcandidate hstage =>
    rcases Table.insert_eq_some hc with ⟨rfl, rfl⟩ | ⟨_, hc⟩
    · obtain ⟨hid, hclimbed⟩ := h digest candidate hcandidate
      refine ⟨hid, Climbed.step (hstage ▸ hclimbed) (hrequest ▸ hop) ?_ ?_⟩
      · rw [hrequest, hdigest, hid]
      · rw [hevent]
        exact hid.symm
    · exact hkeep c hc
  | rolledBack digest source _ _ candidate hcandidate =>
    rcases Table.insert_eq_some hc with ⟨rfl, rfl⟩ | ⟨_, hc⟩
    · exact ⟨(h digest candidate hcandidate).1, [], List.nil_sublist _, List.Forall₂.nil⟩
    · exact hkeep c hc

theorem expectedOperation_target {source target : DeploymentStage} {op : PromotionOperation}
    (h : AuthorityState.expectedOperation source target = some op) : source ≠ .active := by
  rintro rfl
  cases target <;> cases h

theorem Step.stack (hstep : Step s r.content.request r.content.event s')
    (hempty : s.activeBundleDigest = none → ∀ d : String, s.candidates[d]? = none)
    (h : s.activeBundleDigest ≠ none → ∃ root stack, Stack records s root stack) :
    (s'.activeBundleDigest = none ∧ ∀ d : String, s'.candidates[d]? = none) ∨
      ∃ root stack, Stack (records ++ [r]) s' root stack := by
  generalize hevent : r.content.event = event at hstep
  generalize hrequest : r.content.request = request at hstep
  cases hstep with
  | boot bundle hop hnone =>
    refine .inr ⟨bundle.bundle.digest, [], ⟨r, by simp, ?_, ?_⟩, ?_, hempty hnone _, rfl, trivial, ?_, List.nodup_nil⟩
    · rw [hrequest]
      exact hop
    · rw [hevent]
      rfl
    · simp
    · intro d c hc
      rw [hempty hnone d] at hc
      cases hc
  | refused =>
    by_cases hnone : s.activeBundleDigest = none
    · exact .inl ⟨hnone, hempty hnone⟩
    · obtain ⟨root, stack, hs⟩ := h hnone
      obtain ⟨r', hr', hboot⟩ := hs.boot
      exact .inr ⟨root, stack, { hs with boot := ⟨r', List.mem_append_left _ hr', hboot⟩ }⟩
  | admitted bundle identity _ _ _ _ _ _ hroom hactive =>
    obtain ⟨root, stack, hs⟩ := h (by rw [hactive]; simp)
    obtain ⟨_, hnew, hbundle⟩ := room_eq_ok hroom
    have hroot : identity.bundleDigest ≠ root := by
      intro heq
      rw [heq, hs.stored] at hbundle
      cases hbundle
    have hset := hs.set r (c := ⟨identity, .candidate, none⟩) hroot (fun c hc => by rw [hnew] at hc; cases hc) (by simp)
    have hstored : (s.register bundle identity).bundles.contains root = true := by
      simp only [AuthorityState.register, Std.ExtTreeMap.contains_insert, hs.stored, Bool.or_true]
    exact .inr ⟨root, stack, { hset with stored := hstored, links := hset.links.congr (fun _ _ => rfl) }⟩
  | advanced digest source target permit _ candidate hop _ hcandidate hstage hactive =>
    obtain ⟨root, stack, hs⟩ := h (by rw [hactive]; simp)
    have hsource : candidate.stage ≠ .active := by
      rw [hstage]
      exact expectedOperation_target hop
    by_cases htarget : target = .active
    · simp only [if_pos htarget]
      exact .inr ⟨root, digest :: stack, hs.push r hcandidate hsource htarget hactive⟩
    · simp only [if_neg htarget]
      have hroot : digest ≠ root := by
        rintro rfl
        rw [hs.notCandidate] at hcandidate
        cases hcandidate
      refine .inr ⟨root, stack, hs.set r hroot (fun c hc => ?_) htarget⟩
      rw [hcandidate] at hc
      rw [← Option.some.inj hc]
      exact hsource
  | rolledBack digest source _ _ candidate hcandidate hstage hbase hactive =>
    obtain ⟨root, stack, hs⟩ := h (by rw [hactive]; simp)
    by_cases hsource : source = .active
    · rw [if_pos hsource] at hactive
      have hnew : ({ candidate with stage := .rolledBack, permit := none } : CandidateState).stage ≠ .active := by simp
      obtain ⟨rest, _, _, hpop⟩ := hs.pop r hcandidate hactive hnew
      rw [hbase] at hpop
      exact .inr ⟨root, rest, hpop⟩
    · rw [if_neg hsource] at hactive
      have hroot : digest ≠ root := by
        rintro rfl
        rw [hs.notCandidate] at hcandidate
        cases hcandidate
      have hset := hs.set r (c := { candidate with stage := .rolledBack, permit := none }) hroot (fun c hc => by
        rw [hcandidate] at hc
        rw [← Option.some.inj hc, hstage]
        exact hsource) (by simp)
      rw [← hactive]
      exact .inr ⟨root, stack, hset⟩

theorem Ladder.step (h : Ladder A records s) (hr : replayRecord A s r = .ok s') : Ladder A (records ++ [r]) s' := by
  obtain ⟨hauth, hunused, hstep⟩ := replayRecord_step hr
  have hnew : r.content.request.authorizationId ∉ authorizationIds records := (h.used _).1 hunused
  have hids : authorizationIds (records ++ [r]) = authorizationIds records ++ [r.content.request.authorizationId] := by
    simp [authorizationIds]
  refine ⟨fun id => ?_, ?_, ?_, hstep.climbed h.climbed, hstep.stack ?_ ?_⟩
  · rw [hstep.used, hids]
    simp only [AuthorityState.use, Table.get_insert, List.mem_append, List.mem_singleton, not_or, ← h.used id]
    by_cases hid : r.content.request.authorizationId = id
    · simp [hid]
    · simp [hid, Ne.symm hid]
  · rw [hids]
    refine List.nodup_append.2 ⟨h.distinct, List.nodup_singleton _, fun a ha b hb heq => ?_⟩
    rw [List.mem_singleton] at hb
    rw [heq, hb] at ha
    exact hnew ha
  · intro r' hr'
    rcases List.mem_append.1 hr' with hr' | hr'
    · exact h.authorized r' hr'
    · rw [List.mem_singleton] at hr'
      rw [hr']
      exact hauth
  · intro hnone
    rcases h.shape with ⟨_, hempty⟩ | ⟨root, stack, hs⟩
    · exact hempty
    · cases hs.active.symm.trans hnone
  · intro hsome
    rcases h.shape with ⟨hnone, _⟩ | ⟨root, stack, hs⟩
    · cases hsome hnone
    · exact ⟨root, stack, hs.boot, hs.stored, hs.notCandidate, hs.active, hs.links.congr (fun _ _ => rfl), hs.complete,
        hs.distinct⟩

theorem replay_ladder : ∀ (rest : List JournalRecord) {seen : List JournalRecord} {s s' : AuthorityState},
    Ladder A seen s → rest.foldlM (replayRecord A) s = .ok s' → Ladder A (seen ++ rest) s'
  | [], seen, s, s', h, hf => by
    rw [List.foldlM_nil, pure_eq_ok] at hf
    rw [List.append_nil, ← hf]
    exact h
  | r :: rest, seen, s, s', h, hf => by
    rw [List.foldlM_cons, bind_eq_ok] at hf
    obtain ⟨_, hr, hrest⟩ := hf
    have := replay_ladder rest (h.step hr) hrest
    rwa [List.append_assoc] at this

theorem Stack.active_iff {stack : List String} (h : Stack records s root stack) (d : String) :
    (∃ c, s.candidates[d]? = some c ∧ c.stage = .active) ↔ d ∈ stack := by
  constructor
  · rintro ⟨c, hc, hstage⟩
    exact h.complete d c hc hstage
  · exact h.links.stage d

theorem Stack.rolledBack {stack : List String} (h : Stack records s root stack)
    (hr : replayRecord A s r = .ok s') {digest restoredId restoredDigest : String}
    (hevent : r.content.event = .rolledBack digest .active restoredId restoredDigest) :
    ∃ rest, stack = digest :: rest ∧ Stack (records ++ [r]) s' root rest := by
  obtain ⟨_, _, hstep⟩ := replayRecord_step hr
  rw [hevent] at hstep
  cases hstep with
  | admitted _ _ _ hadmits => cases hadmits
  | rolledBack _ _ _ _ candidate hcandidate _ hbase hactive =>
    have hused : Stack records (s.use r.content.request.authorizationId) root stack :=
      { h with links := h.links.congr (fun _ _ => rfl) }
    have hnew : ({ candidate with stage := .rolledBack, permit := none } : CandidateState).stage ≠ .active := by simp
    obtain ⟨rest, hstack, _, hpop⟩ := hused.pop r hcandidate hactive hnew
    rw [hbase] at hpop
    exact ⟨rest, hstack, hpop⟩

end Ladder

/-- What an accepted journal says of its active bundle. -/
structure Provenance (A : Authority) (records : List JournalRecord) (s : AuthorityState) (root : String)
    (stack : List String) : Prop where
  boot : ∃ r ∈ records, r.content.request.operation = .bootstrap ∧ r.content.event.Bootstraps root
  active : s.activeBundleDigest = some (stack.headD root)
  links : Links s root stack
  exactly : ∀ d : String, (∃ c, s.candidates[d]? = some c ∧ c.stage = .active) ↔ d ∈ stack
  distinct : (root :: stack).Nodup
  climbed : ∀ d ∈ stack, ∃ c, s.candidates[d]? = some c ∧ c.identity.bundleDigest = d ∧
    Climbed records c.identity .active
  rollback : ∀ (r : JournalRecord) (s' : AuthorityState) (digest restoredId restoredDigest : String),
    replayRecord A s r = .ok s' → r.content.event = .rolledBack digest .active restoredId restoredDigest →
    stack.head? = some digest ∧ s'.activeBundleDigest = some (stack.tail.headD root) ∧
      ∀ d : String, (∃ c, s'.candidates[d]? = some c ∧ c.stage = .active) ↔ d ∈ stack.tail

/-- **For every journal that a refresh accepts**, whoever wrote it: its records are authorized under distinct
authorization ids, and unless nothing was bootstrapped the active candidates are a chain over the bootstrapped bundle
with the active bundle on top, each admitted over the one below and moved on, rung by rung, by records of its own; a
rollback of the top makes the one below active again. -/
theorem active_candidates_climbed (A : Authority) (C : Codec) (file : Bytes) (s : AuthorityState)
    (h : refresh A C file = .ok s) : ∃ records, readRecords A C file = .ok records ∧
      (authorizationIds records).Nodup ∧ (∀ r ∈ records, Authorized A r) ∧
      ((s.activeBundleDigest = none ∧ ∀ d : String, s.candidates[d]? = none) ∨
        ∃ root stack, Provenance A records s root stack) := by
  rw [refresh, bind_eq_ok] at h
  obtain ⟨records, hread, hreplay⟩ := h
  have hladder : Ladder A records s := by
    have := replay_ladder records .start hreplay
    rwa [List.nil_append] at this
  refine ⟨records, hread, hladder.distinct, hladder.authorized, ?_⟩
  rcases hladder.shape with hnone | ⟨root, stack, hs⟩
  · exact .inl hnone
  · refine .inr ⟨root, stack, hs.boot, hs.active, hs.links, hs.active_iff, ?_, fun d hd => ?_, ?_⟩
    · refine List.nodup_cons.2 ⟨fun hroot => ?_, hs.distinct⟩
      obtain ⟨c, hc, _⟩ := hs.links.stage root hroot
      rw [hs.notCandidate] at hc
      cases hc
    · obtain ⟨c, hc, hstage⟩ := hs.links.stage d hd
      obtain ⟨hid, hclimbed⟩ := hladder.climbed d c hc
      exact ⟨c, hc, hid, hstage ▸ hclimbed⟩
    · intro r s' digest restoredId restoredDigest hr hevent
      obtain ⟨_, rfl, hrest⟩ := hs.rolledBack hr hevent
      exact ⟨rfl, hrest.active, hrest.active_iff⟩

namespace Scene

def digest (c : Char) : String := String.ofList (List.replicate 64 c)

def policyRef (c : Char) : PolicyRef := ⟨"core/router", String.ofList ['p', c], "1", digest c⟩

def bundle (c : Char) (rollbackTo : Option String) : DeploymentBundle :=
  ⟨⟨String.ofList ['b', c], digest c, [policyRef c], rollbackTo⟩, [UInt8.ofNat c.toNat]⟩

def crypto : Crypto where
  sha256 := fun bytes => digest ((bytes.map (fun b => Char.ofNat b.toNat)).headD '0')
  authorization := fun _ _ _ _ => .ok "signature"
  heldOut := fun _ _ => .ok "signature"
  checkpoint := fun _ _ => .ok "signature"
  stageResult := fun _ _ => .ok "signature"
  permit := fun _ _ _ _ _ _ _ => .ok "permit"
  manifest := fun _ => .ok "manifest"
  admissionPolicy := fun _ => .ok "policy"
  slots := fun _ => .ok "slots"
  chainedHash := fun previous sequence content => previous ++ toString sequence ++ content

def nextStage : DeploymentStage → PromotionAssessment
  | .candidate => .eligibleForReleaseReview .shadow
  | .shadow => .eligibleForReleaseReview .canary
  | .canary => .eligibleForReleaseReview .active
  | _ => .reject ["no forward transition"]

def checks : Checks where
  assess := fun stage _ => nextStage stage
  manifest := fun _ => .ok ()
  admission := fun _ _ => .ok ()
  heldOutReport := fun _ => .ok ()
  canonicalBytes := fun _ _ _ => .ok []
  deploymentContent := fun _ => .error (.json "not a checkpoint")

def authority : Authority where
  crypto := crypto
  checks := checks
  authorityId := "authority"
  policy := ⟨⟨10, 1, 10, 0, 10⟩, ⟨10, 1, 10, 10, 10⟩, digest 'c', digest 'd', true, true, []⟩
  policyDigest := digest 'e'
  promotionAnchors := .ofList [("owner", ⟨"owner", [.bootstrap, .admitCandidate, .advanceStage, .rollback], [1]⟩)] compare
  evaluatorAnchors := .ofList [("evaluator", ⟨"evaluator", "suite owner", [2]⟩)] compare

def model : BaseModelId := ⟨"family", "model", digest 'f'⟩

def evidence : PromotionEvidence :=
  { baseline := policyRef '0', candidate := policyRef '1', baseModel := model, numbers := "", candidateSafetyViolations := 0,
    candidatePolicyViolations := 0, trainEvalOverlap := false, replayEquivalencePassed := true, sandboxSuitePassed := true,
    invariantSuites := ∅ }

def heldOut : SignedHeldOutEvaluation :=
  ⟨"evaluator", ⟨policyRef '1', digest '1', none, digest '2', evidence⟩, "signature"⟩

def identity : CandidateIdentity :=
  { bundleId := "b1", bundleDigest := digest '1', rollbackBundleId := "b0", baselineBundleDigest := digest '0',
    primary := ⟨policyRef '1', some (policyRef '0'), digest '1', none, digest '2', model, "suite owner", "evaluator"⟩,
    additionalEvaluations := [] }

def observation (candidate : Char) (stage : DeploymentStage) (traffic : Nat) : SignedStageObservation :=
  ⟨"evaluator", { permitDigest := "permit", candidateBundleDigest := digest candidate, stage, executedWorkUnits := 1,
                  peakConcurrency := 1, durationMs := 1, trafficBasisPoints := traffic, costMicrousd := 0,
                  appliedSecurityPolicyDigest := digest 'c', appliedDurabilityPolicyDigest := digest 'd', evidence },
    "signature"⟩

def permit (stage : DeploymentStage) (limits : StageLimits) : StagePermit :=
  ⟨"permit", "authority", digest 'e', digest '1', stage, limits, digest 'c', digest 'd'⟩

def content (id : String) (operation : PromotionOperation) (candidate : Char) (source : Option DeploymentStage)
    (target : DeploymentStage) (event : JournalEvent) : JournalContent :=
  ⟨"authority", digest 'e', ⟨id, operation, digest candidate, source, target⟩, "owner", "signature", event⟩

def contents : List JournalContent :=
  [content "1" .bootstrap '0' none .active (.bootstrapped (bundle '0' none)),
   content "2" .admitCandidate '1' none .candidate (.candidateAdmitted (bundle '1' (some "b0")) identity heldOut),
   content "3" .enterShadow '1' (some .candidate) .shadow
    (.stageTransition (digest '1') .candidate .shadow (some (permit .shadow authority.policy.shadow)) none),
   content "4" .completeShadow '1' (some .shadow) .canary
    (.stageTransition (digest '1') .shadow .canary (some (permit .canary authority.policy.canary))
      (some (observation '1' .shadow 0))),
   content "5" .completeCanary '1' (some .canary) .active
    (.stageTransition (digest '1') .canary .active none (some (observation '1' .canary 1)))]

/-- A serialization that numbers the records of one journal. -/
def codec (records : List JournalRecord) : Codec where
  record := fun r => [UInt8.ofNat (r.sequence + 48)]
  content := fun _ => [48]
  read := fun line => line.head?.bind (fun b => records[b.toNat - 48]?)

def records (contents : List JournalContent) : List JournalRecord :=
  contents.foldl (fun records content => records ++ [nextRecord authority (codec []) records content]) []

def file (records : List JournalRecord) : Bytes := Lines.image newline (records.map (codec records).record)

end Scene

theorem active_candidates_climbed_once : ∃ s records, refresh Scene.authority (Scene.codec (Scene.records Scene.contents))
    (Scene.file (Scene.records Scene.contents)) = .ok s ∧ s.activeBundleDigest = some (Scene.digest '1') ∧
    readRecords Scene.authority (Scene.codec (Scene.records Scene.contents)) (Scene.file (Scene.records Scene.contents)) =
      .ok records ∧ (authorizationIds records).Nodup := by
  have hok : (refresh Scene.authority (Scene.codec (Scene.records Scene.contents))
      (Scene.file (Scene.records Scene.contents))).toOption.map (fun s => s.activeBundleDigest) =
        some (some (Scene.digest '1')) := by
    decide +kernel
  obtain ⟨s, hs, hactive⟩ := Option.map_eq_some_iff.1 hok
  rw [toOption_eq_some] at hs
  obtain ⟨records, hread, hnodup, _⟩ := active_candidates_climbed _ _ _ s hs
  exact ⟨s, records, hs, hactive, hread, hnodup⟩

end Iteron.Promotion
