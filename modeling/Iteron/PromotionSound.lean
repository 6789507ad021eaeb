import Iteron.PromotionAuthority
import Iteron.PromotionLadder
/-!
# PromotionSound — what an operation appends, the replay accepts

An operation appends before the reducer sees its record.  For each operation but the checkpoint admission: the checks it
makes imply the replay's, given that a new candidate fits and that a refused observation names the candidate.
-/
namespace Iteron.Promotion

open Refuse

/-- What every replayed state satisfies, and an operation relies on. -/
structure Sound (s : AuthorityState) : Prop where
  keyed : ∀ (d : String) (b : DeploymentBundle), s.bundles[d]? = some b → b.bundle.digest = d
  empty : s.activeBundleDigest = none → s.bundles.isEmpty = true
  rollback : ∀ (d : String) (c : CandidateState), s.candidates[d]? = some c → ∃ b,
    s.bundles[c.identity.baselineBundleDigest]? = some b ∧ b.bundle.bundleId = c.identity.rollbackBundleId

section Sound

variable {A : Authority} {s s' : AuthorityState} {request : PromotionRequest} {event : JournalEvent}

theorem Sound.start : Sound .start where
  keyed := fun d b h => by simp [AuthorityState.start] at h
  empty := fun _ => by simp [AuthorityState.start]
  rollback := fun d c h => by simp [AuthorityState.start] at h

theorem Sound.use (h : Sound s) (id : String) : Sound (s.use id) := ⟨h.keyed, h.empty, h.rollback⟩

theorem Sound.set (h : Sound s) {d : String} {old c : CandidateState} (hget : s.candidates[d]? = some old)
    (heq : c.identity = old.identity) (active : String) :
    Sound { s with candidates := s.candidates.insert d c, activeBundleDigest := some active } where
  keyed := h.keyed
  empty := fun hnone => by cases hnone
  rollback := fun d' c1 hget' => by
    rcases Table.insert_eq_some hget' with ⟨_, rfl⟩ | ⟨_, hget'⟩
    · rw [heq]
      exact h.rollback d old hget
    · exact h.rollback d' c1 hget'

theorem Sound.step (h : Sound s) (hstep : Step s request event s') : Sound s' := by
  cases hstep with
  | refused => exact h
  | boot bundle hop hnone hempty =>
    have hno : ∀ d : String, s.bundles[d]? = none := by
      rw [Std.ExtTreeMap.isEmpty_iff.1 hempty]
      simp
    refine ⟨fun d b hget => ?_, fun hnone => (by cases hnone), fun d c hget => ?_⟩
    · rcases Table.insert_eq_some hget with ⟨rfl, rfl⟩ | ⟨_, hget⟩
      · rfl
      · exact h.keyed d b hget
    · obtain ⟨b, hb, _⟩ := h.rollback d c hget
      rw [hno] at hb
      cases hb
  | admitted bundle identity active _ _ _ hbundle _ hroom hactive hbase hrollback =>
    obtain ⟨_, _, hnew⟩ := room_eq_ok hroom
    have hkept : ∀ (d : String) (b : DeploymentBundle), s.bundles[d]? = some b →
        (s.bundles.insert identity.bundleDigest bundle)[d]? = some b := by
      intro d b hget
      rw [Table.get_insert, if_neg]
      · exact hget
      · rintro rfl
        rw [(Table.contains_eq_false _ _).1 hnew] at hget
        cases hget
    refine ⟨fun d b hget => ?_, fun hnone => ?_, fun d c hget => ?_⟩
    · rcases Table.insert_eq_some hget with ⟨rfl, rfl⟩ | ⟨_, hget⟩
      · exact hbundle
      · exact h.keyed d b hget
    · rw [AuthorityState.register, hactive] at hnone
      cases hnone
    · rcases Table.insert_eq_some hget with ⟨_, rfl⟩ | ⟨_, hget⟩
      · exact ⟨active, hkept _ _ hbase, hrollback.symm⟩
      · obtain ⟨b, hb, hid⟩ := h.rollback d c hget
        exact ⟨b, hkept _ _ hb, hid⟩
  | advanced digest source target permit _ candidate hop _ hcandidate _ hactive =>
    have hset := h.set (c := { candidate with stage := target, permit }) hcandidate rfl
    by_cases htarget : target = .active
    · simp only [if_pos htarget]
      exact hset digest
    · simp only [if_neg htarget, hactive]
      exact hset _
  | rolledBack digest source _ _ candidate hcandidate =>
    exact h.set (c := { candidate with stage := .rolledBack, permit := none }) hcandidate rfl _

theorem replay_sound : ∀ (records : List JournalRecord) {s s' : AuthorityState}, Sound s →
    records.foldlM (replayRecord A) s = .ok s' → Sound s'
  | [], s, s', h, hf => by
    rw [List.foldlM_nil, pure_eq_ok] at hf
    rw [← hf]
    exact h
  | r :: rest, s, s', h, hf => by
    rw [List.foldlM_cons, bind_eq_ok] at hf
    obtain ⟨_, hr, hrest⟩ := hf
    exact replay_sound rest ((h.use _).step (replayRecord_step hr).2.2) hrest

end Sound

section Accept

variable {A : Authority} {s : AuthorityState} {request : PromotionRequest} {authorization : PromotionAuthorization}
variable {operation : PromotionOperation} {u : Unit}

theorem prepareAuthorized_eq_ok (h : prepareAuthorized A s request authorization operation = .ok u) :
    request.operation = operation ∧ s.usedAuthorizations.contains request.authorizationId = false ∧
      verifyAuthorization A request authorization = .ok () := by
  simp only [prepareAuthorized, bind_eq_ok, refuseIf_eq_ok, not_not, Bool.not_eq_true] at h
  obtain ⟨_, hop, _, hunused, hverify⟩ := h
  exact ⟨hop, hunused, hverify⟩

theorem verifyAuthorization_validate (h : verifyAuthorization A request authorization = .ok ()) :
    request.validate = .ok () ∧ validTransition request.operation request.expectedFrom request.target = true := by
  simp only [verifyAuthorization, bind_eq_ok] at h
  obtain ⟨_, hvalidate, _⟩ := h
  refine ⟨hvalidate, ?_⟩
  simp only [PromotionRequest.validate, bind_eq_ok, refuseIf_eq_ok, Bool.not_eq_false] at hvalidate
  obtain ⟨_, _, _, _, hvalid⟩ := hvalidate
  exact hvalid

variable {event : JournalEvent}

theorem replayRecord_ok {records : List JournalRecord} {C : Codec}
    (hprepare : prepareAuthorized A s request authorization operation = .ok u)
    (hcheck : ∀ sequence, checkEvent A s sequence event = .ok ())
    (happly : ∃ s', (s.use request.authorizationId).applyEvent A request event = .ok s') :
    ∃ s', replayRecord A s (nextRecord A C records (contentOf A request authorization event)) = .ok s' := by
  obtain ⟨s', happly⟩ := happly
  obtain ⟨_, hunused, hverify⟩ := prepareAuthorized_eq_ok hprepare
  have hauth : verifyRecordAuthorization A (contentOf A request authorization event) = .ok () := by
    simp only [verifyRecordAuthorization, bind_eq_ok, refuseIf_eq_ok]
    exact ⟨(), by simp [contentOf], hverify⟩
  have happlied : s.apply A (nextRecord A C records (contentOf A request authorization event)) = .ok s' := by
    simp only [AuthorityState.apply, bind_eq_ok, refuseIf_eq_ok, Bool.not_eq_true]
    exact ⟨(), (verifyAuthorization_validate hverify).1, (), hunused, happly⟩
  refine ⟨s', ?_⟩
  simp only [replayRecord, bind_eq_ok]
  exact ⟨(), hauth, (), hcheck _, happlied⟩

variable {target : DeploymentStage}

theorem validTransition_eq {op : PromotionOperation} {source : Option DeploymentStage}
    (h : validTransition op source target = true) : (op = .enterShadow → source = some .candidate ∧ target = .shadow) ∧
      (op = .completeShadow → source = some .shadow ∧ target = .canary) ∧
      (op = .completeCanary → source = some .canary ∧ target = .active) ∧ (op = .rollback → target = .rolledBack) := by
  cases op <;> cases target <;> rcases source with _ | source <;> try (cases source) <;> simp_all [validTransition]
  all_goals simp_all [validTransition]

theorem bootstrap_accepted (h : Sound s) {baseline : DeploymentBundle}
    (hevent : bootstrapEvent A s request authorization baseline = .ok event) (C : Codec) (records : List JournalRecord) :
    ∃ s', replayRecord A s (nextRecord A C records (contentOf A request authorization event)) = .ok s' := by
  simp only [bootstrapEvent, bind_eq_ok, refuseIf_eq_ok, pure_eq_ok, not_not, Bool.not_eq_true] at hevent
  obtain ⟨_, hprepare, _, hvalid, _, hdigest, _, hnone, rfl⟩ := hevent
  have hop := (prepareAuthorized_eq_ok hprepare).1
  have hempty : s.bundles.isEmpty = true := h.empty (by simpa using hnone)
  refine replayRecord_ok hprepare (fun _ => rfl) ?_
  apply Exists.intro
  simp only [AuthorityState.applyEvent, AuthorityState.applyBootstrap, bind_eq_ok, refuseIf_eq_ok, pure_eq_ok]
  exact ⟨(), by simp [hop, hdigest], (), by simp [AuthorityState.use, hnone, hempty], (), hvalid, rfl⟩

variable {digest : String} {c : CandidateState} {stage : DeploymentStage}

theorem requireStage_eq_ok (h : requireStage s digest stage = .ok c) : s.lookup digest = .ok c ∧ c.stage = stage ∧
      ((stage = .candidate ∨ stage = .shadow ∨ stage = .canary) →
        s.activeBundleDigest = some c.identity.baselineBundleDigest) := by
  simp only [requireStage, bind_eq_ok, refuseIf_eq_ok, pure_eq_ok, not_and, not_not] at h
  obtain ⟨_, hlookup, _, hstage, _, hactive, rfl⟩ := h
  exact ⟨hlookup, hstage, hactive⟩

theorem issuePermit_eq_ok {permit : StagePermit} (h : issuePermit A digest stage = .ok permit) :
    permit.candidateBundleDigest = digest ∧ permit.stage = stage := by
  unfold issuePermit at h
  split at h
  · cases h
  · simp only [bind_eq_ok, pure_eq_ok] at h
    obtain ⟨_, _, rfl⟩ := h
    exact ⟨rfl, rfl⟩

variable {source : DeploymentStage} {permit : Option StagePermit}

theorem applyTransition_ok {attested : Bool} (hop : AuthorityState.expectedOperation source target = some request.operation)
    (hdigest : request.candidateBundleDigest = digest) (hsource : request.expectedFrom = some source)
    (htarget : request.target = target) (hattested : attested = decide (source ≠ .candidate))
    (hpermit : permit.isSome = decide (target ≠ .active)) (hlookup : s.lookup digest = .ok c)
    (hstage : c.stage = source) (hactive : s.activeBundleDigest = some c.identity.baselineBundleDigest)
    (hnames : ∀ p ∈ permit, p.candidateBundleDigest = digest ∧ p.stage = target) :
    ∃ s', s.applyTransition request digest source target permit attested = .ok s' := by
  have hany : permit.any (fun p => p.candidateBundleDigest != digest || p.stage != target) = false := by
    cases permit with
    | none => rfl
    | some p =>
      obtain ⟨hp, hs⟩ := hnames p rfl
      simp [hp, hs]
  apply Exists.intro
  simp only [AuthorityState.applyTransition, bind_eq_ok, refuseIf_eq_ok, pure_eq_ok, not_or, not_not]
  exact ⟨(), ⟨hop, hdigest, hsource, htarget, hattested, hpermit⟩, c, hlookup, (), hstage, (), hactive, (),
    by simp [hany], rfl⟩

theorem enterShadow_accepted (hevent : enterShadowEvent A s request authorization = .ok event)
    (C : Codec) (records : List JournalRecord) :
    ∃ s', replayRecord A s (nextRecord A C records (contentOf A request authorization event)) = .ok s' := by
  simp only [enterShadowEvent, bind_eq_ok, pure_eq_ok] at hevent
  obtain ⟨_, hprepare, c, hstage, permit, hpermit, rfl⟩ := hevent
  obtain ⟨hop, _, hverify⟩ := prepareAuthorized_eq_ok hprepare
  obtain ⟨hsource, htarget⟩ := (validTransition_eq (verifyAuthorization_validate hverify).2).1 hop
  obtain ⟨hlookup, hcstage, hactive⟩ := requireStage_eq_ok hstage
  obtain ⟨hdigest, hpstage⟩ := issuePermit_eq_ok hpermit
  have hnames : ∀ p ∈ some permit, p.candidateBundleDigest = request.candidateBundleDigest ∧ p.stage = .shadow := by
    intro p hp
    cases hp
    exact ⟨hdigest, hpstage⟩
  have hexpected : AuthorityState.expectedOperation .candidate .shadow = some request.operation := by
    rw [hop]
    rfl
  exact replayRecord_ok hprepare (fun _ => rfl) (applyTransition_ok (s := s.use request.authorizationId) hexpected rfl
    hsource htarget rfl rfl hlookup hcstage (hactive (.inl rfl)) hnames)

variable {observation : SignedStageObservation}

theorem stageRefusalCodes_length {permit : StagePermit} {codes : List RefusalCode}
    (h : stageRefusalCodes A s c permit target observation = .ok codes) : codes.length ≤ 6 := by
  simp only [stageRefusalCodes, bind_eq_ok, pure_eq_ok] at h
  obtain ⟨_, _, _, _, _, _, _, _, _, _, _, _, rfl⟩ := h
  exact List.length_filter_le _ _

/-- A stage of the ladder that ends with an observation. -/
structure Bounded (source target : DeploymentStage) (operation : PromotionOperation) : Prop where
  expected : AuthorityState.expectedOperation source target = some operation
  refusal : AuthorityState.refusalOperation source = some operation
  next : refusalTarget source = .ok target
  inFlight : source = .shadow ∨ source = .canary
  request : ∀ r : PromotionRequest, validTransition r.operation r.expectedFrom r.target = true → r.operation = operation →
    r.expectedFrom = some source ∧ r.target = target

theorem bounded_shadow : Bounded .shadow .canary .completeShadow :=
  ⟨rfl, rfl, rfl, .inl rfl, fun _ h hop => (validTransition_eq h).2.1 hop⟩

theorem bounded_canary : Bounded .canary .active .completeCanary :=
  ⟨rfl, rfl, rfl, .inr rfl, fun _ h hop => (validTransition_eq h).2.2.1 hop⟩

theorem nextPermit_eq_ok (h : nextPermit A digest target = .ok permit) : permit.isSome = decide (target ≠ .active) ∧
      ∀ p ∈ permit, p.candidateBundleDigest = digest ∧ p.stage = target := by
  unfold nextPermit at h
  by_cases htarget : target = .active
  · rw [if_pos htarget] at h
    cases h
    simp [htarget]
  · rw [if_neg htarget] at h
    cases hissue : issuePermit A digest target with
    | error e =>
      rw [hissue] at h
      cases h
    | ok p =>
      rw [hissue] at h
      cases h
      refine ⟨by simp [htarget], fun p' hp' => ?_⟩
      cases hp'
      exact issuePermit_eq_ok hissue

theorem complete_accepted (hb : Bounded source target operation)
    (hevent : completeEvent A s request authorization observation source target operation = .ok event)
    (hnames : observation.observation.candidateBundleDigest = request.candidateBundleDigest) (C : Codec)
    (records : List JournalRecord) :
    ∃ s', replayRecord A s (nextRecord A C records (contentOf A request authorization event)) = .ok s' := by
  simp only [completeEvent, bind_eq_ok] at hevent
  obtain ⟨_, hprepare, c, hstage, permit, hpermit, codes, hcodes, hcompletion⟩ := hevent
  obtain ⟨hop, _, hverify⟩ := prepareAuthorized_eq_ok hprepare
  obtain ⟨hsource, htarget⟩ := hb.request request (verifyAuthorization_validate hverify).2 hop
  obtain ⟨hlookup, hcstage, hactive⟩ := requireStage_eq_ok hstage
  cases codes with
  | nil =>
    cases hnext : nextPermit A request.candidateBundleDigest target with
    | error e =>
      rw [completion, hnext] at hcompletion
      cases hcompletion
    | ok _ =>
      rw [completion, hnext] at hcompletion
      cases hcompletion
      obtain ⟨hsome, hpermits⟩ := nextPermit_eq_ok hnext
      have hattested : true = decide (source ≠ .candidate) := by
        rcases hb.inFlight with rfl | rfl <;> rfl
      refine replayRecord_ok hprepare (fun sequence => ?_) (applyTransition_ok (s := s.use request.authorizationId)
        (hop ▸ hb.expected) rfl hsource htarget hattested hsome hlookup hcstage (hactive (.inr hb.inFlight)) hpermits)
      simp only [checkEvent, checkTransition, bind_eq_ok, refuseIf_eq_ok, not_not]
      exact ⟨c, hlookup, permit, hpermit, (), hcstage, [], hcodes, rfl⟩
  | cons code codes =>
    cases hcompletion
    refine replayRecord_ok hprepare (fun sequence => ?_) ⟨s.use request.authorizationId, ?_⟩
    · simp only [checkEvent, checkRefusal, bind_eq_ok, refuseIf_eq_ok, not_not]
      exact ⟨c, hlookup, permit, hpermit, target, hb.next, code :: codes, hcodes, rfl⟩
    · simp only [AuthorityState.applyEvent, AuthorityState.applyRefusal, bind_eq_ok, refuseIf_eq_ok, pure_eq_ok, not_or,
        not_not]
      exact ⟨(), ⟨trivial, hsource, hop ▸ hb.refusal, by simp, Nat.not_lt.2 (stageRefusalCodes_length hcodes),
        hnames.symm⟩, c, hlookup, (), hcstage, trivial⟩

theorem orMismatch_eq_ok {α : Type} {o : Option α} {a : α} (h : orMismatch o = .ok a) : o = some a := by
  cases o with
  | none => cases h
  | some b => exact congrArg some (Except.ok.inj h)

theorem rollback_accepted (h : Sound s) (hevent : rollbackEvent A s request authorization = .ok event)
    (C : Codec) (records : List JournalRecord) :
    ∃ s', replayRecord A s (nextRecord A C records (contentOf A request authorization event)) = .ok s' := by
  simp only [rollbackEvent, bind_eq_ok, refuseIf_eq_ok, pure_eq_ok, not_not] at hevent
  obtain ⟨_, hprepare, source, hsource, c, hlookup, _, hstage, _, hactive, restored, hrestored, rfl⟩ := hevent
  obtain ⟨hop, _, hverify⟩ := prepareAuthorized_eq_ok hprepare
  have htarget := (validTransition_eq (verifyAuthorization_validate hverify).2).2.2.2 hop
  have hfrom : request.expectedFrom = some source := by
    unfold rollbackSource at hsource
    split at hsource
    · cases hsource
    · rename_i found hfound
      rw [← Except.ok.inj hsource]
      exact hfound
  have hget := orMismatch_eq_ok hrestored
  have hdigest : restored.bundle.digest = c.identity.baselineBundleDigest := h.keyed _ _ hget
  obtain ⟨b, hb, hid⟩ := h.rollback _ c (lookup_eq_ok hlookup)
  cases hb.symm.trans hget
  refine replayRecord_ok hprepare (fun _ => rfl) ?_
  apply Exists.intro
  simp only [AuthorityState.applyEvent, AuthorityState.applyRollback, bind_eq_ok, refuseIf_eq_ok, pure_eq_ok, not_or,
    not_not]
  refine ⟨(), ⟨hop, trivial, hfrom, htarget⟩, c, hlookup, (), ⟨hstage, hid.symm, hdigest.symm⟩, (), ?_, (), ?_, rfl⟩
  · rw [hdigest]
    exact hactive
  · rw [hdigest]
    simp [AuthorityState.use, hget]

/-- There is room for a bundle, and its digest and its id are new. -/
structure Fits (s : AuthorityState) (bundle : PolicyBundle) : Prop where
  size : s.candidates.size < maxPromotionCandidates
  candidate : s.candidates.contains bundle.digest = false
  stored : s.bundles.contains bundle.digest = false
  id : (Table.vals s.bundles).any (fun stored => stored.bundle.bundleId == bundle.bundleId) = false

variable {identity : CandidateIdentity}

theorem Fits.room {bundle : PolicyBundle} (h : Fits s bundle) (hdigest : identity.bundleDigest = bundle.digest)
    (hid : identity.bundleId = bundle.bundleId) : s.room identity = .ok () := by
  simp only [AuthorityState.room, bind_eq_ok, refuseIf_eq_ok, not_or, Bool.not_eq_true]
  rw [hdigest, hid]
  exact ⟨(), Nat.not_le.2 h.size, h.candidate, h.stored, h.id⟩

theorem verifyHeldOutWithoutSuite_matches {baseline : PolicyRef} {heldOut : SignedHeldOutEvaluation}
    (h : verifyHeldOutWithoutSuite A identity baseline heldOut = .ok u)
    (hid : heldOut.evaluatorId = identity.primary.evaluatorId) :
    AuthorityState.heldOutMatches identity heldOut = .ok () := by
  simp only [verifyHeldOutWithoutSuite, bind_eq_ok, refuseIf_eq_ok, not_or, not_not] at h
  obtain ⟨_, _, _, _, _, ⟨_, _, _, hcandidate, hartifact, htraining, hsuite, hmodel, _⟩, _⟩ := h
  simp only [AuthorityState.heldOutMatches, refuseIf_eq_ok, not_or, not_not]
  exact ⟨hcandidate, hartifact, htraining, hsuite, hid, hmodel⟩

theorem admitCandidate_accepted (h : Sound s) {c : CandidateAdmission}
    (hevent : admitCandidateEvent A s request authorization c = .ok event) (hfits : Fits s c.deployment.bundle) (C : Codec)
    (records : List JournalRecord) :
    ∃ s', replayRecord A s (nextRecord A C records (contentOf A request authorization event)) = .ok s' := by
  simp only [admitCandidateEvent, verifyHeldOut, bind_eq_ok, refuseIf_eq_ok, pure_eq_ok, not_or, not_not] at hevent
  obtain ⟨_, hprepare, ⟨digest, active⟩, hactive, _, hvalid, _, _, _, ⟨hnames, hpolicy, hrollback, hchanged, hpolicies⟩,
    verified, _, baseline, hbaseline, _, hparent, _, ⟨_, _, hheld⟩, rfl⟩ := hevent
  have hop := (prepareAuthorized_eq_ok hprepare).1
  have hbase := orMismatch_eq_ok hbaseline
  have hdigest : active.bundle.digest = digest := h.keyed _ _ (active_eq_ok hactive).2
  refine replayRecord_ok hprepare (fun sequence => ?_) ⟨(s.use request.authorizationId).register
    c.deployment (candidateIdentity c active verified), ?_⟩
  · simp only [checkEvent, checkCandidate, bind_eq_ok]
    exact ⟨(digest, active), hactive, baseline, hbaseline, hheld⟩
  · simp only [AuthorityState.applyEvent, AuthorityState.applyCandidate, bind_eq_ok, refuseIf_eq_ok, pure_eq_ok, not_or,
      not_not]
    refine ⟨_, ⟨(), ?_, (), hvalid, (), hfits.room rfl rfl, (digest, active), hactive, (), ⟨rfl, hchanged, hpolicies⟩, (),
      ⟨hdigest, rfl, hrollback, hpolicy, ?_⟩, rfl⟩, (), verifyHeldOutWithoutSuite_matches hheld rfl, rfl⟩
    · simp [AuthorityState.namesBundle, hop, hnames, candidateIdentity]
    · exact hparent.trans hbase.symm

end Accept

end Iteron.Promotion
