import Iteron.PromotionSound
/-!
# PromotionCheckpoint — a checkpoint admission is replayed as it was checked

The operation evaluates the slots in their order and sorts the evaluations, changed slots first; the replay asks for
exactly that order (`sortEvaluations_slots`) and looks every attestation up by its slot again.
-/
namespace Iteron.Promotion

open Refuse

section Order

variable {changed required : Slots}

theorem slotLe_antisymm {a b : String} (h : slotLe changed a b = true) (h' : slotLe changed b a = true) : a = b := by
  unfold slotLe at h h'
  by_cases hc : changed.contains a = changed.contains b
  · rw [if_pos hc] at h
    rw [if_pos hc.symm] at h'
    exact Std.LawfulEqCmp.eq_of_compare (Std.OrientedCmp.isLE_antisymm h h')
  · rw [if_neg hc] at h
    rw [if_neg (Ne.symm hc)] at h'
    cases hc (h.trans h'.symm)

theorem slotLe_total (a b : String) : slotLe changed a b = true ∨ slotLe changed b a = true := by
  unfold slotLe
  by_cases hc : changed.contains a = changed.contains b
  · have hswap : compare b a = (compare a b).swap := Std.OrientedCmp.eq_swap
    rw [if_pos hc, if_pos hc.symm, hswap]
    cases compare a b <;> simp
  · cases ha : changed.contains a <;> cases hb : changed.contains b <;> simp_all

theorem slotLe_trans {a b c : String} (h : slotLe changed a b = true) (h' : slotLe changed b c = true) :
    slotLe changed a c = true := by
  unfold slotLe at h h' ⊢
  by_cases hab : changed.contains a = changed.contains b
  · by_cases hbc : changed.contains b = changed.contains c
    · rw [if_pos hab] at h
      rw [if_pos hbc] at h'
      rw [if_pos (hab.trans hbc)]
      exact Std.TransCmp.isLE_trans h h'
    · rw [if_neg hbc] at h'
      rw [if_neg (fun hac => hbc (hab.symm.trans hac)), hab]
      exact h'
  · rw [if_neg hab] at h
    by_cases hbc : changed.contains b = changed.contains c
    · rw [if_neg (fun hac => hab (hac.trans hbc.symm))]
      exact h
    · rw [if_neg hbc] at h'
      cases hab (h.trans h'.symm)

theorem insertionSort_slots (hsub : ∀ slot ∈ changed, slot ∈ required) :
    required.toList.insertionSort (fun a b => slotLe changed a b = true) =
      changed.toList ++ required.toList.filter (fun slot => !changed.contains slot) := by
  have : Std.Total (fun a b => slotLe changed a b = true) := ⟨slotLe_total⟩
  have : IsTrans String (fun a b => slotLe changed a b = true) := ⟨fun _ _ _ => slotLe_trans⟩
  have hnodup : ∀ t : Slots, t.toList.Nodup := by
    intro t
    refine t.ordered_toList.imp (fun hlt heq => ?_)
    rw [heq] at hlt
    simp at hlt
  have hordered : ∀ (l : List String), l.Pairwise (fun a b => compare a b = .lt) →
      (∀ a ∈ l, ∀ b ∈ l, changed.contains a = changed.contains b) → l.Pairwise (fun a b => slotLe changed a b = true) := by
    intro l hl hsame
    refine hl.imp_of_mem (fun ha hb hlt => ?_)
    rw [slotLe, if_pos (hsame _ ha _ hb), hlt]
    rfl
  have hin : ∀ a ∈ changed.toList, changed.contains a = true := by
    intro a ha
    rw [Std.ExtTreeSet.mem_toList] at ha
    exact ha
  have hout : ∀ a ∈ required.toList.filter (fun slot => !changed.contains slot), changed.contains a = false := by simp
  refine List.Perm.eq_of_pairwise (fun a b _ _ => slotLe_antisymm) (List.pairwise_insertionSort _ _)
    (List.pairwise_append.2 ⟨?_, ?_, ?_⟩) ((List.perm_insertionSort _ _).trans ?_)
  · exact hordered _ changed.ordered_toList (fun a ha b hb => (hin a ha).trans (hin b hb).symm)
  · exact hordered _ (required.ordered_toList.filter _) (fun a ha b hb => (hout a ha).trans (hout b hb).symm)
  · intro a ha b hb
    have hne : ¬ changed.contains a = changed.contains b := by
      rw [hin a ha, hout b hb]
      simp
    rw [slotLe, if_neg hne]
    exact hin a ha
  · have hperm : changed.toList.Perm (required.toList.filter (fun slot => changed.contains slot)) := by
      refine (List.perm_ext_iff_of_nodup (hnodup changed) ((hnodup required).filter _)).2 (fun a => ?_)
      rw [List.mem_filter, Std.ExtTreeSet.mem_toList, Std.ExtTreeSet.mem_toList]
      exact ⟨fun ha => ⟨hsub a ha, ha⟩, fun ha => ha.2⟩
    exact ((hperm.append_right _).trans (List.filter_append_perm _ _)).symm

theorem sortEvaluations_slots (hsub : ∀ slot ∈ changed, slot ∈ required) {evaluations : List EvaluationIdentity}
    (hslots : evaluations.map (fun e => e.candidatePolicy.slot) = required.toList) :
    (sortEvaluations changed evaluations).map (fun e => e.candidatePolicy.slot) =
      changed.toList ++ required.toList.filter (fun slot => !changed.contains slot) := by
  rw [sortEvaluations, List.map_insertionSort _ (fun a b => slotLe changed a b = true) _ _ (fun _ _ _ _ => Iff.rfl), hslots,
    insertionSort_slots hsub]

end Order

theorem find_key {α : Type} {f : α → String} : ∀ {l : List α}, (l.map f).Nodup → ∀ a ∈ l, l.find? (fun x => f x == f a) = some a
  | [], _, a, ha => by cases ha
  | b :: l, hn, a, ha => by
    obtain ⟨hnew, hn⟩ := List.nodup_cons.1 hn
    rcases List.mem_cons.1 ha with rfl | ha
    · simp
    · have hne : (f b == f a) = false := by
        rw [beq_eq_false_iff_ne]
        intro heq
        exact hnew (List.mem_map.2 ⟨a, ha, heq.symm⟩)
      rw [List.find?_cons_of_neg (by simp [hne])]
      exact find_key hn a ha

section Valid

variable {A : Authority} {checkpoint : PolicyCheckpoint}

theorem validatePolicies_nodup : ∀ {policies : List PolicyRef} {seen : List String} {u : Unit},
    validatePolicies seen policies = .ok u → (policies.map (fun p => p.slot)).Nodup ∧ ∀ p ∈ policies, p.slot ∉ seen
  | [], _, _, _ => ⟨List.nodup_nil, fun p hp => by cases hp⟩
  | p :: policies, seen, u, h => by
    simp only [validatePolicies, bind_eq_ok, refuseIf_eq_ok] at h
    obtain ⟨_, _, _, hnew, hrest⟩ := h
    obtain ⟨hnodup, hseen⟩ := validatePolicies_nodup hrest
    refine ⟨List.nodup_cons.2 ⟨fun hin => ?_, hnodup⟩, fun q hq => ?_⟩
    · obtain ⟨q, hq, heq⟩ := List.mem_map.1 hin
      exact hseen q hq (heq ▸ List.mem_cons_self)
    · rcases List.mem_cons.1 hq with rfl | hq
      · exact hnew
      · exact fun hin => hseen q hq (.tail _ hin)

/-- What a validated checkpoint says of its policies and manifests. -/
structure Valid (checkpoint : PolicyCheckpoint) : Prop where
  distinct : (checkpoint.bundle.policies.map (fun p => p.slot)).Nodup
  policies : checkpoint.bundle.policies = (Table.vals checkpoint.manifests).map (fun m => m.policy)
  covered : ∀ p ∈ checkpoint.bundle.policies, ∃ m, checkpoint.manifests[p.slot]? = some m ∧ m.policy = p

theorem valid_of_validate (h : checkpoint.validate A = .ok ()) : Valid checkpoint := by
  simp only [PolicyCheckpoint.validate, contract, bind_eq_ok, refuseIf_eq_ok, not_not, mapError_eq_ok] at h
  obtain ⟨_, hbundle, _, _, _, _, _, _, _, _, _, hmanifests, _, hpolicies, _⟩ := h
  simp only [PolicyBundle.validate, bind_eq_ok] at hbundle
  obtain ⟨_, _, _, _, _, _, _, _, _, _, hdistinct⟩ := hbundle
  refine ⟨(validatePolicies_nodup hdistinct).1, hpolicies, fun p hp => ?_⟩
  have hp := forM_ok hmanifests p hp
  unfold PolicyCheckpoint.checkManifest at hp
  split at hp
  · cases hp
  · rename_i m hm
    simp only [bind_eq_ok, refuseIf_eq_ok, not_not] at hp
    obtain ⟨_, _, heq⟩ := hp
    exact ⟨m, hm, heq⟩

variable {m : PolicyManifest}

theorem Valid.mem (h : Valid checkpoint) {slot : String} (hm : checkpoint.manifests[slot]? = some m) :
    m.policy ∈ checkpoint.bundle.policies := by
  rw [h.policies]
  exact List.mem_map.2 ⟨m, (Table.mem_vals _ _).2 ⟨slot, hm⟩, rfl⟩

theorem Valid.slot (h : Valid checkpoint) {slot : String} (hm : checkpoint.manifests[slot]? = some m) :
    m.policy.slot = slot := by
  obtain ⟨m', hm', heq⟩ := h.covered _ (h.mem hm)
  have hnodup : (checkpoint.manifests.toList.map (fun p => p.2.policy.slot)).Nodup := by
    have := h.distinct
    rw [h.policies, Table.vals, List.map_map, List.map_map] at this
    exact this
  have hpair : ((m.policy.slot, m') : String × PolicyManifest) = (slot, m) :=
    List.inj_on_of_nodup_map hnodup ((Table.mem_toList _ _ _).2 hm') ((Table.mem_toList _ _ _).2 hm)
      (congrArg PolicyRef.slot heq)
  exact congrArg Prod.fst hpair

theorem Valid.policyFor (h : Valid checkpoint) {slot : String} (hm : checkpoint.manifests[slot]? = some m) :
    checkpoint.bundle.policyFor slot = some m.policy := by
  have := find_key h.distinct m.policy (h.mem hm)
  rwa [h.slot hm] at this

end Valid

section Evaluate

variable {A : Authority} {active deployment : DeploymentBundle} {checkpoint : PolicyCheckpoint} {slot : String}
variable {a : SlotAdmission} {e : EvaluationIdentity} {baseline : PolicyRef} {manifest : PolicyManifest}

theorem verifyCheckpointHeldOut_none {bundle : PolicyBundle} {slots : Slots} {policy : String}
    {suite : Option EvaluationSuite} {heldOut : SignedCheckpointEvaluation} {u : Unit}
    (h : verifyCheckpointHeldOut A bundle slots e baseline manifest policy suite heldOut = .ok u) :
    verifyCheckpointHeldOut A bundle slots e baseline manifest policy none heldOut = .ok () ∧
      heldOut.report.candidate = e.candidatePolicy := by
  simp only [verifyCheckpointHeldOut, bind_eq_ok] at h ⊢
  obtain ⟨u1, h1, x2, h2, x3, h3, x4, h4, _, _, anchor, h6, expected, h7, _, h8, h9⟩ := h
  refine ⟨⟨u1, h1, x2, h2, x3, h3, x4, h4, (), rfl, anchor, h6, expected, h7, (), h8, h9⟩, ?_⟩
  simp only [refuseIf_eq_ok, not_or, not_not] at h8
  exact h8.2.2.2.2.2.2.2.2.1

/-- What the evaluation of a slot found, in the terms of the replay. -/
structure Evaluates (A : Authority) (active deployment : DeploymentBundle) (checkpoint : PolicyCheckpoint) (slot : String)
    (a : SlotAdmission) (e : EvaluationIdentity) (manifest : PolicyManifest) (baseline : PolicyRef) : Prop where
  found : checkpoint.manifests[slot]? = some manifest
  assessed : A.checks.admission a.policy manifest = .ok ()
  base : active.bundle.policyFor slot = some baseline
  candidate : e.candidatePolicy = manifest.policy
  parent : e.parentPolicy = some baseline
  reported : a.heldOut.report.candidate = e.candidatePolicy
  verified : verifyCheckpointHeldOut A deployment.bundle checkpoint.freshHeldOutSlots e baseline manifest a.policy none
    a.heldOut = .ok ()

theorem evaluateSlot_eq_ok (h : evaluateSlot A active deployment checkpoint (slot, a) = .ok e) :
    ∃ manifest baseline, Evaluates A active deployment checkpoint slot a e manifest baseline := by
  simp only [evaluateSlot, bind_eq_ok, pure_eq_ok] at h
  obtain ⟨manifest, hmanifest, _, hadmission, _, _, baseline, hbaseline, _, hverify, rfl⟩ := h
  obtain ⟨hnone, hreported⟩ := verifyCheckpointHeldOut_none hverify
  exact ⟨manifest, baseline, orMismatch_eq_ok hmanifest, hadmission, orMismatch_eq_ok hbaseline, rfl, rfl, hreported, hnone⟩

theorem Evaluates.slots (hv : Valid checkpoint) (h : Evaluates A active deployment checkpoint slot a e manifest baseline) :
    e.candidatePolicy.slot = slot ∧ a.heldOut.report.candidate.slot = slot := by
  have hslot : e.candidatePolicy.slot = slot := by
    rw [h.candidate]
    exact hv.slot h.found
  exact ⟨hslot, (congrArg PolicyRef.slot h.reported).trans hslot⟩

end Evaluate

section Accept

variable {A : Authority} {active deployment : DeploymentBundle} {checkpoint : PolicyCheckpoint}
variable {admissions : Std.ExtTreeMap String SlotAdmission compare} {evaluations : List EvaluationIdentity}

/-- The evaluations of all slots, one for each admission. -/
structure Evaluated (A : Authority) (active deployment : DeploymentBundle) (checkpoint : PolicyCheckpoint)
    (admissions : Std.ExtTreeMap String SlotAdmission compare) (evaluations : List EvaluationIdentity) : Prop where
  slots : evaluations.map (fun e => e.candidatePolicy.slot) = admissions.keys
  attested : ((Table.vals admissions).map (fun a => a.heldOut)).map (fun a => a.report.candidate.slot) = admissions.keys
  evaluation : ∀ e ∈ evaluations, ∃ slot a manifest baseline,
    Evaluates A active deployment checkpoint slot a e manifest baseline
  admission : ∀ (slot : String) (a : SlotAdmission), admissions[slot]? = some a → ∃ e ∈ evaluations, ∃ manifest baseline,
    Evaluates A active deployment checkpoint slot a e manifest baseline

theorem evaluated_of_mapM (hv : Valid checkpoint)
    (h : admissions.toList.mapM (evaluateSlot A active deployment checkpoint) = .ok evaluations) :
    Evaluated A active deployment checkpoint admissions evaluations := by
  have hkeys : admissions.keys = admissions.toList.map Prod.fst := Std.ExtTreeMap.map_fst_toList_eq_keys.symm
  have hpairs := mapM_ok h
  have hevaluates : ∀ {l : List (String × SlotAdmission)} {bs : List EvaluationIdentity},
      List.Forall₂ (fun p e => evaluateSlot A active deployment checkpoint p = .ok e) l bs →
      (bs.map (fun e => e.candidatePolicy.slot) = l.map Prod.fst ∧
        l.map (fun p => p.2.heldOut.report.candidate.slot) = l.map Prod.fst) ∧
      (∀ e ∈ bs, ∃ slot a manifest baseline, Evaluates A active deployment checkpoint slot a e manifest baseline) ∧
      ∀ p ∈ l, ∃ e ∈ bs, ∃ manifest baseline, Evaluates A active deployment checkpoint p.1 p.2 e manifest baseline := by
    intro l bs hl
    induction hl with
    | nil => simp
    | @cons p e l bs hp _ ih =>
      obtain ⟨⟨hslots, hattested⟩, hev, had⟩ := ih
      obtain ⟨manifest, baseline, hone⟩ := evaluateSlot_eq_ok hp
      obtain ⟨hslot, hreport⟩ := hone.slots hv
      refine ⟨⟨?_, ?_⟩, fun e' he' => ?_, fun p' hp' => ?_⟩
      · rw [List.map_cons, List.map_cons, hslot, hslots]
      · rw [List.map_cons, List.map_cons, hreport, hattested]
      · rcases List.mem_cons.1 he' with rfl | he'
        · exact ⟨p.1, p.2, manifest, baseline, hone⟩
        · exact hev e' he'
      · rcases List.mem_cons.1 hp' with rfl | hp'
        · exact ⟨e, .head _, manifest, baseline, hone⟩
        · obtain ⟨e', he', hrest⟩ := had p' hp'
          exact ⟨e', .tail _ he', hrest⟩
  obtain ⟨⟨hslots, hattested⟩, hev, had⟩ := hevaluates hpairs
  refine ⟨hslots.trans hkeys.symm, ?_, hev, fun slot a ha => had (slot, a) ((Table.mem_toList _ _ _).2 ha)⟩
  rw [hkeys, ← hattested, Table.vals, List.map_map, List.map_map]
  rfl

theorem ofList_eq {l : List String} {t : Slots} (h : l.Perm t.toList) : (Std.ExtTreeSet.ofList l compare : Slots) = t := by
  refine Std.ExtTreeSet.ext_mem (fun k => ?_)
  rw [Std.ExtTreeSet.mem_ofList, List.contains_iff_mem, h.mem_iff, Std.ExtTreeSet.mem_toList]

/-- What the operation checked of the slots of a checkpoint. -/
structure SlotsChecked (checkpoint : PolicyCheckpoint) (admissions : Std.ExtTreeMap String SlotAdmission compare)
    (changed : Slots) : Prop where
  nonempty : checkpoint.freshHeldOutSlots.isEmpty = false
  differs : changed.isEmpty = false
  supplied : admissions.keys = checkpoint.freshHeldOutSlots.toList
  subset : changed.toList.all (fun slot => checkpoint.freshHeldOutSlots.contains slot) = true

variable {changed : Slots} {identity : CandidateIdentity}

theorem identity_slots (he : Evaluated A active deployment checkpoint admissions evaluations)
    (hc : SlotsChecked checkpoint admissions changed) (hi : identity.evaluations = sortEvaluations changed evaluations) :
    identity.slots = changed.toList ++ checkpoint.freshHeldOutSlots.toList.filter (fun slot => !changed.contains slot) ∧
      identity.slots.Perm checkpoint.freshHeldOutSlots.toList ∧ identity.slots.Nodup := by
  have hslots : evaluations.map (fun e => e.candidatePolicy.slot) = checkpoint.freshHeldOutSlots.toList :=
    he.slots.trans hc.supplied
  have hsub : ∀ slot ∈ changed, slot ∈ checkpoint.freshHeldOutSlots := by
    intro slot hslot
    exact List.all_eq_true.1 hc.subset slot (Std.ExtTreeSet.mem_toList.2 hslot)
  have hperm : identity.slots.Perm checkpoint.freshHeldOutSlots.toList := by
    rw [CandidateIdentity.slots, hi, ← hslots]
    exact (List.perm_insertionSort _ _).map _
  refine ⟨?_, hperm, hperm.nodup_iff.2 ?_⟩
  · rw [CandidateIdentity.slots, hi]
    exact sortEvaluations_slots hsub hslots
  · refine checkpoint.freshHeldOutSlots.ordered_toList.imp (fun hlt heq => ?_)
    rw [heq] at hlt
    simp at hlt

theorem slotsAgree_ok {activeCheckpoint : PolicyCheckpoint}
    (hactive : PolicyCheckpoint.fromDeployment A active = .ok activeCheckpoint)
    (he : Evaluated A active deployment checkpoint admissions evaluations)
    (hc : SlotsChecked checkpoint admissions (activeCheckpoint.changedSlots checkpoint))
    (hi : identity.evaluations = sortEvaluations (activeCheckpoint.changedSlots checkpoint) evaluations)
    (hindependent : evaluatorsAreIndependent identity checkpoint.bundle = true) :
    AuthorityState.slotsAgree A active checkpoint identity (admissions.map (fun _ a => a.policy))
      ((Table.vals admissions).map (fun a => a.heldOut)) = .ok () := by
  obtain ⟨hcanonical, hperm, hnodup⟩ := identity_slots he hc hi
  have hevaluated : evaluatedSlots identity = .ok checkpoint.freshHeldOutSlots := by
    simp only [evaluatedSlots, bind_eq_ok, refuseIf_eq_ok, pure_eq_ok, not_not]
    exact ⟨(), hnodup, ofList_eq hperm⟩
  have hattested : (Std.ExtTreeSet.ofList (((Table.vals admissions).map (fun a => a.heldOut)).map
      (fun a => a.report.candidate.slot)) compare : Slots) = checkpoint.freshHeldOutSlots := by
    refine ofList_eq (List.Perm.of_eq ?_)
    rw [he.attested, hc.supplied]
  have hordered : evaluationsAreCanonical identity (activeCheckpoint.changedSlots checkpoint)
      checkpoint.freshHeldOutSlots = true := by
    rw [evaluationsAreCanonical, beq_iff_eq]
    exact hcanonical
  simp only [AuthorityState.slotsAgree, bind_eq_ok, refuseIf_eq_ok, mapError_eq_ok, not_or, not_not, Bool.not_eq_true,
    Bool.not_eq_false]
  refine ⟨_, hevaluated, activeCheckpoint, hactive, hc.nonempty, hc.differs, rfl, hordered, hindependent, ?_, ?_, hc.subset⟩
  · rw [hattested]
  · rw [Std.ExtTreeMap.keys_map, hc.supplied]

theorem attestations_ok (hv : Valid checkpoint) (he : Evaluated A active deployment checkpoint admissions evaluations)
    (hc : SlotsChecked checkpoint admissions changed) (hi : identity.evaluations = sortEvaluations changed evaluations) :
    ((Table.vals admissions).map (fun a => a.heldOut)).forM
      (checkAttestation A active deployment checkpoint identity (admissions.map (fun _ a => a.policy))) = .ok () := by
  refine forM_of_ok (fun heldOut hmem => ?_)
  obtain ⟨a, ha, rfl⟩ := List.mem_map.1 hmem
  obtain ⟨slot, hslot⟩ := (Table.mem_vals _ _).1 ha
  obtain ⟨e, hmem, manifest, baseline, hone⟩ := he.admission slot a hslot
  obtain ⟨heslot, hreport⟩ := hone.slots hv
  have hfind : identity.evaluations.find? (fun e => e.candidatePolicy.slot == slot) = some e := by
    rw [← heslot]
    refine find_key (identity_slots he hc hi).2.2 e ?_
    rw [hi]
    exact (List.mem_insertionSort _).2 hmem
  simp only [checkAttestation, bind_eq_ok, hreport]
  refine ⟨manifest, ?_, a.policy, ?_, (), hone.assessed, e, ?_, baseline, ?_, hone.verified⟩
  · rw [PolicyCheckpoint.manifestFor, hone.found]
    rfl
  · rw [Table.get_map, hslot]
    rfl
  · rw [hfind]
    rfl
  · rw [hone.base]
    rfl

theorem evaluations_ok (hv : Valid checkpoint) (hd : deployment.bundle = checkpoint.bundle)
    (he : Evaluated A active deployment checkpoint admissions evaluations)
    (hi : identity.evaluations = sortEvaluations changed evaluations) :
    identity.evaluations.forM (AuthorityState.evaluationMatches active deployment checkpoint) = .ok () := by
  refine forM_of_ok (fun e hmem => ?_)
  rw [hi] at hmem
  obtain ⟨_, a, _, _, hone⟩ := he.evaluation e ((List.mem_insertionSort _).1 hmem)
  simp only [AuthorityState.evaluationMatches, refuseIf_eq_ok, not_or, not_not, hd]
  rw [(hone.slots hv).1]
  refine ⟨?_, hone.parent.trans hone.base.symm, ?_⟩
  · rw [hv.policyFor hone.found, hone.candidate]
  · rw [PolicyCheckpoint.manifestFor, hone.found, hone.candidate]
    rfl

variable {s : AuthorityState} {request : PromotionRequest} {authorization : PromotionAuthorization}

theorem checkpoint_accepted (h : Sound s) {event : JournalEvent}
    (hevent : admitCheckpointEvent A s request authorization checkpoint admissions = .ok event)
    (hfits : Fits s checkpoint.bundle) (C : Codec) (records : List JournalRecord) :
    ∃ s', replayRecord A s (nextRecord A C records (contentOf A request authorization event)) = .ok s' := by
  simp only [admitCheckpointEvent, bind_eq_ok, refuseIf_eq_ok, mapError_eq_ok, not_or, not_not, Bool.not_eq_true,
    Bool.not_eq_false] at hevent
  obtain ⟨_, hprepare, _, hvalidate, ⟨digest, active⟩, hactive, deployment, hdeployment, activeCheckpoint, hfrom, _,
    ⟨hrequired, hchanged, hsupplied, hsubset, hnames, hrollback⟩, evaluations, hevaluations, hevent⟩ := hevent
  have hv : Valid checkpoint := valid_of_validate hvalidate
  have hd : deployment.bundle = checkpoint.bundle := by
    simp only [PolicyCheckpoint.deploymentBundleUnchecked, deploymentNew, bind_eq_ok, pure_eq_ok] at hdeployment
    obtain ⟨_, _, _, _, _, _, rfl⟩ := hdeployment
    rfl
  have he : Evaluated A active deployment checkpoint admissions evaluations := evaluated_of_mapM hv hevaluations
  have hc : SlotsChecked checkpoint admissions (activeCheckpoint.changedSlots checkpoint) :=
    ⟨hrequired, hchanged, hsupplied, hsubset⟩
  have hdigest : active.bundle.digest = digest := h.keyed _ _ (active_eq_ok hactive).2
  cases hsorted : sortEvaluations (activeCheckpoint.changedSlots checkpoint) evaluations with
  | nil =>
    rw [hsorted] at hevent
    cases hevent
  | cons primary others =>
    rw [hsorted] at hevent
    simp only [checkpointEvent, bind_eq_ok, refuseIf_eq_ok, pure_eq_ok, Bool.not_eq_false] at hevent
    obtain ⟨_, hindependent, rfl⟩ := hevent
    have hi : (checkpointIdentity deployment active primary others).evaluations =
        sortEvaluations (activeCheckpoint.changedSlots checkpoint) evaluations := hsorted.symm
    rw [hd] at hindependent
    have hagree := slotsAgree_ok hfrom he hc hi hindependent
    have hlength : ((Table.vals admissions).map (fun a => a.heldOut)).length = checkpoint.freshHeldOutSlots.size := by
      rw [← Std.ExtTreeSet.length_toList, ← hsupplied, ← he.attested, List.length_map, List.length_map, List.length_map]
    refine replayRecord_ok hprepare (fun sequence => ?_) ⟨(s.use request.authorizationId).register deployment
      (checkpointIdentity deployment active primary others), ?_⟩
    · simp only [checkEvent, checkCheckpoint, bind_eq_ok, refuseIf_eq_ok, mapError_eq_ok, not_not]
      exact ⟨(), hvalidate, (digest, active), hactive, (), hagree, (), hlength, deployment, hdeployment,
        attestations_ok hv he hc hi⟩
    · have hroom : (s.use request.authorizationId).room (checkpointIdentity deployment active primary others) = .ok () :=
        hfits.room (congrArg PolicyBundle.digest hd) (congrArg PolicyBundle.bundleId hd)
      simp only [AuthorityState.applyEvent, AuthorityState.applyCheckpointCandidate, bind_eq_ok, refuseIf_eq_ok, pure_eq_ok,
        mapError_eq_ok, not_or, not_not]
      refine ⟨(), hvalidate, deployment, hdeployment, (), ?_, (), hroom, (digest, active), hactive, (), hagree, (),
        ⟨hdigest, rfl, hrollback⟩, (), evaluations_ok hv hd he hi, rfl⟩
      simp [AuthorityState.namesBundle, (prepareAuthorized_eq_ok hprepare).1, hnames, checkpointIdentity]

end Accept

end Iteron.Promotion
