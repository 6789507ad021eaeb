import Iteron.CostReplay
/-!
# CostSteps — what one event of the journal does

Every accepted event inverted once: what is prepared before its own case, and one of six kinds of step.
-/
namespace Iteron.Cost

open Machine (saturatingAdd)
open Refuse (refuseIf bind_eq_ok pure_eq_ok refuseIf_eq_ok mapError_eq_ok)

variable {H : Hashes} {port : Port} {r r' : Replay} {i : Input}

def Input.subRunOf (i : Input) : Option String :=
  match i.kind with
  | .subagentFinished subRun _ => some subRun
  | .childFinished _ _ subRun _ => subRun
  | _ => none

def Input.taskOf (i : Input) : Option (String × Nat) :=
  match i.kind with
  | .childFinished workflowId taskId _ _ => some (workflowId, taskId)
  | _ => none

def Input.isAside (i : Input) : Bool :=
  match i.kind with
  | .turnStart => false
  | .turnEnd _ => false
  | .modelSelected _ => false
  | .rateCardBound _ => false
  | .costProjected _ => false
  | _ => true

namespace Replay

theorem openSubRun_eq (r : Replay) (s : String) :
    ∃ subs l, r.openSubRun s = { r with openSubRuns := subs, ledger := l } := by
  unfold openSubRun
  split
  · exact ⟨r.openSubRuns, r.ledger, rfl⟩
  · exact ⟨_, _, rfl⟩

theorem closeSubRun_eq (r : Replay) (s : String) :
    ∃ subs l, r.closeSubRun s = { r with openSubRuns := subs, ledger := l } := by
  unfold closeSubRun
  split
  · exact ⟨_, _, rfl⟩
  · exact ⟨r.openSubRuns, r.ledger, rfl⟩

/-- A step that concerns the children, the tools or nothing: the matchers stay as they are. -/
def Aside (r : Replay) (i : Input) (r' : Replay) : Prop :=
  (∀ s, i.subRunOf = some s → s ∉ r.terminalSubRuns) ∧ (∀ k, i.taskOf = some k → k ∉ r.workflowTasks) ∧
    ∃ l subs wa ws, r' =
      { r with
        ledger := l, openSubRuns := subs, workflowAdmissions := wa, workflowSubRuns := ws
        terminalSubRuns := i.subRunOf.toList ++ r.terminalSubRuns
        workflowTasks := i.taskOf.toList ++ r.workflowTasks }

theorem aside_of_plain (hs : i.subRunOf = none) (ht : i.taskOf = none) (l : Ledger) (subs : List String)
    (wa : List ((String × Nat) × String)) (ws : List (String × (String × Nat))) :
    Aside r i { r with ledger := l, openSubRuns := subs, workflowAdmissions := wa, workflowSubRuns := ws } := by
  refine ⟨fun s h => ?_, fun k h => ?_, l, subs, wa, ws, ?_⟩
  · rw [hs] at h
    cases h
  · rw [ht] at h
    cases h
  · rw [hs, ht]
    rfl

variable {m : WorkflowMetrics}

theorem finishSubagent_ok {s : String} (hk : i.kind = .subagentFinished s m)
    (h : r.finishSubagent H (some port) i s m = .ok r') : Aside r i r' := by
  simp only [finishSubagent, bind_eq_ok, refuseIf_eq_ok, pure_eq_ok] at h
  obtain ⟨_, hs, l, -, rfl⟩ := h
  obtain ⟨subs, l', heq⟩ := closeSubRun_eq { r with ledger := l } s
  have hsub : i.subRunOf = some s := by simp [Input.subRunOf, hk]
  have htask : i.taskOf = none := by simp [Input.taskOf, hk]
  refine ⟨fun s' h' => ?_, fun k h' => ?_, l', subs, r.workflowAdmissions, r.workflowSubRuns, ?_⟩
  · rw [hsub] at h'
    exact Option.some.inj h' ▸ hs
  · rw [htask] at h'
    cases h'
  · rw [heq, hsub, htask]
    rfl

variable {subRun : Option String}

theorem settleChild_ok {task : String × Nat} (h : settleChild H (some port) r i task m subRun = .ok r') :
    ∃ l subs, r' = { r with ledger := l, openSubRuns := subs, terminalSubRuns := subRun.toList ++ r.terminalSubRuns } := by
  cases subRun with
  | none =>
    simp only [settleChild, pure_eq_ok] at h
    exact ⟨_, r.openSubRuns, h.symm⟩
  | some s =>
    simp only [settleChild, bind_eq_ok, pure_eq_ok] at h
    obtain ⟨l, -, rfl⟩ := h
    obtain ⟨subs, l', heq⟩ := closeSubRun_eq { r with ledger := l } s
    refine ⟨l', subs, ?_⟩
    rw [heq]
    rfl

theorem finishChild_ok {w : String} {n : Nat} (hk : i.kind = .childFinished w n subRun m)
    (h : r.finishChild H (some port) i (w, n) subRun m = .ok r') : Aside r i r' := by
  simp only [finishChild, bind_eq_ok, refuseIf_eq_ok, pure_eq_ok, not_or] at h
  obtain ⟨_, ⟨htask, hsub⟩, _, -, _, -, _, -, _, h1, rfl⟩ := h
  obtain ⟨l, subs, rfl⟩ := settleChild_ok h1
  have hsubOf : i.subRunOf = subRun := by simp [Input.subRunOf, hk]
  have htaskOf : i.taskOf = some (w, n) := by simp [Input.taskOf, hk]
  refine ⟨fun s hs => ?_, fun k hk' => ?_, l, subs, r.workflowAdmissions, r.workflowSubRuns, ?_⟩
  · rw [hsubOf] at hs
    simpa [hs] using hsub
  · rw [htaskOf] at hk'
    exact Option.some.inj hk' ▸ htask
  · rw [hsubOf, htaskOf]
    rfl

/-- What binding a rate card does: a new epoch, and the card is active when it is trusted for the selected route. -/
def Bound (H : Hashes) (port : Port) (r : Replay) (c : SignedRateCard) (r' : Replay) : Prop :=
  r' = { r with bindingEpoch := saturatingAdd r.bindingEpoch 1, activeRateCard := none } ∨
    (r.selectedRoute = some c.rateCard.route ∧ port.verifyRateCard c = .ok () ∧
      H.rateCard c.rateCard = c.rateCardDigest ∧ r' =
        { r with
          bindingEpoch := saturatingAdd r.bindingEpoch 1
          boundRateCards := put r.boundRateCards c.rateCardDigest c
          activeRateCard := some c.rateCardDigest })

theorem bindRateCard_ok {c : SignedRateCard} (h : r.bindRateCard H (some port) c = .ok r') : Bound H port r c r' := by
  simp only [bindRateCard, bind_eq_ok] at h
  obtain ⟨_, hdigest, h⟩ := h
  split at h
  · exact .inl (pure_eq_ok.1 h).symm
  · rename_i hroute
    split at h
    · rename_i hverify
      refine .inr ⟨by simpa using hroute, hverify, ?_, (pure_eq_ok.1 h).symm⟩
      simp only [validateRateCardDigest, bind_eq_ok, refuseIf_eq_ok] at hdigest
      obtain ⟨_, -, _, -, _, -, _, -, hlabel⟩ := hdigest
      simpa using hlabel
    · exact .inl (pure_eq_ok.1 h).symm
    · cases h

/-- A projection taken in: under which match, what was consumed, and when the ledger's money may have moved. -/
inductive Projected (port : Port) (r : Replay) (p : CostProjection) (r' : Replay) : Prop where
  | legacy (hid : p.identity = none) (hphys : r.pendingPhysical = none)
      (heq : r' = { r with pendingTurn := none, ledger := r.ledger.markLegacyUnattributed })
  | logical (pending : PendingTurn) (identity : CostProjectionIdentity) (l : Ledger)
      (hphys : r.pendingPhysical = none) (hpending : r.pendingTurn = some pending)
      (husage : pending.usage = p.usage) (hid : p.identity = some identity)
      (hscope : (identity.tenantId, identity.runId, identity.turnId) =
        (pending.identity.tenantId, pending.identity.runId, pending.identity.turnId))
      (heq : r' = { r.consume identity p with pendingTurn := none, ledger := l })
      (hcard : l = r.ledger ∨ pending.rateCardDigest = some p.rateCardDigest ∧
        ∃ card, get r.boundRateCards p.rateCardDigest = some card ∧ port.verifyProjection card p = .ok ())
  | physical (proof : TurnProof) (bound : Bool) (identity : CostProjectionIdentity) (l : Ledger)
      (hproof : r.pendingPhysical = some proof) (hmem : (p, bound) ∈ proof.candidates) (husage : proof.usage = p.usage)
      (hid : p.identity = some identity)
      (heq : r' = { r.consume identity p with pendingPhysical := none, pendingTurn := none, ledger := l })

variable {p : CostProjection}

theorem charge_ok (h : r.charge H p = .ok r') : ∃ l, r' = { r with ledger := l } := by
  simp only [charge, bind_eq_ok, pure_eq_ok] at h
  obtain ⟨l, -, rfl⟩ := h
  exact ⟨l, rfl⟩

variable {proof : TurnProof}

theorem mem_of_matchingBinding {bound : Bool} (h : proof.matchingBinding p = some bound) :
    (p, bound) ∈ proof.candidates ∧ proof.usage = p.usage := by
  unfold TurnProof.matchingBinding at h
  split at h
  · cases h
  · rename_i husage
    obtain ⟨c, hc, rfl⟩ := Option.map_eq_some_iff.1 h
    have hp : c.1 = p := by simpa using List.find?_some hc
    exact ⟨hp ▸ List.mem_of_find?_eq_some hc, by simpa using husage⟩

theorem projectPhysical_ok (hproof : r.pendingPhysical = some proof)
    (h : r.projectPhysical H (some port) proof p = .ok r') : Projected port r p r' := by
  simp only [projectPhysical, bind_eq_ok, demand_eq_ok] at h
  obtain ⟨_, hbound, identity, hid, h⟩ := h
  obtain ⟨hmem, husage⟩ := mem_of_matchingBinding hbound
  split at h
  · obtain ⟨_, -, h⟩ := bind_eq_ok.1 h
    obtain ⟨l, rfl⟩ := charge_ok h
    exact .physical proof _ identity l hproof hmem husage hid rfl
  · exact .physical proof _ identity r.ledger hproof hmem husage hid (pure_eq_ok.1 h).symm

theorem projectLogical_ok (hphys : r.pendingPhysical = none)
    (h : r.projectLogical H (some port) p = .ok r') : Projected port r p r' := by
  simp only [projectLogical, bind_eq_ok, demand_eq_ok] at h
  obtain ⟨pending, hpending, h⟩ := h
  obtain ⟨hpending, hmatch⟩ := Option.filter_eq_some_iff.1 hpending
  rw [Bool.and_eq_true, decide_eq_true_eq, decide_eq_true_eq] at hmatch
  split at h
  · rename_i hid
    exact .legacy hid hphys (pure_eq_ok.1 h).symm
  · rename_i identity hid
    simp only [bind_eq_ok, refuseIf_eq_ok, not_or, not_not] at h
    obtain ⟨_, ⟨htenant, hrun, hturn, -⟩, h⟩ := h
    have hscope : (identity.tenantId, identity.runId, identity.turnId) =
        (pending.identity.tenantId, pending.identity.runId, pending.identity.turnId) := by
      rw [htenant, hrun, hturn]
    split at h
    · exact .logical pending identity r.ledger hphys hpending hmatch.1 hid hscope (pure_eq_ok.1 h).symm (.inl rfl)
    · rename_i hcard
      split at h
      · rename_i card port' hget hport
        cases hport
        obtain ⟨_, hverify, h⟩ := bind_eq_ok.1 h
        obtain ⟨l, rfl⟩ := charge_ok h
        exact .logical pending identity l hphys hpending hmatch.1 hid hscope rfl
          (.inr ⟨by simpa using hcard, card, hget, hverify⟩)
      · exact .logical pending identity r.ledger hphys hpending hmatch.1 hid hscope (pure_eq_ok.1 h).symm (.inl rfl)

def Unused (r : Replay) (p : CostProjection) : Prop :=
  (∀ identity, p.identity = some identity → identity ∉ r.consumedProjectionIdentities) ∧
    p.projectionDigest ∉ r.consumedProjectionDigests

theorem project_ok (h : r.project H (some port) p = .ok r') : Unused r p ∧ Projected port r p r' := by
  simp only [project, bind_eq_ok, refuseIf_eq_ok, not_or] at h
  obtain ⟨_, -, _, ⟨hid, hdigest⟩, h⟩ := h
  refine ⟨⟨fun identity hi => by simpa [hi] using hid, hdigest⟩, ?_⟩
  split at h
  · rename_i proof hproof
    exact projectPhysical_ok hproof h
  · rename_i hphys
    exact projectLogical_ok hphys h

/-- **The six kinds of step** of an event's own case. -/
inductive KindStep (H : Hashes) (port : Port) (r : Replay) (i : Input) (r' : Replay) : Prop where
  | start (hk : i.kind = .turnStart) (heq : r' = r.startTurn i.scope)
  | finish (usage : Usage) (hk : i.kind = .turnEnd usage) (heq : r' = r.endTurn i.scope usage)
  | select (route : PricingRoute) (hk : i.kind = .modelSelected route) (heq : r' = r.selectModel route)
  | bind (c : SignedRateCard) (hk : i.kind = .rateCardBound c) (hbound : Bound H port r c r')
  | project (p : CostProjection) (hk : i.kind = .costProjected p) (hunused : Unused r p) (hp : Projected port r p r')
  | aside (hk : i.isAside = true) (ha : Aside r i r')

theorem observeKind_ok (h : r.observeKind H (some port) i = .ok r') : KindStep H port r i r' := by
  have hplain : i.subRunOf = none ∧ i.taskOf = none ∧ i.isAside = true → ∀ l subs wa ws, KindStep H port r i
        { r with ledger := l, openSubRuns := subs, workflowAdmissions := wa, workflowSubRuns := ws } :=
    fun h l subs wa ws => .aside h.2.2 (aside_of_plain h.1 h.2.1 l subs wa ws)
  cases hk : i.kind with
  | turnStart =>
    simp only [observeKind, hk, pure_eq_ok] at h
    exact .start hk h.symm
  | turnEnd usage =>
    simp only [observeKind, hk, pure_eq_ok] at h
    exact .finish usage hk h.symm
  | modelSelected route =>
    simp only [observeKind, hk, pure_eq_ok] at h
    exact .select route hk h.symm
  | rateCardBound c =>
    simp only [observeKind, hk] at h
    exact .bind c hk (bindRateCard_ok h)
  | costProjected p =>
    simp only [observeKind, hk] at h
    obtain ⟨hunused, hp⟩ := project_ok h
    exact .project p hk hunused hp
  | subagentFinished s m =>
    simp only [observeKind, hk] at h
    exact .aside (by simp [Input.isAside, hk]) (finishSubagent_ok hk h)
  | childFinished w n s m =>
    simp only [observeKind, hk] at h
    exact .aside (by simp [Input.isAside, hk]) (finishChild_ok hk h)
  | childStarted w n s =>
    simp only [observeKind, hk, startChild, bind_eq_ok, pure_eq_ok] at h
    obtain ⟨_, -, _, -, rfl⟩ := h
    obtain ⟨subs, l, heq⟩ := openSubRun_eq
      { r with
        workflowAdmissions := put r.workflowAdmissions (w, n) s
        workflowSubRuns := put r.workflowSubRuns s (w, n) } s
    rw [heq]
    exact hplain (by simp [Input.subRunOf, Input.taskOf, Input.isAside, hk]) _ _ _ _
  | subagentSpawned s =>
    simp only [observeKind, hk, pure_eq_ok] at h
    obtain ⟨subs, l, heq⟩ := openSubRun_eq r s
    rw [← h, heq]
    exact hplain (by simp [Input.subRunOf, Input.taskOf, Input.isAside, hk]) l subs
      r.workflowAdmissions r.workflowSubRuns
  | childAccountingPending e =>
    simp only [observeKind, hk, bind_eq_ok, pure_eq_ok] at h
    obtain ⟨l, -, rfl⟩ := h
    exact hplain (by simp [Input.subRunOf, Input.taskOf, Input.isAside, hk]) l r.openSubRuns
      r.workflowAdmissions r.workflowSubRuns
  | childAccountingResolved e =>
    simp only [observeKind, hk, bind_eq_ok, pure_eq_ok] at h
    obtain ⟨l, -, rfl⟩ := h
    exact hplain (by simp [Input.subRunOf, Input.taskOf, Input.isAside, hk]) l r.openSubRuns
      r.workflowAdmissions r.workflowSubRuns
  | toolDone b =>
    simp only [observeKind, hk, pure_eq_ok] at h
    rw [← h]
    exact hplain (by simp [Input.subRunOf, Input.taskOf, Input.isAside, hk]) _ r.openSubRuns
      r.workflowAdmissions r.workflowSubRuns
  | effectUnknown _ _ a =>
    simp only [observeKind, hk, pure_eq_ok] at h
    rw [← h]
    exact hplain (by simp [Input.subRunOf, Input.taskOf, Input.isAside, hk]) _ r.openSubRuns
      r.workflowAdmissions r.workflowSubRuns
  | _ =>
    simp only [observeKind, hk, pure_eq_ok] at h
    rw [← h]
    exact hplain (by simp [Input.subRunOf, Input.taskOf, Input.isAside, hk]) r.ledger r.openSubRuns
      r.workflowAdmissions r.workflowSubRuns

end Replay

end Iteron.Cost
