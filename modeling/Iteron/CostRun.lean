import Iteron.CostSteps
import Mathlib.Data.List.Induction
/-!
# CostRun — an event before its own case, and the turns it leaves open

The physical matcher keeps to the journal; then which starts are open after an event.
-/
namespace Iteron.Cost

open Machine (saturatingAdd u64Max)
open Refuse (refuseIf bind_eq_ok pure_eq_ok refuseIf_eq_ok mapError_eq_ok Ensures)

variable {H : Hashes} {port : Port} {r r' : Replay} {i : Input} {l : Ledger} {es : List Input}

/-! ## The physical matcher -/

def Names (s : Scope) (p : CostProjection) : Prop :=
  ∃ identity, p.identity = some identity ∧ (identity.tenantId, identity.runId, identity.turnId) = s

def ScopesOk (es : List Input) (ph : Physical) : Prop :=
  ∀ q ∈ ph.scopes, (∃ j ∈ es, j.isSealed = true ∧ j.scope = q.1) ∧ ∀ k ∈ q.2.known, Names q.1 k.1

namespace Physical

variable {s : Scope} {id : String}

theorem openAttempt_ok {ph ph' : Physical} {stamp : Option Nat} {attempt : Option AttemptIdentity}
    {route : Option PricingRoute} {card : Option String} (h : ph.openAttempt H s id stamp attempt route card = .ok ph') :
    ∀ q ∈ ph'.scopes, (q.1 = s ∧ (q.2.known = [] ∨ ∃ sc, (s, sc) ∈ ph.scopes ∧ q.2.known = sc.known)) ∨
      q ∈ ph.scopes := by
  simp only [openAttempt, bind_eq_ok, pure_eq_ok] at h
  obtain ⟨_, -, _, -, _, -, _, -, _, -, _, -, _, -, _, -, _, -, _, -, rfl⟩ := h
  intro q hq
  rcases mem_put hq with rfl | ⟨hq, -⟩
  · refine .inl ⟨rfl, ?_⟩
    cases hget : get (ph.retire s) s with
    | none => exact .inl rfl
    | some sc => exact .inr ⟨sc, List.mem_of_mem_filter (mem_of_get hget), rfl⟩
  · exact .inr (List.mem_of_mem_filter hq)

theorem knownProjection_ok {a : Admission} {acc : AttemptAccounting} {u : Bool} {known : List (CostProjection × Bool)}
    (h : knownProjection H s a acc u = .ok known) : ∀ k ∈ known, Names s k.1 := by
  unfold knownProjection at h
  split at h
  · rw [← pure_eq_ok.1 h]
    exact fun k hk => absurd hk List.not_mem_nil
  · split at h
    · simp only [bind_eq_ok, demand_eq_ok, refuseIf_eq_ok, pure_eq_ok] at h
      obtain ⟨_, -, identity, hid, _, hmatch, rfl⟩ := h
      simp only [mismatched, not_or, not_not] at hmatch
      obtain ⟨ht, hr, hn, -⟩ := hmatch
      intro k hk
      obtain rfl := List.mem_singleton.1 hk
      exact ⟨identity, hid, by rw [ht, hr, hn]⟩
    · rw [← pure_eq_ok.1 h]
      exact fun k hk => absurd hk List.not_mem_nil

theorem closeAttempt_ok {ph ph' : Physical} {acc : Option AttemptAccounting} {u : Bool}
    (h : ph.closeAttempt H s id acc u = .ok ph') : ∀ q ∈ ph'.scopes, q ∈ ph.scopes ∨
      (q.1 = s ∧ ∃ sc, (s, sc) ∈ ph.scopes ∧ ∀ k ∈ q.2.known, k ∈ sc.known ∨ Names s k.1) := by
  unfold closeAttempt at h
  split at h
  · rw [← pure_eq_ok.1 h]
    exact fun q hq => .inl hq
  · rename_i sc hsc
    split at h
    · rw [← pure_eq_ok.1 h]
      exact fun q hq => .inl hq
    · simp only [bind_eq_ok, pure_eq_ok] at h
      obtain ⟨_, -, _, -, _, -, _, -, _, hknown, rfl⟩ := h
      intro q hq
      rcases mem_put hq with rfl | ⟨hq, -⟩
      · refine .inr ⟨rfl, sc, mem_of_get hsc, fun k hk => ?_⟩
        rcases List.mem_append.1 hk with hk | hk
        · exact .inl hk
        · exact .inr (knownProjection_ok hknown k hk)
      · exact .inl hq

theorem finish_ok {ph : Physical} {usage : Usage} {proof : TurnProof} (h : (ph.finish s usage).2 = some proof) :
    proof.usage = usage ∧ ∀ k ∈ proof.candidates, ∃ sc, (s, sc) ∈ ph.scopes ∧ k ∈ sc.known := by
  unfold finish at h
  split at h
  · rename_i sc hsc
    split at h
    · rw [← Option.some.inj h]
      exact ⟨rfl, fun k hk => absurd hk List.not_mem_nil⟩
    · rw [← Option.some.inj h]
      exact ⟨rfl, fun k hk => ⟨sc, mem_of_get hsc, hk⟩⟩
  · obtain ⟨f, -, h⟩ := Option.bind_eq_some_iff.1 h
    split at h
    · rw [← Option.some.inj h]
      exact ⟨rfl, fun k hk => absurd hk List.not_mem_nil⟩
    · cases h

theorem finish_scopes (ph : Physical) (s : Scope) (usage : Usage) :
    ∀ q ∈ (ph.finish s usage).1.scopes, q ∈ ph.scopes := by
  unfold finish
  split
  · split
    · exact fun q hq => hq
    · exact fun q hq => (mem_drop hq).1
  · exact fun q hq => hq

end Physical

theorem ScopesOk.mono {ph : Physical} (h : ScopesOk es ph) (i : Input) : ScopesOk (es ++ [i]) ph := by
  intro q hq
  obtain ⟨⟨j, hj, hsealed⟩, hknown⟩ := h q hq
  exact ⟨⟨j, List.mem_append_left _ hj, hsealed⟩, hknown⟩

theorem ScopesOk.openAttempt {ph ph' : Physical} {id : String} {stamp : Option Nat} {attempt : Option AttemptIdentity}
    {route : Option PricingRoute} {card : Option String} (h : ScopesOk es ph) (hs : i.isSealed = true)
    (ho : ph.openAttempt H i.scope id stamp attempt route card = .ok ph') : ScopesOk (es ++ [i]) ph' := by
  intro q hq
  rcases Physical.openAttempt_ok ho q hq with ⟨hq1, hknown⟩ | hq
  · refine ⟨⟨i, by simp, hs, hq1.symm⟩, fun k hk => ?_⟩
    rcases hknown with hnil | ⟨_, hsc, heq⟩
    · rw [hnil] at hk
      cases hk
    · rw [heq] at hk
      rw [hq1]
      exact (h _ hsc).2 k hk
  · exact h.mono i q hq

theorem ScopesOk.closeAttempt {ph ph' : Physical} {s : Scope} {id : String} {acc : Option AttemptAccounting} {u : Bool}
    (h : ScopesOk es ph) (hc : ph.closeAttempt H s id acc u = .ok ph') : ScopesOk (es ++ [i]) ph' := by
  intro q hq
  rcases Physical.closeAttempt_ok hc q hq with hq | ⟨hq1, _, hsc, hknown⟩
  · exact h.mono i q hq
  · obtain ⟨hsealed, hold⟩ := h.mono i _ hsc
    refine ⟨hq1 ▸ hsealed, fun k hk => ?_⟩
    rw [hq1]
    exact (hknown k hk).elim (hold k) (fun hn => hn)

namespace Replay

def prepared (r : Replay) (i : Input) (ph : Option Physical) : Replay :=
  { (r.clearPending i).sealTurn i with physical := ph }

theorem physical_sealTurn (r : Replay) (i : Input) {ph : Physical}
    (h : ((r.clearPending i).sealTurn i).physical = some ph) : r.physical = some ph ∨ ph = {} := by
  unfold sealTurn clearPending at h
  split at h
  · split at h <;> cases hp : r.physical <;> simp_all
  · split at h <;> exact .inl h

/-- The physical matcher keeps to the journal, and only a provider effect moves it. -/
def PhysicalOnly (r0 : Replay) (i : Input) (r1 : Replay) : Prop :=
  ∃ ph, r1 = { r0 with physical := ph } ∧ ((∃ u, i.kind = .turnEnd u) → ph = r0.physical) ∧
    ∀ es, (∀ p, r0.physical = some p → ScopesOk es p) → ∀ p, ph = some p → ScopesOk (es ++ [i]) p

theorem observePhysical_ok (r0 : Replay) : Ensures (r0.observePhysical H i) (r0.PhysicalOnly i) := by
  have hkeep : r0.PhysicalOnly i r0 := ⟨r0.physical, rfl, fun _ => rfl, fun es hes p hp => (hes p hp).mono i⟩
  have hmoved : ∀ ph', (∀ u, i.kind ≠ .turnEnd u) →
      (∀ es, (∀ p, r0.physical = some p → ScopesOk es p) → ScopesOk (es ++ [i]) ph') →
      r0.PhysicalOnly i { r0 with physical := some ph' } := by
    intro ph' hne hscopes
    refine ⟨some ph', rfl, fun hend => ?_, fun es hes p hp => Option.some.inj hp ▸ hscopes es hes⟩
    obtain ⟨u, hu⟩ := hend
    cases hne u hu
  unfold observePhysical
  split
  · exact .pure hkeep
  · rename_i ph hph
    have hclose : ∀ id acc u, (∀ u, i.kind ≠ .turnEnd u) →
        Ensures (ph.closeAttempt H i.scope id acc u >>= fun ph' => pure { r0 with physical := some ph' }) (r0.PhysicalOnly i) :=
      fun id acc u hne => .bind fun ph' hc => .pure (hmoved ph' hne fun es hes => (hes ph hph).closeAttempt hc)
    split
    · rename_i id tool stamp attempt hk
      split
      · rename_i htool
        have hs : i.isSealed = true := by simp [Input.isSealed, hk, htool]
        exact .bind fun ph' ho => .pure (hmoved ph' (by simp [hk]) fun es hes => (hes ph hph).openAttempt hs ho)
      · exact .pure hkeep
    · rename_i id tool acc hk
      split
      · exact hclose id acc _ (by simp [hk])
      · exact .pure hkeep
    · rename_i id tool acc hk
      split
      · exact hclose id acc _ (by simp [hk])
      · exact .pure hkeep
    · rename_i id tool acc hk
      split
      · exact hclose id acc _ (by simp [hk])
      · exact .pure hkeep
    · exact .pure hkeep

/-- **An accepted event**: the matchers are prepared, the physical one in step with the journal, and then the event's
own case is one of the six. -/
theorem observe_ok (h : r.observe H (some port) i = .ok r') : ∃ ph, ((∃ u, i.kind = .turnEnd u) → ph = r.physical) ∧
      (∀ es, (∀ p, r.physical = some p → ScopesOk es p) → ∀ p, ph = some p → ScopesOk (es ++ [i]) p) ∧
      KindStep H port (r.prepared i ph) i r' := by
  simp only [observe, bind_eq_ok] at h
  obtain ⟨_, hp, hk⟩ := h
  obtain ⟨ph, rfl, hend, hscopes⟩ := observePhysical_ok _ _ hp
  refine ⟨ph, fun hu => ?_, fun es hes p hp => hscopes es (fun q hq => ?_) p hp, observeKind_ok hk⟩
  · rw [hend hu]
    obtain ⟨u, hu⟩ := hu
    simp [sealTurn, clearPending, Input.isSealed, Input.isProjection, hu]
  · rcases physical_sealTurn r i hq with hq | rfl
    · exact hes q hq
    · exact fun q hq => absurd hq List.not_mem_nil

/-! ## Open turns and bindings -/

end Replay

def Starts (j : Input) (s : Scope) : Prop := j.kind = .turnStart ∧ j.scope = s

def Closes (j : Input) (s : Scope) : Prop :=
  ((∃ usage, j.kind = .turnEnd usage) ∧ j.scope = s) ∨
    (j.isSealed = true ∧ j.tenant = s.1 ∧ j.run = s.2.1 ∧ s.2.2 < j.turn)

namespace Replay

def opening (r : Replay) (o : OpenProviderTurn) : Prop :=
  o.route = r.selectedRoute ∧ o.rateCardDigest = r.activeRateCard ∧ o.bindingEpoch = r.bindingEpoch

theorem prepared_open (r : Replay) (i : Input) (ph : Option Physical) {q : Scope × OpenProviderTurn} :
    q ∈ (r.prepared i ph).openProviderTurns ↔ q ∈ r.openProviderTurns ∧
      ¬ (i.isSealed = true ∧ i.tenant = q.1.1 ∧ i.run = q.1.2.1 ∧ q.1.2.2 < i.turn) := by
  unfold prepared sealTurn clearPending
  split <;> rename_i hs
  · split <;>
      · simp only [List.mem_filter, hs, true_and, not_and, not_lt, Bool.or_eq_true, decide_eq_true_eq]
        refine and_congr_right fun _ => ?_
        constructor
        · rintro ((h | h) | h) ht hr
          · cases h ht.symm
          · cases h hr.symm
          · exact h
        · intro h
          by_cases ht : i.tenant = q.1.1
          · by_cases hr : i.run = q.1.2.1
            · exact .inr (h ht hr)
            · exact .inl (.inr (Ne.symm hr))
          · exact .inl (.inl (Ne.symm ht))
  · split <;> simp [hs]

variable {r1 : Replay}

theorem KindStep.open_eq (h : KindStep H port r1 i r') (hstart : i.kind ≠ .turnStart) (hend : ∀ u, i.kind ≠ .turnEnd u)
    : r'.openProviderTurns = r1.openProviderTurns := by
  cases h with
  | start hk heq => cases hstart hk
  | finish u hk heq => cases hend u hk
  | select _ hk heq => rw [heq]; rfl
  | bind c hk hbound => rcases hbound with rfl | ⟨-, -, -, rfl⟩ <;> rfl
  | project p hk _ hp =>
    cases hp with
    | legacy _ _ heq => rw [heq]
    | logical _ _ _ _ _ _ _ _ heq _ => rw [heq]; rfl
    | physical _ _ _ _ _ _ _ _ heq => rw [heq]; rfl
  | aside hk ha =>
    obtain ⟨-, -, l, _, _, _, rfl⟩ := ha
    rfl

theorem KindStep.of_start (h : KindStep H port r1 i r') (hk : i.kind = .turnStart) : r' = r1.startTurn i.scope := by
  cases h with
  | start _ heq => exact heq
  | finish u hk' _ => cases hk.symm.trans hk'
  | select _ hk' _ => cases hk.symm.trans hk'
  | bind c hk' _ => cases hk.symm.trans hk'
  | project p hk' _ _ => cases hk.symm.trans hk'
  | aside hk' _ => simp [Input.isAside, hk] at hk'

variable {u : Usage}

theorem KindStep.of_end (h : KindStep H port r1 i r') (hk : i.kind = .turnEnd u) : r' = r1.endTurn i.scope u := by
  cases h with
  | start hk' _ => cases hk.symm.trans hk'
  | finish _ hk' heq =>
    obtain rfl := EventKind.turnEnd.inj (hk.symm.trans hk')
    exact heq
  | select _ hk' _ => cases hk.symm.trans hk'
  | bind c hk' _ => cases hk.symm.trans hk'
  | project p hk' _ _ => cases hk.symm.trans hk'
  | aside hk' _ => simp [Input.isAside, hk] at hk'

theorem not_sealed_of_start (hk : i.kind = .turnStart) : i.isSealed = false := by simp [Input.isSealed, hk]

theorem not_sealed_of_end (hk : i.kind = .turnEnd u) : i.isSealed = false := by simp [Input.isSealed, hk]

theorem not_isSome_get {s : Scope} {os : List (Scope × OpenProviderTurn)} (h : ¬ (get os s).isSome = true) :
    get os s = none := by
  simpa using h

/-- **The openings after an event**: those it does not close, and its own start when none is open. -/
theorem open_step (h : r.observe H (some port) i = .ok r') :
    (∀ q ∈ r'.openProviderTurns, (q ∈ r.openProviderTurns ∧ ¬ Closes i q.1) ∨
        (Starts i q.1 ∧ get r.openProviderTurns q.1 = none ∧ r.opening q.2)) ∧
      (∀ q ∈ r.openProviderTurns, ¬ Closes i q.1 → q ∈ r'.openProviderTurns) ∧
      ∀ s, Starts i s → ∃ o, (s, o) ∈ r'.openProviderTurns := by
  obtain ⟨ph, -, -, hk⟩ := observe_ok h
  have hprep := fun q => r.prepared_open i ph (q := q)
  by_cases hstart : i.kind = .turnStart
  · have hnot : ∀ s, ¬ Closes i s := by
      rintro s (⟨⟨u, hu⟩, -⟩ | ⟨hs, -⟩)
      · cases hstart.symm.trans hu
      · simp [not_sealed_of_start hstart] at hs
    have hlist : (r.prepared i ph).openProviderTurns = r.openProviderTurns := by
      simp [prepared, sealTurn, clearPending, not_sealed_of_start hstart, Input.isProjection, hstart]
    have hfields : (r.prepared i ph).selectedRoute = r.selectedRoute ∧
        (r.prepared i ph).activeRateCard = r.activeRateCard ∧ (r.prepared i ph).bindingEpoch = r.bindingEpoch := by
      simp [prepared, sealTurn, clearPending, not_sealed_of_start hstart, Input.isProjection, hstart]
    rw [hk.of_start hstart]
    simp only [startTurn, hlist]
    split
    · rename_i hsome
      refine ⟨fun q hq => .inl ⟨hq, hnot _⟩, fun q hq _ => hq, ?_⟩
      rintro s ⟨-, rfl⟩
      obtain ⟨o, ho⟩ := Option.isSome_iff_exists.1 hsome
      exact ⟨o, mem_of_get ho⟩
    · rename_i hnone
      refine ⟨fun q hq => ?_, fun q hq _ => ?_, ?_⟩
      · rcases mem_put hq with rfl | ⟨hq, -⟩
        · exact .inr ⟨⟨hstart, rfl⟩, not_isSome_get hnone, hfields⟩
        · exact .inl ⟨hq, hnot _⟩
      · refine List.mem_cons_of_mem _ (List.mem_filter.2 ⟨hq, ?_⟩)
        simpa using get_eq_none (not_isSome_get hnone) q hq
      · rintro s ⟨-, rfl⟩
        exact ⟨_, .head _⟩
  · have hns : ∀ s, ¬ Starts i s := fun s hs => hstart hs.1
    by_cases hend : ∃ u, i.kind = .turnEnd u
    · obtain ⟨u, hu⟩ := hend
      have hiff : ∀ s, Closes i s ↔ i.scope = s := by
        intro s
        constructor
        · rintro (⟨-, hs⟩ | ⟨hs, -⟩)
          · exact hs
          · simp [not_sealed_of_end hu] at hs
        · exact fun hs => .inl ⟨⟨u, hu⟩, hs⟩
      have hlist : (r.prepared i ph).openProviderTurns = r.openProviderTurns := by
        simp [prepared, sealTurn, clearPending, not_sealed_of_end hu, Input.isProjection, hu]
      rw [hk.of_end hu]
      simp only [endTurn, hlist, hiff]
      refine ⟨fun q hq => .inl ⟨(mem_drop hq).1, fun h => (mem_drop hq).2 h.symm⟩, fun q hq hne => ?_, ?_⟩
      · exact List.mem_filter.2 ⟨hq, by simpa using Ne.symm hne⟩
      · exact fun s hs => absurd hs (hns s)
    · have hlist := hk.open_eq hstart (fun u hu => hend ⟨u, hu⟩)
      rw [hlist]
      refine ⟨fun q hq => ?_, fun q hq hne => ?_, fun s hs => absurd hs (hns s)⟩
      · obtain ⟨hq, hseal⟩ := (hprep q).1 hq
        exact .inl ⟨hq, fun hc => hc.elim (fun h => hend h.1) hseal⟩
      · exact (hprep q).2 ⟨hq, fun hs => hne (.inr hs)⟩

end Replay

end Iteron.Cost
