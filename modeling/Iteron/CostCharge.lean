import Iteron.CostRun
/-!
# CostCharge — what an event does to each part of the replay

The bindings, the pending match, the open scopes, what is consumed, which children are terminal, and what a projection
that moves the ledger's money was matched with.
-/
namespace Iteron.Cost

open Machine (saturatingAdd u64Max)
open Refuse (refuseIf bind_eq_ok pure_eq_ok)

variable {H : Hashes} {port : Port} {r r' : Replay} {i : Input} {l : Ledger} {es : List Input}

namespace Replay

theorem prepared_bindings (r : Replay) (i : Input) (ph : Option Physical) :
    (r.prepared i ph).selectedRoute = r.selectedRoute ∧ (r.prepared i ph).boundRateCards = r.boundRateCards ∧
      (r.prepared i ph).activeRateCard = r.activeRateCard ∧ (r.prepared i ph).bindingEpoch = r.bindingEpoch := by
  unfold prepared sealTurn clearPending
  split <;> split <;> exact ⟨rfl, rfl, rfl, rfl⟩

theorem prepared_history (r : Replay) (i : Input) (ph : Option Physical) :
    (r.prepared i ph).consumedProjectionIdentities = r.consumedProjectionIdentities ∧
      (r.prepared i ph).consumedProjectionDigests = r.consumedProjectionDigests ∧
      (r.prepared i ph).terminalSubRuns = r.terminalSubRuns ∧ (r.prepared i ph).workflowTasks = r.workflowTasks ∧
      (r.prepared i ph).ledger = r.ledger := by
  unfold prepared sealTurn clearPending
  split <;> split <;> exact ⟨rfl, rfl, rfl, rfl, rfl⟩

def SameBinding (r r' : Replay) : Prop :=
  r'.selectedRoute = r.selectedRoute ∧ r'.boundRateCards = r.boundRateCards ∧ r'.activeRateCard = r.activeRateCard ∧
    r'.bindingEpoch = r.bindingEpoch

theorem binding_step (h : r.observe H (some port) i = .ok r') :
    (i.isBinding = false ∧ (∀ route, i.kind ≠ .modelSelected route) ∧ SameBinding r r') ∨
      (∃ route, i.kind = .modelSelected route ∧ r'.selectedRoute = some route ∧ r'.boundRateCards = r.boundRateCards ∧
        r'.activeRateCard = none ∧ r'.bindingEpoch = saturatingAdd r.bindingEpoch 1) ∨
      ∃ c, i.kind = .rateCardBound c ∧ r'.selectedRoute = r.selectedRoute ∧ r'.bindingEpoch = saturatingAdd r.bindingEpoch 1 ∧
        ((r'.activeRateCard = none ∧ r'.boundRateCards = r.boundRateCards) ∨
          (r.selectedRoute = some c.rateCard.route ∧ port.verifyRateCard c = .ok () ∧
            H.rateCard c.rateCard = c.rateCardDigest ∧ r'.boundRateCards = put r.boundRateCards c.rateCardDigest c ∧
            r'.activeRateCard = some c.rateCardDigest)) := by
  obtain ⟨ph, -, -, hk⟩ := observe_ok h
  obtain ⟨hroute, hcards, hactive, hepoch⟩ := r.prepared_bindings i ph
  have hsame : ∀ r2 : Replay, SameBinding (r.prepared i ph) r2 → SameBinding r r2 := by
    rintro r2 ⟨h1, h2, h3, h4⟩
    exact ⟨h1.trans hroute, h2.trans hcards, h3.trans hactive, h4.trans hepoch⟩
  cases hk with
  | start hk heq =>
    refine .inl ⟨by simp [Input.isBinding, hk], by simp [hk], hsame r' ?_⟩
    rw [heq]
    exact ⟨rfl, rfl, rfl, rfl⟩
  | finish u hk heq =>
    refine .inl ⟨by simp [Input.isBinding, hk], by simp [hk], hsame r' ?_⟩
    rw [heq]
    exact ⟨rfl, rfl, rfl, rfl⟩
  | select route hk heq =>
    refine .inr (.inl ⟨route, hk, ?_⟩)
    rw [heq, ← hcards, ← hepoch]
    exact ⟨rfl, rfl, rfl, rfl⟩
  | bind c hk hbound =>
    refine .inr (.inr ⟨c, hk, ?_⟩)
    rw [← hroute, ← hcards, ← hepoch]
    rcases hbound with rfl | ⟨hr, hv, hd, rfl⟩
    · exact ⟨rfl, rfl, .inl ⟨rfl, rfl⟩⟩
    · exact ⟨rfl, rfl, .inr ⟨hr, hv, hd, rfl, rfl⟩⟩
  | project p hk _ hp =>
    refine .inl ⟨by simp [Input.isBinding, hk], by simp [hk], hsame r' ?_⟩
    cases hp with
    | legacy _ _ heq => rw [heq]; exact ⟨rfl, rfl, rfl, rfl⟩
    | logical _ _ _ _ _ _ _ _ heq _ => rw [heq]; exact ⟨rfl, rfl, rfl, rfl⟩
    | physical _ _ _ _ _ _ _ _ heq => rw [heq]; exact ⟨rfl, rfl, rfl, rfl⟩
  | aside hk ha =>
    obtain ⟨-, -, l, _, _, _, rfl⟩ := ha
    have hnb : i.isBinding = false := by
      cases hkind : i.kind <;> simp_all [Input.isAside, Input.isBinding]
    refine .inl ⟨hnb, fun route hm => ?_, hsame _ ⟨rfl, rfl, rfl, rfl⟩⟩
    simp [Input.isBinding, hm] at hnb

theorem prepared_pending (r : Replay) (i : Input) (ph : Option Physical) :
    ((r.prepared i ph).pendingTurn = if i.isProjection then r.pendingTurn else none) ∧
      (r.prepared i ph).pendingPhysical = if i.isProjection then r.pendingPhysical else none := by
  unfold prepared sealTurn clearPending
  split <;> split <;> simp_all

theorem not_projection_of_aside (h : i.isAside = true) : i.isProjection = false := by
  cases hkind : i.kind <;> simp_all [Input.isAside, Input.isProjection]

theorem KindStep.nothing_pending {ph : Option Physical} (h : KindStep H port (r.prepared i ph) i r')
    (hend : ∀ u, i.kind ≠ .turnEnd u) : r'.pendingTurn = none ∧ r'.pendingPhysical = none := by
  obtain ⟨hturn, hphys⟩ := r.prepared_pending i ph
  cases h with
  | finish u hk _ => cases hend u hk
  | start hk heq =>
    have hn : i.isProjection = false := by simp [Input.isProjection, hk]
    rw [hn] at hturn hphys
    rw [heq]
    exact ⟨hturn, hphys⟩
  | select _ hk heq =>
    have hn : i.isProjection = false := by simp [Input.isProjection, hk]
    rw [hn] at hturn hphys
    rw [heq]
    exact ⟨hturn, hphys⟩
  | bind c hk hbound =>
    have hn : i.isProjection = false := by simp [Input.isProjection, hk]
    rw [hn] at hturn hphys
    rcases hbound with rfl | ⟨-, -, -, rfl⟩ <;> exact ⟨hturn, hphys⟩
  | project p hk _ hp =>
    cases hp with
    | legacy _ hnone heq => rw [heq]; exact ⟨rfl, hnone⟩
    | logical _ _ _ hnone _ _ _ _ heq _ => rw [heq]; exact ⟨rfl, hnone⟩
    | physical _ _ _ _ _ _ _ _ heq => rw [heq]; exact ⟨rfl, rfl⟩
  | aside hk ha =>
    obtain ⟨-, -, l, _, _, _, rfl⟩ := ha
    rw [not_projection_of_aside hk] at hturn hphys
    exact ⟨hturn, hphys⟩

section

variable (h : r.observe H (some port) i = .ok r')
include h

/-- **What a pending match stands for**: the event before ended a turn whose start is open; the logical match is under
the current binding, the physical one holds what the scope knows. -/
theorem pending_step : (∀ p, r'.pendingTurn = some p → i.kind = .turnEnd p.usage ∧ ∃ o, (i.scope, o) ∈ r.openProviderTurns ∧
      o.bindingEpoch = r.bindingEpoch ∧ p.rateCardDigest = o.rateCardDigest ∧
      (p.identity.tenantId, p.identity.runId, p.identity.turnId) = i.scope) ∧
    ∀ proof, r'.pendingPhysical = some proof → i.kind = .turnEnd proof.usage ∧ (∃ o, (i.scope, o) ∈ r.openProviderTurns) ∧
      ∃ ph, r.physical = some ph ∧ ∀ k ∈ proof.candidates, ∃ sc, (i.scope, sc) ∈ ph.scopes ∧ k ∈ sc.known := by
  obtain ⟨ph, hph, -, hk⟩ := observe_ok h
  by_cases hend : ∃ u, i.kind = .turnEnd u
  · obtain ⟨u, hu⟩ := hend
    have hopen : (r.prepared i ph).openProviderTurns = r.openProviderTurns := by
      simp [prepared, sealTurn, clearPending, not_sealed_of_end hu, Input.isProjection, hu]
    have hphys : (r.prepared i ph).physical = r.physical := hph ⟨u, hu⟩
    have hepoch := (r.prepared_bindings i ph).2.2.2
    rw [hk.of_end hu]
    simp only [endTurn, hopen, hphys]
    refine ⟨fun p hp => ?_, fun proof hproof => ?_⟩
    · obtain ⟨o, ho, hmatch⟩ := Option.bind_eq_some_iff.1 hp
      unfold logicalMatch at hmatch
      split at hmatch
      · rename_i heq
        obtain ⟨_, -, rfl⟩ := Option.map_eq_some_iff.1 hmatch
        exact ⟨hu, o, mem_of_get ho, heq.trans hepoch, rfl, rfl⟩
      · cases hmatch
    · obtain ⟨o, ho, hfin⟩ := Option.bind_eq_some_iff.1 hproof
      obtain ⟨f, hf, hsnd⟩ := Option.bind_eq_some_iff.1 hfin
      obtain ⟨ph0, hph0, rfl⟩ := Option.map_eq_some_iff.1 hf
      obtain ⟨husage, hcand⟩ := Physical.finish_ok hsnd
      exact ⟨husage ▸ hu, ⟨o, mem_of_get ho⟩, ph0, hph0, hcand⟩
  · obtain ⟨hturn, hphys⟩ := hk.nothing_pending (fun u hu => hend ⟨u, hu⟩)
    rw [hturn, hphys]
    exact ⟨by simp, by simp⟩

theorem scopes_step (hes : ∀ p, r.physical = some p → ScopesOk es p) :
    ∀ p, r'.physical = some p → ScopesOk (es ++ [i]) p := by
  obtain ⟨_, -, hscopes, hk⟩ := observe_ok h
  have hph := hscopes es hes
  cases hk with
  | start hk heq => rw [heq]; exact hph
  | finish u hk heq =>
    rw [heq]
    intro p hp
    obtain ⟨f, hf, rfl⟩ := Option.map_eq_some_iff.1 hp
    obtain ⟨ph0, hph0, rfl⟩ := Option.map_eq_some_iff.1 hf
    exact fun q hq => hph ph0 hph0 q (Physical.finish_scopes ph0 _ _ q hq)
  | select _ hk heq => rw [heq]; exact hph
  | bind c hk hbound => rcases hbound with rfl | ⟨-, -, -, rfl⟩ <;> exact hph
  | project p hk _ hp =>
    cases hp with
    | legacy _ _ heq => rw [heq]; exact hph
    | logical _ _ _ _ _ _ _ _ heq _ => rw [heq]; exact hph
    | physical _ _ _ _ _ _ _ _ heq => rw [heq]; exact hph
  | aside hk ha =>
    obtain ⟨-, -, l, _, _, _, rfl⟩ := ha
    exact hph

theorem consumed_step : r.consumedProjectionIdentities ⊆ r'.consumedProjectionIdentities ∧
      r.consumedProjectionDigests ⊆ r'.consumedProjectionDigests := by
  obtain ⟨ph, -, -, hk⟩ := observe_ok h
  obtain ⟨hids, hdigests, -⟩ := r.prepared_history i ph
  rw [← hids, ← hdigests]
  cases hk with
  | start hk heq => rw [heq]; exact ⟨List.Subset.refl _, List.Subset.refl _⟩
  | finish u hk heq => rw [heq]; exact ⟨List.Subset.refl _, List.Subset.refl _⟩
  | select _ hk heq => rw [heq]; exact ⟨List.Subset.refl _, List.Subset.refl _⟩
  | bind c hk hbound =>
    rcases hbound with rfl | ⟨-, -, -, rfl⟩ <;> exact ⟨List.Subset.refl _, List.Subset.refl _⟩
  | project p hk _ hp =>
    cases hp with
    | legacy _ _ heq => rw [heq]; exact ⟨List.Subset.refl _, List.Subset.refl _⟩
    | logical _ _ _ _ _ _ _ _ heq _ => rw [heq]; exact ⟨List.subset_cons_self _ _, List.subset_cons_self _ _⟩
    | physical _ _ _ _ _ _ _ _ heq => rw [heq]; exact ⟨List.subset_cons_self _ _, List.subset_cons_self _ _⟩
  | aside hk ha =>
    obtain ⟨-, -, l, _, _, _, rfl⟩ := ha
    exact ⟨List.Subset.refl _, List.Subset.refl _⟩

theorem terminal_step : (∀ s, i.subRunOf = some s → s ∉ r.terminalSubRuns) ∧ (∀ k, i.taskOf = some k → k ∉ r.workflowTasks) ∧
      r'.terminalSubRuns = i.subRunOf.toList ++ r.terminalSubRuns ∧
      r'.workflowTasks = i.taskOf.toList ++ r.workflowTasks := by
  obtain ⟨ph, -, -, hk⟩ := observe_ok h
  obtain ⟨-, -, hruns, htasks, -⟩ := r.prepared_history i ph
  rw [← hruns, ← htasks]
  have hnone : ∀ r2 : Replay, i.subRunOf = none → i.taskOf = none →
      r2.terminalSubRuns = (r.prepared i ph).terminalSubRuns → r2.workflowTasks = (r.prepared i ph).workflowTasks →
      (∀ s, i.subRunOf = some s → s ∉ (r.prepared i ph).terminalSubRuns) ∧
        (∀ k, i.taskOf = some k → k ∉ (r.prepared i ph).workflowTasks) ∧
        r2.terminalSubRuns = i.subRunOf.toList ++ (r.prepared i ph).terminalSubRuns ∧
        r2.workflowTasks = i.taskOf.toList ++ (r.prepared i ph).workflowTasks := by
    intro r2 hs ht h1 h2
    rw [hs, ht, h1, h2]
    exact ⟨nofun, nofun, rfl, rfl⟩
  cases hk with
  | start hk heq =>
    exact hnone r' (by simp [Input.subRunOf, hk]) (by simp [Input.taskOf, hk]) (by rw [heq]; rfl) (by rw [heq]; rfl)
  | finish u hk heq =>
    exact hnone r' (by simp [Input.subRunOf, hk]) (by simp [Input.taskOf, hk]) (by rw [heq]; rfl) (by rw [heq]; rfl)
  | select _ hk heq =>
    exact hnone r' (by simp [Input.subRunOf, hk]) (by simp [Input.taskOf, hk]) (by rw [heq]; rfl) (by rw [heq]; rfl)
  | bind c hk hbound =>
    rcases hbound with rfl | ⟨-, -, -, rfl⟩ <;>
      exact hnone _ (by simp [Input.subRunOf, hk]) (by simp [Input.taskOf, hk]) rfl rfl
  | project p hk _ hp =>
    refine hnone r' (by simp [Input.subRunOf, hk]) (by simp [Input.taskOf, hk]) ?_ ?_
    · cases hp with
      | legacy _ _ heq => rw [heq]
      | logical _ _ _ _ _ _ _ _ heq _ => rw [heq]; rfl
      | physical _ _ _ _ _ _ _ _ heq => rw [heq]; rfl
    · cases hp with
      | legacy _ _ heq => rw [heq]
      | logical _ _ _ _ _ _ _ _ heq _ => rw [heq]; rfl
      | physical _ _ _ _ _ _ _ _ heq => rw [heq]; rfl
  | aside hk ha =>
    obtain ⟨hs, ht, l, _, _, _, rfl⟩ := ha
    exact ⟨hs, ht, rfl, rfl⟩

end

end Replay

def Ledger.money (l : Ledger) : Nat × Bool × Nat := (l.amountMicrousd, l.amountOverflowed, l.pricedTurns)

namespace Replay

def Matched (port : Port) (r : Replay) (p : CostProjection) : Prop :=
  (∃ pending, r.pendingTurn = some pending ∧ pending.usage = p.usage ∧
      Names (pending.identity.tenantId, pending.identity.runId, pending.identity.turnId) p ∧
      pending.rateCardDigest = some p.rateCardDigest ∧
      ∃ card, get r.boundRateCards p.rateCardDigest = some card ∧ port.verifyProjection card p = .ok ()) ∨
    ∃ proof bound, r.pendingPhysical = some proof ∧ (p, bound) ∈ proof.candidates ∧ proof.usage = p.usage

/-- **A projection that moves the ledger's money** is new, is consumed and was matched. -/
theorem charge_step {p : CostProjection} (h : r.observe H (some port) i = .ok r') (hk : i.kind = .costProjected p)
    (hm : r'.ledger.money ≠ r.ledger.money) :
    Unused r p ∧ Matched port r p ∧ p.projectionDigest ∈ r'.consumedProjectionDigests ∧
      ∃ identity, p.identity = some identity ∧ identity ∈ r'.consumedProjectionIdentities := by
  obtain ⟨ph, -, -, hkind⟩ := observe_ok h
  have hproj : i.isProjection = true := by simp [Input.isProjection, hk]
  obtain ⟨hturn, hphys⟩ := r.prepared_pending i ph
  rw [hproj, if_pos rfl] at hturn hphys
  have hcards := (r.prepared_bindings i ph).2.1
  obtain ⟨hids, hdigests, -, -, hledger⟩ := r.prepared_history i ph
  cases hkind with
  | start hk' _ => cases hk.symm.trans hk'
  | finish u hk' _ => cases hk.symm.trans hk'
  | select _ hk' _ => cases hk.symm.trans hk'
  | bind c hk' _ => cases hk.symm.trans hk'
  | aside hk' _ => simp [Input.isAside, hk] at hk'
  | project _ hk' hu hp =>
    obtain rfl := EventKind.costProjected.inj (hk.symm.trans hk')
    have hunused : Unused r p := ⟨fun identity hi => hids ▸ hu.1 identity hi, hdigests ▸ hu.2⟩
    cases hp with
    | legacy _ _ heq =>
      rw [heq] at hm
      exact absurd (congrArg Ledger.money hledger) hm
    | logical pending identity l' _ hpending husage hid hscope heq hcard =>
      refine ⟨hunused, .inl ⟨pending, hturn.symm.trans hpending, husage, ⟨identity, hid, hscope⟩, ?_⟩, ?_, identity, hid, ?_⟩
      · rcases hcard with rfl | ⟨hdigest, card, hget, hverify⟩
        · rw [heq] at hm
          cases hm (congrArg Ledger.money hledger)
        · exact ⟨hdigest, card, hcards ▸ hget, hverify⟩
      · rw [heq]
        exact .head _
      · rw [heq]
        exact .head _
    | physical proof bound identity l' hproof hmem husage hid heq =>
      refine ⟨hunused, .inr ⟨proof, bound, hphys.symm.trans hproof, hmem, husage⟩, ?_, identity, hid, ?_⟩
      · rw [heq]
        exact .head _
      · rw [heq]
        exact .head _

end Replay

end Iteron.Cost
