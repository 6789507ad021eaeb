import Iteron.AgentFinish
import Iteron.AgentLeases
/-!
# AgentRefusals — a snapshot with bounded receipts is never refused for its budget

Most checks of a snapshot have errors of their own.  Those that add amounts answer with the budget error when a sum
overflows; with bounded reservations and budgets, and at most as many receipts and agents as a snapshot may have, none
does (`validate_ne_budget`).
-/
namespace Iteron.Agents

open Machine Refuse

/-! ## Checks with other errors -/

variable {α : Type}

@[simp] theorem liftInvalid_budget {x : Except String α} : liftInvalid x = .error .budget ↔ False := by
  cases x <;> simp [liftInvalid]

variable {f : α → Except ControllerError Unit}

theorem validateOption_eq_error {x : Option α} {e : ControllerError} :
    validateOption x f = .error e ↔ ∃ a, x = some a ∧ f a = .error e := by
  cases x <;> simp [validateOption]

theorem forM_budget {l : List α} (h : ∀ a, f a = .error .budget ↔ False) : forM l f = .error .budget ↔ False :=
  iff_false_intro (forM_ne_error (fun a _ => (h a).1))

@[simp] theorem AgentControllerConfig.validate_budget (c : AgentControllerConfig) :
    c.validate = .error .budget ↔ False := by
  simp [AgentControllerConfig.validate, bind_eq_error, refuseIf_eq_error]

variable {H : Hashes}

@[simp] theorem AgentEngineParentSource.validate_budget (p : AgentEngineParentSource) :
    p.validate H = .error .budget ↔ False := by
  simp [AgentEngineParentSource.validate, bind_eq_error, refuseIf_eq_error]

@[simp] theorem AgentEngineOrigin.validate_budget (o : AgentEngineOrigin) : o.validate H = .error .budget ↔ False := by
  cases o <;> simp [AgentEngineOrigin.validate, bind_eq_error, refuseIf_eq_error]

@[simp] theorem AgentEngineExecution.validate_budget (x : AgentEngineExecution) :
    x.validate H = .error .budget ↔ False := by
  simp [AgentEngineExecution.validate, bind_eq_error, refuseIf_eq_error, validateOption_eq_error]

@[simp] theorem AgentProviderBudgetRequest.validate_budget (r : AgentProviderBudgetRequest) :
    r.validate = .error .budget ↔ False := by
  simp [AgentProviderBudgetRequest.validate, bind_eq_error, refuseIf_eq_error, validateOption_eq_error]

@[simp] theorem AgentWorkflowClaim.validate_budget (c : AgentWorkflowClaim) : c.validate H = .error .budget ↔ False := by
  simp [AgentWorkflowClaim.validate, bind_eq_error, refuseIf_eq_error, validateOption_eq_error]

@[simp] theorem AgentMailbox.validateMessage_budget (ids : List AgentId) (id : MessageId) (m : AgentMailboxMessage) :
    AgentMailbox.validateMessage H ids id m = .error .budget ↔ False := by
  cases ht : m.text <;> simp [AgentMailbox.validateMessage, ht, bind_eq_error, refuseIf_eq_error]

@[simp] theorem AgentMailbox.validate_budget (m : AgentMailbox) (ids : List AgentId) (n : Nat) :
    m.validate H ids n = .error .budget ↔ False := by
  simp [AgentMailbox.validate, bind_eq_error, refuseIf_eq_error, forM_budget]

namespace AgentControllerSnapshot

variable {s : AgentControllerSnapshot}

@[simp] theorem providerBudgetBaseline_budget (scope : String) :
    s.providerBudgetBaseline scope = .error .budget ↔ False := by
  unfold providerBudgetBaseline
  split
  · simp
  · split <;> simp

@[simp] theorem validateBinding_budget (scopes : List String) (p : AgentId × Binding) :
    s.validateBinding scopes p = .error .budget ↔ False := by
  simp only [validateBinding, bind_eq_error, refuseIf_eq_error, validateOption_eq_error]
  simp [pure_ne_error]

@[simp] theorem validateCohort_budget : s.validateCohort H = .error .budget ↔ False := by
  cases ho : s.cohortBindings.origin <;>
    simp [validateCohort, ho, bind_eq_error, refuseIf_eq_error, forM_budget]

@[simp] theorem validateWitness_budget : s.validateWitness = .error .budget ↔ False := by
  simp [validateWitness, validateOption_eq_error, AgentWorkspaceWitness.validate, bind_eq_error, refuseIf_eq_error]

@[simp] theorem validateClaim_budget (key : String) (r : WorkflowReceipt) :
    s.validateClaim H key r = .error .budget ↔ False := by
  cases hc : r.completion <;>
    simp [validateClaim, hc, bind_eq_error, refuseIf_eq_error, validateOption_eq_error, orElseError_eq_error]

@[simp] theorem validateClaims_budget : s.validateClaims H = .error .budget ↔ False := by
  simp [validateClaims, bind_eq_error, refuseIf_eq_error, forM_budget]

@[simp] theorem validateIdentity_budget (id : AgentId) (r : AgentRecord) :
    s.validateIdentity id r = .error .budget ↔ False := by
  simp [validateIdentity, bind_eq_error, refuseIf_eq_error]

@[simp] theorem validateRoot_budget (id : AgentId) (r : AgentRecord) : s.validateRoot id r = .error .budget ↔ False := by
  simp [validateRoot, bind_eq_error, refuseIf_eq_error]

@[simp] theorem validateNativeExecution_budget (r : AgentRecord) :
    s.validateNativeExecution H r = .error .budget ↔ False := by
  simp [validateNativeExecution, validateOption_eq_error, bind_eq_error, refuseIf_eq_error]

@[simp] theorem validateAncestry_budget : ∀ (fuel : Nat) (id : AgentId), s.validateAncestry fuel id = .error .budget ↔ False
  | 0, id => by simp [validateAncestry]
  | fuel + 1, id => by
    have hrest := validateAncestry_budget fuel
    simp only [validateAncestry, bind_eq_error, orElseError_eq_error, orElseError_eq_ok, reduceCtorEq, and_false, false_or,
      iff_false, not_exists, not_and]
    intro r _
    cases hp : r.view.parentId with
    | none => exact pure_ne_error
    | some _ => simp [bind_eq_error, refuseIf_eq_error, orElseError_eq_error, hrest]

@[simp] theorem validateRuntime_budget (id : AgentId) (r : AgentRecord) :
    s.validateRuntime id r = .error .budget ↔ False := by
  cases he : r.view.state.epoch <;> simp [validateRuntime, he, bind_eq_error, refuseIf_eq_error, orElseError_eq_error]

@[simp] theorem validateRequestReceipt_budget (r : RequestReceipt) :
    s.validateRequestReceipt r = .error .budget ↔ False := by
  simp [validateRequestReceipt, refuseIf_eq_error]

/-! ## Receipts -/

structure Tally.Within (n : Nat) (t : Tally) : Prop where
  groups : t.epochs.size ≤ n
  counts : ∀ g, (t.epochs.getD g (0, 0)).1 ≤ n ∧ (t.epochs.getD g (0, 0)).2 ≤ n
  known : ∀ id, (t.known.getD id (0, 0)).1 ≤ n * maxReservation ∧ (t.known.getD id (0, 0)).2 ≤ n * maxReservation

variable {n : Nat}

theorem getD_insert_le {α : Type} {cmp : α → α → Ordering} [Std.TransCmp cmp] {t : Std.ExtTreeMap α (Nat × Nat) cmp}
    {k : α} {v : Nat × Nat} {m : Nat} (ht : ∀ a, (t.getD a (0, 0)).1 ≤ n ∧ (t.getD a (0, 0)).2 ≤ n) (hn : n ≤ m)
    (hv : v.1 ≤ m ∧ v.2 ≤ m) (a : α) : ((t.insert k v).getD a (0, 0)).1 ≤ m ∧ ((t.insert k v).getD a (0, 0)).2 ≤ m := by
  rw [Std.ExtTreeMap.getD_insert]
  split
  · exact hv
  · exact ⟨(ht a).1.trans hn, (ht a).2.trans hn⟩

variable {t : Tally}

theorem Tally.Within.count_add (hn : n < maxProviderReceipts) (ht : t.Within n)
    (g : AgentId × Option AgentEpoch) (debit : Nat) (hdebit : debit ≤ 1) :
    checkedAdd32 (t.epochs.getD g (0, 0)).1 1 = some ((t.epochs.getD g (0, 0)).1 + 1) ∧
      checkedAdd32 (t.epochs.getD g (0, 0)).2 debit = some ((t.epochs.getD g (0, 0)).2 + debit) := by
  obtain ⟨_, _⟩ := ht.counts g
  simp only [maxProviderReceipts] at hn
  exact ⟨if_pos (by simp only [u32Max]; omega), if_pos (by simp only [u32Max]; omega)⟩

theorem Tally.Within.known_add (hn : n < maxProviderReceipts) (ht : t.Within n) (id : AgentId)
    {tokens cost : Nat} (htokens : tokens ≤ maxReservation) (hcost : cost ≤ maxReservation) :
    checkedAdd (t.known.getD id (0, 0)).1 tokens = some ((t.known.getD id (0, 0)).1 + tokens) ∧
      checkedAdd (t.known.getD id (0, 0)).2 cost = some ((t.known.getD id (0, 0)).2 + cost) := by
  obtain ⟨h1, h2⟩ := ht.known id
  simp only [maxProviderReceipts, maxReservation] at hn h1 h2 htokens hcost
  exact ⟨if_pos (by simp only [u64Max]; omega), if_pos (by simp only [u64Max]; omega)⟩

theorem Tally.Within.counted (ht : t.Within n) (attempt : String × Nat × Nat)
    (g : AgentId × Option AgentEpoch) {count debit : Nat} (hcount : count ≤ n + 1) (hdebit : debit ≤ n + 1) :
    Tally.Within (n + 1) { t with physical := attempt :: t.physical, epochs := t.epochs.insert g (count, debit) } where
  groups := by
    have hsize : (t.epochs.insert g (count, debit)).size ≤ t.epochs.size + 1 := Std.ExtTreeMap.size_insert_le
    exact hsize.trans (Nat.succ_le_succ ht.groups)
  counts := fun a => getD_insert_le ht.counts (Nat.le_succ n) ⟨hcount, hdebit⟩ a
  known := fun id => by
    obtain ⟨h1, h2⟩ := ht.known id
    simp only [maxReservation] at h1 h2 ⊢
    omega

theorem Tally.Within.learned {t0 : Tally} (ht : t.Within (n + 1)) (ht0 : t0.Within n)
    (hsame : t.known = t0.known) (id : AgentId) {tokens cost : Nat} (htokens : tokens ≤ maxReservation)
    (hcost : cost ≤ maxReservation) : let total := t.known.getD id (0, 0)
    Tally.Within (n + 1) { t with known := t.known.insert id (total.1 + tokens, total.2 + cost) } where
  groups := ht.groups
  counts := ht.counts
  known := fun a => by
    rw [hsame]
    obtain ⟨h1, h2⟩ := ht0.known id
    simp only [maxReservation] at htokens hcost h1 h2
    refine getD_insert_le ht0.known (Nat.mul_le_mul_right _ (Nat.le_succ n)) ⟨?_, ?_⟩ a
    · simp only [maxReservation]; omega
    · simp only [maxReservation]; omega

theorem validateReceipt_within {p : String × Receipt} (hn : n < maxProviderReceipts) (hp : Bounded p.2) (ht : t.Within n) :
    s.validateReceipt H t p ≠ .error .budget ∧ ∀ t', s.validateReceipt H t p = .ok t' → t'.Within (n + 1) := by
  have hgroup := ht.counts (p.2.request.agentId, p.2.request.epoch)
  constructor
  · refine bind_ne_error (AgentProviderBudgetRequest.validate_budget _).1 (fun _ _ => ?_)
    refine bind_ne_error (refuseIf_ne_error (by simp)) (fun _ hreceipt => ?_)
    have hdebit : p.2.turnDebit ≤ 1 := by
      simp only [refuseIf_eq_ok, not_or, not_lt] at hreceipt
      exact hreceipt.2.1
    refine bind_ne_error (by simp [orElseError_eq_error]) (fun _ _ => ?_)
    refine bind_ne_error (refuseIf_ne_error (by simp)) (fun _ _ => ?_)
    refine bind_ne_error (refuseIf_ne_error (by simp)) (fun _ _ => ?_)
    obtain ⟨hcount, hdebits⟩ := ht.count_add hn (p.2.request.agentId, p.2.request.epoch) p.2.turnDebit hdebit
    refine bind_ne_error (by simp [orElseError_eq_error, hcount]) (fun _ _ => ?_)
    refine bind_ne_error (by simp [orElseError_eq_error, hdebits]) (fun _ _ => ?_)
    split
    · rename_i tokens cost hterminal
      obtain ⟨htokens, hcost⟩ := hp.known tokens cost hterminal
      obtain ⟨hknown1, hknown2⟩ := ht.known_add hn p.2.request.agentId (htokens.trans hp.tokens) (hcost.trans hp.cost)
      rw [refuseIf_of_not (by omega)]
      dsimp only
      rw [hknown1, hknown2]
      exact fun h => (by cases h)
    · exact pure_ne_error
  · intro t' hok
    simp only [validateReceipt, bind_eq_ok, refuseIf_eq_ok, orElseError_eq_ok] at hok
    obtain ⟨_, -, _, hreceipt, _, -, _, -, _, -, count, hcount, debit, hdebit, hok⟩ := hok
    have hcount := checkedAdd32_eq_some hcount
    have hdebit := checkedAdd32_eq_some hdebit
    have hnext := ht.counted (p.2.request.scopeSha256, p.2.request.turn, p.2.request.route.physicalAttempt)
      (p.2.request.agentId, p.2.request.epoch) (by omega : count ≤ n + 1) (by omega : debit ≤ n + 1)
    split at hok
    · rename_i tokens cost hterminal
      obtain ⟨htokens, hcost⟩ := hp.known tokens cost hterminal
      simp only [bind_eq_ok, pure_eq_ok, orElseError_eq_ok] at hok
      obtain ⟨_, -, _, htokens', _, hcost', rfl⟩ := hok
      rw [checkedAdd_eq_some htokens', checkedAdd_eq_some hcost']
      exact hnext.learned ht rfl p.2.request.agentId (htokens.trans hp.tokens) (hcost.trans hp.cost)
    · rw [pure_eq_ok] at hok
      rw [← hok]
      exact hnext

theorem validateGroup_within {turns : Std.ExtTreeMap AgentId Nat}
    {p : (AgentId × Option AgentEpoch) × (Nat × Nat)} (hn : n < maxProviderReceipts) (hp : p.2.1 ≤ maxProviderReceipts)
    (ht : ∀ id, turns.getD id 0 ≤ n * maxProviderReceipts) : validateGroup turns p ≠ .error .budget ∧
      ∀ turns', validateGroup turns p = .ok turns' → ∀ id, turns'.getD id 0 ≤ (n + 1) * maxProviderReceipts := by
  have hadd : checkedAdd32 (turns.getD p.1.1 0) p.2.1 = some (turns.getD p.1.1 0 + p.2.1) := by
    have hturns := ht p.1.1
    simp only [maxProviderReceipts] at hn hp hturns
    exact if_pos (by simp only [u32Max]; omega)
  constructor
  · refine bind_ne_error (refuseIf_ne_error (by simp)) (fun _ _ => ?_)
    rw [hadd]
    exact fun h => (by cases h)
  · intro turns' hok id
    simp only [validateGroup, bind_eq_ok, pure_eq_ok, orElseError_eq_ok, hadd, Option.some.injEq, exists_eq_left'] at hok
    obtain ⟨_, -, rfl⟩ := hok
    rw [Std.ExtTreeMap.getD_insert]
    have hturns := ht p.1.1
    have hid := ht id
    rw [Nat.succ_mul]
    split
    · exact Nat.add_le_add hturns hp
    · exact hid.trans (Nat.le_add_right _ _)

theorem validateProviderBudget_ne_budget (h : ∀ r ∈ Table.vals s.providerBudget.receipts, Bounded r) :
    s.validateProviderBudget H ≠ .error .budget := by
  refine bind_ne_error (refuseIf_ne_error (by simp)) (fun _ hsize => ?_)
  refine bind_ne_error (foldlM_ne_error (n := 0) (fun _ _ => True) (fun _ _ p _ _ _ => ⟨(validateBinding_budget _ p).1,
    fun _ _ => trivial⟩) (le_refl _) trivial).1 (fun _ _ => ?_)
  have hlength : 0 + s.providerBudget.receipts.toList.length ≤ maxProviderReceipts := by
    simp only [refuseIf_eq_ok, not_or, not_lt] at hsize
    rw [Std.ExtTreeMap.length_toList]
    omega
  have hfold := foldlM_ne_error (e := ControllerError.budget) (n := 0) (s := {}) Tally.Within (f := s.validateReceipt H)
    (l := s.providerBudget.receipts.toList) (fun n t p hp hn ht => validateReceipt_within hn
      (h p.2 ((Table.mem_vals _ _).2 ⟨p.1, (Table.mem_toList _ _ _).1 hp⟩)) ht) hlength
    ⟨by simp, by simp, by simp⟩
  refine bind_ne_error hfold.1 (fun tally htally => ?_)
  have hwithin := hfold.2 tally htally
  have hgroups : 0 + tally.epochs.toList.length ≤ maxProviderReceipts := by
    rw [Std.ExtTreeMap.length_toList, Nat.zero_add]
    exact hwithin.groups.trans hlength
  have hcounts : ∀ p ∈ tally.epochs.toList, p.2.1 ≤ maxProviderReceipts := by
    intro p hp
    have hget := (Std.ExtTreeMap.mem_toList_iff_getKey?_eq_some_and_getElem?_eq_some.1 hp).2
    have hcount := (hwithin.counts p.1).1
    rw [Std.ExtTreeMap.getD_eq_getD_getElem?, hget] at hcount
    exact hcount.trans hlength
  have hturns := foldlM_ne_error (e := ControllerError.budget) (n := 0) (f := validateGroup)
    (fun n turns => ∀ id, turns.getD id 0 ≤ n * maxProviderReceipts) (l := tally.epochs.toList)
    (fun n t p hp hn ht => validateGroup_within hn (hcounts p hp) ht) hgroups (s := ∅) (fun id => by simp)
  refine bind_ne_error hturns.1 (fun _ _ => ?_)
  refine bind_ne_error (forM_budget (fun _ => by simp [refuseIf_eq_error])).1 (fun _ _ => ?_)
  refine bind_ne_error (forM_budget (fun _ => by simp [refuseIf_eq_error])).1 (fun _ _ => ?_)
  exact refuseIf_ne_error (by simp)

/-! ## Reservations -/

theorem budget_bounded {b : AgentBudget} (h : b.validate = .ok ()) :
    b.turns ≤ 1000000 ∧ b.tokens ≤ 100000000000 ∧ b.costMicrousd ≤ 100000000000000 := by
  unfold AgentBudget.validate at h
  split at h
  · cases h
  · split at h
    · cases h
    · omega

theorem addChild_ok_of_bounded {held : Nat × Nat × Nat} {child : AgentRecord} (hn : n < Agents.maxAgents)
    (hc : child.view.budget.validate = .ok ())
    (hheld : held.1 ≤ n * 1000000 ∧ held.2.1 ≤ n * 100000000000 ∧ held.2.2 ≤ n * 100000000000000) :
    ∃ held', addChild held child = .ok held' ∧ (held'.1 ≤ (n + 1) * 1000000 ∧ held'.2.1 ≤ (n + 1) * 100000000000 ∧
      held'.2.2 ≤ (n + 1) * 100000000000000) := by
  obtain ⟨_, _, _⟩ := budget_bounded hc
  simp only [Agents.maxAgents] at hn
  refine ⟨(held.1 + child.view.budget.turns, held.2.1 + child.view.budget.tokens,
    held.2.2 + child.view.budget.costMicrousd), ?_, ?_⟩
  · simp only [addChild, bind_eq_ok, pure_eq_ok, orElseError_eq_ok]
    exact ⟨_, if_pos (by simp only [u32Max]; omega), _, if_pos (by simp only [u64Max]; omega), _,
      if_pos (by simp only [u64Max]; omega), rfl⟩
  · dsimp only
    omega

theorem addPending_ok_of_bounded {sum : Nat × Nat} {r : Receipt} (hn : n < maxProviderReceipts) (hr : Bounded r)
    (hsum : sum.1 ≤ n * maxReservation ∧ sum.2 ≤ n * maxReservation) :
    ∃ sum', addPending sum r = .ok sum' ∧ (sum'.1 ≤ (n + 1) * maxReservation ∧ sum'.2 ≤ (n + 1) * maxReservation) := by
  have htokens := hr.tokens
  have hcost := hr.cost
  simp only [maxProviderReceipts, maxReservation] at hn hsum htokens hcost ⊢
  refine ⟨(sum.1 + r.request.maxTokens, sum.2 + r.request.maxCostMicrousd), ?_, ?_⟩
  · simp only [addPending, bind_eq_ok, pure_eq_ok, orElseError_eq_ok]
    exact ⟨_, if_pos (by simp only [u64Max]; omega), _, if_pos (by simp only [u64Max]; omega), rfl⟩
  · omega

theorem reservation_total (hreceipts : ∀ r ∈ Table.vals s.providerBudget.receipts, Bounded r)
    (hsize : s.providerBudget.receipts.size ≤ maxProviderReceipts) (hagents : s.agents.size ≤ Agents.maxAgents)
    (hbudgets : ∀ r ∈ Table.vals s.agents, r.view.budget.validate = .ok ()) (id : AgentId) :
    ∃ held, s.reservation id = .ok held := by
  have hchildren : 0 + (s.childrenOf id).length ≤ Agents.maxAgents := by
    have hlength : (Table.vals s.agents).length = s.agents.size := by
      rw [Table.vals, List.length_map, Std.ExtTreeMap.length_toList]
    have hfilter := List.length_filter_le (fun child => child.view.parentId == some id) (Table.vals s.agents)
    unfold childrenOf
    omega
  have hpending : 0 + (s.unresolvedOf id).length ≤ maxProviderReceipts := by
    have hfilter := List.length_filter_le (fun r : Receipt => r.request.agentId == id && r.unresolved)
      (Table.vals s.providerBudget.receipts)
    rw [length_vals] at hfilter
    unfold unresolvedOf
    omega
  obtain ⟨held, hheld, hbound⟩ := foldlM_progress (fun n held => held.1 ≤ n * 1000000 ∧ held.2.1 ≤ n * 100000000000 ∧
      held.2.2 ≤ n * 100000000000000) (l := s.childrenOf id) (s := (0, 0, 0))
    (fun n held child hc hn h => addChild_ok_of_bounded hn (hbudgets child (List.mem_of_mem_filter hc)) h) hchildren
    (by simp)
  obtain ⟨p, hp, hsum⟩ := foldlM_progress (fun n sum => sum.1 ≤ n * maxReservation ∧ sum.2 ≤ n * maxReservation)
    (l := s.unresolvedOf id) (s := (0, 0))
    (fun n sum r hr hn h => addPending_ok_of_bounded hn (hreceipts r (List.mem_of_mem_filter hr)) h) hpending (by simp)
  refine ⟨(held.1, held.2.1 + p.1, held.2.2 + p.2), ?_⟩
  simp only [Agents.maxAgents, maxProviderReceipts, maxReservation] at hchildren hpending hbound hsum
  simp only [AgentControllerSnapshot.reservation, bind_eq_ok, pure_eq_ok, orElseError_eq_ok]
  exact ⟨held, hheld, p, hp, _, if_pos (by simp only [u64Max]; omega), _, if_pos (by simp only [u64Max]; omega), rfl⟩

/-- **A snapshot with bounded receipts and valid budgets is never refused for its budget.** -/
theorem validate_ne_budget (hreceipts : ∀ r ∈ Table.vals s.providerBudget.receipts, Bounded r)
    (hbudgets : ∀ r ∈ Table.vals s.agents, r.view.budget.validate = .ok ()) :
    s.validateSnapshot H ≠ .error .budget := by
  refine bind_ne_error (AgentControllerConfig.validate_budget _).1 (fun _ hconfig => ?_)
  refine bind_ne_error (validateProviderBudget_ne_budget hreceipts) (fun _ hprovider => ?_)
  refine bind_ne_error validateCohort_budget.1 (fun _ _ => ?_)
  refine bind_ne_error validateWitness_budget.1 (fun _ _ => ?_)
  refine bind_ne_error (refuseIf_ne_error (by simp)) (fun _ henvelope => ?_)
  refine bind_ne_error (forM_ne_error (fun p _ => ?_)) (fun _ _ => ?_)
  · have hsize : s.providerBudget.receipts.size ≤ maxProviderReceipts := by
      simp only [validateProviderBudget, bind_eq_ok, refuseIf_eq_ok, not_or, not_lt] at hprovider
      obtain ⟨_, hsize, -⟩ := hprovider
      exact hsize.2
    have hagents : s.agents.size ≤ Agents.maxAgents := by
      simp only [refuseIf_eq_ok, not_or, not_lt] at henvelope
      exact henvelope.2.2.1.trans (config_ok hconfig).2.2.1
    obtain ⟨_, hheld⟩ := reservation_total hreceipts hsize hagents hbudgets p.1
    simp [validateAgent, validateReservations, bind_eq_error, refuseIf_eq_error, hheld]
  · refine bind_ne_error validateClaims_budget.1 (fun _ _ => ?_)
    refine bind_ne_error (AgentMailbox.validate_budget _ _ _).1 (fun _ _ => ?_)
    exact (forM_budget validateRequestReceipt_budget).1

end AgentControllerSnapshot
end Iteron.Agents
