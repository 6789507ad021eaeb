import Iteron.AgentRefusals
/-!
# AgentAllowance — the advisory headroom agrees with admission

A caller may ask how much an agent's next physical attempt could use.  The answer is computed by subtraction, with one
turn more for the first attempt of an epoch; the reservation adds what it would use to what is used.  On every durable
snapshot the two coincide.
-/
namespace Iteron.Agents

open Machine Refuse

structure AgentProviderBudgetAllowance where
  turns : Nat
  tokens : Nat
  costMicrousd : Nat
  deriving DecidableEq

namespace AgentControllerSnapshot

variable (H : Hashes) (s : AgentControllerSnapshot)

def hasProviderEpochReceipt (id : AgentId) (epoch : Option AgentEpoch) : Bool :=
  (Table.vals s.providerBudget.receipts).any (fun r => r.request.agentId == id && r.request.epoch == epoch)

def addAdmittedTurn (usage : AgentUsage) (receipt : Receipt) : Except ControllerError AgentUsage := do
  let turns ← orElseError (checkedAdd32 usage.turns 1) .budget
  addAdmitted { usage with turns := turns } receipt

def admittedEpochUsage (id : AgentId) (epoch : AgentEpoch) : Except ControllerError AgentUsage :=
  (s.epochReceipts id (some epoch)).foldlM addAdmittedTurn {}

def headroom (ceiling used reserved : Nat) : Except ControllerError Nat :=
  orElseError ((checkedSub ceiling used).bind (fun room => checkedSub room reserved)) .budget

/-- The allowance within what is left of a workflow task's budget. -/
def limitToTask (id : AgentId) (epoch : AgentEpoch) (allowance : AgentProviderBudgetAllowance) :
    Except ControllerError AgentProviderBudgetAllowance :=
  match s.providerTaskBudget id epoch with
  | none => pure allowance
  | some budget => do
    let used ← s.admittedEpochUsage id epoch
    let turns ← orElseError (checkedSub budget.turns used.turns) .budget
    let tokens ← orElseError (checkedSub budget.tokens used.tokens) .budget
    let cost ← orElseError (checkedSub budget.costMicrousd used.costMicrousd) .budget
    pure ⟨min allowance.turns turns, min allowance.tokens tokens, min allowance.costMicrousd cost⟩

def providerBudgetAllowance (id : AgentId) (epoch : Option AgentEpoch) :
    Except ControllerError AgentProviderBudgetAllowance := do
  refuseIf (s.providerBudget.recoveryRequired = true) .recoveryRequired
  let record ← orElseError s.agents[id]? .unknownAgent
  refuseIf ((match epoch with
      | some epoch => record.view.state == .running epoch
      | none => id == 1 && record.view.state == .idle) = false)
    .staleEpoch
  let turns ← headroom record.view.budget.turns record.turnsUsed record.reservedTurns
  let first := epoch.isSome && !s.hasProviderEpochReceipt id epoch
  let turns ← orElseError (checkedAdd32 turns first.toNat) .budget
  let tokens ← headroom record.view.budget.tokens record.tokensUsed record.reservedTokens
  let cost ← headroom record.view.budget.costMicrousd record.costUsed record.reservedCost
  match epoch with
  | none => pure ⟨turns, tokens, cost⟩
  | some epoch => s.limitToTask id epoch ⟨turns, tokens, cost⟩

end AgentControllerSnapshot

def Controller.providerBudgetAllowance (c : Controller) (id : AgentId) (epoch : Option AgentEpoch) :
    Except ControllerError AgentProviderBudgetAllowance :=
  if c.poisoned then .error .poisoned else c.snapshot.providerBudgetAllowance id epoch

namespace AgentControllerSnapshot

variable {H : Hashes} {s : AgentControllerSnapshot}

/-- The request passes every check of a reservation but those of the agent's state and of the budgets. -/
structure Presentable (H : Hashes) (s : AgentControllerSnapshot) (request : AgentProviderBudgetRequest) : Prop where
  valid : request.validate = .ok ()
  bound : ∃ binding, s.providerBudget.bindings[request.agentId]? = some binding ∧
    (binding.scopeSha256 = request.scopeSha256 ∨ (request.agentId = 1 ∧ s.cohortRootScope request.scopeSha256 = true))
  fresh : s.providerBudget.receipts[H.receiptKey request.scopeSha256 request.effectId]? = none
  room : s.providerBudget.receipts.size < maxProviderReceipts
  unattempted : ∀ r ∈ Table.vals s.providerBudget.receipts, ¬ (r.request.scopeSha256 = request.scopeSha256 ∧
    r.request.turn = request.turn ∧ r.request.route.physicalAttempt = request.route.physicalAttempt)

/-- The agent is in the state the request's epoch asks for. -/
def inState (id : AgentId) (epoch : Option AgentEpoch) (record : AgentRecord) : Bool :=
  match epoch with
  | some epoch => record.view.state == .running epoch
  | none => id == 1 && record.view.state == .idle

/-- What a physical attempt adds to the turns of its agent: the first of an epoch was counted when the epoch began. -/
def debitOf (s : AgentControllerSnapshot) (id : AgentId) (epoch : Option AgentEpoch) : Nat :=
  if epoch.isSome ∧ (s.epochReceipts id epoch).isEmpty then 0 else 1

def OverAgent (s : AgentControllerSnapshot) (request : AgentProviderBudgetRequest) (record : AgentRecord) : Prop :=
  record.turnsUsed + record.reservedTurns + s.debitOf request.agentId request.epoch > record.view.budget.turns ∨
    record.tokensUsed + record.reservedTokens + request.maxTokens > record.view.budget.tokens ∨
    record.costUsed + record.reservedCost + request.maxCostMicrousd > record.view.budget.costMicrousd

/-! ## Checked sums -/

variable {a b ceiling : Nat}

theorem sum_over {c : Nat} (hc : ceiling ≤ u64Max) :
    ((checkedAdd a b).bind (fun used => checkedAdd used c)).all (fun used => decide (used > ceiling)) = true ↔
      a + b + c > ceiling := by
  unfold checkedAdd
  split
  · simp only [Option.bind_some]
    split
    · simp
    · simp only [Option.all_none, true_iff]
      omega
  · simp only [Option.bind_none, Option.all_none, true_iff]
    omega

theorem sum_over32 {c : Nat} (hc : ceiling ≤ u32Max) :
    ((checkedAdd32 a b).bind (fun used => checkedAdd32 used c)).all (fun used => decide (used > ceiling)) = true ↔
      a + b + c > ceiling := by
  unfold checkedAdd32
  split
  · simp only [Option.bind_some]
    split
    · simp
    · simp only [Option.all_none, true_iff]
      omega
  · simp only [Option.bind_none, Option.all_none, true_iff]
    omega

theorem add_over (hc : ceiling ≤ u64Max) :
    (checkedAdd a b).all (fun used => decide (used > ceiling)) = true ↔ a + b > ceiling := by
  unfold checkedAdd
  split
  · simp
  · simp only [Option.all_none, true_iff]
    omega

theorem headroom_eq {used reserved : Nat} : headroom ceiling used reserved =
    if used + reserved ≤ ceiling then .ok (ceiling - used - reserved) else .error .budget := by
  unfold headroom checkedSub
  by_cases hused : used ≤ ceiling
  · rw [if_pos hused, Option.bind_some]
    by_cases hreserved : reserved ≤ ceiling - used
    · rw [if_pos hreserved, if_pos (by omega)]
      rfl
    · rw [if_neg hreserved, if_neg (by omega)]
      rfl
  · rw [if_neg hused, if_neg (by omega)]
    rfl

/-! ## What the receipts of an epoch hold of a task's budget -/

def admitted (r : Receipt) : Nat × Nat :=
  match r.terminal with
  | some (.known tokens cost) => (tokens, cost)
  | some .notDispatched => (0, 0)
  | _ => (r.request.maxTokens, r.request.maxCostMicrousd)

theorem addAdmitted_eq (usage : AgentUsage) (r : Receipt) : addAdmitted usage r = (do
    let tokens ← orElseError (checkedAdd usage.tokens (admitted r).1) .budget
    let cost ← orElseError (checkedAdd usage.costMicrousd (admitted r).2) .budget
    pure { usage with tokens := tokens, costMicrousd := cost }) := rfl

variable {r : Receipt}

theorem Bounded.admitted (h : Bounded r) : (admitted r).1 ≤ maxReservation ∧ (admitted r).2 ≤ maxReservation := by
  obtain ⟨htokens, hcost, hknown⟩ := h
  unfold AgentControllerSnapshot.admitted
  split
  · rename_i tokens cost hterminal
    obtain ⟨h1, h2⟩ := hknown tokens cost hterminal
    exact ⟨h1.trans htokens, h2.trans hcost⟩
  · exact ⟨Nat.zero_le _, Nat.zero_le _⟩
  · exact ⟨htokens, hcost⟩

theorem addAdmitted_total {n : Nat} {u : AgentUsage} (hn : n < maxProviderReceipts) (hr : Bounded r)
    (hu : u.tokens ≤ n * maxReservation ∧ u.costMicrousd ≤ n * maxReservation) : addAdmitted u r = .ok { u with
      tokens := u.tokens + (admitted r).1, costMicrousd := u.costMicrousd + (admitted r).2 } ∧
      u.tokens + (admitted r).1 ≤ (n + 1) * maxReservation ∧ u.costMicrousd + (admitted r).2 ≤ (n + 1) * maxReservation := by
  have hadmitted := hr.admitted
  simp only [maxProviderReceipts, maxReservation] at hn hu hadmitted ⊢
  refine ⟨?_, by omega, by omega⟩
  simp only [addAdmitted_eq, bind_eq_ok, pure_eq_ok, orElseError_eq_ok]
  exact ⟨_, if_pos (by simp only [u64Max]; omega), _, if_pos (by simp only [u64Max]; omega), rfl⟩

theorem addAdmitted_ok {u u' : AgentUsage} (h : addAdmitted u r = .ok u') :
    u'.tokens = u.tokens + (admitted r).1 ∧ u'.costMicrousd = u.costMicrousd + (admitted r).2 := by
  simp only [addAdmitted_eq, bind_eq_ok, pure_eq_ok, orElseError_eq_ok] at h
  obtain ⟨_, htokens, _, hcost, rfl⟩ := h
  exact ⟨checkedAdd_eq_some htokens, checkedAdd_eq_some hcost⟩

/-- The tokens and the cost the receipts of an epoch may have used. -/
def heldTokens (s : AgentControllerSnapshot) (id : AgentId) (epoch : Option AgentEpoch) : Nat :=
  ((s.epochReceipts id epoch).map (fun r => (admitted r).1)).sum

def heldCost (s : AgentControllerSnapshot) (id : AgentId) (epoch : Option AgentEpoch) : Nat :=
  ((s.epochReceipts id epoch).map (fun r => (admitted r).2)).sum

theorem reserve_usage (hs : Checked H s) (id : AgentId) (epoch : Option AgentEpoch) (turns : Nat) :
    ∃ u, (s.epochReceipts id epoch).foldlM addAdmitted { turns := turns } = .ok u ∧ u.turns = turns ∧
      u.tokens = s.heldTokens id epoch ∧ u.costMicrousd = s.heldCost id epoch := by
  obtain ⟨_, hbounded⟩ := hs.epochReceipts id epoch
  obtain ⟨u, hu, hinv⟩ := foldlM_progress (n := 0) (s := ({ turns := turns } : AgentUsage)) (f := addAdmitted)
    (fun n u => u.turns = turns ∧ (u.tokens ≤ n * maxReservation ∧ u.costMicrousd ≤ n * maxReservation))
    (fun n u r hr hn h => by
      obtain ⟨hok, htokens, hcost⟩ := addAdmitted_total hn (hbounded r hr) h.2
      exact ⟨_, hok, h.1, htokens, hcost⟩) (by omega) ⟨rfl, Nat.zero_le _, Nat.zero_le _⟩
  have htokens := foldlM_measure (fun u : AgentUsage => u.tokens) (fun r => (admitted r).1)
    (fun _ _ _ h => (addAdmitted_ok h).1) hu
  have hcost := foldlM_measure (fun u : AgentUsage => u.costMicrousd) (fun r => (admitted r).2)
    (fun _ _ _ h => (addAdmitted_ok h).2) hu
  refine ⟨u, hu, hinv.1, ?_, ?_⟩
  · rw [htokens, Nat.zero_add]
    rfl
  · rw [hcost, Nat.zero_add]
    rfl

theorem allowance_usage (hs : Checked H s) (id : AgentId) (epoch : AgentEpoch) :
    ∃ u, s.admittedEpochUsage id epoch = .ok u ∧ u.turns = (s.epochReceipts id (some epoch)).length ∧
      u.tokens = s.heldTokens id (some epoch) ∧ u.costMicrousd = s.heldCost id (some epoch) := by
  obtain ⟨_, hbounded⟩ := hs.epochReceipts id (some epoch)
  have hturn : ∀ (u : AgentUsage) (r : Receipt), u.turns < maxProviderReceipts →
      addAdmittedTurn u r = addAdmitted { u with turns := u.turns + 1 } r := by
    intro u r hu
    have hadd : checkedAdd32 u.turns 1 = some (u.turns + 1) := by
      simp only [maxProviderReceipts] at hu
      exact if_pos (by simp only [u32Max]; omega)
    rw [addAdmittedTurn, hadd]
    rfl
  have hbound : 0 + (s.epochReceipts id (some epoch)).length ≤ maxProviderReceipts := by omega
  obtain ⟨u, hu, hinv⟩ := foldlM_progress (n := 0) (s := ({} : AgentUsage)) (f := addAdmittedTurn)
    (fun n u => u.turns = n ∧ (u.tokens ≤ n * maxReservation ∧ u.costMicrousd ≤ n * maxReservation))
    (fun n u r hr hn h => by
      obtain ⟨hok, htokens, hcost⟩ := addAdmitted_total (u := { u with turns := u.turns + 1 }) hn (hbounded r hr) h.2
      exact ⟨_, (hturn u r (h.1 ▸ hn)).trans hok, by rw [h.1], htokens, hcost⟩) hbound
    ⟨rfl, Nat.zero_le _, Nat.zero_le _⟩
  have hstep : ∀ (u : AgentUsage) (r : Receipt) (u' : AgentUsage), addAdmittedTurn u r = .ok u' →
      u'.tokens = u.tokens + (admitted r).1 ∧ u'.costMicrousd = u.costMicrousd + (admitted r).2 := by
    intro u r u' hok
    simp only [addAdmittedTurn, bind_eq_ok] at hok
    obtain ⟨turns, -, hok⟩ := hok
    have hadded := addAdmitted_ok hok
    exact hadded
  have htokens := foldlM_measure (fun u : AgentUsage => u.tokens) _ (fun u r u' h => (hstep u r u' h).1) hu
  have hcost := foldlM_measure (fun u : AgentUsage => u.costMicrousd) _ (fun u r u' h => (hstep u r u' h).2) hu
  refine ⟨u, hu, by rw [hinv.1, Nat.zero_add], ?_, ?_⟩
  · rw [htokens, Nat.zero_add]
    rfl
  · rw [hcost, Nat.zero_add]
    rfl

/-! ## The reservation -/

/-- The budget of the task the epoch works for has no room for the request. -/
def OverTask (s : AgentControllerSnapshot) (request : AgentProviderBudgetRequest) : Prop :=
  ∃ epoch budget, request.epoch = some epoch ∧ s.providerTaskBudget request.agentId epoch = some budget ∧
    ((s.epochReceipts request.agentId request.epoch).length ≥ budget.turns ∨
      s.heldTokens request.agentId request.epoch + request.maxTokens > budget.tokens ∨
      s.heldCost request.agentId request.epoch + request.maxCostMicrousd > budget.costMicrousd)

variable {id : AgentId}

theorem Checked.budget (hs : Checked H s) {r : AgentRecord} (hr : s.agents[id]? = some r) :
    r.view.budget.turns ≤ 1000000 ∧ r.view.budget.tokens ≤ 100000000000 ∧ r.view.budget.costMicrousd ≤ 100000000000000 :=
  budget_bounded (hs.agent hr).2.1

theorem Checked.taskBudget (hs : Checked H s) {epoch : AgentEpoch} {budget : AgentBudget}
    (h : s.providerTaskBudget id epoch = some budget) :
    budget.turns ≤ 1000000 ∧ budget.tokens ≤ 100000000000 ∧ budget.costMicrousd ≤ 100000000000000 := by
  obtain ⟨receipt, hfind, rfl⟩ := Option.map_eq_some_iff.1 h
  obtain ⟨key, hkey⟩ := (Table.mem_vals _ _).1 (List.mem_of_find?_eq_some hfind)
  obtain ⟨_, -, hbudget, -⟩ := validateClaim_completion (hs.claims key receipt hkey)
  exact budget_bounded hbudget

theorem checkTaskBudget_cases (hs : Checked H s) (request : AgentProviderBudgetRequest) : (s.OverTask request ∧
      s.checkTaskBudget request (s.epochReceipts request.agentId request.epoch) = .error .budget) ∨
    (¬ s.OverTask request ∧ s.checkTaskBudget request (s.epochReceipts request.agentId request.epoch) = .ok ()) := by
  cases htask : request.epoch.bind (s.providerTaskBudget request.agentId) with
  | none =>
    refine .inr ⟨?_, ?_⟩
    · rintro ⟨epoch, budget, hepoch, hbudget, -⟩
      rw [hepoch, Option.bind_some, hbudget] at htask
      cases htask
    · rw [checkTaskBudget, htask]
      rfl
  | some budget =>
    obtain ⟨epoch, hepoch, hbudget⟩ := Option.bind_eq_some_iff.1 htask
    obtain ⟨_, _, _⟩ := hs.taskBudget hbudget
    obtain ⟨u, hu, huturns, hutokens, hucost⟩ := reserve_usage hs request.agentId request.epoch
      (s.epochReceipts request.agentId request.epoch).length
    have hcheck : s.checkTaskBudget request (s.epochReceipts request.agentId request.epoch) =
        refuseIf (u.turns ≥ budget.turns ∨
          (checkedAdd u.tokens request.maxTokens).all (fun tokens => decide (tokens > budget.tokens)) = true ∨
          (checkedAdd u.costMicrousd request.maxCostMicrousd).all (fun cost => decide (cost > budget.costMicrousd)) = true)
        .budget := by
      rw [checkTaskBudget, htask]
      rw [hu]
      rfl
    have hover : (u.turns ≥ budget.turns ∨
        (checkedAdd u.tokens request.maxTokens).all (fun tokens => decide (tokens > budget.tokens)) = true ∨
        (checkedAdd u.costMicrousd request.maxCostMicrousd).all (fun cost => decide (cost > budget.costMicrousd)) = true) ↔
        s.OverTask request := by
      rw [add_over (by simp only [u64Max]; omega), add_over (by simp only [u64Max]; omega), huturns, hutokens, hucost]
      constructor
      · exact fun h => ⟨epoch, budget, hepoch, hbudget, h⟩
      · rintro ⟨_, _, hepoch', hbudget', h⟩
        cases hepoch.symm.trans hepoch'
        cases hbudget.symm.trans hbudget'
        exact h
    rw [hcheck]
    by_cases h : s.OverTask request
    · exact .inl ⟨h, refuseIf_eq_error.2 ⟨hover.2 h, rfl⟩⟩
    · exact .inr ⟨h, refuseIf_of_not (fun h' => h (hover.1 h'))⟩

variable {request : AgentProviderBudgetRequest} {record : AgentRecord}

theorem overAgent_iff (hs : Checked H s) (hr : s.agents[request.agentId]? = some record) :
    (((checkedAdd32 record.turnsUsed record.reservedTurns).bind
          (fun used => checkedAdd32 used (s.debitOf request.agentId request.epoch))).all
        (fun used => decide (used > record.view.budget.turns)) = true ∨
      ((checkedAdd record.tokensUsed record.reservedTokens).bind (fun used => checkedAdd used request.maxTokens)).all
        (fun used => decide (used > record.view.budget.tokens)) = true ∨
      ((checkedAdd record.costUsed record.reservedCost).bind (fun used => checkedAdd used request.maxCostMicrousd)).all
        (fun used => decide (used > record.view.budget.costMicrousd)) = true) ↔ s.OverAgent request record := by
  obtain ⟨_, _, _⟩ := hs.budget hr
  rw [sum_over32 (by simp only [u32Max]; omega), sum_over (by simp only [u64Max]; omega),
    sum_over (by simp only [u64Max]; omega)]
  rfl

def reservedSnapshot (H : Hashes) (s : AgentControllerSnapshot) (request : AgentProviderBudgetRequest)
    (record : AgentRecord) (revision : Nat) : AgentControllerSnapshot :=
  { s with
    agents := s.agents.insert request.agentId
      { record with
        turnsUsed := record.turnsUsed + s.debitOf request.agentId request.epoch
        reservedTokens := record.reservedTokens + request.maxTokens
        reservedCost := record.reservedCost + request.maxCostMicrousd }
    providerBudget := { s.providerBudget with
      receipts := s.providerBudget.receipts.insert (H.receiptKey request.scopeSha256 request.effectId)
        ⟨request, s.debitOf request.agentId request.epoch, none, none⟩ }
    revision := revision }

def reserveWithin (H : Hashes) (s : AgentControllerSnapshot) (request : AgentProviderBudgetRequest)
    (record : AgentRecord) : Except ControllerError Prepared := do
  let debit := s.debitOf request.agentId request.epoch
  refuseIf (((checkedAdd32 record.turnsUsed record.reservedTurns).bind (fun used => checkedAdd32 used debit)).all
        (fun used => decide (used > record.view.budget.turns)) = true ∨
      ((checkedAdd record.tokensUsed record.reservedTokens).bind (fun used => checkedAdd used request.maxTokens)).all
        (fun used => decide (used > record.view.budget.tokens)) = true ∨
      ((checkedAdd record.costUsed record.reservedCost).bind (fun used => checkedAdd used request.maxCostMicrousd)).all
        (fun used => decide (used > record.view.budget.costMicrousd)) = true)
    .budget
  s.checkTaskBudget request (s.epochReceipts request.agentId request.epoch)
  let turnsUsed ← orElseError (checkedAdd32 record.turnsUsed debit) .budget
  let reservedTokens ← orElseError (checkedAdd record.reservedTokens request.maxTokens) .budget
  let reservedCost ← orElseError (checkedAdd record.reservedCost request.maxCostMicrousd) .budget
  let revision ← nextRevision s.revision
  pure (.commit { s with
    agents := s.agents.insert request.agentId
      { record with turnsUsed := turnsUsed, reservedTokens := reservedTokens, reservedCost := reservedCost }
    providerBudget := { s.providerBudget with
      receipts := s.providerBudget.receipts.insert (H.receiptKey request.scopeSha256 request.effectId)
        ⟨request, debit, none, none⟩ }
    revision := revision } (.ok .done))

theorem reserve_eq (hok : Presentable H s request)
    (hflag : s.providerBudget.recoveryRequired = false) (hr : s.agents[request.agentId]? = some record)
    (hstate : inState request.agentId request.epoch record = true) :
    s.reserveProviderBudget H request = s.reserveWithin H request record := by
  obtain ⟨binding, hbinding, hscope⟩ := hok.bound
  have hbound : ¬ (s.providerBudget.bindings[request.agentId]?.all (fun binding =>
      binding.scopeSha256 != request.scopeSha256 &&
        !(request.agentId == 1 && s.cohortRootScope request.scopeSha256))) = true := by
    rw [hbinding]
    rcases hscope with hscope | ⟨hroot, hscope⟩
    · simp [hscope]
    · simp [hroot, hscope]
  have hfresh : ¬ s.providerBudget.receipts.contains (H.receiptKey request.scopeSha256 request.effectId) = true := by
    rw [(Table.contains_eq_false _ _).2 hok.fresh]
    simp
  have hmatch : ¬ inState request.agentId request.epoch record = false := by
    rw [hstate]
    simp
  have hattempt : ¬ (Table.vals s.providerBudget.receipts).any (fun receipt =>
      receipt.request.scopeSha256 == request.scopeSha256 && receipt.request.turn == request.turn &&
        receipt.request.route.physicalAttempt == request.route.physicalAttempt) = true := by
    simp only [List.any_eq_true, Bool.and_eq_true, beq_iff_eq, not_exists, not_and]
    intro r hmem hscope hphysical
    exact hok.unattempted r hmem ⟨hscope.1, hscope.2, hphysical⟩
  have hrecord : orElseError s.agents[request.agentId]? ControllerError.unknownAgent = .ok record :=
    orElseError_eq_ok.2 hr
  rw [reserveProviderBudget, hok.valid, ok_bind, refuseIf_of_not (by simp [hflag]), ok_bind, refuseIf_of_not hbound,
    ok_bind]
  dsimp only
  rw [refuseIf_of_not hfresh, ok_bind, refuseIf_of_not (Nat.not_le.2 hok.room), ok_bind, hrecord, ok_bind]
  refine (congrArg (fun x => x >>= _) (refuseIf_of_not hmatch)).trans ?_
  rw [ok_bind, refuseIf_of_not hattempt, ok_bind]
  rfl

/-- **A presentable request is refused for the budget exactly when a budget has no room for it**; otherwise it is
prepared, or the revisions are used up. -/
theorem reserve_cases (hs : Checked H s) (hok : Presentable H s request) (hflag : s.providerBudget.recoveryRequired = false)
    (hr : s.agents[request.agentId]? = some record) (hstate : inState request.agentId request.epoch record = true) :
    ((s.OverAgent request record ∨ s.OverTask request) ∧ s.reserveProviderBudget H request = .error .budget) ∨
    (¬ (s.OverAgent request record ∨ s.OverTask request) ∧ (s.reserveProviderBudget H request = .error .capacity ∨
      ∃ revision, s.reserveProviderBudget H request =
        .ok (.commit (s.reservedSnapshot H request record revision) (.ok .done)))) := by
  rw [reserve_eq hok hflag hr hstate]
  unfold reserveWithin
  dsimp only
  by_cases hagent : s.OverAgent request record
  · refine .inl ⟨.inl hagent, ?_⟩
    rw [refuseIf_eq_error.2 ⟨(overAgent_iff hs hr).2 hagent, rfl⟩]
    rfl
  · rw [refuseIf_of_not (fun h => hagent ((overAgent_iff hs hr).1 h)), ok_bind]
    rcases checkTaskBudget_cases hs request with ⟨htask, hcheck⟩ | ⟨htask, hcheck⟩
    · refine .inl ⟨.inr htask, ?_⟩
      rw [hcheck]
      rfl
    · refine .inr ⟨fun h => h.elim hagent htask, ?_⟩
      obtain ⟨_, _, _⟩ := hs.budget hr
      simp only [OverAgent, not_or, not_lt] at hagent
      have hadd1 : checkedAdd32 record.turnsUsed (s.debitOf request.agentId request.epoch) =
          some (record.turnsUsed + s.debitOf request.agentId request.epoch) :=
        if_pos (by simp only [u32Max]; omega)
      have hadd2 : checkedAdd record.reservedTokens request.maxTokens = some (record.reservedTokens + request.maxTokens) :=
        if_pos (by simp only [u64Max]; omega)
      have hadd3 : checkedAdd record.reservedCost request.maxCostMicrousd =
          some (record.reservedCost + request.maxCostMicrousd) := if_pos (by simp only [u64Max]; omega)
      rw [hcheck, ok_bind, hadd1, hadd2, hadd3]
      cases hrevision : nextRevision s.revision with
      | error e =>
        refine .inl ?_
        have hcapacity : e = .capacity := by
          rw [nextRevision, orElseError_eq_error] at hrevision
          exact hrevision.2.symm
        rw [hcapacity]
        rfl
      | ok revision => exact .inr ⟨revision, rfl⟩

/-! ## The allowance -/

theorem first_add_debit (s : AgentControllerSnapshot) (id : AgentId) (epoch : Option AgentEpoch) :
    (epoch.isSome && !s.hasProviderEpochReceipt id epoch).toNat + s.debitOf id epoch = 1 := by
  have hhas : s.hasProviderEpochReceipt id epoch = !(s.epochReceipts id epoch).isEmpty := by
    unfold hasProviderEpochReceipt epochReceipts
    rw [Bool.eq_iff_iff, List.any_eq_true, Bool.not_eq_true', ← Bool.not_eq_true, List.isEmpty_iff, List.filter_eq_nil_iff]
    simp
  rw [hhas, Bool.not_not, debitOf]
  cases epoch.isSome <;> cases (s.epochReceipts id epoch).isEmpty <;> rfl

/-- The first part of the allowance: the room of the agent's own budget. -/
def agentRoom (s : AgentControllerSnapshot) (id : AgentId) (epoch : Option AgentEpoch) (record : AgentRecord) :
    AgentProviderBudgetAllowance where
  turns := record.view.budget.turns - record.turnsUsed - record.reservedTurns +
    (epoch.isSome && !s.hasProviderEpochReceipt id epoch).toNat
  tokens := record.view.budget.tokens - record.tokensUsed - record.reservedTokens
  costMicrousd := record.view.budget.costMicrousd - record.costUsed - record.reservedCost

def WithinAgent (record : AgentRecord) : Prop :=
  record.turnsUsed + record.reservedTurns ≤ record.view.budget.turns ∧
    record.tokensUsed + record.reservedTokens ≤ record.view.budget.tokens ∧
    record.costUsed + record.reservedCost ≤ record.view.budget.costMicrousd

def Exceeds (request : AgentProviderBudgetRequest) (a : AgentProviderBudgetAllowance) : Prop :=
  a.turns = 0 ∨ request.maxTokens > a.tokens ∨ request.maxCostMicrousd > a.costMicrousd

theorem exceeds_agentRoom (h : WithinAgent record) :
    Exceeds request (s.agentRoom request.agentId request.epoch record) ↔ s.OverAgent request record := by
  have hfirst := first_add_debit s request.agentId request.epoch
  obtain ⟨_, _, _⟩ := h
  unfold Exceeds OverAgent agentRoom
  dsimp only
  omega

theorem overAgent_of_not_within (h : ¬ WithinAgent record) : s.OverAgent request record := by
  unfold WithinAgent at h
  unfold OverAgent
  omega

theorem limitToTask_cases (hs : Checked H s) {epoch : AgentEpoch}
    (hepoch : request.epoch = some epoch) (a : AgentProviderBudgetAllowance) :
    (∃ a', s.limitToTask request.agentId epoch a = .ok a' ∧ (Exceeds request a' ↔ Exceeds request a ∨ s.OverTask request)) ∨
    (s.limitToTask request.agentId epoch a = .error .budget ∧ s.OverTask request) := by
  unfold limitToTask
  cases htask : s.providerTaskBudget request.agentId epoch with
  | none =>
    refine .inl ⟨a, rfl, (or_iff_left ?_).symm⟩
    rintro ⟨epoch', budget, hepoch', hbudget, -⟩
    cases hepoch.symm.trans hepoch'
    rw [htask] at hbudget
    cases hbudget
  | some budget =>
    obtain ⟨u, hu, hturns, htokens, hcost⟩ := allowance_usage hs request.agentId epoch
    have hover : s.OverTask request ↔ u.turns ≥ budget.turns ∨ u.tokens + request.maxTokens > budget.tokens ∨
        u.costMicrousd + request.maxCostMicrousd > budget.costMicrousd := by
      rw [hturns, htokens, hcost, ← hepoch]
      constructor
      · rintro ⟨epoch', _, hepoch', hbudget', h⟩
        cases hepoch.symm.trans hepoch'
        cases htask.symm.trans hbudget'
        exact h
      · exact fun h => ⟨epoch, budget, hepoch, htask, h⟩
    rw [hover]
    dsimp only
    rw [hu, ok_bind]
    unfold checkedSub
    by_cases h1 : u.turns ≤ budget.turns
    · by_cases h2 : u.tokens ≤ budget.tokens
      · by_cases h3 : u.costMicrousd ≤ budget.costMicrousd
        · rw [if_pos h1, if_pos h2, if_pos h3]
          refine .inl ⟨_, rfl, ?_⟩
          unfold Exceeds
          dsimp only
          omega
        · rw [if_pos h1, if_pos h2, if_neg h3]
          exact .inr ⟨rfl, by omega⟩
      · rw [if_pos h1, if_neg h2]
        exact .inr ⟨rfl, by omega⟩
    · rw [if_neg h1]
      exact .inr ⟨rfl, by omega⟩

/-- The last part of the allowance: the room of the task, if the epoch works for one. -/
def limitToEpoch (s : AgentControllerSnapshot) (id : AgentId) (epoch : Option AgentEpoch)
    (a : AgentProviderBudgetAllowance) : Except ControllerError AgentProviderBudgetAllowance :=
  match epoch with
  | none => pure a
  | some epoch => s.limitToTask id epoch a

variable {epoch : Option AgentEpoch}

theorem allowance_state {x : Except ControllerError AgentProviderBudgetAllowance}
    (h : s.providerBudgetAllowance id epoch = x) (hx : x = .error .budget ∨ ∃ a, x = .ok a) :
    s.providerBudget.recoveryRequired = false ∧ ∃ record, s.agents[id]? = some record ∧ inState id epoch record = true := by
  have hne : ∀ e : ControllerError, e ≠ .budget → x ≠ .error e := by
    rintro e he rfl
    rcases hx with hx | ⟨a, hx⟩
    · exact he (Except.error.inj hx)
    · cases hx
  unfold providerBudgetAllowance at h
  by_cases hflag : s.providerBudget.recoveryRequired = true
  · rw [refuseIf_eq_error.2 ⟨hflag, rfl⟩] at h
    cases hne .recoveryRequired (by simp) h.symm
  · refine ⟨by simpa using hflag, ?_⟩
    rw [refuseIf_of_not hflag, ok_bind] at h
    cases hr : s.agents[id]? with
    | none =>
      rw [hr] at h
      cases hne .unknownAgent (by simp) h.symm
    | some record =>
      rw [hr] at h
      by_contra hstate
      have hrecord : orElseError (some record) ControllerError.unknownAgent = .ok record := rfl
      rw [hrecord, ok_bind] at h
      refine hne .staleEpoch (by simp) (h.symm.trans ?_)
      have hfalse : inState id epoch record = false := by simpa using hstate
      have hrefused : refuseIf (inState id epoch record = false) ControllerError.staleEpoch = .error .staleEpoch :=
        refuseIf_eq_error.2 ⟨hfalse, rfl⟩
      exact bind_eq_error.2 (.inl hrefused)

theorem allowance_eq (hs : Checked H s) (hflag : s.providerBudget.recoveryRequired = false)
    (hr : s.agents[id]? = some record) (hstate : inState id epoch record = true) :
    (WithinAgent record → s.providerBudgetAllowance id epoch = s.limitToEpoch id epoch (s.agentRoom id epoch record)) ∧
    (¬ WithinAgent record → s.providerBudgetAllowance id epoch = .error .budget) := by
  have hrecord : orElseError s.agents[id]? ControllerError.unknownAgent = .ok record := orElseError_eq_ok.2 hr
  have hmatch : ¬ inState id epoch record = false := by
    rw [hstate]
    simp
  obtain ⟨_, -⟩ := hs.budget hr
  have heval : s.providerBudgetAllowance id epoch = (do
      let turns ← headroom record.view.budget.turns record.turnsUsed record.reservedTurns
      let turns ← orElseError (checkedAdd32 turns (epoch.isSome && !s.hasProviderEpochReceipt id epoch).toNat) .budget
      let tokens ← headroom record.view.budget.tokens record.tokensUsed record.reservedTokens
      let cost ← headroom record.view.budget.costMicrousd record.costUsed record.reservedCost
      s.limitToEpoch id epoch ⟨turns, tokens, cost⟩) := by
    rw [providerBudgetAllowance, refuseIf_of_not (by simp [hflag]), ok_bind, hrecord, ok_bind]
    exact congrArg (fun x => x >>= _) (refuseIf_of_not hmatch)
  have hbonus := Bool.toNat_le (epoch.isSome && !s.hasProviderEpochReceipt id epoch)
  have hadd : checkedAdd32 (record.view.budget.turns - record.turnsUsed - record.reservedTurns)
      (epoch.isSome && !s.hasProviderEpochReceipt id epoch).toNat =
      some (record.view.budget.turns - record.turnsUsed - record.reservedTurns +
        (epoch.isSome && !s.hasProviderEpochReceipt id epoch).toNat) := if_pos (by simp only [u32Max]; omega)
  rw [heval]
  constructor
  · rintro ⟨h1, h2, h3⟩
    rw [headroom_eq, if_pos h1, ok_bind, hadd, headroom_eq, if_pos h2, headroom_eq, if_pos h3]
    rfl
  · intro hover
    by_cases h1 : record.turnsUsed + record.reservedTurns ≤ record.view.budget.turns
    · rw [headroom_eq, if_pos h1, ok_bind]
      rw [hadd, headroom_eq]
      by_cases h2 : record.tokensUsed + record.reservedTokens ≤ record.view.budget.tokens
      · have h3 : ¬ record.costUsed + record.reservedCost ≤ record.view.budget.costMicrousd := fun h3 => hover ⟨h1, h2, h3⟩
        rw [if_pos h2, headroom_eq, if_neg h3]
        rfl
      · rw [if_neg h2]
        rfl
    · rw [headroom_eq, if_neg h1]
      rfl

/-- **The allowance says of every request whether a budget has no room for it.** -/
theorem allowance_cases (hs : Checked H s)
    (hflag : s.providerBudget.recoveryRequired = false) (hr : s.agents[request.agentId]? = some record)
    (hstate : inState request.agentId request.epoch record = true) :
    (∃ a, s.providerBudgetAllowance request.agentId request.epoch = .ok a ∧
      (Exceeds request a ↔ s.OverAgent request record ∨ s.OverTask request)) ∨
    (s.providerBudgetAllowance request.agentId request.epoch = .error .budget ∧
      (s.OverAgent request record ∨ s.OverTask request)) := by
  obtain ⟨hin, hout⟩ := allowance_eq hs hflag hr hstate
  by_cases hwithin : WithinAgent record
  · rw [hin hwithin]
    have hroom : Exceeds request (s.agentRoom request.agentId request.epoch record) ↔ s.OverAgent request record :=
      exceeds_agentRoom hwithin
    cases hepoch : request.epoch with
    | none =>
      rw [hepoch] at hroom
      refine .inl ⟨_, rfl, hroom.trans (or_iff_left ?_).symm⟩
      rintro ⟨epoch, budget, hsome, -⟩
      rw [hepoch] at hsome
      cases hsome
    | some epoch =>
      rw [hepoch] at hroom
      rcases limitToTask_cases hs hepoch (s.agentRoom request.agentId (some epoch) record) with
        ⟨a, ha, hexceeds⟩ | ⟨herror, htask⟩
      · exact .inl ⟨a, ha, by rw [hexceeds, hroom]⟩
      · exact .inr ⟨herror, .inr htask⟩
  · exact .inr ⟨hout hwithin, .inl (overAgent_of_not_within hwithin)⟩

theorem reservedSnapshot_ne_budget (hs : Checked H s)
    (hok : Presentable H s request) (hr : s.agents[request.agentId]? = some record) (revision : Nat) :
    (s.reservedSnapshot H request record revision).validateSnapshot H ≠ .error .budget := by
  refine validate_ne_budget (fun r hmem => ?_) (fun r hmem => ?_)
  · obtain ⟨k, hk⟩ := (Table.mem_vals _ r).1 hmem
    rcases Table.insert_eq_some hk with ⟨-, rfl⟩ | ⟨-, hold⟩
    · obtain ⟨htokens, hcost⟩ := request_bounded hok.valid
      exact ⟨htokens, hcost, fun tokens cost h => (by cases h)⟩
    · exact hs.bounded r ((Table.mem_vals _ r).2 ⟨k, hold⟩)
  · obtain ⟨k, hk⟩ := (Table.mem_vals _ r).1 hmem
    rcases Table.insert_eq_some hk with ⟨-, rfl⟩ | ⟨-, hold⟩
    · exact (hs.agent hr).2.1
    · exact (hs.agent hold).2.1

end AgentControllerSnapshot

open AgentControllerSnapshot

variable {H : Hashes} {durable : Option AgentControllerSnapshot} {c : Controller} {outcome : Outcome}

theorem commit_budget {next : AgentControllerSnapshot} (h : (c.commit H durable next outcome).2.2 = .error .budget) :
    next.validateSnapshot H = .error .budget := by
  unfold Controller.commit at h
  cases hv : next.validateSnapshot H with
  | error e =>
    rw [hv] at h
    rw [Except.error.inj h]
  | ok u =>
    rw [hv] at h
    dsimp only at h
    split at h
    · cases h
    · split at h <;> cases h

theorem call_reserve_budget {request : AgentProviderBudgetRequest} (hp : c.poisoned = false) (hs : Checked H c.snapshot)
    (hok : Presentable H c.snapshot request) (hflag : c.snapshot.providerBudget.recoveryRequired = false)
    {record : AgentRecord} (hr : c.snapshot.agents[request.agentId]? = some record)
    (hstate : inState request.agentId request.epoch record = true) :
    (c.call H durable (.reserveProviderBudget request) outcome).2.2 = .error .budget ↔
      c.snapshot.OverAgent request record ∨ c.snapshot.OverTask request := by
  have hpre : precheck (.reserveProviderBudget request) = .ok () := rfl
  have hprepare : prepare H c.snapshot (.reserveProviderBudget request) = c.snapshot.reserveProviderBudget H request := rfl
  rw [Controller.call, hpre]
  rw [hp, if_neg (by simp), hprepare]
  rcases reserve_cases hs hok hflag hr hstate with ⟨hover, hreserve⟩ | ⟨hroom, hreserve | ⟨revision, hreserve⟩⟩
  · rw [hreserve]
    exact iff_of_true rfl hover
  · rw [hreserve]
    exact iff_of_false (fun h => (by cases h)) hroom
  · rw [hreserve]
    refine iff_of_false (fun h => ?_) hroom
    dsimp only at h
    split at h
    · cases h
    · rename_i e hcommit
      refine reservedSnapshot_ne_budget hs hok hr revision (commit_budget (?_ : (c.commit H durable _ outcome).2.2 = _))
      rw [hcommit, Except.error.inj h]

/-- **The advisory allowance agrees with admission.**  In every run, for every request that passes the checks of identity,
binding and conflict: when the allowance of its agent and epoch is given, the reservation is refused for the budget
exactly when there is no turn left or the request is for more tokens or cost; when the allowance itself is refused for the
budget, so is the reservation. -/
theorem allowance_agrees (H : Hashes) (es : List Event) (c : Controller) (hc : (World.run H es).live = some c)
    (hp : c.poisoned = false) (request : AgentProviderBudgetRequest) (hok : Presentable H c.snapshot request)
    (outcome : Outcome) : (∀ a, c.providerBudgetAllowance request.agentId request.epoch = .ok a →
      ((c.call H (World.run H es).durable (.reserveProviderBudget request) outcome).2.2 = .error .budget ↔
        a.turns = 0 ∨ request.maxTokens > a.tokens ∨ request.maxCostMicrousd > a.costMicrousd)) ∧
    (c.providerBudgetAllowance request.agentId request.epoch = .error .budget →
      (c.call H (World.run H es).durable (.reserveProviderBudget request) outcome).2.2 = .error .budget) := by
  have hs := valid_live hc hp
  have hallowance : c.providerBudgetAllowance request.agentId request.epoch =
      c.snapshot.providerBudgetAllowance request.agentId request.epoch := by
    rw [Controller.providerBudgetAllowance, hp, if_neg (by simp)]
  rw [hallowance]
  constructor
  · intro a ha
    obtain ⟨hflag, record, hr, hstate⟩ := allowance_state ha (.inr ⟨a, rfl⟩)
    rw [call_reserve_budget hp hs hok hflag hr hstate]
    rcases allowance_cases hs hflag hr hstate with ⟨_, ha', hexceeds⟩ | ⟨herror, -⟩
    · cases ha'.symm.trans ha
      exact hexceeds.symm
    · rw [ha] at herror
      cases herror
  · intro herror
    obtain ⟨hflag, record, hr, hstate⟩ := allowance_state herror (.inl rfl)
    rw [call_reserve_budget hp hs hok hflag hr hstate]
    rcases allowance_cases hs hflag hr hstate with ⟨a, ha, -⟩ | ⟨-, hover⟩
    · rw [ha] at herror
      cases herror
    · exact hover

def boundWorker : List Event := startedWorker ++ [Event.call (.bindProviderBudget 2 sampleScope) .done]

def workerRequest (tokens : Nat) : AgentProviderBudgetRequest :=
  { agentId := 2, scopeSha256 := sampleScope, epoch := some ⟨1, 1⟩, effectId := "effect-1", turn := 1
    route := { routeId := sampleRoute, physicalAttempt := 1, maxCostReservationMicrousd := some 30 }
    maxTokens := tokens, maxCostMicrousd := 30 }

/-- The worker may use four turns, 300 tokens and a cost of 120 more, and is refused 301 tokens. -/
theorem allowance_agrees_worker : ∃ c, (World.run workerHashes boundWorker).live = some c ∧
    c.providerBudgetAllowance 2 (some ⟨1, 1⟩) = .ok ⟨4, 300, 120⟩ ∧
    (c.call workerHashes (World.run workerHashes boundWorker).durable (.reserveProviderBudget (workerRequest 301)) .done).2.2 =
      .error .budget := by
  have hrun : (World.run workerHashes boundWorker).live.map (fun c =>
      decide (c.poisoned = false ∧ c.providerBudgetAllowance 2 (some ⟨1, 1⟩) = .ok ⟨4, 300, 120⟩ ∧
        c.snapshot.providerBudget.bindings[2]? = some ⟨sampleScope, none⟩ ∧
        c.snapshot.providerBudget.receipts.toList = [])) = some true := by decide +kernel
  obtain ⟨c, hc, hfields⟩ := Option.map_eq_some_iff.1 hrun
  obtain ⟨hp, hallowance, hbinding, hnone⟩ := of_decide_eq_true hfields
  have hempty : c.snapshot.providerBudget.receipts = ∅ := by
    rw [← Std.ExtTreeMap.isEmpty_iff, ← Std.ExtTreeMap.isEmpty_toList, hnone]
    rfl
  have hok : Presentable workerHashes c.snapshot (workerRequest 301) := by
    refine ⟨by decide +kernel, ⟨_, hbinding, .inl rfl⟩, ?_, ?_, ?_⟩
    · rw [hempty]
      rfl
    · rw [hempty]
      decide
    · rw [Table.vals, hnone]
      intro r hr
      cases hr
  obtain ⟨hgiven, -⟩ := allowance_agrees workerHashes boundWorker c hc hp (workerRequest 301) hok .done
  exact ⟨c, hc, hallowance, (hgiven _ hallowance).2 (.inr (.inl (by decide)))⟩

end Iteron.Agents
