import Iteron.AgentRun
/-!
# AgentValid — every durable snapshot passes its own check

`validateSnapshot` is read part by part (`Checked`), and each part by what it depends on: an agent may stop, use more and
leave a summary, messages may be rejected, and the check still passes (`Continues`).  A quarantine is such a change, so
together with the first snapshot and the validated commits every snapshot of a run is valid (`valid_run`).
-/
namespace Iteron.Agents

open Machine Refuse

namespace AgentControllerSnapshot

variable {H : Hashes} {s s' : AgentControllerSnapshot}

/-! ## The parts of the check -/

structure Checked (H : Hashes) (s : AgentControllerSnapshot) : Prop where
  config : s.config.validate = .ok ()
  provider : s.validateProviderBudget H = .ok ()
  cohort : s.validateCohort H = .ok ()
  witness : s.validateWitness = .ok ()
  version : s.version = agentControlVersion
  revision : s.revision ≤ maxRevision
  agentCount : s.agents.size ≤ s.config.maxAgents
  receiptCount : s.receipts.size ≤ maxReceipts
  root : s.agents.contains 1 = true
  nextAgent : s.agents.keys.foldl max 0 < s.nextAgent
  agents : ∀ (id : AgentId) (r : AgentRecord), s.agents[id]? = some r → s.validateAgent H id r = .ok ()
  claimCount : s.workflowClaims.size ≤ maxReceipts
  claims : ∀ (key : String) (r : WorkflowReceipt), s.workflowClaims[key]? = some r → s.validateClaim H key r = .ok ()
  mailbox : s.mailbox.validate H s.agents.keys s.config.maxPendingPerAgent = .ok ()
  requests : ∀ r ∈ Table.vals s.receipts, s.validateRequestReceipt r = .ok ()

theorem validateSnapshot_iff : s.validateSnapshot H = .ok () ↔ Checked H s := by
  constructor
  · intro h
    simp only [validateSnapshot, validateClaims, bind_eq_ok, refuseIf_eq_ok, not_or, not_lt, not_not, not_le,
      Bool.not_eq_false] at h
    obtain ⟨_, hconfig, _, hprovider, _, hcohort, _, hwitness, _, ⟨hversion, hrevision, hagents, hreceipts, hroot, hnext⟩,
      _, hall, _, ⟨_, hcount, hclaims⟩, _, hmailbox, hrequests⟩ := h
    exact ⟨hconfig, hprovider, hcohort, hwitness, hversion, hrevision, hagents, hreceipts, hroot, hnext,
      fun id r hr => forM_ok hall (id, r) ((Table.mem_toList s.agents id r).2 hr), hcount,
      fun key r hr => forM_ok hclaims (key, r) ((Table.mem_toList s.workflowClaims key r).2 hr), hmailbox,
      forM_ok hrequests⟩
  · intro h
    simp only [validateSnapshot, validateClaims, bind_eq_ok, refuseIf_eq_ok, not_or, not_lt, not_not, not_le,
      Bool.not_eq_false]
    exact ⟨(), h.config, (), h.provider, (), h.cohort, (), h.witness, (),
      ⟨h.version, h.revision, h.agentCount, h.receiptCount, h.root, h.nextAgent⟩, (),
      forM_of_ok (fun p hp => h.agents p.1 p.2 ((Table.mem_toList s.agents p.1 p.2).1 hp)), (),
      ⟨(), h.claimCount, forM_of_ok (fun p hp => h.claims p.1 p.2 ((Table.mem_toList s.workflowClaims p.1 p.2).1 hp))⟩,
      (), h.mailbox, forM_of_ok h.requests⟩

/-! ## Changes the check does not see -/

/-- The record of an agent that may have stopped, used more and left a summary. -/
structure Kept (r r' : AgentRecord) : Prop where
  view : r'.view = { r.view with state := r'.view.state, lastSummary := r'.view.lastSummary }
  nextTurn : r'.nextTurn = r.nextTurn
  native : r'.nativeExecution = r.nativeExecution
  reservedTurns : r'.reservedTurns = r.reservedTurns
  reservedTokens : r'.reservedTokens = r.reservedTokens
  reservedCost : r'.reservedCost = r.reservedCost
  turns : r.turnsUsed ≤ r'.turnsUsed
  tokens : r.tokensUsed ≤ r'.tokensUsed
  cost : r.costUsed ≤ r'.costUsed

/-- The same tree, bindings and receipts, with agents kept and messages perhaps rejected. -/
structure Continues (s s' : AgentControllerSnapshot) (f : AgentId → AgentRecord → AgentRecord)
    (p : AgentMailboxMessage → Bool) : Prop where
  frame : s' = { s with
    agents := s.agents.map f, mailbox := s.mailbox.rejectWhere p, workflowClaims := s'.workflowClaims
    revision := s'.revision
    providerBudget := { s.providerBudget with recoveryRequired := s'.providerBudget.recoveryRequired } }
  kept : ∀ (id : AgentId) (r : AgentRecord), s.agents[id]? = some r → Kept r (f id r)
  flag : s.providerBudget.recoveryRequired = true → s'.providerBudget.recoveryRequired = true
  revision : s.revision ≤ s'.revision

variable {agentIds : List AgentId}

theorem validateMessage_reject {id : MessageId} {m : AgentMailboxMessage}
    (h : AgentMailbox.validateMessage H agentIds id m = .ok ()) :
    AgentMailbox.validateMessage H agentIds id (AgentMailbox.reject m) = .ok () := by
  simp only [AgentMailbox.validateMessage, bind_eq_ok, refuseIf_eq_ok, not_or] at h ⊢
  obtain ⟨_, ⟨h1, h2, h3, h4, h5, h6, -, h7, h8, -⟩, -⟩ := h
  exact ⟨(), ⟨h1, h2, h3, h4, h5, h6, by simp [AgentMailbox.reject], h7, h8,
    by simp [AgentMailbox.reject, AgentMailbox.badDelivery], by simp [AgentMailbox.reject]⟩,
    refuseIf_of_not (by simp [AgentMailbox.reject, AgentMailbox.isPending])⟩

theorem validate_rejectWhere {m : AgentMailbox} {n : Nat} (p : AgentMailboxMessage → Bool)
    (h : m.validate H agentIds n = .ok ()) : (m.rejectWhere p).validate H agentIds n = .ok () := by
  have hcount : ∀ id, (m.rejectWhere p).pendingCount id ≤ m.pendingCount id := by
    intro id
    simp only [AgentMailbox.pendingCount, AgentMailbox.rejectWhere, Table.vals, Std.ExtTreeMap.toList_map, List.map_map,
      ← List.countP_eq_length_filter, List.countP_map]
    refine List.countP_mono_left (fun q _ hq => ?_)
    cases hp : p q.2 with
    | true => simp [Function.comp, hp, AgentMailbox.reject, AgentMailbox.isPending] at hq
    | false => simpa [Function.comp, hp] using hq
  simp only [AgentMailbox.validate, bind_eq_ok, refuseIf_eq_ok] at h ⊢
  obtain ⟨_, henvelope, _, hall, hpending⟩ := h
  refine ⟨(), ?_, (), forM_of_ok (fun q hq => ?_), ?_⟩
  · simpa only [AgentMailbox.rejectWhere, Std.ExtTreeMap.size_map, Std.ExtTreeMap.keys_map] using henvelope
  · have hget := (Table.mem_toList _ q.1 q.2).1 hq
    rw [AgentMailbox.rejectWhere, Table.get_map, Option.map_eq_some_iff] at hget
    obtain ⟨x, hx, hq⟩ := hget
    have hvalid := forM_ok hall (q.1, x) ((Table.mem_toList _ q.1 x).2 hx)
    rw [← hq]
    by_cases hp : p x = true
    · rw [if_pos hp]
      exact validateMessage_reject hvalid
    · rw [if_neg hp]
      exact hvalid
  · rw [Bool.not_eq_true, List.any_eq_false] at hpending ⊢
    intro id hid
    have hle := hpending id hid
    rw [decide_eq_true_eq, not_lt] at hle ⊢
    exact (hcount id).trans hle

theorem foldlM_addChild : ∀ {l l' : List AgentRecord} {held : Nat × Nat × Nat},
    l.map (fun child => child.view.budget) = l'.map (fun child => child.view.budget) →
    l.foldlM addChild held = l'.foldlM addChild held
  | [], [], _, _ => rfl
  | [], _ :: _, _, h => by cases h
  | _ :: _, [], _, h => by cases h
  | c :: l, c' :: l', held, h => by
    simp only [List.map_cons, List.cons.injEq] at h
    have hone : addChild held c = addChild held c' := by rw [addChild, addChild, h.1]
    rw [List.foldlM_cons, List.foldlM_cons, hone]
    exact bind_congr (fun held' => foldlM_addChild h.2)

namespace Continues

variable {f : AgentId → AgentRecord → AgentRecord} {p : AgentMailboxMessage → Bool} (h : Continues s s' f p)
include h

theorem agents : s'.agents = s.agents.map f := by rw [h.frame]
theorem mailbox : s'.mailbox = s.mailbox.rejectWhere p := by rw [h.frame]
theorem config : s'.config = s.config := by rw [h.frame]
theorem version : s'.version = s.version := by rw [h.frame]
theorem nextAgent : s'.nextAgent = s.nextAgent := by rw [h.frame]
theorem receipts : s'.receipts = s.receipts := by rw [h.frame]
theorem witness : s'.workspaceWitness = s.workspaceWitness := by rw [h.frame]
theorem cohortBindings : s'.cohortBindings = s.cohortBindings := by rw [h.frame]
theorem bindings : s'.providerBudget.bindings = s.providerBudget.bindings := by rw [h.frame]
theorem providerReceipts : s'.providerBudget.receipts = s.providerBudget.receipts := by rw [h.frame]

theorem get (id : AgentId) : s'.agents[id]? = (s.agents[id]?).map (f id) := by
  rw [h.agents, Table.get_map]

theorem contains (id : AgentId) : s'.agents.contains id = s.agents.contains id := by
  rw [h.agents, Std.ExtTreeMap.contains_map]

theorem scopeOwner (scope : String) : s'.scopeOwner scope = s.scopeOwner scope := by
  rw [h.frame]
  rfl

theorem cohortRootScope (scope : String) : s'.cohortRootScope scope = s.cohortRootScope scope := by
  rw [h.frame]
  rfl

theorem primaryOwner (scope : String) : s'.primaryProviderScopeOwner scope = s.primaryProviderScopeOwner scope := by
  rw [h.frame]
  rfl

theorem baseline (scope : String) : s'.providerBudgetBaseline scope = s.providerBudgetBaseline scope := by
  rw [h.frame]
  rfl

theorem validateReceipt {tally tally' : Tally} {q : String × Receipt} (hs : s.validateReceipt H tally q = .ok tally') :
    s'.validateReceipt H tally q = .ok tally' := by
  simp only [AgentControllerSnapshot.validateReceipt, bind_eq_ok, refuseIf_eq_ok, orElseError_eq_ok] at hs ⊢
  obtain ⟨_, hrequest, _, hreceipt, r, hr, hrest⟩ := hs
  have hkept := h.kept _ r hr
  have hincarnation : (f q.2.request.agentId r).view.incarnation = r.view.incarnation := by rw [hkept.view]
  refine ⟨(), hrequest, (), ?_, f q.2.request.agentId r, by rw [h.get, hr]; rfl, ?_⟩
  · rw [h.contains, h.bindings, h.cohortRootScope]
    exact hreceipt
  · rw [hincarnation, hkept.nextTurn]
    exact hrest

theorem provider (hs : s.validateProviderBudget H = .ok ()) : s'.validateProviderBudget H = .ok () := by
  have hbinding : ∀ scopes q scopes', s.validateBinding scopes q = .ok scopes' →
      s'.validateBinding scopes q = .ok scopes' := by
    intro scopes q scopes' hq
    simpa only [validateBinding, bind_eq_ok, refuseIf_eq_ok, h.contains, h.config] using hq
  simp only [validateProviderBudget, bind_eq_ok, refuseIf_eq_ok, h.bindings, h.providerReceipts, h.config] at hs ⊢
  obtain ⟨_, hsize, scopes, hscopes, tally, htally, turns, hturns, _, hspent, _, hknown, hflag⟩ := hs
  refine ⟨(), hsize, scopes, foldlM_mono hbinding hscopes, tally, foldlM_mono (fun _ _ _ => h.validateReceipt) htally,
    turns, hturns, (), forM_of_ok (fun q hq => ?_), (), forM_of_ok (fun q hq => ?_), ?_⟩
  · have hle := refuseIf_eq_ok.1 (forM_ok hspent q hq)
    refine refuseIf_of_not ?_
    rw [h.get]
    cases hr : s.agents[q.1]? with
    | none => simp
    | some r =>
      rw [hr] at hle
      simp only [Option.any_some, decide_eq_true_eq, not_lt, Option.map_some] at hle ⊢
      exact hle.trans (h.kept _ r hr).turns
  · have hle := refuseIf_eq_ok.1 (forM_ok hknown q hq)
    refine refuseIf_of_not ?_
    rw [h.get]
    cases hr : s.agents[q.1]? with
    | none => simp
    | some r =>
      rw [hr] at hle
      simp only [Option.any_some, Bool.or_eq_true, decide_eq_true_eq, not_or, not_lt, Option.map_some] at hle ⊢
      exact ⟨hle.1.trans (h.kept _ r hr).tokens, hle.2.trans (h.kept _ r hr).cost⟩
  · rintro ⟨hunknown, hclear⟩
    refine hflag ⟨hunknown, ?_⟩
    cases hbefore : s.providerBudget.recoveryRequired with
    | false => rfl
    | true => rw [h.flag hbefore] at hclear; cases hclear

theorem cohort (hs : s.validateCohort H = .ok ()) : s'.validateCohort H = .ok () := by
  rw [validateCohort, bind_eq_ok] at hs ⊢
  obtain ⟨_, hsize, hs⟩ := hs
  refine ⟨(), by rw [h.cohortBindings]; exact hsize, ?_⟩
  rw [h.cohortBindings]
  cases horigin : s.cohortBindings.origin with
  | none =>
    rw [horigin] at hs
    exact hs
  | some _ =>
    rw [horigin] at hs
    simp only [bind_eq_ok, refuseIf_eq_ok, h.config, h.baseline, h.contains] at hs ⊢
    obtain ⟨_, hvalid, _, hconfig, baseline, hbaseline, _, hsome, _, hruns, hroot⟩ := hs
    refine ⟨(), hvalid, (), hconfig, baseline, hbaseline, (), hsome, (), forM_of_ok (fun q hq => ?_), hroot⟩
    have hrun := forM_ok hruns q hq
    simp only [bind_eq_ok, refuseIf_eq_ok, h.primaryOwner] at hrun ⊢
    exact hrun

theorem witnessed (hs : s.validateWitness = .ok ()) : s'.validateWitness = .ok () := by
  simpa only [validateWitness, h.witness, h.config] using hs

theorem stands : Stands s s' := fun id r hr =>
  ⟨f id r, by rw [h.get, hr]; rfl, by rw [(h.kept id r hr).view], by rw [(h.kept id r hr).view],
    by rw [(h.kept id r hr).view], by rw [(h.kept id r hr).view]⟩

variable {id : AgentId} {r : AgentRecord}

theorem identity (hr : s.agents[id]? = some r) (hs : s.validateIdentity id r = .ok ())
    (hsummary : (f id r).view.lastSummary.any (fun text => decide (text.utf8ByteSize > maxAgentTextBytes) || text.toList.contains '\x00') = false)
    : s'.validateIdentity id (f id r) = .ok () := by
  have hkept := h.kept id r hr
  have hturns := hkept.turns
  simp only [validateIdentity, bind_eq_ok, refuseIf_eq_ok, not_or, hkept.nextTurn, h.config] at hs ⊢
  rw [hkept.view]
  obtain ⟨_, ⟨h1, h2, h3, h4, _, h6, h7, h8, h9, h10, h11, h12, h13, -⟩, hrest⟩ := hs
  exact ⟨(), ⟨h1, h2, h3, h4, by omega, h6, h7, h8, h9, h10, h11, h12, h13, by rw [hsummary]; simp⟩, hrest⟩

theorem childBudgets (id : AgentId) : (s'.childrenOf id).map (fun child => child.view.budget) =
    (s.childrenOf id).map (fun child => child.view.budget) := by
  have hvals : Table.vals s'.agents = s.agents.toList.map (fun q => f q.1 q.2) := by
    rw [h.agents, Table.vals, Std.ExtTreeMap.toList_map, List.map_map]
    rfl
  have hkept : ∀ q ∈ s.agents.toList, Kept q.2 (f q.1 q.2) := fun q hq =>
    h.kept q.1 q.2 ((Table.mem_toList s.agents q.1 q.2).1 hq)
  rw [childrenOf, childrenOf, hvals, Table.vals, List.filter_map, List.filter_map, List.map_map, List.map_map]
  have hfilter : s.agents.toList.filter ((fun child => child.view.parentId == some id) ∘ fun q => f q.1 q.2) =
      s.agents.toList.filter ((fun child => child.view.parentId == some id) ∘ Prod.snd) := by
    refine List.filter_congr (fun q hq => ?_)
    show ((f q.1 q.2).view.parentId == some id) = _
    rw [(hkept q hq).view]
    rfl
  rw [hfilter]
  refine List.map_congr_left (fun q hq => ?_)
  show (f q.1 q.2).view.budget = _
  rw [(hkept q (List.mem_of_mem_filter hq)).view]
  rfl

theorem reservation (id : AgentId) : s'.reservation id = s.reservation id := by
  have hpending : s'.pending id = s.pending id := by
    rw [h.frame]
    rfl
  rw [AgentControllerSnapshot.reservation, AgentControllerSnapshot.reservation,
    foldlM_addChild (h.childBudgets id), hpending]

theorem agent (hr : s.agents[id]? = some r) (hs : s.validateAgent H id r = .ok ())
    (hsummary : (f id r).view.lastSummary.any (fun text => decide (text.utf8ByteSize > maxAgentTextBytes) || text.toList.contains '\x00') = false)
    (husage : usageFits (f id r) = true ∨ mayExceed (f id r).view.state = true)
    (hruntime : s'.validateRuntime id (f id r) = .ok ()) : s'.validateAgent H id (f id r) = .ok () := by
  have hkept := h.kept id r hr
  simp only [validateAgent, bind_eq_ok] at hs ⊢
  obtain ⟨_, hidentity, _, hreservations, _, hroot, _, hnative, _, hancestry, -⟩ := hs
  refine ⟨(), h.identity hr hidentity hsummary, (), ?_, (), ?_, (), ?_, (), h.stands.ancestry hancestry, hruntime⟩
  · have hfits : reservedFits (f id r) = reservedFits r := by
      rw [reservedFits, reservedFits, hkept.reservedTurns, hkept.reservedTokens, hkept.reservedCost, hkept.view]
    simp only [validateReservations, bind_eq_ok, refuseIf_eq_ok, h.reservation, hfits, hkept.reservedTurns,
      hkept.reservedTokens, hkept.reservedCost] at hreservations ⊢
    obtain ⟨_, henvelope, hrest⟩ := hreservations
    refine ⟨(), ?_, hrest⟩
    rintro (hreserved | ⟨hover, hstate⟩)
    · exact henvelope (.inl hreserved)
    · rcases husage with hfits | hmay
      · rw [hfits] at hover
        cases hover
      · rw [hmay] at hstate
        cases hstate
  · simp only [validateRoot, bind_eq_ok, refuseIf_eq_ok, h.config] at hroot ⊢
    rw [hkept.view]
    exact hroot
  · rw [validateNativeExecution, hkept.native]
    rw [validateNativeExecution] at hnative
    cases hexec : r.nativeExecution with
    | none => rfl
    | some _ =>
      rw [hexec] at hnative
      simp only [validateOption, bind_eq_ok, refuseIf_eq_ok, h.scopeOwner] at hnative ⊢
      rw [hkept.view]
      exact hnative

theorem message (id : MessageId) : s'.mailbox.message id =
    (s.mailbox.message id).map (fun m => if p m then AgentMailbox.reject m else m) := by
  rw [h.mailbox, AgentMailbox.message, AgentMailbox.message, AgentMailbox.rejectWhere, Table.get_map]

theorem request {receipt : RequestReceipt} (hs : s.validateRequestReceipt receipt = .ok ()) :
    s'.validateRequestReceipt receipt = .ok () := by
  have hreceiver : ∀ id, (s'.mailbox.message id).all (fun message => message.receiver != receipt.reply.agentId) =
      (s.mailbox.message id).all (fun message => message.receiver != receipt.reply.agentId) := by
    intro id
    rw [h.message]
    cases s.mailbox.message id with
    | none => rfl
    | some m => cases hp : p m <;> simp [hp, AgentMailbox.reject]
  simp only [validateRequestReceipt, refuseIf_eq_ok, not_or, h.contains, hreceiver] at hs ⊢
  obtain ⟨h1, h2, h3, _, hrest⟩ := hs
  have hrevision := h.revision
  exact ⟨h1, h2, h3, by omega, hrest⟩

/-- **A snapshot that continues a valid one is valid** when its claims are, its revision is in range, and each agent's
summary, usage and runtime are in order. -/
theorem checked (hs : Checked H s) (hrevision : s'.revision ≤ maxRevision) (hclaims : s'.workflowClaims.size ≤ maxReceipts)
    (hclaim : ∀ (key : String) (r : WorkflowReceipt), s'.workflowClaims[key]? = some r → s'.validateClaim H key r = .ok ())
    (hagent : ∀ (id : AgentId) (r : AgentRecord), s.agents[id]? = some r → (f id r).view.lastSummary.any
        (fun text => decide (text.utf8ByteSize > maxAgentTextBytes) || text.toList.contains '\x00') = false ∧
      (usageFits (f id r) = true ∨ mayExceed (f id r).view.state = true) ∧
      s'.validateRuntime id (f id r) = .ok ()) : Checked H s' where
  config := by rw [h.config]; exact hs.config
  provider := h.provider hs.provider
  cohort := h.cohort hs.cohort
  witness := h.witnessed hs.witness
  version := by rw [h.version]; exact hs.version
  revision := hrevision
  agentCount := by rw [h.agents, h.config, Std.ExtTreeMap.size_map]; exact hs.agentCount
  receiptCount := by rw [h.receipts]; exact hs.receiptCount
  root := by rw [h.contains]; exact hs.root
  nextAgent := by rw [h.agents, h.nextAgent, Std.ExtTreeMap.keys_map]; exact hs.nextAgent
  agents := by
    intro id r' hr'
    rw [h.get, Option.map_eq_some_iff] at hr'
    obtain ⟨r, hr, rfl⟩ := hr'
    obtain ⟨hsummary, husage, hruntime⟩ := hagent id r hr
    exact h.agent hr (hs.agents id r hr) hsummary husage hruntime
  claimCount := hclaims
  claims := hclaim
  mailbox := by
    rw [h.agents, h.config, h.mailbox, Std.ExtTreeMap.keys_map]
    exact validate_rejectWhere p hs.mailbox
  requests := by
    rw [h.receipts]
    exact fun r hr => h.request (hs.requests r hr)

end Continues

theorem Checked.agent (hs : Checked H s) {id : AgentId} {r : AgentRecord} (hr : s.agents[id]? = some r) :
    r.view.agentId = id ∧ r.view.budget.validate = .ok () ∧ r.view.lastSummary.any
        (fun text => decide (text.utf8ByteSize > maxAgentTextBytes) || text.toList.contains '\x00') = false ∧
      (usageFits r = true ∨ mayExceed r.view.state = true) ∧ s.validateRuntime id r = .ok () := by
  have hagent := hs.agents id r hr
  have hplaced := accepted_placed (validateSnapshot_iff.2 hs) hr
  simp only [validateAgent, validateIdentity, bind_eq_ok, refuseIf_eq_ok, not_or] at hagent
  obtain ⟨_, ⟨_, ⟨-, hid, -, -, -, -, -, -, -, -, -, -, -, hsummary⟩, _, hbudget, -⟩, _, -, _, -, _, -, _, -, hruntime⟩ := hagent
  refine ⟨(not_not.1 hid).symm, ?_, Bool.not_eq_true _ ▸ hsummary, hplaced.envelope.2, hruntime⟩
  cases hb : r.view.budget.validate with
  | ok u => rfl
  | error e => rw [hb] at hbudget; cases hbudget

/-! ## Claims -/

def validateCompletion (record : AgentRecord) (receipt : WorkflowReceipt) : Except ControllerError Unit :=
  match receipt.completion with
  | some completion =>
    refuseIf (completion.agentId ≠ record.view.agentId ∨ completion.epoch ≠ receipt.epoch ∨
        completion.summary.utf8ByteSize > maxAgentTextBytes ∨ completion.summary.toList.contains '\x00' = true ∨
        completion.usage.turns = 0 ∨
        (completion.accountingKnown = false ∧ (match record.view.state with
          | .recoveryRequired _ => true
          | _ => false) = false))
      (.invalid "invalid durable workflow completion")
  | none =>
    refuseIf (record.view.state.epoch ≠ some receipt.epoch) (.invalid "unsettled workflow lost its runtime epoch")

variable {key : String} {receipt : WorkflowReceipt}

theorem validateClaim_completion (hs : s.validateClaim H key receipt = .ok ()) :
    ∃ r, s.agents[receipt.claim.assignedAgent]? = some r ∧
      receipt.claim.budget.validate = .ok () ∧ validateCompletion r receipt = .ok () := by
  simp only [validateClaim, AgentWorkflowClaim.validate, bind_eq_ok, orElseError_eq_ok] at hs
  obtain ⟨_, ⟨_, -, _, -, _, -, hbudget⟩, r, hr, _, -, _, -, _, -, hcompletion⟩ := hs
  refine ⟨r, hr, ?_, hcompletion⟩
  cases hb : receipt.claim.budget.validate with
  | ok u => rfl
  | error e => rw [hb] at hbudget; cases hbudget

theorem Continues.claim {f : AgentId → AgentRecord → AgentRecord} {p : AgentMailboxMessage → Bool}
    (h : Continues s s' f p) {completion : Option AgentWorkflowCompletion} (hs : s.validateClaim H key receipt = .ok ())
    (hdone : ∀ r, s.agents[receipt.claim.assignedAgent]? = some r → validateCompletion r receipt = .ok () → validateCompletion (f receipt.claim.assignedAgent r) { receipt with completion := completion } = .ok ())
    : s'.validateClaim H key { receipt with completion := completion } = .ok () := by
  simp only [validateClaim, bind_eq_ok, orElseError_eq_ok] at hs ⊢
  obtain ⟨_, hclaim, r, hr, _, hexecution, m, hm, _, hvalid, hcompletion⟩ := hs
  have hkept := h.kept _ r hr
  refine ⟨(), hclaim, f receipt.claim.assignedAgent r, by rw [h.get, hr]; rfl, (), ?_,
    if p m then AgentMailbox.reject m else m, by rw [h.message, hm]; rfl, (), ?_, hdone r hr hcompletion⟩
  · cases hx : receipt.claim.execution with
    | none => rfl
    | some _ =>
      rw [hx] at hexecution
      simp only [validateOption, refuseIf_eq_ok, h.scopeOwner] at hexecution ⊢
      rw [hkept.view]
      exact hexecution
  · have hreceiver : (if p m then AgentMailbox.reject m else m).receiver = m.receiver := by cases p m <;> rfl
    have hkind : (if p m then AgentMailbox.reject m else m).kind = m.kind := by cases p m <;> rfl
    have hcontent : (if p m then AgentMailbox.reject m else m).contentSha256 = m.contentSha256 := by cases p m <;> rfl
    simp only [refuseIf_eq_ok, hreceiver, hkind, hcontent, hkept.nextTurn] at hvalid ⊢
    rw [hkept.view]
    exact hvalid

/-! ## The first snapshot and the quarantine -/

theorem Kept.refl (r : AgentRecord) : Kept r r := ⟨rfl, rfl, rfl, rfl, rfl, rfl, le_rfl, le_rfl, le_rfl⟩

theorem continues_quarantine (s : AgentControllerSnapshot) :
    Continues s { Controller.quarantine s with revision := s.revision + 1 }
      (fun _ record => { record with view := { record.view with state := Controller.quarantined record.view.state } })
      (fun _ => false) where
  frame := by
    have hmailbox : s.mailbox.rejectWhere (fun _ => false) = s.mailbox := by
      simp only [AgentMailbox.rejectWhere, Bool.false_eq_true, if_false]
      cases hm : s.mailbox with
      | mk _ _ _ =>
        simp only [AgentMailbox.mk.injEq, true_and]
        exact Std.ExtTreeMap.ext_getElem? (fun {k} => by rw [Table.get_map, Option.map_id'])
    rw [hmailbox]
    rfl
  kept := fun id r _ => ⟨rfl, rfl, rfl, rfl, rfl, rfl, le_rfl, le_rfl, le_rfl⟩
  flag := fun hflag => by simp [Controller.quarantine, hflag]
  revision := Nat.le_succ _

theorem mayExceed_quarantined {state : AgentState} (h : mayExceed state = true) :
    mayExceed (Controller.quarantined state) = true := by
  cases state <;> first | rfl | cases h

theorem checked_quarantine (hs : Checked H s) (hrevision : s.revision + 1 ≤ maxRevision) :
    Checked H { Controller.quarantine s with revision := s.revision + 1 } := by
  have h := continues_quarantine s
  refine h.checked hs hrevision hs.claimCount (fun key receipt hreceipt => ?_) (fun id r hr => ?_)
  · refine h.claim (hs.claims key receipt hreceipt) (fun r hr hdone => ?_)
    unfold validateCompletion at hdone ⊢
    cases hcompletion : receipt.completion with
    | none =>
      rw [hcompletion] at hdone
      simp only [Controller.quarantined_epoch]
      exact hdone
    | some _ =>
      rw [hcompletion] at hdone
      simp only [refuseIf_eq_ok, not_or] at hdone ⊢
      obtain ⟨h1, h2, h3, h4, h5, haccount⟩ := hdone
      refine ⟨h1, h2, h3, h4, h5, fun ⟨hunknown, hstate⟩ => haccount ⟨hunknown, ?_⟩⟩
      cases hr : r.view.state <;> simp [hr, Controller.quarantined] at hstate ⊢
  · obtain ⟨-, -, hsummary, husage, hruntime⟩ := hs.agent hr
    refine ⟨hsummary, ?_, ?_⟩
    · rcases husage with hfits | hmay
      · exact .inl hfits
      · exact .inr (mayExceed_quarantined hmay)
    · simp only [validateRuntime, Controller.quarantined_epoch] at hruntime ⊢
      exact hruntime

variable {config : AgentControllerConfig}

theorem config_ok (h : config.validate = .ok ()) : config.rootBudget.validate = .ok () ∧
    config.maxAgents ≠ 0 ∧ config.maxAgents ≤ Agents.maxAgents ∧ config.rootCapabilities.contains .readOnly = true := by
  simp only [AgentControllerConfig.validate, bind_eq_ok, refuseIf_eq_ok, not_or, not_lt, Bool.not_eq_false] at h
  obtain ⟨_, hbudget, -, hzero, hmax, -, -, hread⟩ := h
  refine ⟨?_, hzero, hmax, hread⟩
  cases hb : config.rootBudget.validate with
  | ok u => rfl
  | error e => rw [hb] at hbudget; cases hbudget

theorem get_genesis {id : AgentId} {r : AgentRecord} (h : (Controller.genesis config).agents[id]? = some r) :
    id = 1 ∧ r = newRecord 1 none "root" config config.rootCapabilities config.rootBudget [] := by
  rcases Table.insert_eq_some h with ⟨rfl, rfl⟩ | ⟨-, hnone⟩
  · exact ⟨rfl, rfl⟩
  · simp at hnone

theorem checked_genesis (h : config.validate = .ok ()) : Checked H (Controller.genesis config) := by
  obtain ⟨hbudget, _, -, hread⟩ := config_ok h
  have hreserved : (Controller.genesis config).reservation 1 = .ok (0, 0, 0) := by rfl
  refine ⟨h, ?_, ?_, rfl, rfl, Nat.zero_le _, ?_, Nat.zero_le _, ?_, ?_, ?_, Nat.zero_le _, ?_, ?_, ?_⟩
  · rfl
  · rfl
  · show (Std.ExtTreeMap.insert ∅ 1 _).size ≤ config.maxAgents
    rw [Std.ExtTreeMap.size_insert]
    simp
    omega
  · simp [Controller.genesis]
  · show 1 < 2
    decide
  · intro id r hr
    obtain ⟨rfl, rfl⟩ := get_genesis hr
    have hrecord : (Controller.genesis config).agents[1]? =
        some (newRecord 1 none "root" config config.rootCapabilities config.rootBudget []) := by
      rw [Controller.genesis, Table.get_insert, if_pos rfl]
    simp only [validateAgent, bind_eq_ok]
    refine ⟨(), ?_, (), ?_, (), ?_, (), rfl, (), ?_, ?_⟩
    · simp only [validateIdentity, bind_eq_ok, refuseIf_eq_ok, not_or]
      refine ⟨(), ?_, (), ?_, (), ?_, (), rfl, by simp [newRecord]⟩
      · simp [newRecord, Controller.genesis, hread, CapabilitySet.isSubsetOf, AgentBudget.fitsWithin]
      · simp [newRecord, hbudget, liftInvalid]
      · show liftInvalid (validateLabel "root") = .ok ()
        decide
    · simp only [validateReservations, bind_eq_ok, refuseIf_eq_ok, hreserved]
      simp [newRecord, reservedFits, usageFits, checkedAdd, checkedAdd32]
    · simp [validateRoot, newRecord, Controller.genesis]
    · simp [validateAncestry, maxHierarchyDepth, hrecord, orElseError, newRecord]
    · simp [validateRuntime, newRecord, AgentState.epoch]
  · intro key r hr
    simp [Controller.genesis] at hr
  · have hkeys : (Controller.genesis config).agents.keys = [1] := rfl
    have hpending : (Controller.genesis config).mailbox.pendingCount 1 = 0 := rfl
    have hmessages : (Controller.genesis config).mailbox.messages.toList = [] := rfl
    simp only [AgentMailbox.validate, bind_eq_ok, refuseIf_eq_ok, hkeys, hmessages]
    refine ⟨(), ?_, (), rfl, ?_⟩
    · have hnone : (Controller.genesis config).mailbox.messages.keys = [] := rfl
      rw [hnone]
      simp [Controller.genesis]
    · simp [hpending]
  · intro r hr
    obtain ⟨k, hk⟩ := (Table.mem_vals _ r).1 hr
    simp [Controller.genesis] at hk

end AgentControllerSnapshot

/-! ## Runs -/

open AgentControllerSnapshot

variable {H : Hashes} {failure : Option ControllerStoreError}

theorem open_config {config : AgentControllerConfig} {first second : Outcome} {s : AgentControllerSnapshot}
    (h : (Controller.open H none config failure first second).1 = some s) : config.validate = .ok () := by
  unfold Controller.open at h
  cases hv : config.validate with
  | ok u => rfl
  | error e =>
    rw [hv] at h
    cases h

theorem load_some (s : AgentControllerSnapshot) (config : AgentControllerConfig)
    (failure : Option ControllerStoreError) (outcome : Outcome) : (Controller.load H (some s) config failure outcome).1 = some s ∧
      ∀ s', (Controller.load H (some s) config failure outcome).2 = .ok s' → s' = s := by
  cases failure with
  | some e => exact ⟨rfl, fun s' h => (by cases h)⟩
  | none =>
    refine ⟨rfl, fun s' h => ?_⟩
    simp only [Controller.load, bind_eq_ok, pure_eq_ok] at h
    obtain ⟨_, -, _, -, rfl⟩ := h
    rfl

theorem open_revision {config : AgentControllerConfig} {first second : Outcome} {s s' : AgentControllerSnapshot}
    (h : (Controller.open H (some s) config failure first second).1 = some s') :
    s' = s ∨ s'.revision ≤ maxRevision := by
  unfold Controller.open at h
  cases hv : config.validate with
  | error e =>
    rw [hv] at h
    exact .inl (Option.some.inj h).symm
  | ok u =>
    rw [hv] at h
    obtain ⟨hdurable, hsame⟩ := load_some (H := H) s config failure first
    generalize Controller.load H (some s) config failure first = loaded at h hdurable hsame
    obtain ⟨_, result⟩ := loaded
    subst hdurable
    cases result with
    | error e => exact .inl (Option.some.inj h).symm
    | ok s1 =>
      obtain rfl := hsame s1 rfl
      dsimp only at h
      cases hmust : Controller.mustQuarantine s1 with
      | false =>
        rw [hmust] at h
        exact .inl (Option.some.inj h).symm
      | true =>
        rw [hmust, if_pos rfl] at h
        cases hrevision : nextRevision s1.revision with
        | error e =>
          rw [hrevision] at h
          exact .inl (Option.some.inj h).symm
        | ok revision =>
          rw [hrevision] at h
          have hmax : revision ≤ maxRevision := by
            rw [nextRevision, orElseError_eq_ok, Option.filter_eq_some_iff] at hrevision
            simpa using hrevision.2
          dsimp only at h
          rcases journalCommit_cases (some s1) (some s1.revision) { Controller.quarantine s1 with revision := revision }
            second with ⟨e, he⟩ | ⟨-, -, he | he⟩
          · rw [he] at h
            exact .inl (Option.some.inj h).symm
          · rw [he] at h
            cases h
            exact .inr hmax
          · rw [he] at h
            cases h
            exact .inr hmax

theorem valid_step {w : World} (hvalid : ∀ s, w.durable = some s → Checked H s) (e : Event) :
    ∀ s, (w.step H e).durable = some s → Checked H s := by
  intro s' hs'
  cases e with
  | «open» config failure first second =>
    have hopen : (Controller.open H w.durable config failure first second).1 = some s' := hs'
    rcases (Controller.open_cases (H := H) w.durable config failure first second).2 with h | ⟨hnone, h⟩ | ⟨s, hs, -, h⟩
    · exact hvalid s' (h ▸ hopen)
    · cases hopen.symm.trans h
      rw [hnone] at hopen
      exact checked_genesis (open_config hopen)
    · rw [hs] at hopen h
      cases hopen.symm.trans h
      refine checked_quarantine (hvalid s hs) ((open_revision hopen).resolve_left (fun heq => ?_))
      have hrevision := congrArg (fun s => s.revision) heq
      dsimp only at hrevision
      omega
  | call call outcome =>
    simp only [World.step] at hs'
    cases hlive : w.live with
    | none =>
      rw [hlive] at hs'
      exact hvalid s' hs'
    | some c =>
      rw [hlive] at hs'
      rcases Controller.call_cases (H := H) w.durable c call outcome with
        ⟨hdurable, -, -⟩ | ⟨_, _, -, -, hnext, -, -, hdurable, -, -⟩
      · exact hvalid s' (hdurable ▸ hs')
      · cases hdurable.symm.trans hs'
        exact validateSnapshot_iff.1 hnext

/-- **Every durable snapshot is valid**, whatever was called and whatever the journal answered. -/
theorem valid_run (es : List Event) : ∀ s, (World.run H es).durable = some s → Checked H s := by
  induction es using List.reverseRecOn with
  | nil =>
    intro s hs
    cases hs
  | append_singleton es e ih =>
    rw [World.run_append]
    exact valid_step ih e

theorem valid_live {es : List Event} {c : Controller} (hc : (World.run H es).live = some c) (hp : c.poisoned = false) :
    Checked H c.snapshot :=
  valid_run es c.snapshot ((coherent_run es).live c hc hp)

end Iteron.Agents
