import Iteron.AgentValid
/-!
# AgentFinish — an executing agent can always be settled

The settlement of an epoch is committed only as a valid snapshot, and whatever was used, observed and summarised it is:
an epoch over any budget, or not known in full, leaves its agent under recovery, where neither is refused, and every
other agent, claim and message is as it was or stays valid when rejected.
-/
namespace Iteron.Agents

open Machine Refuse

namespace AgentControllerSnapshot

variable {H : Hashes} {s s' : AgentControllerSnapshot}

/-! ## Receipts are bounded -/

def maxReservation : Nat := 1000000000000

/-- A receipt's reservation is bounded, and what it is known to have used is within it. -/
structure Bounded (r : Receipt) : Prop where
  tokens : r.request.maxTokens ≤ maxReservation
  cost : r.request.maxCostMicrousd ≤ maxReservation
  known : ∀ tokens cost, r.terminal = some (.known tokens cost) →
    tokens ≤ r.request.maxTokens ∧ cost ≤ r.request.maxCostMicrousd

theorem request_bounded {request : AgentProviderBudgetRequest} (h : request.validate = .ok ()) :
    request.maxTokens ≤ maxReservation ∧ request.maxCostMicrousd ≤ maxReservation := by
  simp only [AgentProviderBudgetRequest.validate, bind_eq_ok, refuseIf_eq_ok, not_or, not_lt] at h
  obtain ⟨_, ⟨-, -, -, htokens, hcost⟩, -⟩ := h
  exact ⟨htokens, hcost⟩

theorem Checked.receiptsSize (hs : Checked H s) : s.providerBudget.receipts.size ≤ maxProviderReceipts := by
  have hprovider := hs.provider
  simp only [validateProviderBudget, bind_eq_ok, refuseIf_eq_ok, not_or, not_lt] at hprovider
  obtain ⟨_, hsize, -⟩ := hprovider
  exact hsize.2

theorem Checked.bounded (hs : Checked H s) : ∀ r ∈ Table.vals s.providerBudget.receipts, Bounded r := by
  intro r hr
  obtain ⟨k, hk⟩ := (Table.mem_vals _ r).1 hr
  have hprovider := hs.provider
  simp only [validateProviderBudget, bind_eq_ok] at hprovider
  obtain ⟨_, -, _, -, _, htally, -⟩ := hprovider
  obtain ⟨_, _, hvalid⟩ := foldlM_mem htally (k, r) ((Table.mem_toList _ k r).2 hk)
  simp only [validateReceipt, bind_eq_ok, refuseIf_eq_ok] at hvalid
  obtain ⟨_, hrequest, _, -, _, -, _, -, _, -, _, -, _, -, hterminal⟩ := hvalid
  obtain ⟨htokens, hcost⟩ := request_bounded hrequest
  refine ⟨htokens, hcost, fun tokens cost hknown => ?_⟩
  rw [hknown] at hterminal
  simp only [bind_eq_ok, refuseIf_eq_ok, not_or, not_lt] at hterminal
  obtain ⟨_, hwithin, -⟩ := hterminal
  exact hwithin

theorem length_vals (t : Std.ExtTreeMap String Receipt) : (Table.vals t).length = t.size := by
  rw [Table.vals, List.length_map, Std.ExtTreeMap.length_toList]

theorem Checked.epochReceipts (hs : Checked H s) (id : AgentId) (epoch : Option AgentEpoch) :
    (s.epochReceipts id epoch).length ≤ maxProviderReceipts ∧ ∀ r ∈ s.epochReceipts id epoch, Bounded r := by
  refine ⟨?_, fun r hr => hs.bounded r (List.mem_of_mem_filter hr)⟩
  calc (s.epochReceipts id epoch).length ≤ (Table.vals s.providerBudget.receipts).length := List.length_filter_le _ _
    _ = s.providerBudget.receipts.size := length_vals _
    _ ≤ maxProviderReceipts := hs.receiptsSize

theorem Checked.epochUsage (hs : Checked H s) (id : AgentId) (epoch : AgentEpoch) :
    ∃ usage, s.epochUsage id epoch = .ok usage := by
  unfold AgentControllerSnapshot.epochUsage
  by_cases hempty : (s.epochReceipts id (some epoch)).isEmpty = true
  · exact ⟨none, by rw [if_pos hempty]; rfl⟩
  · obtain ⟨_, hbounded⟩ := hs.epochReceipts id (some epoch)
    have hstep : ∀ (n : Nat) (u : AgentUsage), ∀ r ∈ s.epochReceipts id (some epoch), n < maxProviderReceipts →
        u.tokens ≤ n * maxReservation ∧ u.costMicrousd ≤ n * maxReservation →
        ∃ u', addKnown u r = .ok u' ∧
          (u'.tokens ≤ (n + 1) * maxReservation ∧ u'.costMicrousd ≤ (n + 1) * maxReservation) := by
      intro n u r hr hn hu
      obtain ⟨htokens, hcost, hknown⟩ := hbounded r hr
      simp only [maxProviderReceipts, maxReservation] at hn hu htokens hcost ⊢
      unfold addKnown
      split
      · rename_i tokens cost hterminal
        obtain ⟨_, _⟩ := hknown tokens cost hterminal
        have haddt : checkedAdd u.tokens tokens = some (u.tokens + tokens) := by
          rw [checkedAdd, if_pos (by simp only [u64Max]; omega)]
        have haddc : checkedAdd u.costMicrousd cost = some (u.costMicrousd + cost) := by
          rw [checkedAdd, if_pos (by simp only [u64Max]; omega)]
        rw [haddt, haddc]
        refine ⟨_, rfl, ?_, ?_⟩
        · dsimp only; omega
        · dsimp only; omega
      · exact ⟨u, rfl, by omega, by omega⟩
    obtain ⟨u, hu, -⟩ := foldlM_progress (n := 0) _ hstep (by omega)
      (⟨Nat.zero_le _, Nat.zero_le _⟩ : ({ turns := (s.epochReceipts id (some epoch)).length } : AgentUsage).tokens ≤ 0 * maxReservation ∧ _)
    refine ⟨some u, ?_⟩
    rw [if_neg hempty]
    rw [hu]
    rfl

/-! ## The settled record -/

structure Countable (r : AgentRecord) (usage : AgentUsage) : Prop where
  turns : r.turnsUsed + (usage.turns - 1) ≤ u32Max
  tokens : r.tokensUsed + usage.tokens ≤ u64Max
  cost : r.costUsed + usage.costMicrousd ≤ u64Max
  wall : r.wallUsedMs + usage.wallMs ≤ u64Max

structure Grown (r r' : AgentRecord) : Prop where
  frame : r' = { r with
    turnsUsed := r'.turnsUsed, tokensUsed := r'.tokensUsed, costUsed := r'.costUsed, wallUsedMs := r'.wallUsedMs }
  turns : r.turnsUsed ≤ r'.turnsUsed
  tokens : r.tokensUsed ≤ r'.tokensUsed
  cost : r.costUsed ≤ r'.costUsed

variable {r : AgentRecord}

theorem settleUsage_total {usage supplied : AgentUsage} {physical : Bool} (h : Countable r supplied)
    (hwall : usage.wallMs = supplied.wallMs) (hsame : physical = false → usage = supplied) :
    ∃ r', settleUsage r usage physical = .ok r' ∧ Grown r r' := by
  have hclock : checkedAdd r.wallUsedMs usage.wallMs = some (r.wallUsedMs + usage.wallMs) := by
    rw [checkedAdd, if_pos (by rw [hwall]; exact h.wall)]
  cases physical with
  | true =>
    refine ⟨{ r with wallUsedMs := r.wallUsedMs + usage.wallMs }, ?_, ⟨rfl, le_rfl, le_rfl, le_rfl⟩⟩
    unfold settleUsage
    simp only [if_true, bind_eq_ok, pure_eq_ok, orElseError_eq_ok]
    exact ⟨r, rfl, _, hclock, rfl⟩
  | false =>
    obtain rfl := hsame rfl
    refine ⟨{ r with
      turnsUsed := r.turnsUsed + (usage.turns - 1), tokensUsed := r.tokensUsed + usage.tokens
      costUsed := r.costUsed + usage.costMicrousd, wallUsedMs := r.wallUsedMs + usage.wallMs }, ?_,
      ⟨rfl, Nat.le_add_right _ _, Nat.le_add_right _ _, Nat.le_add_right _ _⟩⟩
    unfold settleUsage
    simp only [Bool.false_eq_true, if_false, bind_eq_ok, pure_eq_ok, orElseError_eq_ok]
    have hturns : checkedAdd32 r.turnsUsed (usage.turns - 1) = some (r.turnsUsed + (usage.turns - 1)) := if_pos h.turns
    have htokens : checkedAdd r.tokensUsed usage.tokens = some (r.tokensUsed + usage.tokens) := if_pos h.tokens
    have hcost : checkedAdd r.costUsed usage.costMicrousd = some (r.costUsed + usage.costMicrousd) := if_pos h.cost
    exact ⟨_, hturns, _, htokens, _, hcost, _, rfl, _, hclock, rfl⟩

theorem settlementUsage_total (hs : Checked H s) (id : AgentId) (epoch : AgentEpoch) (supplied : AgentUsage) :
    ∃ usage physical known, s.settlementUsage id epoch supplied = .ok (usage, physical, known) ∧
      usage.wallMs = supplied.wallMs ∧ (physical = false → usage = supplied) := by
  obtain ⟨u, hu⟩ := hs.epochUsage id epoch
  unfold settlementUsage
  rw [hu]
  cases u with
  | none => exact ⟨supplied, false, true, rfl, rfl, fun _ => rfl⟩
  | some usage => exact ⟨_, _, _, rfl, rfl, fun h => (by cases h)⟩

def settled (s : AgentControllerSnapshot) (id : AgentId) (epoch : AgentEpoch) (summary : String) (record : AgentRecord)
    (spent : AgentUsage) (effectsKnown accounting within : Bool) (terminal : AgentWorkflowTerminal) :
    AgentControllerSnapshot :=
  let known := effectsKnown && accounting && within
  { s with
    agents := s.agents.insert id { record with
      view := { record.view with lastSummary := some summary, state := finishedState epoch known record.view.state }
      activeTask := if known then none else record.activeTask
      runtimeStartedAtUnixMs := if known then none else record.runtimeStartedAtUnixMs }
    workflowClaims := s.recordCompletion id epoch summary spent effectsKnown (accounting && within) terminal
    mailbox := s.mailbox.settleEpoch id epoch record.activeTask
    revision := s.revision + 1 }

def Executes (r : AgentRecord) (epoch : AgentEpoch) : Prop :=
  r.view.state = .running epoch ∨ r.view.state = .interrupting epoch ∨ r.view.state = .closing epoch

instance (r : AgentRecord) (epoch : AgentEpoch) : Decidable (Executes r epoch) :=
  inferInstanceAs (Decidable (_ ∨ _ ∨ _))

theorem Executes.epoch {epoch : AgentEpoch} (h : Executes r epoch) : r.view.state.epoch = some epoch := by
  rcases h with h | h | h <;> rw [h] <;> rfl

theorem Executes.not_recovery {epoch epoch' : AgentEpoch} (h : Executes r epoch) :
    r.view.state ≠ .recoveryRequired epoch' := by
  rcases h with h | h | h <;> rw [h] <;> intro heq <;> cases heq

theorem finishTurn_total (hs : Checked H s) {id : AgentId} {epoch : AgentEpoch} {summary : String}
    {supplied : AgentUsage} (hr : s.agents[id]? = some r) (hruns : Executes r epoch)
    (hsummary : summary.utf8ByteSize ≤ maxAgentTextBytes ∧ summary.toList.contains '\x00' = false)
    (husage : Countable r supplied) (hrevision : s.revision < maxRevision) (effectsKnown accountingKnown : Bool)
    (terminal : AgentWorkflowTerminal) :
    ∃ record spent accounting within, Grown r record ∧ (within = true → usageFits record = true) ∧
      s.finishTurn id epoch summary supplied effectsKnown accountingKnown terminal =
        .ok (.commit (s.settled id epoch summary record spent effectsKnown accounting within terminal) (.ok .done)) := by
  obtain ⟨usage, physical, known, hspent, hwall, hsame⟩ := settlementUsage_total hs id epoch supplied
  obtain ⟨record, hrecord, hgrown⟩ := settleUsage_total husage hwall hsame
  have hnext : nextRevision s.revision = .ok (s.revision + 1) := by
    rw [nextRevision, orElseError_eq_ok, checkedAdd, if_pos (by simp only [maxRevision, u64Max] at *; omega)]
    rw [Option.filter_some, if_pos (by simpa using Nat.succ_le_of_lt hrevision)]
  have htask : record.activeTask = r.activeTask := by rw [hgrown.frame]
  refine ⟨record, usage, accountingKnown && known, s.settlementFits id epoch usage && usageFits record, hgrown,
    fun hwithin => (Bool.and_eq_true _ _ ▸ hwithin).2, ?_⟩
  simp only [finishTurn, bind_eq_ok, refuseIf_eq_ok, orElseError_eq_ok]
  refine ⟨(), ?_, r, hr, (), ?_, (usage, physical, known), hspent, record, hrecord, s.revision + 1, hnext, ?_⟩
  · rw [hsummary.2]
    simpa using hsummary.1
  · rintro (hstale | hrecovery)
    · exact hstale hruns.epoch
    · exact hruns.not_recovery hrecovery
  · rw [← htask]
    rfl

/-! ## The settled snapshot is valid -/

theorem insert_eq_map {id : AgentId} {r v : AgentRecord} (hr : s.agents[id]? = some r) :
    s.agents.insert id v = s.agents.map (fun k x => if k = id then v else x) := by
  refine Std.ExtTreeMap.ext_getElem? (fun k => ?_)
  rw [Table.get_insert, Table.get_map]
  by_cases hk : id = k
  · subst hk
    rw [if_pos rfl, hr]
    simp
  · rw [if_neg hk]
    cases s.agents[k]? with
    | none => rfl
    | some x => simp [Ne.symm hk]

theorem Continues.runtime {f : AgentId → AgentRecord → AgentRecord} {p : AgentMailboxMessage → Bool}
    (h : Continues s s' f p) {id : AgentId} {r r' : AgentRecord} (hs : s.validateRuntime id r = .ok ())
    (hepoch : r'.view.state.epoch = r.view.state.epoch) (hincarnation : r'.view.incarnation = r.view.incarnation)
    (hturn : r'.nextTurn = r.nextTurn) (htask : r'.activeTask = r.activeTask)
    (hclock : r'.runtimeStartedAtUnixMs = r.runtimeStartedAtUnixMs) : s'.validateRuntime id r' = .ok () := by
  rw [validateRuntime, hepoch, hclock, hincarnation, hturn, htask]
  rw [validateRuntime] at hs
  cases he : r.view.state.epoch with
  | none =>
    rw [he] at hs
    exact hs
  | some epoch =>
    rw [he] at hs
    simp only [bind_eq_ok, orElseError_eq_ok, Option.bind_eq_some_iff] at hs ⊢
    obtain ⟨_, hanchor, _, hactive, m, ⟨task, htask, hm⟩, howner⟩ := hs
    refine ⟨(), hanchor, (), hactive, if p m then AgentMailbox.reject m else m,
      ⟨task, htask, by rw [h.message, hm]; rfl⟩, ?_⟩
    cases p m with
    | true => exact howner
    | false => exact howner

theorem finishedState_cases (epoch : AgentEpoch) (known : Bool) (state : AgentState) :
    (known = true ∧ (finishedState epoch known state = .idle ∨ finishedState epoch known state = .closed)) ∨
      (known = false ∧ finishedState epoch known state = .recoveryRequired epoch) := by
  cases known <;> cases state <;> simp [finishedState]

section Settled

variable {id : AgentId} {r record : AgentRecord} (epoch : AgentEpoch) (summary : String) (spent : AgentUsage)
  (effectsKnown accounting within : Bool) (terminal : AgentWorkflowTerminal)

def settledRecord (epoch : AgentEpoch) (summary : String) (record : AgentRecord) (known : Bool) : AgentRecord :=
  { record with
    view := { record.view with lastSummary := some summary, state := finishedState epoch known record.view.state }
    activeTask := if known then none else record.activeTask
    runtimeStartedAtUnixMs := if known then none else record.runtimeStartedAtUnixMs }

theorem continues_settled (hr : s.agents[id]? = some r) (hgrown : Grown r record) :
    Continues s (s.settled id epoch summary record spent effectsKnown accounting within terminal)
      (fun k x => if k = id then settledRecord epoch summary record (effectsKnown && accounting && within) else x)
      (fun message => message.receiver == id && (message.state == .delivered epoch ||
        (message.state == .accepted && (message.expectedEpoch == some epoch || record.activeTask == some message.id)))) where
  frame := by
    rw [← insert_eq_map hr]
    rfl
  kept := by
    intro k x hx
    by_cases hk : k = id
    · subst hk
      cases hr.symm.trans hx
      rw [if_pos rfl]
      have hview : record.view = r.view := by rw [hgrown.frame]
      refine ⟨by rw [settledRecord, hview], ?_, ?_, ?_, ?_, ?_, hgrown.turns, hgrown.tokens, hgrown.cost⟩
      all_goals rw [settledRecord, hgrown.frame]
    · rw [if_neg hk]
      exact .refl x
  flag := fun hflag => hflag
  revision := Nat.le_succ _

section

variable (hs : Checked H s) (hr : s.agents[id]? = some r) (hruns : Executes r epoch) (hgrown : Grown r record)
  (hsummary : summary.utf8ByteSize ≤ maxAgentTextBytes ∧ summary.toList.contains '\x00' = false)
include hs hr hruns hgrown hsummary

theorem settled_claim {key : String} {receipt : WorkflowReceipt}
    (hreceipt : (s.settled id epoch summary record spent effectsKnown accounting within terminal).workflowClaims[key]? =
      some receipt) :
    (s.settled id epoch summary record spent effectsKnown accounting within terminal).validateClaim H key receipt =
      .ok () := by
  have h := continues_settled epoch summary spent effectsKnown accounting within terminal hr hgrown
  have hagent : record.view.agentId = id := by
    rw [hgrown.frame]
    exact (hs.agent hr).1
  have hget : (s.recordCompletion id epoch summary spent effectsKnown (accounting && within) terminal)[key]? =
      some receipt := hreceipt
  rw [recordCompletion, Table.get_map, Option.map_eq_some_iff] at hget
  obtain ⟨x, hx, hreceipt⟩ := hget
  have hvalid := hs.claims key x hx
  by_cases hclaims : claimsOf id epoch x = true
  · rw [if_pos hclaims] at hreceipt
    rw [← hreceipt]
    obtain ⟨hassigned, hepoch⟩ : x.claim.assignedAgent = id ∧ x.epoch = epoch := by simpa [claimsOf] using hclaims
    refine h.claim hvalid (fun y hy _ => ?_)
    rw [if_pos hassigned]
    simp only [validateCompletion, refuseIf_eq_ok, not_or, not_lt]
    refine ⟨?_, ?_, hsummary.1, ?_, ?_, ?_⟩
    · exact not_not.2 hagent.symm
    · exact not_not.2 hepoch.symm
    · rw [hsummary.2]
      simp
    · omega
    · -- accounting that is not known leaves the agent under recovery
      rintro ⟨hunknown, hstate⟩
      rcases finishedState_cases epoch (effectsKnown && accounting && within) record.view.state with
        ⟨hknown, -⟩ | ⟨-, hrecovery⟩
      · rw [Bool.and_assoc, hunknown, Bool.and_false] at hknown
        cases hknown
      · simp only [settledRecord, hrecovery] at hstate
        cases hstate
  · rw [if_neg hclaims] at hreceipt
    rw [← hreceipt]
    refine h.claim hvalid (fun y hy hdone => ?_)
    by_cases hassigned : x.claim.assignedAgent = id
    · rw [hassigned] at hy
      cases hr.symm.trans hy
      have hother : x.epoch ≠ epoch := fun heq => hclaims (by simp [claimsOf, hassigned, heq])
      rw [if_pos hassigned]
      unfold validateCompletion at hdone ⊢
      cases hcompletion : x.completion with
      | none =>
        rw [hcompletion] at hdone
        rw [refuseIf_eq_ok, not_not, hruns.epoch] at hdone
        exact absurd (Option.some.inj hdone).symm hother
      | some _ =>
        rw [hcompletion] at hdone
        simp only [refuseIf_eq_ok, not_or] at hdone ⊢
        obtain ⟨h1, h2, h3, h4, h5, haccount⟩ := hdone
        refine ⟨?_, h2, h3, h4, h5, fun ⟨hunknown, _⟩ => haccount ⟨hunknown, ?_⟩⟩
        · rw [settledRecord, hgrown.frame]
          exact h1
        · rcases hruns with hstate | hstate | hstate <;> rw [hstate]
    · rw [if_neg hassigned]
      exact hdone

theorem settled_checked (hwithin : within = true → usageFits record = true) (hrevision : s.revision < maxRevision) :
    Checked H (s.settled id epoch summary record spent effectsKnown accounting within terminal) := by
  have h := continues_settled epoch summary spent effectsKnown accounting within terminal hr hgrown
  refine h.checked hs hrevision ?_
    (fun key receipt => settled_claim epoch summary spent effectsKnown accounting within terminal hs hr hruns hgrown hsummary)
    (fun k x hx => ?_)
  · show (s.workflowClaims.map _).size ≤ maxReceipts
    rw [Std.ExtTreeMap.size_map]
    exact hs.claimCount
  · obtain ⟨-, -, hlast, husage, hruntime⟩ := hs.agent hx
    by_cases hk : k = id
    · subst hk
      cases hr.symm.trans hx
      rw [if_pos rfl]
      refine ⟨?_, ?_, ?_⟩
      · simp only [settledRecord, Option.any_some, hsummary.2, Bool.or_false, decide_eq_false_iff_not, not_lt]
        exact hsummary.1
      · rcases finishedState_cases epoch (effectsKnown && accounting && within) record.view.state with
          ⟨hknown, -⟩ | ⟨-, hrecovery⟩
        · exact .inl (hwithin (Bool.and_eq_true _ _ ▸ hknown).2)
        · refine .inr ?_
          simp only [settledRecord, hrecovery]
          rfl
      · rcases finishedState_cases epoch (effectsKnown && accounting && within) record.view.state with
          ⟨hknown, hstopped⟩ | ⟨hknown, hrecovery⟩
        · rw [validateRuntime, settledRecord, hknown]
          rw [hknown] at hstopped
          rcases hstopped with hstopped | hstopped <;> rw [hstopped] <;> rfl
        · refine h.runtime hruntime ?_ ?_ ?_ ?_ ?_
          · simp only [settledRecord, hrecovery, hruns.epoch]
            rfl
          · rw [settledRecord, hgrown.frame]
          · rw [settledRecord, hgrown.frame]
          · rw [settledRecord, hknown, hgrown.frame]
            rfl
          · rw [settledRecord, hknown, hgrown.frame]
            rfl
    · rw [if_neg hk]
      exact ⟨hlast, husage, h.runtime hruntime rfl rfl rfl rfl rfl⟩

end

end Settled

end AgentControllerSnapshot

open AgentControllerSnapshot

variable {H : Hashes}

theorem call_done {c : Controller} {next : AgentControllerSnapshot} {call : Call} {reply : Except ControllerError Reply}
    (hp : c.poisoned = false) (hpre : precheck call = .ok ())
    (hprepare : prepare H c.snapshot call = .ok (.commit next reply)) (hvalid : next.validateSnapshot H = .ok ())
    (hbytes : H.snapshotBytes next ≤ maxSnapshotBytes) (hrevision : next.revision = c.snapshot.revision + 1) :
    (c.call H (some c.snapshot) call .done).2.2 = reply := by
  have hfollow : next.revision = followingRevision (some c.snapshot.revision) := by
    have hmax := (validateSnapshot_iff.1 hvalid).revision
    rw [hrevision, followingRevision, saturatingAdd]
    simp only [maxRevision, u64Max] at hmax ⊢
    omega
  have hjournal : journalCommit (some c.snapshot) (some c.snapshot.revision) next .done = (some next, .ok ()) := by
    rw [journalCommit, if_neg (by simp), if_neg (not_not.2 hfollow)]
  have hcommit : c.commit H (some c.snapshot) next .done = (some next, { c with snapshot := next }, .ok ()) := by
    rw [Controller.commit, hvalid]
    rw [if_neg (not_lt.2 hbytes), hjournal]
  rw [Controller.call, hpre]
  rw [hp, if_neg (by simp), hprepare]
  dsimp only
  rw [hcommit]

/-- **An executing agent can always be settled.**  In every run, for an agent that is running, interrupting or closing in
an epoch, any usage that does not overflow its counters, any observation and terminal and any summary within its bound:
the settlement prepares a valid snapshot, is answered with success when the journal takes it and it is not too large, and
leaves the agent idle, closed or under recovery of this epoch. -/
theorem finish_settles (H : Hashes) (es : List Event) (c : Controller) (hc : (World.run H es).live = some c)
    (hp : c.poisoned = false) (id : AgentId) (epoch : AgentEpoch) (r : AgentRecord)
    (hr : c.snapshot.agents[id]? = some r) (hruns : Executes r epoch) (summary : String)
    (hsummary : summary.utf8ByteSize ≤ maxAgentTextBytes ∧ summary.toList.contains '\x00' = false) (usage : AgentUsage)
    (husage : Countable r usage) (effectsKnown accountingKnown : Bool) (terminal : AgentWorkflowTerminal)
    (hrevision : c.snapshot.revision < maxRevision) :
    ∃ next, c.snapshot.finishTurn id epoch summary usage effectsKnown accountingKnown terminal =
        .ok (.commit next (.ok .done)) ∧ next.validateSnapshot H = .ok () ∧
      (H.snapshotBytes next ≤ maxSnapshotBytes → (c.call H (World.run H es).durable
        (.finishTurn id epoch summary usage effectsKnown accountingKnown terminal) .done).2.2 = .ok .done) ∧
      ∃ r', next.agents[id]? = some r' ∧
        (r'.view.state = .idle ∨ r'.view.state = .closed ∨ r'.view.state = .recoveryRequired epoch) := by
  have hs := valid_live hc hp
  obtain ⟨record, spent, accounting, within, hgrown, hwithin, hfinish⟩ :=
    finishTurn_total hs hr hruns hsummary husage hrevision effectsKnown accountingKnown terminal
  have hvalid := validateSnapshot_iff.2
    (settled_checked epoch summary spent effectsKnown accounting within terminal hs hr hruns hgrown hsummary hwithin hrevision)
  refine ⟨_, hfinish, hvalid, fun hbytes => ?_, settledRecord epoch summary record (effectsKnown && accounting && within),
    ?_, ?_⟩
  · rw [(coherent_run es).live c hc hp]
    exact call_done hp rfl hfinish hvalid hbytes rfl
  · show (c.snapshot.agents.insert id _)[id]? = _
    rw [Table.get_insert, if_pos rfl]
    rfl
  · rcases finishedState_cases epoch (effectsKnown && accounting && within) record.view.state with
      ⟨-, hidle | hclosed⟩ | ⟨-, hrecovery⟩
    · exact .inl hidle
    · exact .inr (.inl hclosed)
    · exact .inr (.inr hrecovery)

/-- The worker's epoch is settled far over its budget. -/
theorem finish_settles_worker : ∃ c r, (World.run workerHashes startedWorker).live = some c ∧
    c.snapshot.agents[2]? = some r ∧ Executes r ⟨1, 1⟩ ∧
    ∃ next, c.snapshot.finishTurn 2 ⟨1, 1⟩ "done" ⟨9, 5000, 7, 100⟩ true true .succeeded =
        .ok (.commit next (.ok .done)) ∧ next.validateSnapshot workerHashes = .ok () := by
  have hrun : (World.run workerHashes startedWorker).live.bind (fun c => c.snapshot.agents[2]?.map (fun r : AgentRecord =>
      decide (c.poisoned = false ∧ c.snapshot.revision = 2 ∧ r.view.state = .running ⟨1, 1⟩ ∧ r.turnsUsed = 1 ∧
        r.tokensUsed = 0 ∧ r.costUsed = 0 ∧ r.wallUsedMs = 0))) = some true := by decide +kernel
  obtain ⟨c, hc, hr⟩ := Option.bind_eq_some_iff.1 hrun
  obtain ⟨r, hr, hfields⟩ := Option.map_eq_some_iff.1 hr
  obtain ⟨hp, hrevision, hstate, hturns, htokens, hcost, hwall⟩ := of_decide_eq_true hfields
  have husage : Countable r ⟨9, 5000, 7, 100⟩ := by
    refine ⟨?_, ?_, ?_, ?_⟩
    · rw [hturns]; decide
    · rw [htokens]; decide
    · rw [hcost]; decide
    · rw [hwall]; decide
  obtain ⟨next, hfinish, hvalid, -⟩ := finish_settles workerHashes startedWorker c hc hp 2 ⟨1, 1⟩ r hr (.inl hstate)
    "done" ⟨by decide, by decide⟩ ⟨9, 5000, 7, 100⟩ husage true true .succeeded (by rw [hrevision]; decide)
  exact ⟨c, r, hc, hr, .inl hstate, next, hfinish, hvalid⟩

end Iteron.Agents
