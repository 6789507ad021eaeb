import Iteron.AgentValidate
import Iteron.Reservation
/-!
# AgentTree — budgets over the tree of agents

A snapshot the controller takes up says of each agent only that its children's budgets and its unresolved receipts are
what it has reserved.  Over any subtree whose agents keep within their budgets this adds up: all they used, and all their
unresolved receipts may still use, fit the budget of its top.
-/
namespace Iteron.Agents
namespace AgentControllerSnapshot

open Machine Refuse

variable {H : Hashes} {s : AgentControllerSnapshot}

inductive Quantity where
  | turns
  | tokens
  | cost

def ceiling (b : AgentBudget) : Quantity → Nat
  | .turns => b.turns
  | .tokens => b.tokens
  | .cost => b.costMicrousd

def used (r : AgentRecord) : Quantity → Nat
  | .turns => r.turnsUsed
  | .tokens => r.tokensUsed
  | .cost => r.costUsed

def reserved (r : AgentRecord) : Quantity → Nat
  | .turns => r.reservedTurns
  | .tokens => r.reservedTokens
  | .cost => r.reservedCost

/-- What one unresolved receipt may still use; its turn is debited when it is reserved. -/
def outstanding (r : Receipt) : Quantity → Nat
  | .turns => 0
  | .tokens => r.request.maxTokens
  | .cost => r.request.maxCostMicrousd

def pendingOf (s : AgentControllerSnapshot) (id : AgentId) (q : Quantity) : Nat :=
  ((s.unresolvedOf id).map (fun r => outstanding r q)).sum

def Fits (r : AgentRecord) (q : Quantity) : Prop := used r q + reserved r q ≤ ceiling r.view.budget q

instance (r : AgentRecord) (q : Quantity) : Decidable (Fits r q) :=
  inferInstanceAs (Decidable (used r q + reserved r q ≤ ceiling r.view.budget q))

/-! ## What an accepted snapshot says of one agent -/

theorem orElseError_eq_ok {α : Type} {x : Option α} {e : ControllerError} {a : α} :
    orElseError x e = .ok a ↔ x = some a := by
  cases x <;> simp [orElseError]

variable {id : AgentId} {r : AgentRecord}

theorem accepted_agent (h : s.validateSnapshot H = .ok ())
    (hr : s.agents[id]? = some r) : s.validateAgent H id r = .ok () := by
  simp only [validateSnapshot, bind_eq_ok] at h
  obtain ⟨_, -, _, -, _, -, _, -, _, -, _, hagents, -⟩ := h
  exact forM_ok hagents (id, r) ((Table.mem_toList s.agents id r).2 hr)

theorem accepted_root (h : s.validateSnapshot H = .ok ()) : ∃ r, s.agents[1]? = some r := by
  simp only [validateSnapshot, bind_eq_ok, refuseIf_eq_ok] at h
  obtain ⟨_, -, _, -, _, -, _, -, _, henvelope, -⟩ := h
  cases hr : s.agents[1]? with
  | some r => exact ⟨r, rfl⟩
  | none => exact absurd (.inr (.inr (.inr (.inr (.inl ((Table.contains_eq_false s.agents 1).2 hr)))))) henvelope

structure Placed (s : AgentControllerSnapshot) (id : AgentId) (r : AgentRecord) : Prop where
  envelope : reservedFits r = true ∧ (usageFits r = true ∨ mayExceed r.view.state = true)
  reservation : s.reservation id = .ok (r.reservedTurns, r.reservedTokens, r.reservedCost)
  root : id = 1 ↔ r.view.parentId = none
  rootBudget : id = 1 → r.view.budget = s.config.rootBudget
  ancestry : s.validateAncestry (maxHierarchyDepth + 1) id = .ok ()

theorem accepted_placed (h : s.validateSnapshot H = .ok ()) (hr : s.agents[id]? = some r) : Placed s id r := by
  have hagent := accepted_agent h hr
  simp only [validateAgent, validateReservations, validateRoot, bind_eq_ok, refuseIf_eq_ok] at hagent
  obtain ⟨_, -, _, ⟨_, henvelope, _, hreserved, hagree⟩, _, ⟨_, hroot, hgenesis⟩, _, -, _, hancestry, -⟩ := hagent
  refine ⟨?_, ?_, ?_, fun hid => ?_, hancestry⟩
  · simp only [not_or, not_and, Bool.not_eq_false] at henvelope
    refine ⟨henvelope.1, ?_⟩
    cases hu : usageFits r with
    | true => exact .inl rfl
    | false => exact .inr (henvelope.2 hu)
  · rw [hreserved, not_not.1 hagree]
  · cases hp : r.view.parentId <;> simp_all
  · simp only [not_and, not_or, not_not] at hgenesis
    exact (hgenesis hid).2.1

theorem Placed.fits (h : Placed s id r) (hstate : mayExceed r.view.state = false) (q : Quantity) : Fits r q := by
  have husage : usageFits r = true := h.envelope.2.resolve_right (by rw [hstate]; simp)
  have hadd : ∀ {sum : Option Nat} {a b c : Nat}, (∀ used, sum = some used → used = a + b) →
      sum.any (fun used => decide (used ≤ c)) = true → a + b ≤ c := by
    intro sum a b c hsum hany
    obtain ⟨used, hused, hle⟩ := (Option.any_eq_true _ _).1 hany
    rw [← hsum used hused]
    simpa using hle
  simp only [usageFits, Bool.and_eq_true] at husage
  obtain ⟨⟨⟨hturns, htokens⟩, hcost⟩, -⟩ := husage
  cases q with
  | turns => exact hadd (fun _ => checkedAdd32_eq_some) hturns
  | tokens => exact hadd (fun _ => checkedAdd_eq_some) htokens
  | cost => exact hadd (fun _ => checkedAdd_eq_some) hcost

/-! ## Reservations as sums -/

def parentOf (s : AgentControllerSnapshot) (id : AgentId) : Option AgentId := s.agents[id]?.bind (fun r => r.view.parentId)

def ceilingOf (s : AgentControllerSnapshot) (q : Quantity) (id : AgentId) : Nat :=
  (s.agents[id]?.map (fun r => ceiling r.view.budget q)).getD 0

/-- What an agent used and what its unresolved receipts may still use. -/
def spentBy (s : AgentControllerSnapshot) (q : Quantity) (id : AgentId) : Nat :=
  (s.agents[id]?.map (fun r => used r q)).getD 0 + s.pendingOf id q

theorem addPending_ok {sum sum' : Nat × Nat} {receipt : Receipt} (h : addPending sum receipt = .ok sum') :
    sum'.1 = sum.1 + outstanding receipt .tokens ∧ sum'.2 = sum.2 + outstanding receipt .cost := by
  simp only [addPending, bind_eq_ok, pure_eq_ok, orElseError_eq_ok] at h
  obtain ⟨_, htokens, _, hcost, rfl⟩ := h
  exact ⟨checkedAdd_eq_some htokens, checkedAdd_eq_some hcost⟩

theorem pending_eq {p : Nat × Nat} (h : s.pending id = .ok p) :
    p.1 = s.pendingOf id .tokens ∧ p.2 = s.pendingOf id .cost := by
  have htokens := foldlM_measure Prod.fst (fun r => outstanding r .tokens) (fun _ _ _ hp => (addPending_ok hp).1) h
  have hcost := foldlM_measure Prod.snd (fun r => outstanding r .cost) (fun _ _ _ hp => (addPending_ok hp).2) h
  rw [Nat.zero_add] at htokens hcost
  exact ⟨htokens, hcost⟩

def childrenHold (s : AgentControllerSnapshot) (id : AgentId) (q : Quantity) : Nat :=
  ((s.childrenOf id).map (fun child => ceiling child.view.budget q)).sum

theorem addChild_ok {held held' : Nat × Nat × Nat} {child : AgentRecord} (h : addChild held child = .ok held') :
    held'.1 = held.1 + ceiling child.view.budget .turns ∧ held'.2.1 = held.2.1 + ceiling child.view.budget .tokens ∧
      held'.2.2 = held.2.2 + ceiling child.view.budget .cost := by
  simp only [addChild, bind_eq_ok, pure_eq_ok, orElseError_eq_ok] at h
  obtain ⟨_, hturns, _, htokens, _, hcost, rfl⟩ := h
  exact ⟨checkedAdd32_eq_some hturns, checkedAdd_eq_some htokens, checkedAdd_eq_some hcost⟩

theorem reservation_eq {r : Nat × Nat × Nat} (h : s.reservation id = .ok r) :
    r.1 = s.childrenHold id .turns ∧ r.2.1 = s.childrenHold id .tokens + s.pendingOf id .tokens ∧
      r.2.2 = s.childrenHold id .cost + s.pendingOf id .cost := by
  simp only [reservation, bind_eq_ok, pure_eq_ok, orElseError_eq_ok] at h
  obtain ⟨_, hheld, p, hp, tokens, htokens, cost, hcost, rfl⟩ := h
  have h1 := foldlM_measure Prod.fst (fun child => ceiling child.view.budget .turns)
    (fun _ _ _ hc => (addChild_ok hc).1) hheld
  have h2 := foldlM_measure (fun x => x.2.1) (fun child => ceiling child.view.budget .tokens)
    (fun _ _ _ hc => (addChild_ok hc).2.1) hheld
  have h3 := foldlM_measure (fun x => x.2.2) (fun child => ceiling child.view.budget .cost)
    (fun _ _ _ hc => (addChild_ok hc).2.2) hheld
  obtain ⟨hpt, hpc⟩ := pending_eq hp
  simp only [Nat.zero_add] at h1 h2 h3
  refine ⟨h1, ?_, ?_⟩
  · rw [checkedAdd_eq_some htokens, h2, hpt]
    rfl
  · rw [checkedAdd_eq_some hcost, h3, hpc]
    rfl

theorem childrenHold_eq (id : AgentId) (q : Quantity) :
    s.childrenHold id q = Reservation.held (Table.keys s.agents) s.parentOf (s.ceilingOf q) (some id) := by
  unfold childrenHold childrenOf Reservation.held
  rw [Table.sum_vals]
  refine Finset.sum_congr (Finset.filter_congr (fun k hk => ?_)) (fun k _ => rfl)
  obtain ⟨r, hr⟩ := (Table.mem_keys s.agents k).1 hk
  simp [parentOf, hr]

theorem Placed.reserved_eq (h : Placed s id r) (q : Quantity) :
    reserved r q = Reservation.held (Table.keys s.agents) s.parentOf (s.ceilingOf q) (some id) + s.pendingOf id q := by
  obtain ⟨hturns, htokens, hcost⟩ := reservation_eq h.reservation
  rw [← childrenHold_eq]
  cases q with
  | turns =>
    have hnone : s.pendingOf id .turns = 0 := by
      unfold pendingOf
      simp [outstanding]
    rw [hnone, Nat.add_zero]
    exact hturns
  | tokens => exact htokens
  | cost => exact hcost

/-! ## The chain of parents -/

/-- What the walk checks of an agent and its parent. -/
def Under (parent : AgentId) (r q : AgentRecord) : Prop :=
  r.view.capabilities.isSubsetOf q.view.capabilities = true ∧ r.view.budget.fitsWithin q.view.budget = true ∧
    (parent = 1 ∨ covered r.view.writePaths q.view.writePaths = true)

/-- The agents above one, from its parent to the root, each with the authority of those below it. -/
inductive Chain (s : AgentControllerSnapshot) : AgentId → List AgentId → Prop
  | root {id : AgentId} {r : AgentRecord} : s.agents[id]? = some r → r.view.parentId = none → Chain s id []
  | child {id parent : AgentId} {r q : AgentRecord} {chain : List AgentId} : s.agents[id]? = some r →
      r.view.parentId = some parent → s.agents[parent]? = some q → Under parent r q → Chain s parent chain →
      Chain s id (parent :: chain)

variable {n : Nat}

theorem validateAncestry_succ : s.validateAncestry (n + 1) id = .ok () ↔ ∃ r, s.agents[id]? = some r ∧
    ∀ parent, r.view.parentId = some parent →
      ∃ q, s.agents[parent]? = some q ∧ Under parent r q ∧ s.validateAncestry n parent = .ok () := by
  simp only [validateAncestry, bind_eq_ok, orElseError_eq_ok]
  refine exists_congr (fun r => and_congr_right (fun _ => ?_))
  cases r.view.parentId with
  | none => simp
  | some parent =>
    simp only [bind_eq_ok, orElseError_eq_ok, refuseIf_eq_ok, Option.some.injEq, forall_eq', Under, not_or, not_and,
      Bool.not_eq_false, ne_eq, exists_const, ← or_iff_not_imp_left]

theorem chain_of_ancestry : ∀ {n : Nat} {id : AgentId}, s.validateAncestry n id = .ok () →
    ∃ chain, Chain s id chain ∧ chain.length < n
  | 0, _, h => by cases h
  | n + 1, id, h => by
    obtain ⟨r, hr, hparent⟩ := validateAncestry_succ.1 h
    cases hp : r.view.parentId with
    | none => exact ⟨[], .root hr hp, Nat.succ_pos n⟩
    | some parent =>
      obtain ⟨q, hq, hunder, hrest⟩ := hparent parent hp
      obtain ⟨chain, hchain, hlen⟩ := chain_of_ancestry hrest
      exact ⟨parent :: chain, .child hr hp hq hunder hchain, Nat.succ_lt_succ hlen⟩

variable {chain : List AgentId}

theorem ancestry_of_chain (h : Chain s id chain) : ∀ {n : Nat}, chain.length < n →
    s.validateAncestry n id = .ok () := by
  induction h with
  | root hr hp =>
    intro n hn
    obtain ⟨n, rfl⟩ := Nat.exists_eq_add_of_lt hn
    exact validateAncestry_succ.2 ⟨_, hr, fun parent h => by rw [hp] at h; cases h⟩
  | child hr hp hq hunder _ ih =>
    intro n hn
    obtain ⟨n, rfl⟩ := Nat.exists_eq_add_of_lt hn
    refine validateAncestry_succ.2 ⟨_, hr, fun parent h => ?_⟩
    cases hp.symm.trans h
    exact ⟨_, hq, hunder, ih (by rw [List.length_cons]; omega)⟩

/-- Each agent keeps what the walk reads of it. -/
def Stands (s s' : AgentControllerSnapshot) : Prop :=
  ∀ (id : AgentId) (r : AgentRecord), s.agents[id]? = some r → ∃ r', s'.agents[id]? = some r' ∧
    r'.view.parentId = r.view.parentId ∧ r'.view.capabilities = r.view.capabilities ∧
    r'.view.budget = r.view.budget ∧ r'.view.writePaths = r.view.writePaths

variable {s' : AgentControllerSnapshot}

theorem Stands.walk (h : Stands s s') (hchain : Chain s id chain) : Chain s' id chain := by
  induction hchain with
  | root hr hp =>
    obtain ⟨_, hr', hparent, -⟩ := h _ _ hr
    exact .root hr' (hparent.trans hp)
  | child hr hp hq hunder _ ih =>
    obtain ⟨_, hr', hparent, hcaps, hbudget, hpaths⟩ := h _ _ hr
    obtain ⟨_, hq', -, hcaps', hbudget', hpaths'⟩ := h _ _ hq
    refine .child hr' (hparent.trans hp) hq' ?_ ih
    rw [Under, hcaps, hbudget, hpaths, hcaps', hbudget', hpaths']
    exact hunder

theorem Stands.ancestry (h : Stands s s') (hs : s.validateAncestry n id = .ok ()) :
    s'.validateAncestry n id = .ok () := by
  obtain ⟨chain, hchain, hlen⟩ := chain_of_ancestry hs
  exact ancestry_of_chain (h.walk hchain) hlen

/-! ## Subtrees -/

/-- The agent is `top` or below it. -/
inductive Within (s : AgentControllerSnapshot) (top : AgentId) : AgentId → Prop
  | self : Within s top top
  | child (id parent : AgentId) (r : AgentRecord) : s.agents[id]? = some r → r.view.parentId = some parent →
      Within s top parent → Within s top id

open Classical in
/-- The agents of the subtree. -/
noncomputable def subtree (s : AgentControllerSnapshot) (top : AgentId) : Finset AgentId :=
  (Table.keys s.agents).filter (Within s top)

/-- **The bounded walk reaches the root**: an accepted agent is below agent 1. -/
theorem within_root (h : s.validateSnapshot H = .ok ()) (hr : s.agents[id]? = some r) : Within s 1 id := by
  obtain ⟨chain, hchain, -⟩ := chain_of_ancestry (accepted_placed h hr).ancestry
  clear hr
  induction hchain with
  | root hr hp =>
    rw [(accepted_placed h hr).root.2 hp]
    exact .self
  | child hr hp _ _ _ ih => exact .child _ _ _ hr hp ih

theorem subtree_root (h : s.validateSnapshot H = .ok ()) : s.subtree 1 = Table.keys s.agents := by
  classical
  refine Finset.filter_true_of_mem (fun id hid => ?_)
  obtain ⟨r, hr⟩ := (Table.mem_keys s.agents id).1 hid
  exact within_root h hr

variable {top : AgentId}

theorem subtree_tops (htop : top ∈ Table.keys s.agents) (q : Quantity) :
    ∑ id ∈ s.subtree top with ¬ ∃ p ∈ s.subtree top, s.parentOf id = some p, s.ceilingOf q id ≤ s.ceilingOf q top := by
  classical
  have honly : (s.subtree top).filter (fun id => ¬ ∃ p ∈ s.subtree top, s.parentOf id = some p) ⊆ {top} := by
    intro id hid
    obtain ⟨hmem, hno⟩ := Finset.mem_filter.1 hid
    obtain ⟨-, hwithin⟩ := Finset.mem_filter.1 hmem
    cases hwithin with
    | self => exact Finset.mem_singleton_self top
    | child _ parent r hr hp hparent =>
      exfalso
      refine hno ⟨parent, Finset.mem_filter.2 ⟨?_, hparent⟩, by simp [parentOf, hr, hp]⟩
      cases hparent with
      | self => exact htop
      | child _ _ r' hr' _ _ => exact (Table.mem_keys s.agents parent).2 ⟨r', hr'⟩
  calc ∑ id ∈ s.subtree top with ¬ ∃ p ∈ s.subtree top, s.parentOf id = some p, s.ceilingOf q id
      ≤ ∑ id ∈ {top}, s.ceilingOf q id := Finset.sum_le_sum_of_subset honly

theorem mem_subtree : id ∈ s.subtree top ↔ id ∈ Table.keys s.agents ∧ Within s top id := by
  classical
  exact Finset.mem_filter

/-- **Budgets add up over the tree.**  In every accepted snapshot an agent that is neither closed nor under recovery
keeps within its budget; when every agent of a subtree does, all they used and all their unresolved receipts may still
use is at most the budget of its top; and the whole tree, if all its agents do, is within the configured root budget. -/
theorem tree_budget_conserved (h : s.validateSnapshot H = .ok ()) :
    (∀ (id : AgentId) (r : AgentRecord), s.agents[id]? = some r → mayExceed r.view.state = false → ∀ q, Fits r q) ∧
    (∀ (top : AgentId) (r : AgentRecord) (q : Quantity), s.agents[top]? = some r →
      (∀ (id : AgentId) (x : AgentRecord), s.agents[id]? = some x → Within s top id → Fits x q) →
      ∑ id ∈ s.subtree top, s.spentBy q id ≤ ceiling r.view.budget q) ∧
    ∀ q, (∀ (id : AgentId) (x : AgentRecord), s.agents[id]? = some x → Fits x q) →
      ∑ id ∈ Table.keys s.agents, s.spentBy q id ≤ ceiling s.config.rootBudget q := by
  have hsubtree : ∀ (top : AgentId) (r : AgentRecord) (q : Quantity), s.agents[top]? = some r →
      (∀ (id : AgentId) (x : AgentRecord), s.agents[id]? = some x → Within s top id → Fits x q) →
      ∑ id ∈ s.subtree top, s.spentBy q id ≤ ceiling r.view.budget q := by
    intro top r q hr hfits
    have hmember : ∀ id ∈ s.subtree top,
        s.spentBy q id + Reservation.held (s.subtree top) s.parentOf (s.ceilingOf q) (some id) ≤ s.ceilingOf q id := by
      intro id hid
      obtain ⟨hkey, hwithin⟩ := mem_subtree.1 hid
      obtain ⟨x, hx⟩ := (Table.mem_keys s.agents id).1 hkey
      have hfit := hfits id x hx hwithin
      unfold Fits at hfit
      rw [(accepted_placed h hx).reserved_eq q] at hfit
      have hheld : Reservation.held (s.subtree top) s.parentOf (s.ceilingOf q) (some id) ≤
          Reservation.held (Table.keys s.agents) s.parentOf (s.ceilingOf q) (some id) :=
        Finset.sum_le_sum_of_subset (Finset.filter_subset_filter _ (fun k hk => (mem_subtree.1 hk).1))
      have hspent : s.spentBy q id = used x q + s.pendingOf id q := by
        unfold spentBy
        rw [hx]
        rfl
      have hceiling : s.ceilingOf q id = ceiling x.view.budget q := by
        unfold ceilingOf
        rw [hx]
        rfl
      rw [hspent, hceiling]
      omega
    have htops := subtree_tops ((Table.mem_keys s.agents top).2 ⟨r, hr⟩) q
    have hspent := le_trans (Reservation.spent_le_tops hmember) htops
    unfold ceilingOf at hspent
    rw [hr] at hspent
    exact hspent
  refine ⟨fun id r hr hstate q => (accepted_placed h hr).fits hstate q, hsubtree, fun q hfits => ?_⟩
  obtain ⟨r, hr⟩ := accepted_root h
  have hall := hsubtree 1 r q hr (fun id x hx _ => hfits id x hx)
  rw [subtree_root h, (accepted_placed h hr).rootBudget rfl] at hall
  exact hall

/-! ## A root, its child and an unresolved receipt -/

def sampleScope : String := "sha256:" ++ "fad5eb9c0caa129771afe4213d649d273a05bc7527d6241ca90e2acb3746e37d"

def sampleKey : String := "sha256:" ++ "10c700b3bdf94112fd47abb81defbcc989497ca62e818ce38f9e530af3447b14"

def sampleRoute : String := "sha256:" ++ "8a84e406c08ac9594f47222406598f7598e15c55f8044b04813e28c9dee70976"

def sampleHashes : Hashes :=
  { text := fun _ => "", receiptKey := fun _ _ => sampleKey, providerScope := fun _ _ => sampleScope,
    config := fun _ => "", claimKey := fun _ _ _ => "", command := fun _ => "", childRequest := fun _ _ => "",
    snapshotBytes := fun _ => 0 }

def sampleConfig : AgentControllerConfig :=
  { workspaceScope := "workspace", rootCapabilities := ⟨3⟩, maxAgents := 8, maxPendingPerAgent := 4,
    rootBudget := { turns := 10, tokens := 1000, costMicrousd := 500, wallMs := 60000 } }

def sampleRecord (id : AgentId) (parent : Option AgentId) (budget : AgentBudget) : AgentRecord :=
  { view := { agentId := id, parentId := parent, label := "agent", workspaceScope := "workspace", incarnation := 1,
              state := .idle, capabilities := ⟨3⟩, budget := budget, writePaths := [], queuedMessages := 0,
              lastSummary := none, hasPartialOutput := false, usage := {}, reserved := {} }
    nextTurn := 1, activeTask := none, turnsUsed := 0, tokensUsed := 0, costUsed := 0, wallUsedMs := 0,
    runtimeStartedAtUnixMs := none, nativeExecution := none, reservedTurns := 0, reservedTokens := 0, reservedCost := 0 }

/-- The root has used 70 tokens, lent 300 to its child and may still use 100. -/
def sampleRoot : AgentRecord :=
  { sampleRecord 1 none sampleConfig.rootBudget with
    turnsUsed := 2, tokensUsed := 70, reservedTurns := 4, reservedTokens := 400, reservedCost := 150 }

def sampleChild : AgentRecord :=
  { sampleRecord 2 (some 1) { turns := 4, tokens := 300, costMicrousd := 120, wallMs := 60000 } with
    turnsUsed := 1, tokensUsed := 250 }

def sampleReceipt : Receipt :=
  { request := { agentId := 1, scopeSha256 := sampleScope, epoch := none, effectId := "effect-1", turn := 1,
                 route := { routeId := sampleRoute, physicalAttempt := 1, maxCostReservationMicrousd := some 30 },
                 maxTokens := 100, maxCostMicrousd := 30 }
    turnDebit := 1, terminal := none, terminalSha256 := none }

def sampleSnapshot : AgentControllerSnapshot :=
  { version := 1, config := sampleConfig, revision := 3, nextAgent := 3,
    agents := (∅ : Std.ExtTreeMap AgentId AgentRecord).insert 1 sampleRoot |>.insert 2 sampleChild,
    mailbox := { nextMessage := 1, maxPending := 4, messages := ∅ }, receipts := ∅, workflowClaims := ∅,
    workspaceWitness := none,
    providerBudget := { bindings := (∅ : Std.ExtTreeMap AgentId Binding).insert 1 ⟨sampleScope, none⟩,
                        receipts := (∅ : Std.ExtTreeMap String Receipt).insert sampleKey sampleReceipt,
                        recoveryRequired := false },
    cohortBindings := { origin := none, mainRuns := ∅ } }

theorem tree_budget_conserved_sampleSnapshot : sampleSnapshot.validateSnapshot sampleHashes = .ok () ∧
      ∑ id ∈ sampleSnapshot.subtree 1, sampleSnapshot.spentBy .tokens id ≤ 1000 := by
  have hok : sampleSnapshot.validateSnapshot sampleHashes = .ok () := by decide +kernel
  refine ⟨hok, (tree_budget_conserved hok).2.1 1 sampleRoot .tokens rfl (fun id x hx _ => ?_)⟩
  have hmem := (Table.mem_toList sampleSnapshot.agents id x).2 hx
  have hlist : sampleSnapshot.agents.toList = [(1, sampleRoot), (2, sampleChild)] := rfl
  rw [hlist] at hmem
  rcases List.mem_cons.1 hmem with heq | hmem
  · cases heq
    decide
  · cases List.mem_singleton.1 hmem
    decide

end AgentControllerSnapshot
end Iteron.Agents
