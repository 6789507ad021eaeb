import Iteron.PricingSettle
import Mathlib.Data.List.Nodup
/-!
# PricingCharge — a charge within its reservation commits

Nothing another agent does reaches the nodes whose lanes an agent holds, so what its reservation covers when it starts to
commit is still covered at each node on the way, and no mutex of the lineage is taken.
-/
namespace Iteron.Pricing

open Interleave (Rules Ends ends_ret ends_act)

set_option linter.unusedSectionVars false

variable {N A I : Type} [DecidableEq N] [DecidableEq A] [DecidableEq I]

/-- The ledger has the charge already, or has room for it and neither its identity nor its projection. -/
def Ledger.Admits (l : Ledger I) (c : Charge I) : Prop :=
  c ∈ l.charges ∨ (l.charges.length < chargeCapacity ∧ (∀ d ∈ l.charges, d.identity ≠ c.identity) ∧
    l.identities.lookup c.identity = none ∧ c.projectionDigest ∉ l.projectionDigests)

def Ledger.Takes (l : Ledger I) (c : Charge I) : Prop :=
  l.containsExact c = .ok true ∨ (l.containsExact c = .ok false ∧ (l.admitCharge c).2 = .ok true)

theorem Ledger.find_of_mem {l : Ledger I} {c : Charge I} (hl : l.Balanced) (hc : c ∈ l.charges) :
    l.find c.identity = some c := by
  unfold Ledger.find
  cases hfind : l.charges.find? (fun d => d.identity = c.identity) with
  | none => exact absurd (decide_eq_true rfl) (List.find?_eq_none.1 hfind c hc)
  | some d =>
    have hid : d.identity = c.identity := by simpa using List.find?_some hfind
    rw [List.inj_on_of_nodup_map hl.once (List.mem_of_find?_eq_some hfind) hc hid]

theorem Ledger.Admits.takes {l : Ledger I} {c : Charge I} (hc : l.Admits c) (hl : l.Balanced)
    (hroom : l.amountMicrousd + c.amountMicrousd ≤ Machine.u64Max) : l.Takes c := by
  rcases hc with hin | ⟨hlength, hidentity, hlookup, hdigest⟩
  · refine .inl ?_
    simp only [Ledger.containsExact, Ledger.find_of_mem hl hin, and_self, if_true]
  · have hfind : l.find c.identity = none := by
      refine List.find?_eq_none.2 (fun d hd heq => hidentity d hd ?_)
      exact of_decide_eq_true heq
    refine .inr ⟨by simp only [Ledger.containsExact, hfind], ?_⟩
    unfold Ledger.admitCharge
    rw [if_neg (fun hfull => Nat.not_le.2 hlength hfull.1), hlookup]
    dsimp only
    rw [if_neg hdigest, Machine.checkedAdd, if_pos hroom]

/-- A node where the agent may commit a charge. -/
structure Covered (a : A) (c : Charge I) (n : Node A I) : Prop where
  lane : a ∈ n.lane
  unlocked : n.lock = none
  reserved : c.amountMicrousd ≤ n.reservedMicrousd
  takes : n.routeCharges.Takes c

theorem Covered.untouched {a : A} {c : Charge I} {n n' : Node A I} (hc : Covered a c n) (hu : Untouched n n') :
    Covered a c n' :=
  ⟨hu.lane ▸ hc.lane, hu.lock ▸ hc.unlocked, hu.reserved ▸ hc.reserved, hu.charges ▸ hc.takes⟩

section Node

variable {created : Nat} {a : A} {c : Charge I} {n : Node A I}

theorem exec_open_covered (hc : Covered a c n) :
    (n.exec a (.openCharge c) = some (n, .contained) ∧ c ∈ n.routeCharges.charges) ∨
      (n.exec a (.openCharge c) = some ({ n with lock := some a }, .pending) ∧
        n.routeCharges.containsExact c = .ok false ∧ (n.routeCharges.admitCharge c).2 = .ok true) := by
  have hfree : ¬ n.lock.isSome = true := by
    rw [hc.unlocked]
    exact Bool.false_ne_true
  rcases hc.takes with hcontained | ⟨hnew, hadmitted⟩
  · refine .inl ⟨?_, Ledger.mem_of_containsExact hcontained⟩
    have hopen : n.openCharge c = .contained := by
      simp only [Node.openCharge, hcontained]
    simp only [Node.exec, if_neg hfree, hopen]
  · refine .inr ⟨?_, hnew, hadmitted⟩
    have hopen : n.openCharge c = .pending := by
      simp only [Node.openCharge, hnew, if_neg (Nat.not_lt.2 hc.reserved)]
    simp only [Node.exec, if_neg hfree, hopen]

theorem exec_close_admitted (hn : NodeOk created n) (hnew : n.routeCharges.containsExact c = .ok false)
    (hadmitted : (n.routeCharges.admitCharge c).2 = .ok true) :
    ∃ n', n.exec a (.closeCharge c) = some (n', .settled) ∧ n'.lane = n.lane ∧ c ∈ n'.routeCharges.charges := by
  rcases closeCharge_cases hn hnew with ⟨hcharges, -, heq⟩ | ⟨-, -, e, heq⟩
  · refine ⟨_, congrArg some heq, rfl, ?_⟩
    rw [hcharges]
    exact .head _
  · unfold Node.closeCharge at heq
    simp only [hadmitted] at heq
    split at heq
    · cases (Prod.mk.inj heq).2
    · cases (Prod.mk.inj heq).2

end Node

section Commit

variable (t : Tree N) (created : N → Nat) (a : A)

/-- What an agent may expect when only guards that own the lane settle: nothing happens to the nodes it holds. -/
def heldRules : Rules (N → Node A I) (N × Op I) (fun op => op.2.Reply) where
  exec := exec a
  inv := Sound t created
  rely := fun s s' => ∀ x, a ∈ (s x).lane → Untouched (s x) (s' x)
  guar := fun _ _ => True
  rely_refl := fun s x _ => .refl (s x)
  rely_trans := fun h h' x hx => (h x hx).trans (h' x ((h x hx).lane ▸ hx))

variable {t created a} {c : Charge I} {l : List N} {s s' : N → Node A I}

theorem exec_at {x : N} {op : Op I} {n : Node A I} {r : op.Reply} (hx : (s x).exec a op = some (n, r)) :
    exec a s (x, op) = some (Function.update s x n, r) := Option.map_eq_some_iff.2 ⟨_, hx, rfl⟩

/-- The charge is on each of the nodes, and the lanes are still the agent's. -/
def Entered (a : A) (c : Charge I) (l : List N) (s : N → Node A I) : Prop :=
  ∀ y ∈ l, a ∈ (s y).lane ∧ c ∈ (s y).routeCharges.charges

theorem Entered.of_rely (he : Entered a c l s) (hr : (heldRules t created a).rely s s') : Entered a c l s' := by
  intro y hy
  have hu := hr y (he y hy).1
  exact ⟨hu.lane ▸ (he y hy).1, hu.charges ▸ (he y hy).2⟩

theorem entered_contained (hs : Sound t created s) {x : N} {up : List N} (hl : t.Path (x :: up))
    (hlane : ∀ y ∈ x :: up, a ∈ (s y).lane) (hc : c ∈ (s x).routeCharges.charges) : Entered a c (x :: up) s := by
  intro y hy
  refine ⟨hlane y hy, ?_⟩
  rw [hl.eq_lineage] at hy
  exact up_lineage (P := fun x => c ∈ (s x).routeCharges.charges) (fun x p hp => hs.charges x p hp c) hy hc

/-- **A covered charge is entered on every node**, in two steps of each. -/
theorem ends_commit (hl : t.Path l) (hcovered : ∀ y ∈ l, Covered a c (s y)) :
    Ends (heldRules t created a) (fun v s' => v = .ok () ∧ Entered a c l s') (2 * l.length)
      (commitProviderRouteCharge c l) s := by
  induction l generalizing s with
  | nil => exact ⟨rfl, fun y hy => absurd hy List.not_mem_nil⟩
  | cons x up ih =>
    have hopen : Ends (heldRules t created a) (fun o s' => (o = .contained ∧ Entered a c (x :: up) s') ∨
          (o = .pending ∧ (∀ y ∈ up, Covered a c (s' y)) ∧ a ∈ (s' x).lane ∧
            (s' x).routeCharges.containsExact c = .ok false ∧ ((s' x).routeCharges.admitCharge c).2 = .ok true))
        1 (ask x (.openCharge c)) s := by
      refine ends_act (fun s1 hrely hinv => ?_)
      have hcovered1 : ∀ y ∈ x :: up, Covered a c (s1 y) :=
        fun y hy => (hcovered y hy).untouched (hrely y (hcovered y hy).lane)
      rcases exec_open_covered (hcovered1 x (.head _)) with ⟨hx, hcharge⟩ | ⟨hx, hnew, hadmitted⟩
      · refine ⟨Function.update s1 x (s1 x), .contained, ?_, .inl ⟨rfl, ?_⟩⟩
        · exact exec_at hx
        · rw [Function.update_eq_self]
          exact entered_contained hinv hl (fun y hy => (hcovered1 y hy).lane) hcharge
      · refine ⟨Function.update s1 x { s1 x with lock := some a }, .pending, ?_, .inr ⟨rfl, ?_, ?_⟩⟩
        · exact exec_at hx
        · intro y hy
          have hyx : y ≠ x := fun heq => hl.fresh (heq ▸ hy)
          rw [Function.update_of_ne hyx]
          exact hcovered1 y (List.mem_cons_of_mem x hy)
        · rw [Function.update_self]
          exact ⟨(hcovered1 x (.head _)).lane, hnew, hadmitted⟩
    have hlength : 2 * (x :: up).length = 1 + (2 * up.length + 1) := by
      rw [List.length_cons]
      omega
    rw [hlength]
    refine hopen.bind ?_
    rintro o s1 (⟨rfl, hentered⟩ | ⟨rfl, hup, hlane, hnew, hadmitted⟩)
    · exact ends_ret.2 ⟨rfl, hentered⟩
    · -- the parents' commit leaves this node to the agent
      have hparents : Ends (heldRules t created a) (fun v s' => (v = .ok () ∧ Entered a c up s') ∧
            ∀ y, y ∉ up → a ∈ (s1 y).lane → Untouched (s1 y) (s' y))
          (2 * up.length) (commitProviderRouteCharge c up) s1 := by
        refine (ih hl.up hup).frame
          (R := fun s s' : N → Node A I => ∀ y, y ∉ up → a ∈ (s y).lane → Untouched (s y) (s' y))
          ?_ ?_ ?_ (P := fun op => op.1 ∈ up) (all_commit fun _ hy _ _ => hy)
        · intro s2 s3 hr y _ hya
          exact hr y hya
        · intro s2 s3 s4 h23 h34 y hy hya
          exact (h23 y hy hya).trans (h34 y hy ((h23 y hy hya).lane ▸ hya))
        · intro op hop s2 s3 r hx y hy _
          have hne : y ≠ op.1 := fun heq => hy (heq ▸ hop)
          rw [exec_elsewhere hx hne]
          exact .refl _
      refine hparents.bind ?_
      rintro v s2 ⟨⟨rfl, hentered⟩, houtside⟩
      have hx2 := houtside x hl.fresh hlane
      have hclose : Ends (heldRules t created a) (fun o s' => o = .settled ∧ Entered a c (x :: up) s') 1
          (ask x (.closeCharge c)) s2 := by
        refine ends_act (fun s3 hrely hinv => ?_)
        have hx3 := hx2.trans (hrely x (hx2.lane ▸ hlane))
        obtain ⟨n', hclosed, hlane', hcharge⟩ := @exec_close_admitted A I _ _ (created x) a c (s3 x) (hinv.node x)
          (hx3.charges ▸ hnew) (hx3.charges ▸ hadmitted)
        refine ⟨Function.update s3 x n', .settled, exec_at hclosed, rfl, fun y hy => ?_⟩
        by_cases hyx : y = x
        · subst hyx
          rw [Function.update_self]
          exact ⟨hlane' ▸ hx3.lane ▸ hlane, hcharge⟩
        · rw [Function.update_of_ne hyx]
          exact hentered.of_rely hrely y ((List.mem_cons.1 hy).resolve_left hyx)
      refine hclose.bind (m := 0) ?_
      rintro o s3 ⟨rfl, hdone⟩
      exact ends_ret.2 ⟨rfl, hdone⟩

end Commit

/-! ## Runs -/

section Runs

variable (t : Tree N) (node : A → N) (meets : State N A I → Event N A I → Prop) (a : A)

/-- The states while an agent's call goes on, with how many turns the agent took. -/
inductive Onward (σ0 : State N A I) : Nat → State N A I → Prop
  | refl : Onward σ0 0 σ0
  | turn (n : Nat) (σ σ' : State N A I) (h : Onward σ0 n σ) (hmeets : meets σ (.turn a))
    (hstep : step t node σ (.turn a) = some σ') : Onward σ0 (n + 1) σ'
  | other (n : Nat) (σ σ' : State N A I) (e : Event N A I) (h : Onward σ0 n σ) (he : e.agent ≠ some a)
    (hmeets : meets σ e) (hstep : step t node σ e = some σ') : Onward σ0 n σ'

variable {t node meets a} {created : N → Nat} {σ σ₁ σ' : State N A I} {own : N → Option (A × Nat)} {e : Event N A I}
  {c : Charge I} {n : Nat}

/-- The commit is under way with so many turns left at most, or it is over and the charge is on every node. -/
def Committing (t : Tree N) (created : N → Nat) (node : A → N) (a : A) (c : Charge I) (n : Nat) (σ : State N A I) : Prop :=
  (∃ p, (σ.agents a).running = some p ∧
      Ends (heldRules t created a) (fun _ s => Entered a c (t.lineage (node a)) s) n p σ.nodes) ∨
    ((σ.agents a).running = none ∧ ∀ y ∈ t.lineage (node a), c ∈ (σ.nodes y).routeCharges.charges)

theorem charges_step (hs : Steady t created node σ) (hstep : step t node σ e = some σ') (hne : e.agent ≠ some a) {x : N}
    (hc : c ∈ (σ.nodes x).routeCharges.charges) : c ∈ (σ'.nodes x).routeCharges.charges := by
  rcases step_cases hstep with ⟨b, q, -, -, -, hnodes, -⟩ | ⟨b, o, -, -, rfl⟩ |
    ⟨b, op, k, s, r, rfl, hrun, hx, rfl⟩ | ⟨y, v, -, rfl⟩
  · rw [hnodes]
    exact hc
  · exact hc
  · obtain ⟨-, hprom, -⟩ := hs.safe b _ hrun σ.nodes (fun y => Kept.refl b _) hs.sound s r hx
    exact (hprom.others a (fun hab => hne (congrArg some hab.symm)) x).charges c hc
  · exact (kept_tighten σ.nodes y v a x).charges c hc

theorem Committing.other {h : A → Holding N} (hc : Committing t created node a c n σ) (hs : Steady t created node σ)
    (ho : Orderly t node σ own h) (hne : e.agent ≠ some a) (hstep : step t node σ e = some σ') :
    Committing t created node a c n σ' := by
  have hagent := agents_step hstep hne
  rcases hc with ⟨p, hp, hends⟩ | ⟨hidle, hdone⟩
  · refine .inl ⟨p, hagent ▸ hp, ?_⟩
    refine hends.of_rely (fun _ _ _ hentered hrely => hentered.of_rely hrely) ?_
    exact fun x hx => ho.untouched hs hstep hne hx
  · exact .inr ⟨hagent ▸ hidle, fun y hy => charges_step hs hstep hne (hdone y hy)⟩

theorem Committing.turn (hc : Committing t created node a c n σ) (hs : Steady t created node σ)
    (hstep : step t node σ (.turn a) = some σ') : Committing t created node a c (n - 1) σ' := by
  rcases step_cases hstep with ⟨b, q, hb, -⟩ | ⟨b, o, hb, hrun, rfl⟩ | ⟨b, _, k, s, r, hb, hrun, hx, rfl⟩ | ⟨y, v, hb, -⟩
  · cases hb
  · obtain rfl : a = b := Event.turn.inj hb
    rcases hc with ⟨p, hp, hends⟩ | ⟨hidle, -⟩
    · cases hp.symm.trans hrun
      refine .inr ⟨?_, fun y hy => (ends_ret.1 hends y hy).2⟩
      simp only [State.setAgent, Function.update_self, settle_running]
    · cases hidle.symm.trans hrun
  · obtain rfl : a = b := Event.turn.inj hb
    rcases hc with ⟨p, hp, hends⟩ | ⟨hidle, -⟩
    · cases hp.symm.trans hrun
      cases n with
      | zero => exact hends.elim
      | succ n =>
        obtain ⟨_, r', hx', hrest⟩ := hends σ.nodes ((heldRules t created a).rely_refl _) hs.sound
        obtain ⟨rfl, rfl⟩ := Prod.mk.inj (Option.some.inj (hx'.symm.trans hx))
        exact .inl ⟨k r', by simp only [Function.update_self], hrest⟩
    · cases hidle.symm.trans hrun
  · cases hb

theorem Committing.progress (hc : Committing t created node a c n σ) (hs : Steady t created node σ) :
    (∀ y ∈ t.lineage (node a), c ∈ (σ.nodes y).routeCharges.charges) ∨
      (0 < n ∧ (step t node σ (.turn a)).isSome = true) := by
  rcases hc with ⟨p, hp, hends⟩ | ⟨-, hdone⟩
  · cases p with
    | ret o => exact .inl (fun y hy => (ends_ret.1 hends y hy).2)
    | step op k =>
      cases n with
      | zero => exact hends.elim
      | succ n =>
        obtain ⟨s', r', hx, -⟩ := hends σ.nodes ((heldRules t created a).rely_refl _) hs.sound
        have hexec : exec a σ.nodes op = some (s', r') := hx
        refine .inr ⟨Nat.succ_pos n, ?_⟩
        simp only [step, hp, hexec, Option.isSome_some]
  · exact .inl hdone

theorem Committing.onward (hc : Committing t created node a c n σ₁) (hσ : Attempted t created node Owning σ₁ own)
    {m : Nat} (hrun : Onward t node Owning a σ₁ m σ') :
    Committing t created node a c (n - m) σ' ∧ ∃ own', Attempted t created node Owning σ' own' := by
  induction hrun with
  | refl => exact ⟨hc, own, hσ⟩
  | turn m σ σ' _ hmeets hstep ih =>
    obtain ⟨hcommit, own', hσ'⟩ := ih
    exact ⟨Nat.sub_sub n m 1 ▸ hcommit.turn hσ'.orderly.1 hstep, _, .step _ _ _ _ hσ' hmeets hstep⟩
  | other m σ σ' e _ he hmeets hstep ih =>
    obtain ⟨hcommit, own', hσ'⟩ := ih
    obtain ⟨hs, h, ho⟩ := hσ'.orderly
    exact ⟨hcommit.other hs ho he hstep, _, .step _ _ _ _ hσ' hmeets hstep⟩

/-- The agent's open reservation covers the charge at every node of its lineage, and the ledgers there admit it. -/
def Funded (t : Tree N) (node : A → N) (σ : State N A I) (own : N → Option (A × Nat)) (a : A) (c : Charge I) : Prop :=
  ∀ y ∈ t.lineage (node a), (σ.nodes y).reservationSettled = false ∧ (∀ m, own y = some (a, m) → c.amountMicrousd ≤ m) ∧
    (σ.nodes y).routeCharges.Admits c

section

variable (hcreated : ∀ x, created x ≤ Machine.u64Max) (hσ : Attempted t created node Owning σ own)
  (hguard : (σ.agents a).guard = some true)
include hcreated hσ hguard

theorem covered_of_funded (hidle : (σ.agents a).running = none) (hfunded : Funded t node σ own a c) :
    ∀ y ∈ t.lineage (node a), Covered a c (σ.nodes y) := by
  intro y hy
  obtain ⟨hs, h, ho⟩ := hσ.orderly
  obtain ⟨hopen, hamount, hadmits⟩ := hfunded y hy
  have hlane := hs.lane a hguard y hy
  have hn := hs.sound.node y
  have hreserved : c.amountMicrousd ≤ (σ.nodes y).reservedMicrousd := by
    obtain ⟨-, m, hm⟩ := (ho.grants a).own y ((ho.idle a hidle).owns hguard y hy).2
    obtain ⟨b, hb⟩ := hσ.amount y hopen
    cases hm.symm.trans hb
    exact hamount _ hm
  refine ⟨hlane, ?_, hreserved, hadmits.takes hn.balanced ?_⟩
  · cases hlock : (σ.nodes y).lock with
    | none => rfl
    | some b =>
      -- whoever has the mutex has the lane, and the agent between its calls has no mutex
      have hheld := (ho.grants b).locked y hlock
      obtain rfl := hn.owner ((ho.grants b).lane y ((ho.grants b).locks y hheld)) hlane
      exact absurd hheld ((ho.idle b hidle).unlocked y)
  · calc (σ.nodes y).routeCharges.amountMicrousd + c.amountMicrousd
        ≤ (σ.nodes y).spentMicrousd + (σ.nodes y).reservedMicrousd := by rw [hn.spent]; omega
      _ ≤ created y := hn.funded
      _ ≤ Machine.u64Max := hcreated y

theorem committing_call (hfunded : Funded t node σ own a c) (hstep : step t node σ (.call a (.commit c)) = some σ₁) :
    Committing t created node a c (2 * (t.lineage (node a)).length) σ₁ := by
  rcases step_cases hstep with ⟨b, q, hb, hidle, -, hnodes, hagents⟩ | ⟨b, o, hb, -⟩ | ⟨b, _, k, s, r, hb, -⟩ | ⟨y, v, hb, -⟩
  · obtain ⟨rfl, rfl⟩ := Event.call.inj hb
    have hcovered : ∀ y ∈ t.lineage (node a), Covered a c (σ₁.nodes y) := by
      intro y hy
      refine (covered_of_funded hcreated hσ hguard hidle hfunded y hy).untouched ?_
      rw [hnodes]
      exact ⟨rfl, rfl, rfl, rfl, rfl⟩
    refine .inl ⟨_, by rw [hagents, Function.update_self], ?_⟩
    exact (ends_commit (t.path_lineage (node a)) hcovered).bind (m := 0) (fun _ _ hentered => hentered.2)
  · cases hb
  · cases hb
  · cases hb

end

/-! ## The attempt that made it -/

/-- What it is for a reservation to be settled by the attempt that made it alone, in every state of the runs whose events
meet a condition: a step leaves the reservation of another, and a charge that its own reservation covers is entered on
the whole lineage within two turns of each node, whatever the others do meanwhile. -/
def Settles (t : Tree N) (created : N → Nat) (node : A → N) (meets : State N A I → Event N A I → Prop) : Prop :=
  ∀ (σ : State N A I) (own : N → Option (A × Nat)), Attempted t created node meets σ own →
    (∀ e σ', meets σ e → step t node σ e = some σ' → ∀ x, (∀ a, e.agent = some a → Foreign σ own a x) →
      (σ'.nodes x).reservedMicrousd = (σ.nodes x).reservedMicrousd ∧
        (σ'.nodes x).reservationSettled = (σ.nodes x).reservationSettled) ∧
    ∀ a c σ₁, (σ.agents a).guard = some true → Funded t node σ own a c →
      meets σ (.call a (.commit c)) → step t node σ (.call a (.commit c)) = some σ₁ →
        ∀ n σ₂, Onward t node meets a σ₁ n σ₂ →
          (∀ y ∈ t.lineage (node a), c ∈ (σ₂.nodes y).routeCharges.charges) ∨
            (n < 2 * (t.lineage (node a)).length ∧ (step t node σ₂ (.turn a)).isSome = true)

/-- **A reservation is settled only by the attempt that made it**, in the runs where every call that reserves, charges or
settles is made under a guard that owns the lane. -/
theorem settled_by_its_attempt (t : Tree N) (created : N → Nat) (node : A → N)
    (hcreated : ∀ x, created x ≤ Machine.u64Max) : Settles t created node (Owning (N := N) (A := A) (I := I)) := by
  intro σ own hσ
  obtain ⟨hs, h, ho⟩ := hσ.orderly
  refine ⟨fun e σ' _ hstep x hforeign => ho.reservation hs hstep hforeign, ?_⟩
  intro a c σ₁ hguard hfunded hmeets hstep n σ₂ hrun
  have hσ1 := Attempted.step _ _ _ _ hσ hmeets hstep
  obtain ⟨hcommit, _, hσ2⟩ := (committing_call hcreated hσ hguard hfunded hstep).onward hσ1 hrun
  rcases hcommit.progress hσ2.orderly.1 with hdone | ⟨_, hnext⟩
  · exact .inl hdone
  · exact .inr ⟨by omega, hnext⟩

theorem attempted_run {es : List (Event N A I)} (hmeets : ∀ e ∈ es, ∀ σ, meets σ e)
    (hσ : Attempted t created node meets σ own) (hrun : run t node σ es = some σ') :
    ∃ own', Attempted t created node meets σ' own' := by
  induction es generalizing σ own with
  | nil => exact ⟨own, Option.some.inj hrun ▸ hσ⟩
  | cons e es ih =>
    obtain ⟨_, h1, hrest⟩ := Option.bind_eq_some_iff.1 hrun
    have hσ1 := Attempted.step _ _ _ _ hσ (hmeets e (.head _) σ) h1
    exact ih (fun e' he' => hmeets e' (List.mem_cons_of_mem e he')) hσ1 hrest

theorem onward_run (hmeets : ∀ σ, meets σ (.turn a)) (hσ : Onward t node meets a σ n σ₁) {m : Nat}
    (hrun : run t node σ₁ (List.replicate m (.turn a)) = some σ') : Onward t node meets a σ (n + m) σ' := by
  induction m generalizing n σ₁ with
  | zero => exact Option.some.inj hrun ▸ hσ
  | succ m ih =>
    obtain ⟨σ₂, h2, hrest⟩ := Option.bind_eq_some_iff.1 hrun
    rw [← Nat.succ_add_eq_add_succ]
    exact ih (.turn n σ₁ σ₂ hσ (hmeets σ₁) h2) hrest

end Runs

def guarded : List (Event Bool Bool String) :=
  [Event.call false (.newGuard (some 5))] ++ List.replicate 6 (Event.turn false)

theorem guarded_run : ((run pair seats (fresh fun _ => 10) guarded).bind fun σ =>
      (step pair seats σ (.call false (.commit ⟨"attempt", "digest", 4⟩))).bind fun σ₁ =>
        (run pair seats σ₁ (List.replicate 4 (.turn false))).map fun _ => decide ((σ.agents false).guard = some true ∧
            ∀ y, (σ.nodes y).reservationSettled = false ∧ (σ.nodes y).reservedMicrousd = 5 ∧
              (σ.nodes y).routeCharges = {})) = some true := by
  rfl

/-- A charge of four within a reservation of five, in four turns. -/
theorem settled_by_its_attempt_guarded : ∃ (σ σ₁ σ₂ : State Bool Bool String) (own : Bool → Option (Bool × Nat)),
      Attempted pair (fun _ => 10) seats Owning σ own ∧
        step pair seats σ (.call false (.commit ⟨"attempt", "digest", 4⟩)) = some σ₁ ∧
        run pair seats σ₁ (List.replicate 4 (.turn false)) = some σ₂ ∧
        ∀ y ∈ pair.lineage true, ⟨"attempt", "digest", 4⟩ ∈ (σ₂.nodes y).routeCharges.charges := by
  obtain ⟨σ, hσ, hrest⟩ := Option.bind_eq_some_iff.1 guarded_run
  obtain ⟨σ₁, hσ1, hrest⟩ := Option.bind_eq_some_iff.1 hrest
  obtain ⟨σ₂, hσ2, hfacts⟩ := Option.map_eq_some_iff.1 hrest
  obtain ⟨hguard, hnodes⟩ := of_decide_eq_true hfacts
  have howning : ∀ e ∈ guarded, ∀ σ, Owning σ e := by
    intro e he σ
    rcases List.mem_append.1 he with he | he
    · rw [List.mem_singleton.1 he]
      trivial
    · rw [List.eq_of_mem_replicate he]
      trivial
  obtain ⟨own, hattempted⟩ := attempted_run howning .start hσ
  have hfunded : Funded pair seats σ own false ⟨"attempt", "digest", 4⟩ := by
    intro y _
    obtain ⟨hopen, hreserved, hledger⟩ := hnodes y
    refine ⟨hopen, fun m hm => ?_, .inr ?_⟩
    · obtain ⟨b, hb⟩ := hattempted.amount y hopen
      rw [hm, hreserved] at hb
      rw [(Prod.mk.inj (Option.some.inj hb)).2]
      exact Nat.le_succ 4
    · rw [hledger]
      exact ⟨Nat.succ_pos _, fun _ hd => absurd hd List.not_mem_nil, rfl, List.not_mem_nil⟩
  obtain ⟨-, hcommits⟩ := settled_by_its_attempt pair (fun _ => 10) seats (by decide) σ own hattempted
  refine ⟨σ, σ₁, σ₂, own, hattempted, hσ1, hσ2, ?_⟩
  rcases hcommits false _ σ₁ hguard hfunded hguard hσ1 4 σ₂ (onward_run (n := 0) (fun _ => trivial) .refl hσ2) with hdone | hleft
  · exact hdone
  · exact absurd hleft.1 (by decide)

/-- The root's agent makes its guard; the child has no ceiling, and its agent gives up before it dispatched anything. -/
def unpriced : List (Event Bool Bool String) :=
  [Event.call true (.newGuard (some 6))] ++ List.replicate 4 (Event.turn true) ++
    [Event.call false (.newGuard none), .turn false, .turn false, .call false .settle]

theorem unpriced_settled : ((run pair seats (fresh fun x => if x then 0 else 10) unpriced).bind fun σ =>
      (step pair seats σ (.turn false)).map fun σ' =>
        decide (true ∈ (σ.nodes false).lane ∧ (σ.nodes false).reservedMicrousd = 6 ∧
          (σ'.nodes false).reservedMicrousd = 0)) = some true := by
  rfl

/-- The settlement of an agent without a ceiling clears the reservation of the root's agent. -/
theorem not_settled_by_its_attempt :
    ¬ Settles pair (fun x => if x then 0 else 10) seats (fun (_ : State Bool Bool String) _ => True) := by
  intro h
  obtain ⟨σ, hσ, hrest⟩ := Option.bind_eq_some_iff.1 unpriced_settled
  obtain ⟨σ', hσ', hfacts⟩ := Option.map_eq_some_iff.1 hrest
  obtain ⟨hlane, hreserved, hcleared⟩ := of_decide_eq_true hfacts
  obtain ⟨own, hattempted⟩ := attempted_run (fun _ _ _ => trivial) .start hσ
  have hforeign : ∀ a, (Event.turn false : Event Bool Bool String).agent = some a → Foreign σ own a false := by
    intro a ha
    rw [← Option.some.inj ha]
    exact .inl ⟨true, Bool.noConfusion, hlane⟩
  obtain ⟨hframe, -⟩ := h σ own hattempted
  obtain ⟨hsame, -⟩ := hframe _ σ' trivial hσ' false hforeign
  rw [hreserved, hcleared] at hsame
  cases hsame

end Iteron.Pricing
