import Iteron.PricingHolding
/-!
# PricingSettle — a reservation is settled by the attempt that made it

When only guards that own the lane reserve, charge and settle, a node step of one agent leaves the reservations of the
others alone, and a charge within the agent's own reservation is entered on its whole lineage.  A guard of a node without
a ceiling owns no lane, and its settlement walks to the root all the same.
-/
namespace Iteron.Pricing

open Interleave (Rules Follows Ends ends_ret ends_act)
open Interleave.Prog (All)

set_option linter.unusedSectionVars false

variable {N A I : Type} [DecidableEq N] [DecidableEq A] [DecidableEq I]

theorem holding_need (h : Holding N) (op : N × Op I) : holding.need h op = h.need op := rfl

/-! ## Whose reservation it is -/

/-- Who made the last reservation at each node, and of how much, after a node step. -/
def reservers (own : N → Option (A × Nat)) (a : A) : (op : N × Op I) → op.2.Reply → N → Option (A × Nat)
  | (x, .reserveLocal reservation), (reserved : Except String Unit) =>
    if reserved.isOk then Function.update own x (some (a, reservation)) else own
  | _, _ => own

def reserversAt (own : N → Option (A × Nat)) (σ : State N A I) : Event N A I → N → Option (A × Nat)
  | .turn a =>
    match (σ.agents a).running with
    | some (.step op _) =>
      match exec a σ.nodes op with
      | some (_, r) => reservers own a op r
      | none => own
    | _ => own
  | _ => own

/-- A call that reserves, charges or settles is made under a guard that owns the lane. -/
def Owning (σ : State N A I) : Event N A I → Prop
  | .call a q => q.owning (σ.agents a).guard
  | _ => True

/-- The states of a run whose events all met a condition, with who made the last reservation at each node, and of
how much. -/
inductive Attempted (t : Tree N) (created : N → Nat) (node : A → N) (meets : State N A I → Event N A I → Prop) :
    State N A I → (N → Option (A × Nat)) → Prop
  | start : Attempted t created node meets (fresh created) (fun _ => none)
  | step (σ σ' : State N A I) (own : N → Option (A × Nat)) (e : Event N A I) (h : Attempted t created node meets σ own)
    (hmeets : meets σ e) (hstep : step t node σ e = some σ') :
    Attempted t created node meets σ' (reserversAt own σ e)

/-! ## What others leave alone -/

/-- The step leaves the reservation, the charges, the mutex and the lane of a node. -/
structure Untouched (n n' : Node A I) : Prop where
  reserved : n'.reservedMicrousd = n.reservedMicrousd
  settled : n'.reservationSettled = n.reservationSettled
  charges : n'.routeCharges = n.routeCharges
  lock : n'.lock = n.lock
  lane : n'.lane = n.lane

theorem Untouched.refl (n : Node A I) : Untouched n n := ⟨rfl, rfl, rfl, rfl, rfl⟩

theorem Untouched.trans {n1 n2 n3 : Node A I} (h : Untouched n1 n2) (h' : Untouched n2 n3) : Untouched n1 n3 :=
  ⟨h'.reserved.trans h.reserved, h'.settled.trans h.settled, h'.charges.trans h.charges, h'.lock.trans h.lock,
    h'.lane.trans h.lane⟩

def Op.touches : Op I → Bool
  | .requiresPricing | .raiseLane | .storeUnknown | .isUnsettled => false
  | _ => true

section Node

variable {created : Nat} {a b : A} {n n' : Node A I} {op : Op I} {r : op.Reply}

theorem untouched_of_lane (hn : NodeOk created n) (hb : b ∈ n.lane) (hne : b ≠ a)
    (htouch : op.touches = true → a ∈ n.lane) (hx : n.exec a op = some (n', r)) : Untouched n n' := by
  have hidle : op.touches = false := by
    by_contra htouches
    exact hne (hn.owner hb (htouch (eq_true_of_ne_false htouches)))
  cases op with
  | requiresPricing =>
    cases hx
    exact .refl n
  | isUnsettled =>
    cases hx
    exact .refl n
  | storeUnknown =>
    cases hx
    exact ⟨rfl, rfl, rfl, rfl, rfl⟩
  | raiseLane =>
    simp only [Node.exec] at hx
    split at hx
    · cases hx
      exact .refl n
    · rename_i hflag
      rw [hn.free (eq_false_of_ne_true hflag)] at hb
      cases hb
  | _ => cases hidle

theorem unsettled_kept (hopen : n.reservationSettled = false) (hsettle : op ≠ .settleLocal)
    (hclose : ∀ c, op ≠ .closeCharge c) (hx : n.exec a op = some (n', r)) :
    n'.reservedMicrousd = n.reservedMicrousd ∧ n'.reservationSettled = n.reservationSettled := by
  cases op with
  | settleLocal => cases hsettle rfl
  | closeCharge c => cases hclose c rfl
  | reserveLocal _ =>
    simp only [Node.exec] at hx
    split at hx
    · cases hx
    · split at hx
      · cases hx
        exact ⟨rfl, rfl⟩
      · rename_i n1 hreserve
        unfold Node.reserveLocal at hreserve
        split at hreserve
        · cases hreserve
        · rw [hopen] at hreserve
          cases hreserve
  | relaxReserved =>
    simp only [Node.exec, hopen] at hx
    cases hx
    exact ⟨rfl, hopen.symm ▸ rfl⟩
  | raiseLane =>
    simp only [Node.exec] at hx
    split at hx <;> obtain ⟨rfl, -⟩ := Prod.mk.inj (Option.some.inj hx) <;> exact ⟨rfl, rfl⟩
  | openCharge c =>
    simp only [Node.exec] at hx
    split at hx
    · cases hx
    · split at hx <;> obtain ⟨rfl, -⟩ := Prod.mk.inj (Option.some.inj hx) <;> exact ⟨rfl, rfl⟩
  | _ =>
    cases hx
    exact ⟨rfl, rfl⟩

theorem exec_mutex (x : N) (h : Holding N) (hx : n.exec a op = some (n', r)) :
    n'.lock = none ∨ (n'.lock = n.lock ∧ (h.locked x → (h.next (x, op) r).locked x)) ∨
      (n'.lock = some a ∧ (h.next (x, op) r).locked x) := by
  cases op with
  | openCharge c =>
    simp only [Node.exec] at hx
    split at hx
    · cases hx
    · split at hx
      · cases hx
        exact .inr (.inl ⟨rfl, fun hl => hl⟩)
      · rename_i hne
        cases hx
        refine .inr (.inr ⟨rfl, ?_⟩)
        show (if n.openCharge c = .contained then h else h.lock x).locked x
        rw [if_neg hne]
        exact .inl rfl
  | closeCharge c =>
    have hclosed : n.closeCharge c = (n', r) := Option.some.inj hx
    unfold Node.closeCharge at hclosed
    split at hclosed
    · cases hclosed
      exact .inl rfl
    · cases hclosed
      exact .inl rfl
    · split at hclosed
      · cases hclosed
        exact .inr (.inl ⟨rfl, fun hl => hl⟩)
      · cases hclosed
        exact .inl rfl
  | unlock =>
    cases hx
    exact .inl rfl
  | reserveLocal reservation =>
    have hnext : (h.next (x, .reserveLocal reservation) r).locked x = h.locked x := by
      show (if Except.isOk (r : Except String Unit) then h.reserve x else h).locked x = _
      split <;> rfl
    simp only [Node.exec] at hx
    split at hx
    · cases hx
    · split at hx
      · cases hx
        exact .inr (.inl ⟨rfl, fun hl => hnext ▸ hl⟩)
      · rename_i n1 hreserve
        cases hx
        obtain ⟨-, -, rfl⟩ := reserveLocal_ok hreserve
        exact .inr (.inl ⟨rfl, fun hl => hnext ▸ hl⟩)
  | raiseLane =>
    have hnext : (h.next (x, .raiseLane) r).locked x = h.locked x := by
      show (if (r : Bool) = true then h.raise x else h).locked x = _
      split <;> rfl
    simp only [Node.exec] at hx
    split at hx <;> obtain ⟨rfl, -⟩ := Prod.mk.inj (Option.some.inj hx) <;>
      exact .inr (.inl ⟨rfl, fun hl => hnext ▸ hl⟩)
  | relaxReserved =>
    cases hx
    refine .inr (.inl ⟨?_, fun hl => hl⟩)
    split <;> rfl
  | _ =>
    cases hx
    exact .inr (.inl ⟨rfl, fun hl => hl⟩)

end Node

/-! ## The invariant -/

structure Grants (a : A) (own : N → Option (A × Nat)) (s : N → Node A I) (h : Holding N) : Prop where
  lane : ∀ x, h.lane x → a ∈ (s x).lane
  own : ∀ x, h.own x → h.lane x ∧ ∃ m, own x = some (a, m)
  locked : ∀ x, (s x).lock = some a → h.locked x
  locks : ∀ x, h.locked x → h.lane x

section Steps

variable {t : Tree N} {created : N → Nat} {a b : A} {own : N → Option (A × Nat)} {s s' : N → Node A I} {h : Holding N}
  {op : N × Op I} {r : op.2.Reply}

theorem Grants.touches (hg : Grants a own s h) (hneed : h.need op) (htouch : op.2.touches = true) :
    a ∈ (s op.1).lane := by
  obtain ⟨x, op⟩ := op
  cases op with
  | settleLocal => exact hg.lane x (hg.own x hneed).1
  | closeCharge c => exact hg.lane x (hg.own x hneed).1
  | lowerLane => exact hg.lane x hneed.1
  | reserveLocal _ => exact hg.lane x hneed
  | relaxReserved => exact hg.lane x hneed
  | openCharge c => exact hg.lane x hneed
  | unlock => exact hg.lane x hneed
  | _ => cases htouch

variable {x : N}

theorem untouched_elsewhere (hs : Sound t created s) (hg : Grants a own s h) (hneed : h.need op)
    (hx : exec a s op = some (s', r)) (hne : b ≠ a) (hb : b ∈ (s x).lane) : Untouched (s x) (s' x) := by
  by_cases hop : x = op.1
  · subst hop
    obtain ⟨n, hn, rfl⟩ := exec_eq_some hx
    rw [Function.update_self]
    exact untouched_of_lane (hs.node _) hb hne (hg.touches hneed) hn
  · rw [exec_elsewhere hx hop]
    exact .refl _

theorem reservers_eq (hx : x ≠ op.1 ∨ op.2.touches = false) : reservers own a op r x = own x := by
  obtain ⟨y, op⟩ := op
  cases op with
  | reserveLocal reservation =>
    rcases hx with hx | hx
    · show (if Except.isOk (r : Except String Unit) then Function.update own y (some (a, reservation)) else own) x = own x
      split
      · exact Function.update_of_ne hx _ _
      · rfl
    · cases hx
  | _ => rfl

theorem lock_of_exec (hne : b ≠ a) (hx : exec a s op = some (s', r)) (hb : (s' x).lock = some b) :
    (s x).lock = some b := by
  by_cases hop : x = op.1
  · subst hop
    obtain ⟨n, hn, rfl⟩ := exec_eq_some hx
    rw [Function.update_self] at hb
    rcases exec_mutex op.1 Holding.none hn with hfree | ⟨hsame, -⟩ | ⟨hmine, -⟩
    · rw [hfree] at hb
      cases hb
    · exact hsame ▸ hb
    · rw [hmine] at hb
      exact absurd (Option.some.inj hb).symm hne
  · rw [exec_elsewhere hx hop] at hb
    exact hb

/-- **What one agent holds, a step of another leaves it.** -/
theorem Grants.other {h' : Holding N} (hs : Sound t created s) (hg : Grants a own s h) (hneed : h.need op)
    (hx : exec a s op = some (s', r)) (hne : b ≠ a) (hb : Grants b own s h') : Grants b (reservers own a op r) s' h' where
  lane := fun x hl => by
    rw [(untouched_elsewhere hs hg hneed hx hne (hb.lane x hl)).lane]
    exact hb.lane x hl
  own := fun x ho => by
    obtain ⟨hl, m, hown⟩ := hb.own x ho
    refine ⟨hl, m, ?_⟩
    rw [reservers_eq, hown]
    by_cases hop : x = op.1
    · subst hop
      refine .inr (eq_false_of_ne_true (fun htouch => hne ?_))
      exact (hs.node _).owner (hb.lane _ hl) (hg.touches hneed htouch)
    · exact .inl hop
  locked := fun x hl => hb.locked x (lock_of_exec hne hx hl)
  locks := hb.locks

theorem reservers_self {m : Nat} (hown : own x = some (a, m)) : ∃ m', reservers own a op r x = some (a, m') := by
  obtain ⟨y, op⟩ := op
  cases op with
  | reserveLocal reservation =>
    show ∃ m', (if Except.isOk (r : Except String Unit) then Function.update own y (some (a, reservation)) else own) x =
      some (a, m')
    split
    · by_cases hxy : x = y
      · subst hxy
        exact ⟨reservation, Function.update_self ..⟩
      · exact ⟨m, by rw [Function.update_of_ne hxy, hown]⟩
    · exact ⟨m, hown⟩
  | _ => exact ⟨m, hown⟩

theorem next_cases (a : A) (h : Holding N) (x : N) {op : Op I} (r : op.Reply) (hop : op ≠ .lowerLane) : h.next (x, op) r = h ∨
      (h.next (x, op) r = h.raise x ∧ ∀ n n' : Node A I, n.exec a op = some (n', r) → a ∈ n'.lane) ∨
      (h.next (x, op) r = h.reserve x ∧ (h.need (x, op) → h.lane x) ∧
        ∀ own : N → Option (A × Nat), ∃ m, reservers own a (x, op) r x = some (a, m)) ∨
      (h.next (x, op) r = h.lock x ∧ (h.need (x, op) → h.lane x)) ∨ h.next (x, op) r = h.unlock x := by
  cases op with
  | raiseLane =>
    by_cases hraised : (r : Bool) = true
    · subst hraised
      exact .inr (.inl ⟨rfl, fun _ _ hx => exec_raise hx⟩)
    · exact .inl (if_neg hraised)
  | reserveLocal reservation =>
    by_cases hok : Except.isOk (r : Except String Unit) = true
    · refine .inr (.inr (.inl ⟨if_pos hok, fun hneed => hneed, fun own => ?_⟩))
      show ∃ m, (if Except.isOk (r : Except String Unit) then Function.update own x (some (a, reservation)) else own) x =
        some (a, m)
      exact ⟨reservation, by rw [if_pos hok, Function.update_self]⟩
    · exact .inl (if_neg hok)
  | openCharge c =>
    by_cases hopened : (r : Opened) = .contained
    · exact .inl (if_pos hopened)
    · exact .inr (.inr (.inr (.inl ⟨if_neg hopened, fun hneed => hneed⟩)))
  | closeCharge c =>
    by_cases hclosed : (r : Closed) = .overflowed
    · exact .inl (if_pos hclosed)
    · exact .inr (.inr (.inr (.inr (if_neg hclosed))))
  | unlock => exact .inr (.inr (.inr (.inr rfl)))
  | lowerLane => cases hop rfl
  | _ => exact .inl rfl

section

variable (hg : Grants a own s h)
include hg

theorem lane_next (hx : exec a s op = some (s', r)) (hl : (h.next op r).lane x) : a ∈ (s' x).lane := by
  obtain ⟨y, op⟩ := op
  by_cases hop : op = .lowerLane
  · subst hop
    rw [exec_elsewhere hx hl.1]
    exact hg.lane x hl.2
  · obtain ⟨n, hn, rfl⟩ := exec_eq_some hx
    have hkeep : h.lane x → a ∈ (Function.update s y n x).lane := by
      intro hold
      by_cases hxy : x = y
      · subst hxy
        rw [Function.update_self]
        exact exec_lane hop hn (hg.lane x hold)
      · rw [Function.update_of_ne hxy]
        exact hg.lane x hold
    rcases next_cases a h y r hop with hnext | ⟨hnext, hraised⟩ | ⟨hnext, -⟩ | ⟨hnext, -⟩ | hnext
    · exact hkeep (hnext ▸ hl)
    · rw [hnext] at hl
      rcases hl with rfl | hl
      · rw [Function.update_self]
        exact hraised _ _ hn
      · exact hkeep hl
    all_goals exact hkeep (by rw [hnext] at hl; exact hl)

theorem own_next (hneed : h.need op) (ho : (h.next op r).own x) :
    (h.next op r).lane x ∧ ∃ m, reservers own a op r x = some (a, m) := by
  have hkeep : h.own x → h.lane x ∧ ∃ m, reservers own a op r x = some (a, m) := by
    intro hold
    obtain ⟨hlane, m, hm⟩ := hg.own x hold
    exact ⟨hlane, reservers_self hm⟩
  obtain ⟨y, op⟩ := op
  by_cases hop : op = .lowerLane
  · subst hop
    exact ⟨⟨ho.1, (hkeep ho.2).1⟩, (hkeep ho.2).2⟩
  · rcases next_cases a h y r hop with hnext | ⟨hnext, -⟩ | ⟨hnext, hlane, hreserver⟩ | ⟨hnext, -⟩ | hnext
    · rw [hnext] at ho ⊢
      exact hkeep ho
    · rw [hnext] at ho ⊢
      exact ⟨.inr (hkeep ho).1, (hkeep ho).2⟩
    · rw [hnext] at ho ⊢
      rcases ho with rfl | ho
      · exact ⟨hlane hneed, hreserver own⟩
      · exact hkeep ho
    · rw [hnext] at ho ⊢
      exact hkeep ho
    · rw [hnext] at ho ⊢
      exact hkeep ho

theorem locked_next (hx : exec a s op = some (s', r)) (hl : (s' x).lock = some a) : (h.next op r).locked x := by
  obtain ⟨n, hn, rfl⟩ := exec_eq_some hx
  by_cases hop : x = op.1
  · subst hop
    rw [Function.update_self] at hl
    rcases exec_mutex op.1 h hn with hfree | ⟨hsame, hkeep⟩ | ⟨-, hheld⟩
    · rw [hfree] at hl
      cases hl
    · exact hkeep (hg.locked _ (hsame ▸ hl))
    · exact hheld
  · rw [Function.update_of_ne hop] at hl
    have hlocked := hg.locked x hl
    obtain ⟨y, op⟩ := op
    by_cases hlower : op = .lowerLane
    · subst hlower
      exact hlocked
    · rcases next_cases a h y r hlower with hnext | ⟨hnext, -⟩ | ⟨hnext, -⟩ | ⟨hnext, -⟩ | hnext
      · rw [hnext]
        exact hlocked
      · rw [hnext]
        exact hlocked
      · rw [hnext]
        exact hlocked
      · rw [hnext]
        exact .inr hlocked
      · rw [hnext]
        exact ⟨hop, hlocked⟩

theorem locks_next (hneed : h.need op) (hl : (h.next op r).locked x) : (h.next op r).lane x := by
  obtain ⟨y, op⟩ := op
  by_cases hop : op = .lowerLane
  · subst hop
    refine ⟨?_, hg.locks x hl⟩
    rintro rfl
    exact hneed.2 hl
  · rcases next_cases a h y r hop with hnext | ⟨hnext, -⟩ | ⟨hnext, -⟩ | ⟨hnext, hlane⟩ | hnext
    · rw [hnext] at hl ⊢
      exact hg.locks x hl
    · rw [hnext] at hl ⊢
      exact .inr (hg.locks x hl)
    · rw [hnext] at hl ⊢
      exact hg.locks x hl
    · rw [hnext] at hl ⊢
      rcases hl with rfl | hl
      · exact hlane hneed
      · exact hg.locks x hl
    · rw [hnext] at hl ⊢
      exact hg.locks x hl.2

/-- **An agent's own step leaves it what the discipline says.** -/
theorem Grants.self (hneed : h.need op) (hx : exec a s op = some (s', r)) : Grants a (reservers own a op r) s' (h.next op r) :=
  ⟨fun _ hl => lane_next hg hx hl, fun _ ho => own_next hg hneed ho, fun _ hl => locked_next hg hx hl,
    fun _ hl => locks_next hg hneed hl⟩

theorem Grants.congr (hlane : ∀ x, (s' x).lane = (s x).lane) (hlock : ∀ x, (s' x).lock = (s x).lock) : Grants a own s' h :=
  ⟨fun x hl => by rw [hlane]; exact hg.lane x hl, hg.own, fun x hl => hg.locked x (by rw [← hlock]; exact hl), hg.locks⟩

end

end Steps

/-! ## Runs -/

section Runs

variable {t : Tree N} {created : N → Nat} {node : A → N} {σ σ' : State N A I} {own : N → Option (A × Nat)} {e : Event N A I}

/-- **Every agent holds what its call needs, and has what it holds.** -/
structure Orderly (t : Tree N) (node : A → N) (σ : State N A I) (own : N → Option (A × Nat)) (h : A → Holding N) : Prop where
  grants : ∀ a, Grants a own σ.nodes (h a)
  running : ∀ a p, (σ.agents a).running = some p →
    Follows holding (fun o h' => Rested t node a (o.settle (σ.agents a)).guard h') p (h a)
  idle : ∀ a, (σ.agents a).running = none → Rested t node a (σ.agents a).guard (h a)

theorem orderly_fresh : Orderly t node (fresh created : State N A I) (fun _ => none) (fun _ => Holding.none) where
  grants := fun _ =>
    { lane := fun _ hl => hl.elim
      own := fun _ ho => ho.elim
      locked := fun _ hl => by cases hl
      locks := fun _ hl => hl.elim }
  running := fun _ _ hp => by cases hp
  idle := fun _ _ => ⟨fun _ hl => hl, fun hg => by cases hg⟩

variable {h : A → Holding N}

theorem Orderly.step (hs : Steady t created node σ) (ho : Orderly t node σ own h)
    (howning : Owning σ e) (hstep : step t node σ e = some σ') : ∃ h', Orderly t node σ' (reserversAt own σ e) h' := by
  rcases step_cases hstep with ⟨a, q, rfl, hidle, hq, hnodes, hagents⟩ | ⟨a, o, rfl, hrun, rfl⟩ |
    ⟨a, op, k, s, r, rfl, hrun, hx, rfl⟩ | ⟨x, v, rfl, rfl⟩
  · refine ⟨h, ?_, ?_, ?_⟩
    · exact fun b => (ho.grants b).congr (fun x => by rw [hnodes]) (fun x => by rw [hnodes])
    · intro b p hp
      rw [hagents] at hp ⊢
      by_cases hb : b = a
      · subst hb
        rw [Function.update_self] at hp ⊢
        cases hp
        exact follows_program rfl hq howning (ho.idle b hidle)
      · rw [Function.update_of_ne hb] at hp ⊢
        exact ho.running b p hp
    · intro b hb
      rw [hagents] at hb ⊢
      by_cases hba : b = a
      · subst hba
        rw [Function.update_self] at hb
        cases hb
      · rw [Function.update_of_ne hba] at hb ⊢
        exact ho.idle b hb
  · have hown : reserversAt own σ (.turn a) = own := by
      simp only [reserversAt, hrun]
    rw [hown]
    have hself : (σ.setAgent a (o.settle (σ.agents a))).agents a = o.settle (σ.agents a) := Function.update_self ..
    have hother : ∀ b, b ≠ a → (σ.setAgent a (o.settle (σ.agents a))).agents b = σ.agents b :=
      fun b hb => Function.update_of_ne hb ..
    refine ⟨h, ho.grants, ?_, ?_⟩
    · intro b p hp
      by_cases hb : b = a
      · subst hb
        rw [hself, settle_running] at hp
        cases hp
      · rw [hother b hb] at hp ⊢
        exact ho.running b p hp
    · intro b hb
      by_cases hba : b = a
      · subst hba
        rw [hself]
        exact ho.running b _ hrun
      · rw [hother b hba] at hb ⊢
        exact ho.idle b hb
  · have hown : reserversAt own σ (.turn a) = reservers own a op r := by
      simp only [reserversAt, hrun, hx]
    rw [hown]
    obtain ⟨hneed, hrest⟩ := ho.running a _ hrun
    refine ⟨Function.update h a ((h a).next op r), ?_, ?_, ?_⟩
    · intro b
      by_cases hb : b = a
      · subst hb
        rw [Function.update_self]
        exact (ho.grants b).self hneed hx
      · rw [Function.update_of_ne hb]
        exact (ho.grants a).other hs.sound hneed hx hb (ho.grants b)
    · intro b p hp
      by_cases hb : b = a
      · subst hb
        simp only [Function.update_self] at hp ⊢
        cases hp
        refine (hrest r).mono (fun o h' hr => ?_)
        exact hr
      · simp only [Function.update_of_ne hb] at hp ⊢
        exact ho.running b p hp
    · intro b hb
      by_cases hba : b = a
      · subst hba
        simp only [Function.update_self] at hb
        cases hb
      · simp only [Function.update_of_ne hba] at hb ⊢
        exact ho.idle b hb
  · have hsame : ∀ y, (Function.update σ.nodes x ((σ.nodes x).tightenMicrousd v) y).lane = (σ.nodes y).lane ∧
        (Function.update σ.nodes x ((σ.nodes x).tightenMicrousd v) y).lock = (σ.nodes y).lock := by
      intro y
      by_cases hy : y = x
      · subst hy
        rw [Function.update_self]
        exact ⟨rfl, rfl⟩
      · rw [Function.update_of_ne hy]
        exact ⟨rfl, rfl⟩
    exact ⟨h, fun b => (ho.grants b).congr (fun y => (hsame y).1) (fun y => (hsame y).2), ho.running, ho.idle⟩

theorem Attempted.orderly (hσ : Attempted t created node Owning σ own) :
    Steady t created node σ ∧ ∃ h, Orderly t node σ own h := by
  induction hσ with
  | start => exact ⟨steady_fresh, _, orderly_fresh⟩
  | step σ _ own e _ howning hstep ih =>
    obtain ⟨hs, h, ho⟩ := ih
    exact ⟨steady_step hs hstep, ho.step hs howning hstep⟩

def Event.agent : Event N A I → Option A
  | .call a _ => some a
  | .turn a => some a
  | .tighten _ _ => none

theorem agents_step (hstep : step t node σ e = some σ') {b : A} (hne : e.agent ≠ some b) : σ'.agents b = σ.agents b := by
  rcases step_cases hstep with ⟨a, q, rfl, -, -, -, hagents⟩ | ⟨a, o, rfl, -, rfl⟩ | ⟨a, _, k, s, r, rfl, -, -, rfl⟩ |
    ⟨y, v, -, rfl⟩
  · rw [hagents]
    exact Function.update_of_ne (fun hba : b = a => hne (congrArg some hba.symm)) ..
  · exact Function.update_of_ne (fun hba : b = a => hne (congrArg some hba.symm)) ..
  · exact Function.update_of_ne (fun hba : b = a => hne (congrArg some hba.symm)) ..
  · rfl

variable {x : N}

/-- **A step leaves the nodes whose lanes another holds.** -/
theorem Orderly.untouched (hs : Steady t created node σ) (ho : Orderly t node σ own h)
    (hstep : Pricing.step t node σ e = some σ') {b : A} (hne : e.agent ≠ some b) (hb : b ∈ (σ.nodes x).lane) :
    Untouched (σ.nodes x) (σ'.nodes x) := by
  rcases step_cases hstep with ⟨a, q, -, -, -, hnodes, -⟩ | ⟨a, o, -, -, rfl⟩ |
    ⟨a, op, k, s, r, rfl, hrun, hx, rfl⟩ | ⟨y, v, -, rfl⟩
  · rw [hnodes]
    exact ⟨rfl, rfl, rfl, rfl, rfl⟩
  · exact .refl _
  · obtain ⟨hneed, -⟩ := ho.running a _ hrun
    exact untouched_elsewhere hs.sound (ho.grants a) hneed hx (fun hba => hne (hba ▸ rfl)) hb
  · by_cases hxy : x = y
    · subst hxy
      simp only [Function.update_self]
      exact ⟨rfl, rfl, rfl, rfl, rfl⟩
    · simp only [Function.update_of_ne hxy]
      exact .refl _

/-- The node's lane, or the reservation that is still open there, is another's. -/
def Foreign (σ : State N A I) (own : N → Option (A × Nat)) (a : A) (x : N) : Prop :=
  (∃ b, b ≠ a ∧ b ∈ (σ.nodes x).lane) ∨ ((σ.nodes x).reservationSettled = false ∧ ∃ b m, b ≠ a ∧ own x = some (b, m))

theorem Orderly.unsettled (ho : Orderly t node σ own h) {a : A} {op : N × Op I}
    {k : op.2.Reply → Call N I Outcome} {s : N → Node A I} {r : op.2.Reply}
    (hrun : (σ.agents a).running = some (.step op k)) (hx : exec a σ.nodes op = some (s, r))
    (hopen : (σ.nodes x).reservationSettled = false) (hown : ∀ m, own x ≠ some (a, m)) :
    (s x).reservedMicrousd = (σ.nodes x).reservedMicrousd ∧
      (s x).reservationSettled = (σ.nodes x).reservationSettled := by
  obtain ⟨hneed, -⟩ := ho.running a _ hrun
  by_cases hop : x = op.1
  · subst hop
    have hnotOwn : ¬ (h a).own op.1 := by
      intro hheld
      obtain ⟨-, m, hm⟩ := (ho.grants a).own _ hheld
      exact hown m hm
    obtain ⟨n, hn, rfl⟩ := exec_eq_some hx
    rw [Function.update_self]
    refine unsettled_kept hopen (fun hsettle => ?_) (fun c hclose => ?_) hn
    · rw [holding_need, Holding.need, hsettle] at hneed
      exact hnotOwn hneed
    · rw [holding_need, Holding.need, hclose] at hneed
      exact hnotOwn hneed
  · rw [exec_elsewhere hx hop]
    exact ⟨rfl, rfl⟩

/-- **A step leaves the reservation of another**: of a node whose lane another holds, and of a node where the reservation
of another is still open. -/
theorem Orderly.reservation (hs : Steady t created node σ) (ho : Orderly t node σ own h)
    (hstep : Pricing.step t node σ e = some σ') (hforeign : ∀ a, e.agent = some a → Foreign σ own a x) :
    (σ'.nodes x).reservedMicrousd = (σ.nodes x).reservedMicrousd ∧
      (σ'.nodes x).reservationSettled = (σ.nodes x).reservationSettled := by
  rcases step_cases hstep with ⟨a, q, -, -, -, hnodes, -⟩ | ⟨a, o, -, -, rfl⟩ |
    ⟨a, op, k, s, r, rfl, hrun, hx, rfl⟩ | ⟨y, v, -, rfl⟩
  · rw [hnodes]
    exact ⟨rfl, rfl⟩
  · exact ⟨rfl, rfl⟩
  · rcases hforeign a rfl with ⟨b, hne, hb⟩ | ⟨hopen, b, m, hne, hown⟩
    · have hsame := ho.untouched hs hstep (fun hab => hne (Option.some.inj hab).symm) hb
      exact ⟨hsame.reserved, hsame.settled⟩
    · refine ho.unsettled hrun hx hopen (fun m' hself => hne ?_)
      rw [hown] at hself
      exact (Prod.mk.inj (Option.some.inj hself)).1
  · by_cases hxy : x = y
    · subst hxy
      simp only [Function.update_self]
      exact ⟨rfl, rfl⟩
    · simp only [Function.update_of_ne hxy, and_self]

/-! ## How much is reserved -/

theorem exec_reserver {a : A} {n n' : Node A I} {op : Op I} {r : op.Reply}
    (hold : n.reservationSettled = false → ∃ b, own x = some (b, n.reservedMicrousd)) (hx : n.exec a op = some (n', r))
    (hopen : n'.reservationSettled = false) : ∃ b, reservers own a (x, op) r x = some (b, n'.reservedMicrousd) := by
  cases op with
  | reserveLocal reservation =>
    simp only [Node.exec] at hx
    split at hx
    · cases hx
    · split at hx
      · cases hx
        exact hold hopen
      · rename_i n1 hreserve
        cases hx
        obtain ⟨-, -, rfl⟩ := reserveLocal_ok hreserve
        exact ⟨a, Function.update_self ..⟩
  | settleLocal =>
    cases hx
    cases hopen
  | closeCharge c =>
    have hclosed : n.closeCharge c = (n', r) := Option.some.inj hx
    unfold Node.closeCharge at hclosed
    split at hclosed
    · cases hclosed
      exact hold hopen
    · cases hclosed
      cases hopen
    · split at hclosed
      · cases hclosed
        exact hold hopen
      · cases hclosed
        cases hopen
  | relaxReserved =>
    cases hx
    by_cases hsettled : n.reservationSettled = true
    · rw [if_pos hsettled] at hopen
      exact absurd (hsettled.symm.trans hopen) Bool.noConfusion
    · rw [if_neg hsettled] at hopen ⊢
      exact hold hopen
  | raiseLane =>
    simp only [Node.exec] at hx
    split at hx <;> obtain ⟨rfl, -⟩ := Prod.mk.inj (Option.some.inj hx) <;> exact hold hopen
  | openCharge c =>
    simp only [Node.exec] at hx
    split at hx
    · cases hx
    · split at hx <;> obtain ⟨rfl, -⟩ := Prod.mk.inj (Option.some.inj hx) <;> exact hold hopen
  | _ =>
    cases hx
    exact hold hopen

theorem Attempted.amount {meets : State N A I → Event N A I → Prop} (hσ : Attempted t created node meets σ own) (x : N) :
    (σ.nodes x).reservationSettled = false → ∃ b, own x = some (b, (σ.nodes x).reservedMicrousd) := by
  induction hσ with
  | start =>
    intro hopen
    cases hopen
  | step σ _ own e _ _ hstep ih =>
    rcases step_cases hstep with ⟨a, q, rfl, -, -, hnodes, -⟩ | ⟨a, o, rfl, hrun, rfl⟩ |
      ⟨a, op, k, s, r, rfl, hrun, hx, rfl⟩ | ⟨y, v, rfl, rfl⟩
    · rw [hnodes]
      exact ih
    · simp only [reserversAt, hrun]
      exact ih
    · simp only [reserversAt, hrun, hx]
      by_cases hop : x = op.1
      · subst hop
        obtain ⟨n, hn, rfl⟩ := exec_eq_some hx
        rw [Function.update_self]
        exact exec_reserver ih hn
      · rw [exec_elsewhere hx hop, reservers_eq (.inl hop)]
        exact ih
    · by_cases hxy : x = y
      · subst hxy
        simp only [Function.update_self]
        exact ih
      · simp only [Function.update_of_ne hxy]
        exact ih

end Runs

end Iteron.Pricing
