import Iteron.DagStep
import Iteron.Reservation
/-!
# DagBudget — budgets are conserved over the whole forest

A task's reservations are the budgets of its direct children, the graph's those of its roots, and each fits its ceiling
beside what was charged (`BudgetLaw`).  Over any run the law holds, so nothing charged anywhere in the graph exceeds
the graph's own budget (`budget_conserved`).
-/
namespace Iteron.Dag
namespace TaskDag

open Machine

inductive Quantity where
  | turns
  | tokens
  | cost

def amountUsed (u : BudgetUsage) : Quantity → Nat
  | .turns => u.turns
  | .tokens => u.tokens
  | .cost => u.costMicrousd

def amountReserved (r : BudgetReservation) : Quantity → Nat
  | .turns => r.turns
  | .tokens => r.tokens
  | .cost => r.costMicrousd

def ceiling (b : TaskBudget) : Quantity → Nat := amountReserved b.reservable

variable {r s : BudgetReservation}

theorem reservation_ext (h : ∀ q, amountReserved r q = amountReserved s q) : r = s := by
  cases r
  have h1 := h .turns
  have h2 := h .tokens
  have h3 := h .cost
  simp only [amountReserved] at h1 h2 h3
  rw [h1, h2, h3]

/-! ## Accounts -/

def account (x : Task) : TaskSpec × BudgetUsage × BudgetReservation := (x.spec, x.usage, x.childReservations)

def parentOf (t : Tasks) (k : TaskId) : Option TaskId := (t[k]?).bind (fun x => x.spec.parent)

def ceilingOf (t : Tasks) (q : Quantity) (k : TaskId) : Nat := ((t[k]?).map (fun x => ceiling x.spec.budget q)).getD 0

def usageOf (t : Tasks) (q : Quantity) (k : TaskId) : Nat := ((t[k]?).map (fun x => amountUsed x.usage q)).getD 0

def heldFrom (t : Tasks) (q : Quantity) (owner : Option TaskId) : Nat :=
  Reservation.held (Table.keys t) (parentOf t) (ceilingOf t q) owner

/-- The sum of the reservable budgets of the direct children of `owner`, of the root tasks for `none`. -/
def reservedFrom (t : Tasks) (owner : Option TaskId) : BudgetReservation :=
  { turns := heldFrom t .turns owner, tokens := heldFrom t .tokens owner, costMicrousd := heldFrom t .cost owner }

def totalUsage (t : Tasks) (q : Quantity) : Nat := ∑ k ∈ Table.keys t, usageOf t q k

theorem amountReserved_reservedFrom (t : Tasks) (owner : Option TaskId) (q : Quantity) :
    amountReserved (reservedFrom t owner) q = heldFrom t q owner := by
  cases q <;> rfl

variable {t t' : Tasks}

theorem heldFrom_congr (h : SameBy Task.spec t t') (q : Quantity) (owner : Option TaskId) : heldFrom t' q owner = heldFrom t q owner := by
  have hkeys : Table.keys t' = Table.keys t := by
    ext k
    rw [Table.mem_keys, Table.mem_keys, ← Option.isSome_iff_exists, ← Option.isSome_iff_exists,
      ← Option.isSome_map (f := Task.spec), h k, Option.isSome_map]
  unfold heldFrom
  rw [hkeys]
  refine Reservation.held_congr (fun k _ => ?_) (fun k _ => ?_) owner
  · have hs := congrArg (fun s => s.bind TaskSpec.parent) (h k)
    simpa only [Option.bind_map, Function.comp_def, parentOf] using hs
  · have hs := congrArg (fun s => (s.map (fun s => ceiling s.budget q)).getD 0) (h k)
    simpa only [Option.map_map, Function.comp_def, ceilingOf] using hs

theorem reservedFrom_congr (h : SameBy Task.spec t t') (owner : Option TaskId) : reservedFrom t' owner = reservedFrom t owner :=
  reservation_ext (fun q => by rw [amountReserved_reservedFrom, amountReserved_reservedFrom, heldFrom_congr h])

/-! ## The law -/

/-- **Every reservation is the sum of the budgets under it, and fits with what was charged.** -/
structure BudgetLaw (config : Config) (t : Tasks) (root : BudgetReservation) : Prop where
  parents : ∀ (k : TaskId) (x : Task) (p : TaskId), t[k]? = some x → x.spec.parent = some p → ∃ y, t[p]? = some y
  children : ∀ (k : TaskId) (x : Task), t[k]? = some x → x.childReservations = reservedFrom t (some k)
  fits : ∀ (k : TaskId) (x : Task), t[k]? = some x → ∀ q,
    amountUsed x.usage q + amountReserved x.childReservations q ≤ ceiling x.spec.budget q
  wall : ∀ (k : TaskId) (x : Task), t[k]? = some x → x.usage.wallMs ≤ x.spec.budget.maxWallMs
  roots : root = reservedFrom t none
  rootFits : ∀ q, amountReserved root q ≤ ceiling config.budget q

variable {config : Config} {root : BudgetReservation}

theorem BudgetLaw.congr (h : BudgetLaw config t root) (hs : SameBy account t t') : BudgetLaw config t' root := by
  have hheld : ∀ owner, reservedFrom t' owner = reservedFrom t owner := reservedFrom_congr (hs.map Prod.fst)
  refine ⟨fun k x p hk hp => ?_, fun k x hk => ?_, fun k x hk q => ?_, fun k x hk => ?_, ?_, h.rootFits⟩
  · obtain ⟨y, hy, ha⟩ := hs.symm.of_some hk
    obtain ⟨z, hz⟩ := h.parents k y p hy (by rw [← hp]; exact congrArg (fun a => a.1.parent) ha)
    obtain ⟨w, hw, -⟩ := hs.of_some hz
    exact ⟨w, hw⟩
  · obtain ⟨y, hy, ha⟩ := hs.symm.of_some hk
    rw [hheld, ← h.children k y hy]
    exact congrArg (fun a => a.2.2) ha.symm
  · obtain ⟨y, hy, ha⟩ := hs.symm.of_some hk
    simp only [account, Prod.mk.injEq] at ha
    rw [← ha.1, ← ha.2.1, ← ha.2.2]
    exact h.fits k y hy q
  · obtain ⟨y, hy, ha⟩ := hs.symm.of_some hk
    simp only [account, Prod.mk.injEq] at ha
    rw [← ha.1, ← ha.2.1]
    exact h.wall k y hy
  · rw [hheld]
    exact h.roots

/-! ## Creation -/

variable {k : TaskId}

theorem heldFrom_insert (hk : t[k]? = none) (x : Task) (q : Quantity) (owner : Option TaskId) :
    heldFrom (t.insert k x) q owner = heldFrom t q owner + if x.spec.parent = owner then ceiling x.spec.budget q else 0 := by
  have hfresh : k ∉ Table.keys t := by
    rw [Table.mem_keys, hk]
    rintro ⟨_, hv⟩
    cases hv
  have hself : (t.insert k x)[k]? = some x := by rw [Table.get_insert, if_pos rfl]
  have hother : ∀ j ∈ Table.keys t, (t.insert k x)[j]? = t[j]? := fun j hj => by
    have hne : k ≠ j := fun hkj => hfresh (hkj ▸ hj)
    rw [Table.get_insert, if_neg hne]
  unfold heldFrom
  rw [Table.keys_insert, Reservation.held_insert hfresh]
  congr 1
  · exact Reservation.held_congr (fun j hj => by unfold parentOf; rw [hother j hj])
      (fun j hj => by unfold ceilingOf; rw [hother j hj]) owner
  · unfold parentOf ceilingOf
    rw [hself]
    rfl

theorem BudgetLaw.heldFrom_fresh (h : BudgetLaw config t root)
    (hk : t[k]? = none) (q : Quantity) : heldFrom t q (some k) = 0 := by
  refine Reservation.held_eq_zero (fun j hj hp => ?_) _
  obtain ⟨x, hx⟩ := (Table.mem_keys t j).1 hj
  unfold parentOf at hp
  rw [hx, Option.bind_some] at hp
  obtain ⟨y, hy⟩ := h.parents j x k hx hp
  rw [hk] at hy
  cases hy

theorem amountReserved_checkedAdd {u v : BudgetReservation} (h : u.checkedAdd v = some r) (q : Quantity) :
    amountReserved r q = amountReserved u q + amountReserved v q := by
  obtain ⟨h1, h2, h3⟩ := reservation_checkedAdd h
  cases q
  · exact h1
  · exact h2
  · exact h3

variable {usage : BudgetUsage}

theorem fits_of_budgetFits {limit : TaskBudget} {reserved requested : BudgetReservation}
    (h : budgetFits limit usage reserved requested = .ok ()) (hr : reserved.checkedAdd requested = some r)
    (q : Quantity) : amountUsed usage q + amountReserved r q ≤ ceiling limit q := by
  obtain ⟨_, hr', h1, h2, h3, -⟩ := budgetFits_ok h
  rw [hr] at hr'
  cases hr'
  cases q
  · exact h1
  · exact h2
  · exact h3

variable {owner : Option TaskId}

theorem reservedFrom_other (hk : t[k]? = none) (x : Task) (hne : x.spec.parent ≠ owner) :
    reservedFrom (t.insert k x) owner = reservedFrom t owner := by
  refine reservation_ext (fun q => ?_)
  rw [amountReserved_reservedFrom, amountReserved_reservedFrom, heldFrom_insert hk, if_neg hne, Nat.add_zero]

theorem reservedFrom_owner (hk : t[k]? = none) (x : Task) (heq : x.spec.parent = owner)
    (hr : (reservedFrom t owner).checkedAdd x.spec.budget.reservable = some r) :
    r = reservedFrom (t.insert k x) owner := by
  refine reservation_ext (fun q => ?_)
  rw [amountReserved_checkedAdd hr, amountReserved_reservedFrom, amountReserved_reservedFrom, heldFrom_insert hk,
    if_pos heq]
  rfl

variable {x : Task}

theorem BudgetLaw.create {t1 : Tasks} {root' : BudgetReservation} (h : BudgetLaw config t root) (hspec : SameBy Task.spec t t1)
    (hk : t[k]? = none) (hu : x.usage = {}) (hc : x.childReservations = {})
    (hparent : ∀ p, x.spec.parent = some p → ∃ y, t[p]? = some y)
    (hold : ∀ (j : TaskId) (y : Task), t1[j]? = some y → y.childReservations = reservedFrom (t.insert k x) (some j) ∧
      (∀ q, amountUsed y.usage q + amountReserved y.childReservations q ≤ ceiling y.spec.budget q) ∧
      y.usage.wallMs ≤ y.spec.budget.maxWallMs)
    (hroot : root' = reservedFrom (t.insert k x) none) (hfit : ∀ q, amountReserved root' q ≤ ceiling config.budget q) :
    BudgetLaw config (t1.insert k x) root' := by
  have hspecs : SameBy Task.spec (t.insert k x) (t1.insert k x) := hspec.insert_both k x
  have hsame : ∀ owner, reservedFrom (t1.insert k x) owner = reservedFrom (t.insert k x) owner :=
    reservedFrom_congr hspecs
  have hself : reservedFrom (t.insert k x) (some k) = {} := by
    rw [reservedFrom_other hk x]
    · exact reservation_ext (fun q => by
        rw [amountReserved_reservedFrom, h.heldFrom_fresh hk]
        cases q <;> rfl)
    · intro hp
      obtain ⟨y, hy⟩ := hparent k hp
      rw [hk] at hy
      cases hy
  have hexists : ∀ (p : TaskId) (y : Task), t[p]? = some y → ∃ z, (t1.insert k x)[p]? = some z := fun p y hp => by
    have hget : (t.insert k x)[p]? = some y := by
      rw [Table.get_insert, if_neg (fun hkp => by rw [← hkp, hk] at hp; cases hp), hp]
    obtain ⟨z, hz, -⟩ := hspecs.of_some hget
    exact ⟨z, hz⟩
  refine ⟨fun j y p hj hp => ?_, fun j y hj => ?_, fun j y hj q => ?_, fun j y hj => ?_, by rw [hsame, hroot], hfit⟩
  · rcases Table.insert_eq_some hj with ⟨rfl, rfl⟩ | ⟨-, hj⟩
    · obtain ⟨z, hz⟩ := hparent p hp
      exact hexists p z hz
    · obtain ⟨z, hz, hsz⟩ := hspec.symm.of_some hj
      obtain ⟨w, hw⟩ := h.parents j z p hz (by rw [hsz, hp])
      exact hexists p w hw
  · rw [hsame]
    rcases Table.insert_eq_some hj with ⟨rfl, rfl⟩ | ⟨-, hj⟩
    · rw [hc, hself]
    · exact (hold j y hj).1
  · rcases Table.insert_eq_some hj with ⟨rfl, rfl⟩ | ⟨-, hj⟩
    · rw [hu, hc]
      cases q <;> exact Nat.zero_le _
    · exact (hold j y hj).2.1 q
  · rcases Table.insert_eq_some hj with ⟨rfl, rfl⟩ | ⟨-, hj⟩
    · rw [hu]
      exact Nat.zero_le _
    · exact (hold j y hj).2.2

variable {d : TaskDag} {spec : TaskSpec}

theorem BudgetLaw.create_root (h : BudgetLaw d.config d.tasks d.rootReservations) (hok : CreateOk d spec)
    (hp : spec.parent = none) (hr : d.rootReservations.checkedAdd spec.budget.reservable = some r) :
    BudgetLaw d.config (d.tasks.insert spec.id (d.newTask spec)) r := by
  have hroot : r = reservedFrom (d.tasks.insert spec.id (d.newTask spec)) none :=
    reservedFrom_owner hok.fresh (d.newTask spec) hp (by rw [← h.roots]; exact hr)
  refine h.create (fun _ => rfl) hok.fresh rfl rfl (fun p hpar => ?_) (fun j y hj => ?_) hroot (fun q => ?_)
  · rw [show (d.newTask spec).spec.parent = none from hp] at hpar
    cases hpar
  · rw [reservedFrom_other hok.fresh _ (by rw [show (d.newTask spec).spec.parent = none from hp]; simp)]
    exact ⟨h.children j y hj, h.fits j y hj, h.wall j y hj⟩
  · have hfit := fits_of_budgetFits (hok.root hp) hr q
    exact le_trans (Nat.le_add_left _ _) hfit

theorem BudgetLaw.create_child {p : TaskId} (h : BudgetLaw d.config d.tasks d.rootReservations) (hok : CreateOk d spec)
    (hp : spec.parent = some p) (hx : d.tasks[p]? = some x)
    (hr : x.childReservations.checkedAdd spec.budget.reservable = some r) :
    BudgetLaw d.config ((d.tasks.insert p { x with childReservations := r }).insert spec.id (d.newTask spec))
      d.rootReservations := by
  have hpar : (d.newTask spec).spec.parent = some p := hp
  refine h.create (.insert hx _ rfl) hok.fresh rfl rfl (fun q hq => ?_) (fun j y hj => ?_) ?_ h.rootFits
  · rw [hpar] at hq
    cases hq
    exact ⟨x, hx⟩
  · rcases Table.insert_eq_some hj with ⟨rfl, rfl⟩ | ⟨hpj, hj⟩
    · obtain ⟨_, hx', -, -, -, hfits⟩ := hok.parent p hp
      rw [hx] at hx'
      cases hx'
      refine ⟨reservedFrom_owner hok.fresh _ hpar (by rw [← h.children p x hx]; exact hr), fun q => ?_, h.wall p x hx⟩
      exact fits_of_budgetFits hfits hr q
    · rw [reservedFrom_other hok.fresh _ (by rw [hpar]; exact fun he => hpj (Option.some.inj he))]
      exact ⟨h.children j y hj, h.fits j y hj, h.wall j y hj⟩
  · rw [reservedFrom_other hok.fresh _ (by rw [hpar]; simp), h.roots]

/-! ## Charges -/

theorem checkedAdd_empty (h : r.checkedAdd {} = some s) : s = r :=
  reservation_ext (fun q => by
    rw [amountReserved_checkedAdd h]
    cases q <;> rfl)

theorem BudgetLaw.charge (h : BudgetLaw config t root) (hk : t[k]? = some x)
    (hfits : budgetFits x.spec.budget usage x.childReservations {} = .ok ()) :
    BudgetLaw config (t.insert k { x with usage := usage }) root := by
  obtain ⟨r, hr, -, -, -, hwall⟩ := budgetFits_ok hfits
  have hfit : ∀ q, amountUsed usage q + amountReserved x.childReservations q ≤ ceiling x.spec.budget q := fun q => by
    have hq := fits_of_budgetFits hfits hr q
    rw [checkedAdd_empty hr] at hq
    exact hq
  have hspec : SameBy Task.spec t (t.insert k { x with usage := usage }) := .insert hk _ rfl
  have hheld := reservedFrom_congr hspec
  refine ⟨fun j y p hj hp => ?_, fun j y hj => ?_, fun j y hj q => ?_, fun j y hj => ?_, by rw [hheld, h.roots],
    h.rootFits⟩
  · have hex : ∃ z, t[p]? = some z := by
      rcases Table.insert_eq_some hj with ⟨rfl, rfl⟩ | ⟨-, hj⟩
      · exact h.parents k x p hk hp
      · exact h.parents j y p hj hp
    obtain ⟨z, hz⟩ := hex
    obtain ⟨w, hw, -⟩ := hspec.of_some hz
    exact ⟨w, hw⟩
  · rw [hheld]
    rcases Table.insert_eq_some hj with ⟨rfl, rfl⟩ | ⟨-, hj⟩
    · exact h.children k x hk
    · exact h.children j y hj
  · rcases Table.insert_eq_some hj with ⟨rfl, rfl⟩ | ⟨-, hj⟩
    · exact hfit q
    · exact h.fits j y hj q
  · rcases Table.insert_eq_some hj with ⟨rfl, rfl⟩ | ⟨-, hj⟩
    · exact hwall
    · exact h.wall j y hj

/-! ## Runs -/

theorem budgetLaw_new (config : Config) : BudgetLaw config ∅ {} := by
  have hnone : ∀ k : TaskId, (∅ : Tasks)[k]? = none := fun k => Std.ExtTreeMap.getElem?_empty
  have hempty : reservedFrom ∅ none = {} := reservation_ext (fun q => by
    rw [amountReserved_reservedFrom]
    refine (Reservation.held_eq_zero (fun k hk => ?_) _).trans (by cases q <;> rfl)
    obtain ⟨v, hv⟩ := (Table.mem_keys _ k).1 hk
    cases hv)
  refine ⟨fun k x p hk => ?_, fun k x hk => ?_, fun k x hk => ?_, fun k x hk => ?_, hempty.symm, fun q => ?_⟩
  · rw [hnone k] at hk; cases hk
  · rw [hnone k] at hk; cases hk
  · rw [hnone k] at hk; cases hk
  · rw [hnone k] at hk; cases hk
  · cases q <;> exact Nat.zero_le _

theorem budgetLaw_step {a : TaskDag} {c : Command} (h : BudgetLaw d.config d.tasks d.rootReservations)
    (hs : TaskStep d c a) : BudgetLaw a.config a.tasks a.rootReservations := by
  cases hs with
  | root actor spec r edges hok hp hr => exact (h.create_root hok hp hr).congr (sameBy_resolveBlocked (fun _ _ => rfl) _)
  | child actor spec p x r edges hok hp hx hr =>
    exact (h.create_child hok hp hx hr).congr (sameBy_resolveBlocked (fun _ _ => rfl) _)
  | started actor task x hx _ _ => exact h.congr (.insert hx _ rfl)
  | charged actor task _ _ x hx _ hfits => exact h.charge hx hfits
  | messaged actor _ x hx => exact h.congr (.insert hx _ rfl)
  | cancelled actor task reason hok =>
    exact h.congr ((sameBy_cancelTasks (fun _ _ => rfl) d task reason).trans (sameBy_resolveBlocked (fun _ _ => rfl) _))
  | completed actor task _ _ _ _ x s hok ht _ =>
    exact h.congr ((SameBy.insert hok.found { x with state := s } rfl).trans (sameBy_resolveBlocked (fun _ _ => rfl) _))
  | elsewhere c a ht hc hr =>
    rw [ht, hc, hr]
    exact h

variable {H : Digests}

theorem Reachable.budgetLaw (h : Reachable H config d) :
    d.config = config ∧ BudgetLaw config d.tasks d.rootReservations := by
  have hinv : d.config = config ∧ BudgetLaw d.config d.tasks d.rootReservations :=
    Reaches.invariant (P := fun c t r => c = config ∧ BudgetLaw c t r) ⟨rfl, budgetLaw_new config⟩
      (fun _ _ _ _ hd hs => ⟨(step_config hs).trans hd.1, budgetLaw_step hd.2 hs⟩) h
  obtain ⟨hc, hlaw⟩ := hinv
  exact ⟨hc, hc ▸ hlaw⟩

/-! ## What the law gives -/

theorem checkedSub_of_le {a b : Nat} (h : b ≤ a) : checkedSub a b = some (a - b) := if_pos h

theorem remaining_isSome {b : TaskBudget} {reserved : BudgetReservation}
    (h : ∀ q, amountUsed usage q + amountReserved reserved q ≤ ceiling b q) (hwall : usage.wallMs ≤ b.maxWallMs) :
    ∃ r, b.remaining usage reserved = some r := by
  have h1 : usage.turns + reserved.turns ≤ b.maxTurns.toNat := h .turns
  have h2 : usage.tokens + reserved.tokens ≤ b.maxTokens := h .tokens
  have h3 : usage.costMicrousd + reserved.costMicrousd ≤ b.maxCostMicrousd := h .cost
  have hlt : b.maxTurns.toNat - usage.turns - reserved.turns < 4294967296 := by
    have := b.maxTurns.toNat_lt
    omega
  unfold TaskBudget.remaining
  simp only [Option.bind_eq_bind, Option.bind_some, checkedSub_of_le (show usage.turns ≤ b.maxTurns.toNat by omega),
    checkedSub_of_le (show reserved.turns ≤ b.maxTurns.toNat - usage.turns by omega),
    checkedSub_of_le (show usage.tokens ≤ b.maxTokens by omega),
    checkedSub_of_le (show reserved.tokens ≤ b.maxTokens - usage.tokens by omega),
    checkedSub_of_le (show usage.costMicrousd ≤ b.maxCostMicrousd by omega),
    checkedSub_of_le (show reserved.costMicrousd ≤ b.maxCostMicrousd - usage.costMicrousd by omega),
    checkedSub_of_le hwall, tryFromU32, if_pos hlt]
  exact ⟨_, rfl⟩

theorem BudgetLaw.totalUsage_le (h : BudgetLaw config t root)
    (q : Quantity) : totalUsage t q ≤ ceiling config.budget q := by
  have hspent : totalUsage t q ≤
      ∑ k ∈ Table.keys t with ¬ ∃ p ∈ Table.keys t, parentOf t k = some p, ceilingOf t q k := by
    refine Reservation.spent_le_tops (fun k hk => ?_)
    obtain ⟨x, hx⟩ := (Table.mem_keys t k).1 hk
    have hfit := h.fits k x hx q
    rw [h.children k x hx, amountReserved_reservedFrom] at hfit
    unfold usageOf ceilingOf
    rw [hx]
    exact hfit
  -- every parent exists, so the outermost tasks are the roots
  have htops : (Table.keys t).filter (fun k => ¬ ∃ p ∈ Table.keys t, parentOf t k = some p) =
      (Table.keys t).filter (fun k => parentOf t k = none) := by
    refine Finset.filter_congr (fun k hk => ?_)
    obtain ⟨x, hx⟩ := (Table.mem_keys t k).1 hk
    unfold parentOf
    rw [hx, Option.bind_some]
    constructor
    · intro hno
      cases hp : x.spec.parent with
      | none => rfl
      | some p => exact absurd ⟨p, (Table.mem_keys t p).2 (h.parents k x p hx hp), hp⟩ hno
    · rintro hnone ⟨p, -, hp⟩
      rw [hnone] at hp
      cases hp
  have hroot := h.rootFits q
  rw [h.roots, amountReserved_reservedFrom] at hroot
  rw [htops] at hspent
  exact le_trans hspent hroot

theorem apply_ne_none (d : TaskDag) (id : Nat) (c : Command) : d.apply H id c ≠ none := by
  unfold apply
  cases hp : d.prepare H id c with
  | error e => simp
  | ok prepared =>
    cases prepared with
    | replay _ => simp
    | new _ =>
      have hok := prepare_new hp
      obtain ⟨a, ha, -⟩ := validated_applies hok.valid
      simp [commit, hok.entry, entryOf, ha]

theorem ite_some_ne_none {α : Type} {p : Prop} [Decidable p] {a : α} {x : Option α} (h : x ≠ none) :
    (if p then some a else x) ≠ none := by
  by_cases hp : p
  · rw [if_pos hp]
    simp
  · rw [if_neg hp]
    exact h

theorem replay_ne_none (d : TaskDag) (entry : LogEntry) : d.replay H entry ≠ none := by
  repeat refine ite_some_ne_none ?_
  cases hv : d.validateCommand H entry.command with
  | error e => simp
  | ok u =>
    obtain ⟨a, ha, -⟩ := validated_applies hv
    simp [commit, ha]

/-- **Budgets are conserved.**  In every reachable graph each task's reservations are the sum of its direct children's
budgets and fit its own beside what it was charged, the graph's are the sum over its roots and fit the configured
budget, neither remaining-budget query nor any assertion of an application fails, and everything charged in the whole
graph fits the configured budget. -/
theorem budget_conserved {H : Digests} {config : Config} {d : TaskDag} (h : Reachable H config d) :
    (∀ (k : TaskId) (x : Task), d.tasks[k]? = some x → x.childReservations = reservedFrom d.tasks (some k) ∧
      ∀ q, amountUsed x.usage q + amountReserved x.childReservations q ≤ ceiling x.spec.budget q) ∧
    d.rootReservations = reservedFrom d.tasks none ∧
    (∀ q, amountReserved d.rootReservations q ≤ ceiling config.budget q) ∧
    (∀ k : TaskId, d.remainingBudget k ≠ .error (.budget "task budget invariant is inconsistent")) ∧
    (∃ b, d.remainingRootBudget = .ok b) ∧
    (∀ (id : Nat) (c : Command), d.apply H id c ≠ none) ∧ (∀ entry : LogEntry, d.replay H entry ≠ none) ∧
    ∀ q, totalUsage d.tasks q ≤ ceiling config.budget q := by
  obtain ⟨hc, hlaw⟩ := h.budgetLaw
  refine ⟨fun k x hk => ⟨hlaw.children k x hk, hlaw.fits k x hk⟩, hlaw.roots, hlaw.rootFits, fun k => ?_, ?_,
    apply_ne_none d, replay_ne_none d, hlaw.totalUsage_le⟩
  · unfold remainingBudget requireTask
    cases hk : d.tasks[k]? with
    | none => simp [orElseError, bind, Except.bind]
    | some x =>
      obtain ⟨r, hr⟩ := remaining_isSome (hlaw.fits k x hk) (hlaw.wall k x hk)
      simp [orElseError, bind, Except.bind, hr]
  · have hroot : ∀ q, amountUsed {} q + amountReserved d.rootReservations q ≤ ceiling d.config.budget q := by
      intro q
      have hq := hlaw.rootFits q
      rw [hc]
      cases q <;> exact (Nat.zero_add _).symm ▸ hq
    obtain ⟨r, hr⟩ := remaining_isSome hroot (Nat.zero_le _)
    exact ⟨r, by unfold remainingRootBudget; rw [hr]; rfl⟩

def chargedFamily : List Command :=
  [sampleTask 1 none [] 3, sampleTask 2 (some 1) [] 1, .startTask .controller 1, .startTask .controller 2,
    .chargeBudget .controller 1 { tokens := 20, turns := 2 }, .chargeBudget .controller 2 { tokens := 7 }]

theorem budget_conserved_chargedFamily : ∃ d, runAll sampleDigests sampleConfig chargedFamily = some d ∧
    totalUsage d.tasks .tokens = 27 ∧ totalUsage d.tasks .tokens ≤ ceiling sampleConfig.budget .tokens := by
  obtain ⟨d, hd, htotal⟩ : ∃ d, runAll sampleDigests sampleConfig chargedFamily = some d ∧
      totalUsage d.tasks .tokens = 27 :=
    Option.map_eq_some_iff.1 (by rfl :
      (runAll sampleDigests sampleConfig chargedFamily).map (fun d => totalUsage d.tasks .tokens) = some 27)
  exact ⟨d, hd, htotal, (budget_conserved (reachable_of_runAll hd)).2.2.2.2.2.2.2 .tokens⟩

end TaskDag
end Iteron.Dag
