import Iteron.PricingBudget
/-!
# PricingNode — what one node step may do

The invariant of a node, what every other agent may rely on across a step, and one lemma for all node steps.
-/
namespace Iteron.Pricing

set_option linter.unusedSectionVars false

variable {A I : Type} [DecidableEq A] [DecidableEq I]

/-- **The invariant of a node** created with a ceiling: the spent total is the sum of the ledger, it leaves room for the
reservation, and the dispatch flag is down only while nobody owns the lane. -/
structure NodeOk (created : Nat) (n : Node A I) : Prop where
  balanced : n.routeCharges.Balanced
  spent : n.spentMicrousd = n.routeCharges.amountMicrousd
  funded : n.spentMicrousd + n.reservedMicrousd ≤ created
  ceiling : n.ceilingMicrousd ≤ created
  free : n.providerDispatchInFlight = false → n.lane = []
  single : n.lane.length ≤ 1

variable {created : Nat} {n : Node A I} {a b : A}

theorem NodeOk.owner (hn : NodeOk created n) (ha : a ∈ n.lane) (hb : b ∈ n.lane) : a = b := by
  obtain ⟨c, hc⟩ := List.length_eq_one_iff.1 (Nat.le_antisymm hn.single (List.length_pos_of_mem ha))
  rw [hc, List.mem_singleton] at ha hb
  exact ha.trans hb.symm

/-- What agent `b` still knows of a node after the others moved it. -/
structure Kept (b : A) (n n' : Node A I) : Prop where
  unknown : n.unknown = true → n'.unknown = true
  charges : ∀ c ∈ n.routeCharges.charges, c ∈ n'.routeCharges.charges
  locked : n.lock = some b →
    n'.lock = some b ∧ n'.routeCharges = n.routeCharges ∧ n'.spentMicrousd = n.spentMicrousd
  lane : b ∈ n.lane → b ∈ n'.lane
  passed : b ∈ n'.passed ↔ b ∈ n.passed

theorem Kept.refl (b : A) (n : Node A I) : Kept b n n :=
  ⟨id, fun _ hc => hc, fun h => ⟨h, rfl, rfl⟩, id, Iff.rfl⟩

theorem Kept.trans {n1 n2 n3 : Node A I} (h : Kept b n1 n2) (h' : Kept b n2 n3) : Kept b n1 n3 where
  unknown := fun hu => h'.unknown (h.unknown hu)
  charges := fun c hc => h'.charges c (h.charges c hc)
  locked := by
    intro hl
    obtain ⟨hl2, hr2, hs2⟩ := h.locked hl
    obtain ⟨hl3, hr3, hs3⟩ := h'.locked hl2
    exact ⟨hl3, hr3.trans hr2, hs3.trans hs2⟩
  lane := fun hb => h'.lane (h.lane hb)
  passed := h'.passed.trans h.passed

variable {n' : Node A I}

theorem Kept.of_eq (hu : n.unknown = true → n'.unknown = true)
    (hr : n'.routeCharges = n.routeCharges) (hs : n'.spentMicrousd = n.spentMicrousd) (hl : n'.lock = n.lock)
    (hlane : n'.lane = n.lane) (hp : n'.passed = n.passed) : Kept b n n' where
  unknown := hu
  charges := fun c hc => by rw [hr]; exact hc
  locked := fun h => ⟨hl.trans h, hr, hs⟩
  lane := fun hb => by rw [hlane]; exact hb
  passed := by rw [hp]

def Ready (created : Nat) (a : A) (n : Node A I) : Op I → Prop
  | .lowerLane => a ∈ n.lane
  | .closeCharge c =>
    n.lock = some a ∧ n.routeCharges.containsExact c = .ok false ∧ n.spentMicrousd + c.amountMicrousd ≤ created
  | .unlock => n.lock = some a
  | _ => True

variable {op : Op I}

theorem Ready.of_kept (h : Ready created a n op) (hk : Kept a n n') : Ready created a n' op := by
  cases op with
  | lowerLane => exact hk.lane h
  | closeCharge c =>
    obtain ⟨hl, hc, hs⟩ := h
    obtain ⟨hl', hr', hs'⟩ := hk.locked hl
    exact ⟨hl', by rw [hr']; exact hc, by rw [hs']; exact hs⟩
  | unlock => exact (hk.locked h).1
  | _ => trivial

/-- **What a step of agent `a` does to its node.** -/
structure Effect (created : Nat) (a : A) (op : Op I) (n n' : Node A I) : Prop where
  ok : NodeOk created n'
  kept : ∀ b, b ≠ a → Kept b n n'
  unknown : n.unknown = true → n'.unknown = true
  marked : n'.unknown = true → n.unknown = true ∨ op = .storeUnknown
  charges : ∀ c ∈ n.routeCharges.charges, c ∈ n'.routeCharges.charges
  charged : ∀ c ∈ n'.routeCharges.charges, c ∈ n.routeCharges.charges ∨ op = .closeCharge c
  passed : a ∈ n.passed → a ∈ n'.passed
  reserved : a ∈ n'.passed → a ∈ n.passed ∨ n.unknown = false

theorem Effect.of_eq (hn : NodeOk created n)
    (hr : n'.routeCharges = n.routeCharges) (hs : n'.spentMicrousd = n.spentMicrousd) (hl : n'.lock = n.lock)
    (hlane : n'.lane = n.lane) (hp : n'.passed = n.passed) (hu : n'.unknown = n.unknown)
    (hf : n'.providerDispatchInFlight = n.providerDispatchInFlight) (hc : n'.ceilingMicrousd ≤ n.ceilingMicrousd)
    (hres : n'.reservedMicrousd ≤ n.reservedMicrousd) : Effect created a op n n' where
  ok :=
    { balanced := by rw [hr]; exact hn.balanced
      spent := by rw [hs, hr]; exact hn.spent
      funded := by
        have := hn.funded
        omega
      ceiling := Nat.le_trans hc hn.ceiling
      free := by rw [hf, hlane]; exact hn.free
      single := by rw [hlane]; exact hn.single }
  kept := fun _ _ => Kept.of_eq (fun h => by rw [hu]; exact h) hr hs hl hlane hp
  unknown := fun h => by rw [hu]; exact h
  marked := fun h => .inl (by rw [← hu]; exact h)
  charges := fun c h => by rw [hr]; exact h
  charged := fun c h => .inl (by rw [← hr]; exact h)
  passed := fun h => by rw [hp]; exact h
  reserved := fun h => .inl (by rw [← hp]; exact h)

theorem Effect.refl (op : Op I) (hn : NodeOk created n) : Effect created a op n n :=
  Effect.of_eq hn rfl rfl rfl rfl rfl rfl rfl (Nat.le_refl _) (Nat.le_refl _)

theorem reserveLocal_ok {r : Nat} (h : n.reserveLocal r = .ok n') :
    n.unknown = false ∧ n.spentMicrousd + r ≤ n.ceilingMicrousd ∧
      n' = { n with reservedMicrousd := r, reservationSettled := false } := by
  unfold Node.reserveLocal at h
  split at h
  · cases h
  · rename_i hu
    split at h
    · cases h
    · split at h
      · cases h
      · rename_i required hreq
        split at h
        · cases h
        · have := Machine.checkedAdd_eq_some hreq
          exact ⟨by simpa using hu, by omega, (Except.ok.inj h).symm⟩

variable {c : Charge I}

theorem openCharge_pending (h : n.openCharge c = .pending) :
    n.routeCharges.containsExact c = .ok false ∧ c.amountMicrousd ≤ n.reservedMicrousd := by
  unfold Node.openCharge at h
  split at h
  · cases h
  · cases h
  · rename_i hc
    split at h
    · cases h
    · exact ⟨hc, by omega⟩

theorem openCharge_contained (h : n.openCharge c = .contained) : c ∈ n.routeCharges.charges := by
  unfold Node.openCharge at h
  split at h
  · rename_i hc
    exact Ledger.mem_of_containsExact hc
  · cases h
  · split at h <;> cases h

theorem closeCharge_cases (hn : NodeOk created n) (hc : n.routeCharges.containsExact c = .ok false) :
    ((n.routeCharges.admitCharge c).1.charges = c :: n.routeCharges.charges ∧
        (n.routeCharges.admitCharge c).1.amountMicrousd = n.spentMicrousd + c.amountMicrousd ∧ n.closeCharge c =
          ({ n with
              routeCharges := (n.routeCharges.admitCharge c).1, reservedMicrousd := 0, reservationSettled := true,
              spentMicrousd := n.spentMicrousd + c.amountMicrousd, lock := none }, .settled)) ∨
      ((n.routeCharges.admitCharge c).1.charges = n.routeCharges.charges ∧
        (n.routeCharges.admitCharge c).1.amountMicrousd = n.spentMicrousd ∧
        ∃ e, n.closeCharge c =
          ({ n with routeCharges := (n.routeCharges.admitCharge c).1, lock := none }, .refused e)) := by
  rcases Ledger.admitCharge_cases hc with ⟨hok, hcharges, htotal⟩ | ⟨⟨e, herr⟩, hcharges, htotal⟩
  · rw [← hn.spent] at htotal
    have hsum := Machine.checkedAdd_eq_some htotal
    refine .inl ⟨hcharges, hsum, ?_⟩
    unfold Node.closeCharge
    simp only [hok, htotal, hsum, Node.settleLocal]
  · refine .inr ⟨hcharges, htotal.trans hn.spent.symm, e, ?_⟩
    unfold Node.closeCharge
    simp only [herr]

theorem effect_raise (hn : NodeOk created n) (hf : n.providerDispatchInFlight = false) :
    Effect created a .raiseLane n { n with providerDispatchInFlight := true, lane := a :: n.lane } where
  ok :=
    { balanced := hn.balanced
      spent := hn.spent
      funded := hn.funded
      ceiling := hn.ceiling
      free := fun h => by cases h
      single := by simp [hn.free hf] }
  kept := fun _ _ =>
    ⟨id, fun _ hc => hc, fun h => ⟨h, rfl, rfl⟩, fun hb => List.mem_cons_of_mem a hb, Iff.rfl⟩
  unknown := id
  marked := .inl
  charges := fun _ hc => hc
  charged := fun _ hc => .inl hc
  passed := id
  reserved := .inl

theorem effect_lower (hn : NodeOk created n) (ha : a ∈ n.lane) :
    Effect created a .lowerLane n { n with providerDispatchInFlight := false, lane := n.lane.erase a } where
  ok :=
    { balanced := hn.balanced
      spent := hn.spent
      funded := hn.funded
      ceiling := hn.ceiling
      free := by
        intro _
        have hlen := List.length_erase_of_mem ha
        have := hn.single
        exact List.eq_nil_of_length_eq_zero (by simp only at hlen ⊢; omega)
      single := by
        have := List.length_erase_le (a := a) (l := n.lane)
        have := hn.single
        simp only
        omega }
  kept := fun b hb =>
    ⟨id, fun _ hc => hc, fun h => ⟨h, rfl, rfl⟩, fun h => (List.mem_erase_of_ne hb).2 h, Iff.rfl⟩
  unknown := id
  marked := .inl
  charges := fun _ hc => hc
  charged := fun _ hc => .inl hc
  passed := id
  reserved := .inl

theorem effect_reserve {r : Nat} (hn : NodeOk created n)
    (h : n.reserveLocal r = .ok n') : Effect created a (.reserveLocal r) n { n' with passed := a :: n.passed } := by
  obtain ⟨hu, hle, rfl⟩ := reserveLocal_ok h
  exact
    { ok :=
        { balanced := hn.balanced
          spent := hn.spent
          funded := Nat.le_trans hle hn.ceiling
          ceiling := hn.ceiling
          free := hn.free
          single := hn.single }
      kept := fun b hb => ⟨id, fun _ hc => hc, fun h => ⟨h, rfl, rfl⟩, id, by simp [hb]⟩
      unknown := id
      marked := .inl
      charges := fun _ hc => hc
      charged := fun _ hc => .inl hc
      passed := fun ha => List.mem_cons_of_mem a ha
      reserved := fun _ => .inr hu }

theorem effect_mark (hn : NodeOk created n) : Effect created a .storeUnknown n { n with unknown := true } where
  ok := ⟨hn.balanced, hn.spent, hn.funded, hn.ceiling, hn.free, hn.single⟩
  kept := fun _ _ => Kept.of_eq (fun _ => rfl) rfl rfl rfl rfl rfl
  unknown := fun _ => rfl
  marked := fun _ => .inr rfl
  charges := fun _ hc => hc
  charged := fun _ hc => .inl hc
  passed := id
  reserved := .inl

theorem effect_lock (hn : NodeOk created n) (l : Option A)
    (hl : ∀ b, n.lock = some b → b = a) : Effect created a op n { n with lock := l } where
  ok := ⟨hn.balanced, hn.spent, hn.funded, hn.ceiling, hn.free, hn.single⟩
  kept := fun b hb => ⟨id, fun _ hc => hc, fun h => absurd (hl b h) hb, id, Iff.rfl⟩
  unknown := id
  marked := .inl
  charges := fun _ hc => hc
  charged := fun _ hc => .inl hc
  passed := id
  reserved := .inl

theorem effect_close (hn : NodeOk created n)
    (hr : Ready created a n (.closeCharge c)) : Effect created a (.closeCharge c) n (n.closeCharge c).1 := by
  obtain ⟨hlock, hc, hroom⟩ := hr
  have hother : ∀ b, b ≠ a → n.lock ≠ some b := fun b hb h => hb (Option.some.inj (h.symm.trans hlock))
  have hbal := hn.balanced.admitCharge hc
  rcases closeCharge_cases hn hc with ⟨hcharges, htotal, heq⟩ | ⟨hcharges, htotal, e, heq⟩
  · rw [heq]
    exact
      { ok := ⟨hbal, htotal.symm, hroom, hn.ceiling, hn.free, hn.single⟩
        kept := fun b hb =>
          ⟨id, fun d hd => by rw [hcharges]; exact List.mem_cons_of_mem c hd, fun h => absurd h (hother b hb), id,
            Iff.rfl⟩
        unknown := id
        marked := .inl
        charges := fun d hd => by rw [hcharges]; exact List.mem_cons_of_mem c hd
        charged := by
          intro d hd
          rw [hcharges] at hd
          rcases List.mem_cons.1 hd with rfl | hd
          · exact .inr rfl
          · exact .inl hd
        passed := id
        reserved := .inl }
  · rw [heq]
    exact
      { ok := ⟨hbal, htotal.symm, hn.funded, hn.ceiling, hn.free, hn.single⟩
        kept := fun b hb =>
          ⟨id, fun d hd => by rw [hcharges]; exact hd, fun h => absurd h (hother b hb), id, Iff.rfl⟩
        unknown := id
        marked := .inl
        charges := fun d hd => by rw [hcharges]; exact hd
        charged := fun d hd => .inl (by rw [hcharges] at hd; exact hd)
        passed := id
        reserved := .inl }

variable {r : op.Reply}

/-- **Every node step keeps its node's invariant, and what the other agents rely on.** -/
theorem exec_effect (hn : NodeOk created n) (hr : Ready created a n op) (h : n.exec a op = some (n', r)) :
    Effect created a op n n' := by
  cases op with
  | requiresPricing =>
    cases h
    exact Effect.refl _ hn
  | isUnsettled =>
    cases h
    exact Effect.refl _ hn
  | raiseLane =>
    simp only [Node.exec] at h
    split at h
    · cases h
      exact Effect.refl _ hn
    · rename_i hf
      cases h
      exact effect_raise hn (by simpa using hf)
  | lowerLane =>
    cases h
    exact effect_lower hn hr
  | reserveLocal _ =>
    simp only [Node.exec] at h
    split at h
    · cases h
    · split at h
      · cases h
        exact Effect.refl _ hn
      · rename_i hok
        cases h
        exact effect_reserve hn hok
  | settleLocal =>
    cases h
    exact Effect.of_eq hn rfl rfl rfl rfl rfl rfl rfl (Nat.le_refl _) (Nat.zero_le _)
  | relaxReserved =>
    cases h
    split
    · exact Effect.of_eq hn rfl rfl rfl rfl rfl rfl rfl (Nat.le_refl _) (Nat.zero_le _)
    · exact Effect.refl _ hn
  | storeUnknown =>
    cases h
    exact effect_mark hn
  | openCharge c =>
    simp only [Node.exec] at h
    split at h
    · cases h
    · rename_i hfree
      have hnone : ∀ b, n.lock = some b → b = a := fun b hb => absurd (by rw [hb]; rfl) hfree
      split at h
      · cases h
        exact Effect.refl _ hn
      · cases h
        exact effect_lock hn (some a) hnone
  | closeCharge c =>
    obtain ⟨rfl, -⟩ := Prod.mk.inj (Option.some.inj h)
    exact effect_close hn hr
  | unlock =>
    cases h
    exact effect_lock hn none (fun b hb => Option.some.inj (hb.symm.trans hr))

theorem exec_lane (hop : op ≠ .lowerLane) (h : n.exec a op = some (n', r)) (ha : a ∈ n.lane) : a ∈ n'.lane := by
  cases op with
  | lowerLane => exact absurd rfl hop
  | reserveLocal _ =>
    simp only [Node.exec] at h
    split at h
    · cases h
    · split at h
      · cases h
        exact ha
      · rename_i hok
        obtain ⟨-, -, rfl⟩ := reserveLocal_ok hok
        cases h
        exact ha
  | closeCharge c =>
    obtain ⟨rfl, -⟩ := Prod.mk.inj (Option.some.inj h)
    split
    · exact ha
    · exact ha
    · split <;> exact ha
  | _ =>
    simp only [Node.exec] at h
    grind [Node.settleLocal]

def Op.quiet : Op I → Bool
  | .requiresPricing => true
  | .settleLocal => true
  | .relaxReserved => true
  | .storeUnknown => true
  | .isUnsettled => true
  | _ => false

theorem exec_quiet (hop : op.quiet = true) (h : n.exec a op = some (n', r)) : Kept a n n' := by
  cases op with
  | requiresPricing =>
    cases h
    exact Kept.refl a _
  | isUnsettled =>
    cases h
    exact Kept.refl a _
  | settleLocal =>
    cases h
    exact Kept.of_eq id rfl rfl rfl rfl rfl
  | relaxReserved =>
    cases h
    split
    · exact Kept.of_eq id rfl rfl rfl rfl rfl
    · exact Kept.refl a _
  | storeUnknown =>
    cases h
    exact Kept.of_eq (fun _ => rfl) rfl rfl rfl rfl rfl
  | _ => cases hop

end Iteron.Pricing
