import Iteron.PricingCalls
/-!
# PricingRun — a shared budget is never overspent

Over every interleaving of the agents' node steps: the totals are the ledgers', a child's charge and a child's unknown
cost are its ancestors' too, one guard owns a lane, and a node whose cost is unknown grants nothing to a reservation
that has still to pass it.
-/
namespace Iteron.Pricing

open Interleave (Safe)
open Interleave.Prog (All)

set_option linter.unusedSectionVars false

variable {N A I : Type} [DecidableEq N] [DecidableEq A] [DecidableEq I]
variable {t : Tree N} {created : N → Nat} {node : A → N}

def Ended (t : Tree N) (node : A → N) (a : A) (o : Outcome) (s : N → Node A I) : Prop :=
  (o = .guarded (.ok true) → ∀ y ∈ t.lineage (node a), a ∈ (s y).lane ∧ a ∈ (s y).passed) ∧
    (o = .reserved (.ok ()) → ∀ y ∈ t.lineage (node a), a ∈ (s y).passed)

variable {a : A} {o : Outcome} {s : N → Node A I}

theorem Ended.of_relies {s' : N → Node A I} (h : Ended t node a o s) (hs : Relies a s s') : Ended t node a o s' :=
  ⟨fun ho y hy => ⟨(hs y).lane (h.1 ho y hy).1, (hs y).passed.2 (h.1 ho y hy).2⟩,
    fun ho y hy => (hs y).passed.2 (h.2 ho y hy)⟩

/-- **The invariant of a run**: the tree's, each call in flight is safe, and a guard that owns the lane owns it at every
node of its lineage and is in no call that lowers it. -/
structure Steady (t : Tree N) (created : N → Nat) (node : A → N) (σ : State N A I) : Prop where
  sound : Sound t created σ.nodes
  safe : ∀ a p, (σ.agents a).running = some p → Safe (rules t created a) (Ended t node a) p σ.nodes
  lane : ∀ a, (σ.agents a).guard = some true → ∀ y ∈ t.lineage (node a), a ∈ (σ.nodes y).lane
  held : ∀ a p, (σ.agents a).guard = some true → (σ.agents a).running = some p → p.All (fun op => op.2 ≠ .lowerLane)

theorem sound_fresh : Sound t created (fresh (A := A) (I := I) created).nodes where
  node := fun _ =>
    { balanced := Ledger.balanced_empty
      spent := rfl
      funded := Nat.zero_le _
      ceiling := Nat.le_refl _
      free := fun _ => rfl
      single := Nat.zero_le _ }
  charges := fun _ _ _ _ hc => absurd hc List.not_mem_nil
  unknown := fun _ _ _ h => nomatch h

theorem steady_fresh : Steady t created node (fresh created : State N A I) where
  sound := sound_fresh
  safe := fun _ _ h => nomatch h
  lane := fun _ h => nomatch h
  held := fun _ _ h => nomatch h

variable {guard : Option Bool}

theorem safe_program (q : Request N I) (hlane : guard = some true → ∀ y ∈ t.lineage (node a), a ∈ (s y).lane) :
    Safe (rules t created a) (Ended t node a) (q.program t node a guard) s := by
  have hpath := t.path_lineage (node a)
  have hdone : ∀ s' : N → Node A I, Ended t node a .done s' := fun _ => ⟨nofun, nofun⟩
  cases q with
  | newGuard reservation =>
    refine (safe_newGuard hpath s).bind fun v s1 h1 => ⟨fun ho => ?_, nofun⟩
    exact h1 (Outcome.guarded.inj ho)
  | reserve reservation =>
    refine (safe_reserve hpath s).bind fun v s1 h1 => ⟨nofun, fun ho => ?_⟩
    exact h1.1 (Outcome.reserved.inj ho)
  | commit c => exact (safe_commit hpath s).bind fun _ s1 _ => hdone s1
  | settle => exact (safe_settleNotDispatched _ s).bind fun _ s1 _ => hdone s1
  | dropGuard _ =>
    refine (safe_dropGuard hpath fun ho => hlane ?_).bind fun _ s1 _ => hdone s1
    exact eq_of_beq ho
  | markUnknown x => exact (safe_markUnknown (t.path_lineage x) s).bind fun _ s1 _ => hdone s1

theorem all_program (q : Request N I) (hq : q.allowed guard = true) (hg : q.guardDuring guard = some true) :
    (q.program t node a guard).All (fun op => op.2 ≠ .lowerLane) := by
  cases q with
  | newGuard reservation =>
    rw [show guard = some true from hg] at hq
    cases hq
  | reserve reservation =>
    exact All.bind (all_reserve (fun _ _ h => nomatch h) (fun _ _ h => nomatch h)) fun _ => trivial
  | commit c => exact All.bind (all_commit fun _ _ _ h => h) fun _ => trivial
  | settle => exact All.bind (all_settleNotDispatched fun _ _ h => nomatch h) fun _ => trivial
  | dropGuard _ => cases hg
  | markUnknown x => exact All.bind (all_markUnknown fun _ _ h => nomatch h) fun _ => trivial

variable {σ σ' : State N A I}

theorem Steady.step_others (h : Steady t created node σ)
    (hsound : Sound t created σ'.nodes) (hothers : ∀ b, b ≠ a → Relies b σ.nodes σ'.nodes)
    (hagents : ∀ b, b ≠ a → σ'.agents b = σ.agents b)
    (hsafe : ∀ p, (σ'.agents a).running = some p → Safe (rules t created a) (Ended t node a) p σ'.nodes)
    (hlane : (σ'.agents a).guard = some true → ∀ y ∈ t.lineage (node a), a ∈ (σ'.nodes y).lane)
    (hheld : ∀ p, (σ'.agents a).guard = some true → (σ'.agents a).running = some p →
      p.All (fun op => op.2 ≠ .lowerLane)) : Steady t created node σ' where
  sound := hsound
  safe := by
    intro b p hp
    by_cases hb : b = a
    · subst hb
      exact hsafe p hp
    · rw [hagents b hb] at hp
      exact (h.safe b p hp).of_rely (fun _ _ _ ho hr => ho.of_relies hr) (hothers b hb)
  lane := by
    intro b hg
    by_cases hb : b = a
    · subst hb
      exact hlane hg
    · rw [hagents b hb] at hg
      exact fun y hy => (hothers b hb y).lane (h.lane b hg y hy)
  held := by
    intro b p hg hp
    by_cases hb : b = a
    · subst hb
      exact hheld p hg hp
    · rw [hagents b hb] at hg hp
      exact h.held b p hg hp

variable {e : Event N A I}

/-- **The three kinds of step**: a call starts, a call takes its next node step or returns, a ceiling is tightened. -/
theorem step_cases (h : step t node σ e = some σ') :
    (∃ a q, e = .call a q ∧ (σ.agents a).running = none ∧ q.allowed (σ.agents a).guard = true ∧
        σ'.nodes = (fun x => { σ.nodes x with passed := (σ.nodes x).passed.filter (· ≠ a) }) ∧
        σ'.agents = Function.update σ.agents a { σ.agents a with
            guard := q.guardDuring (σ.agents a).guard, running := some (q.program t node a (σ.agents a).guard) }) ∨
      (∃ a o, e = .turn a ∧ (σ.agents a).running = some (.ret o) ∧ σ' = σ.setAgent a (o.settle (σ.agents a))) ∨
      (∃ a op k s r, e = .turn a ∧ (σ.agents a).running = some (.step op k) ∧ exec a σ.nodes op = some (s, r) ∧
        σ' = { nodes := s, agents := Function.update σ.agents a { σ.agents a with running := some (k r) } }) ∨
      ∃ x v, e = .tighten x v ∧ σ' = { σ with nodes := Function.update σ.nodes x ((σ.nodes x).tightenMicrousd v) } := by
  cases e with
  | call a q =>
    simp only [step] at h
    split at h
    · rename_i hc
      rw [Bool.and_eq_true, Option.isNone_iff_eq_none] at hc
      rw [← Option.some.inj h]
      exact .inl ⟨a, q, rfl, hc.1, hc.2, rfl, rfl⟩
    · cases h
  | turn a =>
    simp only [step] at h
    split at h
    · cases h
    · rename_i o hrun
      exact .inr (.inl ⟨a, o, rfl, hrun, (Option.some.inj h).symm⟩)
    · rename_i op k hrun
      split at h
      · cases h
      · rename_i s r hx
        exact .inr (.inr (.inl ⟨a, op, k, s, r, rfl, hrun, hx, (Option.some.inj h).symm⟩))
  | tighten x v => exact .inr (.inr (.inr ⟨x, v, rfl, (Option.some.inj h).symm⟩))

variable {g : Agent N I}

theorem settle_guard (h : (o.settle g).guard = some true) : o = .guarded (.ok true) ∨ g.guard = some true := by
  unfold Outcome.settle at h
  split at h
  · exact .inl rfl
  · cases h
  · exact .inr h
  · exact .inr h

theorem settle_running (g : Agent N I) (o : Outcome) : (o.settle g).running = none := by
  unfold Outcome.settle
  split <;> rfl

theorem steady_call (h : Steady t created node σ) {q : Request N I} (hq : q.allowed (σ.agents a).guard = true)
    (hnodes : σ'.nodes = fun x => { σ.nodes x with passed := (σ.nodes x).passed.filter (· ≠ a) })
    (hagents : σ'.agents = Function.update σ.agents a { σ.agents a with
        guard := q.guardDuring (σ.agents a).guard, running := some (q.program t node a (σ.agents a).guard) }) :
    Steady t created node σ' := by
  have hlane : ∀ y, (σ'.nodes y).lane = (σ.nodes y).lane := fun y => by rw [hnodes]
  have hguard : (σ'.agents a).guard = q.guardDuring (σ.agents a).guard := by rw [hagents, Function.update_self]
  have hrunning : (σ'.agents a).running = some (q.program t node a (σ.agents a).guard) := by
    rw [hagents, Function.update_self]
  refine h.step_others (a := a) ?_ ?_ ?_ ?_ ?_ ?_
  · rw [hnodes]
    refine ⟨fun x => ?_, h.sound.charges, h.sound.unknown⟩
    have hx := h.sound.node x
    exact ⟨hx.balanced, hx.spent, hx.funded, hx.ceiling, hx.free, hx.single⟩
  · intro b hb y
    rw [hnodes]
    exact ⟨id, fun _ hc => hc, fun hl => ⟨hl, rfl, rfl⟩, id, by simp [hb]⟩
  · intro b hb
    rw [hagents, Function.update_of_ne hb]
  · intro p hp
    rw [hrunning] at hp
    cases hp
    exact safe_program q fun hg y hy => by rw [hlane]; exact h.lane a hg y hy
  · intro hg y hy
    rw [hguard] at hg
    rw [hlane]
    refine h.lane a ?_ y hy
    cases q with
    | dropGuard _ => cases hg
    | _ => exact hg
  · intro p hg hp
    rw [hguard] at hg
    rw [hrunning] at hp
    cases hp
    exact all_program q hq hg

theorem steady_return (h : Steady t created node σ) (hrun : (σ.agents a).running = some (.ret o)) :
    Steady t created node (σ.setAgent a (o.settle (σ.agents a))) := by
  have hself : (σ.setAgent a (o.settle (σ.agents a))).agents a = o.settle (σ.agents a) := Function.update_self ..
  refine h.step_others (a := a) h.sound (fun b _ y => Kept.refl b _) ?_ ?_ ?_ ?_
  · exact fun b hb => Function.update_of_ne hb ..
  · intro p hp
    rw [hself, settle_running] at hp
    cases hp
  · intro hg y hy
    rw [hself] at hg
    rcases settle_guard hg with rfl | hg
    · exact ((h.safe a _ hrun).1 rfl y hy).1
    · exact h.lane a hg y hy
  · intro p _ hp
    rw [hself, settle_running] at hp
    cases hp

theorem steady_act (h : Steady t created node σ) {op : N × Op I} {k : op.2.Reply → Call N I Outcome} {r : op.2.Reply}
    (hrun : (σ.agents a).running = some (.step op k)) (hx : exec a σ.nodes op = some (s, r)) : Steady t created node
      { nodes := s, agents := Function.update σ.agents a { σ.agents a with running := some (k r) } } := by
  obtain ⟨hsound, hprom, hk⟩ := h.safe a _ hrun σ.nodes (fun y => Kept.refl a _) h.sound s r hx
  refine h.step_others (a := a) hsound hprom.others ?_ ?_ ?_ ?_
  · exact fun b hb => Function.update_of_ne hb ..
  · intro p hp
    simp only [Function.update_self] at hp
    cases hp
    exact hk
  · intro hg y hy
    simp only [Function.update_self] at hg
    have hlow := (h.held a _ hg hrun).1
    have hold := h.lane a hg y hy
    by_cases hyx : y = op.1
    · subst hyx
      obtain ⟨n, hn, rfl⟩ := exec_eq_some hx
      simp only [Function.update_self]
      exact exec_lane hlow hn hold
    · have hsame := exec_elsewhere hx hyx
      simp only [hsame]
      exact hold
  · intro p hg hp
    simp only [Function.update_self] at hg hp
    cases hp
    exact (h.held a _ hg hrun).2 r

theorem kept_tighten (s : N → Node A I) (x : N) (v : Nat) (b : A) :
    Relies b s (Function.update s x ((s x).tightenMicrousd v)) := by
  intro y
  by_cases hy : y = x
  · subst hy
    rw [Function.update_self]
    exact Kept.of_eq id rfl rfl rfl rfl rfl
  · rw [Function.update_of_ne hy]
    exact Kept.refl b _

theorem steady_tighten (h : Steady t created node σ) (x : N) (v : Nat) :
    Steady t created node { σ with nodes := Function.update σ.nodes x ((σ.nodes x).tightenMicrousd v) } := by
  have hcharges : ∀ y, (Function.update σ.nodes x ((σ.nodes x).tightenMicrousd v) y).routeCharges =
      (σ.nodes y).routeCharges := by
    intro y
    by_cases hy : y = x
    · subst hy
      rw [Function.update_self]
      rfl
    · rw [Function.update_of_ne hy]
  have hunknown : ∀ y, (Function.update σ.nodes x ((σ.nodes x).tightenMicrousd v) y).unknown = (σ.nodes y).unknown := by
    intro y
    by_cases hy : y = x
    · subst hy
      rw [Function.update_self]
      rfl
    · rw [Function.update_of_ne hy]
  refine ⟨⟨fun y => ?_, ?_, ?_⟩, ?_, ?_, h.held⟩
  · by_cases hy : y = x
    · subst hy
      simp only [Function.update_self]
      have hn := h.sound.node y
      exact ⟨hn.balanced, hn.spent, hn.funded, Nat.le_trans (Nat.min_le_left _ _) hn.ceiling, hn.free, hn.single⟩
    · simp only [Function.update_of_ne hy]
      exact h.sound.node y
  · intro y p hp
    simp only [hcharges]
    exact h.sound.charges y p hp
  · intro y p hp
    simp only [hunknown]
    exact h.sound.unknown y p hp
  · exact fun b p hp =>
      (h.safe b p hp).of_rely (fun _ _ _ ho hr => ho.of_relies hr) (kept_tighten σ.nodes x v b)
  · exact fun b hg y hy => (kept_tighten σ.nodes x v b y).lane (h.lane b hg y hy)

theorem steady_step (h : Steady t created node σ) (hstep : step t node σ e = some σ') : Steady t created node σ' := by
  rcases step_cases hstep with ⟨a, q, -, -, hq, hnodes, hagents⟩ | ⟨a, o, -, hrun, rfl⟩ |
    ⟨a, op, k, s, r, -, hrun, hx, rfl⟩ | ⟨x, v, -, rfl⟩
  · exact steady_call h hq hnodes hagents
  · exact steady_return h hrun
  · exact steady_act h hrun hx
  · exact steady_tighten h x v

variable {es : List (Event N A I)}

theorem run_induction {P : State N A I → Prop} (hP : ∀ σ σ' e, P σ → step t node σ e = some σ' → P σ')
    (h : P σ) (hrun : run t node σ es = some σ') : P σ' := by
  induction es generalizing σ with
  | nil => exact Option.some.inj hrun ▸ h
  | cons e es ih =>
    obtain ⟨σ1, h1, hrest⟩ := Option.bind_eq_some_iff.1 hrun
    exact ih (hP σ σ1 e h h1) hrest

theorem steady_run (h : run t node (fresh created) es = some σ) : Steady t created node σ :=
  run_induction (fun _ _ _ h hs => steady_step h hs) steady_fresh h

/-! ## An unknown cost closes the node -/

/-- The node's cost is unknown, and the agent's current call has not passed the node. -/
def Barred (x : N) (a : A) (g : Nat) (σ : State N A I) : Prop :=
  (σ.nodes x).unknown = true ∧ a ∉ (σ.nodes x).passed ∧ (σ.agents a).granted = g

theorem settle_granted (h : (o.settle g).granted ≠ g.granted) : o = .guarded (.ok true) ∨ o = .reserved (.ok ()) := by
  unfold Outcome.settle at h
  split at h
  · exact .inl rfl
  · cases h rfl
  · exact .inr rfl
  · cases h rfl

variable {x : N}

/-- **Once barred, an agent stays barred**: its next reservations stop at the node, or below its descendants' lanes. -/
theorem barred_step (h : Steady t created node σ) {g : Nat}
    (hx : x ∈ t.lineage (node a)) (hb : Barred x a g σ) (hstep : step t node σ e = some σ') : Barred x a g σ' := by
  obtain ⟨hu, hpass, hg⟩ := hb
  rcases step_cases hstep with ⟨b, q, -, -, -, hnodes, hagents⟩ | ⟨b, o, -, hrun, rfl⟩ |
    ⟨b, op, k, s, r, -, hrun, hexec, rfl⟩ | ⟨y, v, -, rfl⟩
  · refine ⟨by rw [hnodes]; exact hu, ?_, ?_⟩
    · rw [hnodes]
      exact fun hin => hpass (List.mem_of_mem_filter hin)
    · rw [hagents]
      by_cases hab : a = b
      · subst hab
        rw [Function.update_self]
        exact hg
      · rw [Function.update_of_ne hab]
        exact hg
  · refine ⟨hu, hpass, ?_⟩
    by_cases hab : a = b
    · subst hab
      have hself : ((σ.setAgent a (o.settle (σ.agents a))).agents a) = o.settle (σ.agents a) :=
        Function.update_self ..
      rw [hself, ← hg]
      by_contra hne
      -- a granted reservation has passed every node of the lineage
      rcases settle_granted hne with rfl | rfl
      · exact hpass ((h.safe a _ hrun).1 rfl x hx).2
      · exact hpass ((h.safe a _ hrun).2 rfl x hx)
    · have hother : (σ.setAgent b (o.settle (σ.agents b))).agents a = σ.agents a := Function.update_of_ne hab ..
      rw [hother]
      exact hg
  · obtain ⟨-, hprom, -⟩ := h.safe b _ hrun σ.nodes (fun y => Kept.refl b _) h.sound s r hexec
    refine ⟨hprom.unknown x hu, ?_, ?_⟩
    · by_cases hab : a = b
      · subst hab
        exact fun hin => hpass (hprom.passed x hu hin)
      · exact fun hin => hpass ((hprom.others a hab x).passed.1 hin)
    · by_cases hab : a = b
      · subst hab
        simp only [Function.update_self]
        exact hg
      · simp only [Function.update_of_ne hab]
        exact hg
  · have hk := kept_tighten σ.nodes y v a x
    exact ⟨hk.unknown hu, fun hin => hpass (hk.passed.1 hin), hg⟩

theorem barred_run (h : Steady t created node σ) {g : Nat}
    (hx : x ∈ t.lineage (node a)) (hb : Barred x a g σ) (hrun : run t node σ es = some σ') : Barred x a g σ' := by
  have hboth : Steady t created node σ' ∧ Barred x a g σ' :=
    run_induction (P := fun σ => Steady t created node σ ∧ Barred x a g σ)
      (fun _ _ _ h hs => ⟨steady_step h.1 hs, barred_step h.1 hx h.2 hs⟩) ⟨h, hb⟩ hrun
  exact hboth.2

theorem up_lineage {P : N → Prop} (hP : ∀ x p, t.parent x = some p → P x → P p) {y : N} (hy : y ∈ t.lineage x)
    (hx : P x) : P y := by
  induction x using t.root_induction with
  | root x hp =>
    rw [t.lineage_root hp, List.mem_singleton] at hy
    exact hy ▸ hx
  | child x p hp ih =>
    rw [t.lineage_child hp, List.mem_cons] at hy
    rcases hy with rfl | hy
    · exact hx
    · exact ih hy (hP x p hp hx)

/-- What the tree of budgets is for, of one state: totals that are the ledgers' and within the ceilings, charges that
are their ancestors' too and counted once, one owner of a lane, and unknown costs that are their ancestors' too. -/
structure Honest (t : Tree N) (created : N → Nat) (node : A → N) (σ : State N A I) : Prop where
  spent : ∀ x, (σ.nodes x).spentMicrousd = ((σ.nodes x).routeCharges.charges.map Charge.amountMicrousd).sum
  ceiling : ∀ x, (σ.nodes x).spentMicrousd ≤ created x
  charges : ∀ x y, y ∈ t.lineage x → ∀ c ∈ (σ.nodes x).routeCharges.charges, c ∈ (σ.nodes y).routeCharges.charges
  once : ∀ x, ((σ.nodes x).routeCharges.charges.map Charge.identity).Nodup
  owner : ∀ x a b, a ∈ (σ.nodes x).lane → b ∈ (σ.nodes x).lane → a = b
  guard : ∀ a, (σ.agents a).guard = some true → ∀ x ∈ t.lineage (node a), a ∈ (σ.nodes x).lane
  unknown : ∀ x y, y ∈ t.lineage x → (σ.nodes x).unknown = true → (σ.nodes y).unknown = true

theorem Steady.honest (h : Steady t created node σ) : Honest t created node σ where
  spent := fun x => (h.sound.node x).spent.trans (h.sound.node x).balanced.total
  ceiling := fun x => Nat.le_trans (Nat.le_add_right _ _) (h.sound.node x).funded
  charges := fun _ _ hy c hc =>
    up_lineage (P := fun x => c ∈ (σ.nodes x).routeCharges.charges) (fun x p hp => h.sound.charges x p hp c) hy hc
  once := fun x => (h.sound.node x).balanced.once
  owner := fun x _ _ ha hb => (h.sound.node x).owner ha hb
  guard := h.lane
  unknown := fun _ _ hy hu => up_lineage (P := fun x => (σ.nodes x).unknown = true) h.sound.unknown hy hu

/-- **A shared budget is never overspent.**  In every state of every interleaving the tree is honest; and once a node's
cost is unknown, an agent below it whose current call has not passed the node's own reserve step is granted no
reservation ever again. -/
theorem budget_never_overspent (t : Tree N) (created : N → Nat) (node : A → N) (es : List (Event N A I))
    (σ : State N A I) (h : run t node (fresh created) es = some σ) :
    Honest t created node σ ∧ ∀ x a, (σ.nodes x).unknown = true → x ∈ t.lineage (node a) →
      a ∉ (σ.nodes x).passed → ∀ es' σ', run t node σ es' = some σ' → (σ'.agents a).granted = (σ.agents a).granted := by
  have hsteady := steady_run h
  refine ⟨hsteady.honest, fun x a hu hx hpass es' σ' hrun => ?_⟩
  exact (barred_run hsteady hx ⟨hu, hpass, rfl⟩ hrun).2.2

def pair : Tree Bool where
  parent := fun x => if x then some false else none
  depth := fun x => if x then 1 else 0
  depth_root := by decide
  depth_child := by decide
  depth_le := by decide

/-- The agent `false` works at the child, the agent `true` at the root. -/
def seats : Bool → Bool := not

/-- The child's agent makes its guard up to the root's reserve step; then the root's agent marks the root. -/
def midway : List (Event Bool Bool String) :=
  [.call false (.newGuard (some 5)), .turn false, .turn false, .turn false, .turn false,
    .call true (.markUnknown false), .turn true]

/-- What the budget would be if an unknown cost stopped the reservations already past the node too. -/
def Closes (t : Tree N) (created : N → Nat) (node : A → N) (I : Type) [DecidableEq I] : Prop :=
  ∀ (es : List (Event N A I)) (σ : State N A I), run t node (fresh created) es = some σ →
    ∀ x a, (σ.nodes x).unknown = true → x ∈ t.lineage (node a) →
      ∀ es' σ', run t node σ es' = some σ' → (σ'.agents a).granted = (σ.agents a).granted

theorem midway_granted : ((run pair seats (fresh fun _ => 10) midway).bind fun σ =>
      (run pair seats σ [.turn false, .turn false]).map fun σ' =>
        decide ((σ.nodes false).unknown = true ∧ (σ.agents false).granted = 0 ∧ (σ'.agents false).granted = 1)) =
      some true := by
  rfl

/-- A reservation already past the root is granted after the root's cost is unknown. -/
theorem not_closes_midway : ¬ Closes pair (fun _ => 10) seats String := by
  intro h
  obtain ⟨σ, hσ, hrest⟩ := Option.bind_eq_some_iff.1 midway_granted
  obtain ⟨σ', hσ', hfacts⟩ := Option.map_eq_some_iff.1 hrest
  obtain ⟨hu, _, _⟩ := of_decide_eq_true hfacts
  have := h midway σ hσ false false hu (by decide) _ σ' hσ'
  omega

/-- A guard, one charge committed up to the root, and the guard completed. -/
def settled : List (Event Bool Bool String) :=
  [Event.call false (.newGuard (some 5))] ++ List.replicate 6 (Event.turn false) ++
    [Event.call false (.commit ⟨"attempt", "digest", 4⟩)] ++ List.replicate 5 (Event.turn false) ++
    [Event.call false (.dropGuard true)] ++ List.replicate 5 (Event.turn false) ++
    [Event.call true (.markUnknown true), .turn true, .turn true, .turn true]

theorem settled_spent : (run pair seats (fresh fun _ => 10) settled).map (fun σ =>
      decide ((σ.nodes false).spentMicrousd = 4 ∧ (σ.nodes true).spentMicrousd = 4 ∧ (σ.nodes true).lane = [] ∧
        (σ.nodes true).unknown = true ∧ (false : Bool) ∉ (σ.nodes true).passed)) = some true := by
  rfl

theorem budget_never_overspent_settled :
    ∃ σ, run pair seats (fresh fun _ => 10) settled = some σ ∧ (σ.nodes false).spentMicrousd = 4 ∧
      Honest pair (fun _ => 10) seats σ ∧ ∀ es' σ', run pair seats σ es' = some σ' →
        (σ'.agents false).granted = (σ.agents false).granted := by
  obtain ⟨σ, hσ, hfacts⟩ := Option.map_eq_some_iff.1 settled_spent
  obtain ⟨hspent, -, -, hu, hpass⟩ := of_decide_eq_true hfacts
  obtain ⟨hhonest, hclosed⟩ := budget_never_overspent pair _ seats settled σ hσ
  exact ⟨σ, hσ, hspent, hhonest, hclosed true false hu (by decide) hpass⟩

end Iteron.Pricing
