import Iteron.PricingRun
/-!
# PricingHolding — what an agent holds of the nodes on its way

An agent holds the dispatch lanes it raised, the reservations it made under them and the mutexes it locked.  A call needs
its lane for every node step that touches a reservation, a charge or a mutex, and the reservation for those that settle
one; a guard that owns the lane gives a call both, for the whole of its lineage.
-/
namespace Iteron.Pricing

open Interleave (Discipline Follows follows_act)

set_option linter.unusedSectionVars false

variable {N A I : Type} [DecidableEq N] [DecidableEq A] [DecidableEq I]

structure Holding (N : Type) where
  lane : N → Prop
  own : N → Prop
  locked : N → Prop

namespace Holding

def none : Holding N := ⟨fun _ => False, fun _ => False, fun _ => False⟩

def need (h : Holding N) (op : N × Op I) : Prop :=
  match op.2 with
  | .requiresPricing | .raiseLane | .storeUnknown | .isUnsettled => True
  | .settleLocal | .closeCharge _ => h.own op.1
  | .lowerLane => h.lane op.1 ∧ ¬ h.locked op.1
  | .reserveLocal _ | .relaxReserved | .openCharge _ | .unlock => h.lane op.1

def lock (h : Holding N) (x : N) : Holding N := { h with locked := fun y => y = x ∨ h.locked y }

def unlock (h : Holding N) (x : N) : Holding N := { h with locked := fun y => y ≠ x ∧ h.locked y }

def raise (h : Holding N) (x : N) : Holding N := { h with lane := fun y => y = x ∨ h.lane y }

def lower (h : Holding N) (x : N) : Holding N :=
  { h with lane := fun y => y ≠ x ∧ h.lane y, own := fun y => y ≠ x ∧ h.own y }

def reserve (h : Holding N) (x : N) : Holding N := { h with own := fun y => y = x ∨ h.own y }

def next (h : Holding N) : (op : N × Op I) → op.2.Reply → Holding N
  | (x, .raiseLane), (raised : Bool) => if raised then h.raise x else h
  | (x, .lowerLane), _ => h.lower x
  | (x, .reserveLocal _), (reserved : Except String Unit) => if reserved.isOk then h.reserve x else h
  | (x, .openCharge _), (opened : Opened) => if opened = .contained then h else h.lock x
  | (x, .closeCharge _), (closed : Closed) => if closed = .overflowed then h else h.unlock x
  | (x, .unlock), _ => h.unlock x
  | _, _ => h

end Holding

def holding : Discipline (Holding N) (N × Op I) (fun op => op.2.Reply) := ⟨Holding.need, Holding.next⟩

/-- Nothing is lost outside some nodes, and no mutex is kept. -/
structure Outside (l : List N) (h h' : Holding N) : Prop where
  lane : ∀ y, y ∉ l → h.lane y → h'.lane y
  own : ∀ y, y ∉ l → h.own y → h'.own y
  locked : ∀ y, h'.locked y → h.locked y

section

variable {t : Tree N} {h h1 h2 h3 : Holding N} {l : List N} {x : N}

theorem Outside.refl (l : List N) (h : Holding N) : Outside l h h := ⟨fun _ _ hy => hy, fun _ _ hy => hy, fun _ hy => hy⟩

theorem Outside.trans (h12 : Outside l h1 h2) (h23 : Outside l h2 h3) : Outside l h1 h3 where
  lane := fun y hy hl => h23.lane y hy (h12.lane y hy hl)
  own := fun y hy ho => h23.own y hy (h12.own y hy ho)
  locked := fun y hk => h12.locked y (h23.locked y hk)

theorem Outside.mono {l' : List N} (ho : Outside l h1 h2) (hl : ∀ y ∈ l, y ∈ l') : Outside l' h1 h2 where
  lane := fun y hy => ho.lane y (fun hin => hy (hl y hin))
  own := fun y hy => ho.own y (fun hin => hy (hl y hin))
  locked := ho.locked

theorem outside_raise (x : N) (h : Holding N) : Outside [] h (h.raise x) :=
  ⟨fun _ _ hl => .inr hl, fun _ _ ho => ho, fun _ hk => hk⟩

theorem outside_reserve (x : N) (h : Holding N) : Outside [] h (h.reserve x) :=
  ⟨fun _ _ hl => hl, fun _ _ ho => .inr ho, fun _ hk => hk⟩

theorem outside_lower (x : N) (h : Holding N) : Outside [x] h (h.lower x) :=
  ⟨fun _ hy hl => ⟨fun he => hy (List.mem_singleton.2 he), hl⟩, fun _ hy ho => ⟨fun he => hy (List.mem_singleton.2 he), ho⟩,
    fun _ hk => hk⟩

def Holding.Lanes (h : Holding N) (l : List N) : Prop := ∀ y ∈ l, h.lane y ∧ ¬ h.locked y

def Holding.Owns (h : Holding N) (l : List N) : Prop := ∀ y ∈ l, h.lane y ∧ h.own y

/-! ## The calls -/

variable {Q : Unit → Holding N → Prop}

theorem follows_markUnknown (hQ : Q () h) : Follows (holding (I := I)) Q (markUnknown l) h := by
  suffices hs : Follows (holding (I := I)) (fun _ h' => h' = h) (markUnknown l) h from
    hs.mono (fun _ _ he => he ▸ hQ)
  induction l with
  | nil => exact rfl
  | cons x _ ih =>
    refine ih.bind ?_
    rintro _ _ rfl
    exact follows_act trivial (fun _ => rfl)

theorem follows_settleNotDispatched (hown : ∀ y ∈ l, h.own y) (hQ : Q () h) :
    Follows (holding (I := I)) Q (settleNotDispatched l) h := by
  suffices hs : Follows (holding (I := I)) (fun _ h' => h' = h) (settleNotDispatched l) h from
    hs.mono (fun _ _ he => he ▸ hQ)
  induction l with
  | nil => exact rfl
  | cons x _ ih =>
    refine (ih (fun y hy => hown y (List.mem_cons_of_mem x hy))).bind ?_
    rintro _ _ rfl
    exact follows_act (hown x (.head _)) (fun _ => rfl)

theorem follows_release (hl : t.Path l) (hlanes : h.Lanes l) :
    Follows (holding (I := I)) (fun _ h' => Outside l h h') (releaseProviderDispatch l) h := by
  induction l generalizing h with
  | nil => exact Outside.refl [] h
  | cons x _ ih =>
    have hx := hlanes x (.head _)
    refine (follows_act (Q := fun _ h' => h' = h) hx.1 (fun _ => rfl)).bind ?_
    rintro _ _ rfl
    refine (ih hl.up (fun y hy => hlanes y (List.mem_cons_of_mem x hy))).bind (fun _ h1 h1' => ?_)
    refine follows_act ⟨h1'.lane x hl.fresh hx.1, fun hk => hx.2 (h1'.locked x hk)⟩ (fun _ => ?_)
    refine (h1'.mono (fun y hy => List.mem_cons_of_mem x hy)).trans ?_
    exact (outside_lower x h1).mono (fun y hy => List.mem_singleton.1 hy ▸ List.mem_cons_self)

variable {r : Nat}

/-- **An acquisition needs nothing**: granted, it holds the lanes and the reservations of the lineage; refused, it gave
back what it took. -/
theorem follows_tryAcquire (hl : t.Path l) (hfree : ∀ y ∈ l, ¬ h.locked y) :
    Follows (holding (I := I)) (fun v h' => Outside l h h' ∧ (v = .ok () → h'.Owns l))
      (tryAcquireProviderDispatch r l) h := by
  induction l generalizing h with
  | nil => exact ⟨Outside.refl [] h, fun _ y hy => absurd hy List.not_mem_nil⟩
  | cons x up ih =>
    have hcons : ∀ y ∈ up, y ∈ x :: up := fun y hy => List.mem_cons_of_mem x hy
    have hself : ∀ y ∈ [x], y ∈ x :: up := fun y hy => List.mem_singleton.1 hy ▸ List.mem_cons_self
    refine (follows_act (Q := fun raised h' => h' = if raised = true then h.raise x else h) trivial (fun _ => rfl)).bind ?_
    rintro raised _ rfl
    cases raised with
    | false => exact ⟨Outside.refl _ h, fun hok => by cases hok⟩
    | true =>
      refine (@ih (h.raise x) hl.up (fun y hy => hfree y (hcons y hy))).bind ?_
      rintro v h2 ⟨hout, hgranted⟩
      have hout' : Outside (x :: up) h h2 :=
        ((outside_raise x h).mono (fun y hy => absurd hy List.not_mem_nil)).trans (hout.mono hcons)
      have hx : h2.lane x := hout.lane x hl.fresh (.inl rfl)
      have hunlocked : ∀ y ∈ x :: up, ¬ h2.locked y := fun y hy hk => hfree y hy (hout.locked y hk)
      have hlower : ∀ {h3 : Holding N}, Outside up h2 h3 →
          Follows (holding (I := I)) (fun _ h' => Outside (x :: up) h h') (ask x .lowerLane) h3 := by
        intro h3 h23
        refine follows_act ⟨h23.lane x hl.fresh hx, fun hk => hunlocked x (.head _) (h23.locked x hk)⟩ (fun _ => ?_)
        exact hout'.trans ((h23.mono hcons).trans ((outside_lower x h3).mono hself))
      rcases v with e | u
      · exact (hlower (Outside.refl up h2)).bind (fun _ h3 h3' => ⟨h3', fun hok => by cases hok⟩)
      · refine (follows_act (Q := fun reserved h' => h' = if reserved.isOk then h2.reserve x else h2) hx (fun _ => rfl)).bind ?_
        rintro reserved _ rfl
        rcases reserved with e | u
        · refine Follows.bind (follows_settleNotDispatched (Q := fun _ h' => h' = h2)
            (fun y hy => (hgranted rfl y hy).2) rfl) ?_
          rintro _ _ rfl
          refine (follows_release hl.up (fun y hy => ⟨(hgranted rfl y hy).1, hunlocked y (hcons y hy)⟩)).bind ?_
          intro _ h3 h23
          exact (hlower h23).bind (fun _ h4 h4' => ⟨h4', fun hok => by cases hok⟩)
        · refine ⟨hout'.trans ((outside_reserve x h2).mono (fun y hy => absurd hy List.not_mem_nil)), fun _ y hy => ?_⟩
          rcases List.mem_cons.1 hy with rfl | hy
          · exact ⟨hx, .inl rfl⟩
          · exact ⟨(hgranted rfl y hy).1, .inr (hgranted rfl y hy).2⟩

theorem Holding.Owns.outside (hown : h.Owns l) (ho : Outside [] h h1) : h1.Owns l := by
  intro y hy
  exact ⟨ho.lane y List.not_mem_nil (hown y hy).1, ho.own y List.not_mem_nil (hown y hy).2⟩

theorem follows_reserve (hown : h.Owns l) :
    Follows (holding (I := I)) (fun _ h' => Outside [] h h') (reserveProviderAttempt r l) h := by
  induction l generalizing h with
  | nil => exact Outside.refl [] h
  | cons x up ih =>
    have hup : h.Owns up := fun y hy => hown y (List.mem_cons_of_mem x hy)
    refine (ih hup).bind (fun v h1 h1' => ?_)
    rcases v with e | u
    · exact h1'
    · have hx := hown.outside h1' x (.head _)
      refine (follows_act (Q := fun reserved h' => h' = if reserved.isOk then h1.reserve x else h1) hx.1 (fun _ => rfl)).bind ?_
      rintro reserved _ rfl
      rcases reserved with e | u
      · exact Follows.bind (follows_settleNotDispatched (Q := fun _ h' => Outside [] h h')
          (fun y hy => (hup.outside h1' y hy).2) h1') (fun _ _ h2' => h2')
      · exact h1'.trans (outside_reserve x h1)

theorem outside_unlock (ho : Outside [] (h.lock x) h1) : Outside [] h (h1.unlock x) where
  lane := fun y hy hl => ho.lane y hy hl
  own := fun y hy how => ho.own y hy how
  locked := fun y hk => (ho.locked y hk.2).resolve_left hk.1

theorem follows_refuseCharge {up : List N} {e : String} (hx : h.lane x) (ho : Outside [] (h.lock x) h1) :
    Follows (holding (I := I)) (fun _ h' => Outside [] h h') (refuseCharge x up e) h1 := by
  refine Follows.bind (follows_markUnknown (Q := fun _ h' => h' = h1) rfl) ?_
  rintro _ _ rfl
  refine Follows.bind (follows_act (Q := fun _ h' => Outside [] h h') (ho.lane x List.not_mem_nil hx) (fun _ => ?_))
    (fun _ _ hdone => hdone)
  exact outside_unlock ho

theorem follows_commit {c : Charge I} (hown : h.Owns l) :
    Follows holding (fun _ h' => Outside [] h h') (commitProviderRouteCharge c l) h := by
  induction l generalizing h with
  | nil => exact Outside.refl [] h
  | cons x up ih =>
    have hx := hown x (.head _)
    refine (follows_act (Q := fun opened h' => h' = if opened = .contained then h else h.lock x) hx.1 (fun _ => rfl)).bind ?_
    rintro opened _ rfl
    cases opened with
    | contained => exact Outside.refl [] h
    | refused e => exact follows_refuseCharge hx.1 (Outside.refl [] _)
    | pending =>
      have hup : (h.lock x).Owns up := fun y hy => hown y (List.mem_cons_of_mem x hy)
      refine (ih hup).bind (fun v h1 h1' => ?_)
      rcases v with e | u
      · exact follows_refuseCharge hx.1 h1'
      · refine (follows_act (Q := fun closed h' => h' = if closed = .overflowed then h1 else h1.unlock x)
          (h1'.own x List.not_mem_nil hx.2) (fun _ => rfl)).bind ?_
        rintro closed _ rfl
        cases closed with
        | settled => exact outside_unlock h1'
        | refused e => exact outside_unlock h1'
        | overflowed => exact follows_refuseCharge hx.1 h1'

theorem follows_newGuard {reservation : Option Nat} (hl : t.Path l) (hfree : ∀ y, ¬ h.locked y) :
    Follows (holding (I := I)) (fun v h' => (∀ y, ¬ h'.locked y) ∧ (v = .ok true → h'.Owns l)) (newGuard reservation l) h := by
  cases l with
  | nil => exact ⟨hfree, fun hok => by cases hok⟩
  | cons x _ =>
    refine (follows_act (Q := fun _ h' => h' = h) trivial (fun _ => rfl)).bind ?_
    rintro priced _ rfl
    cases priced with
    | false => exact ⟨hfree, fun hok => by cases hok⟩
    | true =>
      cases reservation with
      | none => exact ⟨hfree, fun hok => by cases hok⟩
      | some r =>
        refine (follows_tryAcquire hl (fun y _ => hfree y)).bind ?_
        rintro v h1 ⟨hout, hgranted⟩
        have hfree1 : ∀ y, ¬ h1.locked y := fun y hk => hfree y (hout.locked y hk)
        rcases v with e | u
        · exact ⟨hfree1, fun hok => by cases hok⟩
        · exact ⟨hfree1, fun _ => hgranted rfl⟩

theorem follows_dropGuard {completed owns : Bool} (hl : t.Path l) (hfree : ∀ y, ¬ h.locked y) (hown : owns = true → h.Owns l) :
    Follows (holding (I := I)) (fun _ h' => ∀ y, ¬ h'.locked y) (dropGuard completed owns l) h := by
  cases l with
  | nil => exact hfree
  | cons x up =>
    cases owns with
    | false => exact hfree
    | true =>
      have hrelease : Follows (holding (I := I)) (fun _ h' => ∀ y, ¬ h'.locked y) (releaseProviderDispatch (x :: up)) h :=
        (follows_release hl (fun y hy => ⟨(hown rfl y hy).1, hfree y⟩)).mono
          (fun _ _ hout y hk => hfree y (hout.locked y hk))
      cases completed with
      | true => exact hrelease
      | false =>
        refine (follows_act (Q := fun _ h' => h' = h) trivial (fun _ => rfl)).bind ?_
        rintro unsettled h1 rfl
        cases unsettled with
        | false => exact hrelease
        | true =>
          refine Follows.bind (follows_markUnknown (Q := fun _ h' => h' = h1) rfl) ?_
          rintro _ _ rfl
          exact hrelease

/-! ## Requests -/

structure Rested (t : Tree N) (node : A → N) (a : A) (guard : Option Bool) (h : Holding N) : Prop where
  unlocked : ∀ x, ¬ h.locked x
  owns : guard = some true → h.Owns (t.lineage (node a))

/-- A reservation, a charge and a settlement are the business of a guard that owns the lane. -/
def Request.owning (guard : Option Bool) : Request N I → Prop
  | .reserve _ | .commit _ | .settle => guard = some true
  | _ => True

variable {node : A → N}

theorem Rested.outside {a : A} {guard guard' : Option Bool} (hr : Rested t node a guard h) (hguard : guard = some true)
    (ho : Outside [] h h1) : Rested t node a guard' h1 :=
  ⟨fun x hk => hr.unlocked x (ho.locked x hk), fun _ => (hr.owns hguard).outside ho⟩

/-- **A call of an agent that owns what it settles.** -/
theorem follows_program {a : A} {guard : Option Bool} {q : Request N I} {g : Agent N I}
    (hg : g.guard = q.guardDuring guard) (hq : q.allowed guard = true) (ho : q.owning guard) (hr : Rested t node a guard h) :
    Follows holding (fun o h' => Rested t node a (o.settle g).guard h') (q.program t node a guard) h := by
  have hpath := t.path_lineage (node a)
  cases q with
  | newGuard reservation =>
    have hnone : guard = none := Option.isNone_iff_eq_none.1 hq
    refine (follows_newGuard hpath hr.unlocked).bind ?_
    rintro v h1 ⟨hfree, hgranted⟩
    refine ⟨hfree, fun hguard => ?_⟩
    rcases settle_guard hguard with hv | hold
    · exact hgranted (Outcome.guarded.inj hv)
    · rw [hg, hnone] at hold
      cases hold
  | reserve reservation =>
    exact (follows_reserve (hr.owns ho)).bind (fun _ _ hout => hr.outside ho hout)
  | commit c => exact (follows_commit (hr.owns ho)).bind (fun _ _ hout => hr.outside ho hout)
  | settle =>
    have hown : ∀ y ∈ t.lineage (node a), h.own y := fun y hy => (hr.owns ho y hy).2
    exact Follows.bind (follows_settleNotDispatched (Q := fun _ h' => Outside [] h h') hown (Outside.refl [] h))
      (fun _ _ hout => hr.outside ho hout)
  | dropGuard _ =>
    refine (follows_dropGuard hpath hr.unlocked (fun howns => hr.owns (eq_of_beq howns))).bind ?_
    intro _ h1 hfree
    refine ⟨hfree, fun hguard => ?_⟩
    rw [show (Outcome.settle g .done).guard = g.guard from rfl, hg] at hguard
    cases hguard
  | markUnknown x =>
    refine Follows.bind (follows_markUnknown (Q := fun _ h' => h' = h) rfl) ?_
    rintro _ _ rfl
    refine ⟨hr.unlocked, fun hguard => hr.owns ?_⟩
    rw [show (Outcome.settle g .done).guard = g.guard from rfl, hg] at hguard
    exact hguard

end

end Iteron.Pricing
