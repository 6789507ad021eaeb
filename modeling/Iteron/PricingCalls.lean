import Iteron.PricingTree
/-!
# PricingCalls — each call is safe under interference

For each call, that it keeps the invariant of the tree from every state of it, however the node steps of the others
fall between its own, and what its agent knows when it returns.
-/
namespace Iteron.Pricing

open Interleave (Rules Safe)
open Interleave.Prog (All)

set_option linter.unusedSectionVars false

variable {N A I : Type} [DecidableEq N] [DecidableEq A] [DecidableEq I]

variable (t : Tree N) (created : N → Nat) (a : A)

/-- The rules agent `a` runs under. -/
def rules : Rules (N → Node A I) (N × Op I) (fun op => op.2.Reply) where
  exec := exec a
  inv := Sound t created
  rely := Relies a
  guar := Promises a
  rely_refl := fun s x => Kept.refl a (s x)
  rely_trans := fun h h' x => (h x).trans (h' x)

variable {t created a}

variable {x : N} {s : N → Node A I} {op : Op I}

theorem safe_ask {Q : op.Reply → (N → Node A I) → Prop} (hop : Sanctioned t created a s (x, op))
    (hQ : ∀ s1 s2 r, Relies a s s1 → NodeOk (created x) (s1 x) → (s1 x).exec a op = some (s2 x, r) → (∀ y, y ≠ x → s2 y = s1 y) → Q r s2)
    : Safe (rules t created a) Q (ask x op) s := by
  intro s1 hrely hinv s2 r hx
  obtain ⟨hs2, hg⟩ := exec_sound hinv (hop.of_relies hrely) hx
  refine ⟨hs2, hg, hQ s1 s2 r hrely (hinv.node x) ?_ fun y hy => exec_elsewhere hx hy⟩
  obtain ⟨n, hn, rfl⟩ := exec_eq_some hx
  rw [Function.update_self]
  exact hn

def Op.harmless : Op I → Bool
  | .lowerLane => false
  | .storeUnknown => false
  | .closeCharge _ => false
  | .unlock => false
  | _ => true

theorem sanctioned_of_harmless (h : op.harmless = true) : Sanctioned t created a s (x, op) := by
  refine ⟨?_, ?_, ?_⟩
  · cases op <;> trivial
  · rintro rfl
    cases h
  · rintro c rfl
    cases h

theorem sanctioned_lower (h : a ∈ (s x).lane) : Sanctioned t created a s (x, .lowerLane) := by
  refine ⟨h, ?_, ?_⟩
  · rintro ⟨⟩
  · rintro c ⟨⟩

theorem sanctioned_unlock (h : (s x).lock = some a) : Sanctioned t created a s (x, .unlock) := by
  refine ⟨h, ?_, ?_⟩
  · rintro ⟨⟩
  · rintro c ⟨⟩

variable {α : Type} {Q : α → (N → Node A I) → Prop} {p : Call N I α}

theorem safe_quiet (hp : p.All (fun op => op.2.quiet = true)) (h : Safe (rules t created a) Q p s) :
    Safe (rules t created a) (fun v s' => Q v s' ∧ Relies a s s') p s := by
  refine h.frame (R := Relies a) (fun _ _ h => h) (fun h h' x => (h x).trans (h' x)) ?_ hp
  intro op hop s1 s2 r _ hx y
  by_cases hy : y = op.1
  · subst hy
    obtain ⟨n, hn, rfl⟩ := exec_eq_some hx
    rw [Function.update_self]
    exact exec_quiet hop hn
  · rw [exec_elsewhere hx hy]
    exact Kept.refl a _

variable {l : List N}

theorem safe_outside (hp : p.All (fun op => op.1 ∈ l)) (h : Safe (rules t created a) Q p s) :
    Safe (rules t created a) (fun v s' => Q v s' ∧ ∀ y, y ∉ l → Kept a (s y) (s' y)) p s := by
  have hrely : ∀ s s' : N → Node A I, Relies a s s' → ∀ y, y ∉ l → Kept a (s y) (s' y) := fun _ _ h y _ => h y
  refine h.frame hrely (fun h h' y hy => (h y hy).trans (h' y hy)) ?_ hp
  intro op hop s1 s2 r _ hx y hy
  have hne : y ≠ op.1 := by
    rintro rfl
    exact hy hop
  rw [exec_elsewhere hx hne]
  exact Kept.refl a _

theorem safe_lanes (hp : p.All (fun op => op.2 ≠ .lowerLane)) (h : Safe (rules t created a) Q p s) :
    Safe (rules t created a) (fun v s' => Q v s' ∧ ∀ y, a ∈ (s y).lane → a ∈ (s' y).lane) p s := by
  have hrely : ∀ s s' : N → Node A I, Relies a s s' → ∀ y, a ∈ (s y).lane → a ∈ (s' y).lane :=
    fun _ _ h y => (h y).lane
  refine h.frame hrely (fun h h' y hy => h' y (h y hy)) ?_ hp
  intro op hop s1 s2 r _ hx y hy
  by_cases hyx : y = op.1
  · subst hyx
    obtain ⟨n, hn, rfl⟩ := exec_eq_some hx
    rw [Function.update_self]
    exact exec_lane hop hn hy
  · rw [exec_elsewhere hx hyx]
    exact hy

variable {P : N × Op I → Prop}

theorem all_markUnknown (h : ∀ x ∈ l, P (x, .storeUnknown)) : (markUnknown l : Call N I Unit).All P := by
  induction l with
  | nil => trivial
  | cons x _ ih =>
    exact All.bind (ih fun y hy => h y (List.mem_cons_of_mem x hy)) fun _ =>
      Interleave.Prog.all_act (h x (.head _))

theorem all_settleNotDispatched (h : ∀ x ∈ l, P (x, .settleLocal)) : (settleNotDispatched l : Call N I Unit).All P := by
  induction l with
  | nil => trivial
  | cons x _ ih =>
    exact All.bind (ih fun y hy => h y (List.mem_cons_of_mem x hy)) fun _ =>
      Interleave.Prog.all_act (h x (.head _))

theorem safe_markUnknown (hl : t.Path l) (s : N → Node A I) :
    Safe (rules t created a) (fun _ s' => (∀ y ∈ l, (s' y).unknown = true) ∧ Relies a s s') (markUnknown l) s := by
  refine safe_quiet (all_markUnknown fun _ _ => rfl) ?_
  induction l generalizing s with
  | nil => exact fun y hy => absurd hy List.not_mem_nil
  | cons x _ ih =>
    refine (ih hl.up s).bind fun _ s1 hup => safe_ask ⟨trivial, fun _ p hp => ?_, fun _ h => nomatch h⟩ ?_
    · rw [hl.parent] at hp
      exact hup p (List.mem_of_mem_head? hp)
    · intro s2 s3 _ hrely _ hx hother y hy
      rcases List.mem_cons.1 hy with rfl | hy
      · obtain ⟨h, -⟩ := Prod.mk.inj (Option.some.inj hx)
        rw [← h]
      · have hyx : y ≠ x := fun h => hl.fresh (h ▸ hy)
        rw [hother y hyx]
        exact (hrely y).unknown (hup y hy)

theorem safe_settleNotDispatched (l : List N) (s : N → Node A I) :
    Safe (rules t created a) (fun _ s' => Relies a s s') (settleNotDispatched l) s := by
  have hsafe : Safe (rules t created a) (fun _ _ => True) (settleNotDispatched l) s := by
    induction l generalizing s with
    | nil => trivial
    | cons x _ ih =>
      exact (ih s).bind fun _ _ _ => safe_ask (sanctioned_of_harmless rfl) fun _ _ _ _ _ _ _ => trivial
  exact (safe_quiet (all_settleNotDispatched fun _ _ => rfl) hsafe).mono fun _ _ h => h.2

theorem all_release (h : ∀ x ∈ l, P (x, .relaxReserved))
    (h' : ∀ x ∈ l, P (x, .lowerLane)) : (releaseProviderDispatch l : Call N I Unit).All P := by
  induction l with
  | nil => trivial
  | cons x _ ih =>
    refine All.bind (Interleave.Prog.all_act (h x (.head _))) fun _ => All.bind (ih ?_ ?_) fun _ =>
      Interleave.Prog.all_act (h' x (.head _))
    · exact fun y hy => h y (List.mem_cons_of_mem x hy)
    · exact fun y hy => h' y (List.mem_cons_of_mem x hy)

theorem safe_release (hl : t.Path l) (hlane : ∀ y ∈ l, a ∈ (s y).lane) :
    Safe (rules t created a) (fun _ s' => ∀ y, y ∉ l → Kept a (s y) (s' y)) (releaseProviderDispatch l) s := by
  have hsafe : Safe (rules t created a) (fun _ _ => True) (releaseProviderDispatch l) s := by
    induction l generalizing s with
    | nil => trivial
    | cons x up ih =>
      have hrelax : Safe (rules t created a) (fun _ s' => True ∧ Relies a s s') (ask x .relaxReserved) s :=
        safe_quiet (Interleave.Prog.all_act rfl) (safe_ask (sanctioned_of_harmless rfl) fun _ _ _ _ _ _ _ => trivial)
      refine hrelax.bind fun _ s1 h1 => ?_
      have hlane1 : ∀ y ∈ x :: up, a ∈ (s1 y).lane := fun y hy => (h1.2 y).lane (hlane y hy)
      have hup := safe_outside (all_release (fun _ h => h) (fun _ h => h))
        (ih hl.up fun y hy => hlane1 y (List.mem_cons_of_mem x hy))
      refine hup.bind fun _ s2 h2 => safe_ask (sanctioned_lower ?_) fun _ _ _ _ _ _ _ => trivial
      exact (h2.2 x hl.fresh).lane (hlane1 x (.head _))
  exact (safe_outside (all_release (fun _ h => h) (fun _ h => h)) hsafe).mono fun _ _ h => h.2

variable {r : Nat}

theorem all_tryAcquire (h : ∀ x ∈ l, ∀ op, P (x, op)) : (tryAcquireProviderDispatch r l : Call N I _).All P := by
  induction l with
  | nil => trivial
  | cons x up ih =>
    have hx : ∀ op, P (x, op) := h x (.head _)
    have hup : ∀ y ∈ up, ∀ op, P (y, op) := fun y hy => h y (List.mem_cons_of_mem x hy)
    refine All.bind (Interleave.Prog.all_act (hx _)) fun b => ?_
    cases b with
    | false => trivial
    | true =>
      refine All.bind (ih hup) fun v => ?_
      rcases v with e | u
      · exact All.bind (Interleave.Prog.all_act (hx _)) fun _ => trivial
      · refine All.bind (Interleave.Prog.all_act (hx _)) fun v => ?_
        rcases v with e | u
        · refine All.bind (all_settleNotDispatched fun y hy => hup y hy _) fun _ =>
            All.bind (all_release (fun y hy => hup y hy _) (fun y hy => hup y hy _)) fun _ =>
            All.bind (Interleave.Prog.all_act (hx _)) fun _ => trivial
        · trivial

variable {n n' : Node A I}

theorem exec_raise (h : n.exec a .raiseLane = some (n', true)) : a ∈ n'.lane := by
  simp only [Node.exec] at h
  split at h
  · cases h
  · cases h
    exact .head _

theorem exec_reserve (h : n.exec a (.reserveLocal r) = some (n', .ok ())) : a ∈ n'.passed := by
  simp only [Node.exec] at h
  split at h
  · cases h
  · split at h
    · cases h
    · cases h
      exact .head _

/-- **A granted acquisition owns every lane of the lineage and has passed every reserve step.** -/
theorem safe_tryAcquire (hl : t.Path l) (s : N → Node A I) : Safe (rules t created a)
      (fun v s' => (v = .ok () → ∀ y ∈ l, a ∈ (s' y).lane ∧ a ∈ (s' y).passed) ∧ ∀ y, y ∉ l → Kept a (s y) (s' y))
      (tryAcquireProviderDispatch r l) s := by
  refine safe_outside (all_tryAcquire fun y hy _ => hy) ?_
  induction l generalizing s with
  | nil => exact fun _ y hy => absurd hy List.not_mem_nil
  | cons x up ih =>
    have hraise : Safe (rules t created a) (fun b s' => b = true → a ∈ (s' x).lane) (ask x .raiseLane) s := by
      refine safe_ask (sanctioned_of_harmless rfl) ?_
      rintro s1 s2 b - - hx - rfl
      exact exec_raise hx
    refine hraise.bind fun b s1 h1 => ?_
    cases b with
    | false => exact fun h => nomatch h
    | true =>
      have hup := safe_outside (l := up) (all_tryAcquire fun y hy _ => hy) (ih hl.up s1)
      refine hup.bind fun v s2 h2 => ?_
      have hx2 : a ∈ (s2 x).lane := (h2.2 x hl.fresh).lane (h1 rfl)
      rcases v with e | u
      · refine Interleave.Safe.bind (Q := fun _ _ => True) ?_ fun _ _ _ => fun h => nomatch h
        exact safe_ask (sanctioned_lower hx2) fun _ _ _ _ _ _ _ => trivial
      · have hall := h2.1 rfl
        have hres : Safe (rules t created a)
            (fun v s' => (∀ y ∈ x :: up, a ∈ (s' y).lane) ∧ (v = .ok () → ∀ y ∈ x :: up, a ∈ (s' y).passed))
            (ask x (.reserveLocal r)) s2 := by
          refine safe_ask (sanctioned_of_harmless rfl) ?_
          intro s3 s4 v hrely hn hx hother
          have hlane : ∀ y ∈ x :: up, a ∈ (s3 y).lane := by
            intro y hy
            rcases List.mem_cons.1 hy with rfl | hy
            · exact (hrely y).lane hx2
            · exact (hrely y).lane (hall y hy).1
          refine ⟨fun y hy => ?_, ?_⟩
          · by_cases hyx : y = x
            · subst hyx
              exact exec_lane (by simp) hx (hlane y hy)
            · rw [hother y hyx]
              exact hlane y hy
          · rintro rfl y hy
            by_cases hyx : y = x
            · subst hyx
              exact exec_reserve hx
            · rw [hother y hyx]
              exact (hrely y).passed.2 (hall y ((List.mem_cons.1 hy).resolve_left hyx)).2
        refine hres.bind fun v s3 h3 => ?_
        rcases v with e | u
        · refine (safe_settleNotDispatched up s3).bind fun _ s4 h4 => ?_
          have hlane4 : ∀ y ∈ x :: up, a ∈ (s4 y).lane := fun y hy => (h4 y).lane (h3.1 y hy)
          refine (safe_release hl.up fun y hy => hlane4 y (List.mem_cons_of_mem x hy)).bind fun _ s5 h5 => ?_
          refine Interleave.Safe.bind (Q := fun _ _ => True) ?_ fun _ _ _ => fun h => nomatch h
          refine safe_ask (sanctioned_lower ?_) fun _ _ _ _ _ _ _ => trivial
          exact (h5 x hl.fresh).lane (hlane4 x (.head _))
        · exact fun _ y hy => ⟨h3.1 y hy, h3.2 rfl y hy⟩

theorem all_reserve (h : ∀ x ∈ l, P (x, .reserveLocal r))
    (h' : ∀ x ∈ l, P (x, .settleLocal)) : (reserveProviderAttempt r l : Call N I _).All P := by
  induction l with
  | nil => trivial
  | cons x up ih =>
    have hup : ∀ y ∈ up, P (y, .settleLocal) := fun y hy => h' y (List.mem_cons_of_mem x hy)
    refine All.bind (ih (fun y hy => h y (List.mem_cons_of_mem x hy)) hup) fun v => ?_
    rcases v with e | u
    · trivial
    · refine All.bind (Interleave.Prog.all_act (h x (.head _))) fun v => ?_
      rcases v with e | u
      · exact All.bind (all_settleNotDispatched hup) fun _ => trivial
      · trivial

theorem safe_reserve (hl : t.Path l) (s : N → Node A I) : Safe (rules t created a)
      (fun v s' => (v = .ok () → ∀ y ∈ l, a ∈ (s' y).passed) ∧ ∀ y, a ∈ (s y).lane → a ∈ (s' y).lane)
      (reserveProviderAttempt r l) s := by
  refine safe_lanes (all_reserve (fun _ _ h => nomatch h) (fun _ _ h => nomatch h)) ?_
  induction l generalizing s with
  | nil => exact fun _ y hy => absurd hy List.not_mem_nil
  | cons x up ih =>
    refine (ih hl.up s).bind fun v s1 h1 => ?_
    rcases v with e | u
    · exact fun h => nomatch h
    · have hres : Safe (rules t created a) (fun v s' => v = .ok () → ∀ y ∈ x :: up, a ∈ (s' y).passed)
          (ask x (.reserveLocal r)) s1 := by
        refine safe_ask (sanctioned_of_harmless rfl) ?_
        rintro s2 _ v hrely - hx hother rfl y hy
        by_cases hyx : y = x
        · subst hyx
          exact exec_reserve hx
        · rw [hother y hyx]
          exact (hrely y).passed.2 (h1 rfl y ((List.mem_cons.1 hy).resolve_left hyx))
      refine hres.bind fun v s2 h2 => ?_
      rcases v with e | u
      · exact (safe_settleNotDispatched up s2).bind fun _ _ _ => fun h => nomatch h
      · exact fun _ => h2 rfl

theorem safe_refuseCharge {up : List N} (hl : t.Path (x :: up))
    (hlock : (s x).lock = some a) {Q : Except String Unit → (N → Node A I) → Prop} {e : String}
    (hQ : ∀ s', Q (.error e) s') : Safe (rules t created a) Q (refuseCharge x up e) s := by
  refine (safe_markUnknown hl s).bind fun _ s1 h1 => ?_
  refine Interleave.Safe.bind (Q := fun _ _ => True) ?_ fun _ s2 _ => hQ s2
  exact safe_ask (sanctioned_unlock ((h1.2 x).locked hlock).1) fun _ _ _ _ _ _ _ => trivial

variable {c : Charge I}

theorem all_commit (h : ∀ x ∈ l, ∀ op, op ≠ .lowerLane → P (x, op)) :
    (commitProviderRouteCharge c l : Call N I _).All P := by
  induction l with
  | nil => trivial
  | cons x up ih =>
    have hx : ∀ op, op ≠ .lowerLane → P (x, op) := h x (.head _)
    have hrefuse : ∀ e, (refuseCharge x up e : Call N I _).All P := fun e =>
      All.bind (all_markUnknown fun y hy => h y hy _ (fun h => nomatch h)) fun _ =>
        All.bind (Interleave.Prog.all_act (hx _ fun h => nomatch h)) fun _ => trivial
    refine All.bind (Interleave.Prog.all_act (hx _ fun h => nomatch h)) fun o => ?_
    cases o with
    | contained => trivial
    | refused e => exact hrefuse e
    | pending =>
      refine All.bind (ih fun y hy => h y (List.mem_cons_of_mem x hy)) fun v => ?_
      rcases v with e | u
      · exact hrefuse e
      · refine All.bind (Interleave.Prog.all_act (hx _ fun h => nomatch h)) fun o => ?_
        cases o with
        | settled => trivial
        | refused e => trivial
        | overflowed => exact hrefuse _

theorem exec_openCharge {created : Nat} {o : Opened} (hn : NodeOk created n) (h : n.exec a (.openCharge c) = some (n', o)) :
    (o = .contained → c ∈ n'.routeCharges.charges) ∧ (o ≠ .contained → n'.lock = some a) ∧
      (o = .pending → Ready created a n' (.closeCharge c)) := by
  simp only [Node.exec] at h
  split at h
  · cases h
  · split at h
    · rename_i hc
      cases h
      exact ⟨fun _ => openCharge_contained hc, fun h => absurd rfl h, fun h => (by cases h)⟩
    · rename_i hne
      cases h
      refine ⟨fun ho => absurd ho hne, fun _ => rfl, fun hp => ?_⟩
      obtain ⟨hc, hle⟩ := openCharge_pending hp
      exact ⟨rfl, hc, Nat.le_trans (Nat.add_le_add_left hle _) hn.funded⟩

theorem exec_closeCharge {created : Nat} {o : Closed} (hn : NodeOk created n)
    (hr : Ready created a n (.closeCharge c)) (h : n.exec a (.closeCharge c) = some (n', o)) :
    o ≠ .overflowed ∧ (o = .settled → c ∈ n'.routeCharges.charges) := by
  have hx : n.closeCharge c = (n', o) := Option.some.inj h
  rcases closeCharge_cases hn hr.2.1 with ⟨hcharges, -, heq⟩ | ⟨-, -, e, heq⟩
  · cases heq.symm.trans hx
    refine ⟨by simp, fun _ => ?_⟩
    rw [hcharges]
    exact .head _
  · cases heq.symm.trans hx
    exact ⟨by simp, by simp⟩

/-- **A committed charge is in the node's ledger**, and is entered there only after its parent's. -/
theorem safe_commit (hl : t.Path l) (s : N → Node A I) : Safe (rules t created a)
      (fun v s' => (v = .ok () → ∀ x, l.head? = some x → c ∈ (s' x).routeCharges.charges) ∧
        ∀ y, a ∈ (s y).lane → a ∈ (s' y).lane) (commitProviderRouteCharge c l) s := by
  refine safe_lanes (all_commit fun _ _ _ h => h) ?_
  induction l generalizing s with
  | nil => exact fun _ x hx => nomatch hx
  | cons x up ih =>
    have hopen : Safe (rules t created a) (fun o s' => (o = .contained → c ∈ (s' x).routeCharges.charges) ∧
          (o ≠ .contained → (s' x).lock = some a) ∧ (o = .pending → Ready (created x) a (s' x) (.closeCharge c)))
        (ask x (.openCharge c)) s := by
      refine safe_ask (sanctioned_of_harmless rfl) ?_
      intro s1 s2 o _ hn hx _
      exact exec_openCharge hn hx
    refine hopen.bind fun o s1 h1 => ?_
    have herr : ∀ (s' : N → Node A I) e, (.error e : Except String Unit) = .ok () →
        ∀ y, (x :: up).head? = some y → c ∈ (s' y).routeCharges.charges := fun _ _ h => nomatch h
    cases o with
    | contained =>
      rintro - y ⟨⟩
      exact h1.1 rfl
    | refused e => exact safe_refuseCharge hl (h1.2.1 fun h => nomatch h) fun s' => herr s' e
    | pending =>
      have hready := h1.2.2 rfl
      have hup := safe_outside (l := up) (all_commit fun _ hy _ _ => hy) (ih hl.up s1)
      refine hup.bind fun v s2 h2 => ?_
      have hready2 := hready.of_kept (h2.2 x hl.fresh)
      rcases v with e | u
      · exact safe_refuseCharge hl hready2.1 fun s' => herr s' e
      · have hclose : Safe (rules t created a)
            (fun o s' => o ≠ .overflowed ∧ (o = .settled → c ∈ (s' x).routeCharges.charges))
            (ask x (.closeCharge c)) s2 := by
          refine safe_ask ⟨hready2, ?_, ?_⟩ ?_
          · rintro ⟨⟩
          · rintro d ⟨⟩ p hp
            rw [hl.parent] at hp
            exact h2.1 rfl p hp
          · intro s3 s4 o hrely hn hx _
            exact exec_closeCharge hn (hready2.of_kept (hrely x)) hx
        refine hclose.bind fun o s3 h3 => ?_
        cases o with
        | refused e => exact herr s3 e
        | overflowed => cases h3.1 rfl
        | settled =>
          rintro - y ⟨⟩
          exact h3.2 rfl

/-- **A guard that owns the lane owns it at every node of its lineage.** -/
theorem safe_newGuard {reservation : Option Nat} (hl : t.Path l) (s : N → Node A I) :
    Safe (rules t created a) (fun v s' => v = .ok true → ∀ y ∈ l, a ∈ (s' y).lane ∧ a ∈ (s' y).passed)
      (newGuard reservation l) s := by
  cases l with
  | nil => exact fun h => nomatch h
  | cons x _ =>
    refine Interleave.Safe.bind (Q := fun _ _ => True)
      (safe_ask (sanctioned_of_harmless rfl) fun _ _ _ _ _ _ _ => trivial) fun b s1 _ => ?_
    cases b with
    | false => exact fun h => nomatch h
    | true =>
      cases reservation with
      | none => exact fun h => nomatch h
      | some r =>
        refine (safe_tryAcquire hl s1).bind fun v s2 h2 => ?_
        rcases v with e | u
        · exact fun h => nomatch h
        · exact fun _ => h2.1 rfl

theorem safe_dropGuard {completed owns : Bool} (hl : t.Path l) (hlane : owns = true → ∀ y ∈ l, a ∈ (s y).lane) :
    Safe (rules t created a) (fun _ _ => True) (dropGuard completed owns l) s := by
  cases l with
  | nil => trivial
  | cons x up =>
    cases owns with
    | false => trivial
    | true =>
      have hrelease : ∀ s1, Relies a s s1 →
          Safe (rules t created a) (fun _ _ => True) (releaseProviderDispatch (x :: up)) s1 := fun s1 h1 =>
        (safe_release hl fun y hy => (h1 y).lane (hlane rfl y hy)).mono fun _ _ _ => trivial
      cases completed with
      | true => exact hrelease s fun y => Kept.refl a (s y)
      | false =>
        have hask : Safe (rules t created a) (fun _ s' => True ∧ Relies a s s') (ask x .isUnsettled) s :=
          safe_quiet (Interleave.Prog.all_act rfl) (safe_ask (sanctioned_of_harmless rfl) fun _ _ _ _ _ _ _ => trivial)
        refine hask.bind fun b s1 h1 => ?_
        cases b with
        | false => exact hrelease s1 h1.2
        | true =>
          exact (safe_markUnknown hl s1).bind fun _ s2 h2 => hrelease s2 fun y => (h1.2 y).trans (h2.2 y)

end Iteron.Pricing
