import Iteron.SchedulerGraph
import Iteron.SchedulerRun
/-!
# SchedulerQuarantine — who gets out of reconciliation

A node in `RecoveryRequired` stops the whole plan.  Its attempt's usage never decreases and a terminal state needs it to
fit the node's budget, so what was charged already decides whether the node can leave (`quarantine_exit_iff`); an attempt
that has overrun its budget stays (`World.Law.overrun`).
-/
namespace Iteron.Scheduler

open Machine Refuse
open Dag (BudgetUsage TaskBudget)

def NodeState.finished : NodeState → Bool
  | .succeeded _ _ | .failed _ _ | .cancelled _ _ => true
  | _ => false

def AtLeast (usage charged : BudgetUsage) : Prop :=
  charged.turns ≤ usage.turns ∧ charged.tokens ≤ usage.tokens ∧ charged.costMicrousd ≤ usage.costMicrousd ∧
    charged.wallMs ≤ usage.wallMs

/-- A completion and a usage, at least what is charged, with which `reconcile_stopped` finishes the node. -/
def Owner.Exits (o : Owner) (id attempt : Nat) : Prop :=
  ∃ (r : NodeRecord) (completion : Completion) (usage : BudgetUsage) (state : NodeState), o.snapshot.nodes[id]? = some r ∧
    AtLeast usage r.attemptUsage ∧
    (o.reconcileStopped id attempt completion usage true .stored).2 = .ok state ∧ state.finished = true ∧
    ∃ r', (o.reconcileStopped id attempt completion usage true .stored).1.snapshot.nodes[id]? = some r' ∧ r'.state = state

variable {limit : TaskBudget}

theorem usageFits_iff {usage : BudgetUsage} : usageFits usage limit = true ↔
    usage.turns ≤ limit.maxTurns.toNat ∧ usage.tokens ≤ limit.maxTokens ∧
      usage.costMicrousd ≤ limit.maxCostMicrousd ∧ usage.wallMs ≤ limit.maxWallMs := by
  simp [usageFits, and_assoc]

theorem usageFits_mono {usage charged : BudgetUsage} (h : usageFits usage limit = true) (hle : AtLeast usage charged) :
    usageFits charged limit = true := by
  obtain ⟨h1, h2, h3, h4⟩ := usageFits_iff.1 h
  obtain ⟨l1, l2, l3, l4⟩ := hle
  exact usageFits_iff.2 ⟨l1.trans h1, l2.trans h2, l3.trans h3, l4.trans h4⟩

section Runs

variable {s s' : Snapshot} {report : Option Report} {id : Nat}

theorem Move.counted {x y : Option NodeRecord} (h : Move s report id x y) (hx : ∀ r, x = some r → Counted r.usage) :
    ∀ r, y = some r → Counted r.usage := by
  intro r' hr'
  cases h with
  | same => exact hx r' hr'
  | added _ =>
    cases hr'
    exact ⟨Nat.zero_le _, Nat.zero_le _, Nat.zero_le _, Nat.zero_le _⟩
  | unresolved r attempt _ _ usage total _ _ hcharges =>
    cases hr'
    exact hcharges.counted
  | settled r attempt _ _ usage total _ _ hcharges =>
    cases hr'
    exact hcharges.counted
  | replaced r | removed r | retried r | dispatched r | interrupted r | recovered r =>
    cases hr'
    exact hx r rfl

theorem World.shows_run {P : Snapshot → Prop} (hnew : ∀ config, P (newSnapshot config))
    (hmoves : ∀ d report s, P d → Moves d report s → P s) (digestOf : Replan → Option String) (events : List Event)
    (hs : (World.run digestOf events).Shows s) : P s := by
  suffices h : ∀ (events : List Event) (w : World), w.Law → (∀ s, w.Shows s → P s) →
      ∀ s, (events.foldl (World.step digestOf) w).Shows s → P s by
    refine h events World.empty .empty (fun s hs => ?_) s hs
    obtain hs | ⟨o, ho, -⟩ := hs
    · cases hs
    · cases ho
  intro events
  induction events with
  | nil => exact fun w _ h => h
  | cons e events ih =>
    intro w hlaw h
    have hadvance := @World.step_advance w digestOf hlaw e
    refine ih _ (hlaw.advance hadvance) (fun s hs => ?_)
    cases hadvance with
    | idle heq => exact h s (heq ▸ hs)
    | fresh config _ hdurable _ howner =>
      rcases hs with hs | ⟨o, ho, rfl⟩
      · exact Option.some.inj (hdurable.symm.trans hs) ▸ hnew config
      · rw [howner o ho]
        exact hnew config
    | lost hdurable howner =>
      rcases hs with hs | ⟨o, ho, rfl⟩
      · exact h s (.inl (hdurable ▸ hs))
      · rw [howner] at ho
        cases ho
    | operated d o hd hholds hdurable howner =>
      rcases hs with hs | ⟨o', ho', rfl⟩
      · obtain ⟨d', hd', hreached⟩ := hholds.journal
        rw [hdurable, hd'] at hs
        exact Option.some.inj hs ▸ hmoves d _ d' (h d (.inl hd)) hreached.1
      · rw [howner o' ho']
        exact hmoves d _ _ (h d (.inl hd)) hholds.snapshot.1

theorem counted_run (digestOf : Replan → Option String) (events : List Event)
    (hs : (World.run digestOf events).Shows s) {r : NodeRecord} (hr : s.nodes[id]? = some r) : Counted r.usage := by
  refine World.shows_run (P := fun s => ∀ (id : Nat) (r : NodeRecord), s.nodes[id]? = some r → Counted r.usage)
    (fun config id r hr => ?_) (fun d report s hd hmoves id r hr => ?_) digestOf events hs id r hr
  · simp [newSnapshot] at hr
  · exact (hmoves.node id).counted (fun r => hd id r) r hr

end Runs

section Rewrite

variable {nodes : Nodes} {config : WorkflowConfig} {f : Nat → NodeRecord → NodeRecord}

/-- A rewriting of the records that leaves the plan as it is: it neither edits a node nor removes one. -/
def KeepsPlan (f : Nat → NodeRecord → NodeRecord) : Prop :=
  ∀ id r, (f id r).node = r.node ∧ ((f id r).state = .removed ↔ r.state = .removed)

theorem KeepsPlan.liveDependencies (hf : KeepsPlan f) (id : Nat) (r : NodeRecord) :
    liveDependencies (f id r) = liveDependencies r := by
  unfold Scheduler.liveDependencies
  by_cases hr : r.state = .removed
  · rw [if_pos hr, if_pos ((hf id r).2.2 hr)]
  · rw [if_neg hr, if_neg (mt (hf id r).2.1 hr), (hf id r).1]

theorem KeepsPlan.isLive_map (hf : KeepsPlan f) (id : Nat) : IsLive (nodes.map f) id ↔ IsLive nodes id := by
  rw [IsLive, IsLive, Table.get_map]
  cases nodes[id]? with
  | none => simp
  | some r => simpa using not_congr (hf id r).2

theorem KeepsPlan.dependsOn_map (hf : KeepsPlan f) (a b : Nat) : DependsOn (nodes.map f) a b ↔ DependsOn nodes a b := by
  rw [DependsOn, DependsOn, Table.get_map]
  cases nodes[a]? with
  | none => simp
  | some r => simp [hf.liveDependencies a r]

theorem SoundPlan.map (h : SoundPlan nodes config) (hf : KeepsPlan f) : SoundPlan (nodes.map f) config := by
  have hdepends : DependsOn (nodes.map f) = DependsOn nodes := by
    funext a b
    exact propext (hf.dependsOn_map a b)
  constructor
  · rw [Std.ExtTreeMap.size_map]
    exact h.size
  · intro id record hrecord
    rw [Table.get_map, Option.map_eq_some_iff] at hrecord
    obtain ⟨r, hr, rfl⟩ := hrecord
    rw [(hf id r).1]
    exact h.node id r hr
  · have hsame : liveEdges (nodes.map f).toList = liveEdges nodes.toList := by
      rw [Std.ExtTreeMap.toList_map, liveEdges, liveEdges, List.map_map]
      refine congrArg List.sum (List.map_congr_left fun e _ => ?_)
      simp only [Function.comp_apply, hf.liveDependencies]
    rw [hsame]
    exact h.edges
  · intro a b hab
    rw [hf.dependsOn_map] at hab
    exact (hf.isLive_map b).2 (h.live a b hab)
  · rw [hdepends]
    exact h.acyclic
  · rw [hdepends]
    exact fun chain hlive hc => h.depth chain (fun id hid => (hf.isLive_map id).1 (hlive id hid)) hc

theorem tally_map {view : Tally → Tally}
    (hf : ∀ id r t t', tallyRecord config t r = .ok t' → tallyRecord config (view t) (f id r) = .ok (view t'))
    {t t' : Tally} (h : (Table.vals nodes).foldlM (tallyRecord config) t = .ok t') :
    (Table.vals (nodes.map f)).foldlM (tallyRecord config) (view t) = .ok (view t') := by
  rw [Table.vals, List.foldlM_map] at h
  rw [Table.vals, Std.ExtTreeMap.toList_map, List.map_map, List.foldlM_map]
  exact foldlM_view view (fun t e t' hone => hf e.1 e.2 t t' hone) h

variable {s : Snapshot}

theorem validateSnapshot_later {n : Nat} (h : validateSnapshot s = .ok ()) (hlater : s.sequence ≤ n)
    (hcap : n ≤ maxSchedulerEvents) (hgraph : validateGraph nodes s.config = .ok ())
    (htally : ∀ t, (Table.vals s.nodes).foldlM (tallyRecord s.config) ⟨[], {}⟩ = .ok t →
      ∃ t', (Table.vals nodes).foldlM (tallyRecord s.config) ⟨[], {}⟩ = .ok t' ∧
        t'.activeAgents.length ≤ t.activeAgents.length ∧ t'.reserved = t.reserved) :
    validateSnapshot { s with nodes := nodes, sequence := n } = .ok () := by
  simp only [validateSnapshot, bind_eq_ok, refuseIf_eq_ok, not_or, not_not, not_lt] at h ⊢
  obtain ⟨_, hconfig, _, ⟨hversion, _, hrevision, hrevised, hreceipts, hfits⟩, _, -, t, ht, _, hcount, hall⟩ := h
  obtain ⟨t', ht', hagents, hreserved⟩ := htally t ht
  refine ⟨(), hconfig, (), ⟨hversion, hcap, hrevision, hrevised.trans hlater, hreceipts, hfits⟩, (),
    hgraph, t', ht', (), ⟨hagents.trans hcount.1, hreserved.trans hcount.2⟩, ?_⟩
  refine forM_of_ok fun entry hentry => ?_
  have hone := forM_ok hall entry hentry
  simp only [checkReceipt, bind_eq_ok, refuseIf_eq_ok, not_or, not_lt] at hone ⊢
  obtain ⟨_, hid, _, hdigest, hv, hs, hr, hreplayed⟩ := hone
  exact ⟨(), hid, (), hdigest, hv, hs.trans hlater, hr, hreplayed⟩

theorem validGraph_of_ok (h : validateSnapshot s = .ok ()) : validateGraph s.nodes s.config = .ok () := by
  simp only [validateSnapshot, bind_eq_ok] at h
  obtain ⟨_, -, _, -, _, hgraph, -⟩ := h
  exact hgraph

theorem validateSnapshot_map {view : Tally → Tally} (h : validateSnapshot s = .ok ())
    (hcap : s.sequence < maxSchedulerEvents) (hplan : KeepsPlan f)
    (hf : ∀ id r t t', tallyRecord s.config t r = .ok t' → tallyRecord s.config (view t) (f id r) = .ok (view t'))
    (hstart : view ⟨[], {}⟩ = ⟨[], {}⟩)
    (hview : ∀ t, (view t).activeAgents.length ≤ t.activeAgents.length ∧ (view t).reserved = t.reserved) :
    validateSnapshot { s with nodes := s.nodes.map f, sequence := s.sequence + 1 } = .ok () := by
  refine validateSnapshot_later h (Nat.le_succ _) hcap ((soundPlan_of_ok (validGraph_of_ok h)).map hplan).ok ?_
  intro t ht
  have htally := tally_map hf ht
  rw [hstart] at htally
  exact ⟨view t, htally, hview t⟩

end Rewrite

section Exit

variable {s : Snapshot} {id attempt : Nat} {r : NodeRecord}

def stoppedDetail : String := "stopped"

/-- The record of the quarantined attempt when it is told to have failed. -/
def quit (id attempt : Nat) (key : Nat) (r : NodeRecord) : NodeRecord :=
  if key = id ∧ r.state.isRecoveryRequired = true ∧ r.state.attempt = some attempt then
    { r with state := .failed attempt stoppedDetail }
  else r

theorem keepsPlan_quit (id attempt : Nat) : KeepsPlan (quit id attempt) := by
  intro key r
  unfold quit
  split
  · rename_i h
    refine ⟨rfl, iff_of_false (fun h => by cases h) fun hr => ?_⟩
    rw [hr] at h
    cases h.2.1
  · exact ⟨rfl, Iff.rfl⟩

theorem tallyRecord_quit {config : WorkflowConfig} (key : Nat) (t t' : Tally) (h : tallyRecord config t r = .ok t') :
    tallyRecord config t (quit id attempt key r) = .ok t' := by
  unfold quit
  split
  · rename_i hq
    obtain ⟨-, hrecovery, hattempt⟩ := hq
    cases hstate : r.state with
    | recoveryRequired a _ _ =>
      obtain rfl : a = attempt := by
        rw [hstate] at hattempt
        exact Option.some.inj hattempt
      simp only [tallyRecord, checkState, hstate, bind_eq_ok] at h ⊢
      obtain ⟨reserved, hreserved, _, hcounter, _, -, ⟨⟩, htask, agents, ⟨_, -, hagents⟩, hrest⟩ := h
      refine ⟨reserved, hreserved, (), hcounter, (), rfl, (), ?_, agents, ⟨(), rfl, hagents⟩, hrest⟩
      cases htask' : r.admittedTask with
      | none => rfl
      | some _ =>
        simp only [htask', Option.forM, refuseIf_eq_ok, admittedTaskDiffers, hstate] at htask
        exact refuseIf_of_not htask
    | _ => rw [hstate] at hrecovery; cases hrecovery
  · exact h

theorem commit_stored {next : Snapshot} (hcap : s.sequence < maxSchedulerEvents)
    (hvalid : validateSnapshot { next with sequence := s.sequence + 1 } = .ok ()) :
    (Owner.live s).commit next .stored = (Owner.live { next with sequence := s.sequence + 1 }, .ok ()) := by
  have hlive : (Owner.live s).ensureLive = .ok () := rfl
  have hseq : ¬ ((Owner.live s).journal.map (fun s => s.sequence) ≠ some (Owner.live s).snapshot.sequence) :=
    fun h => h rfl
  have hroom : ¬ (Owner.live s).snapshot.sequence ≥ maxSchedulerEvents := not_le.2 hcap
  have hnext : validateSnapshot { next with sequence := (Owner.live s).snapshot.sequence + 1 } = .ok () := hvalid
  rw [Owner.commit, if_neg hroom, Owner.publish, hlive, ok_bind, hnext]
  simp only [journalCommit, if_neg hseq]
  rfl

theorem settled_quit (hr : s.nodes[id]? = some r) (hq : r.state.isRecoveryRequired = true)
    (ha : r.state.attempt = some attempt) (hcounted : Counted r.usage) (hfits : usageFits r.attemptUsage r.node.budget = true)
    (lease : Option TurnLease) : s.settled id attempt lease (.failed stoppedDetail) r.attemptUsage true =
      .ok ({ s with nodes := s.nodes.map (quit id attempt) }, .failed attempt stoppedDetail) := by
  have hsub (n : Nat) : checkedSub n n = some 0 := by rw [checkedSub, if_pos (Nat.le_refl n), Nat.sub_self]
  have hadd (n : Nat) (hn : n ≤ u64Max) : checkedAdd n 0 = some n := by rw [checkedAdd, Nat.add_zero, if_pos hn]
  have hdelta : cumulativeDelta r.attemptUsage r.attemptUsage = .ok {} := by
    simp only [cumulativeDelta, hsub]
    rfl
  have htotal : r.usage.checkedAdd {} = some r.usage := by
    simp only [BudgetUsage.checkedAdd, hadd _ hcounted.turns, hadd _ hcounted.tokens, hadd _ hcounted.cost,
      hadd _ hcounted.wall]
    rfl
  have hstate : settledState r attempt lease (.failed stoppedDetail) r.attemptUsage true =
      .ok (.failed attempt stoppedDetail) := by
    rw [settledState, hfits, if_neg (by decide)]
    rfl
  have hnodes : s.nodes.insert id { r with state := .failed attempt stoppedDetail } = s.nodes.map (quit id attempt) := by
    refine Std.ExtTreeMap.ext_getElem? fun key => ?_
    rw [Table.get_insert, Table.get_map]
    by_cases hkey : id = key
    · subst hkey
      rw [if_pos rfl, hr, Option.map_some, quit, if_pos ⟨rfl, hq, ha⟩]
    · have hquit : ∀ r', quit id attempt key r' = r' := fun r' => if_neg fun h => hkey h.1.symm
      rw [if_neg hkey]
      cases s.nodes[key]? with
      | none => rfl
      | some r' => rw [Option.map_some, hquit]
  rw [Snapshot.settled, Snapshot.requireNode, hr]
  simp only [orElseError, ok_bind, hdelta, htotal, hstate]
  rw [Snapshot.setNode, ← hnodes]
  rfl

theorem reconcileStopped_quit (hvalid : validateSnapshot s = .ok ()) (hcap : s.sequence < maxSchedulerEvents)
    (hr : s.nodes[id]? = some r) (hq : r.state.isRecoveryRequired = true) (ha : r.state.attempt = some attempt)
    (hcounted : Counted r.usage) (hfits : usageFits r.attemptUsage r.node.budget = true) :
    (Owner.live s).reconcileStopped id attempt (.failed stoppedDetail) r.attemptUsage true .stored =
      (Owner.live { s with nodes := s.nodes.map (quit id attempt), sequence := s.sequence + 1 },
        .ok (.failed attempt stoppedDetail)) := by
  have hlive : (Owner.live s).ensureLive = .ok () := rfl
  have hrequire : (Owner.live s).snapshot.requireNode id = .ok r := by
    rw [Snapshot.requireNode, show (Owner.live s).snapshot.nodes[id]? = some r from hr]
    rfl
  have hfresh : ¬ (r.state.isRecoveryRequired = false ∨ r.state.attempt ≠ some attempt) := by
    rw [hq, ha]
    simp
  have hnext := @validateSnapshot_map _ s (fun t => t) hvalid hcap (keepsPlan_quit id attempt)
    (fun key r t t' => tallyRecord_quit key t t') rfl (fun t => ⟨Nat.le_refl _, rfl⟩)
  rw [Owner.reconcileStopped, hlive, ok_bind, hrequire, ok_bind, refuseIf_of_not hfresh, ok_bind]
  have hsettled := settled_quit hr hq ha hcounted hfits r.state.lease
  rw [show (Owner.live s).snapshot.settled id attempt r.state.lease (.failed stoppedDetail) r.attemptUsage true = _
    from hsettled]
  have hcommit : (Owner.live s).commit { s with nodes := s.nodes.map (quit id attempt) } .stored =
      (Owner.live { s with nodes := s.nodes.map (quit id attempt), sequence := s.sequence + 1 }, .ok ()) :=
    commit_stored hcap hnext
  simp only [Owner.committing, hcommit]
  rfl

theorem exits_of_fits (hvalid : validateSnapshot s = .ok ()) (hcap : s.sequence < maxSchedulerEvents)
    (hr : s.nodes[id]? = some r) (hq : r.state.isRecoveryRequired = true) (ha : r.state.attempt = some attempt)
    (hcounted : Counted r.usage) (hfits : usageFits r.attemptUsage r.node.budget = true) : (Owner.live s).Exits id attempt := by
  have hquit := reconcileStopped_quit hvalid hcap hr hq ha hcounted hfits
  refine ⟨r, .failed stoppedDetail, r.attemptUsage, .failed attempt stoppedDetail, hr,
    ⟨le_rfl, le_rfl, le_rfl, le_rfl⟩, by rw [hquit], rfl, quit id attempt id r, ?_, ?_⟩
  · rw [hquit]
    show (s.nodes.map (quit id attempt))[id]? = _
    rw [Table.get_map, hr, Option.map_some]
  · rw [quit, if_pos ⟨rfl, hq, ha⟩]

theorem ok_of_committing {o : Owner} {x : Except Error (Snapshot × NodeState)} {p : Publication} {state : NodeState}
    (h : (o.committing x p).2 = .ok state) : ∃ next, x = .ok (next, state) := by
  cases x with
  | error e => cases h
  | ok xa =>
    obtain ⟨next, a⟩ := xa
    simp only [Owner.committing] at h
    cases hcommit : (o.commit next p).2 with
    | error e =>
      rw [hcommit] at h
      cases h
    | ok u =>
      rw [hcommit] at h
      cases h
      exact ⟨next, rfl⟩

theorem fits_of_exits {o : Owner} (hr : o.snapshot.nodes[id]? = some r) (h : o.Exits id attempt) :
    usageFits r.attemptUsage r.node.budget = true := by
  obtain ⟨_, _, usage, _, hr0, hle, hok, hfinished, -⟩ := h
  cases hr.symm.trans hr0
  obtain ⟨_, hnext⟩ := ok_of_committing hok
  simp only [bind_eq_ok, Snapshot.settled, pure_eq_ok, Prod.mk.injEq] at hnext
  obtain ⟨_, -, _, -, _, -, _, hr', _, -, _, -, _, hstate, -, rfl⟩ := hnext
  cases hr.symm.trans (requireNode_eq_ok hr')
  by_cases hfits : usageFits usage r.node.budget = true
  · exact usageFits_mono hfits hle
  · -- beyond the budget a report leaves the node where it is
    rw [settledState, if_pos (by simp [hfits])] at hstate
    rw [← Except.ok.inj hstate] at hfinished
    cases hfinished

end Exit

section Overrun

variable {s : Snapshot} {report : Option Report} {id attempt : Nat}

end Overrun

/-- **A quarantined attempt can be finished exactly when what it was charged fits its node's budget**, in every snapshot
a run shows that has room for an event. -/
theorem quarantine_exit_iff (digestOf : Replan → Option String) (events : List Event) {s : Snapshot}
    (hs : (World.run digestOf events).Shows s) (hcap : s.sequence < maxSchedulerEvents) {id attempt : Nat} {r : NodeRecord}
    (hr : s.nodes[id]? = some r) (hq : r.state.isRecoveryRequired = true) (ha : r.state.attempt = some attempt) :
    (Owner.live s).Exits id attempt ↔ usageFits r.attemptUsage r.node.budget = true := by
  have hlaw := World.law_run digestOf events
  exact ⟨fits_of_exits hr, exits_of_fits (hlaw.lawful s hs).valid hcap hr hq ha (counted_run digestOf events hs hr)⟩

section Scene

def overrunUsage : BudgetUsage := { turns := 1, tokens := 101, costMicrousd := 5, wallMs := 100 }

/-- The restarted owner is told that the attempt used a token more than its node may. -/
def overrunScene : List Event :=
  cancelledScene ++ [Event.call (.settle 1 1 sceneLease (.failed "over budget") overrunUsage true .stored)]

/-- Whether the run leaves node 1 in reconciliation at its first attempt, with a usage that fits as told. -/
def Quarantined (fits : Bool) (w : World) : Prop :=
  ∃ (s : Snapshot) (r : NodeRecord), w.durable = some s ∧ s.sequence < maxSchedulerEvents ∧ s.nodes[1]? = some r ∧
    r.state.isRecoveryRequired = true ∧ r.state.attempt = some 1 ∧ usageFits r.attemptUsage r.node.budget = fits

theorem quarantined_scenes : Quarantined true (World.run (fun _ => some sceneDigest) cancelledScene) ∧
    Quarantined false (World.run (fun _ => some sceneDigest) overrunScene) := by
  have hall : ∀ p ∈ [(true, cancelledScene), (false, overrunScene)],
      ((World.run (fun _ => some sceneDigest) p.2).durable.any fun s => decide (s.sequence < maxSchedulerEvents) &&
        s.nodes[1]?.any fun r : NodeRecord => r.state.isRecoveryRequired && decide (r.state.attempt = some 1) &&
          decide (usageFits r.attemptUsage r.node.budget = p.1)) = true := by
    decide +kernel
  have hone : ∀ p ∈ [(true, cancelledScene), (false, overrunScene)],
      Quarantined p.1 (World.run (fun _ => some sceneDigest) p.2) := by
    intro p hp
    obtain ⟨s, hs, hsome⟩ := (Option.any_eq_true _ _).1 (hall p hp)
    rw [Bool.and_eq_true] at hsome
    obtain ⟨r, hr, hrest⟩ := (Option.any_eq_true _ _).1 hsome.2
    simp only [Bool.and_eq_true, decide_eq_true_eq] at hsome hrest
    exact ⟨s, r, hs, hsome.1, hr, hrest.1.1, hrest.1.2, hrest.2⟩
  exact ⟨hone (true, cancelledScene) (by simp), hone (false, overrunScene) (by simp)⟩

/-- After a restart nothing is charged, so the attempt can be finished. -/
theorem quarantine_exit_iff_restart : ∃ s,
    (World.run (fun _ => some sceneDigest) cancelledScene).durable = some s ∧ (Owner.live s).Exits 1 1 := by
  obtain ⟨s, r, hs, hcap, hr, hq, ha, hfits⟩ := quarantined_scenes.1
  exact ⟨s, hs, (quarantine_exit_iff (fun _ => some sceneDigest) cancelledScene (.inl hs) hcap hr hq ha).2 hfits⟩

/-- An attempt that was charged beyond its budget cannot be finished. -/
theorem not_quarantine_exit : ¬ ∀ (digestOf : Replan → Option String) (events : List Event) (s : Snapshot),
    (World.run digestOf events).Shows s → s.sequence < maxSchedulerEvents → ∀ (id attempt : Nat) (r : NodeRecord),
    s.nodes[id]? = some r → r.state.isRecoveryRequired = true → r.state.attempt = some attempt →
    (Owner.live s).Exits id attempt := by
  intro h
  obtain ⟨s, r, hs, hcap, hr, hq, ha, hfits⟩ := quarantined_scenes.2
  have hexits := h (fun _ => some sceneDigest) overrunScene s (.inl hs) hcap 1 1 r hr hq ha
  have hfits' := fits_of_exits (o := Owner.live s) hr hexits
  rw [hfits] at hfits'
  cases hfits'

end Scene

end Iteron.Scheduler
