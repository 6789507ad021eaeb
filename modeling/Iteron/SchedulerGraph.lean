import Iteron.Chains
import Iteron.SchedulerTypes
/-!
# SchedulerGraph — what a validated plan looks like

`validateGraph` indexes the nodes that are not removed and sorts them, taking from a stack the nodes whose dependencies
are all sorted.  `Progress` is what the loop keeps: the open dependencies of each node, and the longest chain it has seen
below it.
-/
namespace Iteron.Scheduler

open Refuse
open List (foldl_cons map_cons mem_cons mem_map nodup_cons nodup_nil not_mem_nil)

/-- A removed node keeps its name and takes no part in the plan. -/
def liveDependencies (record : NodeRecord) : List Nat :=
  if record.state = .removed then [] else record.node.dependencies

def IsLive (nodes : Nodes) (id : Nat) : Prop := ∃ record, nodes[id]? = some record ∧ record.state ≠ .removed

def DependsOn (nodes : Nodes) (a b : Nat) : Prop := ∃ record, nodes[a]? = some record ∧ b ∈ liveDependencies record

def liveEdges (entries : List (Nat × NodeRecord)) : Nat := (entries.map fun e => (liveDependencies e.2).length).sum

structure SoundPlan (nodes : Nodes) (config : WorkflowConfig) : Prop where
  size : nodes.size ≤ config.maxNodes
  node : ∀ (id : Nat) (record : NodeRecord), nodes[id]? = some record →
    validateNode record.node config = .ok () ∧ id = record.node.id
  edges : liveEdges nodes.toList ≤ config.maxEdges
  live : ∀ a b, DependsOn nodes a b → IsLive nodes b
  acyclic : Acyclic (DependsOn nodes)
  depth : ∀ chain : List Nat, (∀ id ∈ chain, IsLive nodes id) → chain.IsChain (DependsOn nodes) →
    chain.length ≤ maxPlanDepth

section Index

variable {nodes : Nodes} {config : WorkflowConfig}

theorem liveDependencies_removed {record : NodeRecord} (h : record.state = .removed) : liveDependencies record = [] :=
  if_pos h

theorem liveDependencies_live {record : NodeRecord} (h : record.state ≠ .removed) :
    liveDependencies record = record.node.dependencies := if_neg h

structure EntryOk (nodes : Nodes) (config : WorkflowConfig) (e : Nat × NodeRecord) : Prop where
  node : validateNode e.2.node config = .ok ()
  key : e.1 = e.2.node.id
  live : ∀ b ∈ liveDependencies e.2, IsLive nodes b

def indexStep (g : GraphIndex) (e : Nat × NodeRecord) : GraphIndex :=
  if e.2.state = .removed then g
  else
    { edges := g.edges + e.2.node.dependencies.length
      indegree := g.indegree.insert e.1 e.2.node.dependencies.length
      dependents := e.2.node.dependencies.foldl
        (fun m dependency => m.insert dependency ((m[dependency]?).getD [] ++ [e.1])) g.dependents }

theorem isLive_iff {id : Nat} : IsLive nodes id ↔ (nodes[id]?.any fun n => decide (n.state ≠ .removed)) = true := by
  simp [IsLive, Option.any_eq_true]

theorem indexNode_eq_ok {g g' : GraphIndex} {e : Nat × NodeRecord} : indexNode nodes config g e = .ok g' ↔
    EntryOk nodes config e ∧ (e.2.state ≠ .removed → g.edges + e.2.node.dependencies.length ≤ config.maxEdges) ∧
      g' = indexStep g e := by
  obtain ⟨_, record⟩ := e
  by_cases hr : record.state = .removed
  · have hdeps : liveDependencies record = [] := liveDependencies_removed hr
    simp only [indexNode, bind_eq_ok, refuseIf_eq_ok, hr, if_true, pure_eq_ok, indexStep]
    constructor
    · rintro ⟨_, hnode, _, hkey, rfl⟩
      exact ⟨⟨hnode, not_not.1 hkey, by simp [hdeps]⟩, by simp, rfl⟩
    · rintro ⟨hok, -, rfl⟩
      exact ⟨(), hok.node, (), not_not.2 hok.key, rfl⟩
  · have hdeps : liveDependencies record = record.node.dependencies := liveDependencies_live hr
    simp only [indexNode, bind_eq_ok, refuseIf_eq_ok, hr, if_false, pure_eq_ok, indexStep]
    have hlive : ¬ (record.node.dependencies.all (fun dependency =>
        nodes[dependency]?.any (fun n => decide (n.state ≠ .removed))) = false) ↔
        ∀ b ∈ liveDependencies record, IsLive nodes b := by
      rw [Bool.not_eq_false, List.all_eq_true, hdeps]
      exact forall₂_congr fun b _ => isLive_iff.symm
    constructor
    · rintro ⟨_, hnode, _, hkey, _, hedges, _, hall, rfl⟩
      exact ⟨⟨hnode, not_not.1 hkey, hlive.1 hall⟩, fun _ => not_lt.1 hedges, rfl⟩
    · rintro ⟨hok, hedges, rfl⟩
      exact ⟨(), hok.node, (), not_not.2 hok.key, (), not_lt.2 (hedges hr), (), hlive.2 hok.live, rfl⟩

theorem edges_indexStep (g : GraphIndex) (e : Nat × NodeRecord) :
    (indexStep g e).edges = g.edges + (liveDependencies e.2).length := by
  unfold indexStep
  split <;> rename_i h
  · rw [liveDependencies_removed h, List.length_nil, Nat.add_zero]
  · rw [liveDependencies_live h]

theorem liveEdges_cons (e : Nat × NodeRecord) (entries : List (Nat × NodeRecord)) :
    liveEdges (e :: entries) = (liveDependencies e.2).length + liveEdges entries := by
  rw [liveEdges, map_cons, List.sum_cons, liveEdges]

theorem index_eq_ok : ∀ {entries : List (Nat × NodeRecord)} {g g' : GraphIndex}, g.edges ≤ config.maxEdges →
    (entries.foldlM (indexNode nodes config) g = .ok g' ↔ (∀ e ∈ entries, EntryOk nodes config e) ∧
      g.edges + liveEdges entries ≤ config.maxEdges ∧ g' = entries.foldl indexStep g)
  | [], g, g', hg => by
    have hsum : g.edges + liveEdges [] = g.edges := rfl
    rw [List.foldlM_nil, pure_eq_ok, hsum]
    simp [hg, eq_comm]
  | e :: entries, g, g', hg => by
    have hstep := edges_indexStep g e
    have hsum := liveEdges_cons e entries
    rw [List.foldlM_cons, bind_eq_ok, List.forall_mem_cons, foldl_cons]
    constructor
    · rintro ⟨_, hone, hrest⟩
      obtain ⟨hok, hedges, rfl⟩ := indexNode_eq_ok.1 hone
      have hle : (indexStep g e).edges ≤ config.maxEdges := by
        by_cases hr : e.2.state = .removed
        · rw [indexStep, if_pos hr]
          exact hg
        · rw [hstep, liveDependencies_live hr]
          exact hedges hr
      obtain ⟨hall, htotal, rfl⟩ := (index_eq_ok hle).1 hrest
      exact ⟨⟨hok, hall⟩, by omega, rfl⟩
    · rintro ⟨⟨hok, hall⟩, htotal, rfl⟩
      refine ⟨indexStep g e, indexNode_eq_ok.2 ⟨hok, fun hr => ?_, rfl⟩, (index_eq_ok (by omega)).2 ⟨hall, by omega, rfl⟩⟩
      rw [← liveDependencies_live hr]
      omega

theorem indegree_index {v n : Nat} : ∀ {entries : List (Nat × NodeRecord)} {g : GraphIndex}, (entries.map Prod.fst).Nodup →
    ((entries.foldl indexStep g).indegree[v]? = some n ↔
      (∃ record, (v, record) ∈ entries ∧ record.state ≠ .removed ∧ n = record.node.dependencies.length) ∨
      ((∀ record, (v, record) ∈ entries → record.state = .removed) ∧ g.indegree[v]? = some n))
  | [], g, _ => by simp
  | (id, record) :: entries, g, h => by
    rw [map_cons, nodup_cons] at h
    rw [foldl_cons, indegree_index h.2]
    by_cases hr : record.state = .removed
    · have hsame : (indexStep g (id, record)).indegree = g.indegree := by rw [indexStep, if_pos hr]
      grind
    · have hinsert : (indexStep g (id, record)).indegree = g.indegree.insert id record.node.dependencies.length := by
        rw [indexStep, if_neg hr]
      grind

/-- The edges of the entries, from the dependency to the node that waits for it. -/
def edgePairs (entries : List (Nat × NodeRecord)) : List (Nat × Nat) :=
  entries.flatMap fun e => (liveDependencies e.2).map fun dependency => (dependency, e.1)

theorem dependents_index (entries : List (Nat × NodeRecord)) (edges : Nat) (indegree : Std.ExtTreeMap Nat Nat compare) :
    (entries.foldl indexStep ⟨edges, indegree, ∅⟩).dependents = Table.group (edgePairs entries) := by
  suffices h : ∀ (entries : List (Nat × NodeRecord)) (g : GraphIndex), (entries.foldl indexStep g).dependents =
      (edgePairs entries).foldl (fun m p => m.insert p.1 ((m[p.1]?).getD [] ++ [p.2])) g.dependents from h entries _
  intro entries
  induction entries with
  | nil => intro g; rfl
  | cons e entries ih =>
    intro g
    have hcons : edgePairs (e :: entries) =
        (liveDependencies e.2).map (fun dependency => (dependency, e.1)) ++ edgePairs entries := List.flatMap_cons
    rw [foldl_cons, ih, hcons, List.foldl_append, List.foldl_map]
    by_cases hr : e.2.state = .removed
    · rw [indexStep, if_pos hr, liveDependencies_removed hr]
      rfl
    · rw [indexStep, if_neg hr, liveDependencies_live hr]

theorem mem_edgePairs {entries : List (Nat × NodeRecord)} {a b : Nat} :
    (b, a) ∈ edgePairs entries ↔ ∃ record, (a, record) ∈ entries ∧ b ∈ liveDependencies record := by
  simp only [edgePairs, List.mem_flatMap, mem_map, Prod.mk.injEq]
  constructor
  · rintro ⟨⟨_, record⟩, hm, _, hb, rfl, rfl⟩
    exact ⟨record, hm, hb⟩
  · rintro ⟨record, hm, hb⟩
    exact ⟨(a, record), hm, b, hb, rfl, rfl⟩

theorem nodup_edgePairs : ∀ {entries : List (Nat × NodeRecord)}, (entries.map Prod.fst).Nodup →
    (∀ e ∈ entries, (liveDependencies e.2).Nodup) → (edgePairs entries).Nodup
  | [], _, _ => nodup_nil
  | (id, record) :: entries, h, hdeps => by
    rw [map_cons, nodup_cons] at h
    obtain ⟨hone, hrest⟩ := List.forall_mem_cons.1 hdeps
    rw [edgePairs, List.flatMap_cons, List.nodup_append]
    refine ⟨hone.map fun _ _ hxy => (Prod.mk.inj hxy).1, nodup_edgePairs h.2 hrest, ?_⟩
    rintro x hx ⟨b, a⟩ hy rfl
    obtain ⟨_, hm, -⟩ := mem_edgePairs.1 hy
    obtain ⟨_, -, heq⟩ := List.mem_map.1 hx
    cases heq
    exact h.1 (List.mem_map.2 ⟨_, hm, rfl⟩)

theorem nodup_of_validateNode {value : WorkflowNode} (h : validateNode value config = .ok ()) :
    value.dependencies.Nodup := by
  simp only [validateNode, bind_eq_ok, refuseIf_eq_ok] at h
  obtain ⟨_, -, _, -, _, -, _, -, _, -, _, -, _, -, _, -, h⟩ := h
  exact not_not.1 (not_or.1 h).2

structure Indexed (nodes : Nodes) (g : GraphIndex) : Prop where
  dependencies : ∀ (v : Nat) (record : NodeRecord), nodes[v]? = some record → record.node.dependencies.Nodup
  indegree : ∀ v n : Nat, g.indegree[v]? = some n ↔
    ∃ record : NodeRecord, nodes[v]? = some record ∧ record.state ≠ .removed ∧ n = record.node.dependencies.length
  nodup : ∀ id : Nat, ((g.dependents[id]?).getD []).Nodup
  mem : ∀ id v : Nat, v ∈ (g.dependents[id]?).getD [] ↔ DependsOn nodes v id

theorem nodup_fst_toList (nodes : Nodes) : (nodes.toList.map Prod.fst).Nodup := by
  rw [Std.ExtTreeMap.map_fst_toList_eq_keys]
  exact Std.ExtTreeMap.nodup_keys

theorem getD_group (l : List (Nat × Nat)) (id : Nat) :
    ((Table.group l : Std.ExtTreeMap Nat (List Nat) compare)[id]?).getD [] = Table.valuesAt l id := by
  rw [Table.get_group]
  split
  · rename_i h
    rw [h, Option.getD_none]
  · rfl

theorem indexed_index (hok : ∀ e ∈ nodes.toList, EntryOk nodes config e) :
    Indexed nodes (nodes.toList.foldl indexStep ⟨0, ∅, ∅⟩) where
  dependencies v record hr := nodup_of_validateNode (hok (v, record) ((Table.mem_toList nodes v record).2 hr)).node
  indegree v n := by
    rw [indegree_index (nodup_fst_toList nodes)]
    simp
  nodup id := by
    rw [dependents_index, getD_group]
    have hnodup : (edgePairs nodes.toList).Nodup := by
      refine nodup_edgePairs (nodup_fst_toList nodes) fun e he => ?_
      unfold liveDependencies
      split
      · exact nodup_nil
      · exact nodup_of_validateNode (hok e he).node
    refine List.Nodup.map_on ?_ (hnodup.filter _)
    intro x hx y hy hxy
    have hx' := of_decide_eq_true (List.mem_filter.1 hx).2
    have hy' := of_decide_eq_true (List.mem_filter.1 hy).2
    exact Prod.ext (hx'.trans hy'.symm) hxy
  mem id v := by
    rw [dependents_index, getD_group, Table.valuesAt, mem_map]
    constructor
    · rintro ⟨⟨b, a⟩, hm, rfl⟩
      obtain ⟨hpair, hb⟩ := List.mem_filter.1 hm
      obtain rfl : b = id := of_decide_eq_true hb
      obtain ⟨record, hr, hdep⟩ := mem_edgePairs.1 hpair
      exact ⟨record, (Table.mem_toList nodes _ _).1 hr, hdep⟩
    · rintro ⟨record, hr, hdep⟩
      refine ⟨(id, v), List.mem_filter.2 ⟨mem_edgePairs.2 ⟨record, (Table.mem_toList nodes _ _).2 hr, hdep⟩, ?_⟩, rfl⟩
      exact decide_eq_true rfl

end Index

section Sorting

variable {nodes : Nodes}

structure Released (depth : Nat) (children : List Nat) (s s' : Sorting) : Prop where
  indegree : ∀ v : Nat, s'.indegree[v]? = if v ∈ children then s.indegree[v]?.map (· - 1) else s.indegree[v]?
  depths : ∀ v : Nat, s'.depths[v]?.getD 1 =
    if v ∈ children then max (s.depths[v]?.getD 1) (depth + 1) else s.depths[v]?.getD 1
  ready : ∃ pushed, s'.ready = pushed ++ s.ready ∧ pushed.Nodup ∧ ∀ v d : Nat, (v, d) ∈ pushed ↔
    v ∈ children ∧ s.indegree[v]?.map (· - 1) = some 0 ∧ d = max (s.depths[v]?.getD 1) (depth + 1)

def handOn (depth child count : Nat) (s : Sorting) : Sorting :=
  { ready := if count - 1 = 0 then (child, max ((s.depths[child]?).getD 1) (depth + 1)) :: s.ready else s.ready
    indegree := s.indegree.insert child (count - 1)
    depths := s.depths.insert child (max ((s.depths[child]?).getD 1) (depth + 1)) }

theorem releaseChild_eq {depth child count : Nat} {s : Sorting} (h : s.indegree[child]? = some count) :
    releaseChild depth s child = .ok (handOn depth child count s) := by
  rw [releaseChild, h]
  rfl

theorem release_ok {depth : Nat} : ∀ {children : List Nat} {s : Sorting}, children.Nodup →
    (∀ v ∈ children, ∃ count, s.indegree[v]? = some count) →
    ∃ s', children.foldlM (releaseChild depth) s = .ok s' ∧ Released depth children s s'
  | [], s, _, _ => ⟨s, rfl, by simp, by simp, [], rfl, nodup_nil, by simp⟩
  | child :: children, s, hnodup, hin => by
    obtain ⟨hfresh, hnodup⟩ := List.nodup_cons.1 hnodup
    obtain ⟨⟨count, hcount⟩, hrest⟩ := List.forall_mem_cons.1 hin
    rw [List.foldlM_cons, releaseChild_eq hcount, ok_bind]
    -- the children are distinct, so those that follow are where they were
    have hother : ∀ v ∈ children, child ≠ v := fun v hv heq => hfresh (heq ▸ hv)
    have hin' : ∀ v ∈ children, ∃ n, (handOn depth child count s).indegree[v]? = some n := by
      intro v hv
      rw [handOn, Table.get_insert, if_neg (hother v hv)]
      exact hrest v hv
    obtain ⟨s', hs', hrel⟩ : ∃ s', children.foldlM (releaseChild depth) (handOn depth child count s) = .ok s' ∧
        Released depth children (handOn depth child count s) s' := release_ok hnodup hin'
    refine ⟨s', hs', fun v => ?_, fun v => ?_, ?_⟩
    · rw [hrel.indegree v, handOn, Table.get_insert]
      grind
    · rw [hrel.depths v, handOn, Table.get_insert]
      grind
    · obtain ⟨pushed, hready, hpushed, hmem⟩ := hrel.ready
      have hmem' : ∀ v d, (v, d) ∈ pushed ↔ v ∈ children ∧ s.indegree[v]?.map (· - 1) = some 0 ∧
          d = max (s.depths[v]?.getD 1) (depth + 1) := by
        intro v d
        rw [hmem v d]
        refine and_congr_right fun hv => ?_
        rw [handOn, Table.get_insert, Table.get_insert, if_neg (hother v hv), if_neg (hother v hv)]
      by_cases hzero : count - 1 = 0
      · refine ⟨pushed ++ [(child, max ((s.depths[child]?).getD 1) (depth + 1))], ?_, ?_, fun v d => ?_⟩
        · rw [hready, handOn, if_pos hzero, List.append_assoc, List.singleton_append]
        · exact List.nodup_append.2 ⟨hpushed, List.nodup_singleton _, by grind⟩
        · grind
      · refine ⟨pushed, by rw [hready, handOn, if_neg hzero], hpushed, fun v d => ?_⟩
        grind

structure Progress (nodes : Nodes) (popped : List Nat) (s : Sorting) : Prop where
  sorted : Sorted (DependsOn nodes) popped
  live : ∀ v ∈ popped, IsLive nodes v
  shallow : ∀ v ∈ popped, ∀ l : List Nat, (v :: l).IsChain (DependsOn nodes) → (v :: l).length ≤ maxPlanDepth
  indegree : ∀ (v : Nat) (record : NodeRecord), nodes[v]? = some record → record.state ≠ .removed →
    s.indegree[v]? = some (record.node.dependencies.countP (fun b => decide (b ∉ popped)))
  depth : ∀ v : Nat, Deepest (DependsOn nodes) (· ∈ popped) v (s.depths[v]?.getD 1)
  nodup : s.ready.Nodup
  ready : ∀ v d : Nat, (v, d) ∈ s.ready ↔
    IsLive nodes v ∧ v ∉ popped ∧ (∀ b, DependsOn nodes v b → b ∈ popped) ∧ d = s.depths[v]?.getD 1

theorem countP_notMem_cons {l popped : List Nat} {id : Nat} (hl : l.Nodup) (hid : id ∉ popped) :
    l.countP (fun b => decide (b ∉ id :: popped)) =
      if id ∈ l then l.countP (fun b => decide (b ∉ popped)) - 1 else l.countP (fun b => decide (b ∉ popped)) := by
  have herase : l.filter (fun b => decide (b ∉ id :: popped)) = (l.filter (fun b => decide (b ∉ popped))).erase id := by
    rw [(hl.filter _).erase_eq_filter, List.filter_filter]
    refine List.filter_congr fun b _ => ?_
    by_cases hb : b = id
    · simp [hb]
    · simp [hb]
  rw [List.countP_eq_length_filter, herase, List.length_erase, List.countP_eq_length_filter]
  simp [hid]

variable {v : Nat}

theorem dependsOn_live {id : Nat} (h : DependsOn nodes v id) :
    ∃ record : NodeRecord, nodes[v]? = some record ∧ record.state ≠ .removed ∧ id ∈ record.node.dependencies := by
  obtain ⟨record, hr, hid⟩ := h
  by_cases hremoved : record.state = .removed
  · rw [liveDependencies_removed hremoved] at hid
    cases hid
  · rw [liveDependencies_live hremoved] at hid
    exact ⟨record, hr, hremoved, hid⟩

variable {record : NodeRecord}

theorem dependsOn_iff (hr : nodes[v]? = some record) (hlive : record.state ≠ .removed) (id : Nat) :
    DependsOn nodes v id ↔ id ∈ record.node.dependencies := by
  rw [DependsOn, hr]
  simp [liveDependencies_live hlive]

theorem countP_eq_zero_iff (hr : nodes[v]? = some record) (hlive : record.state ≠ .removed) (popped : List Nat) :
    record.node.dependencies.countP (fun b => decide (b ∉ popped)) = 0 ↔ ∀ b, DependsOn nodes v b → b ∈ popped := by
  simp [List.countP_eq_zero, dependsOn_iff hr hlive]

section Step

variable {g : GraphIndex} {popped : List Nat} {s s' : Sorting} {id depth : Nat} {rest : List (Nat × Nat)}

theorem Progress.deepest (hp : Progress nodes popped s) (hs : (id, depth) ∈ s.ready) :
    Deepest (DependsOn nodes) (fun _ => True) id depth := by
  obtain ⟨-, -, hall, rfl⟩ := (hp.ready id depth).1 hs
  exact (hp.depth id).congr fun b hb => iff_of_true (hall b hb) trivial

theorem Progress.indegree_step (hi : Indexed nodes g) (hp : Progress nodes popped s) (hid : id ∉ popped)
    (hrel : Released depth ((g.dependents[id]?).getD []) { s with ready := rest } s') {v : Nat} {record : NodeRecord}
    (hr : nodes[v]? = some record) (hlive : record.state ≠ .removed) :
    s'.indegree[v]? = some (record.node.dependencies.countP (fun b => decide (b ∉ id :: popped))) := by
  have hiff : v ∈ (g.dependents[id]?).getD [] ↔ id ∈ record.node.dependencies :=
    (hi.mem id v).trans (dependsOn_iff hr hlive id)
  rw [hrel.indegree v, hp.indegree v record hr hlive, countP_notMem_cons (hi.dependencies v record hr) hid]
  by_cases hv : id ∈ record.node.dependencies
  · rw [if_pos hv, if_pos (hiff.2 hv)]
    rfl
  · rw [if_neg hv, if_neg (mt hiff.1 hv)]

theorem Progress.depth_step (hi : Indexed nodes g) (hp : Progress nodes popped s)
    (hdeep : Deepest (DependsOn nodes) (fun _ => True) id depth)
    (hrel : Released depth ((g.dependents[id]?).getD []) { s with ready := rest } s') (v : Nat) :
    Deepest (DependsOn nodes) (· ∈ id :: popped) v (s'.depths[v]?.getD 1) := by
  rw [hrel.depths v]
  by_cases hv : DependsOn nodes v id
  · rw [if_pos ((hi.mem id v).2 hv)]
    exact ((hp.depth v).insert hv hdeep).congr fun b _ => List.mem_cons.symm
  · rw [if_neg (mt (hi.mem id v).1 hv)]
    refine (hp.depth v).congr fun b hb => ?_
    have hne : b ≠ id := fun heq => hv (heq ▸ hb)
    rw [mem_cons, or_iff_right hne]

theorem Progress.ready_step (hi : Indexed nodes g) (hp : Progress nodes popped s) (hs : s.ready = (id, depth) :: rest)
    (hrel : Released depth ((g.dependents[id]?).getD []) { s with ready := rest } s') (v d : Nat) :
    (v, d) ∈ s'.ready ↔ IsLive nodes v ∧ v ∉ id :: popped ∧ (∀ b, DependsOn nodes v b → b ∈ id :: popped) ∧
      d = s'.depths[v]?.getD 1 := by
  have hin : (id, depth) ∈ s.ready := by rw [hs]; exact .head _
  obtain ⟨-, hid, hall, hdepth⟩ := (hp.ready id depth).1 hin
  obtain ⟨pushed, hready, -, hmem⟩ := hrel.ready
  rw [hready, List.mem_append, hmem v d, hrel.depths v]
  by_cases hv : DependsOn nodes v id
  · -- it waited for the popped node: it is pushed when nothing else is open
    obtain ⟨record, hr, hlive, -⟩ := dependsOn_live hv
    have hrest : (v, d) ∉ rest := fun hd =>
      hid (((hp.ready v d).1 (by rw [hs]; exact .tail _ hd)).2.2.1 id hv)
    have hne : v ≠ id := fun heq => hid (hall id (heq ▸ hv))
    have hunpopped : v ∉ popped := fun hm => hid (hp.sorted.closed hm (.single hv))
    have hzero := hp.indegree_step hi hid hrel hr hlive
    have hchild := (hi.mem id v).2 hv
    rw [hrel.indegree v, if_pos hchild] at hzero
    rw [if_pos hchild, hzero, Option.some.injEq, countP_eq_zero_iff hr hlive, mem_cons]
    have hlive : IsLive nodes v := ⟨record, hr, hlive⟩
    simp only [hchild, hrest, hlive, hne, hunpopped, true_and, or_false, not_false_eq_true]
  · have hchild := mt (hi.mem id v).1 hv
    rw [if_neg hchild]
    have hready' : (v, d) ∈ rest ↔ (v, d) ∈ s.ready ∧ v ≠ id := by
      have hnodup := hp.nodup
      rw [hs, nodup_cons] at hnodup
      have hsame : (id, d) ∈ rest → False := by
        intro hd
        obtain ⟨-, -, -, hd'⟩ := (hp.ready id d).1 (by rw [hs]; exact .tail _ hd)
        exact hnodup.1 (by rw [hdepth, ← hd']; exact hd)
      rw [hs, mem_cons, Prod.mk.injEq]
      constructor
      · exact fun hd => ⟨.inr hd, fun heq => hsame (heq ▸ hd)⟩
      · rintro ⟨⟨heq, -⟩ | hd, hne⟩
        · cases hne heq
        · exact hd
    have hdeps : (∀ b, DependsOn nodes v b → b ∈ id :: popped) ↔ ∀ b, DependsOn nodes v b → b ∈ popped := by
      refine forall₂_congr fun b hb => ?_
      have hne : b ≠ id := fun heq => hv (heq ▸ hb)
      rw [mem_cons, or_iff_right hne]
    rw [hready', hp.ready v d, hdeps, mem_cons]
    simp only [hchild, false_and, false_or, not_or, ne_eq]
    exact ⟨fun ⟨⟨hl, hn, hr⟩, hne⟩ => ⟨hl, ⟨hne, hn⟩, hr⟩, fun ⟨hl, ⟨hne, hn⟩, hr⟩ => ⟨⟨hl, hn, hr⟩, hne⟩⟩

theorem Progress.step (hi : Indexed nodes g) (hp : Progress nodes popped s) (hs : s.ready = (id, depth) :: rest)
    (hd : depth ≤ maxPlanDepth) : ∃ s', ((g.dependents[id]?).getD []).foldlM (releaseChild depth) { s with ready := rest } =
      .ok s' ∧ Progress nodes (id :: popped) s' := by
  have hin : (id, depth) ∈ s.ready := by rw [hs]; exact .head _
  obtain ⟨hlive, hid, hall, -⟩ := (hp.ready id depth).1 hin
  have hdeep := hp.deepest hin
  have hcounted : ∀ v ∈ (g.dependents[id]?).getD [], ∃ count, s.indegree[v]? = some count := by
    intro v hv
    obtain ⟨record, hr, hrlive, -⟩ := dependsOn_live ((hi.mem id v).1 hv)
    exact ⟨_, hp.indegree v record hr hrlive⟩
  obtain ⟨s', hs', hrel⟩ : ∃ s', ((g.dependents[id]?).getD []).foldlM (releaseChild depth) { s with ready := rest } =
      .ok s' ∧ Released depth ((g.dependents[id]?).getD []) { s with ready := rest } s' :=
    release_ok (hi.nodup id) hcounted
  refine ⟨s', hs', .cons hid hall hp.sorted, List.forall_mem_cons.2 ⟨hlive, hp.live⟩,
    List.forall_mem_cons.2 ⟨fun l hc => (hdeep.bound l hc (by simp)).trans hd, hp.shallow⟩,
    fun v record hr hrlive => hp.indegree_step hi hid hrel hr hrlive, hp.depth_step hi hdeep hrel, ?_,
    hp.ready_step hi hs hrel⟩
  obtain ⟨_, hready, hpushed, hmem⟩ := hrel.ready
  have hnodup := hp.nodup
  rw [hs, nodup_cons] at hnodup
  rw [hready]
  refine List.nodup_append.2 ⟨hpushed, hnodup.2, ?_⟩
  rintro ⟨v, d⟩ hv _ hv' rfl
  have hdep : DependsOn nodes v id := (hi.mem id v).1 ((hmem v d).1 hv).1
  exact hid (((hp.ready v d).1 (by rw [hs]; exact .tail _ hv')).2.2.1 id hdep)

end Step

section Run

variable {g : GraphIndex} {popped : List Nat} {s : Sorting} {live : Finset Nat}

def Shallow (nodes : Nodes) : Prop :=
  ∀ v, IsLive nodes v → ∀ l : List Nat, (v :: l).IsChain (DependsOn nodes) → (v :: l).length ≤ maxPlanDepth

theorem Progress.done (hp : Progress nodes popped s) (hall : ∀ v, IsLive nodes v → v ∈ popped) :
    Acyclic (DependsOn nodes) ∧ Shallow nodes := by
  refine ⟨hp.sorted.acyclic fun a b hab => ?_, fun v hv => hp.shallow v (hall v hv)⟩
  obtain ⟨record, hr, hlive, -⟩ := dependsOn_live hab
  exact hall a ⟨record, hr, hlive⟩

theorem Progress.empty (hp : Progress nodes popped s) (hlive : ∀ v, v ∈ live ↔ IsLive nodes v)
    (hdeps : ∀ a b, DependsOn nodes a b → IsLive nodes b) (hs : s.ready = []) (hacyclic : Acyclic (DependsOn nodes)) :
    ∀ v, IsLive nodes v → v ∈ popped := by
  intro v hv
  by_contra hunpopped
  have hnonempty : (live.filter (· ∉ popped)).Nonempty := ⟨v, Finset.mem_filter.2 ⟨(hlive v).2 hv, hunpopped⟩⟩
  obtain ⟨m, hm, hlast⟩ := hacyclic.exists_last hnonempty
  obtain ⟨hmlive, hmpopped⟩ := Finset.mem_filter.1 hm
  have hmdeps : ∀ b, DependsOn nodes m b → b ∈ popped := by
    intro b hb
    by_contra hbpopped
    exact hlast b (Finset.mem_filter.2 ⟨(hlive b).2 (hdeps m b hb), hbpopped⟩) hb
  have hready := (hp.ready m _).2 ⟨(hlive m).1 hmlive, hmpopped, hmdeps, rfl⟩
  rw [hs] at hready
  cases hready

theorem Progress.card_le (hp : Progress nodes popped s) (hlive : ∀ v, v ∈ live ↔ IsLive nodes v) :
    popped.length ≤ live.card := by
  rw [← List.toFinset_card_of_nodup hp.sorted.nodup]
  exact Finset.card_le_card fun v hv => (hlive v).2 (hp.live v (List.mem_toFinset.1 hv))

theorem Progress.all_of_card (hp : Progress nodes popped s) (hlive : ∀ v, v ∈ live ↔ IsLive nodes v)
    (hcard : live.card ≤ popped.length) (v : Nat) (hv : IsLive nodes v) : v ∈ popped := by
  rw [← List.toFinset_card_of_nodup hp.sorted.nodup] at hcard
  have heq : popped.toFinset = live :=
    Finset.eq_of_subset_of_card_le (fun v hv => (hlive v).2 (hp.live v (List.mem_toFinset.1 hv))) hcard
  rw [← List.mem_toFinset, heq]
  exact (hlive v).2 hv

/-- Sorting from any state of the loop visits all that is left exactly when the plan is acyclic and shallow: by induction
on the fuel, which covers the nodes that are not sorted yet. -/
theorem sortFrom_eq_ok (hi : Indexed nodes g) (hlive : ∀ v, v ∈ live ↔ IsLive nodes v)
    (hdeps : ∀ a b, DependsOn nodes a b → IsLive nodes b) : ∀ {fuel : Nat} {popped : List Nat} {s : Sorting},
    Progress nodes popped s → live.card ≤ fuel + popped.length →
    (sortFrom g.dependents fuel s = .ok (live.card - popped.length) ↔ Acyclic (DependsOn nodes) ∧ Shallow nodes)
  | 0, popped, s, hp, hfuel => by
    have hcard : live.card ≤ popped.length := by omega
    have hzero : live.card - popped.length = 0 := by omega
    rw [sortFrom, hzero]
    exact iff_of_true rfl (hp.done (hp.all_of_card hlive hcard))
  | fuel + 1, popped, s, hp, hfuel => by
    unfold sortFrom
    split
    · rename_i hs
      constructor
      · intro hok
        have hzero : 0 = live.card - popped.length := Except.ok.inj hok
        exact hp.done (hp.all_of_card hlive (by omega))
      · rintro ⟨hacyclic, -⟩
        have hall := hp.empty hlive hdeps hs hacyclic
        have hcard : live.card ≤ popped.length := by
          rw [← List.toFinset_card_of_nodup hp.sorted.nodup]
          exact Finset.card_le_card fun v hv => List.mem_toFinset.2 (hall v ((hlive v).1 hv))
        rw [show live.card - popped.length = 0 by omega]
    · rename_i id depth rest hs
      have hin : (id, depth) ∈ s.ready := by rw [hs]; exact .head _
      obtain ⟨hidlive, _, -, -⟩ := (hp.ready id depth).1 hin
      by_cases hd : depth > maxPlanDepth
      · have hrefuse : refuseIf (depth > maxPlanDepth) (Error.capacity "dependency depth") =
            .error (.capacity "dependency depth") := if_pos hd
        rw [hrefuse]
        refine iff_of_false (fun h => by cases h) ?_
        rintro ⟨-, hshallow⟩
        obtain ⟨l, hc, -, _⟩ := (hp.deepest hin).reached
        have := hshallow id hidlive l hc
        omega
      · rw [refuseIf_of_not hd, ok_bind]
        obtain ⟨_, hs', hp'⟩ := hp.step hi hs (not_lt.1 hd)
        rw [hs', ok_bind]
        have hlt : (id :: popped).length ≤ live.card := hp'.card_le hlive
        have hfuel' : live.card ≤ fuel + (id :: popped).length := by rw [List.length_cons]; omega
        have hrec := sortFrom_eq_ok hi hlive hdeps hp' hfuel'
        rw [← hrec, bind_eq_ok]
        rw [List.length_cons] at hlt ⊢
        constructor
        · rintro ⟨visited, hvisited, hsum⟩
          rw [pure_eq_ok] at hsum
          rw [hvisited, show visited = live.card - (popped.length + 1) by omega]
        · intro hvisited
          refine ⟨_, hvisited, ?_⟩
          rw [pure_eq_ok]
          omega

end Run

theorem progress_start {g : GraphIndex} (hi : Indexed nodes g) : Progress nodes []
    ⟨(g.indegree.toList.filterMap (fun p => if p.2 = 0 then some (p.1, 1) else none)).reverse, g.indegree, ∅⟩ where
  sorted := .nil
  live := by simp
  shallow := by simp
  indegree v record hr hlive := by
    rw [(hi.indegree v record.node.dependencies.length).2 ⟨record, hr, hlive, rfl⟩]
    simp
  depth v := by
    exact .none fun b _ => not_mem_nil
  nodup := by
    have hnodup : g.indegree.toList.Nodup := by
      have hkeys : g.indegree.keys.Nodup := Std.ExtTreeMap.nodup_keys
      rw [← Std.ExtTreeMap.map_fst_toList_eq_keys] at hkeys
      exact hkeys.of_map _
    rw [List.nodup_reverse]
    refine hnodup.filterMap fun p q x hp hq => ?_
    have hp' : p.2 = 0 ∧ (p.1, 1) = x := by simpa using hp
    have hq' : q.2 = 0 ∧ (q.1, 1) = x := by simpa using hq
    have hfst : p.1 = q.1 := (Prod.mk.inj (hp'.2.trans hq'.2.symm)).1
    exact Prod.ext hfst (hp'.1.trans hq'.1.symm)
  ready v d := by
    rw [List.mem_reverse, List.mem_filterMap, Std.ExtTreeMap.getElem?_empty, Option.getD_none]
    constructor
    · rintro ⟨⟨id, n⟩, hm, hsome⟩
      have hzero : n = 0 ∧ id = v ∧ 1 = d := by simpa using hsome
      obtain ⟨rfl, rfl, rfl⟩ := hzero
      obtain ⟨record, hr, hlive, hlen⟩ := (hi.indegree id 0).1 ((Table.mem_toList _ _ _).1 hm)
      refine ⟨⟨record, hr, hlive⟩, not_mem_nil, fun b hb => ?_, rfl⟩
      rw [dependsOn_iff hr hlive, List.length_eq_zero_iff.1 hlen.symm] at hb
      exact hb
    · rintro ⟨⟨record, hr, hlive⟩, -, hdeps, rfl⟩
      have hnil : record.node.dependencies = [] :=
        List.eq_nil_iff_forall_not_mem.2 fun b hb => not_mem_nil (hdeps b ((dependsOn_iff hr hlive b).2 hb))
      refine ⟨(v, 0), (Table.mem_toList _ _ _).2 ((hi.indegree v 0).2 ⟨record, hr, hlive, by rw [hnil]; rfl⟩), ?_⟩
      exact if_pos rfl

theorem live_of_chain (hdeps : ∀ a b, DependsOn nodes a b → IsLive nodes b) : ∀ {l : List Nat} {v : Nat},
    IsLive nodes v → (v :: l).IsChain (DependsOn nodes) → ∀ id ∈ v :: l, IsLive nodes id
  | [], v, hv, _ => by simpa using hv
  | b :: l, v, hv, hc => by
    obtain ⟨hvb, hc⟩ := List.isChain_cons_cons.1 hc
    exact List.forall_mem_cons.2 ⟨hv, live_of_chain hdeps (hdeps v b hvb) hc⟩

theorem live_of_ok {config : WorkflowConfig} (hok : ∀ e ∈ nodes.toList, EntryOk nodes config e) {a b : Nat}
    (hab : DependsOn nodes a b) : IsLive nodes b := by
  obtain ⟨record, hr, hb⟩ := hab
  exact (hok (a, record) ((Table.mem_toList nodes a record).2 hr)).live b hb

/-- The sort of a whole index visits every node of it exactly when the plan is acyclic and shallow. -/
theorem sortFrom_index {config : WorkflowConfig} (hok : ∀ e ∈ nodes.toList, EntryOk nodes config e) {g : GraphIndex}
    (hi : Indexed nodes g) : sortFrom g.dependents g.indegree.size
      ⟨(g.indegree.toList.filterMap (fun p => if p.2 = 0 then some (p.1, 1) else none)).reverse, g.indegree, ∅⟩ =
        .ok g.indegree.size ↔ Acyclic (DependsOn nodes) ∧ Shallow nodes := by
  have hlive : ∀ v, v ∈ Table.keys g.indegree ↔ IsLive nodes v := by
    intro v
    rw [Table.mem_keys]
    constructor
    · rintro ⟨n, hn⟩
      obtain ⟨record, hr, hl, -⟩ := (hi.indegree v n).1 hn
      exact ⟨record, hr, hl⟩
    · rintro ⟨record, hr, hl⟩
      exact ⟨_, (hi.indegree v _).2 ⟨record, hr, hl, rfl⟩⟩
  have hcard : (Table.keys g.indegree).card = g.indegree.size := by
    rw [Table.keys, List.toFinset_card_of_nodup Std.ExtTreeMap.nodup_keys, Std.ExtTreeMap.length_keys]
  have hfuel : (Table.keys g.indegree).card ≤ g.indegree.size + ([] : List Nat).length := hcard.le
  have h := sortFrom_eq_ok hi hlive (fun _ _ => live_of_ok hok) (progress_start hi) hfuel
  rwa [hcard, List.length_nil, Nat.sub_zero] at h

end Sorting

section Validated

variable {nodes : Nodes} {config : WorkflowConfig}

theorem index_nodes {g : GraphIndex} : nodes.toList.foldlM (indexNode nodes config) ⟨0, ∅, ∅⟩ = .ok g ↔
    (∀ e ∈ nodes.toList, EntryOk nodes config e) ∧ liveEdges nodes.toList ≤ config.maxEdges ∧
      g = nodes.toList.foldl indexStep ⟨0, ∅, ∅⟩ := by
  rw [index_eq_ok (Nat.zero_le _), Nat.zero_add]

theorem soundPlan_of_ok (h : validateGraph nodes config = .ok ()) : SoundPlan nodes config := by
  simp only [validateGraph, bind_eq_ok, refuseIf_eq_ok, index_nodes] at h
  obtain ⟨_, hsize, g, ⟨hok, hedges, hg⟩, _, hvisited, heq⟩ := h
  rw [not_not.1 heq] at hvisited
  obtain ⟨hacyclic, hshallow⟩ := (sortFrom_index hok (hg ▸ indexed_index hok)).1 hvisited
  refine ⟨not_lt.1 hsize, fun id record hr => ?_, hedges, fun a b => live_of_ok hok, hacyclic, ?_⟩
  · have he := hok (id, record) ((Table.mem_toList nodes id record).2 hr)
    exact ⟨he.node, he.key⟩
  · intro chain hchain hc
    cases chain with
    | nil => exact Nat.zero_le _
    | cons v l => exact hshallow v (hchain v (.head _)) l hc

theorem SoundPlan.ok (h : SoundPlan nodes config) : validateGraph nodes config = .ok () := by
  have hok : ∀ e ∈ nodes.toList, EntryOk nodes config e := by
    rintro ⟨id, record⟩ he
    have hr := (Table.mem_toList nodes id record).1 he
    exact ⟨(h.node id record hr).1, (h.node id record hr).2, fun b hb => h.live id b ⟨record, hr, hb⟩⟩
  have hshallow : Shallow nodes := fun v hv l hc => h.depth (v :: l) (live_of_chain h.live hv hc) hc
  simp only [validateGraph, bind_eq_ok, refuseIf_eq_ok, index_nodes]
  exact ⟨(), not_lt.2 h.size, _, ⟨hok, h.edges, rfl⟩, _,
    (sortFrom_index hok (indexed_index hok)).2 ⟨h.acyclic, hshallow⟩, not_not.2 rfl⟩

end Validated

/-- **A plan is accepted exactly when it is sound**: within its bounds, of valid nodes under their own names whose
dependencies are alive, free of cycles and of chains that are too deep. -/
theorem validateGraph_eq_ok (nodes : Nodes) (config : WorkflowConfig) :
    validateGraph nodes config = .ok () ↔ SoundPlan nodes config :=
  ⟨soundPlan_of_ok, SoundPlan.ok⟩

end Iteron.Scheduler
