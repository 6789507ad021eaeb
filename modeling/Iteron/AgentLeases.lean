import Iteron.AgentRun
/-!
# AgentLeases — write paths held by one branch of the tree

An agent holds its write paths until it is closed.  Two agents below the root hold overlapping paths only as parent and
child: a spawn is refused if its paths overlap those of any agent but its parent.  So it is also refused where the paths
were granted down a longer chain.
-/
namespace Iteron.Agents

open Refuse AgentControllerSnapshot

variable {H : Hashes} {v v' : Scene} {l : Label}

theorem overlaps_comm (a b : List String) : overlaps a b = overlaps b a := by
  rw [Bool.eq_iff_iff]
  simp only [overlaps, pathsOverlap, List.any_eq_true, Bool.or_eq_true]
  constructor
  · rintro ⟨x, hx, y, hy, h⟩
    exact ⟨y, hy, x, hx, h.symm⟩
  · rintro ⟨x, hx, y, hy, h⟩
    exact ⟨y, hy, x, hx, h.symm⟩

/-- An agent that holds its paths against others: it is not the root and not closed. -/
def Core.Holds (c : Core) : Prop := c.parentId.isSome = true ∧ c.state ≠ .closed

def Leased (v : Scene) : Prop :=
  ∀ x y cx cy, x ≠ y → v.agents x = some cx → v.agents y = some cy → cx.Holds → cy.Holds →
    overlaps cx.writePaths cy.writePaths = true → cx.parentId = some y ∨ cy.parentId = some x

theorem Core.Grows.holds {c c' : Core} (h : c.Grows c') (hc : c'.Holds) : c.Holds :=
  ⟨h.parentId ▸ hc.1, fun hclosed => hc.2 (h.closed hclosed)⟩

theorem move_origin (h : Move H v l v') : (∀ x c', v'.agents x = some c' → ∃ c, v.agents x = some c) ∨
    ∃ id parent paths, v.agents id = none ∧ v' = v.set id ⟨.idle, some parent, paths⟩ ∧
      ∀ x cx, v.agents x = some cx → x ≠ parent → cx.parentId.isSome = true → cx.state ≠ .closed →
        overlaps paths cx.writePaths = false := by
  have hset : ∀ {id : AgentId} {c0 c1 : Core}, v.agents id = some c0 →
      ∀ x c', (v.set id c1).agents x = some c' → ∃ c, v.agents x = some c := by
    intro id c0 c1 hid x c' hx
    by_cases he : x = id
    · exact ⟨c0, he ▸ hid⟩
    · rw [Scene.set_of_ne _ he] at hx
      exact ⟨c', hx⟩
  cases h with
  | post => exact .inl (fun x c' hx => ⟨c', hx⟩)
  | deliver => exact .inl (fun x c' hx => ⟨c', hx⟩)
  | consume => exact .inl (fun x c' hx => ⟨c', hx⟩)
  | add hfresh _ _ hclear => exact .inr ⟨_, _, _, hfresh, rfl, hclear⟩
  | start hagent => exact .inl (hset hagent)
  | interrupt hagent => exact .inl (hset hagent)
  | settle hagent => exact .inl (hset hagent)
  | stop hagent => exact .inl (hset hagent)
  | quarantine =>
    refine .inl (fun x c' hx => ?_)
    obtain ⟨c, hc, -⟩ := Option.map_eq_some_iff.1 hx
    exact ⟨c, hc⟩
  | close =>
    refine .inl (fun x c' hx => ?_)
    obtain ⟨c, hc, -⟩ := Option.map_eq_some_iff.1 hx
    exact ⟨c, hc⟩

theorem leased_move (h : Move H v l v') (hv : Leased v) : Leased v' := by
  rcases move_origin h with hold | ⟨id, parent, paths, _, rfl, hclear⟩
  · intro x y cx' cy' hne hx' hy' hholdx hholdy hover
    obtain ⟨cx, hx⟩ := hold x cx' hx'
    obtain ⟨cy, hy⟩ := hold y cy' hy'
    obtain ⟨_, hx1, hgx⟩ := move_core h hx
    obtain ⟨_, hy1, hgy⟩ := move_core h hy
    cases hx'.symm.trans hx1
    cases hy'.symm.trans hy1
    rw [hgx.parentId, hgy.parentId]
    rw [hgx.writePaths, hgy.writePaths] at hover
    exact hv x y cx cy hne hx hy (hgx.holds hholdx) (hgy.holds hholdy) hover
  · -- an agent that holds paths the new ones overlap can only be the parent
    have hparent : ∀ x cx, x ≠ id → v.agents x = some cx → cx.Holds → overlaps paths cx.writePaths = true → x = parent := by
      intro x cx _ hx hhold hover
      refine Classical.byContradiction (fun hne => ?_)
      rw [hclear x cx hx hne hhold.1 hhold.2] at hover
      cases hover
    intro x y cx cy hne hx hy hholdx hholdy hover
    by_cases hxid : x = id
    · subst hxid
      rw [Scene.set_self] at hx
      rw [Scene.set_of_ne _ (Ne.symm hne)] at hy
      cases hx
      exact .inl (congrArg some (hparent y cy (Ne.symm hne) hy hholdy hover).symm)
    · rw [Scene.set_of_ne _ hxid] at hx
      by_cases hyid : y = id
      · subst hyid
        rw [Scene.set_self] at hy
        cases hy
        rw [overlaps_comm] at hover
        exact .inr (congrArg some (hparent x cx hxid hx hholdx hover).symm)
      · rw [Scene.set_of_ne _ hyid] at hy
        exact hv x y cx cy hne hx hy hholdx hholdy hover

theorem leased_moves {ls : List Label} (h : Moves H v ls v') : Leased v → Leased v' := by
  induction h with
  | nil => exact fun hv => hv
  | cons hmove _ ih => exact fun hv => ih (leased_move hmove hv)

theorem leased_genesis (config : AgentControllerConfig) : Leased (Controller.genesis config).scene := by
  have hone : ∀ x cx, (Controller.genesis config).scene.agents x = some cx → x = 1 := by
    intro x cx hx
    obtain ⟨r, hr, -⟩ := Option.map_eq_some_iff.1 hx
    rcases Table.insert_eq_some hr with ⟨hx, -⟩ | ⟨-, hnone⟩
    · exact hx.symm
    · cases hnone
  intro x y cx cy hne hx hy
  cases hne ((hone x cx hx).trans (hone y cy hy).symm)

theorem leased_run (es : List Event) : ∀ s, (World.run H es).durable = some s → Leased s.scene :=
  run_scene leased_genesis leased_moves es

/-! ## Which spawns are refused -/

variable {s : AgentControllerSnapshot} {actor : AgentActor} {requestId label task : String} {parent : AgentId}
  {capabilities : CapabilitySet} {budget : AgentBudget} {paths : List String}

/-- A spawn that passes the checks of authority, capability, depth, capacity and budget, whose paths its parent covers, and
whose paths overlap no agent outside the chain of its ancestors. -/
structure Admissible (s : AgentControllerSnapshot) (actor : AgentActor) (parent : AgentId) (capabilities : CapabilitySet)
    (budget : AgentBudget) (paths : List String) (record reserved : AgentRecord) : Prop where
  authority : actor = .operator ∨ actor = .agent parent
  opened : s.checkOpen parent = .ok ()
  known : s.agents[parent]? = some record
  capability : capabilities.isSubsetOf record.view.capabilities = true ∧ capabilities.contains .readOnly = true
  writes : paths = [] ∨ capabilities.contains .reversibleLocal = true
  depth : ∃ d, s.depth parent = .ok d ∧ d < maxHierarchyDepth
  capacity : s.agents.size < s.config.maxAgents
  fits : budget.fitsWithin record.view.budget = true
  reserves : reserve record budget = .ok reserved
  covers : parent ≠ 1 → covered paths record.view.writePaths = true
  free : ∀ (id : AgentId) (r : AgentRecord), s.agents[id]? = some r → r.view.state ≠ .closed →
    overlaps paths r.view.writePaths = true → Within s id parent

/-- The request is well-formed and new, there is room for its receipt, and no provider usage awaits recovery. -/
structure NewRequest (s : AgentControllerSnapshot) (actor : AgentActor) (requestId : String) (command : AgentCommand) :
    Prop where
  wellFormed : command.validate = .ok ()
  named : validRequestId requestId = true
  fresh : s.receipts[requestKey actor requestId]? = none
  room : s.receipts.size < maxReceipts
  settled : s.providerBudget.recoveryRequired = false

/-- No agent above the parent, but for the root, still holds paths that overlap these. -/
def ClearAbove (s : AgentControllerSnapshot) (parent : AgentId) (paths : List String) : Prop :=
  ∀ (a : AgentId) (r : AgentRecord), Within s a parent → a ≠ parent → s.agents[a]? = some r →
    r.view.parentId.isSome = true → r.view.state ≠ .closed → overlaps paths r.view.writePaths = false

variable {record reserved : AgentRecord}

theorem blocks_iff (hs : Sound s) (h : Admissible s actor parent capabilities budget paths record reserved) :
    (Table.vals (s.agents.insert parent reserved)).any (blocks parent paths) = true ↔ ¬ ClearAbove s parent paths := by
  constructor
  · intro hblocks hclear
    obtain ⟨r, hr, hblock⟩ := List.any_eq_true.1 hblocks
    obtain ⟨k, hk⟩ := (Table.mem_vals _ r).1 hr
    simp only [blocks, Bool.and_eq_true, bne_iff_ne, ne_eq] at hblock
    obtain ⟨⟨⟨hclosed, hne⟩, hroot⟩, hover⟩ := hblock
    rcases Table.insert_eq_some hk with ⟨rfl, rfl⟩ | ⟨hkne, hold⟩
    · exact hne ((congrArg _ (reserve_ok h.reserves).2).trans (hs.ids parent record h.known))
    · rw [hclear k r (h.free k r hold hclosed hover) (Ne.symm hkne) hold hroot hclosed] at hover
      cases hover
  · intro hnot
    refine Classical.byContradiction (fun hblocks => hnot (fun a r hwithin hne hr hroot hclosed => ?_))
    have hfree := List.any_eq_false.1 ((Bool.not_eq_true _).mp hblocks) r
      ((Table.mem_vals _ r).2 ⟨a, by rw [Table.get_insert, if_neg (Ne.symm hne), hr]⟩)
    simp only [blocks, Bool.and_eq_true, bne_iff_ne, ne_eq, not_and, Bool.not_eq_true] at hfree
    exact hfree ⟨⟨hclosed, by rw [hs.ids a r hr]; exact hne⟩, hroot⟩

theorem orElseError_eq_error {α : Type} {x : Option α} {e e' : ControllerError} :
    orElseError x e = .error e' ↔ x = none ∧ e = e' := by
  cases x with
  | none => simp [orElseError]
  | some a => simp [orElseError]

variable {x : Except String Unit}

theorem liftInvalid_eq_ok {u : Unit} : liftInvalid x = .ok u ↔ x = .ok () := by
  cases x with
  | error e => simp [liftInvalid]
  | ok u => simp [liftInvalid]

theorem liftInvalid_ne_permission : liftInvalid x ≠ .error .permission := by
  cases x with
  | error e => simp [liftInvalid]
  | ok u => simp [liftInvalid]

theorem enqueue_ne_permission {receiver : AgentId} {text : String} {kind : AgentMessageKind} {epoch : Option AgentEpoch} :
    s.enqueue H actor receiver text kind epoch ≠ .error .permission := by
  simp [AgentControllerSnapshot.enqueue, AgentMailbox.enqueue, bind_eq_error, refuseIf_eq_error, orElseError_eq_error,
    liftInvalid_ne_permission, pure, Except.pure]

theorem Admissible.actor_ok
    (h : Admissible s actor parent capabilities budget paths record reserved) : s.checkActor actor = .ok () := by
  rcases h.authority with rfl | rfl
  · rfl
  · exact h.opened

theorem prepareChildSpawn_permission (h : Admissible s actor parent capabilities budget paths record reserved) :
    s.prepareChildSpawn H actor (.spawn parent label task capabilities budget paths) = .error .permission ↔
      s.providerBudget.recoveryRequired = false ∧
        (Table.vals (s.agents.insert parent reserved)).any (blocks parent paths) = true := by
  obtain ⟨d, hd, _⟩ := h.depth
  have hactor : ¬ (actor ≠ .operator ∧ actor ≠ .agent parent) := fun hne => h.authority.elim hne.1 hne.2
  have hcapability : ¬ (capabilities.isSubsetOf record.view.capabilities = false ∨ capabilities.contains .readOnly = false) := by
    simp [h.capability]
  have hroom : ¬ (d ≥ maxHierarchyDepth ∨ s.agents.size ≥ s.config.maxAgents) := by
    have := h.capacity
    omega
  have hfits : ¬ (budget.fitsWithin record.view.budget = false) := by simp [h.fits]
  have hcovers : ¬ (parent ≠ 1 ∧ covered paths record.view.writePaths = false) := by
    rintro ⟨hne, hfalse⟩
    rw [h.covers hne] at hfalse
    cases hfalse
  have hwrites : ¬ (paths ≠ [] ∧ capabilities.contains .reversibleLocal = false) := by
    rintro ⟨hne, hfalse⟩
    rw [h.writes.resolve_left hne] at hfalse
    cases hfalse
  have hknown : orElseError s.agents[parent]? .unknownAgent = .ok record := orElseError_eq_ok.2 h.known
  simp only [prepareChildSpawn, refuseIf_of_not hactor, h.opened, hknown, refuseIf_of_not hcapability, hd,
    refuseIf_of_not hroom, refuseIf_of_not hfits, h.reserves, refuseIf_of_not hcovers, refuseIf_of_not hwrites, ok_bind]
  simp only [bind_eq_error, refuseIf_eq_error, refuseIf_eq_ok, orElseError_eq_error, pure_ne_error, reduceCtorEq, and_false,
    false_or, or_false, and_true, exists_false, enqueue_ne_permission, Bool.not_eq_true, exists_const]

theorem spawn_permission (hs : Sound s) (h : Admissible s actor parent capabilities budget paths record reserved) :
    prepare H s (.execute actor requestId (.spawn parent label task capabilities budget paths) none) = .error .permission ↔
      NewRequest s actor requestId (.spawn parent label task capabilities budget paths) ∧ ¬ ClearAbove s parent paths := by
  simp only [prepare, executeWithNativeChild, validateOption, execute, h.actor_ok, ok_bind]
  rw [← blocks_iff hs h]
  constructor
  · intro hrefused
    simp only [bind_eq_error, liftInvalid_ne_permission, refuseIf_eq_error, reduceCtorEq, and_false, false_or,
      liftInvalid_eq_ok, refuseIf_eq_ok, Bool.not_eq_false] at hrefused
    obtain ⟨_, hvalid, _, hnamed, hrefused⟩ := hrefused
    split at hrefused
    · simp only [bind_eq_error, refuseIf_eq_error, pure_ne_error, reduceCtorEq, and_false, exists_false, or_false] at hrefused
    · rename_i hfresh
      simp only [perform, nextRevision, bind_eq_error, refuseIf_eq_error, refuseIf_eq_ok, reduceCtorEq, and_false, false_or,
        orElseError_eq_error, pure_ne_error, exists_false, or_false, prepareChildSpawn_permission h, exists_const] at hrefused
      obtain ⟨hroom, hsettled, hblocks⟩ := hrefused
      exact ⟨⟨hvalid, hnamed, hfresh, Nat.not_le.1 hroom, hsettled⟩, hblocks⟩
  · rintro ⟨hnew, hblocks⟩
    have hspawn : s.prepareChildSpawn H actor (.spawn parent label task capabilities budget paths) = .error .permission :=
      (prepareChildSpawn_permission h).2 ⟨hnew.settled, hblocks⟩
    have hvalid := (liftInvalid_eq_ok (u := ())).2 hnew.wellFormed
    simp only [hvalid, refuseIf_of_not ((Bool.not_eq_false _).symm ▸ hnew.named), ok_bind,
      hnew.fresh, refuseIf_of_not (Nat.not_le.2 hnew.room), perform, hspawn]
    rfl

/-- Agents below the root that hold overlapping paths are one above the other. -/
def Exclusive (s : AgentControllerSnapshot) : Prop :=
  ∀ (a b : AgentId) (ra rb : AgentRecord), a ≠ b → s.agents[a]? = some ra → s.agents[b]? = some rb →
    ra.view.parentId.isSome = true → rb.view.parentId.isSome = true → ra.view.state ≠ .closed → rb.view.state ≠ .closed →
    overlaps ra.view.writePaths rb.view.writePaths = true → Within s a b ∨ Within s b a

theorem exclusive_of_leased (h : Leased s.scene) : Exclusive s := by
  intro a b ra rb hne ha hb hroota hrootb hclosea hcloseb hover
  have hheld := h a b ra.core rb.core hne (scene_agents ha) (scene_agents hb) ⟨hroota, hclosea⟩ ⟨hrootb, hcloseb⟩ hover
  rcases hheld with hparent | hparent
  · exact .inr (.child a b ra ha hparent .self)
  · exact .inl (.child b a rb hb hparent .self)

/-- Paths are exclusive, and an admissible spawn is not refused for want of permission. -/
def LeaseLaw (H : Hashes) (s : AgentControllerSnapshot) : Prop :=
  Exclusive s ∧ ∀ (actor : AgentActor) (requestId label task : String) (parent : AgentId) (capabilities : CapabilitySet)
      (budget : AgentBudget) (paths : List String) (record reserved : AgentRecord),
      Admissible s actor parent capabilities budget paths record reserved →
      prepare H s (.execute actor requestId (.spawn parent label task capabilities budget paths) none) ≠ .error .permission

/-- **Write paths are exclusive in every durable snapshot**, over every run of calls, lost answers, crashes and openings.  An
admissible spawn that is a new request is refused for want of permission exactly when an agent above its parent, but for
the root, still holds paths that overlap the new ones. -/
theorem write_leases (H : Hashes) (es : List Event) (s : AgentControllerSnapshot)
    (hs : (World.run H es).durable = some s) : Exclusive s ∧
      ∀ (actor : AgentActor) (requestId label task : String) (parent : AgentId) (capabilities : CapabilitySet)
        (budget : AgentBudget) (paths : List String) (record reserved : AgentRecord),
        Admissible s actor parent capabilities budget paths record reserved →
        (prepare H s (.execute actor requestId (.spawn parent label task capabilities budget paths) none) ≠ .error .permission ↔
          (NewRequest s actor requestId (.spawn parent label task capabilities budget paths) → ClearAbove s parent paths)) := by
  refine ⟨exclusive_of_leased (leased_run es s hs), fun actor requestId label task parent capabilities budget paths record
    reserved h => ?_⟩
  rw [Ne, spawn_permission ((coherent_run es).sound s hs) h, not_and, not_not]

/-! ## Paths granted down a chain -/

def spawnOuter : AgentCommand := .spawn 1 "outer" "work" ⟨3⟩ ⟨8, 800, 400, 60000⟩ ["a"]

def spawnInner : AgentCommand := .spawn 2 "inner" "work" ⟨3⟩ ⟨4, 300, 120, 60000⟩ ["a/b"]

def spawnThird : AgentCommand := .spawn 3 "third" "work" ⟨3⟩ ⟨2, 100, 50, 60000⟩ ["a/b/c"]

def chainHashes : Hashes :=
  { sampleHashes with
    text := fun _ => workDigest
    command := fun c =>
      if c = spawnOuter then "dcc318fa0516973f4c4748b93d56639c1124cf21622b6e18b0591256fbbb18c7"
      else if c = spawnInner then "214a1be319903aaead83d1785d4ae03ee894c7e824477bafa0273cd8d0ccd6c7"
      else "d047db657e78adea02c154e47aa94693d26bc5341f9f35bdab990b81ddf51e61" }

/-- The outer agent, with `a`. -/
def outerRun : List Event := [openSample, .call (.execute .operator "outer" spawnOuter none) .done]

/-- Below it the inner one, with `a/b`. -/
def innerRun : List Event := outerRun ++ [Event.call (.execute .operator "inner" spawnInner none) .done]

/-- The checks of `Admissible`, but for the other agents' paths. -/
def admits (s : AgentControllerSnapshot) (parent : AgentId) (capabilities : CapabilitySet) (budget : AgentBudget)
    (paths : List String) : Bool :=
  match s.agents[parent]?, s.checkOpen parent, s.depth parent with
  | some record, .ok (), .ok d =>
    (reserve record budget).toBool && capabilities.isSubsetOf record.view.capabilities && capabilities.contains .readOnly &&
      capabilities.contains .reversibleLocal && decide (d < maxHierarchyDepth) &&
      decide (s.agents.size < s.config.maxAgents) && budget.fitsWithin record.view.budget &&
      covered paths record.view.writePaths
  | _, _, _ => false

theorem admissible_of_admits (h : admits s parent capabilities budget paths = true)
    (hfree : ∀ (id : AgentId) (r : AgentRecord), s.agents[id]? = some r → r.view.state ≠ .closed →
      overlaps paths r.view.writePaths = true → Within s id parent) :
    ∃ record reserved, Admissible s .operator parent capabilities budget paths record reserved := by
  unfold admits at h
  split at h
  · rename_i record d hknown hopen hdepth
    simp only [Bool.and_eq_true, decide_eq_true_eq] at h
    obtain ⟨⟨⟨⟨⟨⟨⟨hreserve, hsubset⟩, hread⟩, hwrite⟩, hd⟩, hsize⟩, hfits⟩, hcovers⟩ := h
    cases hr : reserve record budget with
    | error e =>
      rw [hr] at hreserve
      cases hreserve
    | ok reserved =>
      exact ⟨record, reserved, .inl rfl, hopen, hknown, ⟨hsubset, hread⟩, .inr hwrite, ⟨d, hdepth, hd⟩, hsize, hfits, hr,
        fun _ => hcovers, hfree⟩
  · cases h

def placesOf (s : AgentControllerSnapshot) : List (AgentId × Option AgentId × List String) :=
  s.agents.toList.map (fun p => (p.1, p.2.view.parentId, p.2.view.writePaths))

theorem mem_placesOf {id : AgentId} {r : AgentRecord} (h : s.agents[id]? = some r) :
    (id, r.view.parentId, r.view.writePaths) ∈ placesOf s :=
  List.mem_map_of_mem (f := fun p : AgentId × AgentRecord => (p.1, p.2.view.parentId, p.2.view.writePaths))
    ((Table.mem_toList s.agents id r).2 h)

theorem write_leases_innerAgent : ∃ s, (World.run chainHashes outerRun).durable = some s ∧
      prepare chainHashes s (.execute .operator "inner" spawnInner none) ≠ .error .permission := by
  have hadmits : (World.run chainHashes outerRun).durable.any
      (fun s => admits s 2 ⟨3⟩ ⟨4, 300, 120, 60000⟩ ["a/b"] && decide (placesOf s = [(1, none, []), (2, some 1, ["a"])])) =
        true := by
    decide +kernel
  obtain ⟨s, hs, hcheck⟩ := (Option.any_eq_true _ _).1 hadmits
  obtain ⟨hadmits, hplaces⟩ := Bool.and_eq_true_iff.1 hcheck
  have hplaces := of_decide_eq_true hplaces
  have hagents : ∀ (id : AgentId) (r : AgentRecord), s.agents[id]? = some r →
      (id = 1 ∧ r.view.parentId = none ∧ r.view.writePaths = []) ∨ id = 2 := by
    intro id r hr
    have hmem := mem_placesOf hr
    rw [hplaces] at hmem
    simp only [List.mem_cons, List.not_mem_nil, or_false, Prod.mk.injEq] at hmem
    exact hmem.imp (fun h => h) (fun h => h.1)
  obtain ⟨_, _, hadmissible⟩ := admissible_of_admits hadmits (fun id r hr _ hover => by
    rcases hagents id r hr with ⟨-, -, hpaths⟩ | rfl
    · rw [hpaths] at hover
      cases hover
    · exact .self)
  refine ⟨s, hs, ((write_leases chainHashes outerRun s hs).2 _ _ _ _ _ _ _ _ _ _ hadmissible).2 (fun _ => ?_)⟩
  intro a r _ hne hr hroot
  rcases hagents a r hr with ⟨-, hparent, -⟩ | rfl
  · rw [hparent] at hroot
    cases hroot
  · cases hne rfl

def isPermission {α : Type} : Except ControllerError α → Bool
  | .error e => decide (e = .permission)
  | .ok _ => false

/-- **A third agent of the chain is refused its part of its parent's paths.** -/
theorem not_leaseLaw_innerRun : ∃ s, (World.run chainHashes innerRun).durable = some s ∧ ¬ LeaseLaw chainHashes s := by
  have hadmits : (World.run chainHashes innerRun).durable.any
      (fun s => admits s 3 ⟨3⟩ ⟨2, 100, 50, 60000⟩ ["a/b/c"] &&
        decide (placesOf s = [(1, none, []), (2, some 1, ["a"]), (3, some 2, ["a/b"])]) &&
        isPermission (prepare chainHashes s (.execute .operator "third" spawnThird none))) = true := by
    decide +kernel
  obtain ⟨s, hs, hcheck⟩ := (Option.any_eq_true _ _).1 hadmits
  obtain ⟨hcheck, hrefused⟩ := Bool.and_eq_true_iff.1 hcheck
  obtain ⟨hadmits, hplaces⟩ := Bool.and_eq_true_iff.1 hcheck
  have hplaces := of_decide_eq_true hplaces
  refine ⟨s, hs, fun hlaw => ?_⟩
  obtain ⟨record, reserved, hadmissible⟩ := admissible_of_admits hadmits (fun id r hr _ hover => by
    have hmem := mem_placesOf hr
    rw [hplaces] at hmem
    simp only [List.mem_cons, List.not_mem_nil, or_false, Prod.mk.injEq] at hmem
    rcases hmem with ⟨-, -, hpaths⟩ | ⟨rfl, -, -⟩ | ⟨rfl, -, -⟩
    · rw [hpaths] at hover
      cases hover
    · have hthird : (3, some 2, ["a/b"]) ∈ placesOf s := by simp [hplaces]
      obtain ⟨⟨k, rk⟩, hk, hplace⟩ := List.mem_map.1 hthird
      simp only [Prod.mk.injEq] at hplace
      obtain ⟨rfl, hparent, -⟩ := hplace
      exact .child 3 2 rk ((Table.mem_toList s.agents 3 rk).1 hk) hparent .self
    · exact .self)
  refine hlaw.2 .operator "third" "third" "work" 3 ⟨3⟩ ⟨2, 100, 50, 60000⟩ ["a/b/c"] record reserved hadmissible ?_
  change prepare chainHashes s (.execute .operator "third" spawnThird none) = _
  unfold isPermission at hrefused
  split at hrefused
  · rename_i e hprepare
    rw [hprepare, of_decide_eq_true hrefused]
  · cases hrefused

end Iteron.Agents
