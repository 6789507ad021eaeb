import Iteron.AgentRun
/-!
# AgentClose — closed agents and their descendants

An accepted close takes an agent out of work together with what it may have below it.  The agents it was for, and those
below a closed agent, are the sealed part of the tree: it is closed under descendants, and no move brings an agent of it
back to work, except the reconciliation of a stopped agent.  That one sees only that the agent needs recovery, not that
it was closing, nor what is above or below it; the results here say which reconciliations keep the law.
-/
namespace Iteron.Agents

open Refuse AgentControllerSnapshot

/-- The agent is `top` or below it. -/
inductive Scene.Under (v : Scene) (top : AgentId) : AgentId → Prop
  | self : Under v top top
  | child {x p : AgentId} {c : Core} : v.agents x = some c → c.parentId = some p → Under v top p → Under v top x

variable {s : AgentControllerSnapshot} {top x : AgentId}

theorem under_iff_within : s.scene.Under top x ↔ Within s top x := by
  constructor
  · intro h
    induction h with
    | self => exact .self
    | child hx hp _ ih =>
      obtain ⟨r, hr, rfl⟩ := Option.map_eq_some_iff.1 hx
      exact .child _ _ r hr hp ih
  · intro h
    induction h with
    | self => exact .self
    | child _ _ r hr hp _ ih => exact .child (scene_agents hr) hp ih

variable {H : Hashes} {v v' : Scene} {l : Label} {marked doomed : AgentId → Prop}

theorem Scene.Under.of_grows (hgrows : ∀ x c, v.agents x = some c → ∃ c', v'.agents x = some c' ∧ c.Grows c')
    (h : v.Under top x) : v'.Under top x := by
  induction h with
  | self => exact .self
  | child hx hp _ ih =>
    obtain ⟨c', hx', hg⟩ := hgrows _ _ hx
    exact .child hx' (hg.parentId.trans hp) ih

/-- The agents of `doomed` are those a close was for and those below a closed agent, and none of them works. -/
structure Sealed (v : Scene) (marked doomed : AgentId → Prop) : Prop where
  covers : ∀ x, marked x → doomed x
  closed : ∀ x c, v.agents x = some c → c.state = .closed → doomed x
  closing : ∀ x c epoch, v.agents x = some c → c.state = .closing epoch → doomed x
  down : ∀ x c p, v.agents x = some c → c.parentId = some p → doomed p → doomed x
  dead : ∀ x c, doomed x → v.agents x = some c → c.state.isLive = false
  known : ∀ x, doomed x → ∃ c, v.agents x = some c
  why : ∀ x, doomed x → marked x ∨ ∃ a c, v.agents a = some c ∧ c.state = .closed ∧ v.Under a x

/-- The reconciliation of a stopped agent keeps the law: one that takes it back to work is not for a sealed agent, and one
that closes it leaves nothing working below it. -/
def Careful (v : Scene) (marked : AgentId → Prop) (id : AgentId) : Bool → Prop
  | false => ¬ marked id ∧ ∀ a c, v.agents a = some c → c.state = .closed → ¬ v.Under a id
  | true => ∀ x c, v.Under id x → v.agents x = some c → c.state.isLive = false

def markedBy (marked : AgentId → Prop) (l : Label) (x : AgentId) : Prop := marked x ∨ ∃ ids, l = .close ids ∧ x ∈ ids

variable {id : AgentId} {c : Core} {state : AgentState}

theorem set_grows (hid : v.agents id = some c)
    (hclosed : c.state = .closed → state = .closed) (x : AgentId) (cx : Core) (hx : v.agents x = some cx) :
    ∃ c', (v.set id { c with state := state }).agents x = some c' ∧ cx.Grows c' := by
  by_cases he : x = id
  · subst he
    cases hid.symm.trans hx
    exact ⟨_, Scene.set_self .., rfl, rfl, hclosed⟩
  · exact ⟨cx, by rw [← hx]; exact Scene.set_of_ne _ he, rfl, rfl, fun h => h⟩

theorem get_set {cx : Core} (hx : (v.set id c).agents x = some cx) :
    (x = id ∧ cx = c) ∨ (x ≠ id ∧ v.agents x = some cx) := by
  by_cases he : x = id
  · subst he
    rw [Scene.set_self] at hx
    exact .inl ⟨rfl, (Option.some.inj hx).symm⟩
  · exact .inr ⟨he, by rw [Scene.set_of_ne _ he] at hx; exact hx⟩

variable {mailbox : AgentMailbox}

structure Fits (doomed : AgentId → Prop) (x : AgentId) (c : Core) : Prop where
  closed : c.state = .closed → doomed x
  closing : ∀ epoch, c.state = .closing epoch → doomed x
  down : ∀ p, c.parentId = some p → doomed p → doomed x
  dead : doomed x → c.state.isLive = false

section

variable (hs : Sealed v marked doomed)
include hs

theorem Sealed.fits {x : AgentId} {c : Core} (hx : v.agents x = some c) : Fits doomed x c :=
  ⟨hs.closed x c hx, fun e => hs.closing x c e hx, fun p => hs.down x c p hx, fun hd => hs.dead x c hd hx⟩

/-- A move under which agents only grow keeps the sealed part known and explained; the records it leaves must fit. -/
theorem Sealed.grow {marked' doomed' : AgentId → Prop}
    (hgrows : ∀ x c, v.agents x = some c → ∃ c', v'.agents x = some c' ∧ c.Grows c')
    (hmarked : ∀ x, marked x → marked' x) (hcovers : ∀ x, marked' x → doomed' x)
    (hnew : ∀ x, doomed' x → doomed x ∨ marked' x ∧ ∃ c, v.agents x = some c)
    (hfits : ∀ x c, v'.agents x = some c → Fits doomed' x c) : Sealed v' marked' doomed' := by
  refine ⟨hcovers, fun x c hx => (hfits x c hx).closed, fun x c e hx => (hfits x c hx).closing e,
    fun x c p hx => (hfits x c hx).down p, fun x c hd hx => (hfits x c hx).dead hd, fun x hd => ?_, fun x hd => ?_⟩
  · obtain ⟨c, hx⟩ : ∃ c, v.agents x = some c := (hnew x hd).elim (hs.known x) (fun h => h.2)
    obtain ⟨c', hx', -⟩ := hgrows x c hx
    exact ⟨c', hx'⟩
  · rcases hnew x hd with hd | ⟨hm, -⟩
    · rcases hs.why x hd with hm | ⟨a, ca, ha, hstate, hunder⟩
      · exact .inl (hmarked x hm)
      · obtain ⟨c', ha', hg⟩ := hgrows a ca ha
        exact .inr ⟨a, c', ha', hg.closed hstate, hunder.of_grows hgrows⟩
    · exact .inl hm

theorem sealed_set
    (hid : v.agents id = some c) (hout : ¬ doomed id) (hclosed : state ≠ .closed) (hclosing : ∀ e, state ≠ .closing e) :
    Sealed { v.set id { c with state := state } with mailbox := mailbox } marked doomed := by
  refine hs.grow (set_grows hid (fun hc => absurd (hs.closed id c hid hc) hout)) (fun _ h => h) hs.covers
    (fun _ => .inl) (fun x cx hx => ?_)
  rcases get_set hx with ⟨rfl, rfl⟩ | ⟨-, hx⟩
  · exact ⟨fun h => absurd h hclosed, fun e h => absurd h (hclosing e), (hs.fits hid).down, fun h => absurd h hout⟩
  · exact hs.fits hx

theorem sealed_set_inside (hid : v.agents id = some c) (hin : doomed id) (hdead : state.isLive = false)
    (hclosed : c.state = .closed → state = .closed) :
    Sealed { v.set id { c with state := state } with mailbox := mailbox } marked doomed := by
  refine hs.grow (set_grows hid hclosed) (fun _ h => h) hs.covers (fun _ => .inl) (fun x cx hx => ?_)
  rcases get_set hx with ⟨rfl, rfl⟩ | ⟨-, hx⟩
  · exact ⟨fun _ => hin, fun _ _ => hin, fun _ _ _ => hin, fun _ => hdead⟩
  · exact hs.fits hx

end

theorem Scene.Under.known (h : v.Under top x) (htop : ∃ c, v.agents top = some c) : ∃ c, v.agents x = some c := by
  cases h with
  | self => exact htop
  | child hx => exact ⟨_, hx⟩

/-- The sealed part grows by everything below an agent that is closed on reconciliation. -/
theorem sealed_stop (hs : Sealed v marked doomed) (hid : v.agents id = some c) (hcare : Careful v marked id true) :
    Sealed { v.set id { c with state := .closed } with mailbox := mailbox } marked
      (fun x => doomed x ∨ v.Under id x) := by
  have hinside : Sealed v (fun x => marked x ∨ v.Under id x) (fun x => doomed x ∨ v.Under id x) := by
    refine ⟨fun x hm => hm.imp (hs.covers x) (fun h => h), fun x cx hx h => .inl (hs.closed x cx hx h),
      fun x cx e hx h => .inl (hs.closing x cx e hx h), fun x cx p hx hp hd => ?_, fun x cx hd hx => ?_,
      fun x hd => ?_, fun x hd => ?_⟩
    · exact hd.imp (hs.down x cx p hx hp) (fun h => .child hx hp h)
    · exact hd.elim (fun hd => hs.dead x cx hd hx) (fun hu => hcare x cx hu hx)
    · exact hd.elim (hs.known x) (fun hu => hu.known ⟨c, hid⟩)
    · rcases hd with hd | hu
      · exact (hs.why x hd).imp .inl (fun h => h)
      · exact .inl (.inr hu)
  have hset : Sealed { v.set id { c with state := .closed } with mailbox := mailbox }
      (fun x => marked x ∨ v.Under id x) (fun x => doomed x ∨ v.Under id x) :=
    sealed_set_inside hinside hid (.inr .self) rfl (fun _ => rfl)
  refine ⟨fun x hm => hset.covers x (.inl hm), hset.closed, hset.closing, hset.down, hset.dead, hset.known,
    fun x hd => ?_⟩
  rcases hset.why x hd with (hm | hu) | hclosed
  · exact .inl hm
  · exact .inr ⟨id, _, Scene.set_self .., rfl, hu.of_grows (set_grows hid (fun _ => rfl))⟩
  · exact .inr hclosed

theorem sealed_close (hs : Sealed v marked doomed) {ids : List AgentId}
    (hids : ∀ id ∈ ids, ∃ c, v.agents id = some c ∧ ∀ epoch, c.state ≠ .recoveryRequired epoch)
    (hdown : ∀ x c p, v.agents x = some c → c.parentId = some p → p ∈ ids → x ∈ ids ∨ c.state = .closed) :
    Sealed (v.close ids) (fun x => marked x ∨ x ∈ ids) (fun x => doomed x ∨ x ∈ ids) := by
  have hknown : ∀ x, x ∈ ids → ∃ c, v.agents x = some c := fun x hx => (hids x hx).imp fun _ h => h.1
  refine hs.grow (fun x c hx => Scene.close_grows ids hx) (fun _ => .inl)
    (fun x hm => hm.imp (hs.covers x) (fun h => h)) (fun x hd => hd.imp (fun h => h) (fun h => ⟨.inr h, hknown x h⟩))
    (fun x cx hx => ?_)
  obtain ⟨c, hc, rfl⟩ := Option.map_eq_some_iff.1 hx
  have hfit := hs.fits hc
  by_cases hm : x ∈ ids
  · rw [if_pos hm]
    refine ⟨fun _ => .inr hm, fun _ _ => .inr hm, fun _ _ _ => .inr hm, fun _ => ?_⟩
    cases c.state <;> simp [closedTo, AgentState.isLive]
  · rw [if_neg hm]
    refine ⟨fun h => .inl (hfit.closed h), fun e h => .inl (hfit.closing e h), fun p hp hd => ?_,
      fun hd => hfit.dead (hd.resolve_right hm)⟩
    rcases hd with hd | hd
    · exact .inl (hfit.down p hp hd)
    · exact .inl (hfit.closed ((hdown x c p hc hp hd).resolve_left hm))

theorem quarantined_live (h : (Controller.quarantined state).isLive = true) : state.isLive = true := by
  cases state <;> first | exact h | cases h

theorem sealed_quarantine (hs : Sealed v marked doomed) : Sealed v.quarantine marked doomed := by
  refine hs.grow (fun x c hx => Scene.quarantine_grows hx) (fun _ h => h) hs.covers (fun _ => .inl) (fun x cx hx => ?_)
  obtain ⟨c, hc, rfl⟩ := Option.map_eq_some_iff.1 hx
  have hfit := hs.fits hc
  refine ⟨fun hstate => hfit.closed ?_, fun e hstate => ?_, hfit.down, fun hd => Bool.eq_false_iff.2 (fun hlive => ?_)⟩
  · cases hst : c.state <;> simp [hst, Controller.quarantined] at hstate ⊢
  · cases hst : c.state <;> simp [hst, Controller.quarantined] at hstate
  · have hdead := hfit.dead hd
    rw [quarantined_live hlive] at hdead
    cases hdead

theorem sealed_add (hs : Sealed v marked doomed) {parent : AgentId} {paths : List String}
    (hfresh : v.agents id = none) (hparent : v.agents parent = some c) (hlive : c.state.isLive = true) :
    Sealed (v.set id ⟨.idle, some parent, paths⟩) marked doomed := by
  have hout : ¬ doomed id := by
    intro hd
    obtain ⟨c, hc⟩ := hs.known id hd
    rw [hfresh] at hc
    cases hc
  have hparentOut : ¬ doomed parent := by
    intro hd
    have hdead := hs.dead parent c hd hparent
    rw [hlive] at hdead
    cases hdead
  refine hs.grow (fun x cx hx => ⟨cx, ?_, rfl, rfl, fun h => h⟩) (fun _ h => h) hs.covers (fun _ => .inl)
    (fun x cx hx => ?_)
  · rw [Scene.set_of_ne]
    · exact hx
    · intro he
      rw [he, hfresh] at hx
      cases hx
  · rcases get_set hx with ⟨rfl, rfl⟩ | ⟨-, hx⟩
    · refine ⟨fun h => ?_, fun e h => ?_, fun p hp hd => absurd (Option.some.inj hp ▸ hd) hparentOut,
        fun h => absurd h hout⟩
      · cases h
      · cases h
    · exact hs.fits hx

theorem Sealed.congr {marked' : AgentId → Prop} (hs : Sealed v marked doomed) (h : ∀ x, marked x ↔ marked' x) :
    Sealed v marked' doomed :=
  ⟨fun x hm => hs.covers x ((h x).2 hm), hs.closed, hs.closing, hs.down, hs.dead, hs.known,
    fun x hd => (hs.why x hd).imp (h x).1 id⟩

theorem markedBy_quiet (hl : l.isMajor = false) (x : AgentId) : marked x ↔ markedBy marked l x := by
  constructor
  · exact .inl
  · rintro (hm | ⟨_, rfl, -⟩)
    · exact hm
    · cases hl

/-- **A move keeps the sealed part sealed** unless it is a careless reconciliation. -/
theorem sealed_move (hs : Sealed v marked doomed) (h : Move H v l v')
    (hcare : ∀ id close, l = .stop id close → Careful v marked id close) :
    ∃ doomed', Sealed v' (markedBy marked l) doomed' := by
  have hquiet : ∀ {v' : Scene}, l.isMajor = false → Sealed v' marked doomed →
      ∃ doomed', Sealed v' (markedBy marked l) doomed' := fun hl h => ⟨doomed, h.congr (markedBy_quiet hl)⟩
  have hlive : ∀ {x : AgentId} {c : Core}, v.agents x = some c → c.state.isLive = true → ¬ doomed x := by
    intro x c hx hl hd
    have hdead := hs.dead x c hd hx
    rw [hl] at hdead
    cases hdead
  have hmail : ∀ mailbox, Sealed { v with mailbox := mailbox } marked doomed := by
    intro mailbox
    refine ⟨hs.covers, hs.closed, hs.closing, hs.down, hs.dead, hs.known, fun x hd => ?_⟩
    refine (hs.why x hd).imp id (fun ⟨a, c, ha, hc, hu⟩ => ⟨a, c, ha, hc, ?_⟩)
    exact Scene.Under.of_grows (v := v) (fun y cy hy => ⟨cy, hy, rfl, rfl, fun h => h⟩) hu
  cases h with
  | post => exact hquiet rfl (hmail _)
  | deliver => exact hquiet rfl (hmail _)
  | consume => exact hquiet rfl (hmail _)
  | add hfresh hparent hparentLive => exact hquiet rfl (sealed_add hs hfresh hparent hparentLive)
  | start hagent hidle =>
    exact hquiet rfl (sealed_set hs hagent (hlive hagent (by rw [hidle]; rfl)) (by simp) (by simp))
  | interrupt hagent hrun =>
    exact hquiet rfl (sealed_set hs hagent (hlive hagent (by rw [hrun]; rfl)) (by simp) (by simp))
  | quarantine => exact hquiet rfl (sealed_quarantine hs)
  | close hids hdown =>
    refine ⟨_, (sealed_close hs hids hdown).congr (fun x => or_congr Iff.rfl ?_)⟩
    exact ⟨fun hx => ⟨_, rfl, hx⟩, fun ⟨_, he, hx⟩ => by cases he; exact hx⟩
  | @settle id epoch task known c hagent hepoch hstop =>
    refine hquiet rfl ?_
    by_cases hd : doomed id
    · -- a sealed agent that executes is closing
      have hdead := hs.dead id c hd hagent
      refine sealed_set_inside hs hagent hd ?_ (fun hc => ?_)
      · cases hstate : c.state with
        | closing e => cases known <;> rfl
        | recoveryRequired e =>
          rw [hstate] at hepoch hstop
          cases hstop (congrArg AgentState.recoveryRequired (Option.some.inj hepoch))
        | closed =>
          rw [hstate] at hepoch
          cases hepoch
        | _ =>
          rw [hstate] at hdead
          cases hdead
      · rw [hc] at hepoch
        cases hepoch
    · have hclosing : ∀ e, c.state ≠ .closing e := fun e he => hd (hs.closing id c e hagent he)
      refine sealed_set hs hagent hd ?_ (fun e => ?_) <;> cases hstate : c.state <;> cases known <;>
        simp_all [finishedState]
  | @stop id epoch task close c hagent hstop =>
    have hcareful := hcare id close rfl
    cases close with
    | true => exact ⟨_, (sealed_stop hs hagent hcareful).congr (fun x => ⟨.inl, fun h => h.resolve_right (by simp)⟩)⟩
    | false =>
      refine ⟨doomed, Sealed.congr (sealed_set hs hagent (fun hd => ?_) (by simp) (by simp)) (fun x =>
        ⟨.inl, fun h => h.resolve_right (by simp)⟩)⟩
      rcases hs.why id hd with hm | ⟨a, ca, ha, hclosed, hunder⟩
      · exact hcareful.1 hm
      · exact hcareful.2 a ca ha hclosed hunder

/-! ## Runs -/

/-- A close was accepted for the agent: it is durable, and the agent was named or, in a subtree close, below the named. -/
def Entry.closes (entry : Entry) (id : AgentId) : Bool :=
  entry.stored.isSome && match entry.call with
    | .execute _ _ (.close agentId includeDescendants) _ =>
      (entry.before.closeTargets agentId includeDescendants).contains id
    | _ => false

def World.closeAccepted (w : World) (id : AgentId) : Prop := ∃ entry ∈ w.log, entry.closes id = true

instance (w : World) (id : AgentId) : Decidable (w.closeAccepted id) :=
  inferInstanceAs (Decidable (∃ entry ∈ w.log, entry.closes id = true))

def Event.careful (w : World) : Event → Prop
  | .call (.reconcileStopped id _ _ false _) _ => ¬ w.closeAccepted id ∧ ∀ s, w.durable = some s →
      ∀ (a : AgentId) (r : AgentRecord), s.agents[a]? = some r → r.view.state = .closed → ¬ Within s a id
  | .call (.reconcileStopped id _ _ true _) _ => ∀ s, w.durable = some s →
      ∀ (x : AgentId) (r : AgentRecord), Within s id x → s.agents[x]? = some r → r.view.state.isLive = false
  | _ => True

def CarefulRun (H : Hashes) (es : List Event) : Prop :=
  ∀ before e after, es = before ++ e :: after → e.careful (World.run H before)

/-- The law of closes in one state: neither an agent that a close was accepted for nor one below a closed agent works. -/
def CloseLaw (w : World) : Prop := ∀ s, w.durable = some s →
  (∀ (x : AgentId) (r : AgentRecord), w.closeAccepted x → s.agents[x]? = some r → r.view.state.isLive = false) ∧
    ∀ (a x : AgentId) (ra r : AgentRecord), s.agents[a]? = some ra → ra.view.state = .closed → Within s a x →
      s.agents[x]? = some r → r.view.state.isLive = false

/-- What is durable is sealed, or nothing is durable and no close was accepted. -/
def SealedWorld (w : World) : Prop :=
  (∀ s, w.durable = some s → ∃ doomed, Sealed s.scene w.closeAccepted doomed) ∧
    (w.durable = none → ∀ x, ¬ w.closeAccepted x)

theorem sealed_genesis (config : AgentControllerConfig) (hmarked : ∀ x, ¬ marked x) :
    Sealed (Controller.genesis config).scene marked (fun _ => False) := by
  have hidle : ∀ x c, (Controller.genesis config).scene.agents x = some c → c.state = .idle := by
    intro x c hx
    obtain ⟨r, hr, rfl⟩ := Option.map_eq_some_iff.1 hx
    rcases Table.insert_eq_some hr with ⟨-, rfl⟩ | ⟨-, hnone⟩
    · rfl
    · cases hnone
  refine ⟨fun x hm => absurd hm (hmarked x), fun x c hx hc => ?_, fun x c e hx hc => ?_, fun _ _ _ _ _ h => h.elim,
    fun _ _ h => h.elim, fun _ h => h.elim, fun _ h => h.elim⟩
  · rw [hidle x c hx] at hc
    cases hc
  · rw [hidle x c hx] at hc
    cases hc

variable {w : World} {entry : Entry}

theorem closeAccepted_cons {w' : World} (h : w'.log = entry :: w.log) (x : AgentId) :
    w'.closeAccepted x ↔ w.closeAccepted x ∨ entry.closes x = true := by
  simp only [World.closeAccepted, h, List.mem_cons]
  constructor
  · rintro ⟨e, rfl | he, hc⟩
    · exact .inr hc
    · exact .inl ⟨e, he, hc⟩
  · rintro (⟨e, he, hc⟩ | hc)
    · exact ⟨e, .inr he, hc⟩
    · exact ⟨entry, .inl rfl, hc⟩

theorem sealed_moves_quiet {ls : List Label} (h : Moves H v ls v') : ∀ {doomed : AgentId → Prop},
    Sealed v marked doomed → ls.filter Label.isMajor = [] → ∃ doomed', Sealed v' marked doomed' := by
  induction h with
  | nil => exact fun hs _ => ⟨_, hs⟩
  | @cons v _ _ l ls hmove _ ih =>
    intro doomed hs hquiet
    have hl : l.isMajor = false := by
      cases hm : l.isMajor with
      | false => rfl
      | true => simp [hm] at hquiet
    obtain ⟨_, hs1⟩ := sealed_move hs hmove (fun id close he => by rw [he] at hl; cases hl)
    refine ih (hs1.congr (fun x => (markedBy_quiet hl x).symm)) ?_
    rw [List.filter_cons_of_neg (by simp [hl])] at hquiet
    exact hquiet

theorem closes_iff {s' : AgentControllerSnapshot} {call : Call} {reply : Except ControllerError Reply} (x : AgentId) :
    Entry.closes ⟨call, s, some s', reply⟩ x = true ↔ ∃ ids, .close ids ∈ call.labels s ∧ x ∈ ids := by
  simp only [Entry.closes, Option.isSome_some, Bool.true_and, Call.labels]
  split
  · rw [List.contains_iff_mem]
    refine ⟨fun hx => ⟨_, List.mem_singleton.2 rfl, hx⟩, fun ⟨ids, hids, hx⟩ => ?_⟩
    injection List.mem_singleton.1 hids with hids
    exact hids ▸ hx
  · rename_i hnot
    refine ⟨fun h => (by cases h), fun ⟨ids, hids, hx⟩ => ?_⟩
    split at hids
    · cases hnot _ _ _ _ _ rfl
    · cases List.mem_singleton.1 hids
    · cases hids

theorem labels_cases (s : AgentControllerSnapshot) (call : Call) : (∃ ids, call.labels s = [.close ids]) ∨
    (∃ id epoch known close usage, call = .reconcileStopped id epoch known close usage ∧
      call.labels s = [.stop id close]) ∨ call.labels s = [] := by
  unfold Call.labels
  split
  · exact .inl ⟨_, rfl⟩
  · exact .inr (.inl ⟨_, _, _, _, _, rfl, rfl⟩)
  · exact .inr (.inr rfl)

variable {e : Event}

theorem step_log (h : (w.step H e).log = entry :: w.log) : ∃ outcome, e = .call entry.call outcome := by
  cases e with
  | «open» => exact absurd (congrArg List.length h) (by simp [World.step])
  | call call outcome =>
    simp only [World.step] at h
    cases hlive : w.live with
    | none =>
      rw [hlive] at h
      exact absurd (congrArg List.length h) (by simp)
    | some c =>
      rw [hlive] at h
      injection h with hentry
      exact ⟨outcome, by rw [← hentry]⟩

theorem careful_stop {epoch : AgentEpoch}
    {known close : Bool} {usage : AgentUsage} {outcome : Outcome} (hs : w.durable = some s)
    (h : (Event.call (.reconcileStopped id epoch known close usage) outcome).careful w) :
    Careful s.scene w.closeAccepted id close := by
  cases close with
  | false =>
    refine ⟨h.1, fun a c ha hc hu => ?_⟩
    obtain ⟨r, hr, rfl⟩ := Option.map_eq_some_iff.1 ha
    exact h.2 s hs a r hr hc (under_iff_within.1 hu)
  | true =>
    intro x c hu hx
    obtain ⟨r, hr, rfl⟩ := Option.map_eq_some_iff.1 hx
    exact h s hs x r (under_iff_within.1 hu) hr

theorem sealed_step (hw : Coherent w) (hs : SealedWorld w) (hcare : e.careful w) : SealedWorld (w.step H e) := by
  have hsame : ∀ {w' : World}, w'.durable = w.durable → (∀ x, w.closeAccepted x ↔ w'.closeAccepted x) →
      SealedWorld w' := by
    intro w' hd hmark
    refine ⟨fun s hs' => ?_, fun hn x hx => ?_⟩
    · obtain ⟨doomed, hsealed⟩ := hs.1 s (hd ▸ hs')
      exact ⟨doomed, hsealed.congr hmark⟩
    · exact hs.2 (hd ▸ hn) x ((hmark x).2 hx)
  have hlogSame : ∀ {w' : World}, w'.log = w.log → ∀ x, w.closeAccepted x ↔ w'.closeAccepted x := by
    intro w' hl x
    rw [World.closeAccepted, World.closeAccepted, hl]
  cases step_advance (H := H) hw e with
  | still hdurable hlog => exact hsame hdurable (hlogSame hlog)
  | answer hdurable hlog =>
    refine hsame hdurable (fun x => ?_)
    rw [closeAccepted_cons hlog]
    exact ⟨.inl, fun h => h.resolve_right (by simp [Entry.closes])⟩
  | quarantine hbefore hvalid hafter hlog =>
    refine ⟨fun s hs' => ?_, fun hn => by rw [hafter] at hn; cases hn⟩
    cases hafter.symm.trans hs'
    obtain ⟨doomed, hsealed⟩ := hs.1 _ hbefore
    rw [scene_quarantine]
    exact ⟨doomed, (sealed_quarantine hsealed).congr (hlogSame hlog)⟩
  | genesis hbefore hafter hlog =>
    refine ⟨fun s hs' => ?_, fun hn => by rw [hafter] at hn; cases hn⟩
    cases hafter.symm.trans hs'
    exact ⟨_, sealed_genesis _ (fun x hx => hs.2 hbefore x ((hlogSame hlog x).2 hx))⟩
  | @commit s _ call _ _ hbefore hprepare hvalid hafter _ hlog _ =>
    refine ⟨fun s1 hs1 => ?_, fun hn => by rw [hafter] at hn; cases hn⟩
    cases hafter.symm.trans hs1
    obtain ⟨doomed, hsealed⟩ := hs.1 s hbefore
    obtain ⟨_, ⟨ls, hmoves, hmajor, -⟩, -⟩ := commit_moves (hw.sound s hbefore) hprepare
    have hmark : ∀ x, (w.closeAccepted x ∨ ∃ ids, .close ids ∈ call.labels s ∧ x ∈ ids) ↔
        (w.step H e).closeAccepted x := by
      intro x
      rw [closeAccepted_cons hlog, closes_iff]
    obtain ⟨_, rfl⟩ := step_log hlog
    rcases labels_cases s call with ⟨ids, hlabels⟩ | ⟨id, _, _, close, _, rfl, hlabels⟩ | hlabels
    · have hone : ls = [.close ids] := (hmajor.resolve_right (by rw [hlabels]; simp)).trans hlabels
      subst hone
      obtain ⟨doomed', hsealed'⟩ := sealed_move hsealed hmoves.single (fun id close he => by cases he)
      refine ⟨doomed', hsealed'.congr (fun x => Iff.trans (or_congr Iff.rfl ?_) (hmark x))⟩
      rw [hlabels]
      exact ⟨fun ⟨ids, he, hx⟩ => ⟨ids, List.mem_singleton.2 he.symm, hx⟩,
        fun ⟨ids, he, hx⟩ => ⟨ids, (List.mem_singleton.1 he).symm, hx⟩⟩
    · have hone : ls = [.stop id close] := (hmajor.resolve_right (by rw [hlabels]; simp)).trans hlabels
      subst hone
      obtain ⟨doomed', hsealed'⟩ := sealed_move hsealed hmoves.single (fun id close he => by
        cases he
        exact careful_stop hbefore hcare)
      refine ⟨doomed', hsealed'.congr (fun x => Iff.trans (or_congr Iff.rfl ?_) (hmark x))⟩
      exact ⟨fun ⟨ids, he, hx⟩ => (by cases he), fun ⟨ids, he, hx⟩ => (by cases List.mem_singleton.1 he)⟩
    · have hquiet : ls.filter Label.isMajor = [] := by
        rcases hmajor with rfl | ⟨-, hquiet⟩
        · rw [hlabels]
          rfl
        · exact hquiet
      obtain ⟨doomed', hsealed'⟩ := sealed_moves_quiet hmoves hsealed hquiet
      refine ⟨doomed', hsealed'.congr (fun x => Iff.trans ?_ (hmark x))⟩
      rw [hlabels]
      exact ⟨.inl, fun h => h.resolve_right (fun ⟨ids, he, _⟩ => (by cases he))⟩

variable {es : List Event}

theorem CarefulRun.init (h : CarefulRun H (es ++ [e])) : CarefulRun H es ∧ e.careful (World.run H es) := by
  refine ⟨fun before e' after he => h before e' (after ++ [e]) ?_, h es e [] rfl⟩
  rw [he, List.append_assoc]
  rfl

theorem sealed_run (h : CarefulRun H es) : SealedWorld (World.run H es) := by
  induction es using List.reverseRecOn with
  | nil => exact ⟨fun s hs => (by cases hs), fun _ x ⟨e, he, _⟩ => (by cases he)⟩
  | append_singleton es e ih =>
    rw [World.run_append]
    exact sealed_step (coherent_run es) (ih h.init.1) h.init.2

/-- **Accepted closes are kept**: in every run whose reconciliations are careful, no agent a close was accepted for and no
agent below a closed one is ever idle, running or interrupting again. -/
theorem close_irrevocable (H : Hashes) (es : List Event) (h : CarefulRun H es) : CloseLaw (World.run H es) := by
  intro s hs
  obtain ⟨doomed, hsealed⟩ := (sealed_run h).1 s hs
  refine ⟨fun x r hx hr => hsealed.dead x r.core (hsealed.covers x hx) (scene_agents hr),
    fun a x ra r ha hclosed hwithin hr => ?_⟩
  refine hsealed.dead x r.core ?_ (scene_agents hr)
  have hbelow : ∀ {x : AgentId}, Within s a x → doomed x := by
    intro x hw
    induction hw with
    | self => exact hsealed.closed a ra.core (scene_agents ha) hclosed
    | child id parent r hr hp _ ih => exact hsealed.down id r.core parent (scene_agents hr) hp ih
  exact hbelow hwithin

theorem CarefulRun.append (h : CarefulRun H es) (he : e.careful (World.run H es)) : CarefulRun H (es ++ [e]) := by
  intro before e' after heq
  rcases List.eq_nil_or_concat after with rfl | ⟨after', _, rfl⟩
  · obtain ⟨rfl, hlast⟩ := List.append_inj' heq rfl
    rw [← (List.cons.inj hlast).1]
    exact he
  · rw [List.concat_eq_append, ← List.cons_append, ← List.append_assoc] at heq
    obtain ⟨rfl, -⟩ := List.append_inj' heq rfl
    exact h before e' after' rfl

/-- The worker's process dies, and it is taken back to work. -/
def resumedWorker : List Event :=
  startedWorker ++ [openSample] ++ [Event.call (.reconcileStopped 2 ⟨1, 1⟩ true false {}) .done]

theorem close_irrevocable_resumedWorker :
    CarefulRun workerHashes (resumedWorker ++ [.call (.execute .operator "close" closeWorker none) .done]) ∧
      CloseLaw (World.run workerHashes (resumedWorker ++ [.call (.execute .operator "close" closeWorker none) .done])) := by
  have hnil : CarefulRun workerHashes [] := fun before e after he => (by simp at he)
  have hstarted : CarefulRun workerHashes (startedWorker ++ [openSample]) :=
    ((((hnil.append (e := openSample) trivial).append (e := .call (.execute .operator "spawn" spawnWorker none) .done)
      trivial).append (e := .call (.beginTurn 2 none) .done) trivial).append (e := openSample) trivial)
  have hresumed : CarefulRun workerHashes resumedWorker := by
    refine hstarted.append ⟨by decide +kernel, fun s hs a r hr hclosed => ?_⟩
    have hstates : (World.run workerHashes (startedWorker ++ [openSample])).durable.map
        (fun s => (Table.vals s.agents).map (fun r => r.view.state)) = some [.idle, .recoveryRequired ⟨1, 1⟩] := by
      rfl
    rw [hs, Option.map_some, Option.some.injEq] at hstates
    have hmem := List.mem_map_of_mem (f := fun r => r.view.state) ((Table.mem_vals s.agents r).2 ⟨a, hr⟩)
    rw [hstates, hclosed] at hmem
    simp at hmem
  have hcareful := hresumed.append (e := .call (.execute .operator "close" closeWorker none) .done) trivial
  exact ⟨hcareful, close_irrevocable workerHashes _ hcareful⟩

/-- The worker is closed while it runs, its process dies, and it is taken back to work. -/
def revivedWorker : List Event :=
  startedWorker ++ [.call (.execute .operator "close" closeWorker none) .done, openSample,
    .call (.reconcileStopped 2 ⟨1, 1⟩ true false {}) .done]

/-- **An accepted close can be lost.** -/
theorem not_closeLaw_revivedWorker : ¬ CloseLaw (World.run workerHashes revivedWorker) := by
  intro hlaw
  obtain ⟨hstate, haccepted⟩ : (World.run workerHashes revivedWorker).stateOf 2 = some .idle ∧
      (World.run workerHashes revivedWorker).closeAccepted 2 := by
    decide +kernel
  obtain ⟨s, hs, hr⟩ := Option.bind_eq_some_iff.1 hstate
  obtain ⟨r, hr, hidle⟩ := Option.map_eq_some_iff.1 hr
  have hdead := (hlaw s hs).1 2 r haccepted hr
  rw [hidle] at hdead
  cases hdead

end Iteron.Agents
