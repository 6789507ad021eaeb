import Iteron.AgentController
import Iteron.AgentTree
/-!
# AgentMoves — what a call can do to the agents and the mailbox

A snapshot is read as a scene: the state, the parent and the write paths of each agent, and the mailbox.  Every call that
commits is a short sequence of moves of the scene (`commit_moves`), and so is the quarantine of a fresh process; what
holds over runs is then shown move by move.
-/
namespace Iteron.Agents

open Refuse AgentControllerSnapshot

structure Core where
  state : AgentState
  parentId : Option AgentId
  writePaths : List String

def AgentRecord.core (r : AgentRecord) : Core := ⟨r.view.state, r.view.parentId, r.view.writePaths⟩

structure Scene where
  agents : AgentId → Option Core
  mailbox : AgentMailbox

def AgentControllerSnapshot.scene (s : AgentControllerSnapshot) : Scene :=
  ⟨fun id => s.agents[id]?.map AgentRecord.core, s.mailbox⟩

def AgentState.isLive : AgentState → Bool
  | .idle | .running _ | .interrupting _ => true
  | _ => false

/-- The state an accepted close leaves; a quarantined agent is not closed. -/
def closedTo : AgentState → AgentState
  | .idle | .closed => .closed
  | .running epoch | .interrupting epoch | .closing epoch => .closing epoch
  | .recoveryRequired epoch => .recoveryRequired epoch

namespace Scene

def set (v : Scene) (id : AgentId) (c : Core) : Scene := { v with agents := Function.update v.agents id (some c) }

@[simp] theorem set_self (v : Scene) (id : AgentId) (c : Core) : (v.set id c).agents id = some c := Function.update_self ..

theorem set_of_ne {v : Scene} {id x : AgentId} (c : Core) (h : x ≠ id) : (v.set id c).agents x = v.agents x :=
  Function.update_of_ne h _ _

/-- The agents of a list are closed, and what they had not yet taken is rejected. -/
def close (v : Scene) (ids : List AgentId) : Scene where
  agents := fun id => (v.agents id).map (fun c => if id ∈ ids then { c with state := closedTo c.state } else c)
  mailbox := v.mailbox.rejectWhere (fun m => ids.contains m.receiver && m.state == .accepted)

theorem close_agents (v : Scene) (ids : List AgentId) (id : AgentId) : (v.close ids).agents id =
    (v.agents id).map (fun c => if id ∈ ids then { c with state := closedTo c.state } else c) := rfl

def quarantine (v : Scene) : Scene :=
  { v with agents := fun id => (v.agents id).map (fun c => { c with state := Controller.quarantined c.state }) }

theorem quarantine_agents (v : Scene) (id : AgentId) : v.quarantine.agents id =
    (v.agents id).map (fun c => { c with state := Controller.quarantined c.state }) := rfl

end Scene

/-- What a move shows outside: messages handed out, agents closed, a stopped agent reconciled. -/
inductive Label where
  | silent
  | handOut (messages : List AgentMailboxMessage)
  | close (ids : List AgentId)
  | stop (id : AgentId) (close : Bool)

def Label.handedOut : Label → List AgentMailboxMessage
  | .handOut messages => messages
  | _ => []

def Label.isHandOut : Label → Bool
  | .handOut _ => true
  | _ => false

inductive Move (H : Hashes) (v : Scene) : Label → Scene → Prop
  | post {sender : Option AgentId} {receiver : AgentId} {text : String} {kind : AgentMessageKind}
      {expected : Option AgentEpoch} {mailbox : AgentMailbox} {id : MessageId} {c : Core}
      (hagent : v.agents receiver = some c) (hlive : c.state.isLive = true)
      (hkind : kind = .steer ↔ expected.isSome = true) (hsteer : ∀ epoch, expected = some epoch → c.state = .running epoch)
      (h : v.mailbox.enqueue H sender receiver text kind expected = .ok (mailbox, id)) :
      Move H v .silent { v with mailbox := mailbox }
  | add {id parent : AgentId} {paths : List String} {c : Core} (hfresh : v.agents id = none)
      (hparent : v.agents parent = some c) (hlive : c.state.isLive = true)
      (hclear : ∀ x cx, v.agents x = some cx → x ≠ parent → cx.parentId.isSome = true → cx.state ≠ .closed →
        overlaps paths cx.writePaths = false) :
      Move H v .silent (v.set id ⟨.idle, some parent, paths⟩)
  | start {id : AgentId} {e : AgentEpoch} {c : Core} (hagent : v.agents id = some c) (hidle : c.state = .idle) :
      Move H v .silent (v.set id { c with state := .running e })
  | interrupt {id : AgentId} {epoch : AgentEpoch} {c : Core} (hagent : v.agents id = some c)
      (hrun : c.state = .running epoch) : Move H v .silent (v.set id { c with state := .interrupting epoch })
  | close {ids : List AgentId}
      (hids : ∀ id ∈ ids, ∃ c, v.agents id = some c ∧ ∀ epoch, c.state ≠ .recoveryRequired epoch)
      (hdown : ∀ x c p, v.agents x = some c → c.parentId = some p → p ∈ ids → x ∈ ids ∨ c.state = .closed) :
      Move H v (.close ids) (v.close ids)
  | deliver {c : Core} (id : AgentId) (epoch : AgentEpoch) (task : Option MessageId) (starting : Bool)
      (hagent : v.agents id = some c) (hrun : c.state = .running epoch) :
      Move H v (.handOut (v.mailbox.deliver id epoch task starting).2)
        { v with mailbox := (v.mailbox.deliver id epoch task starting).1 }
  | consume {id : AgentId} {epoch : AgentEpoch} {ids : List MessageId} {mailbox : AgentMailbox} {c : Core}
      (hagent : v.agents id = some c) (hrun : c.state = .running epoch)
      (h : v.mailbox.markConsumed id epoch ids = .ok mailbox) : Move H v .silent { v with mailbox := mailbox }
  | settle {id : AgentId} {epoch : AgentEpoch} {t : Option MessageId} {k : Bool} {c : Core}
      (hagent : v.agents id = some c) (hepoch : c.state.epoch = some epoch)
      (hstop : c.state ≠ .recoveryRequired epoch) :
      Move H v .silent { v.set id { c with state := finishedState epoch k c.state } with
        mailbox := v.mailbox.settleEpoch id epoch t }
  | stop {id : AgentId} {epoch : AgentEpoch} {t : Option MessageId} {b : Bool} {c : Core}
      (hagent : v.agents id = some c) (hstop : c.state = .recoveryRequired epoch) :
      Move H v (.stop id b) { v.set id { c with state := if b then .closed else .idle } with
        mailbox := v.mailbox.reconcile id t b }
  | quarantine : Move H v .silent v.quarantine

inductive Moves (H : Hashes) : Scene → List Label → Scene → Prop
  | nil (v : Scene) : Moves H v [] v
  | cons {v v1 v2 : Scene} {l : Label} {ls : List Label} (h : Move H v l v1) (hs : Moves H v1 ls v2) :
      Moves H v (l :: ls) v2

variable {v v' : Scene} {l : Label}

theorem Moves.one {H : Hashes} (h : Move H v l v') : Moves H v [l] v' := .cons h (.nil v')

theorem Moves.single {H : Hashes} (h : Moves H v [l] v') : Move H v l v' := by
  cases h with
  | cons hmove hnil =>
    cases hnil
    exact hmove

def Call.labels (s : AgentControllerSnapshot) : Call → List Label
  | .execute _ _ (.close id includeDescendants) _ => [.close (s.closeTargets id includeDescendants)]
  | .reconcileStopped id _ _ close _ => [.stop id close]
  | _ => []

def Label.isMajor : Label → Bool
  | .close _ | .stop _ _ => true
  | _ => false

/-! ## What no move changes -/

variable {H : Hashes} {s : AgentControllerSnapshot}

/-- A core at a later time: the same place in the tree, and closed for good. -/
structure Core.Grows (c c' : Core) : Prop where
  parentId : c'.parentId = c.parentId
  writePaths : c'.writePaths = c.writePaths
  closed : c.state = .closed → c'.state = .closed

variable {x : AgentId} {c : Core}

theorem Scene.close_grows (ids : List AgentId) (hx : v.agents x = some c) :
    ∃ c', (v.close ids).agents x = some c' ∧ c.Grows c' := by
  refine ⟨_, by rw [Scene.close_agents, hx]; rfl, ?_⟩
  split
  · refine ⟨rfl, rfl, fun hc => ?_⟩
    change closedTo c.state = .closed
    rw [hc]
    rfl
  · exact ⟨rfl, rfl, fun h => h⟩

theorem Scene.quarantine_grows (hx : v.agents x = some c) : ∃ c', v.quarantine.agents x = some c' ∧ c.Grows c' := by
  refine ⟨{ c with state := Controller.quarantined c.state }, by rw [Scene.quarantine_agents, hx]; rfl, rfl, rfl,
    fun hc => ?_⟩
  rw [hc]
  rfl

theorem move_core (h : Move H v l v') (hx : v.agents x = some c) : ∃ c', v'.agents x = some c' ∧ c.Grows c' := by
  have hset : ∀ {id : AgentId} {c0 : Core} (state : AgentState), v.agents id = some c0 →
      (c0.state = .closed → state = .closed) →
      ∃ c', (v.set id { c0 with state := state }).agents x = some c' ∧ c.Grows c' := by
    intro id c0 state hid hclosed
    by_cases he : x = id
    · subst he
      cases hid.symm.trans hx
      exact ⟨_, Scene.set_self .., rfl, rfl, hclosed⟩
    · exact ⟨c, by rw [Scene.set_of_ne _ he, hx], rfl, rfl, fun h => h⟩
  have hsame : ∃ c', v.agents x = some c' ∧ c.Grows c' := ⟨c, hx, rfl, rfl, fun h => h⟩
  cases h with
  | post => exact hsame
  | deliver => exact hsame
  | consume => exact hsame
  | add hfresh =>
    refine ⟨c, ?_, rfl, rfl, fun h => h⟩
    rw [Scene.set_of_ne]
    · exact hx
    · intro he
      rw [he, hfresh] at hx
      cases hx
  | start hagent hidle => exact hset _ hagent (fun hc => (by rw [hidle] at hc; cases hc))
  | interrupt hagent hrun => exact hset _ hagent (fun hc => (by rw [hrun] at hc; cases hc))
  | settle hagent hepoch => exact hset _ hagent (fun hc => (by rw [hc] at hepoch; cases hepoch))
  | stop hagent hstop => exact hset _ hagent (fun hc => (by rw [hstop] at hc; cases hc))
  | quarantine => exact Scene.quarantine_grows hx
  | close => exact Scene.close_grows _ hx

/-! ## Snapshots with sound identities -/

structure Sound (s : AgentControllerSnapshot) : Prop where
  ids : ∀ (id : AgentId) (r : AgentRecord), s.agents[id]? = some r → r.view.agentId = id
  fresh : ∀ (id : AgentId) (r : AgentRecord), s.agents[id]? = some r → id < s.nextAgent
  root : ∀ (id : AgentId) (r : AgentRecord), s.agents[id]? = some r → (id = 1 ↔ r.view.parentId = none)
  ancestry : ∀ (id : AgentId) (r : AgentRecord), s.agents[id]? = some r →
    s.validateAncestry (maxHierarchyDepth + 1) id = .ok ()

theorem le_foldl_max : ∀ (l : List Nat) (b n : Nat), n ∈ l ∨ n ≤ b → n ≤ l.foldl max b
  | [], b, n, h => by simpa using h
  | a :: l, b, n, h => by
    refine le_foldl_max l (max b a) n ?_
    rcases h with h | h
    · rcases List.mem_cons.1 h with rfl | h
      · exact .inr (Nat.le_max_right _ _)
      · exact .inl h
    · exact .inr (Nat.le_trans h (Nat.le_max_left _ _))

theorem sound_of_valid (h : s.validateSnapshot H = .ok ()) : Sound s := by
  refine ⟨fun id r hr => ?_, fun id r hr => ?_, fun id r hr => (accepted_placed h hr).root,
    fun id r hr => (accepted_placed h hr).ancestry⟩
  · have hagent := accepted_agent h hr
    simp only [validateAgent, validateIdentity, bind_eq_ok, refuseIf_eq_ok, not_or] at hagent
    obtain ⟨_, ⟨_, hid, -⟩, -⟩ := hagent
    exact (not_not.1 hid.2.1).symm
  · simp only [validateSnapshot, bind_eq_ok, refuseIf_eq_ok, not_or, not_le] at h
    obtain ⟨_, -, _, -, _, -, _, -, _, henvelope, -⟩ := h
    have hkey : id ∈ s.agents.keys := by
      rw [Std.ExtTreeMap.mem_keys, Std.ExtTreeMap.mem_iff_isSome_getElem?, hr]
      rfl
    exact Nat.lt_of_le_of_lt (le_foldl_max s.agents.keys 0 id (.inl hkey)) henvelope.2.2.2.2.2

theorem sound_genesis (config : AgentControllerConfig) : Sound (Controller.genesis config) := by
  have hone : ∀ (id : AgentId) (r : AgentRecord), (Controller.genesis config).agents[id]? = some r →
      id = 1 ∧ r = newRecord 1 none "root" config config.rootCapabilities config.rootBudget [] := by
    intro id r hr
    rcases Table.insert_eq_some hr with ⟨rfl, rfl⟩ | ⟨-, hnone⟩
    · exact ⟨rfl, rfl⟩
    · cases hnone
  refine ⟨fun id r hr => ?_, fun id r hr => ?_, fun id r hr => ?_, fun id r hr => ?_⟩
  · obtain ⟨rfl, rfl⟩ := hone id r hr
    rfl
  · obtain ⟨rfl, rfl⟩ := hone id r hr
    exact Nat.lt_succ_self 1
  · obtain ⟨rfl, rfl⟩ := hone id r hr
    exact ⟨fun _ => rfl, fun _ => rfl⟩
  · have hrecord := hone id r hr
    simp only [validateAncestry, hr, orElseError, bind_eq_ok]
    refine ⟨r, rfl, ?_⟩
    rw [hrecord.2]
    rfl

theorem sound_quarantine (h : Sound s) (revision : Nat) : Sound { Controller.quarantine s with revision := revision } := by
  have hold : ∀ (id : AgentId) (r : AgentRecord), (Controller.quarantine s).agents[id]? = some r →
      ∃ r0, s.agents[id]? = some r0 ∧ r.view.agentId = r0.view.agentId ∧ r.view.parentId = r0.view.parentId := by
    intro id r hr
    rw [Controller.quarantine, Table.get_map, Option.map_eq_some_iff] at hr
    obtain ⟨r0, hr0, rfl⟩ := hr
    exact ⟨r0, hr0, rfl, rfl⟩
  refine ⟨fun id r hr => ?_, fun id r hr => ?_, fun id r hr => ?_, fun id r hr => ?_⟩
  · obtain ⟨r0, hr0, hid, -⟩ := hold id r hr
    rw [hid, h.ids id r0 hr0]
  · obtain ⟨r0, hr0, -, -⟩ := hold id r hr
    exact h.fresh id r0 hr0
  · obtain ⟨r0, hr0, -, hparent⟩ := hold id r hr
    rw [hparent]
    exact h.root id r0 hr0
  · obtain ⟨r0, hr0, -, -⟩ := hold id r hr
    have hstands : Stands s { Controller.quarantine s with revision := revision } := by
      intro x rx hx
      refine ⟨{ rx with view := { rx.view with state := Controller.quarantined rx.view.state } }, ?_, rfl, rfl, rfl, rfl⟩
      rw [Controller.quarantine, Table.get_map, hx]
      rfl
    exact hstands.ancestry (h.ancestry id r0 hr0)

/-! ## Scenes of updated snapshots -/

def sceneOf (agents : Std.ExtTreeMap AgentId AgentRecord) (mailbox : AgentMailbox) : Scene :=
  ⟨fun id => agents[id]?.map AgentRecord.core, mailbox⟩

theorem sceneOf_insert (agents : Std.ExtTreeMap AgentId AgentRecord) (mailbox : AgentMailbox) (id : AgentId)
    (r : AgentRecord) : sceneOf (agents.insert id r) mailbox = (sceneOf agents mailbox).set id r.core := by
  simp only [sceneOf, Scene.set, Scene.mk.injEq, and_true]
  funext x
  rw [Table.get_insert, Function.update_apply]
  by_cases hx : x = id
  · rw [if_pos hx, if_pos hx.symm, Option.map_some]
  · rw [if_neg hx, if_neg (Ne.symm hx)]

variable {id : AgentId}

theorem Scene.set_same (h : v.agents id = some c) : v.set id c = v := by
  rw [Scene.set, ← h, Function.update_eq_self]

variable {r r' : AgentRecord} {mailbox : AgentMailbox}

theorem sceneOf_insert_same {agents : Std.ExtTreeMap AgentId AgentRecord} (h : agents[id]? = some r)
    (hcore : r'.core = r.core) : sceneOf (agents.insert id r') mailbox = sceneOf agents mailbox := by
  rw [sceneOf_insert, hcore]
  exact Scene.set_same (by simp [sceneOf, h])

theorem scene_agents (h : s.agents[id]? = some r) : s.scene.agents id = some r.core := by
  simp [AgentControllerSnapshot.scene, h]

def HandsOut (ls : List Label) (out : List AgentMailboxMessage) : Prop :=
  ls.flatMap Label.handedOut = out ∧ ls.countP Label.isHandOut ≤ 1

/-- The moves are this close or reconciliation alone, or make none. -/
def Majors (ls major : List Label) : Prop := ls = major ∨ (major = [] ∧ ls.filter Label.isMajor = [])

/-- A commit is a sequence of moves that hands out these messages and makes these closes and reconciliations. -/
def Performs (H : Hashes) (s s' : AgentControllerSnapshot) (major : List Label) (out : List AgentMailboxMessage) : Prop :=
  ∃ ls, Moves H s.scene ls s'.scene ∧ Majors ls major ∧ HandsOut ls out

theorem Performs.quiet {s' : AgentControllerSnapshot} (h : s'.scene = s.scene) : Performs H s s' [] [] :=
  ⟨[], h ▸ .nil _, .inl rfl, ⟨rfl, Nat.zero_le _⟩⟩

theorem Performs.silent {s' : AgentControllerSnapshot} (h : Move H s.scene .silent s'.scene) : Performs H s s' [] [] :=
  ⟨[.silent], .one h, .inr ⟨rfl, rfl⟩, ⟨rfl, Nat.zero_le _⟩⟩

theorem checkOpen_ok (h : s.checkOpen id = .ok ()) : ∃ r, s.agents[id]? = some r ∧ r.view.state.isLive = true := by
  simp only [checkOpen, bind_eq_ok, orElseError_eq_ok] at h
  obtain ⟨r, hr, h⟩ := h
  refine ⟨r, hr, ?_⟩
  cases hs : r.view.state <;> rw [hs] at h <;> first | rfl | cases h

variable {epoch : AgentEpoch}

theorem checkRunning_ok (h : s.checkRunning id epoch = .ok ()) :
    ∃ r, s.agents[id]? = some r ∧ r.view.state = .running epoch := by
  simp only [checkRunning, bind_eq_ok, orElseError_eq_ok, refuseIf_eq_ok, not_not] at h
  exact h

theorem nextRevision_ok {revision next : Nat} (h : nextRevision revision = .ok next) : next = revision + 1 := by
  rw [nextRevision, orElseError_eq_ok, Option.filter_eq_some_iff] at h
  exact Machine.checkedAdd_eq_some h.1

variable {actor : AgentActor}
  {receiver : AgentId} {text : String} {kind : AgentMessageKind} {p : AgentControllerSnapshot × MessageId}

theorem enqueue_ok {expected : Option AgentEpoch} (h : s.enqueue H actor receiver text kind expected = .ok p) :
    ∃ mailbox, s.mailbox.enqueue H actor.sender receiver text kind expected = .ok (mailbox, p.2) ∧
      p.1 = { s with mailbox := mailbox } := by
  simp only [AgentControllerSnapshot.enqueue, bind_eq_ok, pure_eq_ok] at h
  obtain ⟨⟨mailbox, _⟩, hm, rfl⟩ := h
  exact ⟨mailbox, hm, rfl⟩

theorem enqueue_moves (hr : s.agents[receiver]? = some r) (hlive : r.view.state.isLive = true) (hkind : kind ≠ .steer)
    (h : s.enqueue H actor receiver text kind none = .ok p) :
    ∃ mailbox, p.1 = { s with mailbox := mailbox } ∧ Move H s.scene .silent { s.scene with mailbox := mailbox } := by
  obtain ⟨mailbox, hmail, hnext⟩ := enqueue_ok h
  exact ⟨mailbox, hnext, .post (scene_agents hr) hlive (by simp [hkind]) (fun e he => (by cases he)) hmail⟩

variable {turnsUsed : Nat} {started : Option Nat}

theorem startTurn_ok {task : MessageId} (h : startTurn r turnsUsed task started = .ok r') :
    r'.core = { r.core with state := .running (nextEpoch r) } := by
  simp only [startTurn, bind_eq_ok, pure_eq_ok] at h
  obtain ⟨_, -, rfl⟩ := h
  rfl

theorem reserve_ok {budget : AgentBudget} (h : reserve r budget = .ok r') : r'.core = r.core ∧ r'.view = r.view := by
  simp only [reserve, bind_eq_ok, pure_eq_ok] at h
  obtain ⟨_, -, _, -, _, -, _, -, rfl⟩ := h
  exact ⟨rfl, rfl⟩

/-! ## The calls, one by one -/

def Quiet (s : AgentControllerSnapshot) (s' : AgentControllerSnapshot) (reply : Except ControllerError Reply) : Prop :=
  s'.scene = s.scene ∧ s'.receipts = s.receipts ∧ ∀ r, reply = .ok r → r = .done

variable {s' : AgentControllerSnapshot} {reply : Except ControllerError Reply}

def Prepared.OnCommit (Q : AgentControllerSnapshot → Except ControllerError Reply → Prop) : Prepared → Prop
  | .answer _ => True
  | .commit s reply => Q s reply

def Call.keepsBooks : Call → Bool
  | .bindProviderBudget .. | .setProviderBudgetBaseline .. | .bindCohortOrigin .. | .attachCohortMainRun ..
  | .recordWorkspaceWitness .. => true
  | _ => false

variable {call : Call}

theorem keepsBooks_quiet (hcall : call.keepsBooks = true) (h : prepare H s call = .ok (.commit s' reply)) :
    Quiet s s' reply := by
  have hdone : ∀ {s' : AgentControllerSnapshot}, s'.scene = s.scene → s'.receipts = s.receipts → Quiet s s' (.ok .done) :=
    fun hscene hreceipts => ⟨hscene, hreceipts, fun r hr => (Except.ok.inj hr).symm⟩
  refine (show Ensures _ (Prepared.OnCommit (Quiet s)) from ?_) _ h
  cases call with
  | bindProviderBudget | setProviderBudgetBaseline | bindCohortOrigin | attachCohortMainRun | recordWorkspaceWitness =>
    repeat' first
      | exact .pure trivial
      | exact .pure (hdone rfl rfl)
      | refine .bind fun _ _ => ?_
      | split
  | _ => cases hcall

variable {scope : String} {request : AgentProviderBudgetRequest}

theorem reserveProviderBudget_quiet (h : s.reserveProviderBudget H request = .ok (.commit s' reply)) :
    Quiet s s' reply := by
  simp only [reserveProviderBudget, bind_eq_ok, orElseError_eq_ok, pure_eq_ok, Prepared.commit.injEq] at h
  obtain ⟨_, -, _, -, _, -, _, -, _, -, _, hrecord, _, -, _, -, _, -, _, -, _, -, _, -, _, -, _, -, rfl, rfl⟩ := h
  exact ⟨sceneOf_insert_same hrecord rfl, rfl, fun r hr => (Except.ok.inj hr).symm⟩

variable {terminal : AgentProviderBudgetTerminal}

theorem releaseReservation_scene {agents agents' : Std.ExtTreeMap AgentId AgentRecord}
    (h : releaseReservation agents id request terminal = .ok agents') :
    sceneOf agents' mailbox = sceneOf agents mailbox := by
  unfold releaseReservation at h
  split at h
  · rw [pure_eq_ok] at h
    rw [h]
  · simp only [bind_eq_ok, orElseError_eq_ok, pure_eq_ok] at h
    obtain ⟨_, hrecord, _, -, _, -, _, -, _, -, rfl⟩ := h
    exact sceneOf_insert_same hrecord rfl

theorem settleProviderBudget_quiet {effect : String} {route : ProviderRouteAttemptIdentity} {terminalSha256 : String}
    (h : s.settleProviderBudget H id scope effect route terminal terminalSha256 = .ok (.commit s' reply)) :
    Quiet s s' reply := by
  refine (show Ensures _ (Prepared.OnCommit (Quiet s)) from ?_) _ h
  refine .bind fun _ _ => ?_
  dsimp only
  split
  · exact .bind fun _ _ => .pure trivial
  · refine .bind fun _ _ => .bind fun _ _ => ?_
    split
    · exact .pure trivial
    · refine .bind fun _ _ => ?_
      split
      · exact .bind fun _ _ => .pure ⟨rfl, rfl, fun r hr => by cases hr⟩
      · refine .bind fun agents hagents => .bind fun _ _ => .pure ?_
        exact ⟨releaseReservation_scene hagents, rfl, fun r hr => (Except.ok.inj hr).symm⟩

variable {command : AgentCommand} {next : AgentControllerSnapshot} {message : MessageId}

theorem prepareChildSpawn_ok (hs : Sound s) (h : s.prepareChildSpawn H actor command = .ok (next, id, message)) :
    Moves H s.scene [.silent, .silent] next.scene ∧
      (∃ r, next.agents[id]? = some r ∧ r.view.state = .idle) ∧ next.receipts = s.receipts ∧
      next.revision = s.revision := by
  unfold prepareChildSpawn at h
  split at h
  · rename_i parentId label task capabilities budget writePaths
    simp only [bind_eq_ok, orElseError_eq_ok, pure_eq_ok, refuseIf_eq_ok, Bool.not_eq_true] at h
    obtain ⟨_, -, _, -, _, hopen, _, hparent, _, -, _, -, _, -, _, -, reserved, hreserved, _, -, _, -, _, hclear, _, -,
      ⟨_, _⟩, hpost, hnext⟩ := h
    obtain ⟨rfl, rfl, rfl⟩ := hnext
    obtain ⟨mailbox, hmail, hsnap⟩ := enqueue_ok hpost
    obtain ⟨r, hr, hlive⟩ := checkOpen_ok hopen
    cases hparent.symm.trans hr
    have hfresh : s.agents[s.nextAgent]? = none := by
      cases hg : s.agents[s.nextAgent]? with
      | none => rfl
      | some r => cases Nat.lt_irrefl _ (hs.fresh _ r hg)
    have hscene : sceneOf (s.agents.insert parentId reserved) s.mailbox = s.scene :=
      sceneOf_insert_same hr (reserve_ok hreserved).1
    subst hsnap
    have hadd : Move H s.scene .silent (s.scene.set s.nextAgent ⟨.idle, some parentId, writePaths⟩) := by
      refine .add (by simp [AgentControllerSnapshot.scene, hfresh]) (scene_agents hr) hlive ?_
      -- the check ran over the agents after the parent's reservation, whose scene is the same
      intro x cx hx hne hroot hclosed
      rw [← hscene] at hx
      obtain ⟨rx, hrx, rfl⟩ := Option.map_eq_some_iff.1 hx
      have hid : rx.view.agentId = x := by
        rcases Table.insert_eq_some hrx with ⟨hx, -⟩ | ⟨-, hold⟩
        · cases hne hx.symm
        · exact hs.ids x rx hold
      have hb := List.any_eq_false.1 hclear rx ((Table.mem_vals _ rx).2 ⟨x, hrx⟩)
      simp only [blocks, Bool.and_eq_true, bne_iff_ne, ne_eq, not_and, Bool.not_eq_true] at hb
      exact hb ⟨⟨hclosed, by rw [hid]; exact hne⟩, hroot⟩
    have hpost : Move H (s.scene.set s.nextAgent ⟨.idle, some parentId, writePaths⟩) .silent
        { s.scene.set s.nextAgent ⟨.idle, some parentId, writePaths⟩ with mailbox := mailbox } := by
      refine .post (c := ⟨.idle, some parentId, writePaths⟩) (by simp [Scene.set]) rfl (by simp) (fun e he => ?_) hmail
      cases he
    refine ⟨.cons hadd (.one ?_), ⟨_, by rw [Table.get_insert, if_pos rfl], rfl⟩, rfl, rfl⟩
    rw [← hscene] at hpost
    convert hpost using 1
    · rw [hscene]
    · exact sceneOf_insert _ _ _ _
  · cases h

theorem closeState_ok {state state' : AgentState} (h : closeState state = .ok state') :
    state' = closedTo state ∧ ∀ epoch, state ≠ .recoveryRequired epoch := by
  cases state with
  | recoveryRequired epoch => cases h
  | _ => exact ⟨(Except.ok.inj h).symm, fun epoch he => (by cases he)⟩

theorem closedTo_closedTo (state : AgentState) : closedTo (closedTo state) = closedTo state := by
  cases state <;> rfl

theorem rejectWhere_rejectWhere (m : AgentMailbox) (p q : AgentMailboxMessage → Bool)
    (h : ∀ x, p x = true → q (AgentMailbox.reject x) = false) :
    (m.rejectWhere p).rejectWhere q = m.rejectWhere (fun x => p x || q x) := by
  simp only [AgentMailbox.rejectWhere, AgentMailbox.mk.injEq, true_and]
  refine Std.ExtTreeMap.ext_getElem? (fun k => ?_)
  rw [Table.get_map, Table.get_map, Table.get_map, Option.map_map]
  refine congrArg (fun f => Option.map f _) (funext (fun x => ?_))
  by_cases hp : p x = true
  · simp [hp, h x hp]
  · simp [hp]

theorem closeOne_ok (h : closeOne s id = .ok next) :
    next.scene = s.scene.close [id] ∧ (∃ c, s.scene.agents id = some c ∧ ∀ epoch, c.state ≠ .recoveryRequired epoch) ∧
      next.receipts = s.receipts ∧ next.revision = s.revision := by
  simp only [closeOne, bind_eq_ok, orElseError_eq_ok, pure_eq_ok] at h
  obtain ⟨r, hr, _, hstate, rfl⟩ := h
  obtain ⟨rfl, hrec⟩ := closeState_ok hstate
  refine ⟨?_, ⟨r.core, scene_agents hr, hrec⟩, rfl, rfl⟩
  simp only [AgentControllerSnapshot.scene, Scene.close, Scene.mk.injEq]
  constructor
  · funext x
    simp only [setState, Table.get_insert, List.mem_singleton]
    by_cases hx : x = id
    · subst hx
      simp [hr, AgentRecord.core]
    · simp only [if_neg (Ne.symm hx), if_neg hx, Option.map_id_fun', id_eq]
  · refine congrArg s.mailbox.rejectWhere (funext (fun m => ?_))
    rw [List.contains_cons, List.contains_nil, Bool.or_false]

theorem Scene.close_close (v : Scene) (id : AgentId) (ids : List AgentId) :
    (v.close [id]).close ids = v.close (id :: ids) := by
  simp only [Scene.close, Scene.mk.injEq]
  constructor
  · funext x
    rw [Option.map_map]
    refine congrArg (fun f => Option.map f _) (funext (fun c => ?_))
    by_cases hx : x = id
    · by_cases hrest : x ∈ ids
      · simp [hx, hx ▸ hrest, closedTo_closedTo]
      · simp [hx, hx ▸ hrest]
    · by_cases hrest : x ∈ ids <;> simp [hx, hrest]
  · rw [rejectWhere_rejectWhere]
    · refine congrArg v.mailbox.rejectWhere (funext (fun m => ?_))
      rw [List.contains_cons, List.contains_nil, Bool.or_false, List.contains_cons, Bool.and_or_distrib_right]
    · simp [AgentMailbox.reject]

theorem closeAll_ok : ∀ {ids : List AgentId} {s next : AgentControllerSnapshot}, ids.foldlM closeOne s = .ok next →
    next.scene = s.scene.close ids ∧
      (∀ id ∈ ids, ∃ c, s.scene.agents id = some c ∧ ∀ epoch, c.state ≠ .recoveryRequired epoch) ∧
      next.receipts = s.receipts ∧ next.revision = s.revision
  | [], s, next, h => by
    rw [List.foldlM_nil, pure_eq_ok] at h
    subst h
    refine ⟨?_, fun id hid => (by cases hid), rfl, rfl⟩
    simp only [AgentControllerSnapshot.scene, Scene.close, Scene.mk.injEq, List.not_mem_nil, if_false, Option.map_id_fun',
      id_eq, List.contains_nil, Bool.false_and, true_and]
    simp only [AgentMailbox.rejectWhere, Bool.false_eq_true, if_false]
    have hsame : (s.mailbox.messages.map fun _ m => m) = s.mailbox.messages :=
      Std.ExtTreeMap.ext_getElem? (fun k => by rw [Table.get_map, Option.map_id_fun', id_eq])
    rw [hsame]
  | id :: ids, s, next, h => by
    rw [List.foldlM_cons, bind_eq_ok] at h
    obtain ⟨_, hone, hrest⟩ := h
    obtain ⟨hscene1, hid, hreceipts1, hrevision1⟩ := closeOne_ok hone
    obtain ⟨hscene, hids, hreceipts, hrevision⟩ := closeAll_ok hrest
    refine ⟨by rw [hscene, hscene1, Scene.close_close], fun x hx => ?_, hreceipts.trans hreceipts1,
      hrevision.trans hrevision1⟩
    rcases List.mem_cons.1 hx with rfl | hx
    · exact hid
    · obtain ⟨c, hc, hrec⟩ := hids x hx
      rw [hscene1] at hc
      obtain ⟨c0, hc0, rfl⟩ := Option.map_eq_some_iff.1 hc
      refine ⟨c0, hc0, fun epoch he => ?_⟩
      refine hrec epoch ?_
      split
      · rw [he]
        rfl
      · exact he

/-- The walk finds the agents of the chain, as far as it goes. -/
theorem isDescendantIn_chain {chain : List AgentId} {a : AgentId} (h : Chain s id chain) :
    ∀ n, s.isDescendantIn n id a = true ↔ a ∈ chain.take n := by
  induction h with
  | root hr hp => intro n; cases n <;> simp [isDescendantIn, hr, hp]
  | child hr hp _ _ _ ih => intro n; cases n <;> simp [isDescendantIn, hr, hp, ih, @eq_comm _ a]

theorem close_ok (hs : Sound s) {agentId : AgentId} {includeDescendants : Bool}
    (h : s.close actor agentId includeDescendants = .ok next) :
    Move H s.scene (.close (s.closeTargets agentId includeDescendants)) next.scene ∧ next.receipts = s.receipts ∧
      next.revision = s.revision := by
  simp only [AgentControllerSnapshot.close, bind_eq_ok, refuseIf_eq_ok] at h
  obtain ⟨_, -, _, hchildren, hall⟩ := h
  obtain ⟨hscene, hids, hreceipts, hrevision⟩ := closeAll_ok hall
  rw [hscene]
  refine ⟨.close hids (fun x c p hx hp hmem => ?_), hreceipts, hrevision⟩
  obtain ⟨r, hr, rfl⟩ := Option.map_eq_some_iff.1 hx
  have hmem := (List.mem_filter.1 hmem).2
  cases includeDescendants with
  | false =>
    -- only the agent itself is closed, and each of its children was
    simp only [Bool.false_and, Bool.or_false, beq_iff_eq] at hmem
    subst hmem
    refine .inr (Classical.byContradiction (fun hne => hchildren ⟨rfl, ?_⟩))
    refine List.any_eq_true.2 ⟨r, (Table.mem_vals _ r).2 ⟨x, hr⟩, ?_⟩
    simp only [Bool.and_eq_true, beq_iff_eq, bne_iff_ne, ne_eq]
    exact ⟨hp, hne⟩
  | true =>
    simp only [Bool.true_and, Bool.or_eq_true, beq_iff_eq] at hmem
    have hlong : s.isDescendantIn (maxHierarchyDepth + 1) x agentId = true := by
      have hp' : r.view.parentId = some p := hp
      simp only [isDescendantIn, hr, Option.bind_some, hp', Bool.or_eq_true, beq_iff_eq]
      exact hmem
    refine .inl (List.mem_filter.2 ⟨?_, ?_⟩)
    · rw [Std.ExtTreeMap.mem_keys, Std.ExtTreeMap.mem_iff_isSome_getElem?, hr]
      rfl
    · simp only [Bool.true_and, Bool.or_eq_true, beq_iff_eq]
      obtain ⟨chain, hchain, hlen⟩ := chain_of_ancestry (hs.ancestry x r hr)
      rw [isDescendantIn_chain hchain, List.take_of_length_le (Nat.le_of_lt hlen)] at hlong
      refine .inr ((isDescendantIn_chain hchain _).2 ?_)
      rwa [List.take_of_length_le (Nat.le_of_lt_succ hlen)]

variable {native : Option AgentEngineExecution}

theorem perform_ok (hs : Sound s) (requestId : String) {p : AgentControllerSnapshot × AgentId × Option MessageId}
    (h : s.perform H actor command native = .ok p) :
    Performs H s p.1 (Call.labels s (.execute actor requestId command native)) [] ∧ p.1.receipts = s.receipts ∧
      p.1.revision = s.revision := by
  unfold perform at h
  split at h
  · -- spawn
    simp only [bind_eq_ok, orElseError_eq_ok, pure_eq_ok] at h
    obtain ⟨⟨next, _, message⟩, hspawn, r, hr, rfl⟩ := h
    obtain ⟨hmoves, -, hreceipts, hrevision⟩ := prepareChildSpawn_ok hs hspawn
    refine ⟨⟨[.silent, .silent], ?_, .inr ⟨rfl, rfl⟩, ⟨rfl, Nat.zero_le _⟩⟩, hreceipts, hrevision⟩
    convert hmoves using 1
    exact sceneOf_insert_same hr rfl
  · -- a message
    simp only [bind_eq_ok, pure_eq_ok] at h
    obtain ⟨_, -, _, hopen, ⟨next, message⟩, hpost, rfl⟩ := h
    obtain ⟨r, hr, hlive⟩ := checkOpen_ok hopen
    obtain ⟨mailbox, hnext, hmove⟩ := enqueue_moves hr hlive (by decide) hpost
    subst hnext
    exact ⟨.silent hmove, rfl, rfl⟩
  · -- a follow-up task
    simp only [bind_eq_ok, pure_eq_ok] at h
    obtain ⟨_, -, _, -, _, hopen, ⟨next, message⟩, hpost, rfl⟩ := h
    obtain ⟨r, hr, hlive⟩ := checkOpen_ok hopen
    obtain ⟨mailbox, hnext, hmove⟩ := enqueue_moves hr hlive (by decide) hpost
    subst hnext
    exact ⟨.silent hmove, rfl, rfl⟩
  · -- steering
    simp only [bind_eq_ok, pure_eq_ok] at h
    obtain ⟨_, -, _, hrun, ⟨next, message⟩, hpost, rfl⟩ := h
    obtain ⟨r, hr, hstate⟩ := checkRunning_ok hrun
    obtain ⟨mailbox, hmail, hnext⟩ := enqueue_ok hpost
    subst hnext
    refine ⟨.silent (.post (scene_agents hr) ?_ (by simp) (fun e he => ?_) hmail), rfl, rfl⟩
    · rw [AgentRecord.core, hstate]
      rfl
    · rw [AgentRecord.core, hstate, Option.some.inj he]
  · -- interrupt
    simp only [bind_eq_ok, orElseError_eq_ok, pure_eq_ok] at h
    obtain ⟨_, -, _, hrun, r, hr, rfl⟩ := h
    obtain ⟨_, hr', hstate⟩ := checkRunning_ok hrun
    cases hr.symm.trans hr'
    refine ⟨.silent ?_, rfl, rfl⟩
    have hscene := Move.interrupt (H := H) (scene_agents hr) hstate
    convert hscene using 1
    exact sceneOf_insert _ _ _ _
  · -- close
    simp only [bind_eq_ok, pure_eq_ok] at h
    obtain ⟨next, hclose, rfl⟩ := h
    obtain ⟨hmove, hreceipts, hrevision⟩ := close_ok (H := H) hs hclose
    exact ⟨⟨_, .one hmove, .inl rfl, ⟨rfl, Nat.zero_le _⟩⟩, hreceipts, hrevision⟩

/-- What a call that commits does: the closes and reconciliations it is for, and what its reply hands out. -/
def Explains (H : Hashes) (s : AgentControllerSnapshot) (call : Call) (s' : AgentControllerSnapshot)
    (reply : Except ControllerError Reply) : Prop :=
  ∃ out, Performs H s s' (call.labels s) out ∧ ∀ r, reply = .ok r → r.handedOut = out

variable {requestId : String}

theorem execute_commit (h : s.executeWithNativeChild H actor requestId command native = .ok (.commit s' reply)) :
    (s.checkActor actor = .ok () ∧ liftInvalid command.validate = .ok () ∧ validRequestId requestId = true ∧
      s.receipts[requestKey actor requestId]? = none) ∧
    ∃ p control revision, s.perform H actor command native = .ok p ∧ control.replayed = false ∧
      reply = .ok (.control control) ∧ s' = { p.1 with
        revision := revision
        receipts := p.1.receipts.insert (requestKey actor requestId) ⟨H.command command, control⟩ } := by
  simp only [executeWithNativeChild, execute, bind_eq_ok, refuseIf_eq_ok, Bool.not_eq_false] at h
  obtain ⟨_, -, _, hactor, _, hcommand, _, hid, h⟩ := h
  split at h
  · simp only [bind_eq_ok, pure_eq_ok] at h
    obtain ⟨_, -, h⟩ := h
    cases h
  · rename_i hnone
    simp only [bind_eq_ok, pure_eq_ok, Prepared.commit.injEq] at h
    obtain ⟨_, -, p, hperform, _, -, _, -, rfl, rfl⟩ := h
    exact ⟨⟨hactor, hcommand, hid, hnone⟩, p, _, _, hperform, rfl, rfl, rfl⟩

theorem execute_explains (hs : Sound s)
    (h : s.executeWithNativeChild H actor requestId command native = .ok (.commit s' reply)) :
    Explains H s (.execute actor requestId command native) s' reply := by
  obtain ⟨-, p, control, _, hperform, -, rfl, rfl⟩ := execute_commit h
  obtain ⟨⟨ls, hmoves, hmajor, hout⟩, -, -⟩ := perform_ok hs requestId hperform
  exact ⟨[], ⟨ls, hmoves, hmajor, hout⟩, fun r hr => by rw [← Except.ok.inj hr]; rfl⟩

theorem beginTurn_explains (h : s.beginTurn id started = .ok (.commit s' reply)) :
    Explains H s (.beginTurn id started) s' reply := by
  simp only [beginTurn, bind_eq_ok, orElseError_eq_ok] at h
  obtain ⟨_, -, _, -, _, -, r, hr, h⟩ := h
  split at h
  · cases h
  · rename_i hidle
    split at h
    · cases h
    · simp only [bind_eq_ok, pure_eq_ok, Prepared.commit.injEq] at h
      obtain ⟨_, -, _, hrunning, _, -, rfl, rfl⟩ := h
      refine ⟨[], .silent ?_, fun r hr => by rw [← Except.ok.inj hr]; rfl⟩
      have hstart := Move.start (H := H) (e := nextEpoch r) (scene_agents hr) (not_not.1 hidle)
      convert hstart using 1
      rw [← startTurn_ok hrunning]
      exact sceneOf_insert _ _ _ _

theorem beginParentRuntimeTurn_explains {source : String} {started : Nat}
    (h : s.beginParentRuntimeTurn H source started = .ok (.commit s' reply)) :
    Explains H s (.beginParentRuntimeTurn source started) s' reply := by
  simp only [beginParentRuntimeTurn, bind_eq_ok, orElseError_eq_ok, refuseIf_eq_ok, not_not, pure_eq_ok,
    Prepared.commit.injEq] at h
  obtain ⟨_, -, _, -, _, -, r, hr, _, hidle, _, -, ⟨_, _⟩, hpost, _, -, _, hrunning, _, -, rfl, rfl⟩ := h
  obtain ⟨mailbox, hnext, hscene⟩ := enqueue_moves (H := H) hr (by rw [hidle]; rfl) (by decide) hpost
  subst hnext
  refine ⟨[], ⟨[.silent, .silent], .cons hscene (.one ?_), .inr ⟨rfl, rfl⟩, ⟨rfl, Nat.zero_le _⟩⟩,
    fun r hr => by rw [← Except.ok.inj hr]; rfl⟩
  have hstart := Move.start (H := H) (v := { s.scene with mailbox := mailbox }) (e := nextEpoch r) (scene_agents hr) hidle
  convert hstart using 1
  rw [← startTurn_ok hrunning]
  exact sceneOf_insert _ _ _ _

variable {now : Nat} {claim : AgentWorkflowClaim}

theorem admitTask_ok {key : String} {p : AgentControllerSnapshot × List AgentMailboxMessage}
    (hr : s.agents[id]? = some r) (hidle : r.view.state = .idle)
    (h : s.admitTask id r turnsUsed message now key claim = .ok p) :
    Moves H s.scene [.silent, .handOut p.2] p.1.scene ∧ p.1.receipts = s.receipts ∧ p.1.revision = s.revision + 1 := by
  simp only [admitTask, bind_eq_ok, pure_eq_ok] at h
  obtain ⟨running, hrunning, _, hrevision, rfl⟩ := h
  have hstart : Move H s.scene .silent (s.scene.set id { r.core with state := .running (nextEpoch r) }) :=
    .start (scene_agents hr) hidle
  have hdeliver := Move.deliver (H := H) (v := s.scene.set id { r.core with state := .running (nextEpoch r) }) id
    (nextEpoch r) (some message) true (c := { r.core with state := .running (nextEpoch r) }) (by simp [Scene.set]) rfl
  refine ⟨.cons hstart (.one ?_), rfl, nextRevision_ok hrevision⟩
  rw [← startTurn_ok hrunning] at hdeliver ⊢
  change Move H _ _ (sceneOf (s.agents.insert id running) _)
  rw [sceneOf_insert]
  exact hdeliver

theorem claimWorkflowTask_commit (h : s.claimWorkflowTask H claim now = .ok (.commit s' reply)) :
    s.providerBudget.recoveryRequired = false ∧ ∃ r queued turnsUsed initial,
      (s.agents[claim.assignedAgent]? = some r ∧ r.view.state = .idle) ∧
      s.enqueue H .operator claim.assignedAgent claim.task .task none = .ok queued ∧
      queued.1.admitTask claim.assignedAgent r turnsUsed queued.2 now (claim.key H) claim = .ok (s', initial) ∧
      ∀ lease, reply = .ok lease → lease.handedOut = initial := by
  simp only [claimWorkflowTask, bind_eq_ok] at h
  obtain ⟨lease, -, h⟩ := h
  cases lease with
  | some lease => cases h
  | none =>
    simp only [bind_eq_ok, orElseError_eq_ok, refuseIf_eq_ok, pure_eq_ok, Prepared.commit.injEq, not_or, not_not,
      Bool.not_eq_true] at h
    obtain ⟨_, hflag, _, -, _, -, _, -, _, -, r, hr, _, ⟨hidle, -⟩, _, -, queued, hpost, _, -, ⟨_, initial⟩, htask,
      rfl, rfl⟩ := h
    refine ⟨hflag, r, queued, _, initial, ⟨hr, hidle⟩, hpost, htask, fun lease hlease => ?_⟩
    simp only [bind_eq_ok, pure_eq_ok] at hlease
    obtain ⟨_, -, rfl⟩ := hlease
    rfl

theorem claimWorkflowTask_explains (h : s.claimWorkflowTask H claim now = .ok (.commit s' reply)) :
    Explains H s (.claimWorkflowTask claim now) s' reply := by
  obtain ⟨-, r, ⟨_, _⟩, _, initial, ⟨hr, hidle⟩, hpost, htask, hout⟩ := claimWorkflowTask_commit h
  obtain ⟨mailbox, hqueued, hscene⟩ := enqueue_moves (H := H) hr (by rw [hidle]; rfl) (by decide) hpost
  subst hqueued
  obtain ⟨hmoves, -, -⟩ := admitTask_ok (H := H) (s := { s with mailbox := mailbox }) hr hidle htask
  refine ⟨initial, ⟨[.silent, .silent, .handOut initial], .cons hscene hmoves, .inr ⟨rfl, rfl⟩, ?_⟩, hout⟩
  exact ⟨by simp [Label.handedOut], Nat.le_refl _⟩

variable {spawn : AgentCommand} {binding : AgentWorkflowChildBinding}

theorem spawnWorkflowChild_commit (h : s.spawnWorkflowChild H actor requestId spawn binding now = .ok (.commit s' reply)) :
    s.receipts[requestKey actor requestId]? = none ∧ ∃ spawned child message r claim next initial control,
      s.prepareChildSpawn H actor spawn = .ok (spawned, child, message) ∧ spawned.agents[child]? = some r ∧
      spawned.admitTask child r 1 message now (claim.key H) claim = .ok (next, initial) ∧ control.replayed = false ∧
      s' = { next with
        receipts := next.receipts.insert (requestKey actor requestId) ⟨H.childRequest spawn binding, control⟩ } ∧
      ∀ lease, reply = .ok lease → lease.handedOut = initial := by
  simp only [spawnWorkflowChild, bind_eq_ok] at h
  obtain ⟨_, -, _, -, h⟩ := h
  split at h
  · simp only [bind_eq_ok, pure_eq_ok] at h
    obtain ⟨_, -, h⟩ := h
    cases h
  · rename_i hnone
    simp only [bind_eq_ok, orElseError_eq_ok, pure_eq_ok, Prepared.commit.injEq] at h
    obtain ⟨_, -, _, -, _, -, _, -, ⟨_, _, _⟩, hspawn, r, hr, ⟨_, initial⟩, htask, rfl, rfl⟩ := h
    refine ⟨hnone, _, _, _, r, _, _, initial, _, hspawn, hr, htask, rfl, rfl, fun lease hlease => ?_⟩
    simp only [bind_eq_ok, pure_eq_ok] at hlease
    obtain ⟨_, -, rfl⟩ := hlease
    rfl

theorem spawnWorkflowChild_explains (hs : Sound s)
    (h : s.spawnWorkflowChild H actor requestId spawn binding now = .ok (.commit s' reply)) :
    Explains H s (.spawnWorkflowChild actor requestId spawn binding now) s' reply := by
  obtain ⟨-, _, _, _, r, _, _, initial, _, hspawn, hr, htask, -, rfl, hout⟩ := spawnWorkflowChild_commit h
  obtain ⟨hspawned, ⟨_, hr', hidle⟩, -, -⟩ := prepareChildSpawn_ok hs hspawn
  cases hr.symm.trans hr'
  obtain ⟨hmoves, -, -⟩ := admitTask_ok (H := H) hr hidle htask
  cases hspawned with
  | cons hadd hrest =>
    cases hrest with
    | cons hpost hnil =>
      cases hnil
      refine ⟨initial, ⟨[.silent, .silent, .silent, .handOut initial], .cons hadd (.cons hpost hmoves), .inr ⟨rfl, rfl⟩, ?_⟩,
        hout⟩
      exact ⟨by simp [Label.handedOut], Nat.le_refl _⟩

theorem deliver_explains {starting : Bool}
    (h : s.deliver id epoch starting = .ok (.commit s' reply)) : Explains H s (.deliver id epoch starting) s' reply := by
  simp only [AgentControllerSnapshot.deliver, bind_eq_ok, orElseError_eq_ok] at h
  obtain ⟨_, hrun, r, hr, h⟩ := h
  obtain ⟨_, hr', hstate⟩ := checkRunning_ok hrun
  cases hr.symm.trans hr'
  split at h
  · cases h
  · simp only [bind_eq_ok, pure_eq_ok, Prepared.commit.injEq] at h
    obtain ⟨_, -, rfl, rfl⟩ := h
    refine ⟨(s.mailbox.deliver id epoch r.activeTask starting).2, ⟨[.handOut _],
      .one (.deliver id epoch r.activeTask starting (scene_agents hr) hstate), .inr ⟨rfl, rfl⟩, ?_⟩, fun reply hreply => ?_⟩
    · exact ⟨List.append_nil _, Nat.le_refl _⟩
    · rw [← Except.ok.inj hreply]
      rfl

theorem markConsumed_explains {messages : List MessageId} (h : s.markConsumed id epoch messages = .ok (.commit s' reply)) :
    Explains H s (.markConsumed id epoch messages) s' reply := by
  simp only [AgentControllerSnapshot.markConsumed, bind_eq_ok] at h
  obtain ⟨_, hrun, h⟩ := h
  obtain ⟨r, hr, hstate⟩ := checkRunning_ok hrun
  split at h
  · cases h
  · simp only [bind_eq_ok, pure_eq_ok, Prepared.commit.injEq] at h
    obtain ⟨_, hmail, _, -, rfl, rfl⟩ := h
    exact ⟨[], .silent (.consume (scene_agents hr) hstate hmail), fun r hr => by rw [← Except.ok.inj hr]; rfl⟩

variable {usage : AgentUsage}

theorem settleUsage_core {physical : Bool} (h : settleUsage r usage physical = .ok r') : r'.core = r.core := by
  unfold settleUsage at h
  cases physical with
  | true =>
    simp only [if_true, bind_eq_ok, pure_eq_ok] at h
    obtain ⟨_, rfl, _, -, rfl⟩ := h
    rfl
  | false =>
    simp only [Bool.false_eq_true, if_false, bind_eq_ok, pure_eq_ok] at h
    obtain ⟨_, -, _, -, _, -, _, rfl, _, -, rfl⟩ := h
    rfl

theorem finishTurn_explains {summary : String} {effectsKnown accountingKnown : Bool} {terminal : AgentWorkflowTerminal}
    (h : s.finishTurn id epoch summary usage effectsKnown accountingKnown terminal = .ok (.commit s' reply)) :
    Explains H s (.finishTurn id epoch summary usage effectsKnown accountingKnown terminal) s' reply := by
  simp only [finishTurn, bind_eq_ok, orElseError_eq_ok, refuseIf_eq_ok, not_or, not_not, pure_eq_ok,
    Prepared.commit.injEq] at h
  obtain ⟨_, -, r, hr, _, ⟨hepoch, hstop⟩, ⟨usage, _, receiptsKnown⟩, -, r', hsettle, _, -, rfl, rfl⟩ := h
  have hcore := settleUsage_core hsettle
  have hstate : r'.view.state = r.view.state := congrArg Core.state hcore
  refine ⟨[], .silent ?_, fun r hr => by rw [← Except.ok.inj hr]; rfl⟩
  have hmove := Move.settle (H := H) (t := r.activeTask)
    (k := effectsKnown && (accountingKnown && receiptsKnown) && (s.settlementFits id epoch usage && usageFits r'))
    (scene_agents hr) hepoch hstop
  convert hmove using 1
  refine (sceneOf_insert _ _ _ _).trans ?_
  simp only [Scene.set, AgentRecord.core, hstate]
  have hparent : r'.view.parentId = r.view.parentId := congrArg Core.parentId hcore
  have hpaths : r'.view.writePaths = r.view.writePaths := congrArg Core.writePaths hcore
  rw [hparent, hpaths]
  rfl

theorem addRecovered_core (h : addRecovered r usage = .ok r') : r'.core = r.core := by
  simp only [addRecovered, bind_eq_ok, pure_eq_ok] at h
  obtain ⟨_, -, _, -, _, -, _, -, rfl⟩ := h
  rfl

theorem reconcileStopped_explains {effectsKnown close : Bool}
    (h : s.reconcileStopped id epoch effectsKnown close usage = .ok (.commit s' reply)) :
    Explains H s (.reconcileStopped id epoch effectsKnown close usage) s' reply := by
  simp only [reconcileStopped, bind_eq_ok, orElseError_eq_ok, refuseIf_eq_ok, not_not, pure_eq_ok,
    Prepared.commit.injEq] at h
  obtain ⟨_, -, r, hr, _, hstop, _, -, _, -, r', hrecovered, _, -, _, -, _, -, _, -, rfl, rfl⟩ := h
  have hcore := addRecovered_core hrecovered
  refine ⟨[], ⟨[.stop id close], .one ?_, .inl rfl, ⟨rfl, Nat.zero_le _⟩⟩, fun r hr => by rw [← Except.ok.inj hr]; rfl⟩
  have hmove := Move.stop (H := H) (t := r.activeTask) (b := close) (scene_agents hr) hstop
  convert hmove using 1
  refine (sceneOf_insert _ _ _ _).trans ?_
  have hparent : r'.view.parentId = r.view.parentId := congrArg Core.parentId hcore
  have hpaths : r'.view.writePaths = r.view.writePaths := congrArg Core.writePaths hcore
  simp only [Scene.set, AgentRecord.core, hparent, hpaths]
  rfl

theorem Quiet.explains (h : Quiet s s' reply) (hlabels : call.labels s = []) : Explains H s call s' reply :=
  ⟨[], by rw [hlabels]; exact .quiet h.1, fun r hr => by rw [h.2.2 r hr]; rfl⟩

/-- **Every commit is a sequence of moves**: it makes the closes and reconciliations of its call, and its reply hands out
what the moves deliver. -/
theorem commit_moves (hs : Sound s) (h : prepare H s call = .ok (.commit s' reply)) : Explains H s call s' reply := by
  cases call with
  | execute => exact execute_explains hs h
  | beginTurn => exact beginTurn_explains h
  | beginParentRuntimeTurn => exact beginParentRuntimeTurn_explains h
  | claimWorkflowTask => exact claimWorkflowTask_explains h
  | spawnWorkflowChild => exact spawnWorkflowChild_explains hs h
  | deliver => exact deliver_explains h
  | markConsumed => exact markConsumed_explains h
  | finishTurn => exact finishTurn_explains h
  | reconcileStopped => exact reconcileStopped_explains h
  | reserveProviderBudget => exact (reserveProviderBudget_quiet h).explains rfl
  | settleProviderBudget => exact (settleProviderBudget_quiet h).explains rfl
  | _ => exact (keepsBooks_quiet rfl h).explains rfl

end Iteron.Agents
