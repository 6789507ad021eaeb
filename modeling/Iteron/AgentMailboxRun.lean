import Iteron.AgentRun
/-!
# AgentMailboxRun — every message is taken at most once

A message moves from accepted to delivered to consumed, or is rejected on the way, and stays where it ends.  A delivery
belongs to the epoch its receiver is in, so nothing delivered outlives its epoch: the receiver of a delivered message is
executing, closing or under recovery in that very epoch.  Over whole runs, restarts and lost answers included, no message
is handed out twice.
-/
namespace Iteron.Agents

open Refuse Machine AgentControllerSnapshot AgentMailbox

/-! ## Messages of one move -/

theorem get_rejectWhere (m : AgentMailbox) (p : AgentMailboxMessage → Bool) (k : MessageId) :
    (m.rejectWhere p).messages[k]? = m.messages[k]?.map (fun x => if p x then reject x else x) :=
  Table.get_map _ _ _

theorem get_deliver (m : AgentMailbox) (id : AgentId) (epoch : AgentEpoch) (task : Option MessageId) (starting : Bool)
    (k : MessageId) : (m.deliver id epoch task starting).1.messages[k]? =
      m.messages[k]?.map (fun x => handle epoch x (handling id epoch task starting x)) :=
  Table.get_map _ _ _

variable {id : AgentId} {epoch : AgentEpoch}

theorem markConsumed_ok {m m' : AgentMailbox} {ids : List MessageId} (h : m.markConsumed id epoch ids = .ok m') :
    (∀ k ∈ ids, ∃ x, m.messages[k]? = some x ∧ deliveredIn id epoch x = true) ∧
      m' = { m with messages := m.messages.map (fun k x => if k ∈ ids then consume epoch x else x) } := by
  simp only [AgentMailbox.markConsumed, bind_eq_ok, pure_eq_ok] at h
  obtain ⟨_, -, _, hall, rfl⟩ := h
  refine ⟨fun k hk => ?_, rfl⟩
  have hone := forM_ok hall k hk
  simp only [bind_eq_ok, orElseError_eq_ok, refuseIf_eq_ok, Bool.not_eq_false] at hone
  exact hone

def posted (H : Hashes) (m : AgentMailbox) (sender : Option AgentId) (receiver : AgentId) (text : String)
    (kind : AgentMessageKind) (expected : Option AgentEpoch) : AgentMailboxMessage :=
  { id := m.nextMessage, sender := sender, receiver := receiver, sequence := m.nextMessage, kind := kind,
    state := .accepted, text := some text, contentSha256 := H.text text, expectedEpoch := expected }

theorem enqueue_post {m : AgentMailbox} {H : Hashes} {sender : Option AgentId} {receiver : AgentId} {text : String}
    {kind : AgentMessageKind} {expected : Option AgentEpoch} {p : AgentMailbox × MessageId}
    (h : m.enqueue H sender receiver text kind expected = .ok p) :
    p.1 = { m with
      nextMessage := m.nextMessage + 1
      messages := m.messages.insert m.nextMessage (posted H m sender receiver text kind expected) } := by
  simp only [AgentMailbox.enqueue, bind_eq_ok, orElseError_eq_ok, pure_eq_ok] at h
  obtain ⟨_, -, _, -, _, hnext, rfl⟩ := h
  rw [checkedAdd_eq_some hnext, posted]

inductive MessageMove (v' : Scene) (m : AgentMailboxMessage) : AgentMailboxMessage → Prop
  | same : MessageMove v' m m
  | deliver {c : Core} (epoch : AgentEpoch) (hstate : m.state = .accepted) (hagent : v'.agents m.receiver = some c)
      (hrun : c.state = .running epoch) (hexpected : ∀ e, m.expectedEpoch = some e → e = epoch) :
      MessageMove v' m (delivered epoch m)
  | consume (epoch : AgentEpoch) (hstate : m.state = .delivered epoch) : MessageMove v' m (AgentMailbox.consume epoch m)
  | reject (hstate : isPending m.state = true) : MessageMove v' m (AgentMailbox.reject m)

inductive Life (v v' : Scene) (k : MessageId) : Prop
  | moved {m m' : AgentMailboxMessage} (hold : v.mailbox.messages[k]? = some m) (hnew : v'.mailbox.messages[k]? = some m')
      (h : MessageMove v' m m')
  | absent (hold : v.mailbox.messages[k]? = none) (hnew : v'.mailbox.messages[k]? = none)
  | posted {m' : AgentMailboxMessage} (hold : v.mailbox.messages[k]? = none) (hnew : v'.mailbox.messages[k]? = some m')
      (hstate : m'.state = .accepted) (htext : m'.text.isSome = true) (hid : m'.id = k ∧ m'.sequence = k)
      (hkind : m'.kind = .steer ↔ m'.expectedEpoch.isSome = true)

structure Mailed (v : Scene) : Prop where
  keys : ∀ (k : MessageId) (m : AgentMailboxMessage), v.mailbox.messages[k]? = some m →
    m.id = k ∧ m.sequence = k ∧ k < v.mailbox.nextMessage
  text : ∀ (k : MessageId) (m : AgentMailboxMessage), v.mailbox.messages[k]? = some m →
    m.text.isSome = isPending m.state
  steer : ∀ (k : MessageId) (m : AgentMailboxMessage), v.mailbox.messages[k]? = some m →
    (m.kind = .steer ↔ m.expectedEpoch.isSome = true)
  epoch : ∀ (k : MessageId) (m : AgentMailboxMessage) (e e' : AgentEpoch), v.mailbox.messages[k]? = some m →
    m.state = .delivered e ∨ m.state = .consumed e → m.expectedEpoch = some e' → e' = e
  held : ∀ (k : MessageId) (m : AgentMailboxMessage) (e : AgentEpoch), v.mailbox.messages[k]? = some m →
    m.state = .delivered e → ∃ c, v.agents m.receiver = some c ∧ c.state.epoch = some e

variable {H : Hashes} {v v' : Scene} {l : Label}

/-- **A move takes each message along its life**, and adds at most an accepted one. -/
theorem move_messages (hv : Mailed v) (h : Move H v l v') (k : MessageId) : Life v v' k := by
  have hmap : ∀ f : AgentMailboxMessage → AgentMailboxMessage, v'.mailbox.messages[k]? = v.mailbox.messages[k]?.map f →
      (∀ m, v.mailbox.messages[k]? = some m → MessageMove v' m (f m)) → Life v v' k := by
    intro f hf hmove
    cases hm : v.mailbox.messages[k]? with
    | none => exact .absent hm (by rw [hf, hm]; rfl)
    | some m => exact .moved hm (by rw [hf, hm]; rfl) (hmove m hm)
  have hsame : v'.mailbox = v.mailbox → Life v v' k := fun he => hmap id (by rw [he, Option.map_id, id_eq]) (fun m _ => .same)
  have hreject : ∀ p, v'.mailbox = v.mailbox.rejectWhere p → (∀ x, p x = true → isPending x.state = true) →
      Life v v' k := by
    intro p he hp
    refine hmap (fun x => if p x then AgentMailbox.reject x else x) (by rw [he, get_rejectWhere]) (fun m _ => ?_)
    split
    · exact .reject (hp m ‹_›)
    · exact .same
  cases h with
  | post hagent _ hkind _ h =>
    have hget := congrArg (fun m => m.messages[k]?) (enqueue_post h)
    rw [Table.get_insert] at hget
    by_cases hk : v.mailbox.nextMessage = k
    · rw [if_pos hk] at hget
      refine .posted ?_ hget rfl rfl ⟨hk, hk⟩ hkind
      cases hm : v.mailbox.messages[k]? with
      | none => rfl
      | some m => exact absurd (hv.keys k m hm).2.2 (by rw [hk]; exact Nat.lt_irrefl k)
    · rw [if_neg hk] at hget
      exact hmap id (by rw [Option.map_id, id_eq]; exact hget) (fun m _ => .same)
  | add => exact hsame rfl
  | start => exact hsame rfl
  | interrupt => exact hsame rfl
  | quarantine => exact hsame rfl
  | close =>
    refine hreject _ rfl (fun x hx => ?_)
    simp only [Bool.and_eq_true, beq_iff_eq] at hx
    rw [hx.2]
    rfl
  | settle =>
    refine hreject _ rfl (fun x hx => ?_)
    simp only [Bool.and_eq_true, Bool.or_eq_true, beq_iff_eq] at hx
    rcases hx.2 with hx | hx
    · rw [hx]
      rfl
    · rw [hx.1]
      rfl
  | stop =>
    refine hreject _ rfl (fun x hx => ?_)
    simp only [Bool.and_eq_true, Bool.or_eq_true, beq_iff_eq] at hx
    rcases hx.2 with hx | hx
    · cases hs : x.state <;> rw [hs] at hx <;> first | rfl | cases hx
    · rw [hx.1]
      rfl
  | deliver id epoch _ _ hagent hrun =>
    refine hmap _ (get_deliver _ _ _ _ _ _) (fun m _ => ?_)
    unfold handling
    split
    · rename_i hm
      split
      · exact .reject (by rw [hm.2]; rfl)
      · rename_i hexpected
        split
        · exact .same
        · refine .deliver epoch hm.2 (by rw [hm.1]; exact hagent) hrun (fun e he => ?_)
          rw [he] at hexpected
          simpa using hexpected
    · exact .same
  | @consume _ epoch _ _ _ hagent hrun h =>
    obtain ⟨hids, rfl⟩ := markConsumed_ok h
    refine hmap _ (Table.get_map _ _ _) (fun m hm => ?_)
    split
    · rename_i hk
      obtain ⟨x, hx, hin⟩ := hids k hk
      cases hm.symm.trans hx
      simp only [deliveredIn, Bool.and_eq_true, Bool.or_eq_true, beq_iff_eq] at hin
      rcases hin.2 with hstate | hstate
      · exact .consume _ hstate
      · -- consumed already in this epoch: nothing changes
        have htext := hv.text k m hm
        rw [hstate] at htext
        have hnone : m.text = none := Option.isSome_eq_false_iff.1 htext |> Option.isNone_iff_eq_none.1
        have heq : AgentMailbox.consume epoch m = m := by
          rw [AgentMailbox.consume, ← hstate, ← hnone]
        rw [heq]
        exact .same
    · exact .same

theorem move_next (h : Move H v l v') : v.mailbox.nextMessage ≤ v'.mailbox.nextMessage ∧
    ∀ k m', v.mailbox.messages[k]? = none → v'.mailbox.messages[k]? = some m' → k < v'.mailbox.nextMessage := by
  cases h with
  | post hagent _ _ _ h =>
    have hpost := enqueue_post h
    dsimp only at hpost ⊢
    rw [hpost]
    refine ⟨Nat.le_succ _, fun k m' hnone hnew => ?_⟩
    rcases Table.insert_eq_some hnew with ⟨rfl, -⟩ | ⟨-, hold⟩
    · exact Nat.lt_succ_self _
    · rw [hnone] at hold
      cases hold
  | add | start | interrupt | quarantine =>
    refine ⟨Nat.le_refl _, fun k m' hnone hnew => ?_⟩
    cases hnone.symm.trans hnew
  | close | settle | stop =>
    refine ⟨Nat.le_refl _, fun k m' hnone hnew => ?_⟩
    have hget := (get_rejectWhere _ _ _).symm.trans hnew
    rw [hnone] at hget
    cases hget
  | deliver =>
    refine ⟨Nat.le_refl _, fun k m' hnone hnew => ?_⟩
    have hget := (get_deliver _ _ _ _ _ _).symm.trans hnew
    rw [hnone] at hget
    cases hget
  | consume hagent _ h =>
    obtain ⟨-, rfl⟩ := markConsumed_ok h
    refine ⟨Nat.le_refl _, fun k m' hnone hnew => ?_⟩
    have hget := (Table.get_map _ _ _).symm.trans hnew
    rw [hnone] at hget
    cases hget

theorem closedTo_epoch {state : AgentState} (h : state.epoch = some epoch) : (closedTo state).epoch = some epoch := by
  cases state <;> exact h

variable {m : AgentMailboxMessage} {k : MessageId}

theorem move_held (hv : Mailed v) (h : Move H v l v') {e : AgentEpoch}
    (hold : v.mailbox.messages[k]? = some m) (hnew : v'.mailbox.messages[k]? = some m) (hstate : m.state = .delivered e) :
    ∃ c, v'.agents m.receiver = some c ∧ c.state.epoch = some e := by
  obtain ⟨c, hc, hepoch⟩ := hv.held k m e hold hstate
  have hset : ∀ {id : AgentId} {c0 c' : Core}, v.agents id = some c0 → (m.receiver = id → c'.state.epoch = some e) →
      ∃ c, (v.set id c').agents m.receiver = some c ∧ c.state.epoch = some e := by
    intro id c0 c' _ hkeep
    by_cases hr : m.receiver = id
    · exact ⟨c', by rw [hr, Scene.set_self], hkeep hr⟩
    · exact ⟨c, by rw [Scene.set_of_ne _ hr, hc], hepoch⟩
  have hhere : ∀ {id : AgentId} {c0 : Core}, v.agents id = some c0 → m.receiver = id → c0.state.epoch = some e := by
    intro id c0 hid hr
    rw [hr] at hc
    rw [Option.some.inj (hid.symm.trans hc)]
    exact hepoch
  have hkept : ∀ {p : AgentMailboxMessage → Bool}, (v.mailbox.rejectWhere p).messages[k]? = some m → ¬ p m = true := by
    intro p hnew hp
    have hget := (get_rejectWhere _ _ _).symm.trans hnew
    rw [hold, Option.map_some, Option.some.injEq, if_pos hp] at hget
    rw [← hget] at hstate
    cases hstate
  cases h with
  | post => exact ⟨c, hc, hepoch⟩
  | deliver => exact ⟨c, hc, hepoch⟩
  | consume => exact ⟨c, hc, hepoch⟩
  | add hfresh =>
    refine ⟨c, ?_, hepoch⟩
    rw [Scene.set_of_ne]
    · exact hc
    · intro hr
      rw [hr, hfresh] at hc
      cases hc
  | start hagent hidle =>
    refine hset hagent (fun hr => ?_)
    have hepoch := hhere hagent hr
    rw [hidle] at hepoch
    cases hepoch
  | interrupt hagent hrun =>
    refine hset hagent (fun hr => ?_)
    have hepoch := hhere hagent hr
    rw [hrun] at hepoch
    exact hepoch
  | quarantine =>
    refine ⟨_, by rw [Scene.quarantine_agents, hc]; rfl, ?_⟩
    rw [Controller.quarantined_epoch]
    exact hepoch
  | close =>
    refine ⟨_, by rw [Scene.close_agents, hc]; rfl, ?_⟩
    split
    · exact closedTo_epoch hepoch
    · exact hepoch
  | settle hagent hsettled =>
    -- a delivery of the settled epoch is rejected, and its receiver has no other
    refine hset hagent (fun hr => absurd ?_ (hkept hnew))
    have hsame := hhere hagent hr
    rw [hsettled] at hsame
    simp only [Bool.and_eq_true, Bool.or_eq_true, beq_iff_eq]
    exact ⟨hr, .inl (hstate.trans (congrArg _ (Option.some.inj hsame).symm))⟩
  | stop hagent =>
    refine hset hagent (fun hr => absurd ?_ (hkept hnew))
    simp only [Bool.and_eq_true, Bool.or_eq_true, beq_iff_eq]
    refine ⟨hr, .inl ?_⟩
    rw [hstate]
    rfl

theorem mailed_move (hv : Mailed v) (h : Move H v l v') : Mailed v' := by
  obtain ⟨hnext, hfresh⟩ := move_next h
  refine ⟨fun k m' hm' => ?_, fun k m' hm' => ?_, fun k m' hm' => ?_, fun k m' e e' hm' hstate hexp => ?_,
    fun k m' e hm' hstate => ?_⟩
  · cases move_messages hv h k with
    | absent hold hnew =>
      rw [hnew] at hm'
      cases hm'
    | posted hold hnew hstate htext hid =>
      cases hnew.symm.trans hm'
      exact ⟨hid.1, hid.2, hfresh k _ hold hnew⟩
    | moved hold hnew hmove =>
      cases hnew.symm.trans hm'
      obtain ⟨hid, hseq, hlt⟩ := hv.keys k _ hold
      have hlt := Nat.lt_of_lt_of_le hlt hnext
      cases hmove <;> exact ⟨hid, hseq, hlt⟩
  · cases move_messages hv h k with
    | absent hold hnew =>
      rw [hnew] at hm'
      cases hm'
    | posted hold hnew hstate htext =>
      cases hnew.symm.trans hm'
      rw [htext, hstate]
      rfl
    | moved hold hnew hmove =>
      cases hnew.symm.trans hm'
      have htext := hv.text k _ hold
      cases hmove with
      | same => exact htext
      | deliver epoch hstate =>
        rw [hstate] at htext
        exact htext
      | consume => rfl
      | reject => rfl
  · cases move_messages hv h k with
    | absent hold hnew =>
      rw [hnew] at hm'
      cases hm'
    | posted hold hnew _ _ _ hkind =>
      cases hnew.symm.trans hm'
      exact hkind
    | moved hold hnew hmove =>
      cases hnew.symm.trans hm'
      have hsteer := hv.steer k _ hold
      cases hmove <;> exact hsteer
  · cases move_messages hv h k with
    | absent hold hnew =>
      rw [hnew] at hm'
      cases hm'
    | posted hold hnew hnewState =>
      cases hnew.symm.trans hm'
      rw [hnewState] at hstate
      rcases hstate with hstate | hstate <;> cases hstate
    | moved hold hnew hmove =>
      cases hnew.symm.trans hm'
      cases hmove with
      | same => exact hv.epoch k _ e e' hold hstate hexp
      | deliver epoch _ _ _ hexpected =>
        rcases hstate with hstate | hstate
        · injection hstate with hstate
          rw [hexpected e' hexp, hstate]
        · cases hstate
      | consume epoch hdelivered =>
        rcases hstate with hstate | hstate
        · cases hstate
        · injection hstate with hstate
          rw [hv.epoch k _ epoch e' hold (Or.inl hdelivered) hexp, hstate]
      | reject => rcases hstate with hstate | hstate <;> cases hstate
  · cases move_messages hv h k with
    | absent hold hnew =>
      rw [hnew] at hm'
      cases hm'
    | posted hold hnew hnewState =>
      cases hnew.symm.trans hm'
      rw [hnewState] at hstate
      cases hstate
    | moved hold hnew hmove =>
      cases hnew.symm.trans hm'
      cases hmove with
      | same => exact move_held hv h hold hnew hstate
      | deliver epoch _ hagent hrun =>
        injection hstate with hstate
        subst hstate
        exact ⟨_, hagent, by rw [hrun]; rfl⟩
      | consume => cases hstate
      | reject => cases hstate

/-! ## The life of a message -/

inductive StateMove : AgentMessageState → AgentMessageState → Prop
  | deliver (epoch : AgentEpoch) : StateMove .accepted (.delivered epoch)
  | consume (epoch : AgentEpoch) : StateMove (.delivered epoch) (.consumed epoch)
  | rejectAccepted : StateMove .accepted .rejected
  | rejectDelivered (epoch : AgentEpoch) : StateMove (.delivered epoch) .rejected

/-- A message at a later time: the same message, moved along, and unchanged once settled. -/
structure Along (m m' : AgentMailboxMessage) : Prop where
  state : Relation.ReflTransGen StateMove m.state m'.state
  settled : isSettled m.state = true → m' = m
  identity : m'.id = m.id ∧ m'.sequence = m.sequence ∧ m'.receiver = m.receiver ∧ m'.kind = m.kind ∧
    m'.expectedEpoch = m.expectedEpoch ∧ m'.contentSha256 = m.contentSha256

theorem Along.refl (m : AgentMailboxMessage) : Along m m := ⟨.refl, fun _ => rfl, rfl, rfl, rfl, rfl, rfl, rfl⟩

theorem Along.trans {m1 m2 m3 : AgentMailboxMessage} (h : Along m1 m2) (h' : Along m2 m3) : Along m1 m3 := by
  refine ⟨h.state.trans h'.state, fun hs => ?_, ?_⟩
  · have hsame := h.settled hs
    subst hsame
    exact h'.settled hs
  · obtain ⟨h1, h2, h3, h4, h5, h6⟩ := h.identity
    obtain ⟨g1, g2, g3, g4, g5, g6⟩ := h'.identity
    exact ⟨g1.trans h1, g2.trans h2, g3.trans h3, g4.trans h4, g5.trans h5, g6.trans h6⟩

variable {m' : AgentMailboxMessage}

theorem MessageMove.along (h : MessageMove v' m m') : Along m m' := by
  cases h with
  | same => exact .refl m
  | deliver epoch hstate =>
    refine ⟨.single ?_, fun hs => ?_, rfl, rfl, rfl, rfl, rfl, rfl⟩
    · rw [hstate]
      exact .deliver epoch
    · rw [hstate] at hs
      cases hs
  | consume epoch hstate =>
    refine ⟨.single ?_, fun hs => ?_, rfl, rfl, rfl, rfl, rfl, rfl⟩
    · rw [hstate]
      exact .consume epoch
    · rw [hstate] at hs
      cases hs
  | reject hpending =>
    refine ⟨.single ?_, fun hs => ?_, rfl, rfl, rfl, rfl, rfl, rfl⟩
    · cases hstate : m.state with
      | accepted => exact .rejectAccepted
      | delivered epoch => exact .rejectDelivered epoch
      | _ =>
        rw [hstate] at hpending
        cases hpending
    · cases hstate : m.state with
      | consumed | rejected =>
        rw [hstate] at hpending
        cases hpending
      | _ =>
        rw [hstate] at hs
        cases hs

theorem Along.not_accepted (h : Along m m') (hstate : m.state ≠ .accepted) : m'.state ≠ .accepted := by
  rcases Relation.ReflTransGen.cases_tail h.state with heq | ⟨b, -, hlast⟩
  · rw [heq]
    exact hstate
  · intro hacc
    rw [hacc] at hlast
    cases hlast

theorem move_along (hv : Mailed v) (h : Move H v l v')
    (hm : v.mailbox.messages[k]? = some m) : ∃ m', v'.mailbox.messages[k]? = some m' ∧ Along m m' := by
  cases move_messages hv h k with
  | absent hold =>
    rw [hold] at hm
    cases hm
  | posted hold =>
    rw [hold] at hm
    cases hm
  | moved hold hnew hmove =>
    cases hold.symm.trans hm
    exact ⟨_, hnew, hmove.along⟩

variable {ls : List Label}

theorem mailed_moves (h : Moves H v ls v') (hv : Mailed v) : Mailed v' := by
  induction h with
  | nil => exact hv
  | cons hmove _ ih => exact ih (mailed_move hv hmove)

theorem moves_along (h : Moves H v ls v') (hv : Mailed v) : ∀ {m : AgentMailboxMessage}, v.mailbox.messages[k]? = some m →
      ∃ m', v'.mailbox.messages[k]? = some m' ∧ Along m m' := by
  induction h with
  | nil => exact fun hm => ⟨_, hm, .refl _⟩
  | cons hmove _ ih =>
    intro m hm
    obtain ⟨_, hm1, halong1⟩ := move_along hv hmove hm
    obtain ⟨m2, hm2, halong2⟩ := ih (mailed_move hv hmove) hm1
    exact ⟨m2, hm2, halong1.trans halong2⟩

/-! ## What is handed out -/

/-- A message as it is handed out: it was accepted, and is now delivered in the epoch it expects. -/
structure Handed (v v' : Scene) (m : AgentMailboxMessage) : Prop where
  before : ∀ m0, v.mailbox.messages[m.id]? = some m0 → m0.state = .accepted
  after : ∃ m', v'.mailbox.messages[m.id]? = some m' ∧ m'.state ≠ .accepted
  steer : m.kind = .steer → ∃ epoch, m.expectedEpoch = some epoch ∧ m.state = .delivered epoch

variable {task : Option MessageId} {starting : Bool}

theorem mem_deliver {m : AgentMailbox} {x : AgentMailboxMessage} (hx : x ∈ (m.deliver id epoch task starting).2) :
    ∃ (k : MessageId) (x0 : AgentMailboxMessage), m.messages[k]? = some x0 ∧ x0.state = .accepted ∧ (∀ e, x0.expectedEpoch = some e → e = epoch) ∧
      x = delivered epoch x0 ∧ (m.deliver id epoch task starting).1.messages[k]? = some x := by
  obtain ⟨x0, hx0, rfl⟩ := List.mem_map.1 hx
  obtain ⟨hmem, hhandling⟩ := List.mem_filter.1 hx0
  obtain ⟨k, hk⟩ := (Table.mem_vals _ x0).1 hmem
  have hhandling : handling id epoch task starting x0 = .deliver := of_decide_eq_true hhandling
  refine ⟨k, x0, hk, ?_, ?_, rfl, ?_⟩
  · unfold handling at hhandling
    split at hhandling
    · exact (‹_ ∧ _›).2
    · cases hhandling
  · intro e he
    unfold handling at hhandling
    split at hhandling
    · split at hhandling
      · cases hhandling
      · rename_i hexp
        rw [he] at hexp
        simpa using hexp
    · cases hhandling
  · rw [get_deliver, hk, Option.map_some, hhandling]
    rfl

theorem move_handed (hv : Mailed v) (h : Move H v l v') : ∀ m ∈ l.handedOut, Handed v v' m := by
  intro x hx
  cases h with
  | deliver _ epoch _ _ =>
    obtain ⟨k, x0, hk, hstate, hexp, rfl, hnew⟩ := mem_deliver hx
    have hid : x0.id = k := (hv.keys k x0 hk).1
    refine ⟨fun m0 hm0 => ?_, ⟨delivered epoch x0, ?_, fun hs => (by cases hs)⟩, fun hkind => ?_⟩
    · have hm0 : v.mailbox.messages[x0.id]? = some m0 := hm0
      rw [hid, hk] at hm0
      rw [← Option.some.inj hm0]
      exact hstate
    · change (AgentMailbox.deliver ..).1.messages[x0.id]? = _
      rw [hid]
      exact hnew
    · obtain ⟨e, he⟩ := Option.isSome_iff_exists.1 ((hv.steer k x0 hk).1 hkind)
      exact ⟨e, he, by rw [hexp e he]; rfl⟩
  | _ => cases hx

theorem move_sorted (hv : Mailed v) (h : Move H v l v') :
    (l.handedOut.map AgentMailboxMessage.sequence).Pairwise (· < ·) := by
  cases h with
  | deliver _ _ _ _ =>
    have hkeys : v.mailbox.messages.toList.Pairwise (fun p q => p.1 < q.1) :=
      (Std.ExtTreeMap.ordered_keys_toList (t := v.mailbox.messages)).imp (fun h => compare_lt_iff_lt.1 h)
    have hvals : (Table.vals v.mailbox.messages).Pairwise (fun x y => x.sequence < y.sequence) := by
      rw [Table.vals, List.pairwise_map]
      refine hkeys.imp_of_mem (fun {p q} hp hq hlt => ?_)
      rw [(hv.keys p.1 p.2 ((Table.mem_toList _ _ _).1 hp)).2.1, (hv.keys q.1 q.2 ((Table.mem_toList _ _ _).1 hq)).2.1]
      exact hlt
    simp only [Label.handedOut, AgentMailbox.deliver, List.map_map, List.pairwise_map]
    exact (hvals.filter _).imp (fun h => h)
  | _ => exact List.Pairwise.nil

theorem deliver_nodup (hv : Mailed v) (h : Move H v l v') : (l.handedOut.map AgentMailboxMessage.id).Nodup := by
  have hseq := move_sorted hv h
  have hsame : l.handedOut.map AgentMailboxMessage.id = l.handedOut.map AgentMailboxMessage.sequence := by
    refine List.map_congr_left (fun x hx => ?_)
    cases h with
    | deliver _ _ _ _ =>
      obtain ⟨k, x0, hk, -, -, rfl, -⟩ := mem_deliver hx
      exact (hv.keys k x0 hk).1.trans (hv.keys k x0 hk).2.1.symm
    | _ => cases hx
  rw [hsame]
  exact hseq.imp (fun h => Nat.ne_of_lt h)

/-- **Over a sequence of moves each message is handed out at most once**, and only if it was accepted. -/
theorem moves_handed (h : Moves H v ls v') : Mailed v →
    ((ls.flatMap Label.handedOut).map AgentMailboxMessage.id).Nodup ∧ ∀ m ∈ ls.flatMap Label.handedOut, Handed v v' m := by
  induction h with
  | nil => exact fun _ => ⟨List.nodup_nil, fun m hm => (by cases hm)⟩
  | @cons v _ _ l ls hmove hmoves ih =>
    intro hv
    have hv1 := mailed_move hv hmove
    obtain ⟨hnodup, hrest⟩ := ih hv1
    rw [List.flatMap_cons, List.map_append]
    refine ⟨List.Nodup.append (deliver_nodup hv hmove) hnodup (fun k hk hk' => ?_), fun m hm => ?_⟩
    · -- what this move delivers is not accepted any more when the rest begins
      obtain ⟨m, hm, rfl⟩ := List.mem_map.1 hk
      obtain ⟨m', hm', hid⟩ := List.mem_map.1 hk'
      obtain ⟨x, hx, hstate⟩ := (move_handed hv hmove m hm).after
      exact hstate ((hrest m' hm').before x (by rw [hid]; exact hx))
    · rcases List.mem_append.1 hm with hm | hm
      · obtain ⟨hbefore, ⟨x, hx, hstate⟩, hsteer⟩ := move_handed hv hmove m hm
        obtain ⟨y, hy, halong⟩ := moves_along hmoves hv1 hx
        exact ⟨hbefore, ⟨y, hy, halong.not_accepted hstate⟩, hsteer⟩
      · obtain ⟨hbefore, hafter, hsteer⟩ := hrest m hm
        refine ⟨fun m0 hm0 => ?_, hafter, hsteer⟩
        obtain ⟨x, hx, halong⟩ := move_along hv hmove hm0
        have haccepted := hbefore x hx
        exact Classical.byContradiction (fun hne => halong.not_accepted hne haccepted)

theorem moves_sorted (h : Moves H v ls v') : Mailed v → ls.countP Label.isHandOut ≤ 1 →
    ((ls.flatMap Label.handedOut).map AgentMailboxMessage.sequence).Pairwise (· < ·) := by
  have hnone : ∀ {ls : List Label}, ls.countP Label.isHandOut = 0 → ls.flatMap Label.handedOut = [] := by
    intro ls hcount
    refine List.flatMap_eq_nil_iff.2 (fun l hl => ?_)
    have hl := List.countP_eq_zero.1 hcount l hl
    cases l <;> first | rfl | exact absurd rfl hl
  induction h with
  | nil => exact fun _ _ => List.Pairwise.nil
  | @cons v _ _ l ls hmove _ ih =>
    intro hv hcount
    rw [List.countP_cons] at hcount
    rw [List.flatMap_cons]
    by_cases hl : l.isHandOut = true
    · rw [if_pos hl] at hcount
      rw [hnone (by omega), List.append_nil]
      exact move_sorted hv hmove
    · have hempty : l.handedOut = [] := by
        cases l <;> first | rfl | exact absurd rfl hl
      rw [hempty, List.nil_append]
      exact ih (mailed_move hv hmove) (by omega)

/-! ## Runs -/

theorem deliver_unchanged {m : AgentMailbox} (h : (m.deliver id epoch task starting).1.messages.toList = m.messages.toList) :
    (m.deliver id epoch task starting).2 = [] := by
  refine List.eq_nil_iff_forall_not_mem.2 (fun x hx => ?_)
  obtain ⟨k, _, hk, hstate, -, rfl, hnew⟩ := mem_deliver hx
  have hmem := (Table.mem_toList _ k _).2 hnew
  rw [h] at hmem
  have hsame := (Table.mem_toList _ k _).1 hmem
  rw [hk] at hsame
  have hdelivered := congrArg AgentMailboxMessage.state (Option.some.inj hsame)
  rw [hstate] at hdelivered
  cases hdelivered

/-- An answer without a commit hands out nothing. -/
def Silent (p : Prepared) : Prop := ∀ r, p = .answer r → r.handedOut = []

variable {s : AgentControllerSnapshot}

theorem silent_commit {reply : Except ControllerError Reply} : Silent (.commit s reply) := by
  rintro r ⟨⟩

variable {r : Reply}

theorem silent_answer (h : r.handedOut = []) : Silent (.answer r) := by
  rintro _ ⟨⟩
  exact h

theorem prepare_silent (s : AgentControllerSnapshot) (call : Call) : Ensures (prepare H s call) Silent := by
  cases call with
  | claimWorkflowTask claim now =>
    refine .bind fun lease hlease => ?_
    cases lease with
    | some lease =>
      refine .pure (silent_answer ?_)
      simp only [existingWorkflowLease, bind_eq_ok] at hlease
      obtain ⟨_, -, hlease⟩ := hlease
      split at hlease
      · cases hlease
      · simp only [bind_eq_ok, pure_eq_ok, Option.some.injEq] at hlease
        obtain ⟨_, -, _, -, _, -, _, -, rfl⟩ := hlease
        rfl
    | none => repeat' first | exact .pure silent_commit | refine .bind fun _ _ => ?_
  | spawnWorkflowChild _ _ _ _ now =>
    refine .bind fun _ _ => .bind fun claim _ => ?_
    dsimp only
    split
    · refine .bind fun reply hreply => .pure (silent_answer ?_)
      simp only [existingWorkflowChild, bind_eq_ok, pure_eq_ok] at hreply
      obtain ⟨_, -, _, -, _, -, _, -, _, -, rfl⟩ := hreply
      rfl
    · repeat' first | exact .pure silent_commit | refine .bind fun _ _ => ?_
  | deliver _ _ _ =>
    refine .bind fun _ _ => .bind fun r' _ => ?_
    dsimp only
    split
    · rename_i hsame
      exact .pure (silent_answer (deliver_unchanged hsame))
    · repeat' first | exact .pure silent_commit | refine .bind fun _ _ => ?_
  | _ =>
    -- every other call answers without a message, or commits
    repeat' first
      | exact .pure silent_commit
      | exact .pure (silent_answer rfl)
      | refine .bind fun _ _ => ?_
      | split
      | dsimp only

theorem answer_handedOut {call : Call} (h : prepare H s call = .ok (.answer r)) : r.handedOut = [] :=
  prepare_silent s call _ h r rfl

def Entry.handedOut (entry : Entry) : List AgentMailboxMessage :=
  match entry.reply with
  | .ok r => r.handedOut
  | .error _ => []

def World.handedOut (w : World) : List AgentMailboxMessage := w.log.flatMap Entry.handedOut

structure Delivering (w : World) : Prop where
  scene : ∀ s, w.durable = some s → Mailed s.scene
  nodup : (w.handedOut.map AgentMailboxMessage.id).Nodup
  taken : ∀ m ∈ w.handedOut, ∃ s m', w.durable = some s ∧ s.mailbox.messages[m.id]? = some m' ∧ m'.state ≠ .accepted
  steer : ∀ m ∈ w.handedOut, m.kind = .steer → ∃ epoch, m.expectedEpoch = some epoch ∧ m.state = .delivered epoch
  sorted : ∀ entry ∈ w.log, (entry.handedOut.map AgentMailboxMessage.sequence).Pairwise (· < ·)

theorem mailed_genesis (config : AgentControllerConfig) : Mailed (Controller.genesis config).scene := by
  refine ⟨fun k m hm => ?_, fun k m hm => ?_, fun k m hm => ?_, fun k m e e' hm => ?_, fun k m e hm => ?_⟩ <;>
  · cases hm

theorem delivering_advance {w w' : World} (hw : Coherent w) (h : Advance H w w') (hd : Delivering w) : Delivering w' := by
  have hscene : ∀ s, w'.durable = some s → Mailed s.scene := by
    intro s' hs'
    cases hs : w.durable with
    | some s =>
      obtain ⟨s'', ls, hs'', hmoves⟩ := advance_moves hw h hs
      cases hs''.symm.trans hs'
      exact mailed_moves hmoves (hd.scene s hs)
    | none =>
      obtain ⟨config, rfl⟩ := advance_first h hs hs'
      exact mailed_genesis config
  have htaken : ∀ m ∈ w.handedOut,
      ∃ s m', w'.durable = some s ∧ s.mailbox.messages[m.id]? = some m' ∧ m'.state ≠ .accepted := by
    intro m hm
    obtain ⟨s, m', hs, hm', hstate⟩ := hd.taken m hm
    obtain ⟨s', ls, hs', hmoves⟩ := advance_moves hw h hs
    obtain ⟨m'', hm'', halong⟩ := moves_along hmoves (hd.scene s hs) hm'
    exact ⟨s', m'', hs', hm'', halong.not_accepted hstate⟩
  have hsame : w'.handedOut = w.handedOut → (∀ entry ∈ w'.log, entry.handedOut = [] ∨ entry ∈ w.log) → Delivering w' := by
    intro hout hlog
    refine ⟨hscene, by rw [hout]; exact hd.nodup, by rw [hout]; exact htaken, by rw [hout]; exact hd.steer, ?_⟩
    intro entry hentry
    rcases hlog entry hentry with hnil | hold
    · rw [hnil]
      exact List.Pairwise.nil
    · exact hd.sorted entry hold
  cases h with
  | still hdurable hlog => exact hsame (by rw [World.handedOut, hlog]; rfl) (fun e he => .inr (hlog ▸ he))
  | quarantine _ _ _ hlog => exact hsame (by rw [World.handedOut, hlog]; rfl) (fun e he => .inr (hlog ▸ he))
  | genesis _ _ hlog => exact hsame (by rw [World.handedOut, hlog]; rfl) (fun e he => .inr (hlog ▸ he))
  | answer hdurable hlog hreply =>
    rename_i call before reply
    have hnil : Entry.handedOut ⟨call, before, none, reply⟩ = [] := by
      cases hr : reply with
      | error e => rfl
      | ok r => exact answer_handedOut (hreply r hr)
    refine hsame (by rw [World.handedOut, hlog, List.flatMap_cons, hnil]; rfl) (fun e he => ?_)
    rw [hlog] at he
    rcases List.mem_cons.1 he with rfl | he
    · exact .inl hnil
    · exact .inr he
  | commit hbefore hprepare hvalid hafter hrevision hlog hreply =>
    rename_i s s' call reply reply'
    have hmailed := hd.scene s hbefore
    obtain ⟨out, ⟨ls, hmoves, -, hout, hcount⟩, hexact⟩ := commit_moves (hw.sound s hbefore) hprepare
    have hentry : Entry.handedOut ⟨call, s, some s', reply'⟩ = [] ∨
        Entry.handedOut ⟨call, s, some s', reply'⟩ = ls.flatMap Label.handedOut := by
      cases hr : reply' with
      | error e => exact .inl rfl
      | ok r => exact .inr ((hexact r (hreply r hr)).trans hout.symm)
    rcases hentry with hentry | hentry
    · refine hsame (by rw [World.handedOut, hlog, List.flatMap_cons, hentry]; rfl) (fun e he => ?_)
      rw [hlog] at he
      rcases List.mem_cons.1 he with rfl | he
      · exact .inl hentry
      · exact .inr he
    · obtain ⟨hnodup, hhanded⟩ := moves_handed hmoves hmailed
      have hworld : w'.handedOut = ls.flatMap Label.handedOut ++ w.handedOut := by
        rw [World.handedOut, hlog, List.flatMap_cons, hentry]
        rfl
      refine ⟨hscene, ?_, ?_, ?_, ?_⟩
      · rw [hworld, List.map_append]
        refine List.Nodup.append hnodup hd.nodup (fun k hk hk' => ?_)
        -- a message handed out before is not accepted any more
        obtain ⟨m, hm, rfl⟩ := List.mem_map.1 hk
        obtain ⟨m0, hm0, hid⟩ := List.mem_map.1 hk'
        obtain ⟨_, x, hs0, hx, hstate⟩ := hd.taken m0 hm0
        cases hs0.symm.trans hbefore
        exact hstate ((hhanded m hm).before x (by rw [← hid]; exact hx))
      · intro m hm
        rw [hworld] at hm
        rcases List.mem_append.1 hm with hm | hm
        · obtain ⟨x, hx, hstate⟩ := (hhanded m hm).after
          exact ⟨s', x, hafter, hx, hstate⟩
        · exact htaken m hm
      · intro m hm
        rw [hworld] at hm
        rcases List.mem_append.1 hm with hm | hm
        · exact (hhanded m hm).steer
        · exact hd.steer m hm
      · intro entry he
        rw [hlog] at he
        rcases List.mem_cons.1 he with rfl | he
        · rw [hentry]
          exact moves_sorted hmoves hmailed hcount
        · exact hd.sorted entry he

theorem delivering_run (es : List Event) : Delivering (World.run H es) :=
  run_invariant ⟨fun s hs => (by cases hs), List.nodup_nil, fun m hm => (by cases hm), fun m hm => (by cases hm),
    fun e he => (by cases he)⟩ (fun _ _ hw _ h hd => delivering_advance hw h hd) es

theorem run_along (es fs : List Event) (hs : (World.run H es).durable = some s) (hm : s.mailbox.messages[k]? = some m) :
    ∃ s' m', (World.run H (es ++ fs)).durable = some s' ∧ s'.mailbox.messages[k]? = some m' ∧ Along m m' := by
  induction fs using List.reverseRecOn with
  | nil => exact ⟨s, m, by rw [List.append_nil]; exact hs, hm, .refl m⟩
  | append_singleton fs e ih =>
    obtain ⟨s1, _, hs1, hm1, halong1⟩ := ih
    rw [← List.append_assoc, World.run_append]
    obtain ⟨s2, _, hs2, hmoves⟩ := advance_moves (coherent_run _) (step_advance (coherent_run (H := H) (es ++ fs)) e) hs1
    obtain ⟨m2, hm2, halong2⟩ := moves_along hmoves ((delivering_run (es ++ fs)).scene s1 hs1) hm1
    exact ⟨s2, m2, hs2, hm2, halong1.trans halong2⟩

/-- **Every message is taken at most once**, over every run of calls, lost answers, crashes and openings.  Between any two
times of a run a message moves only along its life, and not at all once consumed or rejected.  No message is handed out
twice, and each call hands out in the order of the sequence.  A steering message is handed out, delivered and consumed in
the epoch it expects only.  A text is kept exactly while its message is accepted or delivered, and the receiver of a
delivered message is neither idle nor closed. -/
theorem mailbox_exactly_once (H : Hashes) (es fs : List Event) :
    (∀ (s : AgentControllerSnapshot) (k : MessageId) (m : AgentMailboxMessage), (World.run H es).durable = some s →
        s.mailbox.messages[k]? = some m → ∃ s' m', (World.run H (es ++ fs)).durable = some s' ∧
          s'.mailbox.messages[k]? = some m' ∧ Along m m') ∧
      ((World.run H es).handedOut.map AgentMailboxMessage.id).Nodup ∧
      (∀ entry ∈ (World.run H es).log, (entry.handedOut.map AgentMailboxMessage.sequence).Pairwise (· < ·)) ∧
      (∀ m ∈ (World.run H es).handedOut, m.kind = .steer →
        ∃ epoch, m.expectedEpoch = some epoch ∧ m.state = .delivered epoch) ∧
      (∀ (s : AgentControllerSnapshot) (k : MessageId) (m : AgentMailboxMessage), (World.run H es).durable = some s →
        s.mailbox.messages[k]? = some m →
        (∀ epoch, m.kind = .steer → m.state = .delivered epoch ∨ m.state = .consumed epoch →
          m.expectedEpoch = some epoch) ∧
        (m.text.isSome = true ↔ m.state = .accepted ∨ ∃ epoch, m.state = .delivered epoch) ∧
        (∀ epoch, m.state = .delivered epoch →
          ∃ r, s.agents[m.receiver]? = some r ∧ r.view.state ≠ .idle ∧ r.view.state ≠ .closed)) := by
  have hd := delivering_run (H := H) es
  refine ⟨fun s k m hs hm => run_along es fs hs hm, hd.nodup, hd.sorted, hd.steer, fun s k m hs hm => ?_⟩
  have hmailed := hd.scene s hs
  refine ⟨fun epoch hkind hstate => ?_, ?_, fun epoch hstate => ?_⟩
  · obtain ⟨e, he⟩ := Option.isSome_iff_exists.1 ((hmailed.steer k m hm).1 hkind)
    rw [he, hmailed.epoch k m epoch e hm hstate he]
  · rw [hmailed.text k m hm]
    cases m.state <;> simp [isPending]
  · obtain ⟨c, hc, hepoch⟩ := hmailed.held k m epoch hm hstate
    obtain ⟨r, hr, rfl⟩ := Option.map_eq_some_iff.1 hc
    have hepoch : r.view.state.epoch = some epoch := hepoch
    refine ⟨r, hr, fun hidle => ?_, fun hclosed => ?_⟩
    · rw [hidle] at hepoch
      cases hepoch
    · rw [hclosed] at hepoch
      cases hepoch

end Iteron.Agents
