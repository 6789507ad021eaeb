import Iteron.AgentMoves
/-!
# AgentRun — runs of the controller over one journal

A run is a sequence of openings and calls, each with the answers the journal gives.  One process holds the journal's
lease at a time, so an opening follows the end of the process before it.  Whatever the journal answers, what is durable
changes only by a commit that a call prepared from it, by a quarantine, or by the first snapshot (`step_advance`).
-/
namespace Iteron.Agents

open Refuse Machine AgentControllerSnapshot

/-- One call of a run: what was in memory, what became durable by it, and what it returned. -/
structure Entry where
  call : Call
  before : AgentControllerSnapshot
  stored : Option AgentControllerSnapshot
  reply : Except ControllerError Reply

/-- The journal, the process that holds it, and the calls so far, latest first. -/
structure World where
  durable : Option AgentControllerSnapshot
  live : Option Controller
  log : List Entry

inductive Event where
  | open (config : AgentControllerConfig) (failure : Option ControllerStoreError) (first second : Outcome)
  | call (call : Call) (outcome : Outcome)

def changed (before after : Option AgentControllerSnapshot) : Option AgentControllerSnapshot :=
  if before.map (fun s => s.revision) = after.map (fun s => s.revision) then none else after

namespace World

def start : World := ⟨none, none, []⟩

def step (H : Hashes) (w : World) : Event → World
  | .open config failure first second =>
    let (durable, result) := Controller.open H w.durable config failure first second
    { w with durable := durable, live := result.toOption }
  | .call call outcome =>
    match w.live with
    | none => w
    | some c =>
      let (durable, c', reply) := c.call H w.durable call outcome
      ⟨durable, some c', ⟨call, c.snapshot, changed w.durable durable, reply⟩ :: w.log⟩

def run (H : Hashes) (events : List Event) : World := events.foldl (step H) start

theorem run_append (H : Hashes) (es : List Event) (e : Event) : run H (es ++ [e]) = (run H es).step H e := by
  rw [run, List.foldl_append]
  rfl

end World

/-! ## The journal's answers -/

theorem journalCommit_cases (durable : Option AgentControllerSnapshot) (expected : Option Nat)
    (next : AgentControllerSnapshot) (outcome : Outcome) :
    (∃ e, journalCommit durable expected next outcome = (durable, .error e)) ∨
      (durable.map (fun s => s.revision) = expected ∧ next.revision = followingRevision expected ∧
        (journalCommit durable expected next outcome = (some next, .ok ()) ∨
          journalCommit durable expected next outcome = (some next, .error .outcomeUnknown))) := by
  unfold journalCommit
  split
  · exact .inl ⟨_, rfl⟩
  · rename_i hexpected
    split
    · exact .inl ⟨_, rfl⟩
    · rename_i hrevision
      have hnext : next.revision = followingRevision expected := not_not.1 hrevision
      cases outcome with
      | done => exact .inr ⟨not_not.1 hexpected, hnext, .inl rfl⟩
      | refused => exact .inl ⟨_, rfl⟩
      | unknown stored =>
        cases stored with
        | true => exact .inr ⟨not_not.1 hexpected, hnext, .inr rfl⟩
        | false => exact .inl ⟨_, rfl⟩

variable {H : Hashes}

namespace Controller

theorem commit_cases (durable : Option AgentControllerSnapshot) (c : Controller) (next : AgentControllerSnapshot)
    (outcome : Outcome) : (∃ c' e, c.commit H durable next outcome = (durable, c', .error e) ∧ (c' = c ∨ c'.poisoned = true)) ∨
      (next.validateSnapshot H = .ok () ∧ durable.map (fun s => s.revision) = some c.snapshot.revision ∧
        next.revision = saturatingAdd c.snapshot.revision 1 ∧
        (c.commit H durable next outcome = (some next, { c with snapshot := next }, .ok ()) ∨
          ∃ c' e, c.commit H durable next outcome = (some next, c', .error e) ∧ c'.poisoned = true)) := by
  unfold commit
  cases hvalid : next.validateSnapshot H with
  | error e => exact .inl ⟨c, e, rfl, .inl rfl⟩
  | ok u =>
    dsimp only
    split
    · exact .inl ⟨c, _, rfl, .inl rfl⟩
    · rcases journalCommit_cases durable (some c.snapshot.revision) next outcome with
        ⟨e, he⟩ | ⟨hexpected, hrevision, he | he⟩
      · rw [he]
        cases e with
        | unavailable => exact .inl ⟨c, _, rfl, .inl rfl⟩
        | outcomeUnknown => exact .inl ⟨_, _, rfl, .inr rfl⟩
        | conflict => exact .inl ⟨_, _, rfl, .inr rfl⟩
      · rw [he]
        exact .inr ⟨rfl, hexpected, hrevision, .inl rfl⟩
      · rw [he]
        exact .inr ⟨rfl, hexpected, hrevision, .inr ⟨_, _, rfl, rfl⟩⟩

theorem call_cases (durable : Option AgentControllerSnapshot) (c : Controller) (call : Call) (outcome : Outcome) :
    ((c.call H durable call outcome).1 = durable ∧
        ((c.call H durable call outcome).2.1 = c ∨ (c.call H durable call outcome).2.1.poisoned = true) ∧
        ∀ r, (c.call H durable call outcome).2.2 = .ok r → prepare H c.snapshot call = .ok (.answer r)) ∨
      (∃ next reply, c.poisoned = false ∧ prepare H c.snapshot call = .ok (.commit next reply) ∧
        next.validateSnapshot H = .ok () ∧ durable.map (fun s => s.revision) = some c.snapshot.revision ∧
        next.revision = saturatingAdd c.snapshot.revision 1 ∧ (c.call H durable call outcome).1 = some next ∧
        ((c.call H durable call outcome).2.1 = { c with snapshot := next } ∨
          (c.call H durable call outcome).2.1.poisoned = true) ∧
        ∀ r, (c.call H durable call outcome).2.2 = .ok r → reply = .ok r) := by
  unfold Controller.call
  cases precheck call with
  | error e => exact .inl ⟨rfl, .inl rfl, fun r hr => (by cases hr)⟩
  | ok u =>
    cases hpoisoned : c.poisoned with
    | true => exact .inl ⟨rfl, .inl rfl, fun r hr => (by cases hr)⟩
    | false =>
      rw [if_neg (by simp)]
      cases hprepare : prepare H c.snapshot call with
      | error e => exact .inl ⟨rfl, .inl rfl, fun r hr => (by cases hr)⟩
      | ok prepared =>
        cases prepared with
        | answer reply => exact .inl ⟨rfl, .inl rfl, fun r hr => by rw [Except.ok.inj hr]⟩
        | commit next reply =>
          dsimp only
          rcases commit_cases (H := H) durable c next outcome with
            ⟨_, e, he, hc⟩ | ⟨hvalid, hexpected, hrevision, he | ⟨_, e, he, hc⟩⟩
          · rw [he]
            exact .inl ⟨rfl, hc, fun r hr => (by cases hr)⟩
          · rw [he]
            exact .inr ⟨next, reply, rfl, rfl, hvalid, hexpected, hrevision, rfl, .inl (by rw [hpoisoned]), fun r hr => hr⟩
          · rw [he]
            exact .inr ⟨next, reply, rfl, rfl, hvalid, hexpected, hrevision, rfl, .inr hc, fun r hr => (by cases hr)⟩

/-- What an opening leaves: the journal as it was, a first snapshot, or a quarantine; and a controller only of what is
durable. -/
theorem open_cases (durable : Option AgentControllerSnapshot) (config : AgentControllerConfig)
    (failure : Option ControllerStoreError) (first second : Outcome) :
    (∀ c, (Controller.open H durable config failure first second).2 = .ok c →
        c.poisoned = false ∧ (Controller.open H durable config failure first second).1 = some c.snapshot) ∧
      ((Controller.open H durable config failure first second).1 = durable ∨
        (durable = none ∧ (Controller.open H durable config failure first second).1 = some (genesis config)) ∨
        ∃ s, durable = some s ∧ s.validateSnapshot H = .ok () ∧ (Controller.open H durable config failure first second).1 =
            some { quarantine s with revision := s.revision + 1 }) := by
  unfold Controller.open
  cases config.validate with
  | error e => exact ⟨fun c hc => (by cases hc), .inl rfl⟩
  | ok u =>
    cases failure with
    | some e => exact ⟨fun c hc => (by cases hc), .inl rfl⟩
    | none =>
      cases durable with
      | none =>
        simp only [load]
        rcases journalCommit_cases none none (genesis config) first with ⟨e, he⟩ | ⟨-, -, he | he⟩
        · rw [he]
          exact ⟨fun c hc => (by cases hc), .inl rfl⟩
        · rw [he]
          exact ⟨fun c hc => by rw [← Except.ok.inj hc]; exact ⟨rfl, rfl⟩, .inr (.inl ⟨trivial, rfl⟩)⟩
        · rw [he]
          exact ⟨fun c hc => (by cases hc), .inr (.inl ⟨trivial, rfl⟩)⟩
      | some s =>
        simp only [load]
        cases hload : (do
            s.validateSnapshot H
            refuseIf (s.config ≠ config) (.invalid "controller configuration differs from durable genesis")
            pure s : Except ControllerError AgentControllerSnapshot) with
        | error e => exact ⟨fun c hc => (by cases hc), .inl rfl⟩
        | ok _ =>
          simp only [bind_eq_ok, pure_eq_ok] at hload
          obtain ⟨_, hvalid, _, -, rfl⟩ := hload
          dsimp only
          cases mustQuarantine s with
          | false =>
            exact ⟨fun c hc => by rw [← Except.ok.inj hc]; exact ⟨rfl, rfl⟩, .inl rfl⟩
          | true =>
            cases hrevision : nextRevision s.revision with
            | error e => exact ⟨fun c hc => (by cases hc), .inl rfl⟩
            | ok revision =>
              dsimp only
              have hnext := nextRevision_ok hrevision
              subst hnext
              rcases journalCommit_cases (some s) (some s.revision) { quarantine s with revision := s.revision + 1 }
                second with ⟨e, he⟩ | ⟨-, -, he | he⟩
              · rw [he]
                exact ⟨fun c hc => (by cases hc), .inl rfl⟩
              · rw [he]
                exact ⟨fun c hc => by rw [← Except.ok.inj hc]; exact ⟨rfl, rfl⟩, .inr (.inr ⟨s, rfl, hvalid, rfl⟩)⟩
              · rw [he]
                exact ⟨fun c hc => (by cases hc), .inr (.inr ⟨s, rfl, hvalid, rfl⟩)⟩

end Controller
/-! ## What a run makes durable -/

/-- A live controller knows what is durable, and that is sound. -/
structure Coherent (w : World) : Prop where
  live : ∀ c, w.live = some c → c.poisoned = false → w.durable = some c.snapshot
  sound : ∀ s, w.durable = some s → Sound s

/-- How one event changes the journal and the log. -/
inductive Advance (H : Hashes) (w w' : World) : Prop
  | still (hdurable : w'.durable = w.durable) (hlog : w'.log = w.log)
  | answer {call : Call} {before : AgentControllerSnapshot} {reply : Except ControllerError Reply}
      (hdurable : w'.durable = w.durable) (hlog : w'.log = ⟨call, before, none, reply⟩ :: w.log)
      (hreply : ∀ r, reply = .ok r → prepare H before call = .ok (.answer r))
  | commit {s s' : AgentControllerSnapshot} {call : Call} {reply reply' : Except ControllerError Reply}
      (hbefore : w.durable = some s) (hprepare : prepare H s call = .ok (.commit s' reply))
      (hvalid : s'.validateSnapshot H = .ok ()) (hafter : w'.durable = some s')
      (hrevision : s'.revision = s.revision + 1) (hlog : w'.log = ⟨call, s, some s', reply'⟩ :: w.log)
      (hreply : ∀ r, reply' = .ok r → reply = .ok r)
  | quarantine {s : AgentControllerSnapshot} (hbefore : w.durable = some s) (hvalid : s.validateSnapshot H = .ok ())
      (hafter : w'.durable = some { Controller.quarantine s with revision := s.revision + 1 }) (hlog : w'.log = w.log)
  | genesis {config : AgentControllerConfig} (hbefore : w.durable = none)
      (hafter : w'.durable = some (Controller.genesis config)) (hlog : w'.log = w.log)

variable {s : AgentControllerSnapshot}

theorem valid_revision (h : s.validateSnapshot H = .ok ()) : s.revision ≤ maxRevision := by
  simp only [validateSnapshot, bind_eq_ok, refuseIf_eq_ok, not_or, not_lt] at h
  obtain ⟨_, -, _, -, _, -, _, -, _, henvelope, -⟩ := h
  exact henvelope.2.1

theorem saturatingAdd_of_le {n m : Nat} (h : m ≤ maxRevision) (hm : m = saturatingAdd n 1) : m = n + 1 := by
  simp only [saturatingAdd, u64Max, maxRevision] at h hm
  omega

theorem call_changed {next : AgentControllerSnapshot} (h : next.revision = s.revision + 1) :
    changed (some s) (some next) = some next := by
  unfold changed
  rw [if_neg]
  simp only [Option.map_some, Option.some.injEq, h]
  omega

variable {w : World}

/-- **Whatever the journal answers, it changes only by a prepared commit, a quarantine or the first snapshot.** -/
theorem step_advance (hw : Coherent w) (e : Event) : Advance H w (w.step H e) := by
  cases e with
  | «open» config failure first second =>
    rcases (Controller.open_cases (H := H) w.durable config failure first second).2 with h | ⟨hnone, h⟩ | ⟨s, hs, hvalid, h⟩
    · exact .still h rfl
    · exact .genesis hnone h rfl
    · exact .quarantine hs hvalid h rfl
  | call call outcome =>
    simp only [World.step]
    cases hlive : w.live with
    | none => exact .still rfl rfl
    | some c =>
      dsimp only
      rcases Controller.call_cases (H := H) w.durable c call outcome with
        ⟨hdurable, -, hreply⟩ | ⟨_, _, hpoisoned, hprepare, hvalid, -, hrevision, hdurable, -, hreply⟩
      · refine .answer hdurable ?_ hreply
        rw [hdurable, changed, if_pos rfl]
      · have hbefore := hw.live c hlive hpoisoned
        have hnext := saturatingAdd_of_le (valid_revision hvalid) hrevision
        refine .commit hbefore hprepare hvalid hdurable hnext ?_ hreply
        rw [hdurable, hbefore, call_changed hnext]

theorem coherent_start : Coherent World.start := ⟨fun c hc => (by cases hc), fun s hs => (by cases hs)⟩

theorem coherent_step (hw : Coherent w) (e : Event) : Coherent (w.step H e) := by
  refine ⟨fun c hc hp => ?_, fun s hs => ?_⟩
  · cases e with
    | «open» config failure first second =>
      have hopen := (Controller.open_cases (H := H) w.durable config failure first second).1
      simp only [World.step] at hc ⊢
      cases hresult : (Controller.open H w.durable config failure first second).2 with
      | error e =>
        rw [hresult] at hc
        cases hc
      | ok c' =>
        rw [hresult] at hc
        obtain rfl : c' = c := Option.some.inj hc
        exact (hopen c' hresult).2
    | call call outcome =>
      simp only [World.step] at hc ⊢
      cases hlive : w.live with
      | none =>
        rw [hlive] at hc
        rw [hlive] at hc
        cases hc
      | some c0 =>
        rw [hlive] at hc
        dsimp only at hc ⊢
        have hc := Option.some.inj hc
        rcases Controller.call_cases (H := H) w.durable c0 call outcome with
          ⟨hdurable, hsame | hpoison, -⟩ | ⟨_, _, -, -, -, -, -, hdurable, hsame | hpoison, -⟩
        · rw [hdurable]
          rw [hsame] at hc
          subst hc
          exact hw.live c0 hlive hp
        · rw [hc, hp] at hpoison
          cases hpoison
        · rw [hsame] at hc
          rw [hdurable, ← hc]
        · rw [hc, hp] at hpoison
          cases hpoison
  · cases step_advance (H := H) hw e with
    | still hdurable => exact hw.sound s (hdurable ▸ hs)
    | answer hdurable => exact hw.sound s (hdurable ▸ hs)
    | commit _ _ hvalid hafter =>
      cases hafter.symm.trans hs
      exact sound_of_valid hvalid
    | quarantine hbefore _ hafter =>
      cases hafter.symm.trans hs
      exact sound_quarantine (hw.sound _ hbefore) _
    | genesis _ hafter =>
      cases hafter.symm.trans hs
      exact sound_genesis _

theorem coherent_run (es : List Event) : Coherent (World.run H es) := by
  induction es using List.reverseRecOn with
  | nil => exact coherent_start
  | append_singleton es e ih =>
    rw [World.run_append]
    exact coherent_step ih e

theorem run_invariant {P : World → Prop} (hstart : P World.start)
    (hstep : ∀ w w', Coherent w → Coherent w' → Advance H w w' → P w → P w') (es : List Event) : P (World.run H es) := by
  induction es using List.reverseRecOn with
  | nil => exact hstart
  | append_singleton es e ih =>
    rw [World.run_append]
    exact hstep _ _ (coherent_run es) (coherent_step (coherent_run es) e) (step_advance (coherent_run es) e) ih

theorem scene_quarantine (s : AgentControllerSnapshot) (revision : Nat) :
    AgentControllerSnapshot.scene { Controller.quarantine s with revision := revision } = s.scene.quarantine := by
  simp only [AgentControllerSnapshot.scene, Scene.quarantine, Scene.mk.injEq]
  refine ⟨funext (fun id => ?_), rfl⟩
  rw [Controller.quarantine, Table.get_map, Option.map_map, Option.map_map]
  rfl

theorem advance_moves {w' : World} (hw : Coherent w) (h : Advance H w w') (hs : w.durable = some s) :
    ∃ s' ls, w'.durable = some s' ∧ Moves H s.scene ls s'.scene := by
  cases h with
  | still hdurable => exact ⟨s, [], hdurable.trans hs, .nil _⟩
  | answer hdurable => exact ⟨s, [], hdurable.trans hs, .nil _⟩
  | commit hbefore hprepare hvalid hafter =>
    cases hbefore.symm.trans hs
    obtain ⟨_, ⟨ls, hmoves, -, -⟩, -⟩ := commit_moves (hw.sound _ hs) hprepare
    exact ⟨_, ls, hafter, hmoves⟩
  | quarantine hbefore hvalid hafter =>
    cases hbefore.symm.trans hs
    exact ⟨_, [.silent], hafter, by rw [scene_quarantine]; exact .one .quarantine⟩
  | genesis hbefore =>
    rw [hs] at hbefore
    cases hbefore

theorem advance_first {w' : World} (h : Advance H w w') (hnone : w.durable = none) (hs : w'.durable = some s) :
    ∃ config, s = Controller.genesis config := by
  cases h with
  | genesis _ hafter => exact ⟨_, Option.some.inj (hs.symm.trans hafter)⟩
  | still hdurable =>
    rw [hdurable, hnone] at hs
    cases hs
  | answer hdurable =>
    rw [hdurable, hnone] at hs
    cases hs
  | commit hbefore =>
    rw [hnone] at hbefore
    cases hbefore
  | quarantine hbefore =>
    rw [hnone] at hbefore
    cases hbefore

/-- What holds of a new tree and is kept by every move holds of every durable scene. -/
theorem run_scene {P : Scene → Prop} (hgenesis : ∀ config, P (Controller.genesis config).scene)
    (hmoves : ∀ {v v' : Scene} {ls : List Label}, Moves H v ls v' → P v → P v') (es : List Event) :
    ∀ s, (World.run H es).durable = some s → P s.scene := by
  refine run_invariant (P := fun w => ∀ s, w.durable = some s → P s.scene) (fun s hs => (by cases hs)) ?_ es
  intro w w' hw _ h hp s' hs'
  cases hs : w.durable with
  | some s =>
    obtain ⟨_, ls, hs1, hrun⟩ := advance_moves hw h hs
    cases hs1.symm.trans hs'
    exact hmoves hrun (hp s hs)
  | none =>
    obtain ⟨config, rfl⟩ := advance_first h hs hs'
    exact hgenesis config

/-! ## A worker below the root -/

def World.stateOf (w : World) (id : AgentId) : Option AgentState :=
  w.durable.bind (fun s => s.agents[id]?.map (fun r => r.view.state))

def workDigest : String := "00e13ed7af55b27622f1d6eab5bec0147e68efe28dc2b12461117afa1a5ed40e"

def spawnWorker : AgentCommand := .spawn 1 "worker" "work" ⟨1⟩ ⟨4, 300, 120, 60000⟩ []

def closeWorker : AgentCommand := .close 2 false

/-- The digests of the worker's task and of the two commands. -/
def workerHashes : Hashes :=
  { sampleHashes with
    text := fun _ => workDigest
    command := fun c => if c = spawnWorker then "ea1ed1cb8b9084d84054c30497e6ef5f48457f8adaeea1af4224f69c60d502c7"
      else "fc116a8257527b5dfa28b1d7ec78eda578d252dfeb52d1ce77b4f7ec6d55f956" }

def openSample : Event := .open sampleConfig none .done .done

def startedWorker : List Event :=
  [openSample, .call (.execute .operator "spawn" spawnWorker none) .done, .call (.beginTurn 2 none) .done]

end Iteron.Agents
