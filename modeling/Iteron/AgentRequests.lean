import Iteron.AgentRun
/-!
# AgentRequests — a request takes effect once

A request is named by its actor and its identity.  The commit that performs it stores its receipt in the same snapshot,
and no later snapshot drops a receipt, so what the journal answered does not matter: a repeat finds the receipt or
performs the request for the first time.
-/
namespace Iteron.Agents

open Refuse AgentControllerSnapshot

variable {H : Hashes}

/-- The request a call makes: its actor, its identity and the digest its receipt carries. -/
def Call.request (H : Hashes) : Call → Option (AgentActor × String × String)
  | .execute actor requestId command _ => some (actor, requestId, H.command command)
  | .spawnWorkflowChild actor requestId spawn binding _ => some (actor, requestId, H.childRequest spawn binding)
  | _ => none

def Entry.effect (H : Hashes) (e : Entry) : Option (AgentActor × String) :=
  if e.stored.isSome then (e.call.request H).map (fun r => (r.1, r.2.1)) else none

def World.effects (H : Hashes) (w : World) : List (AgentActor × String) := w.log.filterMap (Entry.effect H)

/-! ## Receipts -/

section Receipts

variable {s s' : AgentControllerSnapshot} {reply : Except ControllerError Reply}

/-- What a commit does to the receipts: nothing, or it adds the one of its request, which had none. -/
def Receipts (H : Hashes) (s : AgentControllerSnapshot) (call : Call) (s' : AgentControllerSnapshot) : Prop :=
  match call.request H with
  | none => s'.receipts = s.receipts
  | some (actor, requestId, digest) => s.receipts[requestKey actor requestId]? = none ∧
      ∃ r, r.replayed = false ∧ s'.receipts = s.receipts.insert (requestKey actor requestId) ⟨digest, r⟩

variable {actor : AgentActor} {requestId : String}

theorem execute_receipts (hs : Sound s) {command : AgentCommand} {native : Option AgentEngineExecution}
    (h : s.executeWithNativeChild H actor requestId command native = .ok (.commit s' reply)) :
    s.checkActor actor = .ok () ∧ command.validate = .ok () ∧ validRequestId requestId = true ∧
      s.receipts[requestKey actor requestId]? = none ∧ ∃ r, r.replayed = false ∧ reply = .ok (.control r) ∧
        s'.receipts = s.receipts.insert (requestKey actor requestId) ⟨H.command command, r⟩ := by
  obtain ⟨⟨hactor, hcommand, hid, hnone⟩, p, control, _, hperform, hfirst, rfl, rfl⟩ := execute_commit h
  have hcommand : command.validate = .ok () := by
    cases hv : command.validate with
    | error e => rw [hv] at hcommand; cases hcommand
    | ok u => rfl
  obtain ⟨-, hreceipts, -⟩ := perform_ok hs requestId hperform
  exact ⟨hactor, hcommand, hid, hnone, control, hfirst, rfl, by rw [← hreceipts]⟩

theorem spawnWorkflowChild_receipts (hs : Sound s) {spawn : AgentCommand} {binding : AgentWorkflowChildBinding}
    {now : Nat} (h : s.spawnWorkflowChild H actor requestId spawn binding now = .ok (.commit s' reply)) :
    Receipts H s (.spawnWorkflowChild actor requestId spawn binding now) s' := by
  obtain ⟨hnone, _, _, _, r, _, _, _, control, hspawn, hr, htask, hfirst, rfl, -⟩ := spawnWorkflowChild_commit h
  obtain ⟨-, ⟨_, hr', hidle⟩, hspawned, -⟩ := prepareChildSpawn_ok hs hspawn
  cases hr.symm.trans hr'
  obtain ⟨-, hreceipts, -⟩ := admitTask_ok (H := H) hr hidle htask
  exact ⟨hnone, control, hfirst, by rw [← hspawned, ← hreceipts]⟩

theorem commit_receipts (hs : Sound s) {call : Call} (h : prepare H s call = .ok (.commit s' reply)) :
    Receipts H s call s' := by
  cases call with
  | execute actor requestId _ _ =>
    obtain ⟨-, -, -, hnone, r, hr, -, hreceipts⟩ := execute_receipts hs h
    exact ⟨hnone, r, hr, hreceipts⟩
  | spawnWorkflowChild actor requestId _ _ now => exact spawnWorkflowChild_receipts hs h
  | beginParentRuntimeTurn _ _ =>
    simp only [prepare, beginParentRuntimeTurn, bind_eq_ok, pure_eq_ok, Prepared.commit.injEq] at h
    obtain ⟨_, -, _, -, _, -, r, -, _, -, _, -, ⟨next, _⟩, hpost, _, -, _, -, _, -, rfl, -⟩ := h
    obtain ⟨mailbox, -, hnext⟩ := enqueue_ok hpost
    subst hnext
    exact rfl
  | claimWorkflowTask _ now =>
    obtain ⟨-, r, ⟨_, _⟩, _, _, ⟨hr, hidle⟩, hpost, htask, -⟩ := claimWorkflowTask_commit h
    obtain ⟨mailbox, -, hqueued⟩ := enqueue_ok hpost
    subst hqueued
    exact (admitTask_ok (H := H) (s := { s with mailbox := mailbox }) hr hidle htask).2.1
  | _ =>
    refine (show Ensures _ (Prepared.OnCommit fun s' _ => s'.receipts = s.receipts) from ?_) _ h
    repeat' first
      | exact .pure trivial
      | exact .pure rfl
      | refine .bind fun _ _ => ?_
      | split
      | dsimp only

end Receipts

variable {w w' : World}

theorem receipts_advance (hw : Coherent w) (h : Advance H w w') {s : AgentControllerSnapshot} (hs : w.durable = some s) :
    ∃ s', w'.durable = some s' ∧ ∀ (k : String) (v : RequestReceipt), s.receipts[k]? = some v → s'.receipts[k]? = some v := by
  cases h with
  | still hdurable => exact ⟨s, hdurable.trans hs, fun _ _ hv => hv⟩
  | answer hdurable => exact ⟨s, hdurable.trans hs, fun _ _ hv => hv⟩
  | commit hbefore hprepare hvalid hafter =>
    cases hbefore.symm.trans hs
    refine ⟨_, hafter, fun k v hv => ?_⟩
    have hreceipts := commit_receipts (hw.sound _ hs) hprepare
    unfold Receipts at hreceipts
    split at hreceipts
    · rw [hreceipts]
      exact hv
    · obtain ⟨hnone, r, -, hinsert⟩ := hreceipts
      rw [hinsert, Table.get_insert, if_neg, hv]
      intro hk
      rw [hk, hv] at hnone
      cases hnone
  | quarantine hbefore hvalid hafter =>
    cases hbefore.symm.trans hs
    exact ⟨_, hafter, fun _ _ hv => hv⟩
  | genesis hbefore =>
    rw [hs] at hbefore
    cases hbefore

/-! ## Over a run -/

/-- The request took effect, and this is the reply it prepared. -/
def Took (H : Hashes) (e : Entry) (actor : AgentActor) (requestId : String) (command : AgentCommand)
    (r : AgentControlReply) : Prop :=
  ∃ native next, e.call = .execute actor requestId command native ∧ e.stored = some next ∧
    prepare H e.before e.call = .ok (.commit next (.ok (.control r)))

structure Receipted (H : Hashes) (w : World) : Prop where
  once : (w.effects H).Nodup
  held : ∀ e ∈ w.log, ∀ actor requestId digest, e.stored.isSome = true → e.call.request H = some (actor, requestId, digest) →
    ∃ s r, w.durable = some s ∧ s.receipts[requestKey actor requestId]? = some ⟨digest, r⟩
  commands : ∀ e ∈ w.log, ∀ next actor requestId command native, e.stored = some next →
    e.call = .execute actor requestId command native → command.validate = .ok () ∧ validRequestId requestId = true ∧
      ∃ r s, r.replayed = false ∧ Took H e actor requestId command r ∧ (∀ x, e.reply = .ok x → x = .control r) ∧
        w.durable = some s ∧ s.receipts[requestKey actor requestId]? = some ⟨H.command command, r⟩

variable {e : Entry}

theorem effect_eq_some {p : AgentActor × String} (h : e.effect H = some p) :
    e.stored.isSome = true ∧ ∃ digest, e.call.request H = some (p.1, p.2, digest) := by
  unfold Entry.effect at h
  split at h
  · rename_i hstored
    obtain ⟨⟨_, _, digest⟩, hr, rfl⟩ := Option.map_eq_some_iff.1 h
    exact ⟨hstored, digest, hr⟩
  · cases h

theorem receipted_old (hw : Coherent w) (h : Advance H w w') (hr : Receipted H w) :
    (∀ e ∈ w.log, ∀ actor requestId digest, e.stored.isSome = true → e.call.request H = some (actor, requestId, digest) →
        ∃ s r, w'.durable = some s ∧ s.receipts[requestKey actor requestId]? = some ⟨digest, r⟩) ∧
      ∀ e ∈ w.log, ∀ next actor requestId command native, e.stored = some next →
        e.call = .execute actor requestId command native → command.validate = .ok () ∧ validRequestId requestId = true ∧
          ∃ r s, r.replayed = false ∧ Took H e actor requestId command r ∧ (∀ x, e.reply = .ok x → x = .control r) ∧
            w'.durable = some s ∧ s.receipts[requestKey actor requestId]? = some ⟨H.command command, r⟩ := by
  constructor
  · intro e he actor requestId digest hstored hrequest
    obtain ⟨s, r, hs, hget⟩ := hr.held e he actor requestId digest hstored hrequest
    obtain ⟨s', hs', hkeep⟩ := receipts_advance hw h hs
    exact ⟨s', r, hs', hkeep _ _ hget⟩
  · intro e he next actor requestId command native hstored hcall
    obtain ⟨hvalid, hid, r, s, hreplayed, htook, hreply, hs, hget⟩ :=
      hr.commands e he next actor requestId command native hstored hcall
    obtain ⟨s', hs', hkeep⟩ := receipts_advance hw h hs
    exact ⟨hvalid, hid, r, s', hreplayed, htook, hreply, hs', hkeep _ _ hget⟩

theorem receipted_advance (hw : Coherent w) (h : Advance H w w') (hr : Receipted H w) : Receipted H w' := by
  obtain ⟨hheld, hcommands⟩ := receipted_old hw h hr
  have hsame : w'.log = w.log → Receipted H w' := fun hlog =>
    ⟨by rw [World.effects, hlog]; exact hr.once, by rw [hlog]; exact hheld, by rw [hlog]; exact hcommands⟩
  cases h with
  | still _ hlog => exact hsame hlog
  | quarantine _ _ _ hlog => exact hsame hlog
  | genesis _ _ hlog => exact hsame hlog
  | answer hdurable hlog hreply =>
    refine ⟨?_, fun e he => ?_, fun e he => ?_⟩
    · rw [World.effects, hlog, List.filterMap_cons]
      exact hr.once
    · rw [hlog] at he
      rcases List.mem_cons.1 he with rfl | he
      · intro _ _ _ hstored
        cases hstored
      · exact hheld e he
    · rw [hlog] at he
      rcases List.mem_cons.1 he with rfl | he
      · intro _ _ _ _ _ hstored
        cases hstored
      · exact hcommands e he
  | commit hbefore hprepare hvalid hafter hrevision hlog hreply =>
    rename_i s s' call reply reply'
    have hsound := hw.sound s hbefore
    have hreceipts := commit_receipts hsound hprepare
    refine ⟨?_, fun e he => ?_, fun e he => ?_⟩
    · rw [World.effects, hlog, List.filterMap_cons]
      split
      · exact hr.once
      · rename_i p hp
        refine List.nodup_cons.2 ⟨fun hmem => ?_, hr.once⟩
        -- the request had no receipt before this commit
        obtain ⟨e, he, heffect⟩ := List.mem_filterMap.1 hmem
        obtain ⟨-, digest, hrequest⟩ := effect_eq_some hp
        obtain ⟨hstored, _, hrequest'⟩ := effect_eq_some heffect
        obtain ⟨_, r, hs0, hget⟩ := hr.held e he _ _ _ hstored hrequest'
        cases hs0.symm.trans hbefore
        unfold Receipts at hreceipts
        rw [hrequest] at hreceipts
        have hnone := hreceipts.1
        rw [hget] at hnone
        cases hnone
    · rw [hlog] at he
      rcases List.mem_cons.1 he with rfl | he
      · intro actor requestId digest hstored hrequest
        unfold Receipts at hreceipts
        rw [hrequest] at hreceipts
        obtain ⟨-, r, -, hinsert⟩ := hreceipts
        exact ⟨s', r, hafter, by rw [hinsert, Table.get_insert, if_pos rfl]⟩
      · exact hheld e he
    · rw [hlog] at he
      rcases List.mem_cons.1 he with rfl | he
      · intro next actor requestId command native hstored hcall
        subst hcall
        obtain ⟨-, hcommand, hid, -, r, hreplayed, rfl, hinsert⟩ := execute_receipts hsound hprepare
        refine ⟨hcommand, hid, r, s', hreplayed, ⟨native, s', rfl, rfl, hprepare⟩, fun x hx => ?_, hafter, ?_⟩
        · exact (Except.ok.inj (hreply x hx)).symm
        · rw [hinsert, Table.get_insert, if_pos rfl]
      · exact hcommands e he

theorem receipted_run (es : List Event) : Receipted H (World.run H es) :=
  run_invariant ⟨List.nodup_nil, fun e he => (by cases he), fun e he => (by cases he)⟩
    (fun _ _ hw _ h hr => receipted_advance hw h hr) es

/-! ## Repeats -/

variable {command : AgentCommand}

theorem execute_receipt {s : AgentControllerSnapshot} {actor : AgentActor} {requestId : String} {prior : RequestReceipt}
    (hactor : s.checkActor actor = .ok ()) (hcommand : command.validate = .ok ())
    (hid : validRequestId requestId = true) (hprior : s.receipts[requestKey actor requestId]? = some prior) :
    prepare H s (.execute actor requestId command none) =
      if prior.digest = H.command command then .ok (.answer (.control { prior.reply with replayed := true }))
      else .error .requestConflict := by
  simp only [prepare, executeWithNativeChild, validateOption, execute, hactor, hcommand, liftInvalid, hid, hprior, refuseIf,
    Bool.true_eq_false, if_false, bind, Except.bind]
  by_cases hdigest : prior.digest = H.command command
  · simp [hdigest, pure, Except.pure]
  · simp [hdigest]

variable {c : Controller} {durable : Option AgentControllerSnapshot} {call : Call} {outcome : Outcome}

theorem call_of_prepare {result : Except ControllerError Reply} (hlive : c.poisoned = false)
    (hpre : precheck call = .ok ()) (h : prepare H c.snapshot call = result.map Prepared.answer) :
    c.call H durable call outcome = (durable, c, result) := by
  unfold Controller.call
  rw [hpre, hlive, h]
  cases result with
  | error e => rfl
  | ok r => rfl

/-- The journal's answer to the commit a call asks for, if it asks for one. -/
def Controller.answered (H : Hashes) (durable : Option AgentControllerSnapshot) (c : Controller) (call : Call)
    (outcome : Outcome) : Option (Except ControllerStoreError Unit) :=
  match precheck call, c.poisoned, prepare H c.snapshot call with
  | .ok (), false, .ok (.commit next _) =>
    match next.validateSnapshot H with
    | .error _ => none
    | .ok () =>
      if H.snapshotBytes next > maxSnapshotBytes then none
      else some (journalCommit durable (some c.snapshot.revision) next outcome).2
  | _, _, _ => none

theorem call_poisons {e : ControllerStoreError} (h : c.answered H durable call outcome = some (.error e))
    (he : e ≠ .unavailable) :
    (c.call H durable call outcome).2.2 = .error (.store e) ∧ (c.call H durable call outcome).2.1.poisoned = true := by
  unfold Controller.answered at h
  split at h
  · rename_i next reply hpre hlive hprepare
    split at h
    · cases h
    · rename_i hvalid
      split at h
      · cases h
      · rename_i hsize
        have hanswer := Option.some.inj h
        simp only [Controller.call, hpre, hlive, hprepare, Controller.commit, hvalid, if_neg hsize, Bool.false_eq_true, if_false]
        generalize journalCommit durable (some c.snapshot.revision) next outcome = p at hanswer ⊢
        obtain ⟨_, _⟩ := p
        subst hanswer
        cases e with
        | unavailable => cases he rfl
        | outcomeUnknown => exact ⟨rfl, rfl⟩
        | conflict => exact ⟨rfl, rfl⟩
  · cases h

theorem call_poisoned {c : Controller} (hc : c.poisoned = true) (call : Call) (outcome : Outcome) :
    (c.call H durable call outcome).1 = durable ∧ (c.call H durable call outcome).2.1 = c := by
  unfold Controller.call
  cases precheck call with
  | error e => exact ⟨rfl, rfl⟩
  | ok u =>
    rw [hc, if_pos rfl]
    exact ⟨rfl, rfl⟩

/-- A controller after operations on a journal that others may change in between. -/
def Controller.after (H : Hashes) (c : Controller) (later : List (Option AgentControllerSnapshot × Call × Outcome)) :
    Controller :=
  later.foldl (fun c x => (c.call H x.1 x.2.1 x.2.2).2.1) c

theorem after_poisoned (hc : c.poisoned = true)
    (later : List (Option AgentControllerSnapshot × Call × Outcome)) : c.after H later = c := by
  unfold Controller.after
  induction later with
  | nil => rfl
  | cons x later ih =>
    rw [List.foldl_cons, (call_poisoned hc x.2.1 x.2.2).2]
    exact ih

/-- A request at a world: it takes effect at most once; its first reply is what it prepared; a repeat with the same command
answers that reply again; a repeat with another of the `checked` commands is a conflict. -/
structure ExactlyOnce (H : Hashes) (checked : AgentCommand → Prop) (w : World) : Prop where
  once : (w.effects H).Nodup
  first : ∀ e ∈ w.log, ∀ next actor requestId command native, e.stored = some next →
    e.call = .execute actor requestId command native →
      ∃ r, r.replayed = false ∧ Took H e actor requestId command r ∧ ∀ x, e.reply = .ok x → x = .control r
  repeated : ∀ e ∈ w.log, ∀ actor requestId command r, Took H e actor requestId command r →
    ∀ c, w.live = some c → c.poisoned = false → c.snapshot.checkActor actor = .ok () → ∀ outcome,
      c.call H w.durable (.execute actor requestId command none) outcome =
        (w.durable, c, .ok (.control { r with replayed := true }))
  conflict : ∀ e ∈ w.log, ∀ actor requestId command r, Took H e actor requestId command r →
    ∀ c, w.live = some c → c.poisoned = false → c.snapshot.checkActor actor = .ok () →
      ∀ other, checked other → other ≠ command → Set.InjOn H.command {command, other} → ∀ outcome,
        c.call H w.durable (.execute actor requestId other none) outcome = (w.durable, c, .error .requestConflict)

theorem took_receipt (hw : Coherent w) (hr : Receipted H w) (he : e ∈ w.log) {actor : AgentActor} {requestId : String}
    {r : AgentControlReply} (htook : Took H e actor requestId command r) (hlive : w.live = some c)
    (hp : c.poisoned = false) : command.validate = .ok () ∧ validRequestId requestId = true ∧
      c.snapshot.receipts[requestKey actor requestId]? = some ⟨H.command command, r⟩ := by
  obtain ⟨native, next, hcall, hstored, hprepare⟩ := htook
  obtain ⟨hcommand, hid, r', s, -, ⟨_, _, _, _, hprepare'⟩, -, hs, hget⟩ :=
    hr.commands e he next actor requestId command native hstored hcall
  have hsame : r' = r := by
    rw [hprepare] at hprepare'
    simp only [Except.ok.injEq, Prepared.commit.injEq, Reply.control.injEq] at hprepare'
    exact hprepare'.2.symm
  rw [hw.live c hlive hp] at hs
  cases hs
  exact ⟨hcommand, hid, hsame ▸ hget⟩

/-- **A request takes effect at most once**, over every run of calls, refusals, lost answers, crashes and openings.  While
its actor is open, a repeat on a controller that is not poisoned changes nothing: the same command is answered the first
reply again, another well-formed one a conflict.  A controller whose journal lost an answer or had moved on changes the
journal no more. -/
theorem requests_exactly_once (H : Hashes) :
    (∀ es : List Event, ExactlyOnce H (fun command => command.validate = .ok ()) (World.run H es)) ∧
      ∀ (durable : Option AgentControllerSnapshot) (c : Controller) (call : Call) (outcome : Outcome)
        (e : ControllerStoreError), c.answered H durable call outcome = some (.error e) →
          e = .outcomeUnknown ∨ e = .conflict → (c.call H durable call outcome).2.2 = .error (.store e) ∧
          ∀ (later : List (Option AgentControllerSnapshot × Call × Outcome)) (journal : Option AgentControllerSnapshot)
            (call' : Call) (outcome' : Outcome),
            ((Controller.after H (c.call H durable call outcome).2.1 later).call H journal call' outcome').1 = journal := by
  refine ⟨fun es => ?_, fun durable c call outcome e hanswer he => ?_⟩
  · have hw := coherent_run (H := H) es
    have hr := receipted_run (H := H) es
    refine ⟨hr.once, fun e he next actor requestId command native hstored hcall => ?_, ?_, ?_⟩
    · obtain ⟨-, -, r, -, hreplayed, htook, hreply, -⟩ :=
        hr.commands e he next actor requestId command native hstored hcall
      exact ⟨r, hreplayed, htook, hreply⟩
    · intro e he actor requestId command r htook c hlive hp hactor outcome
      obtain ⟨hcommand, hid, hget⟩ := took_receipt hw hr he htook hlive hp
      refine call_of_prepare hp rfl ?_
      rw [execute_receipt hactor hcommand hid hget, if_pos rfl]
      rfl
    · intro e he actor requestId command r htook c hlive hp hactor other hother hne hinj outcome
      obtain ⟨-, hid, hget⟩ := took_receipt hw hr he htook hlive hp
      refine call_of_prepare hp rfl ?_
      rw [execute_receipt hactor hother hid hget, if_neg]
      · rfl
      · intro hdigest
        exact hne (hinj (Set.mem_insert_of_mem _ rfl) (Set.mem_insert _ _) hdigest.symm)
  · have hunavailable : e ≠ .unavailable := by
      rcases he with rfl | rfl
      · exact fun h => (by cases h)
      · exact fun h => (by cases h)
    obtain ⟨hreply, hpoisoned⟩ := call_poisons hanswer hunavailable
    refine ⟨hreply, fun later journal call' outcome' => ?_⟩
    rw [after_poisoned hpoisoned]
    exact (call_poisoned hpoisoned call' outcome').1

/-! ## A spawn whose answer is lost -/

def Entry.spawnsWorker (e : Entry) : Bool :=
  e.stored.isSome && match e.call with
    | .execute actor requestId command none => decide (actor = .operator ∧ requestId = "spawn" ∧ command = spawnWorker)
    | _ => false

theorem spawnsWorker_call (h : e.spawnsWorker = true) :
    (∃ next, e.stored = some next) ∧ e.call = .execute .operator "spawn" spawnWorker none := by
  obtain ⟨hstored, hcall⟩ := Bool.and_eq_true_iff.1 h
  refine ⟨Option.isSome_iff_exists.1 hstored, ?_⟩
  split at hcall
  · rename_i hc
    obtain ⟨rfl, rfl, rfl⟩ := of_decide_eq_true hcall
    exact hc
  · cases hcall

/-- The spawn is stored, but its controller does not learn so; another opens the journal. -/
def lostSpawn : List Event :=
  [openSample, .call (.execute .operator "spawn" spawnWorker none) (.unknown true), openSample]

def messageOf : Except ControllerError Reply → Option MessageId
  | .ok (.control r) => r.messageId
  | _ => none

theorem requests_exactly_once_lostSpawn :
    ∃ (c : Controller) (r : AgentControlReply), (World.run workerHashes lostSpawn).live = some c ∧ r.messageId = some 1 ∧
      c.call workerHashes (some c.snapshot) (.execute .operator "spawn" spawnWorker none) .done =
        (some c.snapshot, c, .ok (.control { r with replayed := true })) ∧
      c.call workerHashes (some c.snapshot) (.execute .operator "spawn" closeWorker none) .done =
        (some c.snapshot, c, .error .requestConflict) := by
  obtain ⟨hlive, hlog, hmessage⟩ : (World.run workerHashes lostSpawn).live.any (fun c => !c.poisoned) = true ∧
      (World.run workerHashes lostSpawn).log.any (fun e => e.spawnsWorker) = true ∧
      (World.run workerHashes lostSpawn).live.all (fun c => messageOf (c.call workerHashes (some c.snapshot)
        (.execute .operator "spawn" spawnWorker none) .done).2.2 == some 1) = true := by
    decide +kernel
  obtain ⟨c, hc, hp⟩ := (Option.any_eq_true _ _).1 hlive
  obtain ⟨e, he, hspawn⟩ := List.any_eq_true.1 hlog
  obtain ⟨⟨next, hstored⟩, hcall⟩ := spawnsWorker_call hspawn
  have hp : c.poisoned = false := by simpa using hp
  have hlaw := (requests_exactly_once workerHashes).1 lostSpawn
  have hdurable := (coherent_run (H := workerHashes) lostSpawn).live c hc hp
  obtain ⟨r, -, htook, -⟩ := hlaw.first e he next _ _ _ _ hstored hcall
  have hsame := hlaw.repeated e he _ _ _ r htook c hc hp rfl .done
  have hother := hlaw.conflict e he _ _ _ r htook c hc hp rfl closeWorker rfl (by decide) (by
    intro a ha b hb hab
    rcases ha with rfl | rfl <;> rcases hb with rfl | rfl <;> first | rfl | exact absurd hab (by decide)) .done
  rw [hdurable] at hsame hother
  refine ⟨c, r, hc, ?_, hsame, hother⟩
  rw [hc, Option.all_some, hsame] at hmessage
  exact beq_iff_eq.1 hmessage

/-- **An ill-formed repeat is refused for its form**, before the receipt is looked at. -/
theorem not_exactlyOnce_emptyMessage : ¬ ExactlyOnce workerHashes (fun _ => True)
      (World.run workerHashes [openSample, .call (.execute .operator "spawn" spawnWorker none) .done]) := by
  intro hlaw
  generalize hw : World.run workerHashes [openSample, .call (.execute .operator "spawn" spawnWorker none) .done] = w at hlaw
  obtain ⟨hlive, hlog⟩ : w.live.any (fun c => !c.poisoned) = true ∧ w.log.any (fun e => e.spawnsWorker) = true := by
    rw [← hw]
    decide +kernel
  obtain ⟨c, hc, hp⟩ := (Option.any_eq_true _ _).1 hlive
  obtain ⟨e, he, hspawn⟩ := List.any_eq_true.1 hlog
  obtain ⟨⟨next, hstored⟩, hcall⟩ := spawnsWorker_call hspawn
  have hp : c.poisoned = false := by simpa using hp
  obtain ⟨r, -, htook, -⟩ := hlaw.first e he next _ _ _ _ hstored hcall
  have hconflict := hlaw.conflict e he _ _ _ r htook c hc hp rfl (.sendMessage 2 "") trivial (by decide) (by
    intro a ha b hb hab
    rcases ha with rfl | rfl <;> rcases hb with rfl | rfl <;> first | rfl | exact absurd hab (by decide)) .done
  have hrefused : prepare workerHashes c.snapshot (.execute .operator "spawn" (.sendMessage 2 "") none) =
      .error (.invalid "agent text is empty, oversized or contains NUL") := rfl
  unfold Controller.call at hconflict
  rw [hp, hrefused] at hconflict
  simp [precheck] at hconflict

/-! ## What a run never takes back -/

theorem Core.Grows.trans {c₁ c₂ c₃ : Core} (h : c₁.Grows c₂) (h' : c₂.Grows c₃) : c₁.Grows c₃ :=
  ⟨h'.parentId.trans h.parentId, h'.writePaths.trans h.writePaths, h'.closed ∘ h.closed⟩

theorem moves_core {v v' : Scene} {ls : List Label} (h : Moves H v ls v') {x : AgentId} :
    ∀ {c : Core}, v.agents x = some c → ∃ c', v'.agents x = some c' ∧ c.Grows c' := by
  induction h with
  | nil => exact fun hx => ⟨_, hx, rfl, rfl, id⟩
  | cons hmove _ ih =>
    intro c hx
    obtain ⟨c₁, hx₁, h₁⟩ := move_core hmove hx
    obtain ⟨c', hx', h'⟩ := ih hx₁
    exact ⟨c', hx', h₁.trans h'⟩

theorem revision_advance (h : Advance H w w') {s s' : AgentControllerSnapshot} (hs : w.durable = some s)
    (hs' : w'.durable = some s') : s' = s ∨ s'.revision = s.revision + 1 := by
  cases h with
  | still hdurable => exact .inl (Option.some.inj ((hs'.symm.trans hdurable).trans hs))
  | answer hdurable => exact .inl (Option.some.inj ((hs'.symm.trans hdurable).trans hs))
  | commit hbefore _ _ hafter hrevision =>
    cases hbefore.symm.trans hs
    cases hafter.symm.trans hs'
    exact .inr hrevision
  | quarantine hbefore _ hafter =>
    cases hbefore.symm.trans hs
    cases hafter.symm.trans hs'
    exact .inr rfl
  | genesis hbefore =>
    rw [hs] at hbefore
    cases hbefore

/-- **No answer of a run is taken back**: whatever follows, crashes and lost replies among it, every agent stays with its
parent and its write paths, a closed one closed, every receipt stays, and the snapshot is the same or of a later revision. -/
theorem tree_onward (H : Hashes) (es more : List Event) (s : AgentControllerSnapshot)
    (hs : (World.run H es).durable = some s) : ∃ s', (World.run H (es ++ more)).durable = some s' ∧
      (∀ id c, s.scene.agents id = some c → ∃ c', s'.scene.agents id = some c' ∧ c.Grows c') ∧
      (∀ (key : String) (receipt : RequestReceipt), s.receipts[key]? = some receipt → s'.receipts[key]? = some receipt) ∧
      (s' = s ∨ s.revision < s'.revision) := by
  induction more using List.reverseRecOn with
  | nil => exact ⟨s, by rwa [List.append_nil], fun _ c hc => ⟨c, hc, rfl, rfl, id⟩, fun _ _ hr => hr, .inl rfl⟩
  | append_singleton more e ih =>
    obtain ⟨s₁, hs₁, hagents, hreceipts, hrevision⟩ := ih
    have hw := coherent_run (H := H) (es ++ more)
    have hadvance := step_advance (H := H) hw e
    obtain ⟨s', _, hs', hmoves⟩ := advance_moves hw hadvance hs₁
    obtain ⟨_, hsame, hreceipts'⟩ := receipts_advance hw hadvance hs₁
    cases hsame.symm.trans hs'
    refine ⟨s', by rw [← List.append_assoc, World.run_append, hs'], fun id c hc => ?_, fun key r hr => ?_, ?_⟩
    · obtain ⟨c₁, hc₁, h₁⟩ := hagents id c hc
      obtain ⟨c', hc', h'⟩ := moves_core hmoves hc₁
      exact ⟨c', hc', h₁.trans h'⟩
    · exact hreceipts' key r (hreceipts key r hr)
    · rcases revision_advance hadvance hs₁ hs' with rfl | hnext
      · exact hrevision
      · right
        rcases hrevision with rfl | hlt <;> omega

theorem tree_onward_reopened : ∃ s s', (World.run workerHashes (lostSpawn.take 2)).durable = some s ∧
    (World.run workerHashes (lostSpawn.take 2 ++ lostSpawn.drop 2)).durable = some s' ∧ (s.scene.agents 2).isSome = true ∧
    (∀ id c, s.scene.agents id = some c → ∃ c', s'.scene.agents id = some c' ∧ c.Grows c') := by
  have hsome : (World.run workerHashes (lostSpawn.take 2)).durable.any (fun s => (s.scene.agents 2).isSome) = true := by
    decide +kernel
  obtain ⟨s, hs, hworker⟩ := (Option.any_eq_true _ _).1 hsome
  obtain ⟨s', hs', hagents, -⟩ := tree_onward workerHashes _ (lostSpawn.drop 2) s hs
  exact ⟨s, s', hs, hs', hworker, hagents⟩

end Iteron.Agents
