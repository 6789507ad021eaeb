import Iteron.HotSwapExecutor
/-!
# HotSwapReserve — who holds the handle

An executor holds the handle from a `verify` that succeeds until its `committed` or its `rollback` does.  The handle names
the transaction and not the executor: a rollback that an executor runs without holding the handle lets go what another
holds, and one that cannot stop the new process lets the handle go and fails.  In a run without these two the handle is
its holder's.
-/
namespace Iteron.HotSwap

def note (a : Answer) (i : Nat) (held : Option String) : Option String :=
  match a with
  | .stage j request .verify (.ok ()) => if j = i then some request.transactionId else held
  | .stage j _ .committed (.ok ()) => if j = i then none else held
  | .rollback j _ (.ok ()) => if j = i then none else held
  | _ => held

/-- The transaction for which an executor holds the handle; the answers are listed from the last. -/
def holding (h : List Answer) (i : Nat) : Option String := h.foldr (fun a => note a i) none

def Nobody (h : List Answer) : Prop := ∀ i, holding h i = none

def RuntimeHotSwapExecutor.Releases (e : RuntimeHotSwapExecutor) (cell : ActiveCell) (request : HotSwapRequest)
    (p : Process) : Prop :=
  (∀ verified, e.verifiedRequest = some verified → verified = request) ∧ if e.switched then
      (∃ old, e.oldRuntime p = .ok old) ∧ cell.transition = some request.transactionId ∧ cell.generation = request.new
    else e.stopShadow p = .ok () ∧ cell.generation = request.old ∧ cell.runtime.isLive = true

/-- The rollbacks that let the handle go are those of its holder, or nobody holds it; and a holder that has switched can
stop the new process. -/
def Guarded (w : World) (h : List Answer) : Action → Prop
  | .rollback i p => ∀ party request, w.parties[i]? = some party → party.drive = .failing request →
      party.executor.Releases w.cell request p →
      (Nobody h ∨ (holding h i).isSome = true ∧
        (party.executor.switched = true → (RuntimeHotSwapExecutor.stopRuntime w.cell.runtime .rolledBack p).1 = .ok ()))
  | .recover i p => ∀ party request, w.parties[i]? = some party → party.drive = .recovering request →
      p.rebuilt = .ok () → Nobody h ∨ (holding h i).isSome = true
  | _ => True

/-- The runs of any number of executors over one handle, in any order. -/
inductive Reached (meets : World → List Answer → Action → Prop) (cell : ActiveCell) : World → List Answer → Prop
  | start : Reached meets cell ⟨cell, []⟩ []
  | step (w : World) (h : List Answer) (a : Action) (hw : Reached meets cell w h) (ha : meets w h a) :
    Reached meets cell (w.step a).1 ((w.step a).2 :: h)

/-- The handle is its holder's, before every next step of the run. -/
structure Owned (meets : World → List Answer → Action → Prop) (w : World) (h : List Answer) (i : Nat) (id : String) :
    Prop where
  named : w.cell.transition = some id
  refused : ∀ c p, (w.step (.consume c p)).2 = .consumed (.error (.transitionInProgress id))
  exclusive : ∀ j p request, (w.step (.call j p)).2 ≠ .stage j request .verify (.ok ())
  generation : ∀ a, meets w h a → (w.step a).1.cell.generation ≠ w.cell.generation →
    (∃ p party request, a = .call i p ∧ w.parties[i]? = some party ∧ party.drive = .before request .atomicSwitch) ∨
      ∃ p, a = .rollback i p

/-! ## What a call does to the handle -/

namespace RuntimeHotSwapExecutor

variable {e : RuntimeHotSwapExecutor} {cell : ActiveCell} {request : HotSwapRequest} {phase : HotSwapPhase} {p : Process}

theorem verify_cases (e : RuntimeHotSwapExecutor) (cell : ActiveCell) (request : HotSwapRequest) :
    (∃ error, e.verify cell request = (.error error, e, cell)) ∨
      (cell.transition = none ∧ ∃ e', e.verify cell request = (.ok (), e', { cell with transition := some request.transactionId })) := by
  unfold verify
  split
  · exact .inl ⟨_, rfl⟩
  · split
    · exact .inl ⟨_, rfl⟩
    · rename_i hcheck
      have hfree : cell.transition = none := by
        cases ht : cell.transition with
        | none => rfl
        | some _ => cases hcheck (.inl (by rw [ht]; rfl))
      exact .inr ⟨hfree, _, rfl⟩

theorem committed_cases (e : RuntimeHotSwapExecutor) (cell : ActiveCell) (request : HotSwapRequest) :
    (∃ error, e.committed cell request = (.error error, e, cell)) ∨
      ∃ e', e.committed cell request = (.ok (), e', { cell with transition := none }) := by
  unfold committed
  split
  · exact .inl ⟨_, rfl⟩
  · exact .inr ⟨_, rfl⟩

theorem askShadow_cell (next : HotSwapPhase) : (e.askShadow cell phase next p).2.2 = cell := by
  unfold askShadow
  split
  · rfl
  · split <;> rfl

theorem drain_cell : (e.drain cell p).2.2 = cell := by
  unfold drain
  split
  · rfl
  · split <;> rfl

theorem quiesce_cell : (e.quiesce cell request).2.2 = cell := by
  unfold quiesce
  split <;> rfl

theorem shadowLoad_cell : (e.shadowLoad cell p).2.2 = cell := by
  unfold shadowLoad
  split <;> rfl

theorem snapshot_cell : (e.snapshot cell request p).2.2 = { cell with runtime := cell.runtime.after p } := by
  unfold snapshot
  split
  · rfl
  · split <;> rfl

theorem atomicSwitch_transition : (e.atomicSwitch cell request).2.2.transition = cell.transition := by
  unfold atomicSwitch
  split
  · rfl
  · split
    · rfl
    · split <;> rfl

theorem call_transition (hv : phase ≠ .verify) (hc : phase ≠ .committed) :
    (e.call cell request phase p).2.2.transition = cell.transition := by
  unfold call
  split
  · rfl
  · cases phase with
    | verify => cases hv rfl
    | committed => cases hc rfl
    | shadowLoad => exact congrArg ActiveCell.transition shadowLoad_cell
    | quiesce => exact congrArg ActiveCell.transition quiesce_cell
    | snapshot => exact (congrArg ActiveCell.transition snapshot_cell).trans rfl
    | migrate => exact congrArg ActiveCell.transition (askShadow_cell _)
    | restore => exact congrArg ActiveCell.transition (askShadow_cell _)
    | readiness => exact congrArg ActiveCell.transition (askShadow_cell _)
    | atomicSwitch => exact atomicSwitch_transition
    | drain => exact congrArg ActiveCell.transition drain_cell
    | rolledBack => rfl

theorem call_generation (hs : phase ≠ .atomicSwitch) : (e.call cell request phase p).2.2.generation = cell.generation := by
  unfold call
  split
  · rfl
  · cases phase with
    | verify =>
      rcases verify_cases e cell request with ⟨error, h⟩ | ⟨-, e', h⟩ <;>
        exact congrArg (fun o : Outcome => o.2.2.generation) h
    | committed =>
      rcases committed_cases e cell request with ⟨error, h⟩ | ⟨e', h⟩ <;>
        exact congrArg (fun o : Outcome => o.2.2.generation) h
    | shadowLoad => exact congrArg ActiveCell.generation shadowLoad_cell
    | quiesce => exact congrArg ActiveCell.generation quiesce_cell
    | snapshot => exact (congrArg ActiveCell.generation snapshot_cell).trans rfl
    | migrate => exact congrArg ActiveCell.generation (askShadow_cell _)
    | restore => exact congrArg ActiveCell.generation (askShadow_cell _)
    | readiness => exact congrArg ActiveCell.generation (askShadow_cell _)
    | atomicSwitch => cases hs rfl
    | drain => exact congrArg ActiveCell.generation drain_cell
    | rolledBack => rfl

theorem call_verify_cases (e : RuntimeHotSwapExecutor) (cell : ActiveCell) (request : HotSwapRequest) (p : Process) :
    (∃ error, e.call cell request .verify p = (.error error, e, cell)) ∨ (cell.transition = none ∧
        ∃ e', e.call cell request .verify p = (.ok (), e', { cell with transition := some request.transactionId })) := by
  unfold call
  split
  · exact .inl ⟨_, rfl⟩
  · exact verify_cases e cell request

theorem call_committed_cases (e : RuntimeHotSwapExecutor) (cell : ActiveCell) (request : HotSwapRequest) (p : Process) :
    (∃ error, e.call cell request .committed p = (.error error, e, cell)) ∨
      ∃ e', e.call cell request .committed p = (.ok (), e', { cell with transition := none }) := by
  unfold call
  split
  · exact .inl ⟨_, rfl⟩
  · exact committed_cases e cell request

theorem not_any_ne {verified : Option HotSwapRequest} (h : ¬ verified.any (fun v => v != request) = true) :
    ∀ v, verified = some v → v = request := by
  rintro v rfl
  simpa using h

theorem rollback_cases {o : Outcome} (h : e.rollback cell request p = .returned o) :
    (∃ error, o.1 = .error error ∧ o.2.2 = cell) ∨ (e.Releases cell request p ∧ o.2.2.transition = none ∧
        (o.1 = .ok () ∨ e.switched = true ∧ ∃ error, (stopRuntime cell.runtime .rolledBack p).1 = .error error)) := by
  unfold rollback at h
  split at h
  · obtain rfl := Rollback.returned.inj h
    exact .inl ⟨_, rfl, rfl⟩
  · rename_i hverified
    have hsame := not_any_ne hverified
    split at h <;> rename_i hswitched
    · obtain rfl := Rollback.returned.inj h
      unfold rollbackSwitched
      split
      · exact .inl ⟨_, rfl, rfl⟩
      · rename_i old hold
        split
        · exact .inl ⟨_, rfl, rfl⟩
        · rename_i hcheck
          rw [not_or, not_not, not_not] at hcheck
          have hreleases : e.Releases cell request p := ⟨hsame, by rw [if_pos hswitched]; exact ⟨⟨old, hold⟩, hcheck⟩⟩
          split
          · rename_i error hstop
            exact .inr ⟨hreleases, rfl, .inr ⟨hswitched, error, hstop⟩⟩
          · exact .inr ⟨hreleases, rfl, .inl rfl⟩
    · unfold rollbackUnswitched at h
      split at h
      · obtain rfl := Rollback.returned.inj h
        exact .inl ⟨_, rfl, rfl⟩
      · rename_i hstop
        split at h
        · obtain rfl := Rollback.returned.inj h
          exact .inl ⟨_, rfl, rfl⟩
        · rename_i hgeneration
          split at h
          · rename_i hlive
            obtain rfl := Rollback.returned.inj h
            exact .inr ⟨⟨hsame, by rw [if_neg hswitched]; exact ⟨hstop, not_not.1 hgeneration, hlive⟩⟩, rfl, .inl rfl⟩
          · cases h

end RuntimeHotSwapExecutor

/-! ## The invariant -/

variable {w : World} {h : List Answer} {i : Nat}

/-- The handle names the transaction of the one that holds it, and a coordinator behind `verify` drives the holder. -/
structure Kept (w : World) (h : List Answer) : Prop where
  named : ∀ i id, holding h i = some id → w.cell.transition = some id
  alone : ∀ i j id id', holding h i = some id → holding h j = some id' → i = j
  driven : ∀ (i : Nat) party, w.parties[i]? = some party → ∀ request phase, party.drive = .before request phase →
    phase ≠ .verify → (holding h i).isSome = true

variable {party : Party}

theorem put_get {party' : Party} {cell : ActiveCell} {j : Nat} (hget : (w.put i party cell).parties[j]? = some party') :
    (j = i ∧ party' = party) ∨ (j ≠ i ∧ w.parties[j]? = some party') := by
  rw [World.put, List.getElem?_set] at hget
  by_cases hij : i = j
  · rw [if_pos hij] at hget
    split at hget
    · exact .inl ⟨hij.symm, (Option.some.inj hget).symm⟩
    · cases hget
  · rw [if_neg hij] at hget
    exact .inr ⟨Ne.symm hij, hget⟩

theorem Kept.quiet (hk : Kept w h) {cell : ActiveCell} {a : Answer}
    (hcell : Nobody h ∨ cell.transition = w.cell.transition) (hnote : ∀ j held, note a j held = held)
    (hdrive : ∀ request phase, party.drive = .before request phase → phase ≠ .verify → (holding h i).isSome = true) :
    Kept (w.put i party cell) (a :: h) := by
  have hsame : ∀ j, holding (a :: h) j = holding h j := fun j => hnote j _
  constructor
  · intro j id hj
    rw [hsame] at hj
    rcases hcell with hnobody | hcell
    · exact absurd ((hnobody j).symm.trans hj) (by simp)
    · exact hcell.trans (hk.named j id hj)
  · intro j k id id' hj hk'
    rw [hsame] at hj hk'
    exact hk.alone j k id id' hj hk'
  · intro j party' hget request phase hbefore hphase
    rw [hsame]
    rcases put_get hget with ⟨rfl, rfl⟩ | ⟨-, hget⟩
    · exact hdrive request phase hbefore hphase
    · exact hk.driven j party' hget request phase hbefore hphase

theorem Kept.free (hk : Kept w h) (hfree : w.cell.transition = none) : Nobody h := by
  intro j
  cases hj : holding h j with
  | none => rfl
  | some id => exact absurd (hfree.symm.trans (hk.named j id hj)) (by simp)

theorem Kept.taken (hk : Kept w h) (hfree : w.cell.transition = none) (e : RuntimeHotSwapExecutor) (request : HotSwapRequest)
    (drive : Drive) : Kept (w.put i ⟨e, drive⟩ { w.cell with transition := some request.transactionId })
      (.stage i request .verify (.ok ()) :: h) := by
  have hnobody := hk.free hfree
  have hnow : ∀ j, holding (.stage i request .verify (.ok ()) :: h) j = if i = j then some request.transactionId else none := by
    intro j
    exact congrArg (fun held => if i = j then some request.transactionId else held) (hnobody j)
  constructor
  · intro j id hj
    rw [hnow] at hj
    split at hj
    · exact hj
    · cases hj
  · intro j k id id' hj hk'
    rw [hnow] at hj hk'
    split at hj
    · split at hk'
      · rename_i hij hik
        exact hij.symm.trans hik
      · cases hk'
    · cases hj
  · intro j party' hget request' phase hbefore hphase
    rcases put_get hget with ⟨rfl, -⟩ | ⟨_, hget⟩
    · rw [hnow, if_pos rfl]
      rfl
    · have hheld := hk.driven j party' hget request' phase hbefore hphase
      rw [hnobody j] at hheld
      cases hheld

theorem Kept.released (hk : Kept w h) (hown : Nobody h ∨ (holding h i).isSome = true) {a : Answer} (e : RuntimeHotSwapExecutor)
    (cell : ActiveCell) (hnote : ∀ j held, note a j held = if i = j then none else held) :
    Kept (w.put i ⟨e, .idle⟩ cell) (a :: h) := by
  have hnobody : Nobody (a :: h) := by
    intro j
    refine (hnote j (holding h j)).trans ?_
    by_cases hij : i = j
    · exact if_pos hij
    · rw [if_neg hij]
      rcases hown with hown | hown
      · exact hown j
      · obtain ⟨id, hid⟩ := Option.isSome_iff_exists.1 hown
        cases hj : holding h j with
        | none => rfl
        | some id' => exact absurd (hk.alone i j id id' hid hj) hij
  constructor
  · intro j id hj
    rw [hnobody j] at hj
    cases hj
  · intro j k id id' hj
    rw [hnobody j] at hj
    cases hj
  · intro j party' hget request phase hbefore hphase
    rcases put_get hget with ⟨rfl, rfl⟩ | ⟨hne, hget⟩
    · cases hbefore
    · have hheld := hk.driven j party' hget request phase hbefore hphase
      have hj := hnobody j
      have hkeep : holding (a :: h) j = holding h j := (hnote j (holding h j)).trans (if_neg (Ne.symm hne))
      rw [hkeep] at hj
      rw [hj] at hheld
      cases hheld

/-! ## Steps -/

theorem Kept.silent (hk : Kept w h) : Kept w (.silent :: h) :=
  ⟨hk.named, hk.alone, hk.driven⟩

theorem note_stage (j : Nat) (request : HotSwapRequest) {phase : HotSwapPhase} {result : Except HotSwapStageError Unit}
    (hquiet : phase ≠ .verify ∧ phase ≠ .committed ∨ ∃ error, result = .error error) (k : Nat) (held : Option String) :
    note (.stage j request phase result) k held = held := by
  rcases hquiet with ⟨hv, hc⟩ | ⟨error, rfl⟩
  · cases phase <;> first | exact absurd rfl hv | exact absurd rfl hc | rfl
  · cases phase <;> rfl

theorem Kept.call (hk : Kept w h) (hget : w.parties[i]? = some party) {request : HotSwapRequest}
    {phase : HotSwapPhase} (hbefore : party.drive = .before request phase) (p : Process) :
    Kept (w.put i ⟨(party.executor.call w.cell request phase p).2.1,
        driveAfter request phase (party.executor.call w.cell request phase p).1⟩ (party.executor.call w.cell request phase p).2.2)
      (.stage i request phase (party.executor.call w.cell request phase p).1 :: h) := by
  by_cases hv : phase = .verify
  · subst hv
    rcases party.executor.call_verify_cases w.cell request p with ⟨error, hcall⟩ | ⟨hfree, e', hcall⟩
    · rw [hcall]
      refine hk.quiet (.inr rfl) (note_stage i request (.inr ⟨error, rfl⟩)) (fun request' phase hdrive _ => ?_)
      cases hdrive
    · rw [hcall]
      exact hk.taken hfree e' request _
  · have hheld := hk.driven i party hget request phase hbefore hv
    by_cases hc : phase = .committed
    · subst hc
      have hidle : ∀ result, driveAfter request .committed result = .idle := fun result => if_pos rfl
      rcases party.executor.call_committed_cases w.cell request p with ⟨error, hcall⟩ | ⟨e', hcall⟩
      · rw [hcall, hidle]
        refine hk.quiet (.inr rfl) (note_stage i request (.inr ⟨error, rfl⟩)) (fun request' phase hdrive _ => ?_)
        cases hdrive
      · rw [hcall, hidle]
        exact hk.released (.inr hheld) e' _ (fun j held => rfl)
    · exact hk.quiet (.inr (RuntimeHotSwapExecutor.call_transition hv hc)) (note_stage i request (.inl ⟨hv, hc⟩))
        (fun _ _ _ _ => hheld)

theorem Kept.rollback (hk : Kept w h) (hget : w.parties[i]? = some party) {request : HotSwapRequest}
    (hfailing : party.drive = .failing request) {p : Process} (hg : Guarded w h (.rollback i p))
    {o : RuntimeHotSwapExecutor.Outcome} (ho : party.executor.rollback w.cell request p = .returned o) :
    Kept (w.put i ⟨o.2.1, .idle⟩ o.2.2) (.rollback i request o.1 :: h) := by
  have hidle : ∀ request' phase, Drive.idle = .before request' phase → phase ≠ .verify → (holding h i).isSome = true := by
    intro request' phase hdrive
    cases hdrive
  rcases RuntimeHotSwapExecutor.rollback_cases ho with ⟨error, herror, hcell⟩ | ⟨hreleases, _, hresult⟩
  · rw [herror]
    exact hk.quiet (.inr (congrArg ActiveCell.transition hcell)) (fun j held => rfl) hidle
  · rcases hg party request hget hfailing hreleases with hnobody | ⟨hheld, hstop⟩
    · cases hresult : o.1 with
      | ok u => exact hk.released (.inl hnobody) _ _ (fun j held => rfl)
      | error error => exact hk.quiet (.inl hnobody) (fun j held => rfl) hidle
    · have hok : o.1 = .ok () := by
        rcases hresult with hok | ⟨hswitched, error, herror⟩
        · exact hok
        · exact absurd ((hstop hswitched).symm.trans herror) (by simp)
      rw [hok]
      exact hk.released (.inr hheld) _ _ (fun j held => rfl)

theorem Kept.recover (hk : Kept w h) (hget : w.parties[i]? = some party) {request : HotSwapRequest}
    (hdrive : party.drive = .recovering request) {p : Process} (hg : Guarded w h (.recover i p)) :
    Kept (w.put i ⟨(party.executor.recover w.cell p).2.1, .idle⟩ (party.executor.recover w.cell p).2.2)
      (.rollback i request (party.executor.recover w.cell p).1 :: h) := by
  cases hrebuilt : p.rebuilt with
  | error error =>
    have heq : party.executor.recover w.cell p = (.error error, party.executor, w.cell) := by
      rw [RuntimeHotSwapExecutor.recover, hrebuilt]
    rw [heq]
    refine hk.quiet (.inr rfl) (fun j held => rfl) (fun request' phase hbefore => ?_)
    cases hbefore
  | ok u =>
    have hok : (party.executor.recover w.cell p).1 = .ok () := by
      rw [RuntimeHotSwapExecutor.recover, hrebuilt]
    rw [hok]
    exact hk.released (hg party request hget hdrive hrebuilt) _ _ (fun j held => rfl)

theorem Kept.consume (hk : Kept w h) (c : Consumer) (p : Process) :
    Kept { w with cell := (w.cell.consume c p).2 } (.consumed (w.cell.consume c p).1 :: h) := by
  have hsame : (w.cell.consume c p).2.transition = w.cell.transition := by
    unfold ActiveCell.consume
    split <;> rfl
  exact ⟨fun j id hj => hsame.trans (hk.named j id hj), hk.alone, hk.driven⟩

theorem Kept.create (hk : Kept w h) (e : RuntimeHotSwapExecutor) :
    Kept { w with parties := w.parties ++ [⟨e, .idle⟩] } (.silent :: h) := by
  refine ⟨hk.named, hk.alone, fun j party hget request phase hbefore hphase => ?_⟩
  rcases Nat.lt_or_ge j w.parties.length with hj | hj
  · rw [List.getElem?_append_left hj] at hget
    exact hk.driven j party hget request phase hbefore hphase
  · rw [List.getElem?_append_right hj] at hget
    obtain rfl := List.mem_singleton.1 (List.mem_of_getElem? hget)
    cases hbefore

variable {a : Action}

theorem onParty_none (hget : w.parties[i]? = none) : w.onParty i a = (w, .silent) := by
  unfold World.onParty
  rw [hget]

theorem onParty_some (hget : w.parties[i]? = some party) (a : Action) : w.onParty i a = w.stepParty i party a := by
  unfold World.onParty
  rw [hget]

theorem Kept.step (hk : Kept w h) (hg : Guarded w h a) : Kept (w.step a).1 ((w.step a).2 :: h) := by
  have hparty : ∀ (j : Nat) (b : Action), (∀ party, w.parties[j]? = some party →
      Kept (w.stepParty j party b).1 ((w.stepParty j party b).2 :: h)) → Kept (w.onParty j b).1 ((w.onParty j b).2 :: h) := by
    intro j b hsome
    cases hget : w.parties[j]? with
    | none =>
      rw [onParty_none hget]
      exact hk.silent
    | some party =>
      rw [onParty_some hget]
      exact hsome party hget
  cases a with
  | create _ _ =>
    simp only [World.step]
    split
    · exact hk.create _
    · exact hk.silent
  | consume c p => exact hk.consume c p
  | transact j request =>
    refine hparty j _ (fun party hget => ?_)
    unfold World.stepParty
    dsimp only
    split
    · refine hk.quiet (.inr rfl) (fun _ _ => rfl) (fun request' phase hdrive hphase => ?_)
      obtain ⟨-, rfl⟩ := Drive.before.inj hdrive
      cases hphase rfl
    · exact hk.silent
  | giveUp j =>
    refine hparty j _ (fun party hget => ?_)
    unfold World.stepParty
    dsimp only
    split
    · refine hk.quiet (.inr rfl) (fun _ _ => rfl) (fun request' phase hdrive => ?_)
      cases hdrive
    · exact hk.silent
  | call j p =>
    refine hparty j _ (fun party hget => ?_)
    unfold World.stepParty
    dsimp only
    split
    · rename_i hbefore
      exact hk.call hget hbefore p
    · exact hk.silent
  | rollback j p =>
    refine hparty j _ (fun party hget => ?_)
    unfold World.stepParty
    dsimp only
    split
    · rename_i request hfailing
      split
      · rename_i o ho
        exact hk.rollback hget hfailing hg ho
      · refine hk.quiet (.inr rfl) (fun _ _ => rfl) (fun request' phase hdrive => ?_)
        cases hdrive
    · exact hk.silent
  | recover j p =>
    refine hparty j _ (fun party hget => ?_)
    unfold World.stepParty
    dsimp only
    split
    · rename_i request hdrive
      exact hk.recover hget hdrive hg
    · exact hk.silent

theorem kept_of_reached {cell : ActiveCell} (hreached : Reached Guarded cell w h) : Kept w h := by
  induction hreached with
  | start =>
    refine ⟨?_, ?_, ?_⟩
    · intro j id hj
      cases hj
    · intro j k id id' hj
      cases hj
    · intro j party hget
      cases hget
  | step w h a _ ha ih => exact ih.step ha

/-! ## The holder's handle -/

variable {id : String}

theorem Kept.exclusive (hk : Kept w h) (hheld : holding h i = some id) (j : Nat) (p : Process)
    (request : HotSwapRequest) : (w.step (.call j p)).2 ≠ .stage j request .verify (.ok ()) := by
  intro hanswer
  have hstep : (w.onParty j (.call j p)).2 = .stage j request .verify (.ok ()) := hanswer
  cases hget : w.parties[j]? with
  | none =>
    rw [onParty_none hget] at hstep
    cases hstep
  | some party =>
    rw [onParty_some hget] at hstep
    unfold World.stepParty at hstep
    dsimp only at hstep
    split at hstep
    · rename_i request' phase hbefore
      obtain ⟨-, rfl, rfl, hok⟩ := Answer.stage.inj hstep
      rcases party.executor.call_verify_cases w.cell request' p with ⟨_, hcall⟩ | ⟨hfree, -⟩
      · rw [hcall] at hok
        cases hok
      · exact absurd ((hk.named i id hheld).symm.trans hfree) (by simp)
    · cases hstep

theorem Kept.generation (hk : Kept w h) (hheld : holding h i = some id) (hg : Guarded w h a)
    (hne : (w.step a).1.cell.generation ≠ w.cell.generation) :
    (∃ p party request, a = .call i p ∧ w.parties[i]? = some party ∧ party.drive = .before request .atomicSwitch) ∨
      ∃ p, a = .rollback i p := by
  have hparty : ∀ (j : Nat) (b : Action), (w.onParty j b).1.cell.generation ≠ w.cell.generation →
      ∃ party, w.parties[j]? = some party ∧ (w.stepParty j party b).1.cell.generation ≠ w.cell.generation := by
    intro j b hchange
    cases hget : w.parties[j]? with
    | none =>
      rw [onParty_none hget] at hchange
      cases hchange rfl
    | some party =>
      rw [onParty_some hget] at hchange
      exact ⟨party, rfl, hchange⟩
  cases a with
  | create _ _ =>
    simp only [World.step] at hne
    split at hne <;> exact absurd rfl hne
  | consume c p =>
    simp only [World.step, ActiveCell.consume] at hne
    split at hne <;> exact absurd rfl hne
  | transact j request =>
    obtain ⟨party, -, hchange⟩ := hparty j _ hne
    unfold World.stepParty at hchange
    dsimp only at hchange
    split at hchange <;> exact absurd rfl hchange
  | giveUp j =>
    obtain ⟨party, -, hchange⟩ := hparty j _ hne
    unfold World.stepParty at hchange
    dsimp only at hchange
    split at hchange <;> exact absurd rfl hchange
  | call j p =>
    obtain ⟨party, hget, hchange⟩ := hparty j _ hne
    unfold World.stepParty at hchange
    dsimp only at hchange
    split at hchange
    · rename_i request phase hbefore
      have hphase : phase = .atomicSwitch := by
        by_contra hphase
        exact hchange (RuntimeHotSwapExecutor.call_generation hphase)
      subst hphase
      obtain ⟨id', hid'⟩ := Option.isSome_iff_exists.1 (hk.driven j party hget request .atomicSwitch hbefore (by simp))
      obtain rfl := hk.alone i j id id' hheld hid'
      exact .inl ⟨p, party, request, rfl, hget, hbefore⟩
    · cases hchange rfl
  | rollback j p =>
    obtain ⟨party, hget, hchange⟩ := hparty j _ hne
    unfold World.stepParty at hchange
    dsimp only at hchange
    split at hchange
    · rename_i request hfailing
      split at hchange
      · rename_i o ho
        rcases RuntimeHotSwapExecutor.rollback_cases ho with ⟨_, -, hcell⟩ | ⟨hreleases, -, -⟩
        · cases hchange (congrArg ActiveCell.generation hcell)
        · rcases hg party request hget hfailing hreleases with hnobody | ⟨hsome, -⟩
          · exact absurd ((hnobody i).symm.trans hheld) (by simp)
          · obtain ⟨id', hid'⟩ := Option.isSome_iff_exists.1 hsome
            obtain rfl := hk.alone i j id id' hheld hid'
            exact .inr ⟨p, rfl⟩
      · cases hchange rfl
    · cases hchange rfl
  | recover j p =>
    obtain ⟨party, -, hchange⟩ := hparty j _ hne
    unfold World.stepParty at hchange
    dsimp only at hchange
    split at hchange
    · unfold RuntimeHotSwapExecutor.recover at hchange
      split at hchange <;> exact absurd rfl hchange
    · cases hchange rfl

/-- **From its `verify` until its `committed` or `rollback` the handle is its holder's**, in every run whose rollbacks are
guarded. -/
theorem reservation_is_the_holders (runtime : ImplementationRuntime) (g : HotSwapGeneration) (cell : ActiveCell)
    (_hnew : ActiveCell.new runtime g = .ok cell) (w : World) (h : List Answer) (hreached : Reached Guarded cell w h)
    (i : Nat) (id : String) (hheld : holding h i = some id) : Owned Guarded w h i id := by
  have hk := kept_of_reached hreached
  refine ⟨hk.named i id hheld, ?_, hk.exclusive hheld, fun a => hk.generation hheld⟩
  intro c p
  have hlock : w.cell.consumerLock = .error (.transitionInProgress id) := by
    rw [ActiveCell.consumerLock, hk.named i id hheld]
  simp only [World.step, ActiveCell.consume, hlock]

/-! ## Two executors -/

def sampleDigest (c : Char) : String := "sha256:" ++ String.ofList (List.replicate 64 c)

def firstGeneration : HotSwapGeneration := ⟨1, "old.impl", sampleDigest 'a', sampleDigest 'e'⟩

def secondGeneration : HotSwapGeneration := ⟨2, "new.impl", sampleDigest 'b', sampleDigest 'f'⟩

def sampleRequest (transactionId : String) : HotSwapRequest :=
  ⟨transactionId, .promptSystem, sampleDigest 'c', firstGeneration, secondGeneration, sampleDigest 'd', 1000⟩

def firstPlan : ProcessLaunchPlan := ⟨.promptSystem, "old.impl", sampleDigest 'a', 2, .ok (sampleDigest 'd')⟩

def secondPlan : ProcessLaunchPlan := ⟨.promptSystem, "new.impl", sampleDigest 'b', 2, .ok (sampleDigest 'd')⟩

def sampleState : ImplementationState := ⟨.promptSystem, "old.impl", "run-1", 1, "snapshot", sampleDigest 'e', true⟩

def sampleRuntime : ImplementationRuntime := ⟨firstPlan, .loaded, false⟩

def sampleCell : ActiveCell := ⟨firstGeneration, sampleRuntime, none⟩

def sampleProcess : Process := ⟨.ok (), .ok (), (.loaded, false), sampleState⟩

theorem sampleCell_new : ActiveCell.new sampleRuntime firstGeneration = .ok sampleCell := rfl

def sampleExecutor : RuntimeHotSwapExecutor := ⟨firstPlan, secondPlan, sampleState, none, .verify, none, none, false⟩

def reservedCell (id : String) : ActiveCell := { sampleCell with transition := some id }

theorem new_sample (transition : Option String) :
    RuntimeHotSwapExecutor.new { sampleCell with transition } secondPlan sampleState = .ok sampleExecutor := by
  have hidentity : validateRuntimeIdentity sampleCell.runtime sampleCell.generation = .ok () := rfl
  have hstate : stateMatches sampleState sampleCell.runtime.plan.module sampleCell.generation = true := by decide
  simp only [RuntimeHotSwapExecutor.new, hidentity, hstate]
  rfl

theorem verify_reserved (id id' : String) (p : Process) :
    ∃ error, sampleExecutor.call (reservedCell id) (sampleRequest id') .verify p = (.error error, sampleExecutor, reservedCell id) := by
  rcases sampleExecutor.call_verify_cases (reservedCell id) (sampleRequest id') p with herror | ⟨hfree, -⟩
  · exact herror
  · cases hfree

theorem step_transact {party : Party} {request : HotSwapRequest} (hget : w.parties[i]? = some party) (hidle : party.drive = .idle)
    (hvalid : request.validate.isOk = true) :
    w.step (.transact i request) = (w.put i { party with drive := .before request .verify } w.cell, .silent) := by
  have hstep : w.step (.transact i request) = w.onParty i (.transact i request) := rfl
  rw [hstep, onParty_some hget]
  exact if_pos ⟨hidle, hvalid⟩

/-- An executor is made, its coordinator begins a transaction and asks it to verify. -/
def begins (i : Nat) (id : String) : List Action :=
  [.create secondPlan sampleState, .transact i (sampleRequest id), .call i sampleProcess]

def runAll (w : World) (h : List Answer) : List Action → World × List Answer
  | [] => (w, h)
  | a :: actions => runAll (w.step a).1 ((w.step a).2 :: h) actions

theorem Reached.runAll {meets : World → List Answer → Action → Prop} {cell : ActiveCell} (hreached : Reached meets cell w h)
    {actions : List Action} (hmeets : ∀ a ∈ actions, ∀ w h, meets w h a) :
    Reached meets cell (HotSwap.runAll w h actions).1 (HotSwap.runAll w h actions).2 := by
  induction actions generalizing w h with
  | nil => exact hreached
  | cons a actions ih =>
    exact ih (.step w h a hreached (hmeets a (.head _) w h)) (fun b hb => hmeets b (List.mem_cons_of_mem a hb))

theorem runAll_first : runAll ⟨sampleCell, []⟩ [] (begins 0 "t-1") =
    (⟨reservedCell "t-1", [⟨{ sampleExecutor with verifiedRequest := some (sampleRequest "t-1"), nextPhase := .shadowLoad },
        .before (sampleRequest "t-1") .shadowLoad⟩]⟩,
      [.stage 0 (sampleRequest "t-1") .verify (.ok ()), .silent, .silent]) := by
  have hnew : RuntimeHotSwapExecutor.new sampleCell secondPlan sampleState = .ok sampleExecutor := new_sample none
  have hcreate : World.step ⟨sampleCell, []⟩ (.create secondPlan sampleState) = (⟨sampleCell, [⟨sampleExecutor, .idle⟩]⟩, .silent) := by
    simp only [World.step, hnew, List.nil_append]
  have htransact : World.step ⟨sampleCell, [⟨sampleExecutor, .idle⟩]⟩ (.transact 0 (sampleRequest "t-1")) =
      (⟨sampleCell, [⟨sampleExecutor, .before (sampleRequest "t-1") .verify⟩]⟩, .silent) :=
    @step_transact _ 0 ⟨sampleExecutor, .idle⟩ _ rfl rfl (by decide)
  have hcall : World.step ⟨sampleCell, [⟨sampleExecutor, .before (sampleRequest "t-1") .verify⟩]⟩ (.call 0 sampleProcess) =
      (⟨reservedCell "t-1", [⟨{ sampleExecutor with verifiedRequest := some (sampleRequest "t-1"), nextPhase := .shadowLoad },
          .before (sampleRequest "t-1") .shadowLoad⟩]⟩, .stage 0 (sampleRequest "t-1") .verify (.ok ())) := by
    rfl
  rw [begins, runAll, hcreate, runAll, htransact, runAll, hcall, runAll]

theorem reservation_is_the_holders_first :
    ∃ w h, Reached Guarded sampleCell w h ∧ holding h 0 = some "t-1" ∧ Owned Guarded w h 0 "t-1" := by
  have hmeets : ∀ a ∈ begins 0 "t-1", ∀ w h, Guarded w h a := by
    intro a ha w h
    simp only [begins, List.mem_cons, List.not_mem_nil, or_false] at ha
    rcases ha with rfl | rfl | rfl <;> trivial
  have hreached := @Reached.runAll _ _ Guarded sampleCell .start (begins 0 "t-1") hmeets
  have hheld : holding (runAll ⟨sampleCell, []⟩ [] (begins 0 "t-1")).2 0 = some "t-1" := by
    rw [runAll_first]
    rfl
  exact ⟨_, _, hreached, hheld, reservation_is_the_holders sampleRuntime firstGeneration sampleCell sampleCell_new _ _
    hreached 0 "t-1" hheld⟩

theorem runAll_second (h : List Answer) (party : Party) :
    ∃ w, runAll ⟨reservedCell "t-1", [party]⟩ h (begins 1 "t-2" ++ [.rollback 1 sampleProcess]) = w ∧ w.1.cell = sampleCell ∧
      holding w.2 0 = holding h 0 := by
  have hnew : RuntimeHotSwapExecutor.new (reservedCell "t-1") secondPlan sampleState = .ok sampleExecutor :=
    new_sample (some "t-1")
  obtain ⟨error, hrefused⟩ := verify_reserved "t-1" "t-2" sampleProcess
  have hcreate : World.step ⟨reservedCell "t-1", [party]⟩ (.create secondPlan sampleState) =
      (⟨reservedCell "t-1", [party, ⟨sampleExecutor, .idle⟩]⟩, .silent) := by
    simp only [World.step, hnew, List.singleton_append]
  have htransact : World.step ⟨reservedCell "t-1", [party, ⟨sampleExecutor, .idle⟩]⟩ (.transact 1 (sampleRequest "t-2")) =
      (⟨reservedCell "t-1", [party, ⟨sampleExecutor, .before (sampleRequest "t-2") .verify⟩]⟩, .silent) :=
    @step_transact _ 1 ⟨sampleExecutor, .idle⟩ _ rfl rfl (by decide)
  have hcall : World.step ⟨reservedCell "t-1", [party, ⟨sampleExecutor, .before (sampleRequest "t-2") .verify⟩]⟩
      (.call 1 sampleProcess) = (⟨reservedCell "t-1", [party, ⟨sampleExecutor, .failing (sampleRequest "t-2")⟩]⟩,
        .stage 1 (sampleRequest "t-2") .verify (.error error)) := by
    simp only [World.step, World.onParty, World.stepParty, List.getElem?_cons_succ, List.getElem?_cons_zero, hrefused]
    rfl
  have hrollback : World.step ⟨reservedCell "t-1", [party, ⟨sampleExecutor, .failing (sampleRequest "t-2")⟩]⟩
      (.rollback 1 sampleProcess) = (⟨sampleCell, [party, ⟨{ sampleExecutor with nextPhase := .rolledBack }, .idle⟩]⟩,
          .rollback 1 (sampleRequest "t-2") (.ok ())) := by
    rfl
  refine ⟨_, rfl, ?_, ?_⟩ <;>
    rw [begins, List.cons_append, List.cons_append, List.cons_append, List.nil_append, runAll, hcreate, runAll, htransact, runAll,
      hcall, runAll, hrollback, runAll]
  rfl

/-- The rollback of an executor whose `verify` was refused lets the first one's reservation go. -/
theorem not_reservation_is_the_holders :
    ¬ ∀ (runtime : ImplementationRuntime) (g : HotSwapGeneration) (cell : ActiveCell),
      ActiveCell.new runtime g = .ok cell → ∀ (w : World) (h : List Answer), Reached (fun _ _ _ => True) cell w h →
        ∀ (i : Nat) (id : String), holding h i = some id → Owned (fun _ _ _ => True) w h i id := by
  intro hall
  have hfirst := @Reached.runAll _ _ (fun _ _ _ => True) sampleCell .start (begins 0 "t-1") (fun _ _ _ _ => trivial)
  rw [runAll_first] at hfirst
  have hsecond := hfirst.runAll (fun (a : Action) (_ : a ∈ begins 1 "t-2" ++ [.rollback 1 sampleProcess]) _ _ => trivial)
  obtain ⟨w, hw, hcell, hheld⟩ := runAll_second [.stage 0 (sampleRequest "t-1") .verify (.ok ()), .silent, .silent]
    ⟨{ sampleExecutor with verifiedRequest := some (sampleRequest "t-1"), nextPhase := .shadowLoad },
      .before (sampleRequest "t-1") .shadowLoad⟩
  rw [hw] at hsecond
  have howned := hall sampleRuntime firstGeneration sampleCell sampleCell_new _ _ hsecond 0 "t-1" (hheld.trans rfl)
  have hfree : w.1.cell.transition = none := congrArg ActiveCell.transition hcell
  cases hfree.symm.trans howned.named

end Iteron.HotSwap
