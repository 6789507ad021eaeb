import Iteron.Rollout
/-!
# RolloutQueue — what becomes of queued observations

Every call takes the queue out before it checks anything.  A refused append keeps the queue exactly when the queue was
empty, and over a run whose refused calls all find an empty queue every accepted event is recorded once and in order or
still waits (`refused_append_keeps_queue`).
-/
namespace Iteron.Rollout

variable {W E : Type} {host : Host W E} {limits : Limits} {r r' r'' : State W E} {events : List E} {event : E}

/-! ## What is written -/

def recordedAs (host : Host W E) (start : Nat) (events : List E) : List E :=
  events.mapIdx (fun i e => host.withSeq (start + i) (host.redactEvent e))

theorem recordedAs_cons (start : Nat) (e : E) (es : List E) :
    recordedAs host start (e :: es) = host.withSeq start (host.redactEvent e) :: recordedAs host (start + 1) es := by
  simp [recordedAs, List.mapIdx_cons, Nat.add_assoc, Nat.add_comm 1]

theorem recordedAs_append : ∀ (start : Nat) (es es' : List E),
    recordedAs host start (es ++ es') = recordedAs host start es ++ recordedAs host (start + es.length) es'
  | _, [], _ => rfl
  | start, e :: es, es' => by
    rw [List.cons_append, recordedAs_cons, recordedAs_cons, recordedAs_append, List.length_cons, List.cons_append,
      Nat.add_assoc, Nat.add_comm 1]

theorem length_recordedAs (host : Host W E) (start : Nat) (es : List E) : (recordedAs host start es).length = es.length := by
  simp [recordedAs]

/-- The writer wrote these events, in this order, and nothing else; its queue is as it was. -/
def Wrote (host : Host W E) (r r' : State W E) (events : List E) : Prop :=
  r'.pendingObservations = r.pendingObservations ∧ r'.poisoned = r.poisoned ∧ r'.seq = r.seq + events.length ∧
    ∃ ps, r'.lines = r.lines ++ ps ∧ ps.map Prepared.event = recordedAs host r.seq events

theorem Wrote.nothing (host : Host W E) (r : State W E) (w : W) : Wrote host r { r with world := w } [] := ⟨rfl, rfl, rfl, [], by simp, rfl⟩

theorem Wrote.trans {es es' : List E} (h : Wrote host r r' es) (h' : Wrote host r' r'' es') :
    Wrote host r r'' (es ++ es') := by
  obtain ⟨hq, hp, hs, ps, hlines, hps⟩ := h
  obtain ⟨hq', hp', hs', ps', hlines', hps'⟩ := h'
  refine ⟨hq'.trans hq, hp'.trans hp, ?_, ps ++ ps', ?_, ?_⟩
  · rw [hs', hs, List.length_append, Nat.add_assoc]
  · rw [hlines', hlines, List.append_assoc]
  · rw [List.map_append, hps, hps', hs, recordedAs_append]

variable {bytes : Nat} {hash : String}

theorem prepareLine_event {w w' : W} {seq bytes' : Nat} {p : Prepared E}
    (h : prepareLine host limits w seq hash bytes event = (.ok (p, bytes'), w')) : p.event = event := by
  rw [prepareLine] at h
  split at h
  · cases h
  · split at h
    · cases h
    · split at h
      · cases h
      · split at h
        · cases h
        · cases h
          rfl

theorem prepareBatch_events : ∀ {events : List E} {w w' : W} {seq bytes bytes' : Nat} {hash hash' : String}
    {ps : List (Prepared E)}, prepareBatch host limits w seq hash bytes events = (.ok (ps, hash', bytes'), w') →
    ps.map Prepared.event = recordedAs host seq events
  | [], _, _, _, _, _, _, _, _, h => by
    cases h
    rfl
  | source :: events, w, w', seq, bytes, bytes', hash, hash', ps, h => by
    rw [prepareBatch] at h
    split at h
    · cases h
    · rename_i p bytes1 w1 hp
      split at h
      · cases h
      · rename_i ps' hash2 bytes2 w2 hps
        cases h
        rw [List.map_cons, recordedAs_cons, prepareBatch_events hps]
        rw [prepareInBatch] at hp
        split at hp
        · cases hp
        · rw [prepareLine_event hp]

/-- What an append does: it writes its events, refuses them, or is left poisoned by a failed write. -/
inductive Outcome (host : Host W E) (r : State W E) (events : List E) : Bool → State W E → Prop where
  | wrote {r' : State W E} (h : Wrote host r r' events) : Outcome host r events true r'
  | refused (w : W) : Outcome host r events false { r with world := w }
  | failed (w : W) : Outcome host r events false { r with poisoned := true, world := w }

variable {ps : List (Prepared E)}

theorem length_of_recordedAs {start : Nat} (h : ps.map Prepared.event = recordedAs host start events) :
    ps.length = events.length := by
  rw [← length_recordedAs host start events, ← h, List.length_map]

theorem commitPrepared_outcome {w : W} (hp : r.poisoned = false) (h : ps.map Prepared.event = recordedAs host r.seq events) :
    Outcome host r events (commitPrepared host { r with world := w } ps hash bytes).1.isOk
      (commitPrepared host { r with world := w } ps hash bytes).2 := by
  rw [commitPrepared]
  split
  · exact .failed _
  · refine .wrote ⟨rfl, hp.symm, ?_, ps, rfl, h⟩
    rw [← length_of_recordedAs h]

theorem commitPrepared_seqs {seqs : List Nat}
    (h : commitPrepared host r ps hash bytes = (.ok seqs, r')) : seqs = ps.map Prepared.seq := by
  rw [commitPrepared] at h
  split at h
  · cases h
  · cases h
    rfl

theorem appendBatchAlone_outcome (host : Host W E) (limits : Limits) (r : State W E) (events : List E) :
    Outcome host r events (appendBatchAlone host limits r events).1.isOk (appendBatchAlone host limits r events).2 := by
  rw [appendBatchAlone]
  split
  · rename_i hnil
    rw [List.isEmpty_iff] at hnil
    subst hnil
    exact .wrote (Wrote.nothing host r r.world)
  split
  · exact .refused r.world
  split
  · exact .refused r.world
  split
  · exact .refused r.world
  rename_i hp
  split
  · exact .refused r.world
  split
  · exact .refused r.world
  split
  · exact .refused _
  · rename_i hps
    exact commitPrepared_outcome (by simpa using hp) (prepareBatch_events hps)

theorem appendAlone_outcome (host : Host W E) (limits : Limits) (r : State W E) (event : E) :
    Outcome host r [event] (appendAlone host limits r event).1.isOk (appendAlone host limits r event).2 := by
  rw [appendAlone]
  split
  · exact .refused r.world
  rename_i hp
  split
  · exact .refused r.world
  split
  · exact .refused r.world
  split
  · exact .refused _
  · rename_i p bytes w hps
    have hevent : [p].map Prepared.event = recordedAs host r.seq [event] := by
      rw [prepareAlone] at hps
      split at hps
      · cases hps
      · rw [List.map_singleton, prepareLine_event hps]
        rfl
    have hcommit : Outcome host r [event] (commitPrepared host { r with world := w } [p] p.hash bytes).1.isOk
        (commitPrepared host { r with world := w } [p] p.hash bytes).2 :=
      commitPrepared_outcome (by simpa using hp) hevent
    split <;> rename_i hc
    · rwa [hc] at hcommit
    · exact absurd (commitPrepared_seqs hc) (by simp)
    · rwa [hc] at hcommit

theorem Outcome.pending {ok : Bool} (h : Outcome host r events ok r') : r'.pendingObservations = r.pendingObservations := by
  cases h with
  | wrote h => exact h.1
  | refused w => rfl
  | failed w => rfl

theorem Outcome.wrote_of_ok (h : Outcome host r events true r') : Wrote host r r' events := by
  cases h with
  | wrote h => exact h

/-! ## The queue -/

theorem flatten_chunks {α : Type} (n : Nat) (hn : 0 < n) : ∀ xs : List α, (chunks n hn xs).flatten = xs
  | [] => by rw [chunks]; rfl
  | x :: xs => by rw [chunks, List.flatten_cons, flatten_chunks n hn, List.take_append_drop]
termination_by xs => xs.length
decreasing_by simp [List.length_drop]; omega

theorem appendChunks_pending (host : Host W E) (limits : Limits) : ∀ (cs : List (List E)) (r : State W E),
    (appendChunks host limits r cs).2.pendingObservations = r.pendingObservations
  | [], _ => rfl
  | c :: cs, r => by
    have hstep := appendBatchAlone_outcome host limits r c
    rw [appendChunks]
    split
    · rename_i hc
      rw [hc] at hstep
      exact hstep.pending
    · rename_i r1 hc
      rw [hc] at hstep
      exact (appendChunks_pending host limits cs r1).trans hstep.pending

theorem appendChunks_wrote (host : Host W E) (limits : Limits) : ∀ (cs : List (List E)) (r : State W E), (appendChunks host limits r cs).1.isOk = true →
    Wrote host r (appendChunks host limits r cs).2 cs.flatten
  | [], r, _ => Wrote.nothing host r r.world
  | c :: cs, r, h => by
    have hstep := appendBatchAlone_outcome host limits r c
    rw [appendChunks] at h ⊢
    split
    · rename_i hc
      rw [hc] at h
      cases h
    · rename_i r1 hc
      rw [hc] at h hstep
      exact hstep.wrote_of_ok.trans (appendChunks_wrote host limits cs r1 h)

theorem Wrote.of_empty (hq : r.pendingObservations = []) (h : Wrote host r r' events) :
    Wrote host r.taken r' (r.pendingObservations ++ events) := by
  obtain ⟨hpending, hp, hs, hlines⟩ := h
  rw [hq, List.nil_append]
  exact ⟨hpending.trans hq, hp, hs, hlines⟩

theorem flushObservations_pending (host : Host W E) (limits : Limits) (r : State W E) : (flushObservations host limits r).2.pendingObservations = [] := by
  rw [flushObservations]
  split
  · rename_i hq
    exact List.isEmpty_iff.1 hq
  · exact appendChunks_pending host limits _ r.taken

theorem flushObservations_wrote (h : (flushObservations host limits r).1.isOk = true) :
    Wrote host r.taken (flushObservations host limits r).2 r.pendingObservations := by
  rw [flushObservations] at h ⊢
  split <;> rename_i hq
  · have := (Wrote.nothing host r r.world).of_empty (List.isEmpty_iff.1 hq)
    simpa using this
  · rw [if_neg hq] at h
    have := appendChunks_wrote host limits _ _ h
    rwa [flatten_chunks] at this

theorem append_pending (hq : r.pendingObservations ≠ []) : (append host limits r event).2.pendingObservations = [] := by
  rw [append, if_neg (by simpa using hq)]
  split
  · split
    · rename_i hc
      have := flushObservations_pending host limits r
      rwa [hc] at this
    · rename_i r1 hc
      have := flushObservations_pending host limits r
      rw [hc] at this
      exact (appendAlone_outcome host limits r1 event).pending.trans this
  · have hstep := (appendBatchAlone_outcome host limits r.taken (r.pendingObservations ++ [event])).pending
    split <;> rename_i hc
    · rwa [hc] at hstep
    · rw [hc] at hstep
      split
      · exact hstep
      · exact hstep

theorem appendBatch_pending (hq : r.pendingObservations ≠ []) : (appendBatch host limits r events).2.pendingObservations = [] := by
  rw [appendBatch, if_neg (by simpa using hq)]
  split
  · have hchunks := appendChunks_pending host limits
      (chunks limits.appendBatch limits.appendBatch_pos r.pendingObservations) r.taken
    split
    · rename_i hc
      rwa [hc] at hchunks
    · rename_i r1 hc
      rw [hc] at hchunks
      exact (appendBatchAlone_outcome host limits r1 events).pending.trans hchunks
  · have hstep := (appendBatchAlone_outcome host limits r.taken (r.pendingObservations ++ events)).pending
    split <;> rename_i hc
    · rwa [hc] at hstep
    · rwa [hc] at hstep

theorem append_wrote (h : (append host limits r event).1.isOk = true) :
    Wrote host r.taken (append host limits r event).2 (r.pendingObservations ++ [event]) := by
  rw [append] at h ⊢
  split <;> rename_i hq
  · rw [if_pos hq] at h
    have := appendAlone_outcome host limits r event
    rw [h] at this
    exact this.wrote_of_ok.of_empty (List.isEmpty_iff.1 hq)
  · rw [if_neg hq] at h
    split <;> rename_i hlong
    · rw [if_pos hlong] at h
      split
      · rename_i hc
        rw [hc] at h
        cases h
      · rename_i r1 hc
        rw [hc] at h
        have hflush : Wrote host r.taken r1 r.pendingObservations := by
          have : Wrote host r.taken (flushObservations host limits r).2 r.pendingObservations :=
            flushObservations_wrote (by rw [hc]; rfl)
          rwa [hc] at this
        have := appendAlone_outcome host limits r1 event
        rw [h] at this
        exact hflush.trans this.wrote_of_ok
    · rw [if_neg hlong] at h
      have hstep := appendBatchAlone_outcome host limits r.taken (r.pendingObservations ++ [event])
      split <;> rename_i hc
      · rw [hc] at h
        cases h
      · rw [hc] at h hstep
        dsimp only at h
        split
        · rename_i hlast
          rw [hlast] at h
          cases h
        · exact hstep.wrote_of_ok

theorem appendBatch_wrote (h : (appendBatch host limits r events).1.isOk = true) :
    Wrote host r.taken (appendBatch host limits r events).2 (r.pendingObservations ++ events) := by
  rw [appendBatch] at h ⊢
  split <;> rename_i hq
  · rw [if_pos hq] at h
    have := appendBatchAlone_outcome host limits r events
    rw [h] at this
    exact this.wrote_of_ok.of_empty (List.isEmpty_iff.1 hq)
  · rw [if_neg hq] at h
    split <;> rename_i hlong
    · rw [if_pos hlong] at h
      split
      · rename_i hc
        rw [hc] at h
        cases h
      · rename_i r1 hc
        rw [hc] at h
        have hflush : Wrote host r.taken r1 r.pendingObservations := by
          have := appendChunks_wrote host limits _ _ (by rw [hc]; rfl)
          rwa [hc, flatten_chunks] at this
        have := appendBatchAlone_outcome host limits r1 events
        rw [h] at this
        exact hflush.trans this.wrote_of_ok
    · rw [if_neg hlong] at h
      have hstep := appendBatchAlone_outcome host limits r.taken (r.pendingObservations ++ events)
      split <;> rename_i hc
      · rw [hc] at h
        cases h
      · rw [hc] at hstep
        exact hstep.wrote_of_ok

/-! ## One call -/

inductive Call (E : Type) where
  | queueObservation (event : E)
  | append (event : E)
  | appendBatch (events : List E)
  | flushObservations

def step (host : Host W E) (limits : Limits) (r : State W E) : Call E → Bool × State W E
  | .queueObservation event => ((queueObservation host limits r event).1.isOk, (queueObservation host limits r event).2)
  | .append event => ((append host limits r event).1.isOk, (append host limits r event).2)
  | .appendBatch events => ((appendBatch host limits r events).1.isOk, (appendBatch host limits r events).2)
  | .flushObservations => ((flushObservations host limits r).1.isOk, (flushObservations host limits r).2)

/-- The events a call that succeeds hands to the record; an observation is queued in its redacted form. -/
def Call.handed (host : Host W E) : Call E → List E
  | .queueObservation event => [host.redactEvent event]
  | .append event => [event]
  | .appendBatch events => events
  | .flushObservations => []

/-- `append` or `append_batch`. -/
def Call.isAppend : Call E → Bool
  | .append _ => true
  | .appendBatch _ => true
  | _ => false

/-- Every event that was queued or handed in is recorded, once and in order, or still waits. -/
def Advance (host : Host W E) (r r' : State W E) (new : List E) : Prop :=
  ∃ written, r.pendingObservations ++ new = written ++ r'.pendingObservations ∧ r'.seq = r.seq + written.length ∧
    ∃ ps, r'.lines = r.lines ++ ps ∧ ps.map Prepared.event = recordedAs host r.seq written

theorem Advance.refl (host : Host W E) (r : State W E) : Advance host r r [] := ⟨[], by simp, rfl, [], by simp, rfl⟩

variable {new : List E}

theorem Advance.trans {new' : List E} (h : Advance host r r' new) (h' : Advance host r' r'' new') :
    Advance host r r'' (new ++ new') := by
  obtain ⟨written, hq, hs, ps, hlines, hps⟩ := h
  obtain ⟨written', hq', hs', ps', hlines', hps'⟩ := h'
  refine ⟨written ++ written', ?_, ?_, ps ++ ps', ?_, ?_⟩
  · rw [← List.append_assoc, hq, List.append_assoc, hq', List.append_assoc]
  · rw [hs', hs, List.length_append, Nat.add_assoc]
  · rw [hlines', hlines, List.append_assoc]
  · rw [List.map_append, hps, hps', hs, recordedAs_append]

theorem Wrote.advance (h : Wrote host r.taken r' (r.pendingObservations ++ new)) : Advance host r r' new := by
  obtain ⟨hq, -, hs, hlines⟩ := h
  refine ⟨r.pendingObservations ++ new, ?_, hs, hlines⟩
  rw [hq]
  simp [State.taken]

theorem Advance.push {e : E} (h : Advance host r r' new) : Advance host r (r'.push e bytes) (new ++ [e]) := by
  obtain ⟨written, hq, hs, hlines⟩ := h
  refine ⟨written, ?_, hs, hlines⟩
  rw [← List.append_assoc, hq, List.append_assoc]
  rfl

theorem admitObservation_event {e : E} (h : admitObservation host r event = .ok (e, bytes)) :
    e = host.redactEvent event := by
  simp only [admitObservation, bind, Except.bind, pure, Except.pure, throw, throwThe, MonadExceptOf.throw] at h
  split at h
  · cases h
  split at h
  · cases h
  split at h
  · cases h
  split at h
  · cases h
  split at h
  · cases h
  · cases h
    rfl

variable {call : Call E}

theorem step_advance (h : (step host limits r call).1 = true) :
    Advance host r (step host limits r call).2 (call.handed host) := by
  cases call with
  | append event => exact (append_wrote h).advance
  | appendBatch _ => exact (appendBatch_wrote h).advance
  | flushObservations =>
    refine Wrote.advance ?_
    rw [Call.handed, List.append_nil]
    exact flushObservations_wrote h
  | queueObservation event =>
    simp only [step, queueObservation] at h ⊢
    split
    · rename_i hc
      rw [hc] at h
      cases h
    · rename_i e bytes hc
      rw [hc] at h
      rw [Call.handed, ← admitObservation_event hc]
      split
      · rename_i hfull
        have hflush : (flushObservations host limits r).1.isOk = true →
            Wrote host r.taken (flushObservations host limits r).2 r.pendingObservations := flushObservations_wrote
        split
        · rename_i hf
          simp only [hfull, if_true, hf] at h
          cases h
        · rename_i r1 hf
          rw [hf] at hflush
          have hadvance : Advance host r r1 [] := Wrote.advance (by rw [List.append_nil]; exact hflush rfl)
          exact hadvance.push
      · exact Advance.push (Advance.refl host r)

def takesQueue (host : Host W E) (r : State W E) : Call E → Bool
  | .queueObservation event =>
    match admitObservation host r event with
    | .ok (_, bytes) => saturated r bytes
    | .error _ => false
  | _ => true

theorem Outcome.advance_of_refused (h : Outcome host r events false r') : Advance host r r' [] := by
  cases h with
  | refused w => exact ⟨[], by simp, rfl, [], by simp, rfl⟩
  | failed w => exact ⟨[], by simp, rfl, [], by simp, rfl⟩

theorem append_refused_of_empty (hq : r.pendingObservations = []) (h : (append host limits r event).1.isOk = false) :
    Outcome host r [event] false (append host limits r event).2 := by
  have hempty : r.pendingObservations.isEmpty = true := List.isEmpty_iff.2 hq
  rw [append, if_pos hempty] at h ⊢
  have := appendAlone_outcome host limits r event
  rwa [h] at this

theorem appendBatch_refused_of_empty (hq : r.pendingObservations = []) (h : (appendBatch host limits r events).1.isOk = false) :
    Outcome host r events false (appendBatch host limits r events).2 := by
  have hempty : r.pendingObservations.isEmpty = true := List.isEmpty_iff.2 hq
  rw [appendBatch, if_pos hempty] at h ⊢
  have := appendBatchAlone_outcome host limits r events
  rwa [h] at this

theorem flushObservations_of_empty (hq : r.pendingObservations = []) : flushObservations host limits r = (.ok (), r) := by
  rw [flushObservations, if_pos (List.isEmpty_iff.2 hq)]

theorem step_refused (h : (step host limits r call).1 = false)
    (hq : takesQueue host r call = true → r.pendingObservations = []) :
    Advance host r (step host limits r call).2 [] := by
  cases call with
  | append event => exact (append_refused_of_empty (hq rfl) h).advance_of_refused
  | appendBatch _ => exact (appendBatch_refused_of_empty (hq rfl) h).advance_of_refused
  | flushObservations =>
    simp only [step, flushObservations_of_empty (hq rfl)]
    exact Advance.refl host r
  | queueObservation event =>
    simp only [step, queueObservation, takesQueue] at h hq ⊢
    split
    · exact Advance.refl host r
    · rename_i e bytes hc
      rw [hc] at h hq
      by_cases hfull : saturated r bytes = true
      · simp only [hfull, if_true, flushObservations_of_empty (hq hfull)] at h
        cases h
      · simp only [hfull] at h
        cases h

/-! ## Runs -/

def runState (host : Host W E) (limits : Limits) : State W E → List (Call E) → State W E
  | r, [] => r
  | r, call :: calls => runState host limits (step host limits r call).2 calls

def acceptedFrom (host : Host W E) (limits : Limits) : State W E → List (Call E) → List E
  | _, [] => []
  | r, call :: calls =>
    (if (step host limits r call).1 then call.handed host else []) ++
      acceptedFrom host limits (step host limits r call).2 calls

/-- Every call of the run that takes the queue and is refused finds the queue empty. -/
def RefusedWhenEmpty (host : Host W E) (limits : Limits) (r : State W E) (calls : List (Call E)) : Prop :=
  ∀ pre call post, calls = pre ++ call :: post → takesQueue host (runState host limits r pre) call = true →
    (step host limits (runState host limits r pre) call).1 = false → (runState host limits r pre).pendingObservations = []

theorem run_advance : ∀ (calls : List (Call E)) (r : State W E), RefusedWhenEmpty host limits r calls →
    Advance host r (runState host limits r calls) (acceptedFrom host limits r calls)
  | [], r, _ => Advance.refl host r
  | call :: calls, r, h => by
    have hhead := h [] call calls rfl
    have htail : RefusedWhenEmpty host limits (step host limits r call).2 calls := by
      intro pre c post heq
      exact h (call :: pre) c post (by rw [heq]; rfl)
    refine Advance.trans ?_ (run_advance calls _ htail)
    cases hok : (step host limits r call).1 with
    | true => exact step_advance hok
    | false => exact step_refused hok (fun ht => hhead ht hok)

/-- **A refused append** keeps the queue and the next sequence number exactly when the queue is empty; a successful one
leaves no queue; and over every run whose refused calls find the queue empty, what was queued and what was accepted since
is recorded, once and in order, or still queued. -/
theorem refused_append_keeps_queue (host : Host W E) (limits : Limits) :
    (∀ r call, call.isAppend = true → (step host limits r call).1 = false →
      ((step host limits r call).2.pendingObservations = r.pendingObservations ∧
        (step host limits r call).2.nextSequence = r.nextSequence ↔ r.pendingObservations = [])) ∧
    (∀ r call, call.isAppend = true → (step host limits r call).1 = true →
      (step host limits r call).2.pendingObservations = []) ∧ ∀ r calls, RefusedWhenEmpty host limits r calls →
      Advance host r (runState host limits r calls) (acceptedFrom host limits r calls) := by
  have hgone (r : State W E) (call : Call E) (hcall : call.isAppend = true) (hq : r.pendingObservations ≠ []) :
      (step host limits r call).2.pendingObservations = [] := by
    cases call with
    | append event => exact append_pending hq
    | appendBatch events => exact appendBatch_pending hq
    | queueObservation event => cases hcall
    | flushObservations => cases hcall
  have hkept {r r' : State W E} {events : List E} (h : Outcome host r events false r') :
      r'.pendingObservations = r.pendingObservations ∧ r'.nextSequence = r.nextSequence := by
    cases h with
    | refused w => exact ⟨rfl, rfl⟩
    | failed w => exact ⟨rfl, rfl⟩
  refine ⟨fun r call hcall hfail => ⟨fun h => ?_, fun hq => ?_⟩, fun r call hcall hok => ?_, fun r calls => run_advance calls r⟩
  · by_contra hq
    exact hq (h.1.symm.trans (hgone r call hcall hq))
  · cases call with
    | append event => exact hkept (append_refused_of_empty hq hfail)
    | appendBatch events => exact hkept (appendBatch_refused_of_empty hq hfail)
    | queueObservation event => cases hcall
    | flushObservations => cases hcall
  · cases call with
    | append event => exact (append_wrote hok).1
    | appendBatch events => exact (appendBatch_wrote hok).1
    | queueObservation event => cases hcall
    | flushObservations => cases hcall

/-! ## A queue that is lost -/

/-- Events are texts; the one text `v2` has a schema tag the record does not take. -/
def textHost : Host Unit String where
  isBoundary e := e == "done"
  isPolicyBundleSnapshot _ := false
  isObservational e := e == "note"
  validateCompatibilityTag e := if e = "v2" then .error "tag" else .ok ()
  validateTerminalIdentity _ := .ok ()
  validateEventBounds _ := .ok ()
  redactEvent e := e
  withSeq _ e := e
  encodedLen e := .ok e.length
  chainLine w _ _ _ := (.ok ("", [0]), w)
  write w _ := (.ok (), w)

def textLimits : Limits where
  maxRolloutEvents := 1000
  maxRolloutPhysicalLines := 1000
  maxRecordLineBytes := 1000
  maxRolloutBytes := 1000

def emptyState : State Unit String := ⟨[], 0, 0, "", 0, 0, 0, false, [], ()⟩

/-- An observation that was accepted is gone after an append with a bad schema tag. -/
theorem refused_append_loses_queue : (step textHost textLimits emptyState (.queueObservation "note")).1 = true ∧
    (step textHost textLimits (step textHost textLimits emptyState (.queueObservation "note")).2 (.append "v2")).1 = false ∧
    (step textHost textLimits (step textHost textLimits emptyState (.queueObservation "note")).2
      (.append "v2")).2.pendingObservations ≠
      (step textHost textLimits emptyState (.queueObservation "note")).2.pendingObservations := by
  decide

end Iteron.Rollout
