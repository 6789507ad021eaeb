import Mathlib.Algebra.Ring.Nat
import Mathlib.Data.List.Basic
/-!
# Rollout — the writer of a run's record

Events are checked, redacted and chained into lines, and a batch of lines is written at once.  Observations wait in a
bounded queue, and the next append takes the queue along in front of its own events.  The event vocabulary, its checks
and the record's surroundings (content store, clock and file) are parameters; the foreground gate in front of each call
is left out, and so is the session projection behind it.
-/
namespace Iteron.Rollout

inductive RecordError where
  | writerPoisoned
  | invalidAppendBatch (reason : String)
  | tooManyEvents (max : Nat)
  | tooManyRecordLines (max : Nat)
  | genesisOrder (reason : String)
  | invalidEventSchema (reason : String)
  | recordLineTooLarge (bytes max : Nat)
  | rolloutTooLarge (bytes max : Nat)
  | surroundings (cause : String)

/-- The limits of the record; the batch limit is between 1 and 256. -/
structure Limits where
  appendBatch : Nat := 256
  appendBatch_pos : 0 < appendBatch := by decide
  maxRolloutEvents : Nat
  maxRolloutPhysicalLines : Nat
  maxRecordLineBytes : Nat
  maxRolloutBytes : Nat

/-- `PreparedAppend`. -/
structure Prepared (E : Type) where
  event : E
  seq : Nat
  hash : String
  line : List UInt8

/-- What the writer asks of an event and of its surroundings `W`. -/
structure Host (W E : Type) where
  /-- `TurnEnd` and `Done`. -/
  isBoundary : E → Bool
  isPolicyBundleSnapshot : E → Bool
  /-- `Phase`, `Notice`, `Text` and `Thinking`. -/
  isObservational : E → Bool
  validateCompatibilityTag : E → Except String Unit
  validateTerminalIdentity : E → Except String Unit
  validateEventBounds : E → Except RecordError Unit
  redactEvent : E → E
  withSeq : Nat → E → E
  /-- The length of `serde_json::to_vec`. -/
  encodedLen : E → Except RecordError Nat
  /-- The payload externalised, hashed and framed: the hash and the bytes of the line. -/
  chainLine : W → Nat → String → E → Except RecordError (String × List UInt8) × W
  write : W → List UInt8 → Except RecordError Unit × W

structure State (W E : Type) where
  pendingObservations : List E
  pendingObservationBytes : Nat
  seq : Nat
  lastHash : String
  eventCount : Nat
  physicalLineCount : Nat
  durableBytes : Nat
  poisoned : Bool
  lines : List (Prepared E)
  world : W

def State.nextSequence {W E : Type} (r : State W E) : Nat := r.seq + r.pendingObservations.length

section
variable {W E : Type} (host : Host W E) (limits : Limits)

/-! ## Preparing -/

/-- The frame around one checked event, and the sizes it is held to. -/
def prepareLine (w : W) (seq : Nat) (hash : String) (bytes : Nat) (event : E) :
    Except RecordError (Prepared E × Nat) × W :=
  match host.chainLine w seq hash event with
  | (.error e, w) => (.error e, w)
  | (.ok (hash', line), w) =>
    if limits.maxRecordLineBytes < line.length then
      (.error (.recordLineTooLarge line.length limits.maxRecordLineBytes), w)
    else if 2 ^ 64 ≤ bytes + line.length then (.error (.rolloutTooLarge (2 ^ 64 - 1) limits.maxRolloutBytes), w)
    else if limits.maxRolloutBytes < bytes + line.length then
      (.error (.rolloutTooLarge (bytes + line.length) limits.maxRolloutBytes), w)
    else (.ok (⟨event, seq, hash', line⟩, bytes + line.length), w)

def checkSource (seq : Nat) (source : E) : Except RecordError Unit := do
  if host.isPolicyBundleSnapshot source && seq != 2 then
    throw (.genesisOrder "policy checkpoint must be physical sequence two")
  (host.validateCompatibilityTag source).mapError .invalidEventSchema
  (host.validateTerminalIdentity source).mapError .invalidEventSchema
  host.validateEventBounds source

/-- One event of a batch: the redacted event is stamped and then held to its bounds. -/
def prepareInBatch (w : W) (seq : Nat) (hash : String) (bytes : Nat) (source : E) :
    Except RecordError (Prepared E × Nat) × W :=
  let event := host.withSeq seq (host.redactEvent source)
  match checkSource host seq source *> host.validateEventBounds event with
  | .error e => (.error e, w)
  | .ok () => prepareLine host limits w seq hash bytes event

/-- The one event of `append`: the redacted event is held to its bounds and then stamped. -/
def prepareAlone (w : W) (seq : Nat) (hash : String) (bytes : Nat) (source : E) :
    Except RecordError (Prepared E × Nat) × W :=
  match checkSource host seq source *> host.validateEventBounds (host.redactEvent source) with
  | .error e => (.error e, w)
  | .ok () => prepareLine host limits w seq hash bytes (host.withSeq seq (host.redactEvent source))

/-- The loop of `append_batch`: the prepared lines, and the hash and the bytes behind them. -/
def prepareBatch : W → Nat → String → Nat → List E → Except RecordError (List (Prepared E) × String × Nat) × W
  | w, _, hash, bytes, [] => (.ok ([], hash, bytes), w)
  | w, seq, hash, bytes, source :: events =>
    match prepareInBatch host limits w seq hash bytes source with
    | (.error e, w) => (.error e, w)
    | (.ok (p, bytes), w) =>
      match prepareBatch w (seq + 1) p.hash bytes events with
      | (.error e, w) => (.error e, w)
      | (.ok (ps, hash, bytes), w) => (.ok (p :: ps, hash, bytes), w)

/-! ## Writing -/

/-- `commit_prepared`: a failed write leaves the writer poisoned. -/
def commitPrepared (r : State W E) (prepared : List (Prepared E)) (nextHash : String) (nextBytes : Nat) :
    Except RecordError (List Nat) × State W E :=
  match host.write r.world (prepared.flatMap Prepared.line) with
  | (.error e, w) => (.error e, { r with poisoned := true, world := w })
  | (.ok (), w) =>
    (.ok (prepared.map Prepared.seq),
      { r with lastHash := nextHash, seq := r.seq + prepared.length, eventCount := r.eventCount + prepared.length,
               physicalLineCount := r.physicalLineCount + prepared.length, durableBytes := nextBytes,
               poisoned := false, lines := r.lines ++ prepared, world := w })

/-- A `TurnEnd` or `Done` stands alone and last. -/
def boundaryFinal (events : List E) : Bool := !events.dropLast.any host.isBoundary

/-- `append_batch` with an empty queue. -/
def appendBatchAlone (r : State W E) (events : List E) : Except RecordError (List Nat) × State W E :=
  if events.isEmpty then (.ok [], r)
  else if limits.appendBatch < events.length then
    (.error (.invalidAppendBatch "event count exceeds the bounded batch limit"), r)
  else if !boundaryFinal host events then
    (.error (.invalidAppendBatch "a semantic boundary must be unique and final"), r)
  else if r.poisoned then (.error .writerPoisoned, r)
  else if limits.maxRolloutEvents < r.eventCount + events.length then
    (.error (.tooManyEvents limits.maxRolloutEvents), r)
  else if limits.maxRolloutPhysicalLines < r.physicalLineCount + events.length then
    (.error (.tooManyRecordLines limits.maxRolloutPhysicalLines), r)
  else
    match prepareBatch host limits r.world r.seq r.lastHash r.durableBytes events with
    | (.error e, w) => (.error e, { r with world := w })
    | (.ok (prepared, hash, bytes), w) => commitPrepared host { r with world := w } prepared hash bytes

/-- `append` with an empty queue. -/
def appendAlone (r : State W E) (event : E) : Except RecordError Nat × State W E :=
  if r.poisoned then (.error .writerPoisoned, r)
  else if limits.maxRolloutEvents ≤ r.eventCount then (.error (.tooManyEvents limits.maxRolloutEvents), r)
  else if limits.maxRolloutPhysicalLines ≤ r.physicalLineCount then
    (.error (.tooManyRecordLines limits.maxRolloutPhysicalLines), r)
  else
    match prepareAlone host limits r.world r.seq r.lastHash r.durableBytes event with
    | (.error e, w) => (.error e, { r with world := w })
    | (.ok (p, bytes), w) =>
      match commitPrepared host { r with world := w } [p] p.hash bytes with
      | (.error e, r) => (.error e, r)
      | (.ok [], r) => (.error (.invalidAppendBatch "a one-event append produced no sequence"), r)
      | (.ok (seq :: _), r) => (.ok seq, r)

def chunks {α : Type} (n : Nat) (hn : 0 < n) : List α → List (List α)
  | [] => []
  | x :: xs => (x :: xs).take n :: chunks n hn ((x :: xs).drop n)
termination_by xs => xs.length
decreasing_by simp [List.length_drop]; omega

def appendChunks : State W E → List (List E) → Except RecordError Unit × State W E
  | r, [] => (.ok (), r)
  | r, chunk :: rest =>
    match appendBatchAlone host limits r chunk with
    | (.error e, r) => (.error e, r)
    | (.ok _, r) => appendChunks r rest

def State.taken (r : State W E) : State W E := { r with pendingObservations := [], pendingObservationBytes := 0 }

def flushObservations (r : State W E) : Except RecordError Unit × State W E :=
  if r.pendingObservations.isEmpty then (.ok (), r)
  else appendChunks host limits r.taken (chunks limits.appendBatch limits.appendBatch_pos r.pendingObservations)

def appendBatch (r : State W E) (events : List E) : Except RecordError (List Nat) × State W E :=
  if r.pendingObservations.isEmpty then appendBatchAlone host limits r events
  else if limits.appendBatch < r.pendingObservations.length + events.length then
    match appendChunks host limits r.taken (chunks limits.appendBatch limits.appendBatch_pos r.pendingObservations) with
    | (.error e, r) => (.error e, r)
    | (.ok (), r) => appendBatchAlone host limits r events
  else
    match appendBatchAlone host limits r.taken (r.pendingObservations ++ events) with
    | (.error e, r') => (.error e, r')
    | (.ok seqs, r') => (.ok (seqs.drop r.pendingObservations.length), r')

def append (r : State W E) (event : E) : Except RecordError Nat × State W E :=
  if r.pendingObservations.isEmpty then appendAlone host limits r event
  else if limits.appendBatch < r.pendingObservations.length + 1 then
    match flushObservations host limits r with
    | (.error e, r) => (.error e, r)
    | (.ok (), r) => appendAlone host limits r event
  else
    match appendBatchAlone host limits r.taken (r.pendingObservations ++ [event]) with
    | (.error e, r) => (.error e, r)
    | (.ok seqs, r) =>
      match seqs.getLast? with
      | none => (.error (.invalidAppendBatch "observation batch returned no sequence"), r)
      | some seq => (.ok seq, r)

/-- The checks of `queue_observation` on the event: the redacted event and its bytes. -/
def admitObservation (r : State W E) (event : E) : Except RecordError (E × Nat) := do
  if r.poisoned then throw .writerPoisoned
  if !host.isObservational event then
    throw (.invalidAppendBatch "only observational events may be buffered")
  host.validateEventBounds event
  let event := host.redactEvent event
  let bytes ← host.encodedLen event
  if 8 * 1024 * 1024 < bytes then
    throw (.invalidAppendBatch "observation exceeds the bounded buffer capacity")
  return (event, bytes)

/-- The queue is full: it is flushed before the next observation. -/
def saturated (r : State W E) (bytes : Nat) : Bool :=
  decide (63 ≤ r.pendingObservations.length) || decide (8 * 1024 * 1024 < r.pendingObservationBytes + bytes)

def State.push (r : State W E) (event : E) (bytes : Nat) : State W E :=
  { r with pendingObservationBytes := r.pendingObservationBytes + bytes,
           pendingObservations := r.pendingObservations ++ [event] }

def queueObservation (r : State W E) (event : E) : Except RecordError Bool × State W E :=
  match admitObservation host r event with
  | .error e => (.error e, r)
  | .ok (event, bytes) =>
    if saturated r bytes then
      match flushObservations host limits r with
      | (.error e, r) => (.error e, r)
      | (.ok (), r) => (.ok true, r.push event bytes)
    else (.ok false, r.push event bytes)

end

end Iteron.Rollout
