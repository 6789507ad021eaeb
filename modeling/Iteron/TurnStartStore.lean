import Iteron.Refuse
import Iteron.Machine
import Iteron.Table
import Iteron.Text
import Std.Data.ExtTreeMap
/-!
# TurnStartStore — the admission authority of product turns

One snapshot file holds the request bindings and the admission facts.  Every operation reads it under one file lock,
collects what has expired, acts, and replaces it.  An owner of a reservation holds the lock of a slot file, beside which a
token file holds its nonce; whether it lives is what the lock and the token say when they are looked at.  What the files
and the clock do is handed in.
-/
namespace Iteron.TurnStart

open Machine Refuse Text

def capacity : Nat := 1024

def maxEntryBytes : Nat := 2048

def windowMs : Nat := 1800000

def futureToleranceMs : Nat := 300000

def maxSnapshotBytes : Nat := capacity * maxEntryBytes + 1024

def ownerSlots : Nat := capacity

/-! ## Requests -/

def hexValue (c : Char) : Option Nat :=
  if '0' ≤ c ∧ c ≤ '9' then some (c.toNat - '0'.toNat)
  else if 'a' ≤ c ∧ c ≤ 'f' then some (c.toNat - 'a'.toNat + 10)
  else none

/-- The digits of the identity read so far: whole bytes, and the high half of the next. -/
def parseDigit (state : List Nat × Option Nat) (p : Char × Nat) : Option (List Nat × Option Nat) :=
  if p.2 = 8 ∨ p.2 = 13 ∨ p.2 = 18 ∨ p.2 = 23 then if p.1 = '-' then some state else none
  else if p.2 = 36 then some state
  else do
    let v ← hexValue p.1
    if p.2 < 36 then
      match state.2 with
      | some h => pure (state.1 ++ [h * 16 + v], none)
      | none => pure (state.1, some v)
    else pure state

/-- A canonical version-7 identity, a colon and 64 hexadecimal digits: the identity's bytes and its time. -/
def parseKey (key : String) : Option (List Nat × Nat) :=
  let b := key.toList
  if b.length ≠ 101 ∨ b[36]? ≠ some ':' ∨ b[14]? ≠ some '7' ∨
      (b[19]? ≠ some '8' ∧ b[19]? ≠ some '9' ∧ b[19]? ≠ some 'a' ∧ b[19]? ≠ some 'b') then none
  else do
    let (raw, _) ← b.zipIdx.foldlM parseDigit ([], none)
    pure (raw, (raw.take 6).foldl (fun n byte => n * 256 + byte) 0)

/-- Made by `prepare` only: its time is the one its key carries. -/
structure PreparedRequest where
  requestKey : String
  threadId : String
  createdMs : Nat
  parsed : (parseKey requestKey).map Prod.snd = some createdMs
  deriving DecidableEq

def PreparedRequest.windowClosed (request : PreparedRequest) (now : Nat) : Bool :=
  decide (saturatingAdd windowMs request.createdMs ≤ now)

inductive RefusalReason where
  | requestConflict
  | invalidRequestKey
  | requestKeyExpired
  | requestKeyInFuture
  | invalidTurnText
  | threadUnavailable
  | turnActive
  | capacityFull
  | busy
  | rateLimited
  | runtimeDisconnected

structure StoreRefusal where
  requestKey : Option String
  reason : RefusalReason
  definitelyUnregistered : Bool

def refusal (key : String) (reason : RefusalReason) (definitelyUnregistered : Bool) : StoreRefusal :=
  ⟨some key, reason, definitelyUnregistered⟩

inductive StoreState where
  | pending
  | admitted
  | running
  | completed
  | interrupted
  | drained
  | budgetExhausted
  | stuck
  | failed
  | unknown
  | admissionUnknown
  deriving DecidableEq

def StoreState.terminal : StoreState → Bool
  | .completed | .interrupted | .drained | .budgetExhausted | .stuck | .failed => true
  | _ => false

inductive TerminalState where
  | completed
  | interrupted
  | drained
  | budgetExhausted
  | stuck
  | failed

def TerminalState.toStoreState : TerminalState → StoreState
  | .completed => .completed
  | .interrupted => .interrupted
  | .drained => .drained
  | .budgetExhausted => .budgetExhausted
  | .stuck => .stuck
  | .failed => .failed

structure AdmissionIdentity where
  runId : String
  submissionId : Nat
  turnId : Nat
  deriving DecidableEq

structure StoreReceipt where
  requestKey : String
  threadId : String
  state : StoreState
  identity : Option AdmissionIdentity
  windowClosed : Bool

structure OwnerToken where
  slot : Nat
  nonce : String
  deriving DecidableEq

/-- With its lease, which holds the owner's lock while the reservation exists. -/
structure Reservation where
  request : PreparedRequest
  targetRun : String
  owner : OwnerToken
  nonce : String
  lease : OwnerToken
  deriving DecidableEq

inductive StoreDecision where
  | vacant
  | reserved (reservation : Reservation)
  | admitted (receipt : StoreReceipt)
  | receipt (receipt : StoreReceipt)
  | refused (refusal : StoreRefusal)

/-! ## The snapshot -/

structure Entry where
  threadId : String
  createdMs : Nat
  targetRun : String
  owner : OwnerToken
  reservation : String
  state : StoreState
  identity : Option AdmissionIdentity

structure Snapshot where
  version : Nat
  tenantDigest : String
  wallFloorMs : Nat
  lastProductTurn : Nat
  rateTokensMilli : Nat
  rateRefillMs : Nat
  entries : Std.ExtTreeMap String Entry

structure Codec where
  /-- The SHA-256 of a key's identity, a thread and a text, in hexadecimal. -/
  digest : List Nat → String → String → String
  entryBytes : String → Entry → Nat
  snapshotBytes : Snapshot → Nat

def prepare (C : Codec) (requestKey threadId text : String) : Except StoreRefusal PreparedRequest :=
  match h : parseKey requestKey with
  | none => .error ⟨none, .invalidRequestKey, false⟩
  | some (uuid, createdMs) =>
    if C.digest uuid threadId text ≠ String.ofList (requestKey.toList.drop 37) then
      .error (refusal requestKey .requestConflict false)
    else if threadId.isEmpty = true ∨ threadId.utf8ByteSize > 256 then
      .error (refusal requestKey .threadUnavailable false)
    else if text.utf8ByteSize > 1024 * 1024 ∨ text.toList.all isWhitespace = true then
      .error (refusal requestKey .invalidTurnText false)
    else .ok ⟨requestKey, threadId, createdMs, by rw [h]; rfl⟩

def initialSnapshot (tenantDigest : String) : Snapshot where
  version := 2
  tenantDigest := tenantDigest
  wallFloorMs := 0
  lastProductTurn := 0
  rateTokensMilli := 64000
  rateRefillMs := 0
  entries := ∅

def isNonce (nonce : String) : Bool := nonce.utf8ByteSize == 32 && (bytes nonce).all isLowerHexByte

def validateEntry (C : Codec) (lastProductTurn : Nat) (key : String) (entry : Entry) : Except String Unit :=
  match parseKey key with
  | none => .error "invalid stored request key"
  | some (_, created) =>
    refuseIf (created ≠ entry.createdMs ∨ entry.threadId.isEmpty = true ∨ entry.threadId.utf8ByteSize > 256 ∨
        entry.targetRun.isEmpty = true ∨ entry.targetRun.utf8ByteSize > 256 ∨ entry.owner.slot ≥ ownerSlots ∨
        isNonce entry.owner.nonce = false ∨ isNonce entry.reservation = false ∨ C.entryBytes key entry > maxEntryBytes ∨
        entry.state = .admissionUnknown ∨ decide (entry.state = .pending) ≠ entry.identity.isNone ∨
        entry.identity.any (fun id => id.runId != entry.targetRun || decide (id.turnId > lastProductTurn)) = true)
      "invalid admission entry"

def validateSnapshot (C : Codec) (snapshot : Snapshot) (tenantDigest : String) : Except String Unit := do
  refuseIf (snapshot.version ≠ 2 ∨ snapshot.tenantDigest ≠ tenantDigest ∨ snapshot.entries.size > capacity ∨
      snapshot.rateTokensMilli > 64000 ∨ snapshot.rateRefillMs > snapshot.wallFloorMs)
    "admission snapshot version, tenant or capacity mismatch"
  forM snapshot.entries.toList (fun p => validateEntry C snapshot.lastProductTurn p.1 p.2)

/-- What the replacement of a file comes to: done, failed with the old one in place, or failed with the new one. -/
inductive Storing where
  | done
  | failed
  | lost

/-- `replace_snapshot`: what became durable, and what was reported. -/
def replaceSnapshot (C : Codec) (storing : Storing) (snapshot : Snapshot) : Option Snapshot × Except String Unit :=
  match validateSnapshot C snapshot snapshot.tenantDigest with
  | .error e => (none, .error e)
  | .ok () =>
    if C.snapshotBytes snapshot > maxSnapshotBytes then (none, .error "admission snapshot exceeds byte limit")
    else match storing with
      | .done => (some snapshot, .ok ())
      | .failed => (none, .error "snapshot replacement failed")
      | .lost => (some snapshot, .error "snapshot barrier failed")

/-! ## What an operation does -/

/-- The places where an operation looks whether an owner lives. -/
inductive Stage where
  | collect
  | own
  | scan
  | receipt

/-- `owner_live`, as seen at each place. -/
abbrev Sight := Stage → OwnerToken → Except String Bool

def timeRefusal (request : PreparedRequest) (now : Nat) : Option RefusalReason :=
  if request.windowClosed now = true then some .requestKeyExpired
  else if request.createdMs > saturatingAdd futureToleranceMs now then some .requestKeyInFuture
  else none

def unknown (request : PreparedRequest) (now : Nat) : StoreDecision :=
  .receipt
    { requestKey := request.requestKey, threadId := request.threadId, state := .admissionUnknown, identity := none,
      windowClosed := request.windowClosed now }

section Operations

variable (C : Codec) (sight : Sight) (request : PreparedRequest) (snapshot : Snapshot) (now : Nat)

/-- Whether an entry in one of these states has its owner. -/
def ownedIn (stage : Stage) (states : List StoreState) (entry : Entry) : Except String Bool :=
  if states.contains entry.state then sight stage entry.owner else pure true

def receipt (entry : Entry) : Except String StoreReceipt := do
  let owned ← ownedIn sight .receipt [.admitted, .running] entry
  let state := if owned then entry.state else .unknown
  pure { requestKey := request.requestKey, threadId := request.threadId, state := state, identity := entry.identity,
         windowClosed := request.windowClosed now }

/-- Expired, and neither admitted nor owned any more; the operation's own key is kept. -/
def removable (key : String) (entry : Entry) : Except String Bool :=
  if key = request.requestKey then pure false
  else if now < saturatingAdd windowMs entry.createdMs then pure false
  else if entry.state.terminal = true then pure true
  else do
    let owned ← ownedIn sight .collect [.pending] entry
    pure (!owned)

def removals : List (String × Entry) → Except String (List String)
  | [] => pure []
  | p :: rest => do
    let gone ← removable sight request now p.1 p.2
    let keys ← removals rest
    pure (if gone then p.1 :: keys else keys)

def collect : Except String Snapshot := do
  let keys ← removals sight request now snapshot.entries.toList
  pure { snapshot with entries := keys.foldl (fun entries key => entries.erase key) snapshot.entries }

/-- The snapshot to commit and what is then answered, and the owner token the operation wrote. -/
structure Attempt where
  token : Option OwnerToken
  result : Except String (Snapshot × StoreDecision)

def lookup : Except String (Snapshot × StoreDecision) :=
  match timeRefusal request now with
  | some reason => pure (snapshot, .refused (refusal request.requestKey reason false))
  | none =>
    match snapshot.entries[request.requestKey]? with
    | none => pure (snapshot, .vacant)
    | some entry => do
      let owned ← ownedIn sight .own [.pending] entry
      if owned then do
        let receipt ← receipt sight request now entry
        pure (snapshot, .receipt receipt)
      else pure (snapshot, .vacant)

/-- Whether an entry of another key occupies the request's thread. -/
def occupies (key : String) (entry : Entry) : Except String Bool :=
  if key ≠ request.requestKey ∧ entry.threadId = request.threadId ∧ entry.state.terminal = false then
    ownedIn sight .scan [.pending] entry
  else pure false

/-- Whether some entry does; the scan stops at the first. -/
def occupied : List (String × Entry) → Except String Bool
  | [] => pure false
  | p :: rest => do
    let found ← occupies sight request p.1 p.2
    if found then pure true else occupied rest

/-- The request's entry, unless it is pending without an owner. -/
def heldEntry : Except String (Option Entry) :=
  match snapshot.entries[request.requestKey]? with
  | none => pure none
  | some entry => do
    let owned ← ownedIn sight .own [.pending] entry
    pure (if owned then some entry else none)

/-- The checks before an owner is reserved: the answer they give, if any. -/
def reserveAnswer (targetRun : String) (threadActive : Bool) : Except String (Option StoreDecision) :=
  match timeRefusal request now with
  | some reason => pure (some (.refused (refusal request.requestKey reason false)))
  | none => do
    let held ← heldEntry sight request snapshot
    match held with
    | some entry => do
      let receipt ← receipt sight request now entry
      pure (some (.receipt receipt))
    | none =>
      let absent := !snapshot.entries.contains request.requestKey
      if targetRun.isEmpty = true ∨ targetRun.utf8ByteSize > 256 then
        pure (some (.refused (refusal request.requestKey .threadUnavailable absent)))
      else do
        let busy ← occupied sight request snapshot.entries.toList
        if threadActive = true ∨ busy = true then pure (some (.refused (refusal request.requestKey .turnActive absent)))
        else if absent = true ∧ snapshot.entries.size ≥ capacity then
          pure (some (.refused (refusal request.requestKey .capacityFull true)))
        else pure none

/-- `reserve_owner`: the first free slot, with a nonce in its token file. -/
def reserveOwner (free : Nat → Bool) (nonce : Option String) (storing : Storing) :
    Option OwnerToken × Except String OwnerToken :=
  match (List.range ownerSlots).find? free, nonce with
  | none, _ => (none, .error "admission execution owner slots exhausted")
  | some _, none => (none, .error "admission owner entropy unavailable")
  | some slot, some nonce =>
    match storing with
    | .done => (some ⟨slot, nonce⟩, .ok ⟨slot, nonce⟩)
    | .failed => (none, .error "owner token replacement failed")
    | .lost => (some ⟨slot, nonce⟩, .error "owner token barrier failed")

/-- The entry and its reservation, if the entry fits even with all its fields. -/
def register (targetRun : String) (lease : OwnerToken) (nonce : String) : Snapshot × StoreDecision :=
  let reservation : Reservation :=
    { request := request, targetRun := targetRun, owner := lease, nonce := nonce, lease := lease }
  let entry : Entry :=
    { threadId := request.threadId, createdMs := request.createdMs, targetRun := targetRun, owner := lease,
      reservation := nonce, state := .pending, identity := none }
  let largest := { entry with identity := some ⟨targetRun, u64Max, u64Max⟩, state := .budgetExhausted }
  if C.entryBytes request.requestKey largest > maxEntryBytes then
    (snapshot, .refused (refusal request.requestKey .threadUnavailable (!snapshot.entries.contains request.requestKey)))
  else ({ snapshot with entries := snapshot.entries.insert request.requestKey entry }, .reserved reservation)

def reserve (free : Nat → Bool) (ownerNonce reservationNonce : Option String) (storing : Storing) (targetRun : String)
    (threadActive : Bool) : Attempt :=
  match reserveAnswer sight request snapshot now targetRun threadActive with
  | .error e => ⟨none, .error e⟩
  | .ok (some decision) => ⟨none, .ok (snapshot, decision)⟩
  | .ok none =>
    match reserveOwner free ownerNonce storing with
    | (token, .error e) => ⟨token, .error e⟩
    | (token, .ok lease) =>
      match reservationNonce with
      | none => ⟨token, .error "admission owner entropy unavailable"⟩
      | some nonce => ⟨token, .ok (register C request snapshot targetRun lease nonce)⟩

def owns (reservation : Reservation) (entry : Entry) : Bool :=
  entry.owner == reservation.lease && entry.owner == reservation.owner && entry.reservation == reservation.nonce &&
    entry.targetRun == reservation.targetRun && entry.threadId == reservation.request.threadId

def admitEntry (reservation : Reservation) (identity : AdmissionIdentity) : Except String (Snapshot × StoreDecision) :=
  let request := reservation.request
  match snapshot.entries[request.requestKey]? with
  | none => pure (snapshot, .refused (refusal request.requestKey .runtimeDisconnected true))
  | some entry =>
    if entry.state ≠ .pending then do
      let receipt ← receipt sight request now entry
      pure (snapshot, .receipt receipt)
    else if owns reservation entry = false ∨ identity.runId ≠ reservation.targetRun then
      pure (snapshot, .refused (refusal request.requestKey .requestConflict false))
    else match timeRefusal request now with
      | some reason => pure (snapshot, .refused (refusal request.requestKey reason false))
      | none =>
        match checkedAdd snapshot.lastProductTurn 1 with
        | none => .error "product turn identity exhausted"
        | some following => do
          let turnId := max identity.turnId following
          let admitted := { entry with identity := some { identity with turnId := turnId }, state := .admitted }
          let receipt ← receipt sight request now admitted
          pure ({ snapshot with lastProductTurn := turnId, entries := snapshot.entries.insert request.requestKey admitted },
            .admitted receipt)

/-- The three reports on an admitted turn: find its entry, check its identity, change its state. -/
def report (identity : AdmissionIdentity) (change : Entry → Except String StoreState) :
    Except String (Snapshot × StoreDecision) :=
  match snapshot.entries[request.requestKey]? with
  | none => .error "missing admitted turn"
  | some entry => do
    refuseIf (entry.identity ≠ some identity) "admission identity mismatch"
    let state ← change entry
    let entry := { entry with state := state }
    let receipt ← receipt sight request now entry
    pure ({ snapshot with entries := snapshot.entries.insert request.requestKey entry }, .receipt receipt)

def markRunning (identity : AdmissionIdentity) : Except String (Snapshot × StoreDecision) :=
  report sight request snapshot now identity (fun entry =>
    if entry.state = .admitted ∨ entry.state = .running then do
      let live ← sight .own entry.owner
      pure (if live then .running else entry.state)
    else pure entry.state)

def finish (identity : AdmissionIdentity) (terminal : TerminalState) : Except String (Snapshot × StoreDecision) :=
  report sight request snapshot now identity (fun entry => do
    refuseIf (entry.state.terminal = true ∧ entry.state ≠ terminal.toStoreState) "terminal fact mismatch"
    pure terminal.toStoreState)

def abandon (identity : AdmissionIdentity) : Except String (Snapshot × StoreDecision) :=
  report sight request snapshot now identity (fun entry => pure (if entry.state.terminal then entry.state else .unknown))

def releasePending (reservation : Reservation) (reason : RefusalReason) : Except String (Snapshot × StoreDecision) :=
  let request := reservation.request
  match snapshot.entries[request.requestKey]? with
  | none => pure (snapshot, .refused (refusal request.requestKey reason true))
  | some entry =>
    if entry.state ≠ .pending then do
      let receipt ← receipt sight request now entry
      pure (snapshot, .receipt receipt)
    else do
      refuseIf (owns reservation entry = false) "pending owner mismatch"
      pure ({ snapshot with entries := snapshot.entries.erase request.requestKey },
        .refused (refusal request.requestKey reason true))

end Operations

/-! ## Transactions -/

/-- What the files, the locks, the clock and the random source do to one operation. -/
structure Surroundings where
  /-- The authority's lock was had and its snapshot read. -/
  begins : Bool
  sight : Sight
  free : Nat → Bool
  ownerNonce : Option String
  reservationNonce : Option String
  token : Storing
  /-- The deadline elapsed before the commit. -/
  late : Bool
  /-- The commit; an elapsed deadline after it is a lost one. -/
  commit : Storing

/-- What an operation left: an owner token, a durable snapshot, and its answer. -/
structure Outcome (α : Type) where
  token : Option OwnerToken
  stored : Option Snapshot
  answer : α

/-- The tail of every transaction: the deadline, then the replacement. -/
def finishTransaction {α : Type} (C : Codec) (env : Surroundings) (token : Option OwnerToken) (next : Snapshot)
    (answer : α) (fallback : String → α) : Outcome α :=
  if env.late then ⟨token, none, fallback "deadline elapsed"⟩
  else match replaceSnapshot C env.commit next with
    | (stored, .ok ()) => ⟨token, stored, answer⟩
    | (stored, .error e) => ⟨token, stored, fallback e⟩

def transaction (C : Codec) (env : Surroundings) (disk : Snapshot) (tenantDigest : String) (request : PreparedRequest)
    (nowMs : Nat) (action : Snapshot → Nat → Attempt) : Outcome StoreDecision :=
  if env.begins = false ∨ (validateSnapshot C disk tenantDigest).toBool = false then ⟨none, none, unknown request nowMs⟩
  else
    let now := max nowMs disk.wallFloorMs
    match collect env.sight request { disk with wallFloorMs := now } now with
    | .error _ => ⟨none, none, unknown request now⟩
    | .ok snapshot =>
      if snapshot.entries[request.requestKey]?.any
          (fun entry => entry.threadId != request.threadId || entry.createdMs != request.createdMs) = true then
        ⟨none, none, unknown request now⟩
      else
        let attempt := action snapshot now
        match attempt.result with
        | .error _ => ⟨attempt.token, none, unknown request now⟩
        | .ok (next, decision) => finishTransaction C env attempt.token next decision (fun _ => unknown request now)

inductive Operation where
  | lookup (request : PreparedRequest)
  | reserve (request : PreparedRequest) (targetRun : String) (threadActive : Bool)
  | admitTurn (reservation : Reservation) (identity : AdmissionIdentity)
  | markRunning (request : PreparedRequest) (identity : AdmissionIdentity)
  | finish (request : PreparedRequest) (identity : AdmissionIdentity) (terminal : TerminalState)
  | releasePending (reservation : Reservation) (reason : RefusalReason)
  | abandon (request : PreparedRequest) (identity : AdmissionIdentity)

def Operation.request : Operation → PreparedRequest
  | .lookup request | .reserve request _ _ | .markRunning request _ | .finish request _ _ | .abandon request _ => request
  | .admitTurn reservation _ | .releasePending reservation _ => reservation.request

def Operation.action (C : Codec) (env : Surroundings) (snapshot : Snapshot) (now : Nat) : Operation → Attempt
  | .lookup request => ⟨none, TurnStart.lookup env.sight request snapshot now⟩
  | .reserve request targetRun threadActive =>
    TurnStart.reserve C env.sight request snapshot now env.free env.ownerNonce env.reservationNonce env.token targetRun
      threadActive
  | .admitTurn reservation identity => ⟨none, admitEntry env.sight snapshot now reservation identity⟩
  | .markRunning request identity => ⟨none, TurnStart.markRunning env.sight request snapshot now identity⟩
  | .finish request identity terminal => ⟨none, TurnStart.finish env.sight request snapshot now identity terminal⟩
  | .releasePending reservation reason => ⟨none, TurnStart.releasePending env.sight snapshot now reservation reason⟩
  | .abandon request identity => ⟨none, TurnStart.abandon env.sight request snapshot now identity⟩

def Operation.run (C : Codec) (env : Surroundings) (disk : Snapshot) (tenantDigest : String) (nowMs : Nat)
    (op : Operation) : Outcome StoreDecision :=
  transaction C env disk tenantDigest op.request nowMs (fun snapshot now => op.action C env snapshot now)

def allocateProductTurn (C : Codec) (env : Surroundings) (disk : Snapshot) (tenantDigest : String) (candidate nowMs : Nat) :
    Outcome (Except String Nat) :=
  if env.begins = false ∨ (validateSnapshot C disk tenantDigest).toBool = false then
    ⟨none, none, .error "admission authority unavailable"⟩
  else match checkedAdd disk.lastProductTurn 1 with
    | none => ⟨none, none, .error "product turn identity exhausted"⟩
    | some following =>
      let next := max candidate following
      finishTransaction C env none
        { disk with wallFloorMs := max disk.wallFloorMs nowMs, lastProductTurn := next }
        (.ok next) .error

/-- `enter_request`, once it holds one of the request slots: `none` admits the request to the store. -/
def enterRequest (C : Codec) (env : Surroundings) (disk : Snapshot) (tenantDigest : String) (request : PreparedRequest)
    (nowMs : Nat) : Outcome (Option StoreDecision) :=
  if env.begins = false ∨ (validateSnapshot C disk tenantDigest).toBool = false then
    ⟨none, none, some (unknown request nowMs)⟩
  else
    let now := max nowMs disk.wallFloorMs
    let refill := min ((now - disk.rateRefillMs) * 64) u64Max
    let tokens := min (saturatingAdd disk.rateTokensMilli refill) 64000
    let allowed := decide (tokens ≥ 1000)
    finishTransaction C env none
      { disk with wallFloorMs := now, rateTokensMilli := if allowed then tokens - 1000 else tokens, rateRefillMs := now }
      (if allowed then none else some (.refused (refusal request.requestKey .rateLimited false)))
      (fun _ => some (unknown request now))

end Iteron.TurnStart
