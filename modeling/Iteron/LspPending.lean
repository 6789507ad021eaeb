import Iteron.Lsp
import Iteron.Machine
import Iteron.Table
/-!
# LspPending — requests in flight

Each admitted request gets the next id and a deadline, and keeps its slot until it is answered, cancelled and released,
or expires.  A cancelled request keeps its slot until its answer.  Retired ids are remembered in a bounded queue.
-/
namespace Iteron.Lsp

open Machine (u64Max saturatingAdd checkedAdd)

def maxInFlight : Nat := 256

def maxJsonrpcNumericId : Nat := 2147483647

def minRequestTimeoutMs : Nat := 1

def maxRequestTimeoutMs : Nat := 120000

structure RequestCorrelation where
  serverEpoch : ServerEpoch
  id : Nat
  method : String

structure CompletedRequest where
  correlation : RequestCorrelation
  documentSnapshot : Option DocumentSnapshot

inductive EntryState where
  | active
  | cancelling

structure Entry where
  correlation : RequestCorrelation
  documentSnapshot : Option DocumentSnapshot
  issuedMs : Nat
  deadlineMs : Nat
  state : EntryState

structure Expired where
  generation : Nat
  id : Nat
  method : String
  elapsedMs : Nat

inductive ReplyDisposition where
  | accepted (request : CompletedRequest)
  | cancelled (correlation : RequestCorrelation)
  | late (expired : Expired)
  | duplicate (correlation : RequestCorrelation)
  | retired (generation id : Nat)
  | foreignGeneration (expected received id : Nat)
  | unknown

inductive CancelDisposition where
  | cancellationRequested (correlation : RequestCorrelation)
  | alreadyCancelling (correlation : RequestCorrelation)
  | timedOut (expired : Expired)
  | foreignGeneration (expected received id : Nat)
  | retired (generation id : Nat)
  | unknown

inductive RetiredKind where
  | replied
  | cancelled
  | timedOut (issuedMs : Nat)

structure Tombstone where
  correlation : RequestCorrelation
  kind : RetiredKind

structure PendingRequests where
  serverEpoch : ServerEpoch
  entries : Std.ExtTreeMap Nat Entry compare := ∅
  tombstones : List Tombstone := []
  capacity : Nat
  nextId : Option Nat := some 1
  lastNowMs : Option Nat := none
  timedOut : Nat := 0
  cancelled : Nat := 0
  rejected : Nat := 0

namespace PendingRequests

def withCapacity (serverGeneration capacity : Nat) : Except LspError PendingRequests :=
  if 1 ≤ capacity ∧ capacity ≤ maxInFlight then .ok { serverEpoch := ⟨serverGeneration⟩, capacity := capacity }
  else .error (.invalidPendingCapacity capacity maxInFlight)

def inFlight (s : PendingRequests) : Nat := s.entries.size

def wasIssued (s : PendingRequests) (id : Nat) : Bool := id ≠ 0 && s.nextId.all (fun next => id < next)

def remember (s : PendingRequests) (correlation : RequestCorrelation) (kind : RetiredKind) : PendingRequests :=
  let kept := if s.tombstones.length = s.capacity then s.tombstones.drop 1 else s.tombstones
  { s with tombstones := kept ++ [⟨correlation, kind⟩] }

def refuse (s : PendingRequests) : PendingRequests := { s with rejected := saturatingAdd s.rejected 1 }

/-- An operation after the clock was read; nothing happens when the clock went back. -/
def atTime {α : Type} (s : PendingRequests) (nowMs : Nat) (f : PendingRequests → PendingRequests × Except LspError α) :
    PendingRequests × Except LspError α :=
  match observeClock s.lastNowMs nowMs with
  | .error e => (s, .error e)
  | .ok last => f { s with lastNowMs := last }

/-! ## Issuing -/

def issueInner (s : PendingRequests) (method : String) (documentSnapshot : Option DocumentSnapshot)
    (nowMs timeoutMs : Nat) : PendingRequests × Except LspError RequestCorrelation :=
  s.atTime nowMs fun s =>
    if ¬ (minRequestTimeoutMs ≤ timeoutMs ∧ timeoutMs ≤ maxRequestTimeoutMs) then
      (s.refuse, .error (.invalidTimeout "request" timeoutMs minRequestTimeoutMs maxRequestTimeoutMs))
    else
      match checkedAdd nowMs timeoutMs with
      | none => (s.refuse, .error (.timeOverflow "request deadline" nowMs timeoutMs))
      | some deadlineMs =>
        if s.entries.size ≥ s.capacity then (s.refuse, .error (.backpressure s.capacity))
        else
          match s.nextId with
          | none => (s.refuse, .error (.requestIdExhausted s.serverEpoch.generation))
          | some id =>
            let correlation := ⟨s.serverEpoch, id, method⟩
            ({ s with
                nextId := if id < maxJsonrpcNumericId then some (id + 1) else none
                entries := s.entries.insert id ⟨correlation, documentSnapshot, nowMs, deadlineMs, .active⟩ },
              .ok correlation)

def issue (s : PendingRequests) (method : String) (nowMs timeoutMs : Nat) :
    PendingRequests × Except LspError RequestCorrelation :=
  s.issueInner method none nowMs timeoutMs

def issueForDocument (s : PendingRequests) (method : String) (documentSnapshot : DocumentSnapshot)
    (nowMs timeoutMs : Nat) : PendingRequests × Except LspError RequestCorrelation :=
  if documentSnapshot.serverEpoch ≠ s.serverEpoch then
    (s.refuse, .error (.serverEpochMismatch s.serverEpoch.generation documentSnapshot.serverEpoch.generation))
  else s.issueInner method (some documentSnapshot) nowMs timeoutMs

/-! ## Retiring -/

def expired (entry : Entry) (nowMs : Nat) : Expired :=
  ⟨entry.correlation.serverEpoch.generation, entry.correlation.id, entry.correlation.method, nowMs - entry.issuedMs⟩

def remove (s : PendingRequests) (id : Nat) : PendingRequests := { s with entries := s.entries.erase id }

/-- Retire an entry whose deadline has passed, one at a time. -/
def timeOut (s : PendingRequests) (id : Nat) (entry : Entry) : PendingRequests :=
  { s.remove id with timedOut := saturatingAdd s.timedOut 1 }.remember entry.correlation (.timedOut entry.issuedMs)

def retiredReply (s : PendingRequests) (id nowMs : Nat) : ReplyDisposition :=
  match s.tombstones.reverse.find? (fun t => t.correlation.id = id) with
  | some tombstone =>
    match tombstone.kind with
    | .replied => .duplicate tombstone.correlation
    | .cancelled => .cancelled tombstone.correlation
    | .timedOut issuedMs =>
      .late ⟨tombstone.correlation.serverEpoch.generation, id, tombstone.correlation.method, nowMs - issuedMs⟩
  | none => if s.wasIssued id then .retired s.serverEpoch.generation id else .unknown

def resolve (s : PendingRequests) (readerGeneration id nowMs : Nat) :
    PendingRequests × Except LspError ReplyDisposition :=
  if readerGeneration ≠ s.serverEpoch.generation then
    (s, .ok (.foreignGeneration s.serverEpoch.generation readerGeneration id))
  else
    s.atTime nowMs fun s =>
      match s.entries[id]? with
      | none => (s, .ok (s.retiredReply id nowMs))
      | some entry =>
        if entry.deadlineMs ≤ nowMs then (s.timeOut id entry, .ok (.late (expired entry nowMs)))
        else
          ((s.remove id).remember entry.correlation .replied, .ok (match entry.state with
              | .active => .accepted ⟨entry.correlation, entry.documentSnapshot⟩
              | .cancelling => .cancelled entry.correlation))

/-- What a cancellation of an id that is not in flight answers. -/
def absent (s : PendingRequests) (readerGeneration id : Nat) : CancelDisposition :=
  if s.wasIssued id then .retired readerGeneration id else .unknown

def cancel (s : PendingRequests) (readerGeneration id nowMs : Nat) :
    PendingRequests × Except LspError CancelDisposition :=
  if readerGeneration ≠ s.serverEpoch.generation then
    (s, .ok (.foreignGeneration s.serverEpoch.generation readerGeneration id))
  else
    s.atTime nowMs fun s =>
      match s.entries[id]? with
      | none => (s, .ok (s.absent readerGeneration id))
      | some entry =>
        if entry.deadlineMs ≤ nowMs then (s.timeOut id entry, .ok (.timedOut (expired entry nowMs)))
        else
          match entry.state with
          | .active =>
            ({ s with
                entries := s.entries.insert id { entry with state := .cancelling }
                cancelled := saturatingAdd s.cancelled 1 },
              .ok (.cancellationRequested entry.correlation))
          | .cancelling => (s, .ok (.alreadyCancelling entry.correlation))

def cancelAndRelease (s : PendingRequests) (readerGeneration id nowMs : Nat) :
    PendingRequests × Except LspError CancelDisposition :=
  if readerGeneration ≠ s.serverEpoch.generation then
    (s, .ok (.foreignGeneration s.serverEpoch.generation readerGeneration id))
  else
    s.atTime nowMs fun s =>
      match s.entries[id]? with
      | none => (s, .ok (s.absent readerGeneration id))
      | some entry =>
        if entry.deadlineMs ≤ nowMs then (s.timeOut id entry, .ok (.timedOut (expired entry nowMs)))
        else
          -- the entry's state is not looked at
          ({ s.remove id with cancelled := saturatingAdd s.cancelled 1 }.remember entry.correlation .cancelled,
            .ok (.cancellationRequested entry.correlation))

def due (s : PendingRequests) (nowMs : Nat) : List Nat :=
  (s.entries.toList.filter (fun p => p.2.deadlineMs ≤ nowMs)).map Prod.fst

def sweep (nowMs : Nat) (acc : PendingRequests × List Expired) (id : Nat) : PendingRequests × List Expired :=
  match acc.1.entries[id]? with
  | none => acc
  | some entry =>
    ((acc.1.remove id).remember entry.correlation (.timedOut entry.issuedMs), acc.2 ++ [expired entry nowMs])

def expire (s : PendingRequests) (nowMs : Nat) : PendingRequests × Except LspError (List Expired) :=
  s.atTime nowMs fun s =>
    let swept := (s.due nowMs).foldl (sweep nowMs) (s, [])
    ({ swept.1 with timedOut := saturatingAdd swept.1.timedOut swept.2.length }, .ok swept.2)

end PendingRequests

/-! ## Runs -/

inductive Request where
  | issue (method : String) (nowMs timeoutMs : Nat)
  | issueForDocument (method : String) (documentSnapshot : DocumentSnapshot) (nowMs timeoutMs : Nat)
  | resolve (readerGeneration id nowMs : Nat)
  | cancel (readerGeneration id nowMs : Nat)
  | cancelAndRelease (readerGeneration id nowMs : Nat)
  | expire (nowMs : Nat)

inductive Answer where
  | issued (r : Except LspError RequestCorrelation)
  | resolved (r : Except LspError ReplyDisposition)
  | cancelled (r : Except LspError CancelDisposition)
  | expired (r : Except LspError (List Expired))

def PendingRequests.serve (s : PendingRequests) : Request → PendingRequests × Answer
  | .issue method nowMs timeoutMs => ((s.issue method nowMs timeoutMs).1, .issued (s.issue method nowMs timeoutMs).2)
  | .issueForDocument method snapshot nowMs timeoutMs =>
    ((s.issueForDocument method snapshot nowMs timeoutMs).1,
      .issued (s.issueForDocument method snapshot nowMs timeoutMs).2)
  | .resolve generation id nowMs => ((s.resolve generation id nowMs).1, .resolved (s.resolve generation id nowMs).2)
  | .cancel generation id nowMs => ((s.cancel generation id nowMs).1, .cancelled (s.cancel generation id nowMs).2)
  | .cancelAndRelease generation id nowMs =>
    ((s.cancelAndRelease generation id nowMs).1, .cancelled (s.cancelAndRelease generation id nowMs).2)
  | .expire nowMs => ((s.expire nowMs).1, .expired (s.expire nowMs).2)

end Iteron.Lsp
