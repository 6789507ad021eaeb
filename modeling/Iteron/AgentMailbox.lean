import Iteron.AgentValidate
/-!
# AgentMailbox — the transitions of the mailbox

Messages are kept in the order of their ids and never removed.  A message is accepted, may be delivered in one epoch, and
ends consumed or rejected, when its text is dropped.
-/
namespace Iteron.Agents
namespace AgentMailbox

open Machine Refuse

def pendingTask (m : AgentMailbox) (id : AgentId) : Option MessageId :=
  ((Table.vals m.messages).find? (fun message =>
    message.receiver == id && message.kind == .task && message.state == .accepted)).map AgentMailboxMessage.id

def reject (message : AgentMailboxMessage) : AgentMailboxMessage := { message with state := .rejected, text := none }

def enqueue (H : Hashes) (m : AgentMailbox) (sender : Option AgentId) (receiver : AgentId) (text : String)
    (kind : AgentMessageKind) (expectedEpoch : Option AgentEpoch) : Except ControllerError (AgentMailbox × MessageId) := do
  liftInvalid (validateText text)
  refuseIf (m.messages.size ≥ maxMessages ∨ m.pendingCount receiver ≥ m.maxPending) .capacity
  let id := m.nextMessage
  let next ← orElseError (checkedAdd m.nextMessage 1) .capacity
  let message : AgentMailboxMessage :=
    { id := id, sender := sender, receiver := receiver, sequence := id, kind := kind, state := .accepted,
      text := some text, contentSha256 := H.text text, expectedEpoch := expectedEpoch }
  pure ({ m with nextMessage := next, messages := m.messages.insert id message }, id)

inductive Handling where
  | leave
  | drop
  | deliver
  deriving DecidableEq

/-- Steering of another epoch is dropped; a task waits for the start of its own turn. -/
def handling (receiver : AgentId) (epoch : AgentEpoch) (activeTask : Option MessageId) (starting : Bool)
    (message : AgentMailboxMessage) : Handling :=
  if message.receiver = receiver ∧ message.state = .accepted then
    if message.expectedEpoch.any (fun expected => expected != epoch) then .drop
    else if message.kind = .task ∧ (starting = false ∨ activeTask ≠ some message.id) then .leave
    else .deliver
  else .leave

def delivered (epoch : AgentEpoch) (message : AgentMailboxMessage) : AgentMailboxMessage :=
  { message with state := .delivered epoch }

def handle (epoch : AgentEpoch) (message : AgentMailboxMessage) : Handling → AgentMailboxMessage
  | .leave => message
  | .drop => reject message
  | .deliver => delivered epoch message

/-- The mailbox after a safe point, and the messages it hands out. -/
def deliver (m : AgentMailbox) (receiver : AgentId) (epoch : AgentEpoch) (activeTask : Option MessageId)
    (starting : Bool) : AgentMailbox × List AgentMailboxMessage :=
  let handling := handling receiver epoch activeTask starting
  ({ m with messages := m.messages.map (fun _ message => handle epoch message (handling message)) },
    ((Table.vals m.messages).filter (fun message => handling message = .deliver)).map (delivered epoch))

/-- The message was delivered to this receiver in this epoch, and perhaps consumed. -/
def deliveredIn (receiver : AgentId) (epoch : AgentEpoch) (message : AgentMailboxMessage) : Bool :=
  message.receiver == receiver && (message.state == .delivered epoch || message.state == .consumed epoch)

def consume (epoch : AgentEpoch) (message : AgentMailboxMessage) : AgentMailboxMessage :=
  { message with state := .consumed epoch, text := none }

/-- The whole batch is checked before any message changes. -/
def markConsumed (m : AgentMailbox) (receiver : AgentId) (epoch : AgentEpoch) (ids : List MessageId) :
    Except ControllerError AgentMailbox := do
  refuseIf (ids.length > m.maxPending) .capacity
  forM ids (fun id => do
    let message ← orElseError (m.message id) .unknownMessage
    refuseIf (deliveredIn receiver epoch message = false) .staleEpoch)
  pure { m with messages := m.messages.map (fun id message => if id ∈ ids then consume epoch message else message) }

def rejectWhere (m : AgentMailbox) (p : AgentMailboxMessage → Bool) : AgentMailbox :=
  { m with messages := m.messages.map (fun _ message => if p message then reject message else message) }

def rejectAccepted (m : AgentMailbox) (receiver : AgentId) : AgentMailbox :=
  m.rejectWhere (fun message => message.receiver == receiver && message.state == .accepted)

def settleEpoch (m : AgentMailbox) (receiver : AgentId) (epoch : AgentEpoch) (activeTask : Option MessageId) :
    AgentMailbox :=
  m.rejectWhere (fun message => message.receiver == receiver && (message.state == .delivered epoch ||
    (message.state == .accepted && (message.expectedEpoch == some epoch || activeTask == some message.id))))

def isDelivered (state : AgentMessageState) : Bool :=
  match state with
  | .delivered _ => true
  | _ => false

def reconcile (m : AgentMailbox) (receiver : AgentId) (activeTask : Option MessageId) (close : Bool) : AgentMailbox :=
  m.rejectWhere (fun message => message.receiver == receiver && (isDelivered message.state ||
    (message.state == .accepted && (message.expectedEpoch.isSome || activeTask == some message.id || close))))

end AgentMailbox
end Iteron.Agents
