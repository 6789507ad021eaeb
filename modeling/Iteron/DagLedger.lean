import Iteron.DagChain
import Iteron.DagStore
/-!
# DagLedger — the command ids of the execution ledger

A submission takes its ids from an atomic counter at once and reaches the store when it gets the lock, in any order.
Opening seeds the counter from the log's sequence number, and a reconciliation reads the counter, journals under ids of
its own and writes the counter back.  The tables of task, attempt and message ids, seeded from the largest id the
snapshot holds, are left out.
-/
namespace Iteron.Dag

open Machine TaskDag

/-- A submission with its ids, on its way to the store. -/
inductive Submission where
  | single (id : Nat) (command : Command)
  | batch (commands : List (Nat × Command))

def Submission.ids : Submission → List Nat
  | .single id _ => [id]
  | .batch commands => commands.map Prod.fst

/-- Where a reconciliation of the live ledger stands; it holds the lock of the store until it ends. -/
inductive Recovery where
  | idle
  | loaded (next : Nat)
  | finished (next : Nat) (ok : Bool)

structure ExecutionLedger where
  backend : TaskDagStore
  nextCommand : Nat
  inFlight : List Submission
  recovery : Recovery

namespace ExecutionLedger

/-! ## Reconciliation -/

def attemptRecovery (a : Attempt) : List Command :=
  if a.state.isTerminal then []
  else (if a.state = .registered then [Command.startAttempt .controller a.spec.id] else []) ++
    [Command.chargeBudget .controller a.spec.task { turns := 1 },
      .completeAttempt .controller a.spec.id .unknownEffect .unknownEffect none none
        (some "prior controller exited without an attempt receipt")]

def taskRecovery (t : Task) : List Command :=
  match t.state with
  | .running => [.completeTask .controller t.spec.id .failed none (some "orphan_recovered")
      (some "prior controller exited before the task terminal")]
  | .cancelling reason => [.completeTask .controller t.spec.id .cancelled none none (some reason)]
  | .ready | .blocked => [.requestCancel .controller t.spec.id "prior controller exited before task admission"]
  | _ => []

/-- Submit recovery commands under successive ids until one fails; `io` says how each append ends. -/
def submitRecovery (C : Codec) (H : Digests) (io : Nat → Append) : TaskDagStore → Nat → List Command →
    Option (TaskDagStore × Nat × Except DagError Unit)
  | s, next, [] => some (s, next, .ok ())
  | s, next, c :: cs =>
    match s.submit C H next c (io next) with
    | none => none
    | some (s', .error e) => some (s', saturatingAdd next 1, .error e)
    | some (s', .ok _) => submitRecovery C H io s' (saturatingAdd next 1) cs

/-- End every open attempt with an unknown effect, then every open task. -/
def reconcileNonterminal (C : Codec) (H : Digests) (io : Nat → Append) (s : TaskDagStore) (next : Nat) :
    Option (TaskDagStore × Nat × Except DagError Unit) :=
  match submitRecovery C H io s next ((Table.vals s.dag.attempts).flatMap attemptRecovery) with
  | none => none
  | some (s', next', .error e) => some (s', next', .error e)
  | some (s', next', .ok ()) => submitRecovery C H io s' next' ((Table.vals s'.dag.tasks).flatMap taskRecovery)

/-! ## The ledger -/

/-- Open the log: what the file holds afterwards, and the ledger. -/
def openLedger (C : Codec) (H : Digests) (config : Config) (file : List UInt8) (io : Nat → Append) :
    Option (List UInt8 × Except DagError ExecutionLedger) :=
  match TaskDagStore.openStore C H config file with
  | none => none
  | some (.error e) => some (file, .error e)
  | some (.ok s) =>
    match reconcileNonterminal C H io s (saturatingAdd s.dag.sequence 1) with
    | none => none
    | some (s', _, .error e) => some (s'.file, .error e)
    | some (s', next, .ok ()) => some (s'.file, .ok
      { backend := s', nextCommand := next, inFlight := [], recovery := .idle })

def allocate (first : Nat) (commands : List Command) : List (Nat × Command) :=
  (commands.zipIdx).map (fun p => (saturatingAdd first p.2, p.1))

def submit (l : ExecutionLedger) (command : Command) : ExecutionLedger :=
  { l with
    nextCommand := wrappingAdd l.nextCommand 1
    inFlight := l.inFlight ++ [.single l.nextCommand command] }

/-- A batch of the wrong size is refused before it takes any id. -/
def submitBatch (l : ExecutionLedger) (commands : List Command) : ExecutionLedger :=
  if commands = [] ∨ commands.length > 16 then l
  else
    { l with
      nextCommand := wrappingAdd l.nextCommand commands.length
      inFlight := l.inFlight ++ [.batch (allocate l.nextCommand commands)] }

def deliver (C : Codec) (H : Digests) (l : ExecutionLedger) (submission : Submission) (rest : List Submission)
    (append : Append) : Option ExecutionLedger :=
  match submission with
  | .single id command =>
    (l.backend.submit C H id command append).map (fun r => { l with backend := r.1, inFlight := rest })
  | .batch commands =>
    (l.backend.submitBatch C H commands append).map (fun r => { l with backend := r.1, inFlight := rest })

/-- The process with its ledger, or the file it left. -/
inductive World where
  | closed (file : List UInt8)
  | live (l : ExecutionLedger)

inductive Event where
  /-- `ExecutionLedger::open`. -/
  | start (io : Nat → Append)
  /-- The process ends and leaves the first `kept` bytes of its log. -/
  | stop (kept : Nat)
  /-- A submission takes its id. -/
  | submit (command : Command)
  | submitBatch (commands : List Command)
  /-- The submission in this place gets the lock. -/
  | deliver (place : Nat) (append : Append)
  /-- A reconciliation gets the lock and reads the counter. -/
  | load
  | recover (io : Nat → Append)
  /-- It writes the counter back, unless it failed, and gives up the lock. -/
  | store

def step (C : Codec) (H : Digests) (config : Config) (w : World) (event : Event) : Option World :=
  match w, event with
  | .closed file, .start io =>
    match openLedger C H config file io with
    | none => none
    | some (file', .error _) => some (.closed file')
    | some (_, .ok l) => some (.live l)
  | .live l, .stop kept => some (.closed (l.backend.file.take kept))
  | .live l, .submit command => some (.live (l.submit command))
  | .live l, .submitBatch commands => some (.live (l.submitBatch commands))
  | .live l, .deliver place append =>
    match l.recovery, l.inFlight[place]? with
    | .idle, some submission => (l.deliver C H submission (l.inFlight.eraseIdx place) append).map .live
    | _, _ => none
  | .live l, .load =>
    match l.recovery with
    | .idle => some (.live { l with recovery := .loaded l.nextCommand })
    | _ => none
  | .live l, .recover io =>
    match l.recovery with
    | .loaded next =>
      (reconcileNonterminal C H io l.backend next).map (fun r =>
        .live { l with backend := r.1, recovery := .finished r.2.1 r.2.2.isOk })
    | _ => none
  | .live l, .store =>
    match l.recovery with
    | .finished next true => some (.live { l with nextCommand := next, recovery := .idle })
    | .finished _ false => some (.live { l with recovery := .idle })
    | _ => none
  | _, _ => none

/-- The worlds a history reaches, each event meeting `allowed`. -/
inductive Reaches (C : Codec) (H : Digests) (config : Config) (allowed : World → Event → Prop) : World → Prop
  | empty : Reaches C H config allowed (.closed [])
  | step (w w' : World) (event : Event) : Reaches C H config allowed w → allowed w event →
      ExecutionLedger.step C H config w event = some w' → Reaches C H config allowed w'

def FreshId (d : TaskDag) (id : Nat) : Prop := d.commands[id]? = none

end ExecutionLedger
end Iteron.Dag
