import Iteron.Interleave
import Iteron.PricingLedger
/-!
# PricingBudget — one monetary ceiling shared by a tree of agents

Each node keeps a ceiling, a spent total, a reservation and a ledger of charges in atomics of its own; no lock spans
two nodes.  A reservation walks from the root to its node, a charge locks its way from the node to the root and is
recorded on the way back, and a guard owns the dispatch lane of every node on its lineage until it is dropped.  A call
is a program of node steps, and the node steps of all agents interleave in any order.
-/
namespace Iteron.Pricing

open Machine (checkedAdd)
open Interleave (Prog)

variable {N A I : Type} [DecidableEq N] [DecidableEq A] [DecidableEq I]

/-- A tree of budgets, as `SharedUsdBudget::child` builds it. -/
structure Tree (N : Type) where
  parent : N → Option N
  depth : N → Nat
  depth_root : ∀ x, parent x = none → depth x = 0
  depth_child : ∀ x p, parent x = some p → depth x = depth p + 1
  depth_le : ∀ x, depth x ≤ 64

namespace Tree

def lineageFrom (t : Tree N) : Nat → N → List N
  | 0, x => [x]
  | n + 1, x =>
    match t.parent x with
    | none => [x]
    | some p => x :: lineageFrom t n p

def lineage (t : Tree N) (x : N) : List N := t.lineageFrom (t.depth x) x

end Tree

/-- A `SharedUsdBudget`.  `lock` is the holder of the ledger's mutex.  Two fields are history: `lane` records who raised
the dispatch flag and has not lowered it, `passed` whose current call has passed the node's reserve step. -/
structure Node (A I : Type) where
  ceilingMicrousd : Nat
  spentMicrousd : Nat := 0
  unknown : Bool := false
  providerDispatchInFlight : Bool := false
  reservedMicrousd : Nat := 0
  reservationSettled : Bool := true
  routeCharges : Ledger I := {}
  lock : Option A := none
  lane : List A := []
  passed : List A := []

/-! ## Node steps -/

inductive Op (I : Type) where
  | requiresPricing
  | raiseLane
  | lowerLane
  | reserveLocal (reservation : Nat)
  | settleLocal
  | relaxReserved
  | storeUnknown
  | isUnsettled
  | openCharge (c : Charge I)
  | closeCharge (c : Charge I)
  | unlock

/-- What `commit_provider_route_charge` finds at a node before it asks the parent. -/
inductive Opened where
  | contained
  | refused (e : String)
  | pending
deriving DecidableEq

/-- What it finds once the parent has accepted. -/
inductive Closed where
  | settled
  | refused (e : String)
  | overflowed
deriving DecidableEq

@[reducible] def Op.Reply : Op I → Type
  | .requiresPricing => Bool
  | .raiseLane => Bool
  | .reserveLocal _ => Except String Unit
  | .isUnsettled => Bool
  | .openCharge _ => Opened
  | .closeCharge _ => Closed
  | _ => Unit

namespace Node

/-- The checks of `reserve_local`. -/
def reserveLocal (n : Node A I) (reservation : Nat) : Except String (Node A I) :=
  if n.unknown then .error "provider monetary effects remain unresolved"
  else if !n.reservationSettled then .error "a provider cost reservation is already active"
  else
    match checkedAdd n.spentMicrousd reservation with
    | none => .error "provider cost reservation overflowed"
    | some required =>
      if n.ceilingMicrousd < required then
        .error "remaining USD ceiling cannot cover the provider request upper bound"
      else .ok { n with reservedMicrousd := reservation, reservationSettled := false }

def tightenMicrousd (n : Node A I) (proposed : Nat) : Node A I :=
  { n with ceilingMicrousd := min n.ceilingMicrousd proposed }

def settleLocal (n : Node A I) : Node A I := { n with reservedMicrousd := 0, reservationSettled := true }

def openCharge (n : Node A I) (c : Charge I) : Opened :=
  match n.routeCharges.containsExact c with
  | .ok true => .contained
  | .error e => .refused e
  | .ok false =>
    if n.reservedMicrousd < c.amountMicrousd then
      .refused "provider route charge exceeded its pre-dispatch reservation"
    else .pending

/-- The ledger's admission and the total's update.  An overflow of the total leaves the mutex with its holder, who
marks the lineage before it unlocks. -/
def closeCharge (n : Node A I) (c : Charge I) : Node A I × Closed :=
  let n' := { n with routeCharges := (n.routeCharges.admitCharge c).1 }
  match (n.routeCharges.admitCharge c).2 with
  | .error e => ({ n' with lock := none }, .refused e)
  | .ok false => ({ n'.settleLocal with lock := none }, .settled)
  | .ok true =>
    match checkedAdd n.spentMicrousd c.amountMicrousd with
    | none => (n', .overflowed)
    | some total => ({ n'.settleLocal with spentMicrousd := total, lock := none }, .settled)

/-- One step of agent `a` at the node; `none` while the mutex is with another. -/
def exec (a : A) (n : Node A I) : (op : Op I) → Option (Node A I × op.Reply)
  | .requiresPricing => some (n, decide (0 < n.ceilingMicrousd))
  | .raiseLane =>
    if n.providerDispatchInFlight then some (n, false)
    else some ({ n with providerDispatchInFlight := true, lane := a :: n.lane }, true)
  | .lowerLane => some ({ n with providerDispatchInFlight := false, lane := n.lane.erase a }, ())
  | .reserveLocal reservation =>
    if n.lock.isSome then none
    else
      match n.reserveLocal reservation with
      | .error e => some (n, .error e)
      | .ok n' => some ({ n' with passed := a :: n.passed }, .ok ())
  | .settleLocal => some (n.settleLocal, ())
  | .relaxReserved => some (if n.reservationSettled then { n with reservedMicrousd := 0 } else n, ())
  | .storeUnknown => some ({ n with unknown := true }, ())
  | .isUnsettled => some (n, !n.reservationSettled)
  | .openCharge c =>
    if n.lock.isSome then none
    else
      match n.openCharge c with
      | .contained => some (n, .contained)
      | o => some ({ n with lock := some a }, o)
  | .closeCharge c => some (n.closeCharge c)
  | .unlock => some ({ n with lock := none }, ())

end Node

def exec (a : A) (s : N → Node A I) (op : N × Op I) : Option ((N → Node A I) × op.2.Reply) :=
  ((s op.1).exec a op.2).map (fun q => (Function.update s op.1 q.1, q.2))

/-! ## The calls

A budget is its lineage: the node first, the root last; the empty lineage is the parent of the root. -/

abbrev Call (N I α : Type) := Prog (N × Op I) (fun op => op.2.Reply) α

def ask (x : N) (op : Op I) : Call N I op.Reply := Interleave.Prog.act (x, op)

def markUnknown : List N → Call N I Unit
  | [] => pure ()
  | x :: up => do
    markUnknown up
    ask x Op.storeUnknown

def settleNotDispatched : List N → Call N I Unit
  | [] => pure ()
  | x :: up => do
    settleNotDispatched up
    ask x Op.settleLocal

def releaseProviderDispatch : List N → Call N I Unit
  | [] => pure ()
  | x :: up => do
    ask x Op.relaxReserved
    releaseProviderDispatch up
    ask x Op.lowerLane

def tryAcquireProviderDispatch (reservation : Nat) : List N → Call N I (Except String Unit)
  | [] => pure (.ok ())
  | x :: up => do
    if ← ask x Op.raiseLane then
      match ← tryAcquireProviderDispatch reservation up with
      | .error e => do
        ask x Op.lowerLane
        pure (.error e)
      | .ok () => do
        match ← ask x (Op.reserveLocal reservation) with
        | .error e => do
          settleNotDispatched up
          releaseProviderDispatch up
          ask x Op.lowerLane
          pure (.error e)
        | .ok () => pure (.ok ())
    else
      pure (.error
        "positive USD provider concurrency is serialized until signed per-attempt reservations are available")

def reserveProviderAttempt (reservation : Nat) : List N → Call N I (Except String Unit)
  | [] => pure (.ok ())
  | x :: up => do
    match ← reserveProviderAttempt reservation up with
    | .error e => pure (.error e)
    | .ok () => do
      match ← ask x (Op.reserveLocal reservation) with
      | .error e => do
        settleNotDispatched up
        pure (.error e)
      | .ok () => pure (.ok ())

/-- `mark_unknown` under the node's mutex, and the return that drops it. -/
def refuseCharge (x : N) (up : List N) (e : String) : Call N I (Except String Unit) := do
  markUnknown (x :: up)
  ask x Op.unlock
  pure (.error e)

def commitProviderRouteCharge (c : Charge I) : List N → Call N I (Except String Unit)
  | [] => pure (.ok ())
  | x :: up => do
    match ← ask x (Op.openCharge c) with
    | .contained => pure (.ok ())
    | .refused e => refuseCharge x up e
    | .pending => do
      match ← commitProviderRouteCharge c up with
      | .error e => refuseCharge x up e
      | .ok () => do
        match ← ask x (Op.closeCharge c) with
        | .refused e => pure (.error e)
        | .overflowed => refuseCharge x up "shared provider route charge total overflowed"
        | .settled => pure (.ok ())

/-- `ProviderAttemptGuard::new`: whether the guard owns the dispatch lane. -/
def newGuard (reservation : Option Nat) : List N → Call N I (Except String Bool)
  | [] => pure (.ok false)
  | x :: up => do
    if ← ask x Op.requiresPricing then
      match reservation with
      | none => pure (.error "positive USD request has no conservative cost reservation")
      | some r => do
        match ← tryAcquireProviderDispatch r (x :: up) with
        | .error e => pure (.error e)
        | .ok () => pure (.ok true)
    else pure (.ok false)

/-- The guard's `drop`. -/
def dropGuard (completed ownsLane : Bool) : List N → Call N I Unit
  | [] => pure ()
  | x :: up =>
    if ownsLane then do
      if completed then pure ()
      else if ← ask x Op.isUnsettled then markUnknown (x :: up)
      else pure ()
      releaseProviderDispatch (x :: up)
    else pure ()

/-! ## The agents -/

inductive Request (N I : Type) where
  | newGuard (reservation : Option Nat)
  | reserve (reservation : Nat)
  | commit (c : Charge I)
  | settle
  | dropGuard (completed : Bool)
  | markUnknown (x : N)

inductive Outcome where
  | guarded (r : Except String Bool)
  | reserved (r : Except String Unit)
  | done

/-- An agent: the guard it holds (whether that owns the lane), the rest of its current call, and how many reservations
it has been granted. -/
structure Agent (N I : Type) where
  guard : Option Bool := none
  running : Option (Call N I Outcome) := none
  granted : Nat := 0

structure State (N A I : Type) where
  nodes : N → Node A I
  agents : A → Agent N I

def State.setAgent (σ : State N A I) (a : A) (g : Agent N I) : State N A I :=
  { σ with agents := Function.update σ.agents a g }

variable (t : Tree N) (node : A → N)

/-- Every node fresh with its ceiling, and no agent doing anything. -/
def fresh (created : N → Nat) : State N A I where
  nodes := fun x => { ceilingMicrousd := created x }
  agents := fun _ => {}

def Request.program (a : A) (guard : Option Bool) : Request N I → Call N I Outcome
  | .newGuard reservation => do
    let r ← Pricing.newGuard reservation (t.lineage (node a))
    pure (.guarded r)
  | .reserve reservation => do
    let r ← reserveProviderAttempt reservation (t.lineage (node a))
    pure (.reserved r)
  | .commit c => do
    let _ ← commitProviderRouteCharge c (t.lineage (node a))
    pure .done
  | .settle => do
    settleNotDispatched (t.lineage (node a))
    pure .done
  | .dropGuard completed => do
    Pricing.dropGuard completed (guard == some true) (t.lineage (node a))
    pure .done
  | .markUnknown x => do
    Pricing.markUnknown (t.lineage x)
    pure .done

/-- A guard is made by an agent that has none; reservations, charges and the drop need one. -/
def Request.allowed (guard : Option Bool) : Request N I → Bool
  | .newGuard _ => guard.isNone
  | .markUnknown _ => true
  | _ => guard.isSome

/-- The guard while the call runs: a dropped guard is gone. -/
def Request.guardDuring (guard : Option Bool) : Request N I → Option Bool
  | .dropGuard _ => none
  | _ => guard

def Outcome.settle (g : Agent N I) : Outcome → Agent N I
  | .guarded (.ok true) => { g with running := none, guard := some true, granted := g.granted + 1 }
  | .guarded (.ok false) => { g with running := none, guard := some false }
  | .reserved (.ok ()) => { g with running := none, granted := g.granted + 1 }
  | _ => { g with running := none }

inductive Event (N A I : Type) where
  | call (a : A) (q : Request N I)
  | turn (a : A)
  | tighten (x : N) (proposed : Nat)

/-- An agent starts a call, an agent takes the next node step of its call, or a ceiling is tightened. -/
def step (σ : State N A I) : Event N A I → Option (State N A I)
  | .call a q =>
    if (σ.agents a).running.isNone && q.allowed (σ.agents a).guard then
      some { nodes := fun x => { σ.nodes x with passed := (σ.nodes x).passed.filter (· ≠ a) }
             agents := Function.update σ.agents a
               { σ.agents a with
                 guard := q.guardDuring (σ.agents a).guard
                 running := some (q.program t node a (σ.agents a).guard) } }
    else none
  | .turn a =>
    match (σ.agents a).running with
    | none => none
    | some (.ret o) => some (σ.setAgent a (o.settle (σ.agents a)))
    | some (.step op k) =>
      match exec a σ.nodes op with
      | none => none
      | some (s, r) => some { nodes := s, agents := Function.update σ.agents a { σ.agents a with running := some (k r) } }
  | .tighten x proposed =>
    some { σ with nodes := Function.update σ.nodes x ((σ.nodes x).tightenMicrousd proposed) }

def run (σ : State N A I) (es : List (Event N A I)) : Option (State N A I) := es.foldlM (step t node) σ

end Iteron.Pricing
