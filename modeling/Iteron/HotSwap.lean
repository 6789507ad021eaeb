import Mathlib.Data.List.Basic
import Mathlib.Algebra.Ring.Nat
/-!
# HotSwap — the replacement of one implementation generation

A request names a transaction, the generation that is active and the one that is to follow it.  A coordinator drives an
executor through the phases in order; a failed stage, and a failed record of one, is answered by a rollback.
-/
namespace Iteron.HotSwap

inductive ModuleId where
  | promptSystem | promptToolDescription | promptSubagent | promptSkill | promptCompaction | promptVerification
  | promptPlanner | promptReduce | promptMemoryWrite | promptRecovery
  | contextAssembly | contextCompaction | memoryRecall | toolExposure | toolArguments | toolEditStrategy
  | toolSearchStrategy | providerRouting | providerSampling | providerRetry | providerPromptCache
  | schedulerParallelism | plannerFanout | verificationQuorum | budgetAllocation | sessionStop | sessionCheckpoint
  | sessionFork
deriving DecidableEq

inductive HotSwapPhase where
  | verify
  | shadowLoad
  | quiesce
  | snapshot
  | migrate
  | restore
  | readiness
  | atomicSwitch
  | drain
  | committed
  | rolledBack
deriving DecidableEq

def HotSwapPhase.debug : HotSwapPhase → String
  | verify => "Verify"
  | shadowLoad => "ShadowLoad"
  | quiesce => "Quiesce"
  | snapshot => "Snapshot"
  | migrate => "Migrate"
  | restore => "Restore"
  | readiness => "Readiness"
  | atomicSwitch => "AtomicSwitch"
  | drain => "Drain"
  | committed => "Committed"
  | rolledBack => "RolledBack"

inductive HotSwapBlockKind where
  | validation
  | dependency
  | provider
  | deadline

structure HotSwapGeneration where
  generation : Nat
  implementationId : String
  artifactSha256 : String
  stateSha256 : String
deriving DecidableEq

structure HotSwapRequest where
  transactionId : String
  module : ModuleId
  candidateSha256 : String
  old : HotSwapGeneration
  new : HotSwapGeneration
  authoritySha256 : String
  deadlineMs : Nat
deriving DecidableEq

structure HotSwapStageError where
  kind : HotSwapBlockKind
  reason : String

def maxHotswapDeadlineMs : Nat := 3600000

def maxHotswapIdBytes : Nat := 128

def maxHotswapReasonBytes : Nat := 1024

def implementationProcessProtocolVersion : Nat := 2

def isAlphanumeric (c : Char) : Bool :=
  (decide ('a' ≤ c) && decide (c ≤ 'z')) || (decide ('A' ≤ c) && decide (c ≤ 'Z')) || c.isDigit

def validId (value : String) : Bool :=
  value != "" && decide (value.utf8ByteSize ≤ maxHotswapIdBytes) &&
    value.toList.all (fun c => isAlphanumeric c || ['.', '_', '-', '/', ':', '@', '+'].contains c)

def validDigest (value : String) : Bool :=
  let bytes := value.toByteArray.data.toList
  bytes.take 7 == "sha256:".toByteArray.data.toList && ((bytes.drop 7).length == 64 &&
    (bytes.drop 7).all (fun b => (decide (48 ≤ b) && decide (b ≤ 57)) || (decide (97 ≤ b) && decide (b ≤ 102))))

def isBreak (c : Char) : Bool := c == '\x00' || c == '\n' || c == '\r'

/-- The last characters are popped until the text is within its bytes. -/
def popTo (bytes : Nat) : List Char → List Char
  | [] => []
  | c :: rest =>
    if (String.ofList (c :: rest).reverse).utf8ByteSize ≤ bytes then c :: rest else popTo bytes rest

def boundedReason (reason : String) : String :=
  let kept := reason.toList.filter (fun c => !isBreak c)
  if kept = [] then "unspecified failure" else String.ofList (popTo maxHotswapReasonBytes kept.reverse).reverse

def HotSwapStageError.make (kind : HotSwapBlockKind) (reason : String) : HotSwapStageError := ⟨kind, boundedReason reason⟩

inductive HotSwapError where
  | invalidRequest (reason : String)
  | ledgerIo (reason : String)
  | ledgerMalformed (reason : String)
  | rollbackFailed (reason : String)
  | commitFinalization (reason : String)

def HotSwapGeneration.validate (g : HotSwapGeneration) : Except HotSwapError Unit :=
  if g.generation = 0 ∨ validId g.implementationId = false ∨ validDigest g.artifactSha256 = false ∨
      validDigest g.stateSha256 = false then
    .error (.invalidRequest "invalid generation identity")
  else .ok ()

/-- The `u64` successor that stays at the bound. -/
def nextGeneration (n : Nat) : Nat := min (n + 1) (2 ^ 64 - 1)

def HotSwapRequest.validate (r : HotSwapRequest) : Except HotSwapError Unit := do
  if validId r.transactionId = false ∨ validDigest r.candidateSha256 = false ∨ validDigest r.authoritySha256 = false ∨
      r.deadlineMs = 0 ∨ maxHotswapDeadlineMs < r.deadlineMs then
    throw (.invalidRequest "invalid transaction identity")
  r.old.validate
  r.new.validate
  if r.new.generation ≠ nextGeneration r.old.generation then throw (.invalidRequest "generation is not consecutive")

/-- A state of an implementation; the content of the state and its schema are behind `validate`. -/
structure ImplementationState where
  module : ModuleId
  implementationId : String
  runId : String
  generation : Nat
  stateSchema : String
  stateSha256 : String
  /-- What `validate` says of the state. -/
  valid : Bool

def stateMatches (state : ImplementationState) (module : ModuleId) (g : HotSwapGeneration) : Bool :=
  state.valid && state.module == module && state.implementationId == g.implementationId &&
    state.generation == g.generation && state.stateSha256 == g.stateSha256

end Iteron.HotSwap
