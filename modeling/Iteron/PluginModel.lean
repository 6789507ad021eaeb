import Iteron.Refuse
import Iteron.Table
import Iteron.Text
import Mathlib.Data.String.Basic
/-!
# PluginModel — what a plugin declares, and what makes a manifest indefensible

`inspect` decides from one manifest alone.  Ceilings that a profile may tune stand at their compiled values.
-/
namespace Iteron.Plugin

open Refuse Text

def maxNameBytes : Nat := 64
def maxSlotKeyBytes : Nat := 64
def maxDetailBytes : Nat := 4096
def maxContributionsPerPlugin : Nat := 256
def maxPluginRequirements : Nat := 64
def maxImplementationIdBytes : Nat := 96

inductive Capability where
  | readOnly
  | reversibleLocal
  | codeExecuting
  | trustMutating
  | irreversibleExternal

def Capability.bit : Capability → UInt8
  | .readOnly => 1
  | .reversibleLocal => 2
  | .codeExecuting => 4
  | .trustMutating => 8
  | .irreversibleExternal => 16

structure CapabilitySet where
  bits : UInt8
  deriving DecidableEq

namespace CapabilitySet

def none : CapabilitySet := ⟨0⟩

def contains (s : CapabilitySet) (c : Capability) : Bool := s.bits &&& c.bit != 0

def intersect (s t : CapabilitySet) : CapabilitySet := ⟨s.bits &&& t.bits⟩

theorem contains_of_intersect {s t : CapabilitySet} {c : Capability} (h : (s.intersect t).contains c = true) :
    t.contains c = true := by
  rw [contains, bne_iff_ne] at h ⊢
  intro hzero
  rw [intersect, UInt8.and_assoc, hzero, UInt8.and_zero] at h
  exact h rfl

end CapabilitySet

structure Version where
  major : Nat
  minor : Nat
  patch : Nat
  deriving DecidableEq

def Version.lt (a b : Version) : Bool :=
  decide (a.major < b.major) || (a.major == b.major && (decide (a.minor < b.minor) ||
    (a.minor == b.minor && decide (a.patch < b.patch))))

inductive Surface where
  | skill
  | agent
  | hook
  | mcpServer
  | languageServer
  | implementation
  | tool
  | provider
  | ui
  | eventSubscription
  deriving DecidableEq

namespace Surface

def isExclusive : Surface → Bool
  | .hook => false
  | _ => true

/-- The place in the declaration, by which surfaces are ordered. -/
def rank : Surface → Nat
  | .skill => 0
  | .agent => 1
  | .hook => 2
  | .mcpServer => 3
  | .languageServer => 4
  | .implementation => 5
  | .tool => 6
  | .provider => 7
  | .ui => 8
  | .eventSubscription => 9

theorem rank_injective {a b : Surface} (h : a.rank = b.rank) : a = b := by
  cases a <;> cases b <;> first | rfl | cases h

end Surface

structure Slot where
  surface : Surface
  key : String
  deriving DecidableEq

def Slot.cmp : Slot → Slot → Ordering := compareLex (compareOn (fun s => s.surface.rank)) (compareOn (fun s => s.key))

instance : Std.TransCmp Slot.cmp := inferInstanceAs (Std.TransCmp (compareLex _ _))

instance : Std.LawfulEqCmp Slot.cmp where
  eq_of_compare := fun {a b} h => by
    simp only [Slot.cmp, compareLex_eq_eq, compareOn, Std.LawfulEqCmp.compare_eq_iff_eq] at h
    obtain ⟨hsurface, hkey⟩ := h
    cases a
    cases b
    simp only [Slot.mk.injEq]
    exact ⟨Surface.rank_injective hsurface, hkey⟩

inductive ModuleId where
  | promptSystem | promptToolDescription | promptSubagent | promptSkill | promptCompaction | promptVerification
  | promptPlanner | promptReduce | promptMemoryWrite | promptRecovery
  | contextAssembly | contextCompaction | memoryRecall | toolExposure | toolArguments | toolEditStrategy
  | toolSearchStrategy | providerRouting | providerSampling | providerRetry | providerPromptCache
  | schedulerParallelism | plannerFanout | verificationQuorum | budgetAllocation | sessionStop | sessionCheckpoint
  | sessionFork
  deriving DecidableEq

def ModuleId.asStr : ModuleId → String
  | .promptSystem => "prompt.system"
  | .promptToolDescription => "prompt.tool_description"
  | .promptSubagent => "prompt.subagent"
  | .promptSkill => "prompt.skill"
  | .promptCompaction => "prompt.compaction"
  | .promptVerification => "prompt.verification"
  | .promptPlanner => "prompt.planner"
  | .promptReduce => "prompt.reduce"
  | .promptMemoryWrite => "prompt.memory_write"
  | .promptRecovery => "prompt.recovery"
  | .contextAssembly => "context.assembly"
  | .contextCompaction => "context.compaction"
  | .memoryRecall => "memory.recall"
  | .toolExposure => "tool.exposure"
  | .toolArguments => "tool.arguments"
  | .toolEditStrategy => "tool.edit_strategy"
  | .toolSearchStrategy => "tool.search_strategy"
  | .providerRouting => "provider.routing"
  | .providerSampling => "provider.sampling"
  | .providerRetry => "provider.retry"
  | .providerPromptCache => "provider.prompt_cache"
  | .schedulerParallelism => "scheduler.parallelism"
  | .plannerFanout => "planner.fanout"
  | .verificationQuorum => "verification.quorum"
  | .budgetAllocation => "budget.allocation"
  | .sessionStop => "session.stop"
  | .sessionCheckpoint => "session.checkpoint"
  | .sessionFork => "session.fork"

inductive Contribution where
  | tool (name binding : String)
  | provider (name binding : String)
  | ui (name binding : String)
  | eventSubscription (name binding : String)
  | skill (name description : String)
  | agent (name description : String)
  | hook (event action : String)
  | mcpServer (name binding : String)
  | languageServer (language command : String)
  | implementation (module : ModuleId) (implementation : String)
  deriving DecidableEq

namespace Contribution

def surface : Contribution → Surface
  | .tool _ _ => .tool
  | .provider _ _ => .provider
  | .ui _ _ => .ui
  | .eventSubscription _ _ => .eventSubscription
  | .skill _ _ => .skill
  | .agent _ _ => .agent
  | .hook _ _ => .hook
  | .mcpServer _ _ => .mcpServer
  | .languageServer _ _ => .languageServer
  | .implementation _ _ => .implementation

def slot (c : Contribution) : Slot :=
  ⟨c.surface, match c with
    | .tool name _ | .provider name _ | .ui name _ | .eventSubscription name _ | .skill name _ | .agent name _ => name
    | .hook event _ => event
    | .mcpServer name _ => name
    | .languageServer language _ => language
    | .implementation module _ => module.asStr⟩

def detail : Contribution → String
  | .skill _ description | .agent _ description => description
  | .tool _ binding | .provider _ binding | .ui _ binding | .eventSubscription _ binding => binding
  | .hook _ action => action
  | .mcpServer _ binding => binding
  | .languageServer _ command => command
  | .implementation _ id => id

end Contribution

inductive PluginScope where
  | user
  | workspace
  deriving DecidableEq

inductive RuntimeScope where
  | user
  | workspace

def RuntimeScope.admits : RuntimeScope → PluginScope → Bool
  | _, .user => true
  | .workspace, .workspace => true
  | .user, .workspace => false

structure Requirement where
  plugin : String
  minimum : Version
  deriving DecidableEq

structure Manifest where
  plugin : String
  version : Version
  scope : PluginScope
  precedence : Nat
  requires : List Requirement
  capabilities : CapabilitySet
  contributions : List Contribution
  deriving DecidableEq

inductive Defect where
  | invalidPluginId (plugin : String)
  | invalidSlotKey (index : Nat) (surface : Surface) (key : String)
  | unusableDetail (index : Nat) (slot : Slot) (problem : String)
  | duplicateClaim (index first : Nat) (slot : Slot)
  | tooManyContributions (count : Nat)
  | duplicatePluginId (plugin : String) (count : Nat)
  | tooManyRequirements
  | invalidRequirement (plugin : String)
  | invalidImplementationId (index : Nat) (implementation : String)
  | missingDependency (plugin : String) (minimum : Version)
  | dependencyTooOld (plugin : String) (minimum actual : Version)

structure Refusal where
  plugin : String
  defect : Defect

def isNameChar (c : Char) : Bool := c.isAlphanum || c == '-' || c == '_' || c == '.'

def validName (name : String) : Bool :=
  !name.isEmpty && decide (name.utf8ByteSize ≤ maxNameBytes) && name.toList.all isNameChar

def validId (id : String) : Bool :=
  !id.isEmpty && decide (id.utf8ByteSize ≤ maxImplementationIdBytes) && id.toList.all isNameChar

def validSlotKey (surface : Surface) (key : String) : Bool :=
  !key.isEmpty && decide (key.utf8ByteSize ≤ maxSlotKeyBytes) &&
    key.toList.all (fun c => c.isAlphanum || c == '-' || c == '_' || (surface == .implementation && c == '.'))

def detailProblem (detail : String) : Option String :=
  if detail.toList.all isWhitespace then some "empty"
  else if detail.utf8ByteSize > maxDetailBytes then some "longer than the declared limit"
  else if detail.toList.any isControl then some "carrying a control character"
  else none

def inspectRequirement (plugin : String) (seen : List String) (r : Requirement) : Except Defect (List String) := do
  refuseIf (validName r.plugin = false ∨ r.plugin = plugin ∨ r.plugin ∈ seen) (.invalidRequirement r.plugin)
  return r.plugin :: seen

def badImplementationId : Contribution → Option String
  | .implementation _ id => if validId id then none else some id
  | _ => none

/-- The claim of a contribution: its slot, and for a hook also its action. -/
def Contribution.claim (c : Contribution) : Slot × String := (c.slot, if c.slot.surface.isExclusive then "" else c.detail)

/-- One contribution; `claimed` are the claims before it with their indices. -/
def inspectContribution (claimed : List ((Slot × String) × Nat)) (entry : Contribution × Nat) :
    Except Defect (List ((Slot × String) × Nat)) := do
  let (c, index) := entry
  refuseIf (validSlotKey c.slot.surface c.slot.key = false) (.invalidSlotKey index c.slot.surface c.slot.key)
  (badImplementationId c).forM (fun implementation => .error (.invalidImplementationId index implementation))
  (detailProblem c.detail).forM (fun problem => .error (.unusableDetail index c.slot problem))
  (claimed.find? (fun p => p.1 == c.claim)).forM (fun p => .error (.duplicateClaim index p.2 c.slot))
  return claimed ++ [(c.claim, index)]

def inspect (m : Manifest) : Except Defect Unit := do
  refuseIf (validName m.plugin = false) (.invalidPluginId m.plugin)
  refuseIf (m.contributions.length > maxContributionsPerPlugin) (.tooManyContributions m.contributions.length)
  refuseIf (m.requires.length > maxPluginRequirements) .tooManyRequirements
  let _ ← m.requires.foldlM (inspectRequirement m.plugin) []
  let _ ← m.contributions.zipIdx.foldlM inspectContribution []
  return ()

end Iteron.Plugin
