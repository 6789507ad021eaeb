import Iteron.PluginModel
import Mathlib.Data.List.Sort
import Mathlib.Data.Prod.Lex
/-!
# PluginCompose — merging manifests into one runtime surface

A list of manifests is screened, dependents of what is not there are refused until none is, and the contributions of the
rest are merged slot by slot.  `Host` keeps a list with the plugins taken out of service.
-/
namespace Iteron.Plugin

open Refuse

structure Binding where
  slot : Slot
  plugin : String
  precedence : Nat
  detail : String
  capabilities : CapabilitySet

inductive Arbitration where
  | precedence
  | tieBrokenByPluginId

structure Contest where
  slot : Slot
  winner : String
  shadowed : List String
  arbitration : Arbitration

structure Wiring where
  exclusive : Std.ExtTreeMap Slot Binding Slot.cmp
  chains : Std.ExtTreeMap String (List Binding) compare

structure Report where
  contests : List Contest
  refusals : List Refusal

structure Composition where
  wiring : Wiring
  report : Report

def Wiring.contributors (w : Wiring) : List String :=
  (Table.vals w.exclusive).map (fun b => b.plugin) ++ (Table.vals w.chains).flatMap (fun chain => chain.map (fun b => b.plugin))

def Wiring.hooks (w : Wiring) (event : String) : List Binding := (w.chains[event]?).getD []

structure Candidate where
  plugin : String
  precedence : Nat
  index : Nat
  detail : String
  capabilities : CapabilitySet

/-- Highest precedence first, then plugin id, then declaration order. -/
def Candidate.orderKey (c : Candidate) : Lex (Natᵒᵈ × Lex (String × Nat)) :=
  toLex (OrderDual.toDual c.precedence, toLex (c.plugin, c.index))

def Candidate.bind (c : Candidate) (slot : Slot) : Binding :=
  { slot, plugin := c.plugin, precedence := c.precedence, detail := c.detail, capabilities := c.capabilities }

def sortCandidates (l : List Candidate) : List Candidate := l.insertionSort (fun a b => a.orderKey ≤ b.orderKey)

def sortRefusals (l : List Refusal) : List Refusal := l.insertionSort (fun a b => a.plugin ≤ b.plugin)

def declared (manifests : List Manifest) (plugin : String) : Nat := manifests.countP (fun m => m.plugin = plugin)

/-- What is wrong with a manifest before its dependencies are looked at. -/
def screen (manifests : List Manifest) (m : Manifest) : Except Defect Unit := do
  refuseIf (declared manifests m.plugin > 1) (.duplicatePluginId m.plugin (declared manifests m.plugin))
  inspect m

def screenRefusal (manifests : List Manifest) (m : Manifest) : Option Refusal :=
  match screen manifests m with
  | .ok () => none
  | .error defect => some ⟨m.plugin, defect⟩

/-- Admitted before dependencies: without a defect and visible in the scope. -/
def eligible (manifests : List Manifest) (scope : RuntimeScope) (m : Manifest) : Bool :=
  (screen manifests m).isOk && scope.admits m.scope

def versionsOf (admitted : List Manifest) : Std.ExtTreeMap String Version compare :=
  admitted.foldl (fun t m => t.insert m.plugin m.version) ∅

def requirementDefect (versions : Std.ExtTreeMap String Version compare) (r : Requirement) : Option Defect :=
  match versions[r.plugin]? with
  | none => some (.missingDependency r.plugin r.minimum)
  | some actual => if actual.lt r.minimum then some (.dependencyTooOld r.plugin r.minimum actual) else none

/-- The first requirement that the admitted manifests do not meet. -/
def dependencyDefect (admitted : List Manifest) (m : Manifest) : Option Defect :=
  m.requires.findSome? (requirementDefect (versionsOf admitted))

def newlyRefused (admitted : List Manifest) : List Refusal :=
  admitted.filterMap (fun m => (dependencyDefect admitted m).map (fun defect => ⟨m.plugin, defect⟩))

/-- The dependency loop.  Every round but the last drops a manifest, so the fuel is their number. -/
def resolve : Nat → List Manifest → List Refusal → List Manifest × List Refusal
  | 0, admitted, refusals => (admitted, refusals)
  | fuel + 1, admitted, refusals =>
    if newlyRefused admitted = [] then (admitted, refusals)
    else
      resolve fuel (admitted.filter (fun m => m.plugin ∉ (newlyRefused admitted).map (fun r => r.plugin)))
        (refusals ++ newlyRefused admitted)

/-- The manifests that take part in the merge, and what was refused. -/
def admitAll (manifests : List Manifest) (scope : RuntimeScope) : List Manifest × List Refusal :=
  let admitted := manifests.filter (eligible manifests scope)
  resolve admitted.length admitted (manifests.filterMap (screenRefusal manifests))

def candidate (ceiling : CapabilitySet) (m : Manifest) (contribution : Contribution) (index : Nat) : Candidate :=
  { plugin := m.plugin, precedence := m.precedence, index, detail := contribution.detail
    capabilities := m.capabilities.intersect ceiling }

def candidates (ceiling : CapabilitySet) (m : Manifest) : List (Slot × Candidate) :=
  m.contributions.zipIdx.map (fun p => (p.1.slot, candidate ceiling m p.1 p.2))

def exclusiveClaims (claims : List (Slot × Candidate)) : Std.ExtTreeMap Slot (List Candidate) Slot.cmp :=
  (Table.group (claims.filter (fun p => p.1.surface.isExclusive))).map (fun _ l => sortCandidates l)

def chainClaims (claims : List (Slot × Candidate)) : Std.ExtTreeMap String (List Candidate) compare :=
  (Table.group ((claims.filter (fun p => !p.1.surface.isExclusive)).map (fun p => (p.1.key, p.2)))).map
    (fun _ l => sortCandidates l)

/-- The contest of a slot whose sorted claims are more than one. -/
def contestOf (slot : Slot) : List Candidate → Option Contest
  | winner :: second :: rest => some
    { slot, winner := winner.plugin
      shadowed := ((second :: rest).map (fun c => c.plugin)).insertionSort (fun a b => a ≤ b)
      arbitration := if second.precedence = winner.precedence then .tieBrokenByPluginId else .precedence }
  | _ => none

def wire (claims : List (Slot × Candidate)) : Wiring where
  exclusive := (exclusiveClaims claims).filterMap (fun slot l => l.head?.map (fun winner => winner.bind slot))
  chains := (chainClaims claims).map (fun event l => l.map (fun c => c.bind ⟨.hook, event⟩))

def composeGoverned (manifests : List Manifest) (scope : RuntimeScope) (ceiling : CapabilitySet) : Composition :=
  let admitted := admitAll manifests scope
  let claims := admitted.1.flatMap (candidates ceiling)
  { wiring := wire claims
    report :=
      { contests := (exclusiveClaims claims).toList.filterMap (fun p => contestOf p.1 p.2)
        refusals := sortRefusals admitted.2 } }

structure Host where
  manifests : List Manifest
  quarantined : Std.ExtTreeMap String String compare
  composition : Composition
  scope : RuntimeScope
  ceiling : CapabilitySet

namespace Host

def governed (manifests : List Manifest) (scope : RuntimeScope) (ceiling : CapabilitySet) : Host :=
  { manifests, quarantined := ∅, composition := composeGoverned manifests scope ceiling, scope, ceiling }

def inService (h : Host) : List Manifest := h.manifests.filter (fun m => !h.quarantined.contains m.plugin)

def recompose (h : Host) : Host := { h with composition := composeGoverned h.inService h.scope h.ceiling }

def quarantine (h : Host) (plugin reason : String) : Host × Bool :=
  if h.quarantined.contains plugin then (h, false)
  else ({ h with quarantined := h.quarantined.insert plugin reason }.recompose, true)

def release (h : Host) (plugin : String) : Host × Bool :=
  if h.quarantined.contains plugin then ({ h with quarantined := h.quarantined.erase plugin }.recompose, true)
  else (h, false)

end Host

end Iteron.Plugin
