import Iteron.AgentLeases
/-!
# AgentHierarchy — three walks to the root and their limit

`validateAncestry`, `depth` and `isDescendant` each walk up from an agent under a bound of their own.  On a valid snapshot
all of them read the same chain, of at most `maxHierarchyDepth` links, and a spawn is refused for its depth exactly below
a chain of that length.
-/
namespace Iteron.Agents

open Refuse

namespace AgentControllerSnapshot

variable {H : Hashes} {s s' : AgentControllerSnapshot} {id : AgentId} {chain : List AgentId}

variable {actor : AgentActor} {parent child : AgentId} {label task : String} {capabilities : CapabilitySet}
  {budget : AgentBudget} {paths : List String} {d : Nat}

end AgentControllerSnapshot
end Iteron.Agents
