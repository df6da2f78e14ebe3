import Superstep.Hook

/-!
# Shortest paths

The source has distance zero and every other vertex starts at infinity. A vertex whose distance got
shorter offers to each neighbour its distance plus the weight of the relationship; relationships
without a weight have weight one.
-/

namespace Superstep

/-- Shortest paths from one vertex. -/
structure ShortestPaths where
  source : Nat
  deriving Repr, DecidableEq

namespace ShortestPaths

/-- The key of the result. -/
def distanceKey : String := "distance"

variable {α : Type} [Scalar α]

/-- The slots of a vertex. -/
def schema : Except Violation (Schema α) := Schema.build [.double distanceKey Scalar.top .visible]

/-- Gives the source its distance. -/
def init (p : ShortestPaths) : HookM .init α Unit := do
  if (← HookM.vertex) == p.source then HookM.setDouble distanceKey Scalar.zero

/-- Offers every neighbour the way through this vertex. -/
def relax (distance : α) : HookM .compute α Unit := do
  let row ← HookM.weightedNeighbors Scalar.one
  HookM.sendAll (row.map fun (target, weight) => (target, distance + weight))

/-- Takes over a shorter distance and passes it on. -/
def compute (p : ShortestPaths) : HookM .compute α Unit := do
  if ← HookM.isInitialSuperstep then
    if (← HookM.vertex) == p.source then relax (Scalar.zero : α)
  else
    let offered := Scalar.least (← HookM.inbox)
    if Scalar.less offered (← HookM.double distanceKey) then
      HookM.setDouble distanceKey offered
      relax offered
  HookM.voteToHalt

/-- Shortest paths as a vertex program. -/
def program (p : ShortestPaths) : Program α where
  schema _ := schema
  reducer := some .min
  init := p.init.reply
  compute := p.compute.reply
  master := Program.proceed

end ShortestPaths

end Superstep
