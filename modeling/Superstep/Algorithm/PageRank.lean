import Superstep.Hook

/-!
# PageRank

Every vertex starts with `(1 - d) / n` and passes each change of its rank on, damped by `d` and
split evenly over its relationships. A vertex whose rank changed by no more than `tolerance` stops
passing the change on. Rank that reaches a vertex without relationships stays there.
-/

namespace Superstep

/-- PageRank by passing changes on. -/
structure PageRank (α : Type) where
  /-- The probability of following a relationship. -/
  damping : α
  /-- The largest change of a rank that is not passed on. -/
  tolerance : α
  deriving Repr, DecidableEq

namespace PageRank

/-- The usual damping and a tolerance for ranks of small graphs. -/
def standard : PageRank Float := ⟨0.85, 1e-7⟩

/-- The key of the result. -/
def rankKey : String := "rank"

variable {α : Type} [Scalar α]

/-- The slots of a vertex. -/
def schema : Except Violation (Schema α) := Schema.build [.plain rankKey .double .visible]

/-- Gives a vertex its first rank. -/
def init (p : PageRank α) : HookM .init α Unit := do
  let n ← HookM.nodeCount
  HookM.setDouble rankKey ((Scalar.one - p.damping) / Scalar.ofNat n)

/-- Adds what arrived to the rank, and passes the change on. -/
def compute (p : PageRank α) : HookM .compute α Unit := do
  let rank ← HookM.double rankKey
  let delta ←
    if ← HookM.isInitialSuperstep then pure rank
    else do
      let delta := Scalar.sum (← HookM.inbox)
      HookM.setDouble rankKey (rank + delta)
      pure delta
  let degree ← HookM.degree
  if Scalar.less p.tolerance delta && 0 < degree then
    HookM.sendToNeighbors (p.damping * delta / Scalar.ofNat degree)
  HookM.voteToHalt

/-- PageRank as a vertex program. -/
def program (p : PageRank α) : Program α where
  schema _ := schema
  reducer := some .sum
  init := p.init.reply
  compute := p.compute.reply
  master := Program.proceed

end PageRank

end Superstep
