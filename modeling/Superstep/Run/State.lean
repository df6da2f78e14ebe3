/-!
# States of a run

A run is created, initialized, then alternates between computing a superstep and the program's step
between supersteps, until it converges, reaches its cap or fails. It can be released from any
resting state.
-/

namespace Superstep

/-- Where a run is in its life. -/
inductive RunState where
  /-- Nothing has happened yet. -/
  | created
  /-- Buffers are being allocated and vertices set up. -/
  | initializing
  /-- The vertices of a superstep are being computed. -/
  | running (superstep : Nat)
  /-- The program's step after a superstep is being taken. -/
  | masterComputing (superstep : Nat)
  /-- Stopped because nothing was left to do, or because the program said so. -/
  | converged
  /-- Stopped by the superstep cap. -/
  | reachedMaxIterations
  /-- Stopped by an error. -/
  | failed
  /-- Given up by its owner. -/
  | released
  deriving Repr, DecidableEq, Inhabited

namespace RunState

/-- The state in messages. -/
def text : RunState → String
  | .created => "created"
  | .initializing => "initializing"
  | .running s => s!"running superstep {s}"
  | .masterComputing s => s!"master computing superstep {s}"
  | .converged => "converged"
  | .reachedMaxIterations => "reached max iterations"
  | .failed => "failed"
  | .released => "released"

/-- Whether the state can only be left by a release. -/
def isTerminal : RunState → Bool
  | .converged | .reachedMaxIterations | .failed | .released => true
  | _ => false

end RunState

end Superstep
