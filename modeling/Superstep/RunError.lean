import Superstep.Config

/-!
# Errors of a run

`RunError` lists why a run cannot start or stops without a result. Each names its place: the
superstep, and for a vertex program the range of vertices that was being worked on.
-/

namespace Superstep

/-- What a worker does with the vertices of its range. -/
inductive Phase where
  /-- Setting up every vertex, before superstep 0. -/
  | init
  /-- Computing the active vertices of a superstep. -/
  | compute
  deriving Repr, DecidableEq, Inhabited

/-- The phase's name in messages. -/
def Phase.name : Phase → String
  | .init => "init"
  | .compute => "compute"

/-- The vertices `start … stop - 1`. -/
structure VertexRange where
  start : Nat
  stop : Nat
  deriving Repr, DecidableEq, Inhabited

namespace VertexRange

/-- Number of vertices. -/
def length (r : VertexRange) : Nat := r.stop - r.start

/-- Whether there is no vertex. -/
def isEmpty (r : VertexRange) : Bool := r.stop ≤ r.start

/-- The vertices, ascending. -/
def toList (r : VertexRange) : List Nat := List.range' r.start r.length

/-- The range in messages: first vertex, and one past the last. -/
def text (r : VertexRange) : String := s!"{r.start}..{r.stop}"

end VertexRange

/-- Why a run did not start or did not end with a result. -/
inductive RunError where
  /-- A configuration value was rejected before anything ran. -/
  | invalidConfiguration (field : Config.Field) (reason : String)
  /-- A vertex program failed on a vertex of this range. -/
  | computation (phase : Phase) (superstep : Nat) (vertices : VertexRange) (source : String)
  /-- The program's step between supersteps failed. -/
  | masterCompute (superstep : Nat) (source : String)
  /-- The termination flag was seen raised. -/
  | terminated (superstep : Nat)
  /-- The operation is not allowed in the run's state. -/
  | invalidState (state operation : String)
  deriving Repr, DecidableEq

namespace RunError

/-- The text that reports an error. -/
def message : RunError → String
  | .invalidConfiguration field reason =>
    "invalid configuration for `" ++ field.name ++ "`: " ++ reason
  | .computation phase superstep vertices source =>
    "vertex program failed during " ++ phase.name ++ s!" in superstep {superstep} (vertices "
      ++ vertices.text ++ "): " ++ source
  | .masterCompute superstep source => s!"master compute failed in superstep {superstep}: {source}"
  | .terminated superstep => s!"run was terminated in superstep {superstep}"
  | .invalidState state operation => s!"cannot {operation} while the run is {state}"

/-- The superstep of an error that happened during a run. -/
def superstep? : RunError → Option Nat
  | .computation _ s _ _ | .masterCompute s _ | .terminated s => some s
  | .invalidConfiguration _ _ | .invalidState _ _ => none

/-- Whether the run was stopped by its termination flag. -/
def isTerminated : RunError → Bool
  | .terminated _ => true
  | _ => false

/-- The vertex program's own account of the failure. -/
def source? : RunError → Option String
  | .computation _ _ _ source | .masterCompute _ source => some source
  | _ => none

end RunError

/-- The error that rejects a field whose value is zero. -/
def RunError.zeroField (field : Config.Field) : RunError :=
  .invalidConfiguration field "must be at least 1"

/-- Rejects a configuration that no run can start with, naming the first offending field. -/
def Config.validate (c : Config) : Except RunError Unit :=
  match c.invalidField? with
  | some field => .error (.zeroField field)
  | none => .ok ()

/-- The default configuration after some changes, if a run can start with it. -/
def Config.build (processors : Nat) (settings : List Config.Setting) : Except RunError Config := do
  let c := (Config.default processors).applyAll settings
  c.validate
  return c

end Superstep
