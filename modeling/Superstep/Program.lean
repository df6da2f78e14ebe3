import Superstep.Graph
import Superstep.Message.Reducer
import Superstep.NodeValues
import Superstep.Termination

/-!
# Vertex programs

A vertex program says what a vertex does. `init` sets a vertex up before superstep 0, `compute` runs
once per active vertex and superstep, `master` runs alone after each superstep. Each hook is a
function of what it may look at, its view, and answers with a reply: the vertex's new values, the
effects it had in their order, and how it ended. A hook that ends with a fault keeps the effects it
had before.

A hook sees and changes the values of its own vertex only, whatever the order in which vertices are
visited.
-/

namespace Superstep

/-- Why a hook ended early. -/
inductive Fault where
  /-- The program reports an error. -/
  | error (source : String)
  /-- The program broke a contract. -/
  | violation (v : Violation)
  deriving Repr, DecidableEq, Inhabited

/-- What a hook may look at while it works on a vertex. -/
structure VertexView (α : Type) where
  graph : Graph α
  config : Config
  /-- The running superstep; 0 while vertices are set up. -/
  superstep : Nat
  vertex : Nat
  /-- The values of the vertex. -/
  row : Row α
  /-- The messages handed to the vertex, none while it is set up. -/
  inbox : List α
  /-- The run's flag when the hook was called. -/
  flag : Flag

/-- Something a hook did besides changing its own vertex's values. -/
inductive Effect (α : Type) where
  /-- It sent a message. -/
  | send (target : Nat) (value : α)
  /-- It voted to halt: the vertex sleeps until it receives a message. -/
  | voteToHalt
  /-- It asked the run to stop. -/
  | terminate
  deriving Repr, DecidableEq

/-- What a hook made of a vertex. -/
structure Reply (α : Type) where
  /-- The new values of the vertex. -/
  row : Row α
  /-- What else the hook did, in order. -/
  effects : List (Effect α)
  outcome : Except Fault Unit

/-- What the hook between supersteps may look at, besides the values of all vertices. -/
structure MasterView (α : Type) where
  graph : Graph α
  config : Config
  /-- The superstep that was just computed. -/
  superstep : Nat
  /-- The run's flag when the hook was called. -/
  flag : Flag

/-- Whether the run goes on. -/
inductive Control where
  /-- Go on with the next superstep unless the run has converged. -/
  | continue
  /-- Stop here and count as converged. -/
  | halt
  deriving Repr, DecidableEq, Inhabited

/-- What the hook between supersteps did. -/
structure MasterReply (α : Type) where
  /-- The new values of all vertices. -/
  values : NodeValues α
  /-- Whether the hook asked the run to stop. -/
  requested : Bool
  outcome : Except Fault Control

/-- A vertex program. -/
structure Program (α : Type) where
  /-- The slots of a vertex. -/
  schema : Config → Except Violation (Schema α)
  /-- How messages to one vertex are combined, if they are. -/
  reducer : Option (Reducer α)
  /-- Sets a vertex up. Of its effects only a request to stop counts. -/
  init : VertexView α → Reply α
  /-- Computes an active vertex. -/
  compute : VertexView α → Reply α
  /-- Runs alone after each superstep. -/
  master : MasterView α → NodeValues α → MasterReply α

namespace Program

variable {α : Type}

/-- The set-up that does nothing. -/
def keep (view : VertexView α) : Reply α := ⟨view.row, [], .ok ()⟩

/-- The step between supersteps that does nothing. -/
def proceed (_ : MasterView α) (values : NodeValues α) : MasterReply α :=
  ⟨values, false, .ok .continue⟩

end Program

end Superstep
