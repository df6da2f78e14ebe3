import Superstep.Script.Master
import Superstep.Script.Vertex

/-!
# Scripts

A script is a vertex program written down as data: statements for each of the three hooks, a schema
and a reducer. `Script.program` is the vertex program that it stands for.

The engine does not know scripts, and no theorem is about them. They are there to try the engine
out: a test gives its program as data, and runs it as it would run any other.
-/

namespace Superstep

namespace Script

/-- A reducer with a name. -/
inductive NamedReducer where
  | sum
  | min
  | max
  | count
  /-- The product of the messages. -/
  | product
  /-- A value that depends on the messages and their order. -/
  | digest
  /-- The latest message. -/
  | last
  deriving Repr, DecidableEq

namespace NamedReducer

/-- The name of a reducer. -/
def name : NamedReducer → String
  | sum => "sum"
  | min => "min"
  | max => "max"
  | count => "count"
  | product => "product"
  | digest => "digest"
  | last => "last"

/-- The reducer of a given name. -/
def ofName? (s : String) : Option NamedReducer :=
  [sum, min, max, count, product, digest, last].find? (·.name == s)

/-- How the reducer combines messages. -/
def reducer : NamedReducer → Reducer Float
  | sum => .sum
  | min => .min
  | max => .max
  | count => .count
  | product => ⟨1.0, (· * ·)⟩
  | digest => ⟨7.0, fun current message => current * 31.0 + message⟩
  | last => ⟨-1.0, fun _ message => message⟩

end NamedReducer

end Script

/-- A vertex program written down as data. -/
structure Script where
  schema : Except Violation (Schema Float)
  reducer : Option Script.NamedReducer
  init : List Script.VertexStatement
  compute : List Script.ComputeStatement
  master : List Script.MasterStatement

/-- The vertex program that a script stands for. -/
def Script.program (s : Script) : Program Float where
  schema _ := s.schema
  reducer := s.reducer.map NamedReducer.reducer
  init := (initHook s.init).reply
  compute := (computeHook s.compute).reply
  master := (masterHook s.master).reply

end Superstep
