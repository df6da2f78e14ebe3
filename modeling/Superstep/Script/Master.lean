import Superstep.Hook
import Superstep.Script.Expression

/-!
# Scripts between supersteps

What a script can say in the step between supersteps. It sees and changes the values of all
vertices, and may ask the run to halt, which takes effect when it ends.

Only tests write such scripts. The engine does not use them, and no theorem is about them.
-/

namespace Superstep.Script

/-- A number that can be looked up between supersteps. -/
inductive MasterAtom where
  | superstep
  | isInitial
  | nodeCount
  | relationshipCount
  | isTerminated
  | maxIterations
  /-- The sum of an integer slot over all vertices. -/
  | longTotal (key : String)
  | doubleTotal (key : String)

/-- A question about a vertex. -/
inductive MasterQuery where
  | longAt (key : String)
  | doubleAt (key : String)

/-- The language of scripts between supersteps: it knows whether the run is to halt. -/
abbrev StepM := StateT Bool (MasterM Float)

/-- The sum of a slot over the vertices below `n`. -/
def total (n : Nat) (read : NodeValues Float → Nat → Except Violation Float) :
    MasterM Float Float :=
  MasterM.read fun values =>
    (List.range n).foldlM (fun sum v => (read values v).map (sum + ·)) 0.0

/-- The value of an atom. -/
def MasterAtom.eval : MasterAtom → MasterM Float Float
  | .superstep => return Scalar.ofNat (← MasterM.view).superstep
  | .isInitial => return truth ((← MasterM.view).superstep == 0)
  | .nodeCount => return Scalar.ofNat (← MasterM.view).graph.nodeCount
  | .relationshipCount => return Scalar.ofNat (← MasterM.view).graph.relationshipCount
  | .isTerminated => return truth (← MasterM.isTerminated)
  | .maxIterations => return Scalar.ofNat (← MasterM.view).config.maxIterations
  | .longTotal key => do
    total (← MasterM.view).graph.nodeCount fun values v => (values.long key v).map Int64.toFloat
  | .doubleTotal key => do
    total (← MasterM.view).graph.nodeCount fun values v => values.double key v

/-- The answer to a question. -/
def MasterQuery.eval (q : MasterQuery) (x : Float) : MasterM Float Float :=
  match q with
  | .longAt key => return (← MasterM.read (·.long key (toIndex x))).toFloat
  | .doubleAt key => MasterM.read (·.double key (toIndex x))

/-- An expression between supersteps. -/
abbrev MasterExpr := Expr MasterAtom MasterQuery

/-- The value of an expression. -/
def MasterExpr.value (e : MasterExpr) : StepM Float :=
  (e.eval MasterAtom.eval MasterQuery.eval : MasterM Float Float)

/-- Something that a script does between supersteps. -/
inductive MasterAction where
  | setLongAt (key : String) (node value : MasterExpr)
  | setDoubleAt (key : String) (node value : MasterExpr)
  | setLongArrayAt (key : String) (node : MasterExpr) (values : List Int64)
  | halt
  | fail (text : String)
  | violate (text : String)
  | terminate

/-- Carries out an action. -/
def MasterAction.perform : MasterAction → StepM Unit
  | .setLongAt key node value => do
    let node ← node.value
    let value ← value.value
    (MasterM.write key (toIndex node) (.long (Scalar.toLong value)) : MasterM Float Unit)
  | .setDoubleAt key node value => do
    let node ← node.value
    let value ← value.value
    (MasterM.write key (toIndex node) (.double value) : MasterM Float Unit)
  | .setLongArrayAt key node values => do
    let node ← node.value
    (MasterM.write key (toIndex node) (.longArray (some values.toArray)) : MasterM Float Unit)
  | .halt => set true
  | .fail text => (MasterM.fail text : MasterM Float Unit)
  | .violate text => (MasterM.stop (.violation (.program text)) : MasterM Float Unit)
  | .terminate => (MasterM.terminate : MasterM Float Unit)

/-- A statement between supersteps. -/
abbrev MasterStatement := Statement MasterAction MasterExpr

/-- The hook between supersteps that carries out statements. -/
def masterHook (body : List MasterStatement) : MasterM Float Control := do
  let (_, halts) ← (Statement.runAll MasterExpr.value MasterAction.perform body).run false
  return if halts then .halt else .continue

end Superstep.Script
