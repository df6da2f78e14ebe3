import Superstep.Hook
import Superstep.Script.Expression
import Superstep.TotalOrder

/-!
# Scripts of a vertex

What a script can say while it works on a vertex. `VertexAtom` and `VertexAction` can be used in
both phases; `ComputeAtom` and `ComputeAction` add the superstep, the messages and sending; an
`EdgeAtom` also knows the relationship along which a message is sent. A computing script sees its
messages sorted.

Only tests write such scripts. The engine does not use them, and no theorem is about them.
-/

namespace Superstep.Script

/-- A number that a vertex can look up. -/
inductive VertexAtom where
  | node
  | nodeCount
  | relationshipCount
  | degree
  | isTerminated
  | maxIterations
  | long (key : String)
  | double (key : String)
  /-- The length of an integer array, or `-1` if none was stored. -/
  | longLength (key : String)
  | doubleLength (key : String)
  /-- The sum of an integer array, or zero if none was stored. -/
  | longSum (key : String)
  | doubleSum (key : String)
  /-- The sum of the numbers of the neighbours. -/
  | neighborSum

/-- A question that a vertex can ask about a number. -/
inductive VertexQuery where
  /-- The sum of the weights of the vertex's relationships, with the number as fallback. -/
  | weightSum
  /-- The id under which a vertex was loaded. -/
  | externalId
  /-- The vertex that was loaded under an id, or `-1`. -/
  | denseId

/-- A count as a number. -/
def ofCount (n : Nat) : Float := Scalar.ofNat n

/-- The value of an atom. -/
def VertexAtom.eval {p : Phase} : VertexAtom → HookM p Float Float
  | .node => return ofCount (← HookM.vertex)
  | .nodeCount => return ofCount (← HookM.nodeCount)
  | .relationshipCount => return ofCount (← HookM.relationshipCount)
  | .degree => return ofCount (← HookM.degree)
  | .isTerminated => return truth (← HookM.isTerminated)
  | .maxIterations => return ofCount (← HookM.view).config.maxIterations
  | .long key => return (← HookM.long key).toFloat
  | .double key => HookM.double key
  | .longLength key => return ((← HookM.longArray key).map fun a => ofCount a.size).getD (-1.0)
  | .doubleLength key =>
    return ((← HookM.doubleArray key).map fun a => ofCount a.size).getD (-1.0)
  | .longSum key => return Scalar.sum (((← HookM.longArray key).getD #[]).toList.map Int64.toFloat)
  | .doubleSum key => return Scalar.sum ((← HookM.doubleArray key).getD #[]).toList
  | .neighborSum => return Scalar.sum ((← HookM.neighbors).map ofCount)

/-- The answer to a question. -/
def VertexQuery.eval {p : Phase} (q : VertexQuery) (x : Float) : HookM p Float Float := do
  let view ← HookM.view
  match q with
  | .weightSum => return Scalar.sum ((← HookM.weightedNeighbors x).map (·.2))
  | .externalId => return (← HookM.require (view.graph.externalId (toIndex x))).toFloat
  | .denseId => return ((view.graph.denseId? (toWord x)).map ofCount).getD (-1.0)

/-- Something that a script does in either phase, with expressions over `Atom`. -/
inductive VertexAction (Atom : Type) where
  | setLong (key : String) (value : Expr Atom VertexQuery)
  | setDouble (key : String) (value : Expr Atom VertexQuery)
  | setLongArray (key : String) (values : List (Expr Atom VertexQuery))
  | setDoubleArray (key : String) (values : List (Expr Atom VertexQuery))
  /-- Appends to an array, which is empty if none was stored. -/
  | pushLong (key : String) (value : Expr Atom VertexQuery)
  | pushDouble (key : String) (value : Expr Atom VertexQuery)
  | fail (text : String)
  | violate (text : String)
  | terminate

/-- A text with the number of the vertex in place of every placeholder. -/
def fillIn (text : String) (vertex : Nat) : String :=
  text.replace "\x7bnode\x7d" (toString vertex)

/-- Carries out an action. -/
def VertexAction.perform {Atom : Type} {p : Phase}
    (eval : Expr Atom VertexQuery → HookM p Float Float) : VertexAction Atom → HookM p Float Unit
  | .setLong key e => do HookM.setLong key (Scalar.toLong (← eval e))
  | .setDouble key e => do HookM.setDouble key (← eval e)
  | .setLongArray key es => do
    HookM.setLongArray key ((← evalAll eval es).map Scalar.toLong).toArray
  | .setDoubleArray key es => do HookM.setDoubleArray key (← evalAll eval es).toArray
  | .pushLong key e => do
    let values := (← HookM.longArray key).getD #[]
    HookM.setLongArray key (values.push (Scalar.toLong (← eval e)))
  | .pushDouble key e => do
    let values := (← HookM.doubleArray key).getD #[]
    HookM.setDoubleArray key (values.push (← eval e))
  | .fail text => do HookM.fail (fillIn text (← HookM.vertex))
  | .violate text => do HookM.stop (.violation (.program (fillIn text (← HookM.vertex))))
  | .terminate => HookM.terminate

/-- An expression of a vertex that is set up. -/
abbrev VertexExpr := Expr VertexAtom VertexQuery

/-- A statement of a vertex that is set up. -/
abbrev VertexStatement := Statement (VertexAction VertexAtom) VertexExpr

/-- The value of an expression of a vertex that is set up. -/
def VertexExpr.value (e : VertexExpr) : HookM .init Float Float :=
  e.eval VertexAtom.eval VertexQuery.eval

/-- The set-up hook that carries out statements. -/
def initHook (body : List VertexStatement) : HookM .init Float Unit :=
  Statement.runAll VertexExpr.value (VertexAction.perform VertexExpr.value) body

/-- A number that a computing vertex can look up. -/
inductive ComputeAtom where
  | vertex (a : VertexAtom)
  | superstep
  | isInitial
  | messageCount
  | messageSum
  /-- The least message, or plus infinity. -/
  | messageMin
  /-- The greatest message, or minus infinity. -/
  | messageMax

/-- The value of an atom, for the given messages. -/
def ComputeAtom.eval (messages : List Float) : ComputeAtom → HookM .compute Float Float
  | .vertex a => a.eval
  | .superstep => return ofCount (← HookM.superstep)
  | .isInitial => return truth (← HookM.isInitialSuperstep)
  | .messageCount => pure (ofCount messages.length)
  | .messageSum => pure (Scalar.sum messages)
  | .messageMin => pure (messages.foldl (fun m v => if v < m then v else m) Scalar.top)
  | .messageMax => pure (messages.foldl (fun m v => if m < v then v else m) Scalar.bottom)

/-- A number that can be looked up while a message is sent along a relationship. -/
inductive EdgeAtom where
  | compute (a : ComputeAtom)
  | weight
  | target

/-- The value of an atom, for the given messages and relationship. -/
def EdgeAtom.eval (messages : List Float) (target : Nat) (weight : Float) :
    EdgeAtom → HookM .compute Float Float
  | .compute a => a.eval messages
  | .weight => pure weight
  | .target => pure (ofCount target)

/-- An expression of a computing vertex. -/
abbrev ComputeExpr := Expr ComputeAtom VertexQuery

/-- An expression for a message along a relationship. -/
abbrev EdgeExpr := Expr EdgeAtom VertexQuery

/-- The value of an expression of a computing vertex. -/
def ComputeExpr.value (messages : List Float) (e : ComputeExpr) : HookM .compute Float Float :=
  e.eval (ComputeAtom.eval messages) VertexQuery.eval

/-- The value of an expression for a message along a relationship. -/
def EdgeExpr.value (messages : List Float) (target : Nat) (weight : Float) (e : EdgeExpr) :
    HookM .compute Float Float :=
  e.eval (EdgeAtom.eval messages target weight) VertexQuery.eval

/-- Something that a computing script does. -/
inductive ComputeAction where
  | vertex (a : VertexAction ComputeAtom)
  | send (target value : ComputeExpr)
  /-- Sends one value to every neighbour. -/
  | sendToNeighbors (value : ComputeExpr)
  /-- Sends along every relationship a value of its own. -/
  | sendAlong (fallback : ComputeExpr) (value : EdgeExpr)
  /-- Appends the messages to an array. -/
  | pushMessages (key : String)
  | voteToHalt

/-- Sends a message along each relationship of a row. -/
def sendRow (messages : List Float) (value : EdgeExpr) :
    List (Nat × Float) → HookM .compute Float Unit
  | [] => pure ()
  | (target, weight) :: row => do
    HookM.send target (← value.value messages target weight)
    sendRow messages value row

/-- Carries out an action. -/
def ComputeAction.perform (messages : List Float) : ComputeAction → HookM .compute Float Unit
  | .vertex a => a.perform (ComputeExpr.value messages)
  | .send target value => do
    let target ← target.value messages
    HookM.send (toIndex target) (← value.value messages)
  | .sendToNeighbors value => do HookM.sendToNeighbors (← value.value messages)
  | .sendAlong fallback value => do
    sendRow messages value (← HookM.weightedNeighbors (← fallback.value messages))
  | .pushMessages key => do
    let values := (← HookM.doubleArray key).getD #[]
    HookM.setDoubleArray key (values ++ messages.toArray)
  | .voteToHalt => HookM.voteToHalt

/-- A statement of a computing vertex. -/
abbrev ComputeStatement := Statement ComputeAction ComputeExpr

/-- The computing hook that carries out statements. -/
def computeHook (body : List ComputeStatement) : HookM .compute Float Unit := do
  let messages := Double.sorted (← HookM.inbox)
  Statement.runAll (ComputeExpr.value messages) (ComputeAction.perform messages) body

end Superstep.Script
