import Superstep.NodeValues

/-!
# Requests for values of vertices

`NodeValues.perform` answers requests with the accessors. `NodeValues.performStepwise` answers them
as the accessors go about it: it looks up the slot of the key, compares the type of the slot, and
leaves the vertex to the array of the slot, which looks at the index itself.
-/

namespace Superstep

variable {α : Type}

namespace NodeValues

/-- A request for values of vertices. -/
inductive Request (α : Type) where
  /-- Reads the value of a vertex as one of this type. -/
  | read (type : ValueType) (key : String) (node : Nat)
  | write (key : String) (node : Nat) (c : Cell α)
  | valueType (key : String)
  | publicKeys
  | nodeCount

/-- The answer to a request. -/
inductive Answer (α : Type) where
  | done
  | cell (c : Cell α)
  | type (type : Option ValueType)
  | keys (keys : List String)
  | count (n : Nat)

/-- The value of a vertex, by the accessor for its type. -/
def get (v : NodeValues α) (type : ValueType) (key : String) (node : Nat) :
    Except Violation (Cell α) :=
  match type with
  | .long => (v.long key node).map .long
  | .double => (v.double key node).map .double
  | .longArray => (v.longArray key node).map .longArray
  | .doubleArray => (v.doubleArray key node).map .doubleArray

/-- Answers one request. -/
def perform (v : NodeValues α) : Request α → Except Violation (Answer α) × NodeValues α
  | .read type key node => ((v.get type key node).map .cell, v)
  | .write key node c => let (answer, v) := v.write key node c; (answer.map fun _ => .done, v)
  | .valueType key => (.ok (.type (v.valueType? key)), v)
  | .publicKeys => (.ok (.keys v.publicKeys), v)
  | .nodeCount => (.ok (.count v.nodeCount), v)

end NodeValues

namespace Column

/-- The cell of a vertex, as one of this type. -/
def readStepwise (c : Column α) (type : ValueType) (key : String) (node : Nat) :
    Except Violation (Cell α) :=
  match type, c with
  | .long, .long a => (a.read node).map .long
  | .double, .double a => (PagedArray.read a node).map .double
  | .longArray, .longArray a => (PagedArray.read a node).map .longArray
  | .doubleArray, .doubleArray a => (PagedArray.read a node).map .doubleArray
  | _, c => .error (.slotType key c.valueType type)

/-- Stores a cell of a vertex. -/
def writeStepwise (c : Column α) (key : String) (node : Nat) (x : Cell α) :
    Except Violation Unit × Column α :=
  match x, c with
  | .long x, .long a => let (answer, a) := a.access node fun _ => ((), x); (answer, .long a)
  | .double x, .double a =>
    let (answer, a) := PagedArray.access a node fun _ => ((), x); (answer, .double a)
  | .longArray x, .longArray a =>
    let (answer, a) := PagedArray.access a node fun _ => ((), x); (answer, .longArray a)
  | .doubleArray x, .doubleArray a =>
    let (answer, a) := PagedArray.access a node fun _ => ((), x); (answer, .doubleArray a)
  | x, c => (.error (.slotType key c.valueType x.valueType), c)

/-- Whatever comes of it, the column has the type and the size that it had. -/
theorem shape_writeStepwise (c : Column α) (key : String) (node : Nat) (x : Cell α) :
    ((c.writeStepwise key node x).2.valueType, (c.writeStepwise key node x).2.size)
      = (c.valueType, c.size) := by
  have hsize {β : Type} (a : PagedArray β) (b : β) :
      (a.access node fun _ => ((), b)).2.size = a.size := by
    rw [PagedArray.access]
    split <;> rfl
  cases x <;> cases c <;> simp [writeStepwise, valueType, size, hsize]

end Column

namespace NodeValues

/-- The column that a key means. -/
def findColumn (v : NodeValues α) (key : String) : Except Violation (Nat × Column α) :=
  match v.schema.indexOf? key with
  | none => .error (.unknownKey key)
  | some i =>
    match v.columns[i]? with
    | none => .error (.unknownKey key)
    | some c => .ok (i, c)

/-- Reads the value of a vertex as one of this type. -/
def readStepwise (v : NodeValues α) (type : ValueType) (key : String) (node : Nat) :
    Except Violation (Cell α) :=
  (v.findColumn key).bind fun (_, c) => c.readStepwise type key node

/-- The values with a column changed by storing a cell of a vertex. -/
def withColumn (v : NodeValues α) (slot : Nat) (key : String) (node : Nat) (x : Cell α) :
    NodeValues α where
  schema := v.schema
  nodeCount := v.nodeCount
  columns := v.columns.modify slot fun c => (c.writeStepwise key node x).2
  shape := by
    rw [← v.shape]
    apply List.ext_getElem
    · simp
    · intro i h₁ h₂
      simp only [List.getElem_map, Array.getElem_toList, Array.getElem_modify]
      split
      · exact Column.shape_writeStepwise _ key node x
      · rfl

/-- Stores the value of a vertex. -/
def writeStepwise (v : NodeValues α) (key : String) (node : Nat) (x : Cell α) :
    Except Violation Unit × NodeValues α :=
  match v.findColumn key with
  | .error violation => (.error violation, v)
  | .ok (i, c) => ((c.writeStepwise key node x).1, v.withColumn i key node x)

/-- Answers one request, check by check. -/
def performStepwise (v : NodeValues α) : Request α → Except Violation (Answer α) × NodeValues α
  | .read type key node => ((v.readStepwise type key node).map .cell, v)
  | .write key node c =>
    let (answer, v) := v.writeStepwise key node c; (answer.map fun _ => .done, v)
  | .valueType key => (.ok (.type (v.valueType? key)), v)
  | .publicKeys => (.ok (.keys v.publicKeys), v)
  | .nodeCount => (.ok (.count v.nodeCount), v)

end NodeValues

end Superstep
