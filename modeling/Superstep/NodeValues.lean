import Superstep.Schema
import Superstep.Storage.PagedArray

/-!
# Values of the vertices

`NodeValues` stores one paged array per slot of a schema, with a cell per vertex. A caller names a
cell by key and vertex and says which type it expects; `NodeValues.locate` checks the key, then the
type, then the vertex, and a rejected request changes nothing.

The engine hands a vertex program the cells of one vertex as a `Row`, which it reads and writes by
key under the same rules, and stores the row back afterwards.
-/

namespace Superstep

/-- The value of one slot of one vertex. An array is `none` until one is stored. -/
inductive Cell (α : Type) where
  | long (value : Int64)
  | double (value : α)
  | longArray (value : Option (Array Int64))
  | doubleArray (value : Option (Array α))
  deriving Repr

/-- The type of a cell. -/
def Cell.valueType {α : Type} : Cell α → ValueType
  | .long _ => .long
  | .double _ => .double
  | .longArray _ => .longArray
  | .doubleArray _ => .doubleArray

/-- The values of one slot, one per vertex. -/
inductive Column (α : Type) where
  | long (values : LongArray)
  | double (values : ScalarArray α)
  | longArray (values : ObjectArray (Array Int64))
  | doubleArray (values : ObjectArray (Array α))

namespace Column

variable {α : Type}

/-- The column of a slot before anything was written. -/
def allocate [Scalar α] (e : Element α) (nodeCount : Nat) : Column α :=
  match e.valueType with
  | .long => .long (.replicate nodeCount e.initialLong)
  | .double => .double (.replicate nodeCount e.initialDouble)
  | .longArray => .longArray (.empty nodeCount)
  | .doubleArray => .doubleArray (.empty nodeCount)

/-- The type of the column's cells. -/
def valueType : Column α → ValueType
  | .long _ => .long
  | .double _ => .double
  | .longArray _ => .longArray
  | .doubleArray _ => .doubleArray

/-- Number of vertices. -/
def size : Column α → Nat
  | .long a => a.size
  | .double a => a.size
  | .longArray a => a.size
  | .doubleArray a => a.size

/-- The cell of a vertex, if there is such a vertex. -/
def cell? : Column α → Nat → Option (Cell α)
  | .long a, v => (a.get? v).map .long
  | .double a, v => (a.get? v).map .double
  | .longArray a, v => (a.get? v).map .longArray
  | .doubleArray a, v => (a.get? v).map .doubleArray

/-- Stores a cell of the column's type; a cell of another type is not stored. -/
def store : Column α → Nat → Cell α → Column α
  | .long a, v, .long x => .long (a.set v x)
  | .double a, v, .double x => .double (a.set v x)
  | .longArray a, v, .longArray x => .longArray (a.set v x)
  | .doubleArray a, v, .doubleArray x => .doubleArray (a.set v x)
  | c, _, _ => c

/-- A new column holds values of the type of its slot. -/
@[simp] theorem valueType_allocate [Scalar α] (e : Element α) (nodeCount : Nat) :
    (allocate e nodeCount).valueType = e.valueType := by
  cases h : e.valueType <;> simp [allocate, valueType, h]

/-- A new column has a cell for every vertex. -/
@[simp] theorem size_allocate [Scalar α] (e : Element α) (nodeCount : Nat) :
    (allocate e nodeCount).size = nodeCount := by
  cases h : e.valueType <;> simp [allocate, size, h] <;> rfl

/-- Storing does not change what type a column holds. -/
@[simp] theorem valueType_store (c : Column α) (node : Nat) (x : Cell α) :
    (c.store node x).valueType = c.valueType := by
  cases c <;> cases x <;> rfl

/-- Storing does not change how many cells a column has. -/
@[simp] theorem size_store (c : Column α) (node : Nat) (x : Cell α) :
    (c.store node x).size = c.size := by
  cases c <;> cases x <;> rfl

end Column

/-- The cells of one vertex, in slot order. -/
structure Row (α : Type) where
  schema : Schema α
  cells : Array (Cell α)

namespace Row

variable {α : Type}

/-- The slot that a key and a type mean. -/
def locate (r : Row α) (key : String) (type : ValueType) : Except Violation Nat :=
  match r.schema.indexOf? key with
  | none => .error (.unknownKey key)
  | some i =>
    match r.cells[i]? with
    | none => .error (.unknownKey key)
    | some c => if c.valueType = type then .ok i else .error (.slotType key c.valueType type)

/-- The cell that a key and a type mean. -/
def cell (r : Row α) (key : String) (type : ValueType) : Except Violation (Cell α) :=
  match r.locate key type with
  | .error e => .error e
  | .ok i =>
    match r.cells[i]? with
    | some c => .ok c
    | none => .error (.unknownKey key)

/-- The integer under a key. -/
def long (r : Row α) (key : String) : Except Violation Int64 :=
  match r.cell key .long with
  | .ok (.long x) => .ok x
  | .ok c => .error (.slotType key c.valueType .long)
  | .error e => .error e

/-- The floating-point number under a key. -/
def double (r : Row α) (key : String) : Except Violation α :=
  match r.cell key .double with
  | .ok (.double x) => .ok x
  | .ok c => .error (.slotType key c.valueType .double)
  | .error e => .error e

/-- The integers under a key, if an array was stored there. -/
def longArray (r : Row α) (key : String) : Except Violation (Option (Array Int64)) :=
  match r.cell key .longArray with
  | .ok (.longArray x) => .ok x
  | .ok c => .error (.slotType key c.valueType .longArray)
  | .error e => .error e

/-- The floating-point numbers under a key, if an array was stored there. -/
def doubleArray (r : Row α) (key : String) : Except Violation (Option (Array α)) :=
  match r.cell key .doubleArray with
  | .ok (.doubleArray x) => .ok x
  | .ok c => .error (.slotType key c.valueType .doubleArray)
  | .error e => .error e

/-- The row with another cell in a slot. -/
def store (r : Row α) (slot : Nat) (c : Cell α) : Row α :=
  ⟨r.schema, r.cells.setIfInBounds slot c⟩

/-- The row with a cell stored under a key of the cell's type. -/
def write (r : Row α) (key : String) (c : Cell α) : Except Violation (Row α) :=
  (r.locate key c.valueType).map fun i => r.store i c

end Row

/-- The values of every vertex. -/
structure NodeValues (α : Type) where
  schema : Schema α
  nodeCount : Nat
  /-- One column per slot, in order. -/
  columns : Array (Column α)
  /-- Each column has the type of its slot and a cell for every vertex. -/
  shape : columns.toList.map (fun c => (c.valueType, c.size))
    = schema.elements.map fun e => (e.valueType, nodeCount)

namespace NodeValues

variable {α : Type}

/-- The values of `nodeCount` vertices before anything was written. -/
def allocate [Scalar α] (schema : Schema α) (nodeCount : Nat) : NodeValues α where
  schema := schema
  nodeCount := nodeCount
  columns := (schema.elements.map fun e => Column.allocate e nodeCount).toArray
  shape := by simp [Function.comp_def]

/-- Names of the slots that are part of the result, in order. -/
def publicKeys (v : NodeValues α) : List String := v.schema.publicKeys

/-- The column that a key means. -/
def column? (v : NodeValues α) (key : String) : Option (Column α) :=
  (v.schema.indexOf? key).bind fun i => v.columns[i]?

/-- The type of the slot that a key means. -/
def valueType? (v : NodeValues α) (key : String) : Option ValueType :=
  (v.column? key).map Column.valueType

/-- The slot that a key, a type and a vertex mean: the key must exist, then the slot have the type,
then the vertex exist. -/
def locate (v : NodeValues α) (key : String) (type : ValueType) (node : Nat) :
    Except Violation Nat :=
  match v.schema.indexOf? key with
  | none => .error (.unknownKey key)
  | some i =>
    match v.columns[i]? with
    | none => .error (.unknownKey key)
    | some c =>
      if c.valueType = type then
        if node < v.nodeCount then .ok i else .error (.index node v.nodeCount)
      else .error (.slotType key c.valueType type)

/-- The cell that a key, a type and a vertex mean. -/
def cell (v : NodeValues α) (key : String) (type : ValueType) (node : Nat) :
    Except Violation (Cell α) :=
  match v.locate key type node with
  | .error e => .error e
  | .ok i =>
    match (v.columns[i]?).bind (·.cell? node) with
    | some c => .ok c
    | none => .error (.index node v.nodeCount)

/-- The integer of a vertex under a key. -/
def long (v : NodeValues α) (key : String) (node : Nat) : Except Violation Int64 :=
  match v.cell key .long node with
  | .ok (.long x) => .ok x
  | .ok c => .error (.slotType key c.valueType .long)
  | .error e => .error e

/-- The floating-point number of a vertex under a key. -/
def double (v : NodeValues α) (key : String) (node : Nat) : Except Violation α :=
  match v.cell key .double node with
  | .ok (.double x) => .ok x
  | .ok c => .error (.slotType key c.valueType .double)
  | .error e => .error e

/-- The integers of a vertex under a key, if an array was stored there. -/
def longArray (v : NodeValues α) (key : String) (node : Nat) :
    Except Violation (Option (Array Int64)) :=
  match v.cell key .longArray node with
  | .ok (.longArray x) => .ok x
  | .ok c => .error (.slotType key c.valueType .longArray)
  | .error e => .error e

/-- The floating-point numbers of a vertex under a key, if an array was stored there. -/
def doubleArray (v : NodeValues α) (key : String) (node : Nat) :
    Except Violation (Option (Array α)) :=
  match v.cell key .doubleArray node with
  | .ok (.doubleArray x) => .ok x
  | .ok c => .error (.slotType key c.valueType .doubleArray)
  | .error e => .error e

/-- The values with another cell in a slot of a vertex. -/
def store (v : NodeValues α) (slot node : Nat) (c : Cell α) : NodeValues α where
  schema := v.schema
  nodeCount := v.nodeCount
  columns := v.columns.modify slot fun column => column.store node c
  shape := by
    rw [← v.shape]
    apply List.ext_getElem
    · simp
    · intro i h₁ h₂
      simp only [List.getElem_map, Array.getElem_toList, Array.getElem_modify]
      split <;> simp

/-- Stores a cell under a key of the cell's type. A rejected request changes nothing. -/
def write (v : NodeValues α) (key : String) (node : Nat) (c : Cell α) :
    Except Violation Unit × NodeValues α :=
  match v.locate key c.valueType node with
  | .ok i => (.ok (), v.store i node c)
  | .error e => (.error e, v)

/-- The cells of a vertex. -/
def row (v : NodeValues α) (node : Nat) : Row α :=
  ⟨v.schema, v.columns.filterMap (·.cell? node)⟩

/-- Stores cells of a vertex in consecutive slots. -/
def storeFrom (node : Nat) : Nat → List (Cell α) → NodeValues α → NodeValues α
  | _, [], v => v
  | slot, c :: cells, v => storeFrom node (slot + 1) cells (v.store slot node c)

/-- The values with other cells for a vertex. -/
def setRow (v : NodeValues α) (node : Nat) (r : Row α) : NodeValues α :=
  storeFrom node 0 r.cells.toList v

end NodeValues

end Superstep
