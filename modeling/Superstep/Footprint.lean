import Superstep.Schema
import Superstep.Storage.BitWords
import Superstep.Storage.PagedArray
import Superstep.Message.Arena
import Superstep.Message.Strategy
import Superstep.Word

/-!
# Memory estimates

How many bytes the parts of a run take before any message is sent. A paged array counts its cells
and a table entry per page; the product of size and cell width stops at the largest machine word.
The counts here are exact numbers; `inWords` is what is left of one in a machine word.
-/

namespace Superstep.Footprint

/-- Bytes of a machine word. -/
def wordBytes : Nat := 8

/-- Bytes of a reference to a block together with its length. -/
def blockReferenceBytes : Nat := 16

/-- Bytes of the record that holds the columns of the vertex values. -/
def nodeValuesRecordBytes : Nat := 56

/-- A count of bytes, kept in a machine word. -/
def inWords (bytes : Nat) : Nat := bytes % wordLimit

/-- A product that stops at the largest machine word. -/
def saturatingMul (a b : Nat) : Nat := min (a * b) (wordLimit - 1)

/-- Bytes of a paged array of `size` cells of `width` bytes. -/
def paged (size width : Nat) : Nat :=
  saturatingMul size width + pageCount size * blockReferenceBytes

/-- Bytes of an array of 64-bit integers. -/
def longs (size : Nat) : Nat := paged size wordBytes

/-- Bytes of an array of doubles. -/
def doubles (size : Nat) : Nat := paged size wordBytes

/-- Bytes of the cells of an array of arrays, without the arrays in them. -/
def objects (size : Nat) : Nat := paged size blockReferenceBytes

/-- Bytes of a bit set. -/
def bitSet (size : Nat) : Nat := wordCount size * wordBytes

/-- Bytes of the values of one slot. -/
def column (type : ValueType) (nodeCount : Nat) : Nat :=
  match type with
  | .long => longs nodeCount
  | .double => doubles nodeCount
  | .longArray | .doubleArray => objects nodeCount

/-- Bytes of the vertex values, without the contents of array slots. -/
def nodeValues {α : Type} (schema : Schema α) (nodeCount : Nat) : Nat :=
  schema.elements.foldl (fun bytes e => bytes + column e.valueType nodeCount) nodeValuesRecordBytes

/-- Bytes of one set of queues without messages. -/
def queues (nodeCount : Nat) : Nat := longs nodeCount + Arena.rootBytes

/-- Bytes of one set of combined values. -/
def reducedBuffer (nodeCount : Nat) : Nat := doubles nodeCount + bitSet nodeCount

/-- Bytes of the two buffers of a messenger before any message. -/
def messenger (strategy : MessengerStrategy) (nodeCount : Nat) : Nat :=
  match strategy with
  | .syncQueue | .asyncQueue => 2 * queues nodeCount
  | .reducing => 2 * reducedBuffer nodeCount

/-- Bytes of everything a run allocates before any message. -/
def run {α : Type} (schema : Schema α) (nodeCount : Nat) (strategy : MessengerStrategy) : Nat :=
  nodeValues schema nodeCount + 2 * bitSet nodeCount + messenger strategy nodeCount

end Superstep.Footprint
