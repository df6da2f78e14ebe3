import Superstep.RunError
import Superstep.Violation

/-!
# Partitions

The vertices of a run are cut into contiguous ranges, either a fixed number of nearly equal parts
(`Partition.split`) or by halving again and again (`VertexRange.halves`).
-/

namespace Superstep

/-- The `count` vertices from `start` on. -/
structure Partition where
  start : Nat
  count : Nat
  deriving Repr, DecidableEq

namespace Partition

/-- One past the last vertex. -/
def stop (p : Partition) : Nat := p.start + p.count

/-- Whether there is no vertex. -/
def isEmpty (p : Partition) : Bool := p.count == 0

/-- The vertices as a range. -/
def range (p : Partition) : VertexRange := ⟨p.start, p.stop⟩

/-- Number of vertices of part `i` when `n` vertices are cut into `parts`: the first
`n % parts` parts have one more than the others. -/
def share (n parts i : Nat) : Nat := n / parts + (if i < n % parts then 1 else 0)

/-- Consecutive partitions of the given sizes. -/
def layOut : (start : Nat) → (sizes : List Nat) → List Partition
  | _, [] => []
  | start, size :: sizes => ⟨start, size⟩ :: layOut (start + size) sizes

/-- Cuts the vertices below `n` into `parts` contiguous partitions whose sizes differ by at most
one. -/
def split (n parts : Nat) : Except Violation (List Partition) :=
  if parts = 0 then .error .noPartitions
  else .ok (layOut 0 ((List.range parts).map (share n parts)))

end Partition

/-- Cuts a range in the middle. The left half is the smaller one. -/
def VertexRange.halves (r : VertexRange) : VertexRange × VertexRange :=
  let middle := r.start + r.length / 2
  (⟨r.start, middle⟩, ⟨middle, r.stop⟩)

end Superstep
