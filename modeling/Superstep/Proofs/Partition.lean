import Mathlib
import Superstep.Computer

/-!
# The ranges of a phase hold every vertex once

Whatever the computer, its ranges put side by side are the vertices in ascending order, and halving
a range keeps its vertices.

## Key results

- `Computer.flatMap_toList_ranges`: the ranges of both computers tile the vertices
- `VertexRange.toList_halves`: the two halves tile the range
-/

namespace Superstep

namespace Partition

/-- The first `k` of the `parts` shares. -/
theorem sum_map_share (n parts k : Nat) :
    ((List.range k).map (share n parts)).sum = k * (n / parts) + min k (n % parts) := by
  induction k with
  | zero => simp
  | succ k ih =>
    rw [List.range_succ, List.map_append, List.sum_append, ih, Nat.succ_mul]
    simp only [List.map_cons, List.map_nil, List.sum_cons, List.sum_nil, share]
    -- the first shares have one vertex more
    split <;> omega

/-- All shares together are the vertices. -/
theorem sum_map_share_all {parts : Nat} (n : Nat) (h : 0 < parts) :
    ((List.range parts).map (share n parts)).sum = n := by
  have hrest : n % parts < parts := Nat.mod_lt n h
  have hwhole : parts * (n / parts) + n % parts = n := Nat.div_add_mod n parts
  rw [sum_map_share]
  omega

/-- The vertices of a part follow each other from its start. -/
theorem toList_range (p : Partition) : p.range.toList = List.range' p.start p.count := by
  rw [VertexRange.toList, VertexRange.length, range, stop, Nat.add_sub_cancel_left]

/-- Parts that are laid out one after the other leave no gap. -/
theorem flatMap_toList_layOut (start : Nat) (sizes : List Nat) :
    (layOut start sizes).flatMap (·.range.toList) = List.range' start sizes.sum := by
  induction sizes generalizing start with
  | nil => rfl
  | cons size sizes ih =>
    rw [layOut, List.flatMap_cons, ih, toList_range, List.sum_cons, List.range'_append_1]

/-- Empty parts may be left out. -/
theorem flatMap_toList_filter (ps : List Partition) :
    (ps.filter (!·.isEmpty)).flatMap (·.range.toList) = ps.flatMap (·.range.toList) := by
  induction ps with
  | nil => rfl
  | cons p ps ih =>
    rw [List.flatMap_cons, List.filter_cons]
    cases hempty : p.isEmpty with
    | false => rw [if_pos (by rfl), List.flatMap_cons, ih]
    | true =>
      have hcount : p.count = 0 := by simpa [isEmpty] using hempty
      rw [if_neg (by decide), ih, toList_range, hcount]
      rfl

end Partition

/-- The two halves tile the range. -/
theorem VertexRange.toList_halves (r : VertexRange) :
    r.halves.1.toList ++ r.halves.2.toList = r.toList := by
  have hleft : r.halves.1.length = r.length / 2 := by
    rw [halves, length, Nat.add_sub_cancel_left]
  -- the second half takes the odd vertex
  have hright : r.halves.2.length = r.length - r.length / 2 := by
    simp only [halves, length]
    omega
  rw [toList, toList, hleft, hright, toList]
  change List.range' r.start (r.length / 2)
    ++ List.range' (r.start + r.length / 2) (r.length - r.length / 2) = _
  rw [List.range'_append_1]
  congr 1
  omega

/-- The ranges of both computers tile the vertices. -/
theorem Computer.flatMap_toList_ranges (c : Computer) (n : Nat) :
    (c.ranges n).flatMap (·.toList) = List.range n := by
  rw [List.range_eq_range']
  cases c with
  | forkJoin threshold positive => simp [ranges, VertexRange.toList, VertexRange.length]
  | partitioned concurrency positive =>
    rw [ranges, List.flatMap_map, Partition.flatMap_toList_filter,
      Partition.flatMap_toList_layOut, Partition.sum_map_share_all n positive]

/-- A range that the computer halves is halved in the middle. -/
theorem Computer.halves_of_halves? {c : Computer} {r a b : VertexRange}
    (h : c.halves? r = some (a, b)) : r.halves = (a, b) := by
  cases c with
  | forkJoin threshold positive =>
    rw [halves?] at h
    split at h
    · exact Option.some.inj h
    · cases h
  | partitioned concurrency positive => cases h

/-- The two halves that the computer makes tile the range. -/
theorem Computer.toList_of_halves? {c : Computer} {r a b : VertexRange}
    (h : c.halves? r = some (a, b)) : a.toList ++ b.toList = r.toList := by
  rw [← r.toList_halves, halves_of_halves? h]

end Superstep
