import Mathlib
import Superstep.Proofs.Graph.CountingSort

/-!
# Rows between offsets

The rows of a graph lie one behind the other in the array of targets, and the offsets say where each
starts. For this the offsets have to ascend to the number of targets (`HasRows`). Every way to make
a graph sees to that, the one that is given the offsets by checking them. It does not check that the
first row starts with the first target.

## Key results

- `CsrGraph.HasRows.sum_degree`: the rows have every target that does not lie before the first row
- `CsrGraph.HasRows.flatMap_targets`: one behind the other, the rows are these targets
- `CsrGraph.hasRows_sortRows`, `CsrGraph.hasRows_ofRows`, `CsrGraph.hasRows_ofParts`: made graphs
  have rows
-/

namespace Superstep

namespace CsrGraph

open CountingSort

variable {α : Type} {g : CsrGraph α} {u v k p : Nat}

/-- Where the row of a vertex starts, and for the number of vertices where the last row ends. -/
def rowStart (g : CsrGraph α) (v : Nat) : Nat := g.offsets.getD v 0

/-- The offsets ascend to the number of targets. -/
structure HasRows (g : CsrGraph α) : Prop where
  size_offsets : g.offsets.size = g.nodeCount + 1
  le_succ : ∀ v, v < g.nodeCount → g.rowStart v ≤ g.rowStart (v + 1)
  last : g.rowStart g.nodeCount = g.relationshipCount

/-- The row of a vertex lies between two offsets. -/
theorem bounds?_of_lt (hv : v < g.nodeCount) :
    g.bounds? v = some (g.rowStart v, g.rowStart (v + 1)) := if_pos hv

/-- The degree of a vertex is the length of its row. -/
theorem degree?_of_lt (hv : v < g.nodeCount) :
    g.degree? v = some (g.rowStart (v + 1) - g.rowStart v) := by
  rw [degree?, bounds?_of_lt hv, Option.map_some]

/-- The targets of a vertex are those between its two offsets. -/
theorem targets?_of_lt (hv : v < g.nodeCount) :
    g.targets? v = some (g.targets.toList.extract (g.rowStart v) (g.rowStart (v + 1))) := by
  rw [targets?, bounds?_of_lt hv, Option.map_some]
  exact congrArg some Array.toList_extract

/-- A position before row `k` that does not lie before the first row is in one of the rows below
`k`. -/
theorem exists_row (hp : g.rowStart 0 ≤ p) (hlt : p < g.rowStart k) :
    ∃ v < k, g.rowStart v ≤ p ∧ p < g.rowStart (v + 1) := by
  induction k with
  | zero => exact absurd hlt hp.not_gt
  | succ k ih =>
    -- it is in the last of these rows, or before it
    by_cases hbelow : p < g.rowStart k
    · obtain ⟨v, hv, hin⟩ := ih hbelow
      exact ⟨v, hv.trans k.lt_succ_self, hin⟩
    · exact ⟨k, k.lt_succ_self, Nat.le_of_not_lt hbelow, hlt⟩

namespace HasRows

/-- Offsets ascend from any vertex to any later one. -/
theorem mono (h : g.HasRows) (huv : u ≤ v) (hv : v ≤ g.nodeCount) :
    g.rowStart u ≤ g.rowStart v := by
  induction v, huv using Nat.le_induction with
  | base => exact le_rfl
  | succ v _ ih => exact (ih (Nat.le_of_succ_le hv)).trans (h.le_succ v hv)

/-- No row starts past the last target. -/
theorem le_relationshipCount (h : g.HasRows) (hv : v ≤ g.nodeCount) :
    g.rowStart v ≤ g.relationshipCount := h.last ▸ h.mono hv le_rfl

/-- The first rows have every target up to where the next one starts, but for those before the first
row. -/
theorem sum_degree (h : g.HasRows) (hk : k ≤ g.nodeCount) :
    ((List.range k).map fun v => (g.degree? v).getD 0).sum + g.rowStart 0 = g.rowStart k := by
  induction k with
  | zero => exact Nat.zero_add _
  | succ k ih =>
    have hrest := ih (Nat.le_of_succ_le hk)
    -- offsets that descended would make the degree zero and not the difference
    have hle := h.le_succ k hk
    rw [List.range_succ, List.map_append, List.sum_append, List.map_singleton, List.sum_singleton,
      degree?_of_lt hk, Option.getD_some]
    omega

/-- One behind the other, the first rows are the targets up to where the next row starts. -/
theorem flatMap_targets (h : g.HasRows) (hk : k ≤ g.nodeCount) :
    (List.range k).flatMap (fun v => (g.targets? v).getD [])
      = g.targets.toList.extract (g.rowStart 0) (g.rowStart k) := by
  induction k with
  | zero => simp
  | succ k ih =>
    have hstart := h.mono k.zero_le (Nat.le_of_succ_le hk)
    have hle := h.le_succ k hk
    -- the last of the rows is put behind the others
    rw [List.range_succ, List.flatMap_append, ih (Nat.le_of_succ_le hk), List.flatMap_singleton,
      targets?_of_lt hk, Option.getD_some]
    -- what follows the rows so far starts where they end
    have hsplit : g.rowStart (k + 1) - g.rowStart 0
        = (g.rowStart k - g.rowStart 0) + (g.rowStart (k + 1) - g.rowStart k) := by omega
    rw [List.extract_eq_take_drop, List.extract_eq_take_drop, List.extract_eq_take_drop, hsplit,
      List.take_add, List.drop_drop, Nat.add_sub_cancel' hstart]

/-- A position that does not lie before the first row belongs to one row. -/
theorem existsUnique_row (h : g.HasRows) (hp : g.rowStart 0 ≤ p) (hlt : p < g.relationshipCount) :
    ∃! v, v < g.nodeCount ∧ g.rowStart v ≤ p ∧ p < g.rowStart (v + 1) := by
  obtain ⟨v, hv, hin⟩ := exists_row hp (h.last.symm ▸ hlt)
  refine ⟨v, ⟨hv, hin⟩, fun w ⟨hw, hin'⟩ => ?_⟩
  -- of two rows, one ends before the other starts
  rcases Nat.lt_trichotomy v w with hvw | rfl | hwv
  · exact absurd (hin.2.trans_le (h.mono hvw hw.le)) hin'.1.not_gt
  · rfl
  · exact absurd (hin'.2.trans_le (h.mono hwv hv.le)) hin.1.not_gt

end HasRows

/-! ## Sorted rows -/

section Sorted

variable {n : Nat} {edges : List (Relationship α)} {weighted : Bool} {ids : Option IdTable}

/-- The check of relationships finds that all vertices exist. -/
theorem checkEdges_iff :
    checkEdges n edges = .ok () ↔ ∀ e ∈ edges, e.source < n ∧ e.target < n := by
  induction edges with
  | nil => simp [checkEdges]
  | cons e edges ih =>
    rw [checkEdges, List.forall_mem_cons]
    split
    · rename_i h
      rw [ih]
      exact (and_iff_right h).symm
    · rename_i h
      exact ⟨nofun, fun hall => absurd hall.1 h⟩

/-- What is made after a check is there if the check was passed. -/
theorem map_check_eq_ok_iff {check : Except Violation Unit} {f : Unit → CsrGraph α} :
    check.map f = .ok g ↔ check = .ok () ∧ f () = g := by
  cases check <;> simp [Except.map]

variable [Scalar α]

/-- Weighted relationships make a graph if their vertices exist: the one with sorted rows. -/
theorem ofWeightedEdges_eq_ok_iff : ofWeightedEdges n edges = .ok g ↔
    (∀ e ∈ edges, e.source < n ∧ e.target < n) ∧ sortRows n edges true none = g := by
  rw [ofWeightedEdges, map_check_eq_ok_iff, checkEdges_iff]

/-- So do unweighted ones, all of the same weight. -/
theorem ofEdges_eq_ok_iff {pairs : List (Nat × Nat)} : ofEdges n pairs = .ok g ↔
    (∀ e ∈ pairs, e.1 < n ∧ e.2 < n) ∧
      sortRows n (pairs.map fun (s, t) => ⟨s, t, Scalar.one⟩) false none = g := by
  rw [ofEdges, map_check_eq_ok_iff, checkEdges_iff, List.forall_mem_map]

/-- A sorted row starts after the relationships of lesser vertices. -/
theorem rowStart_sortRows (hu : u ≤ n) :
    (sortRows n edges weighted ids).rowStart u = below u edges := getD_rowOffsets hu

/-- The first sorted row starts with the first target. -/
@[simp] theorem rowStart_zero_sortRows : (sortRows n edges weighted ids).rowStart 0 = 0 := by
  rw [rowStart_sortRows n.zero_le, below]
  simp

/-- Sorting keeps every relationship. -/
@[simp] theorem relationshipCount_sortRows :
    (sortRows n edges weighted ids).relationshipCount = edges.length :=
  (size_scatter _ _).trans Array.size_replicate

/-- Sorted rows are rows. -/
theorem hasRows_sortRows (h : ∀ e ∈ edges, e.source < n) :
    (sortRows n edges weighted ids).HasRows where
  size_offsets := by
    rw [nodeCount_sortRows]
    exact size_rowOffsets n edges
  le_succ v hv := by
    rw [nodeCount_sortRows] at hv
    rw [rowStart_sortRows hv.le, rowStart_sortRows hv]
    exact below_mono v.le_succ edges
  last := by
    rw [nodeCount_sortRows, rowStart_sortRows le_rfl, below_eq_length h, relationshipCount_sortRows]

/-- The ids that relationships name. -/
def idTable (edges : List (ExternalEdge α)) : IdTable :=
  IdTable.ofList (edges.flatMap fun e => [e.source, e.target])

/-- The relationships between the vertices of the ids. -/
def denseEdges (edges : List (ExternalEdge α)) : List (Relationship α) :=
  edges.map fun e => ⟨((idTable edges).node? e.source).getD 0,
    ((idTable edges).node? e.target).getD 0, e.weight.getD Scalar.one⟩

/-- Both ids of a relationship are in the table. -/
theorem lt_of_mem_denseEdges {edges : List (ExternalEdge α)} {e : Relationship α}
    (he : e ∈ denseEdges edges) :
    e.source < (idTable edges).size ∧ e.target < (idTable edges).size := by
  obtain ⟨x, hx, rfl⟩ := List.mem_map.mp he
  -- an id that some relationship names has a number in the table
  have hin (id : UInt64) (hid : id ∈ [x.source, x.target]) :
      ((idTable edges).node? id).getD 0 < (idTable edges).size := by
    have hmem : id ∈ (idTable edges).ids :=
      IdTable.mem_ofList.mpr (List.mem_flatMap.mpr ⟨x, hx, hid⟩)
    obtain ⟨v, hv, hget⟩ := Array.mem_iff_getElem.mp hmem
    rw [(IdTable.node?_eq_some_iff _).mpr (Array.getElem?_eq_some_iff.mpr ⟨hv, hget⟩)]
    exact hv
  exact ⟨hin x.source (by simp), hin x.target (by simp)⟩

end Sorted

/-! ## Given rows -/

section Given

variable {n source total : Nat} {rows : List (List Nat)} {offsets targets : List Nat}

/-- The unweighted graph with these rows, which need not be checked. -/
def ofRows (rows : List (List Nat)) : CsrGraph α :=
  ⟨(runningSums 0 (rows.map List.length)).toArray, rows.flatten.toArray, none, none⟩

/-- No target is found that is too large. -/
theorem find?_le_eq_none_iff : targets.find? (n ≤ ·) = none ↔ ∀ t ∈ targets, t < n := by
  simp only [List.find?_eq_none, decide_eq_true_eq, Nat.not_le]

/-- The check of rows finds that all targets exist. -/
theorem checkRows_iff :
    checkRows n source rows = .ok () ↔ ∀ row ∈ rows, ∀ t ∈ row, t < n := by
  induction rows generalizing source with
  | nil => simp [checkRows]
  | cons row rows ih =>
    rw [checkRows, List.forall_mem_cons, ← find?_le_eq_none_iff]
    cases row.find? (n ≤ ·) with
    | some t => simp
    | none => simpa using ih

/-- Rows make a graph if their targets exist. -/
theorem ofAdjacency_eq_ok_iff : ofAdjacency rows = .ok g ↔
    (∀ row ∈ rows, ∀ t ∈ row, t < rows.length) ∧ ofRows rows = g := by
  rw [ofAdjacency, map_check_eq_ok_iff, checkRows_iff, ofRows]

/-- The running sums start with the sum of nothing. -/
theorem runningSums_eq (total : Nat) (ks : List Nat) :
    runningSums total ks = (List.range (ks.length + 1)).map fun u => total + (ks.take u).sum := by
  induction ks generalizing total with
  | nil => rfl
  | cons k ks ih =>
    -- the sums from the second number on start one number later
    rw [runningSums, ih, List.length_cons, List.range_succ_eq_map (n := ks.length + 1),
      List.map_cons, List.map_map]
    simp [Function.comp_def, Nat.add_assoc]

/-- There is a vertex for each row. -/
@[simp] theorem nodeCount_ofRows : (ofRows rows : CsrGraph α).nodeCount = rows.length := by
  simp [nodeCount, ofRows, runningSums_eq]

/-- A row starts after the rows before it. -/
theorem rowStart_ofRows (hu : u ≤ rows.length) :
    (ofRows rows : CsrGraph α).rowStart u = ((rows.map List.length).take u).sum := by
  have hlt : u < rows.length + 1 := Nat.lt_succ_of_le hu
  rw [rowStart, ofRows, runningSums_eq]
  simp [Array.getD_eq_getD_getElem?, hlt]

/-- Rows that are given one after the other are rows. -/
theorem hasRows_ofRows : (ofRows rows : CsrGraph α).HasRows where
  size_offsets := by
    rw [nodeCount_ofRows]
    simp [ofRows, runningSums_eq]
  le_succ v hv := by
    rw [nodeCount_ofRows] at hv
    rw [rowStart_ofRows hv.le, rowStart_ofRows hv,
      List.sum_take_succ _ v (by rwa [List.length_map])]
    exact Nat.le_add_right _ _
  last := by
    rw [nodeCount_ofRows, rowStart_ofRows le_rfl, List.take_of_length_le (by rw [List.length_map])]
    simp [relationshipCount, ofRows, List.length_flatten]

/-- The check of offsets finds that they ascend. -/
theorem isMonotone_iff : isMonotone offsets = true ↔ offsets.Pairwise (· ≤ ·) := by
  -- neighbours are compared, which for an order is enough
  rw [← List.isChain_iff_pairwise]
  induction offsets with
  | nil => simp [isMonotone]
  | cons a rest ih =>
    cases rest with
    | nil => simp [isMonotone]
    | cons b rest =>
      rw [isMonotone, Bool.and_eq_true, decide_eq_true_eq, ih, List.isChain_cons_cons]

/-- Offsets and targets make a graph if the offsets ascend to the number of targets and the targets
exist. -/
theorem ofParts_eq_ok_iff : ofParts offsets targets = .ok g ↔
    offsets.Pairwise (· ≤ ·) ∧ offsets.getLast? = some targets.length ∧
      (∀ t ∈ targets, t < offsets.length - 1) ∧
        ⟨offsets.toArray, targets.toArray, none, none⟩ = g := by
  rw [ofParts, ← isMonotone_iff, ← find?_le_eq_none_iff]
  cases offsets.getLast? with
  | none => simp
  | some last =>
    dsimp only
    rw [Option.some_inj]
    -- the checks are made one after the other
    cases isMonotone offsets with
    | false => simp
    | true =>
      by_cases hend : last = targets.length
      · cases targets.find? (offsets.length - 1 ≤ ·) with
        | some t => simp [hend]
        | none => simp [hend]
      · simp [hend]

/-- Offsets and targets that passed the checks have rows. -/
theorem hasRows_ofParts (h : ofParts offsets targets = .ok g) : g.HasRows := by
  obtain ⟨hmonotone, hlast, -, rfl⟩ := ofParts_eq_ok_iff.mp h
  -- offsets with a last one are not empty, so there is one more than vertices
  have hne : offsets ≠ [] := by
    rintro rfl
    cases hlast
  have hpos := List.length_pos_iff.mpr hne
  -- offsets that exist are those of the list
  have hstart {v : Nat} (hv : v < offsets.length) :
      (⟨offsets.toArray, targets.toArray, none, none⟩ : CsrGraph α).rowStart v = offsets[v] := by
    simp [rowStart, Array.getD_eq_getD_getElem?, hv]
  have hcount : (⟨offsets.toArray, targets.toArray, none, none⟩ : CsrGraph α).nodeCount
      = offsets.length - 1 := rfl
  refine ⟨?_, fun v hv => ?_, ?_⟩
  · change offsets.length = offsets.length - 1 + 1
    omega
  · rw [hcount] at hv
    rw [hstart (by omega), hstart (by omega)]
    exact List.pairwise_iff_getElem.mp hmonotone v (v + 1) _ _ v.lt_succ_self
  · rw [hcount, hstart (by omega), ← List.getLast_eq_getElem hne]
    rw [List.getLast?_eq_some_getLast hne] at hlast
    exact Option.some.inj hlast

end Given

end CsrGraph

end Superstep
