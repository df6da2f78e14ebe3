import Mathlib
import Superstep.Graph.Csr

/-!
# Rows by counting sort

What the passes of the counting sort leave, one after the other: where the rows start, which place
each relationship is given, and what lies in the cells of a row in the end. A relationship is
written to a cell of its own row, and the rows have no cell in common, so nothing is overwritten.

## Key results

- `CountingSort.getD_rowOffsets`: a row starts after all relationships of lesser sources
- `CountingSort.getElem?_scatter_row`: the cells of a row hold its relationships in order
- `CsrGraph.targets?_sortRows`, `CsrGraph.weightedTargets?_sortRows`: the rows of the sorted graph
-/

namespace Superstep

namespace CountingSort

variable {α β : Type} {n size u : Nat} {edges : List (Relationship α)}

/-- The relationships of a source, in order. -/
def rowOf (u : Nat) (edges : List (Relationship α)) : List (Relationship α) :=
  edges.filter (·.source = u)

/-- The number of relationships of lesser sources. -/
def below (u : Nat) (edges : List (Relationship α)) : Nat := edges.countP (·.source < u)

/-- A relationship comes first in the row of its source. -/
theorem rowOf_cons_self (e : Relationship α) (edges : List (Relationship α)) :
    rowOf e.source (e :: edges) = e :: rowOf e.source edges := by
  simp [rowOf]

/-- A relationship is in no row but that of its source. -/
theorem rowOf_cons_of_ne {e : Relationship α} (h : e.source ≠ u) (edges : List (Relationship α)) :
    rowOf u (e :: edges) = rowOf u edges := by
  simp [rowOf, h]

/-- The relationships below the next source are those below this one and its own. -/
theorem below_succ (u : Nat) (edges : List (Relationship α)) :
    below (u + 1) edges = below u edges + (rowOf u edges).length := by
  rw [rowOf, ← List.countP_eq_length_filter, below, below]
  -- every relationship is counted on both sides or on neither
  induction edges with
  | nil => rfl
  | cons e edges ih =>
    simp only [List.countP_cons, ih, decide_eq_true_eq]
    split_ifs <;> omega

/-- Later sources have more relationships below them. -/
theorem below_mono {v : Nat} (h : u ≤ v) (edges : List (Relationship α)) :
    below u edges ≤ below v edges :=
  List.countP_mono_left fun e _ he => by simp only [decide_eq_true_eq] at he ⊢; omega

/-- All relationships are below the number of vertices. -/
theorem below_eq_length (h : ∀ e ∈ edges, e.source < n) : below n edges = edges.length :=
  List.countP_eq_length.mpr fun e he => decide_eq_true (h e he)

/-! ## Where rows start -/

/-- Changing one entry leaves the others alone. -/
theorem getD_modify (a : Array Nat) (i : Nat) (f : Nat → Nat) {j : Nat} (hj : j < a.size) :
    (a.modify i f).getD j 0 = if i = j then f (a.getD j 0) else a.getD j 0 := by
  rw [Array.getD_eq_getD_getElem?, Array.getElem?_modify, Array.getD_eq_getD_getElem?]
  split <;> simp [hj]

/-- There is one count more than vertices. -/
theorem size_sourceCounts (n : Nat) (edges : List (Relationship α)) :
    (sourceCounts n edges).size = n + 1 := by
  rw [sourceCounts, ← List.foldr_reverse]
  induction edges.reverse with
  | nil => exact Array.size_replicate
  | cons e edges ih => rw [List.foldr_cons, Array.size_modify, ih]

/-- The relationships of a source are counted one entry further on. -/
theorem getD_sourceCounts {j : Nat} (hj : j < n + 1) :
    (sourceCounts n edges).getD j 0 = edges.countP (·.source + 1 = j) := by
  -- each relationship adds one to what was counted before it
  have hfrom (counts : Array Nat) (hj : j < counts.size) :
      (edges.foldl (fun counts e => counts.modify (e.source + 1) (· + 1)) counts).getD j 0
        = counts.getD j 0 + edges.countP (·.source + 1 = j) := by
    induction edges generalizing counts with
    | nil => rfl
    | cons e edges ih =>
      rw [List.foldl_cons, ih _ (by rwa [Array.size_modify]), getD_modify _ _ _ hj,
        List.countP_cons]
      simp only [decide_eq_true_eq]
      split <;> omega
  rw [sourceCounts, hfrom _ (by rwa [Array.size_replicate])]
  simp [Array.getD_eq_getD_getElem?, hj]

/-- The last entry of a longer sum is added to what was summed up before. -/
theorem accumulate_succ (k : Nat) (counts : Array Nat) :
    accumulate (k + 1) counts
      = (accumulate k counts).modify (k + 1) (· + (accumulate k counts).getD k 0) := by
  rw [accumulate, List.range_succ, List.foldl_append]
  rfl

/-- Summing up keeps the number of entries. -/
@[simp] theorem size_accumulate (k : Nat) (counts : Array Nat) :
    (accumulate k counts).size = counts.size := by
  induction k with
  | zero => rfl
  | succ k ih => rw [accumulate_succ, Array.size_modify, ih]

/-- The first entries are sums, and the others are still single counts. -/
theorem getD_accumulate (k : Nat) (counts : Array Nat) {j : Nat} (hj : j < counts.size) :
    (accumulate k counts).getD j 0 =
      if j ≤ k then ∑ i ∈ Finset.range (j + 1), counts.getD i 0 else counts.getD j 0 := by
  induction k generalizing j with
  | zero =>
    rcases Nat.eq_zero_or_pos j with rfl | h
    · exact (Finset.sum_range_one fun i => counts.getD i 0).symm
    · rw [if_neg (Nat.not_le_of_gt h)]
      rfl
  | succ k ih =>
    rw [accumulate_succ, getD_modify _ _ _ (by rwa [size_accumulate]), ih hj]
    -- an entry before the new one, the new one, or one that is still to come
    rcases Nat.lt_trichotomy j (k + 1) with h | rfl | h
    · rw [if_neg h.ne', if_pos (Nat.le_of_lt_succ h), if_pos h.le]
    · rw [if_pos rfl, if_neg (by omega), if_pos le_rfl, ih (by omega), if_pos le_rfl,
        Finset.sum_range_succ _ (k + 1), Nat.add_comm]
    · rw [if_neg h.ne, if_neg (by omega), if_neg (by omega)]

/-- There is one offset more than vertices. -/
theorem size_rowOffsets (n : Nat) (edges : List (Relationship α)) :
    (rowOffsets n edges).size = n + 1 :=
  (size_accumulate n _).trans (size_sourceCounts n edges)

/-- A row starts after all relationships of lesser sources. -/
theorem getD_rowOffsets (hu : u ≤ n) : (rowOffsets n edges).getD u 0 = below u edges := by
  have hsize := size_sourceCounts n edges
  rw [rowOffsets, getD_accumulate n _ (by omega), if_pos hu]
  induction u with
  | zero =>
    rw [Finset.sum_range_one, getD_sourceCounts n.succ_pos]
    simp [below]
  | succ u ih =>
    -- the counts up to here add up to the relationships below
    rw [Finset.sum_range_succ, ih (by omega), below_succ, getD_sourceCounts (by omega), rowOf,
      ← List.countP_eq_length_filter]
    simp

/-! ## Placing -/

/-- The free places of every row are enough for its relationships, and no two rows share one. -/
structure Room (n size : Nat) (next : Array Nat) (edges : List (Relationship α)) : Prop where
  source_lt : ∀ e ∈ edges, e.source < n
  known : n ≤ next.size
  apart : ∀ u v, u < v → v < n → next.getD u 0 + (rowOf u edges).length ≤ next.getD v 0
  inside : ∀ u, u < n → next.getD u 0 + (rowOf u edges).length ≤ size

/-- The first relationship gets the first free place of its row, the others what is left. -/
theorem positions_cons (next : Array Nat) (e : Relationship α) (edges : List (Relationship α)) :
    positions next (e :: edges)
      = next.getD e.source 0 :: positions (next.modify e.source (· + 1)) edges := by
  -- places that were given before stay in front
  have hfrom (edges : List (Relationship α)) (next places : Array Nat) :
      (edges.foldl assign (next, places)).2.toList = places.toList ++ positions next edges := by
    induction edges generalizing next places with
    | nil => simp [positions]
    | cons e edges ih =>
      rw [positions, List.foldl_cons, List.foldl_cons, assign, assign, ih, ih]
      simp
  rw [positions, List.foldl_cons, assign, hfrom]
  rfl

/-- Every relationship gets a place. -/
theorem length_positions (next : Array Nat) (edges : List (Relationship α)) :
    (positions next edges).length = edges.length := by
  induction edges generalizing next with
  | nil => rfl
  | cons e edges ih => rw [positions_cons, List.length_cons, List.length_cons, ih]

/-- Writing values keeps the number of cells. -/
@[simp] theorem size_scatter (cells : Array β) (values : List (Nat × β)) :
    (scatter cells values).size = cells.size := by
  induction values generalizing cells with
  | nil => rfl
  | cons v values ih => exact (ih _).trans Array.size_setIfInBounds

namespace Room

variable {next : Array Nat} {e : Relationship α}

/-- Placing a relationship moves the free places of its row on by one. -/
theorem getD_self (h : Room n size next (e :: edges)) :
    (next.modify e.source (· + 1)).getD e.source 0 = next.getD e.source 0 + 1 := by
  have he := h.source_lt e List.mem_cons_self
  rw [getD_modify _ _ _ (he.trans_le h.known), if_pos rfl]

/-- Placing a relationship leaves the free places of other rows alone. -/
theorem getD_of_ne (h : Room n size next (e :: edges)) (hu : u < n) (hne : e.source ≠ u) :
    (next.modify e.source (· + 1)).getD u 0 = next.getD u 0 := by
  rw [getD_modify _ _ _ (hu.trans_le h.known), if_neg hne]

/-- What is left of a row starts no earlier, and ends where it did. -/
theorem free_tail (h : Room n size next (e :: edges)) (hu : u < n) :
    next.getD u 0 ≤ (next.modify e.source (· + 1)).getD u 0 ∧
      (next.modify e.source (· + 1)).getD u 0 + (rowOf u edges).length
        = next.getD u 0 + (rowOf u (e :: edges)).length := by
  -- its own row has one place less and one relationship less to place
  by_cases hne : e.source = u
  · subst u
    rw [h.getD_self, rowOf_cons_self, List.length_cons]
    omega
  · rw [h.getD_of_ne hu hne, rowOf_cons_of_ne hne]
    exact ⟨le_rfl, rfl⟩

/-- Placing a relationship takes one place from its row. -/
theorem tail (h : Room n size next (e :: edges)) :
    Room n size (next.modify e.source (· + 1)) edges where
  source_lt f hf := h.source_lt f (List.mem_cons_of_mem e hf)
  known := by
    rw [Array.size_modify]
    exact h.known
  apart u v huv hv := by
    rw [(h.free_tail (huv.trans hv)).2]
    exact (h.apart u v huv hv).trans (h.free_tail hv).1
  inside u hu := by
    rw [(h.free_tail hu).2]
    exact h.inside u hu

/-- A relationship is given a place that exists. -/
theorem lt_size (h : Room n size next (e :: edges)) : next.getD e.source 0 < size := by
  have hinside := h.inside e.source (h.source_lt e List.mem_cons_self)
  rw [rowOf_cons_self, List.length_cons] at hinside
  omega

/-- A relationship is given a place that is free in its row. -/
theorem free_of_mem_positions {p : Nat} (h : Room n size next edges)
    (hp : p ∈ positions next edges) :
    ∃ u, u < n ∧ next.getD u 0 ≤ p ∧ p < next.getD u 0 + (rowOf u edges).length := by
  induction edges generalizing next with
  | nil => cases hp
  | cons e edges ih =>
    rw [positions_cons] at hp
    rcases List.mem_cons.mp hp with rfl | hp
    · refine ⟨e.source, h.source_lt e List.mem_cons_self, le_rfl, ?_⟩
      rw [rowOf_cons_self, List.length_cons]
      omega
    · -- what is free later was free before
      obtain ⟨u, hu, hstart, hstop⟩ := ih h.tail hp
      obtain ⟨hle, heq⟩ := h.free_tail hu
      exact ⟨u, hu, hle.trans hstart, heq ▸ hstop⟩

/-- The place that a relationship was given is not free any more. -/
theorem not_free (h : Room n size next (e :: edges)) (hu : u < n) :
    next.getD e.source 0 < (next.modify e.source (· + 1)).getD u 0 ∨
      (next.modify e.source (· + 1)).getD u 0 + (rowOf u edges).length ≤ next.getD e.source 0 := by
  have he := h.source_lt e List.mem_cons_self
  -- the place is in the row of its source, which lies before or after the others
  rcases Nat.lt_trichotomy u e.source with hlt | rfl | hgt
  · rw [(h.free_tail hu).2]
    exact .inr (h.apart u e.source hlt he)
  · rw [h.getD_self]
    exact .inl (Nat.lt_succ_self _)
  · have hapart := h.apart e.source u hgt hu
    rw [rowOf_cons_self, List.length_cons] at hapart
    rw [h.getD_of_ne hu hgt.ne]
    exact .inl (by omega)

/-- No place is given twice. -/
theorem nodup_positions (h : Room n size next edges) : (positions next edges).Nodup := by
  induction edges generalizing next with
  | nil => exact List.nodup_nil
  | cons e edges ih =>
    rw [positions_cons, List.nodup_cons]
    refine ⟨fun hmem => ?_, ih h.tail⟩
    obtain ⟨u, hu, hstart, hstop⟩ := h.tail.free_of_mem_positions hmem
    -- a place that is given later would be free after it was given
    rcases h.not_free hu with hbefore | hafter
    · exact absurd hbefore hstart.not_gt
    · exact absurd hstop hafter.not_gt

/-- A place that is not free stays as it is. -/
theorem getElem?_scatter_of_not_free {p : Nat} (f : Relationship α → β) (cells : Array β)
    (h : Room n size next edges)
    (hp : ∀ u, u < n → p < next.getD u 0 ∨ next.getD u 0 + (rowOf u edges).length ≤ p) :
    (scatter cells ((positions next edges).zip (edges.map f)))[p]? = cells[p]? := by
  induction edges generalizing next cells with
  | nil => rfl
  | cons e edges ih =>
    rw [positions_cons, List.map_cons, List.zip_cons_cons]
    refine (ih (cells.setIfInBounds _ _) h.tail fun u hu => ?_).trans ?_
    · obtain ⟨hstart, hstop⟩ := h.free_tail hu
      rw [hstop]
      exact (hp u hu).imp_left fun hbefore => hbefore.trans_le hstart
    · -- the first relationship is not written there either
      have hfree := hp e.source (h.source_lt e List.mem_cons_self)
      rw [rowOf_cons_self, List.length_cons] at hfree
      exact Array.getElem?_setIfInBounds_ne (by omega)

/-- The free places of a row are filled with its relationships in order. -/
theorem getElem?_scatter_row (f : Relationship α → β) (cells : Array β)
    (h : Room n cells.size next edges) (hu : u < n) {k : Nat} (hk : k < (rowOf u edges).length) :
    (scatter cells ((positions next edges).zip (edges.map f)))[next.getD u 0 + k]?
      = ((rowOf u edges).map f)[k]? := by
  induction edges generalizing next cells k with
  | nil => exact absurd hk (Nat.not_lt_zero k)
  | cons e edges ih =>
    rw [positions_cons, List.map_cons, List.zip_cons_cons]
    change (scatter (cells.setIfInBounds _ _) _)[_]? = _
    have hroom : Room n (cells.setIfInBounds (next.getD e.source 0) (f e)).size
        (next.modify e.source (· + 1)) edges := by
      rw [Array.size_setIfInBounds]
      exact h.tail
    -- the others are placed in what is left of the rows
    have hrest {k : Nat} := @ih _ (cells.setIfInBounds (next.getD e.source 0) (f e)) hroom k
    by_cases hne : e.source = u
    · subst u
      rw [rowOf_cons_self, List.length_cons] at hk
      rw [rowOf_cons_self, List.map_cons]
      cases k with
      | zero =>
        -- nothing that follows is written there
        rw [Nat.add_zero, hroom.getElem?_scatter_of_not_free f _ fun v hv => h.not_free hv]
        exact Array.getElem?_setIfInBounds_self_of_lt h.lt_size
      | succ k =>
        have hfilled := hrest (Nat.lt_of_succ_lt_succ hk)
        rw [h.getD_self, Nat.add_right_comm] at hfilled
        rw [List.getElem?_cons_succ, ← Nat.add_assoc]
        exact hfilled
    · rw [rowOf_cons_of_ne hne] at hk ⊢
      have hfilled := hrest hk
      rwa [h.getD_of_ne hu hne] at hfilled

end Room

/-- The offsets leave every row as much room as it needs. -/
theorem room_rowOffsets (h : ∀ e ∈ edges, e.source < n) :
    Room n edges.length (rowOffsets n edges) edges where
  source_lt := h
  known := by
    rw [size_rowOffsets]
    exact n.le_succ
  apart u v huv hv := by
    rw [getD_rowOffsets (huv.trans hv).le, getD_rowOffsets hv.le, ← below_succ]
    exact below_mono huv edges
  inside u hu := by
    rw [getD_rowOffsets hu.le, ← below_succ, ← below_eq_length h]
    exact below_mono hu edges

/-- Every cell is written once. -/
theorem perm_positions (h : ∀ e ∈ edges, e.source < n) :
    (positions (rowOffsets n edges) edges).Perm (List.range edges.length) := by
  have hroom := room_rowOffsets h
  -- as many different places as there are cells are all of them
  have hlt : positions (rowOffsets n edges) edges ⊆ List.range edges.length := by
    intro p hp
    obtain ⟨u, hu, -, hstop⟩ := hroom.free_of_mem_positions hp
    exact List.mem_range.mpr (hstop.trans_le (hroom.inside u hu))
  refine (hroom.nodup_positions.subperm hlt).perm_of_length_le ?_
  rw [List.length_range, length_positions]

/-- The cells of a row, from its offset to the next one, hold its relationships in order. -/
theorem extract_scatter (f : Relationship α → β) (b : β) (h : ∀ e ∈ edges, e.source < n)
    (hu : u < n) :
    ((scatter (.replicate edges.length b)
        ((positions (rowOffsets n edges) edges).zip (edges.map f))).extract
      (below u edges) (below (u + 1) edges)).toList = (rowOf u edges).map f := by
  have hroom := room_rowOffsets h
  have hstop : below (u + 1) edges ≤ edges.length := below_eq_length h ▸ below_mono hu edges
  -- both lists are as long as the row
  refine List.ext_getElem? fun k => ?_
  rw [Array.getElem?_toList, Array.getElem?_extract, size_scatter, Array.size_replicate,
    Nat.min_eq_left hstop, below_succ, Nat.add_sub_cancel_left]
  split
  · rename_i hk
    rw [← getD_rowOffsets hu.le]
    exact Room.getElem?_scatter_row f _ (by rwa [Array.size_replicate]) hu hk
  · rename_i hk
    rw [List.getElem?_eq_none]
    rw [List.length_map]
    exact Nat.le_of_not_lt hk

end CountingSort

namespace CsrGraph

open CountingSort

variable {α : Type} [Scalar α] {n v : Nat} {edges : List (Relationship α)} {weighted : Bool}
  {ids : Option IdTable}

/-- Sorting keeps the number of vertices. -/
@[simp] theorem nodeCount_sortRows : (sortRows n edges weighted ids).nodeCount = n := by
  rw [nodeCount, sortRows, size_rowOffsets]
  rfl

/-- A row ends where the next one starts. -/
theorem bounds?_sortRows (hv : v < n) :
    (sortRows n edges weighted ids).bounds? v = some (below v edges, below (v + 1) edges) := by
  rw [bounds?, nodeCount_sortRows, if_pos hv]
  exact congrArg₂ (fun a b => some (a, b)) (getD_rowOffsets hv.le) (getD_rowOffsets hv)

/-- The degree of a vertex is the number of its relationships. -/
theorem degree?_sortRows (hv : v < n) :
    (sortRows n edges weighted ids).degree? v = some (rowOf v edges).length := by
  rw [degree?, bounds?_sortRows hv, Option.map_some, below_succ]
  exact congrArg some (Nat.add_sub_cancel_left _ _)

/-- The row of a vertex holds the targets of its relationships in order. -/
theorem targets?_sortRows (h : ∀ e ∈ edges, e.source < n) (hv : v < n) :
    (sortRows n edges weighted ids).targets? v = some ((rowOf v edges).map (·.target)) := by
  rw [targets?, bounds?_sortRows hv, Option.map_some]
  exact congrArg some (extract_scatter (·.target) 0 h hv)

/-- The row of a vertex holds the targets and weights of its relationships in order. -/
theorem weightedTargets?_sortRows (h : ∀ e ∈ edges, e.source < n) (hv : v < n) (fallback : α) :
    (sortRows n edges weighted ids).weightedTargets? fallback v = some ((rowOf v edges).map
      fun e => (e.target, if weighted then e.weight else fallback)) := by
  have htargets := extract_scatter (·.target) 0 h hv
  have hweights := extract_scatter (·.weight) (Scalar.zero : α) h hv
  rw [weightedTargets?, bounds?_sortRows hv, Option.map_some]
  refine congrArg some ?_
  cases weighted with
  | false => exact (congrArg _ htargets).trans List.map_map
  | true => exact (congrArg₂ List.zip htargets hweights).trans List.zip_map'

end CsrGraph

end Superstep
