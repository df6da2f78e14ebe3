import Mathlib
import Superstep.Proofs.Graph.Soundness

/-!
# Rows tile the relationships

Every relationship of a graph belongs to one row, so that the rows together have as many
relationships as the graph, and twice as many when each also goes the other way (`RowsTile`). This
holds of a graph if its first row starts with the first target, and of no other graph. Callers can
make both kinds (`Obtainable`), because offsets that are given are not checked at their start.

## Key results

- `CsrGraph.relationshipCount_toUndirected`: relationships in both directions, counted by rows
- `CsrGraph.rowsTile_iff`: rows tile the relationships exactly if the first starts at zero
- `rows_tile_relationships`: which graphs that is, of those that callers can make
-/

namespace Superstep

namespace CsrGraph

variable {α : Type} {g : CsrGraph α}

/-- Number of relationships in all rows. -/
def degreeSum (g : CsrGraph α) : Nat :=
  ((List.range g.nodeCount).map fun v => (g.degree? v).getD 0).sum

/-- Every target is in a row, or before the first one. -/
theorem HasRows.degreeSum_add (h : g.HasRows) :
    g.degreeSum + g.rowStart 0 = g.relationshipCount :=
  (h.sum_degree le_rfl).trans h.last

/-- Appends the targets of a vertex, as a traversal that is not stopped is handed them. -/
def collect (g : CsrGraph α) (seen : List Nat) (v : Nat) : Except Violation (List Nat) :=
  g.toGraph.visitTargets v (fun seen t => (seen ++ [t], true)) seen

/-- A traversal that is not stopped is handed every item. -/
theorem visit_append {β : Type} (seen items : List β) :
    visit (fun (seen : List β) b => (seen ++ [b], true)) seen items = seen ++ items := by
  induction items generalizing seen with
  | nil => exact (List.append_nil seen).symm
  | cons b items ih => exact (ih (seen ++ [b])).trans (List.append_assoc seen [b] items)

/-- The row of a vertex is what is stored between two offsets. -/
theorem targets_of_lt {v : Nat} (hv : v < g.nodeCount) : g.toGraph.targets v
    = .ok (g.targets.toList.extract (g.rowStart v) (g.rowStart (v + 1))) :=
  congrArg (Graph.require v) (targets?_of_lt hv)

/-- What a vertex adds is its row. -/
theorem collect_of_lt {v : Nat} (hv : v < g.nodeCount) (seen : List Nat) :
    g.collect seen v = .ok (seen ++ (g.targets? v).getD []) := by
  rw [collect, Graph.visitTargets, targets_of_lt hv, targets?_of_lt hv]
  exact congrArg Except.ok (visit_append seen _)

/-- What several vertices add is their rows, one after the other. -/
theorem foldlM_collect {vs : List Nat} (hvs : ∀ v ∈ vs, v < g.nodeCount) (seen : List Nat) :
    vs.foldlM g.collect seen = .ok (seen ++ vs.flatMap fun v => (g.targets? v).getD []) := by
  induction vs generalizing seen with
  | nil => exact congrArg Except.ok (List.append_nil seen).symm
  | cons v vs ih =>
    obtain ⟨hv, hrest⟩ := List.forall_mem_cons.mp hvs
    rw [List.foldlM_cons, collect_of_lt hv, List.flatMap_cons, ← List.append_assoc]
    exact ih hrest _

/-- Every relationship belongs to one row. -/
structure RowsTile [Scalar α] (g : CsrGraph α) : Prop where
  sum_degree : g.degreeSum = g.relationshipCount
  /-- Vertex by vertex, the traversals are handed the stored targets. -/
  traversals : (List.range g.nodeCount).foldlM g.collect [] = .ok g.targets.toList
  rows : ∀ v, v < g.nodeCount → g.toGraph.targets v
    = .ok (g.targets.toList.extract (g.rowStart v) (g.rowStart (v + 1)))
  /-- One vertex has the target at a position in its row. -/
  existsUnique : ∀ p, p < g.relationshipCount →
    ∃! v, v < g.nodeCount ∧ g.rowStart v ≤ p ∧ p < g.rowStart (v + 1)
  bothWays : g.toUndirected.relationshipCount = 2 * g.relationshipCount

variable [Scalar α]

/-! ## Counting by rows -/

/-- There are as many relationships as the rows have targets. -/
theorem length_relationships (h : g.toGraph.IsSound) : g.relationships.length = g.degreeSum := by
  rw [relationships, List.length_flatMap, degreeSum]
  refine congrArg List.sum (List.map_congr_left fun v hv => ?_)
  rw [List.mem_range] at hv
  have hdegree : g.degree? v = some (g.toGraph.row v).length := h.degree v hv
  rw [List.length_map, hdegree, Option.getD_some, ← h.unweighted v hv Scalar.one, List.length_map]
  rfl

/-- Relationships in both directions are twice those in the rows. -/
theorem relationshipCount_toUndirected (h : g.toGraph.IsSound) :
    g.toUndirected.relationshipCount = 2 * g.degreeSum := by
  rw [toUndirected, relationshipCount_sortRows, List.length_flatMap, ← length_relationships h]
  simp [Nat.mul_comm]

/-- Rows tile the relationships exactly if the first starts at zero. -/
theorem rowsTile_iff (hrows : g.HasRows) (hsound : g.toGraph.IsSound) :
    g.RowsTile ↔ g.rowStart 0 = 0 := by
  have hsum := hrows.degreeSum_add
  constructor
  · -- a target before the first row is in no row
    intro h
    have hall := h.sum_degree
    omega
  · -- all targets lie between the first offset and the last
    intro hstart
    rw [hstart, Nat.add_zero] at hsum
    refine ⟨hsum, ?_, fun v hv => targets_of_lt hv,
      fun p hp => hrows.existsUnique_row (hstart.trans_le p.zero_le) hp, ?_⟩
    · rw [foldlM_collect (fun v hv => List.mem_range.mp hv), List.nil_append,
        hrows.flatMap_targets le_rfl, hstart, hrows.last, List.extract_eq_take_drop, List.drop_zero]
      exact congrArg Except.ok (List.take_of_length_le le_rfl)
    · rw [relationshipCount_toUndirected hsound, hsum]

/-! ## Graphs that callers can make -/

/-- A graph that callers can make. -/
inductive Obtainable : CsrGraph α → Prop
  | adjacency {rows : List (List Nat)} {g : CsrGraph α} (h : ofAdjacency rows = .ok g) :
    Obtainable g
  | parts {offsets targets : List Nat} {g : CsrGraph α} (h : ofParts offsets targets = .ok g) :
    Obtainable g
  | edges {n : Nat} {pairs : List (Nat × Nat)} {g : CsrGraph α} (h : ofEdges n pairs = .ok g) :
    Obtainable g
  | weightedEdges {n : Nat} {edges : List (Relationship α)} {g : CsrGraph α}
    (h : ofWeightedEdges n edges = .ok g) : Obtainable g
  | externalEdges (edges : List (ExternalEdge α)) : Obtainable (ofExternalEdges edges)
  | undirected {g : CsrGraph α} (h : Obtainable g) : Obtainable g.toUndirected

namespace Obtainable

/-- A graph that callers can make is sound. -/
theorem isSound (h : Obtainable g) : g.toGraph.IsSound := by
  -- one constructor for each way to make a graph
  induction h with
  | adjacency h => exact isSound_ofAdjacency h
  | parts h => exact isSound_ofParts h
  | edges h => exact isSound_ofEdges h
  | weightedEdges h => exact isSound_ofWeightedEdges h
  | externalEdges edges => exact isSound_ofExternalEdges edges
  | undirected _ ih => exact isSound_toUndirected ih

/-- A graph that callers can make has rows. -/
theorem hasRows (h : Obtainable g) : g.HasRows := by
  cases h with
  | adjacency h =>
    obtain ⟨-, rfl⟩ := ofAdjacency_eq_ok_iff.mp h
    exact hasRows_ofRows
  | parts h => exact hasRows_ofParts h
  | edges h =>
    obtain ⟨hpairs, rfl⟩ := ofEdges_eq_ok_iff.mp h
    exact hasRows_sortRows (List.forall_mem_map.mpr fun e he => (hpairs e he).1)
  | weightedEdges h =>
    obtain ⟨hedges, rfl⟩ := ofWeightedEdges_eq_ok_iff.mp h
    exact hasRows_sortRows fun e he => (hedges e he).1
  | externalEdges edges => exact hasRows_sortRows fun e he => (lt_of_mem_denseEdges he).1
  | undirected h => exact hasRows_sortRows fun e he => (lt_of_mem_bothWays h.isSound he).1

/-- Only given offsets start elsewhere than at zero. -/
theorem rowStart_zero (h : Obtainable g) : g.rowStart 0 = 0 ∨
    ∃ offsets targets, ofParts offsets targets = .ok g ∧ offsets.head? = some (g.rowStart 0) := by
  cases h with
  | adjacency h =>
    obtain ⟨-, rfl⟩ := ofAdjacency_eq_ok_iff.mp h
    exact .inl (rowStart_ofRows (Nat.zero_le _))
  | @parts offsets targets _ h =>
    refine .inr ⟨offsets, targets, h, ?_⟩
    obtain ⟨-, hlast, -, rfl⟩ := ofParts_eq_ok_iff.mp h
    -- there is a last offset, hence a first one
    cases offsets with
    | nil => cases hlast
    | cons first rest => rfl
  | edges h =>
    obtain ⟨-, rfl⟩ := ofEdges_eq_ok_iff.mp h
    exact .inl rowStart_zero_sortRows
  | weightedEdges h =>
    obtain ⟨-, rfl⟩ := ofWeightedEdges_eq_ok_iff.mp h
    exact .inl rowStart_zero_sortRows
  | externalEdges edges => exact .inl rowStart_zero_sortRows
  | undirected _ => exact .inl rowStart_zero_sortRows

end Obtainable

end CsrGraph

/-- Of the graphs that callers can make, rows tile the relationships of those whose first row starts
with the first target. That is every graph but one whose offsets were given and start elsewhere, and
with relationships in both directions it is this one too. -/
theorem rows_tile_relationships {α : Type} [Scalar α] {g : CsrGraph α} (h : g.Obtainable) :
    (g.RowsTile ↔ g.rowStart 0 = 0) ∧ g.toUndirected.RowsTile ∧
      (g.rowStart 0 = 0 ∨ ∃ offsets targets, CsrGraph.ofParts offsets targets = .ok g ∧
        offsets.head? = some (g.rowStart 0)) ∧
      g.degreeSum + g.rowStart 0 = g.relationshipCount ∧
      g.toUndirected.relationshipCount = 2 * g.degreeSum := by
  have hundirected := h.undirected
  refine ⟨CsrGraph.rowsTile_iff h.hasRows h.isSound, ?_, h.rowStart_zero, h.hasRows.degreeSum_add,
    CsrGraph.relationshipCount_toUndirected h.isSound⟩
  exact (CsrGraph.rowsTile_iff hundirected.hasRows hundirected.isSound).mpr
    CsrGraph.rowStart_zero_sortRows

/-- Three vertices whose offsets were given. -/
theorem rows_tile_relationships_given : ∃ g : CsrGraph Float,
    CsrGraph.ofParts [0, 2, 3, 3] [1, 2, 2] = .ok g ∧ g.Obtainable ∧ g.RowsTile ∧
      g.toUndirected.relationshipCount = 6 := by
  have hmade : CsrGraph.ofParts [0, 2, 3, 3] [1, 2, 2]
      = .ok (⟨#[0, 2, 3, 3], #[1, 2, 2], none, none⟩ : CsrGraph Float) := rfl
  have hobtainable := CsrGraph.Obtainable.parts hmade
  obtain ⟨htile, -, -, -, hcount⟩ := rows_tile_relationships hobtainable
  exact ⟨_, hmade, hobtainable, htile.mpr rfl, hcount⟩

/-- One target lies before the first row. The graph counts it as a relationship, but it is in no
row, and it is gone when relationships go both ways. -/
theorem stray_target : ∃ g : CsrGraph Float,
    CsrGraph.ofParts [1, 1] [0] = .ok g ∧ g.Obtainable ∧ g.relationshipCount = 1 ∧
      g.degreeSum = 0 ∧ g.toUndirected.relationshipCount = 0 ∧ ¬g.RowsTile := by
  have hmade : CsrGraph.ofParts [1, 1] [0]
      = .ok (⟨#[1, 1], #[0], none, none⟩ : CsrGraph Float) := rfl
  refine ⟨_, hmade, .parts hmade, rfl, rfl, by decide, fun h => ?_⟩
  exact absurd h.sum_degree (by decide)

end Superstep
