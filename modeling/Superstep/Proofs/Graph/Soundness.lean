import Mathlib
import Superstep.Proofs.Graph.Rows

/-!
# Sound graphs

What vertex programs rely on when they ask about a vertex: that a graph answers about every vertex,
that its answers agree with each other, and that relationships lead to vertices that exist. It is
kept by every way to make a graph from its relationships.

## Key results

- `CsrGraph.isSound_ofWeightedEdges` and the like: a graph that a constructor answers with is sound
- `CsrGraph.mem_row_toUndirected`: relationships of the undirected graph go both ways
-/

namespace Superstep

namespace Graph

variable {α : Type} {g : Graph α}

/-- The targets of the relationships that leave a vertex. -/
def row (g : Graph α) (v : Nat) : List Nat := (g.targets? v).getD []

/-- The targets and weights of the relationships that leave a vertex. -/
def weightedRow (g : Graph α) (fallback : α) (v : Nat) : List (Nat × α) :=
  (g.weightedTargets? fallback v).getD []

/-- The graph answers about every vertex, and its answers agree. -/
structure IsSound (g : Graph α) : Prop where
  targets : ∀ v, v < g.nodeCount → g.targets? v = some (g.row v)
  degree : ∀ v, v < g.nodeCount → g.degree? v = some (g.row v).length
  weighted : ∀ v, v < g.nodeCount → ∀ fallback,
    g.weightedTargets? fallback v = some (g.weightedRow fallback v)
  unweighted : ∀ v, v < g.nodeCount → ∀ fallback,
    (g.weightedRow fallback v).map Prod.fst = g.row v
  /-- Relationships lead to vertices that exist. -/
  inside : ∀ v, v < g.nodeCount → ∀ t ∈ g.row v, t < g.nodeCount

/-- The row of a vertex is what the graph answers, if it answers. -/
theorem row_of_targets? {v : Nat} {targets : List Nat} (h : g.targets? v = some targets) :
    g.row v = targets := by
  rw [row, h, Option.getD_some]

/-- The same, with weights. -/
theorem weightedRow_of_weightedTargets? {v : Nat} {fallback : α} {targets : List (Nat × α)}
    (h : g.weightedTargets? fallback v = some targets) : g.weightedRow fallback v = targets := by
  rw [weightedRow, h, Option.getD_some]

/-- Relationships with weights lead to vertices that exist. -/
theorem IsSound.inside_weighted (h : g.IsSound) {v : Nat} (hv : v < g.nodeCount) {fallback : α}
    {m : Nat × α} (hm : m ∈ g.weightedRow fallback v) : m.1 < g.nodeCount :=
  h.inside v hv _ (h.unweighted v hv fallback ▸ List.mem_map_of_mem hm)

/-- A graph is sound whose rows are known in this form. -/
theorem isSound_of_rows (targets : Nat → List Nat) (weighted : α → Nat → List (Nat × α))
    (h : ∀ v, v < g.nodeCount → g.targets? v = some (targets v) ∧
      g.degree? v = some (targets v).length ∧ (∀ t ∈ targets v, t < g.nodeCount) ∧
      ∀ fallback, g.weightedTargets? fallback v = some (weighted fallback v) ∧
        (weighted fallback v).map Prod.fst = targets v) : g.IsSound where
  targets v hv := by rw [row_of_targets? (h v hv).1, (h v hv).1]
  degree v hv := by rw [row_of_targets? (h v hv).1, (h v hv).2.1]
  weighted v hv fallback := by
    have hweighted := ((h v hv).2.2.2 fallback).1
    rw [weightedRow_of_weightedTargets? hweighted, hweighted]
  unweighted v hv fallback := by
    obtain ⟨htargets, -, -, hweighted⟩ := h v hv
    rw [weightedRow_of_weightedTargets? (hweighted fallback).1, row_of_targets? htargets,
      (hweighted fallback).2]
  inside v hv t ht := by
    rw [row_of_targets? (h v hv).1] at ht
    exact (h v hv).2.2.1 t ht

end Graph

namespace CsrGraph

open CountingSort

variable {α : Type}

/-! ## Sorted rows -/

section Sorted

variable {n : Nat} {edges : List (Relationship α)} {weighted : Bool} {ids : Option IdTable}

variable [Scalar α]

/-- Rows that were sorted from relationships between existing vertices are sound. -/
theorem isSound_sortRows (h : ∀ e ∈ edges, e.source < n ∧ e.target < n) :
    (sortRows n edges weighted ids).toGraph.IsSound := by
  have hsource : ∀ e ∈ edges, e.source < n := fun e he => (h e he).1
  refine Graph.isSound_of_rows (fun v => (rowOf v edges).map (·.target)) (fun fallback v =>
    (rowOf v edges).map fun e => (e.target, if weighted then e.weight else fallback)) fun v hv => ?_
  change v < (sortRows n edges weighted ids).nodeCount at hv
  rw [nodeCount_sortRows] at hv
  refine ⟨targets?_sortRows hsource hv, ?_, fun t ht => ?_, fun fallback =>
    ⟨weightedTargets?_sortRows hsource hv fallback, List.map_map⟩⟩
  · rw [List.length_map]
    exact degree?_sortRows hv
  · obtain ⟨e, he, rfl⟩ := List.mem_map.mp ht
    change e.target < (sortRows n edges weighted ids).nodeCount
    rw [nodeCount_sortRows]
    exact (h e (List.mem_of_mem_filter he)).2

/-- A graph that is made of weighted relationships is sound. -/
theorem isSound_ofWeightedEdges {g : CsrGraph α} (h : ofWeightedEdges n edges = .ok g) :
    g.toGraph.IsSound := by
  obtain ⟨hedges, rfl⟩ := ofWeightedEdges_eq_ok_iff.mp h
  exact isSound_sortRows hedges

/-- A graph that is made of relationships without weights is sound. -/
theorem isSound_ofEdges {pairs : List (Nat × Nat)} {g : CsrGraph α}
    (h : ofEdges n pairs = .ok g) : g.toGraph.IsSound := by
  obtain ⟨hedges, rfl⟩ := ofEdges_eq_ok_iff.mp h
  exact isSound_sortRows (List.forall_mem_map.mpr hedges)

/-- The graph of relationships between arbitrary ids is sound. -/
theorem isSound_ofExternalEdges (edges : List (ExternalEdge α)) :
    (ofExternalEdges edges).toGraph.IsSound :=
  isSound_sortRows fun _ he => lt_of_mem_denseEdges he

end Sorted

/-! ## Given rows -/

/-- An unweighted graph with rows whose targets exist is sound. -/
theorem isSound_of_hasRows {g : CsrGraph α} (h : g.HasRows) (hweights : g.weights = none)
    (hinside : ∀ t ∈ g.targets.toList, t < g.nodeCount) : g.toGraph.IsSound := by
  refine Graph.isSound_of_rows
    (fun v => g.targets.toList.extract (g.rowStart v) (g.rowStart (v + 1)))
    (fun fallback v => (g.targets.toList.extract (g.rowStart v) (g.rowStart (v + 1))).map
      fun t => (t, fallback)) fun v hv => ?_
  change v < g.nodeCount at hv
  have hstop : g.rowStart (v + 1) ≤ g.targets.toList.length := h.le_relationshipCount hv
  refine ⟨targets?_of_lt hv, (degree?_of_lt hv).trans ?_, fun t ht => ?_, fun fallback => ⟨?_, ?_⟩⟩
  · -- the degree is how far apart two offsets are
    rw [List.extract_eq_take_drop, List.length_take, List.length_drop,
      Nat.min_eq_left (Nat.sub_le_sub_right hstop _)]
  · rw [List.extract_eq_take_drop] at ht
    exact hinside t (List.mem_of_mem_drop (List.mem_of_mem_take ht))
  · change g.weightedTargets? fallback v = _
    rw [weightedTargets?, bounds?_of_lt hv, Option.map_some, hweights]
    dsimp only
    rw [Array.toList_extract]
  · rw [List.map_map]
    exact List.map_id _

/-- A graph that is made of an adjacency list is sound. -/
theorem isSound_ofAdjacency {rows : List (List Nat)} {g : CsrGraph α}
    (h : ofAdjacency rows = .ok g) : g.toGraph.IsSound := by
  obtain ⟨hinside, rfl⟩ := ofAdjacency_eq_ok_iff.mp h
  refine isSound_of_hasRows hasRows_ofRows rfl fun t ht => ?_
  obtain ⟨row, hrow, ht⟩ := List.mem_flatten.mp ht
  rw [nodeCount_ofRows]
  exact hinside row hrow t ht

/-- A graph that is made of offsets and targets is sound. -/
theorem isSound_ofParts {offsets targets : List Nat} {g : CsrGraph α}
    (h : ofParts offsets targets = .ok g) : g.toGraph.IsSound := by
  refine isSound_of_hasRows (hasRows_ofParts h) ?_ ?_
  -- the checks have been passed, which told that the targets exist
  all_goals obtain ⟨-, -, hinside, rfl⟩ := ofParts_eq_ok_iff.mp h
  · rfl
  · exact hinside

/-! ## Relationships in both directions -/

section Undirected

variable [Scalar α] {g : CsrGraph α}

/-- The relationships of a graph are the entries of its rows. -/
theorem mem_relationships {e : Relationship α} : e ∈ g.relationships ↔ e.source < g.nodeCount ∧
    (e.target, e.weight) ∈ g.toGraph.weightedRow Scalar.one e.source := by
  simp only [relationships, List.mem_flatMap, List.mem_range, List.mem_map]
  constructor
  · rintro ⟨u, hu, ⟨t, w⟩, hrow, rfl⟩
    exact ⟨hu, hrow⟩
  · rintro ⟨hu, hrow⟩
    exact ⟨e.source, hu, (e.target, e.weight), hrow, rfl⟩

/-- The ends of a relationship exist. -/
theorem lt_of_mem_relationships (h : g.toGraph.IsSound) {e : Relationship α}
    (he : e ∈ g.relationships) : e.source < g.nodeCount ∧ e.target < g.nodeCount := by
  obtain ⟨hu, hrow⟩ := mem_relationships.mp he
  exact ⟨hu, h.inside_weighted hu hrow⟩

/-- There is a relationship to every target of a row. -/
theorem exists_mem_relationships_iff (h : g.toGraph.IsSound) {u t : Nat} :
    (∃ e ∈ g.relationships, e.source = u ∧ e.target = t) ↔
      u < g.nodeCount ∧ t ∈ g.toGraph.row u := by
  constructor
  · rintro ⟨e, he, rfl, rfl⟩
    obtain ⟨hu, hrow⟩ := mem_relationships.mp he
    exact ⟨hu, h.unweighted _ hu Scalar.one ▸ List.mem_map_of_mem hrow⟩
  · rintro ⟨hu, ht⟩
    rw [← h.unweighted u hu Scalar.one] at ht
    obtain ⟨m, hm, rfl⟩ := List.mem_map.mp ht
    exact ⟨⟨u, m.1, m.2⟩, mem_relationships.mpr ⟨hu, hm⟩, rfl, rfl⟩

/-- Both ends of the relationships that `toUndirected` sorts exist. -/
theorem lt_of_mem_bothWays (h : g.toGraph.IsSound) {e : Relationship α}
    (he : e ∈ g.relationships.flatMap fun e => [e, ⟨e.target, e.source, e.weight⟩]) :
    e.source < g.nodeCount ∧ e.target < g.nodeCount := by
  obtain ⟨f, hf, he⟩ := List.mem_flatMap.mp he
  have hlt := lt_of_mem_relationships h hf
  rcases List.mem_pair.mp he with rfl | rfl
  · exact hlt
  · exact hlt.symm

/-- Relationships in both directions keep a graph sound. -/
theorem isSound_toUndirected (h : g.toGraph.IsSound) : g.toUndirected.toGraph.IsSound :=
  isSound_sortRows fun _ he => lt_of_mem_bothWays h he

/-- Relationships in both directions are between the same vertices. -/
@[simp] theorem nodeCount_toUndirected : g.toUndirected.nodeCount = g.nodeCount :=
  nodeCount_sortRows

/-- Relationships of the undirected graph go both ways. -/
theorem mem_row_toUndirected (h : g.toGraph.IsSound) {u v : Nat} (hu : u < g.nodeCount) :
    v ∈ g.toUndirected.toGraph.row u ↔
      v ∈ g.toGraph.row u ∨ (v < g.nodeCount ∧ u ∈ g.toGraph.row v) := by
  have htargets : g.toUndirected.toGraph.targets? u = _ :=
    targets?_sortRows (fun e he => (lt_of_mem_bothWays h he).1) hu
  rw [Graph.row_of_targets? htargets, ← exists_mem_relationships_iff h]
  have hout : v ∈ g.toGraph.row u ↔ ∃ e ∈ g.relationships, e.source = u ∧ e.target = v := by
    rw [exists_mem_relationships_iff h]
    exact (and_iff_right hu).symm
  rw [hout]
  simp only [rowOf, List.mem_map, List.mem_filter, List.mem_flatMap, List.mem_pair,
    decide_eq_true_eq]
  constructor
  · rintro ⟨e, ⟨⟨f, hf, rfl | rfl⟩, rfl⟩, rfl⟩
    · -- the relationship itself was sorted there
      exact .inl ⟨e, hf, rfl, rfl⟩
    · -- its reverse was
      exact .inr ⟨f, hf, rfl, rfl⟩
  · -- both were sorted for each relationship
    rintro (⟨e, he, rfl, rfl⟩ | ⟨e, he, rfl, rfl⟩)
    · exact ⟨e, ⟨⟨e, he, .inl rfl⟩, rfl⟩, rfl⟩
    · exact ⟨⟨e.target, e.source, e.weight⟩, ⟨⟨e, he, .inr rfl⟩, rfl⟩, rfl⟩

end Undirected

end CsrGraph

end Superstep
