import Mathlib
import Superstep.Proofs.Graph.RowTiling

/-!
# Ways to make a graph

A row of a sorted graph has the relationships of its vertex in the order in which they were given,
and every cell of the arrays is written once. An adjacency list, relationships in any order that
keeps the order within a row, and offsets with targets are three ways to say the same: the graphs
that they make are equal, so that no question tells them apart. And whether a traversal hands over
weights makes no difference to how far it gets.

## Key results

- `CsrGraph.exists_error_ofWeightedEdges_iff`, `CsrGraph.stable_of_ofWeightedEdges`: what a sorted
  graph is made of, and its rows
- `CsrGraph.HasRows.ext`: rows that start at zero say all there is to say
- `CsrGraph.sortRows_eq_ofRows`, `CsrGraph.ofParts_prefixSums`: the three ways agree
- `Graph.IsSound.visitWeightedTargets_eq`: traversals with and without weights
-/

namespace Superstep

variable {α : Type}

/-! ## Traversals -/

/-- Visiting what the items are mapped to is visiting the items. -/
theorem visit_map {β γ σ : Type} (f : γ → β) (consumer : σ → β → σ × Bool) (s : σ)
    (items : List γ) :
    visit consumer s (items.map f) = visit (fun s c => consumer s (f c)) s items := by
  induction items generalizing s with
  | nil => rfl
  | cons c items ih =>
    rw [List.map_cons, visit, visit]
    rcases consumer s (f c) with ⟨s', _ | _⟩
    · rfl
    · exact ih s'

/-- A consumer that does not look at weights cannot tell whether it is handed any. -/
theorem Graph.IsSound.visitWeightedTargets_eq {g : Graph α} (h : g.IsSound) {v : Nat}
    (hv : v < g.nodeCount) {σ : Type} (fallback : α) (consumer : σ → Nat → σ × Bool) (s : σ) :
    g.visitWeightedTargets fallback v (fun s m => consumer s m.1) s
      = g.visitTargets v consumer s := by
  rw [visitWeightedTargets, visitTargets, Graph.weightedTargets, Graph.targets, h.weighted v hv,
    h.targets v hv, ← h.unweighted v hv fallback]
  exact congrArg Except.ok (visit_map Prod.fst consumer s _).symm

namespace CsrGraph

open CountingSort

variable {g g' : CsrGraph α} {n v : Nat}

/-- No consumer can tell the traversals apart, whichever vertex is asked for. -/
theorem visitWeightedTargets_eq (h : g.toGraph.IsSound) (v : Nat) {σ : Type} (fallback : α)
    (consumer : σ → Nat → σ × Bool) (s : σ) :
    g.toGraph.visitWeightedTargets fallback v (fun s m => consumer s m.1) s
      = g.toGraph.visitTargets v consumer s := by
  by_cases hv : v < g.nodeCount
  · exact h.visitWeightedTargets_eq hv fallback consumer s
  · -- both traversals reject a vertex that does not exist
    have hnone : g.bounds? v = none := if_neg hv
    have htargets : g.toGraph.targets? v = none := congrArg (Option.map _) hnone
    have hweighted : g.toGraph.weightedTargets? fallback v = none := congrArg (Option.map _) hnone
    rw [Graph.visitWeightedTargets, Graph.visitTargets, Graph.weightedTargets, Graph.targets,
      htargets, hweighted]
    rfl

/-! ## Sorted rows -/

/-- What fails is what does not succeed. -/
theorem exists_error_iff {x : Except Violation (CsrGraph α)} :
    (∃ violation, x = .error violation) ↔ ∀ g, x ≠ .ok g := by
  cases x <;> simp

section Sorted

variable [Scalar α] {edges : List (Relationship α)}

/-- Sorting fails exactly if a relationship has an end that does not exist. -/
theorem exists_error_ofWeightedEdges_iff :
    (∃ violation, ofWeightedEdges n edges = .error violation) ↔
      ∃ e ∈ edges, n ≤ e.source ∨ n ≤ e.target := by
  simp only [exists_error_iff, ne_eq, ofWeightedEdges_eq_ok_iff, not_and]
  constructor
  · intro h
    by_contra hnone
    refine h _ (fun e he => ?_) rfl
    simp only [not_exists, not_and, not_or, Nat.not_le] at hnone
    exact hnone e he
  · rintro ⟨e, he, hout⟩ g hedges
    have hlt := hedges e he
    omega

/-- Rows have the relationships of their vertices in the order in which they were given, and every
cell is written once. -/
structure Stable (n : Nat) (edges : List (Relationship α)) (g : CsrGraph α) : Prop where
  nodeCount : g.nodeCount = n
  size_targets : g.targets.size = edges.length
  size_weights : g.weights.map Array.size = some edges.length
  places : (positions (rowOffsets n edges) edges).Perm (List.range edges.length)
  degree : ∀ u, u < n → g.degree? u = some (edges.filter (·.source = u)).length
  row : ∀ u, u < n → g.targets? u = some ((edges.filter (·.source = u)).map (·.target))
  weightedRow : ∀ u, u < n → ∀ fallback, g.weightedTargets? fallback u
    = some ((edges.filter (·.source = u)).map fun e => (e.target, e.weight))

/-- Whatever was sorted has stable rows. -/
theorem stable_of_ofWeightedEdges (h : ofWeightedEdges n edges = .ok g) : Stable n edges g := by
  obtain ⟨hedges, rfl⟩ := ofWeightedEdges_eq_ok_iff.mp h
  have hsource : ∀ e ∈ edges, e.source < n := fun e he => (hedges e he).1
  refine ⟨nodeCount_sortRows, relationshipCount_sortRows, ?_, perm_positions hsource,
    fun u hu => degree?_sortRows hu, fun u hu => targets?_sortRows hsource hu,
    fun u hu fallback => weightedTargets?_sortRows hsource hu fallback⟩
  exact congrArg some ((size_scatter _ _).trans Array.size_replicate)

end Sorted

/-! ## Rows say all there is to say -/

/-- The degree of a vertex is the length of its row. -/
theorem HasRows.degree?_eq (h : g.HasRows) (hv : v < g.nodeCount) :
    g.degree? v = (g.targets? v).map List.length := by
  have hstop : g.rowStart (v + 1) ≤ g.targets.toList.length := h.le_relationshipCount hv
  rw [degree?_of_lt hv, targets?_of_lt hv, Option.map_some, List.extract_eq_take_drop,
    List.length_take, List.length_drop, Nat.min_eq_left (Nat.sub_le_sub_right hstop _)]

/-- Two graphs with the same rows, the first of which starts at zero, have the same arrays. -/
theorem HasRows.ext (h : g.HasRows) (h' : g'.HasRows) (hstart : g.rowStart 0 = 0)
    (hstart' : g'.rowStart 0 = 0) (hcount : g.nodeCount = g'.nodeCount)
    (hrows : ∀ v, v < g.nodeCount → g.targets? v = g'.targets? v) :
    g.offsets = g'.offsets ∧ g.targets = g'.targets := by
  -- rows of the same lengths start at the same places
  have hdegrees : ∀ v, v < g.nodeCount → g.degree? v = g'.degree? v := fun v hv => by
    rw [h.degree?_eq hv, h'.degree?_eq (hcount ▸ hv), hrows v hv]
  have hstarts : ∀ k, k ≤ g.nodeCount → g.rowStart k = g'.rowStart k := by
    intro k hk
    rw [← h.sum_degree hk, ← h'.sum_degree (hcount ▸ hk), hstart, hstart']
    congr 2
    refine List.map_congr_left fun v hv => ?_
    rw [hdegrees v ((List.mem_range.mp hv).trans_le hk)]
  constructor
  · -- the offsets are the places where rows start
    refine Array.ext (by rw [h.size_offsets, h'.size_offsets, hcount]) fun k hk hk' => ?_
    have heq := hstarts k (by rw [h.size_offsets] at hk; omega)
    rwa [rowStart, rowStart, Array.getD_eq_getD_getElem?, Array.getD_eq_getD_getElem?,
      Array.getElem?_eq_getElem hk, Array.getElem?_eq_getElem hk'] at heq
  · -- the targets are the rows one after the other
    have htargets : ∀ {g : CsrGraph α}, g.HasRows → g.rowStart 0 = 0 → g.targets.toList
        = (List.range g.nodeCount).flatMap fun v => (g.targets? v).getD [] := by
      intro g h hstart
      rw [h.flatMap_targets le_rfl, hstart, h.last, List.extract_eq_take_drop, List.drop_zero]
      exact (List.take_of_length_le le_rfl).symm
    refine Array.toList_inj.mp ?_
    rw [htargets h hstart, htargets h' hstart', ← hcount]
    refine List.flatMap_congr fun v hv => ?_
    rw [hrows v (List.mem_range.mp hv)]

/-! ## Three ways to give rows -/

section Given

variable {rows : List (List Nat)} {pairs : List (Nat × Nat)}

/-- The row of a vertex is the one that was given for it. -/
theorem targets?_ofRows (hv : v < rows.length) :
    (ofRows rows : CsrGraph α).targets? v = some rows[v] := by
  have hv' : v < (ofRows rows : CsrGraph α).nodeCount := by rwa [nodeCount_ofRows]
  rw [targets?_of_lt hv', rowStart_ofRows hv.le, rowStart_ofRows hv, List.extract_eq_drop_take']
  exact congrArg some (List.drop_take_succ_flatten_eq_getElem rows v hv)

/-- The pairs are the rows, in an order in which the targets of a vertex stand as in its row. -/
def Lists (rows : List (List Nat)) (pairs : List (Nat × Nat)) : Prop :=
  ∀ u, (pairs.filter (·.1 = u)).map Prod.snd = rows.getD u []

/-- The number of targets in the first rows, for each number of rows. -/
def prefixSums (rows : List (List Nat)) : List Nat :=
  (List.range (rows.length + 1)).map fun u => ((rows.take u).map List.length).sum

/-- A target is in the row of a vertex if the pair of both is listed. -/
theorem Lists.mem (h : Lists rows pairs) {u t : Nat} :
    (u, t) ∈ pairs ↔ ∃ hu : u < rows.length, t ∈ rows[u] := by
  have hmem : (u, t) ∈ pairs ↔ t ∈ (pairs.filter (·.1 = u)).map Prod.snd := by simp
  rw [hmem, h u, List.getD_eq_getElem?_getD]
  by_cases hu : u < rows.length
  · simp [hu]
  · simp [hu]

/-- The pairs are between vertices that exist exactly if the targets in rows are. -/
theorem Lists.inside_iff (h : Lists rows pairs) :
    (∀ e ∈ pairs, e.1 < rows.length ∧ e.2 < rows.length) ↔
      ∀ row ∈ rows, ∀ t ∈ row, t < rows.length := by
  constructor
  · intro hpairs row hrow t ht
    obtain ⟨u, hu, rfl⟩ := List.getElem_of_mem hrow
    exact (hpairs (u, t) (h.mem.mpr ⟨hu, ht⟩)).2
  · rintro hrows ⟨u, t⟩ he
    obtain ⟨hu, ht⟩ := h.mem.mp he
    exact ⟨hu, hrows rows[u] (List.getElem_mem hu) t ht⟩

/-- Sorting the pairs makes the graph of the rows. -/
theorem sortRows_eq_ofRows [Scalar α] (h : Lists rows pairs)
    (hinside : ∀ e ∈ pairs, e.1 < rows.length ∧ e.2 < rows.length) :
    sortRows rows.length (pairs.map fun (s, t) => ⟨s, t, Scalar.one⟩) false none
      = (ofRows rows : CsrGraph α) := by
  have hsource : ∀ e ∈ pairs.map fun (s, t) => (⟨s, t, Scalar.one⟩ : Relationship α),
      e.source < rows.length := List.forall_mem_map.mpr fun e he => (hinside e he).1
  -- both start at zero and have the same rows
  obtain ⟨hoffsets, htargets⟩ := (@hasRows_sortRows _ _ _ false none _ hsource).ext
    hasRows_ofRows rowStart_zero_sortRows (rowStart_ofRows (Nat.zero_le _))
    (by rw [nodeCount_sortRows, nodeCount_ofRows]) fun v hv => by
      rw [nodeCount_sortRows] at hv
      rw [targets?_sortRows hsource hv, targets?_ofRows hv, rowOf, List.filter_map, List.map_map]
      refine congrArg some ((h v).trans ?_)
      rw [List.getD_eq_getElem?_getD, List.getElem?_eq_getElem hv, Option.getD_some]
  exact congrArg₂ (fun a b => (⟨a, b, none, none⟩ : CsrGraph α)) hoffsets htargets

/-- Prefix sums and targets make the graph of the rows if the targets exist. -/
theorem ofParts_prefixSums {g : CsrGraph α} : ofParts (prefixSums rows) rows.flatten = .ok g ↔
    (∀ row ∈ rows, ∀ t ∈ row, t < rows.length) ∧ ofRows rows = g := by
  have hsums : prefixSums rows = runningSums 0 (rows.map List.length) := by
    simp [prefixSums, runningSums_eq, List.map_take]
  -- prefix sums pass the checks on offsets, which leaves that on targets
  have hascend : (prefixSums rows).Pairwise (· ≤ ·) := by
    refine List.pairwise_map.mpr (List.pairwise_lt_range.imp fun huv => ?_)
    exact ((List.take_sublist_take_left huv.le).map _).sum_le_sum fun _ _ => Nat.zero_le _
  have hlast : (prefixSums rows).getLast? = some rows.flatten.length := by
    rw [prefixSums, List.range_succ, List.map_append, List.map_singleton, List.getLast?_concat,
      List.take_length, List.length_flatten]
  have hlength : (prefixSums rows).length - 1 = rows.length := by simp [prefixSums]
  rw [ofParts_eq_ok_iff, hlength, ofRows, ← hsums]
  simp only [hascend, hlast, true_and, List.mem_flatten]
  refine and_congr_left' ⟨fun h row hrow t ht => h t ⟨row, hrow, ht⟩, ?_⟩
  rintro h t ⟨row, hrow, ht⟩
  exact h row hrow t ht

/-- The pairs make the graph of the rows if the targets exist. -/
theorem ofEdges_eq_ok_iff_of_lists [Scalar α] (h : Lists rows pairs) :
    ofEdges rows.length pairs = .ok g ↔
      (∀ row ∈ rows, ∀ t ∈ row, t < rows.length) ∧ ofRows rows = g := by
  rw [ofEdges_eq_ok_iff, h.inside_iff]
  refine and_congr_right fun hinside => ?_
  rw [sortRows_eq_ofRows h (h.inside_iff.mpr hinside)]

end Given

end CsrGraph

/-- Sorting relationships fails exactly if one of them has an end that does not exist, and the rows
of the graph are stable otherwise. An adjacency list, its relationships one by one and its prefix
sums with its targets make the same graph, if its targets exist, and none otherwise. And for any
graph that callers can make, traversals with and without weights go equally far. -/
theorem rows_of_constructors {α : Type} [Scalar α] (n : Nat) (edges : List (Relationship α))
    {rows : List (List Nat)} {pairs : List (Nat × Nat)} (hlists : CsrGraph.Lists rows pairs)
    {made : CsrGraph α} (hmade : made.Obtainable) :
    (((∃ violation, CsrGraph.ofWeightedEdges n edges = .error violation) ↔
        ∃ e ∈ edges, n ≤ e.source ∨ n ≤ e.target) ∧
      ((∀ e ∈ edges, e.source < n ∧ e.target < n) →
        ∃ g, CsrGraph.ofWeightedEdges n edges = .ok g ∧ CsrGraph.Stable n edges g)) ∧
    (((∃ g : CsrGraph α, CsrGraph.ofAdjacency rows = .ok g) ↔
        ∀ row ∈ rows, ∀ t ∈ row, t < rows.length) ∧
      ∀ g : CsrGraph α,
        (CsrGraph.ofEdges rows.length pairs = .ok g ↔ CsrGraph.ofAdjacency rows = .ok g) ∧
        (CsrGraph.ofParts (CsrGraph.prefixSums rows) rows.flatten = .ok g ↔
          CsrGraph.ofAdjacency rows = .ok g) ∧
        (CsrGraph.ofAdjacency rows = .ok g →
          ∀ (u : Nat) (hu : u < rows.length), g.targets? u = some rows[u])) ∧
    ∀ (v : Nat) {σ : Type} (fallback : α) (consumer : σ → Nat → σ × Bool) (s : σ),
      made.toGraph.visitWeightedTargets fallback v (fun s m => consumer s m.1) s
        = made.toGraph.visitTargets v consumer s := by
  refine ⟨⟨CsrGraph.exists_error_ofWeightedEdges_iff, fun hedges => ?_⟩,
    ⟨?_, fun g => ⟨?_, ?_, ?_⟩⟩, fun v {σ} => CsrGraph.visitWeightedTargets_eq hmade.isSound v⟩
  · -- the relationships are accepted
    have hok := CsrGraph.ofWeightedEdges_eq_ok_iff.mpr ⟨hedges, rfl⟩
    exact ⟨_, hok, CsrGraph.stable_of_ofWeightedEdges hok⟩
  · constructor
    · rintro ⟨g, hg⟩
      exact (CsrGraph.ofAdjacency_eq_ok_iff.mp hg).1
    · exact fun hinside => ⟨_, CsrGraph.ofAdjacency_eq_ok_iff.mpr ⟨hinside, rfl⟩⟩
  · -- one by one
    rw [CsrGraph.ofEdges_eq_ok_iff_of_lists hlists, CsrGraph.ofAdjacency_eq_ok_iff]
  · -- by offsets
    rw [CsrGraph.ofParts_prefixSums, CsrGraph.ofAdjacency_eq_ok_iff]
  · intro hg u hu
    obtain ⟨-, rfl⟩ := CsrGraph.ofAdjacency_eq_ok_iff.mp hg
    exact CsrGraph.targets?_ofRows hu

/-- Parallel relationships, a row without any, and relationships of different vertices mixed; and a
consumer that stops a traversal at once. -/
theorem rows_of_constructors_mixed :
    (∃ g : CsrGraph Float, CsrGraph.ofWeightedEdges 3
        [⟨2, 0, 0.5⟩, ⟨0, 1, 2.5⟩, ⟨2, 2, 1.0⟩, ⟨0, 1, 1.5⟩] = .ok g ∧
      g.weightedTargets? 0.0 0 = some [(1, 2.5), (1, 1.5)] ∧ g.degree? 1 = some 0) ∧
    (∃ g : CsrGraph Float, CsrGraph.ofAdjacency [[2, 1], [], [0, 1]] = .ok g ∧
      CsrGraph.ofEdges 3 [(2, 0), (0, 2), (0, 1), (2, 1)] = .ok g ∧
      CsrGraph.ofParts [0, 2, 2, 4] [2, 1, 0, 1] = .ok g) ∧
    ∃ g : CsrGraph Float, CsrGraph.ofEdges 2 [(0, 1), (0, 0)] = .ok g ∧
      g.toGraph.visitWeightedTargets 9.0 0 (fun seen m => (seen ++ [m.1], false)) []
        = g.toGraph.visitTargets 0 (fun seen t => (seen ++ [t], false)) [] := by
  have hlists : CsrGraph.Lists [[2, 1], [], [0, 1]] [(2, 0), (0, 2), (0, 1), (2, 1)] := by
    intro u
    rcases u with _ | _ | _ | u <;> simp
  have hmade : CsrGraph.ofEdges 2 [(0, 1), (0, 0)]
      = .ok (⟨#[0, 2, 2], #[1, 0], none, none⟩ : CsrGraph Float) := rfl
  obtain ⟨⟨-, hsorted⟩, ⟨hgiven, hsame⟩, htraversal⟩ := rows_of_constructors (n := 3)
    [⟨2, 0, 0.5⟩, ⟨0, 1, 2.5⟩, ⟨2, 2, 1.0⟩, ⟨0, 1, 1.5⟩] hlists (.edges hmade)
  obtain ⟨g, hg, hstable⟩ := hsorted (by decide)
  obtain ⟨g', hg'⟩ := hgiven.mpr (by decide)
  obtain ⟨hedges, hparts, -⟩ := hsame g'
  exact ⟨⟨g, hg, hstable.weightedRow 0 (by decide) 0.0, hstable.degree 1 (by decide)⟩,
    ⟨g', hg', hedges.mpr hg', hparts.mpr hg'⟩, _, hmade,
    htraversal 0 9.0 (fun seen t => (seen ++ [t], false)) []⟩

end Superstep
