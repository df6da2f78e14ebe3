import Mathlib
import Superstep.Proofs.Exact
import Superstep.Proofs.Graph.RowTiling

/-!
# Relationships in both directions

A graph with relationships in both directions has every relationship of the first graph and its
reverse, with the same weight and as often. Counted by weight, relationships between two vertices
are the relationships of the first graph from one to the other and back, so that a loop counts
twice. Doing it again doubles every number.

## Key results

- `CsrGraph.weightsBetween_toUndirected`: the weights between two vertices, in some order
- `CsrGraph.multiplicity_toUndirectedTimes`: doing it several times
- `reverse_relationships_added`: both, and what stays as it is
-/

namespace Superstep

variable {α : Type}

namespace Graph

/-- The weights of the relationships from one vertex to another. -/
def weightsBetween (g : Graph α) (fallback : α) (u v : Nat) : List α :=
  ((g.weightedRow fallback u).filter (·.1 = v)).map Prod.snd

/-- The number of relationships of a weight from one vertex to another. Without weights of its own,
every relationship has the given one. -/
def multiplicity [BEq α] (g : Graph α) (fallback : α) (u v : Nat) (weight : α) : Nat :=
  (g.weightsBetween fallback u v).count weight

end Graph

namespace CsrGraph

open CountingSort

variable {g : CsrGraph α} {fallback : α} {u v : Nat}

/-! ## Relationships between two vertices -/

/-- The relationship in the other direction. -/
def reverse (e : Relationship α) : Relationship α := ⟨e.target, e.source, e.weight⟩

/-- The relationships from one vertex to another. -/
def between (u v : Nat) (edges : List (Relationship α)) : List (Relationship α) :=
  (rowOf u edges).filter (·.target = v)

/-- The weight of a relationship as a traversal tells it. -/
def shownWeight (weighted : Bool) (fallback : α) (e : Relationship α) : α :=
  if weighted then e.weight else fallback

/-- The reverses from `u` to `v` are those of the relationships from `v` to `u`. -/
theorem between_map_reverse (edges : List (Relationship α)) :
    between u v (edges.map reverse) = (between v u edges).map reverse := by
  simp only [between, rowOf, List.filter_map, List.filter_filter]
  refine congrArg _ (List.filter_congr fun e _ => ?_)
  exact Bool.and_comm _ _

/-- Relationships between two vertices may be picked from two lists. -/
theorem between_append (edges edges' : List (Relationship α)) :
    between u v (edges ++ edges') = between u v edges ++ between u v edges' := by
  simp only [between, rowOf, List.filter_append]

/-- Each relationship followed by its reverse are, in another order, the relationships and the
reverses of all. -/
theorem bothWays_perm (edges : List (Relationship α)) :
    (edges.flatMap fun e => [e, reverse e]).Perm (edges ++ edges.map reverse) := by
  have hperm := List.flatMap_append_perm edges (fun e => [e]) fun e => [reverse e]
  rw [List.flatMap_singleton', ← List.map_eq_flatMap] at hperm
  exact hperm.symm

/-! ## Rows by relationships -/

/-- Of all vertices only `u` contributes, if it exists. -/
theorem flatMap_range_ite {β : Type} (n u : Nat) (items : List β) :
    ((List.range n).flatMap fun a => if a = u then items else [])
      = if u < n then items else [] := by
  induction n with
  | zero => rfl
  | succ n ih =>
    rw [List.range_succ, List.flatMap_append, ih, List.flatMap_singleton]
    -- found before, found now, or not yet
    rcases Nat.lt_trichotomy u n with hlt | rfl | hgt
    · rw [if_pos hlt, if_neg hlt.ne', if_pos (by omega), List.append_nil]
    · rw [if_neg (lt_irrefl u), if_pos rfl, if_pos u.lt_succ_self, List.nil_append]
    · rw [if_neg hgt.not_gt, if_neg hgt.ne, if_neg (by omega), List.nil_append]

/-- A vertex that does not exist has no row. -/
theorem weightedRow_of_le (hu : g.nodeCount ≤ u) : g.toGraph.weightedRow fallback u = [] := by
  have hnone : g.bounds? u = none := if_neg hu.not_gt
  have hweighted : g.toGraph.weightedTargets? fallback u = none := congrArg (Option.map _) hnone
  rw [Graph.weightedRow, hweighted, Option.getD_none]

/-- The weights between two vertices are those of the relationships that the row was made of. -/
theorem weightsBetween_of_weightedRow {edges : List (Relationship α)} {weighted : Bool}
    (h : g.toGraph.weightedRow fallback u
      = (rowOf u edges).map fun e => (e.target, shownWeight weighted fallback e)) :
    g.toGraph.weightsBetween fallback u v
      = (between u v edges).map (shownWeight weighted fallback) := by
  rw [Graph.weightsBetween, h, between, List.filter_map, List.map_map]
  rfl

variable [Scalar α]

/-- A sorted row has the relationships of its vertex. -/
theorem weightedRow_sortRows {n : Nat} {edges : List (Relationship α)} {weighted : Bool}
    {ids : Option IdTable} (h : ∀ e ∈ edges, e.source < n) :
    (sortRows n edges weighted ids).toGraph.weightedRow fallback u
      = (rowOf u edges).map fun e => (e.target, shownWeight weighted fallback e) := by
  -- a vertex that does not exist is the source of nothing
  by_cases hu : u < n
  · exact Graph.weightedRow_of_weightedTargets? (weightedTargets?_sortRows h hu fallback)
  · have hnone : rowOf u edges = [] :=
      List.filter_eq_nil_iff.mpr fun e he => by simpa using ((h e he).trans_le (not_lt.mp hu)).ne
    rw [weightedRow_of_le (by rw [nodeCount_sortRows]; exact not_lt.mp hu), hnone, List.map_nil]

/-- Of all relationships, those of a vertex are its row. -/
theorem rowOf_relationships : rowOf u g.relationships
    = (g.toGraph.weightedRow Scalar.one u).map fun m => ⟨u, m.1, m.2⟩ := by
  -- what is listed for a vertex is taken as a whole or not at all
  have hrow (a : Nat) : ((g.toGraph.weightedRow Scalar.one a).map
      fun m => (⟨a, m.1, m.2⟩ : Relationship α)).filter (·.source = u)
        = if a = u then (g.toGraph.weightedRow Scalar.one u).map fun m => ⟨u, m.1, m.2⟩
          else [] := by
    split
    · rename_i heq
      rw [heq]
      exact List.filter_eq_self.mpr (List.forall_mem_map.mpr fun _ _ => decide_eq_true rfl)
    · rename_i hne
      refine List.filter_eq_nil_iff.mpr (List.forall_mem_map.mpr fun _ _ => ?_)
      rwa [decide_eq_true_eq]
  change List.filter _ ((List.range g.nodeCount).flatMap fun a =>
    (g.toGraph.weightedRow Scalar.one a).map fun m => (⟨a, m.1, m.2⟩ : Relationship α)) = _
  rw [List.filter_flatMap]
  simp only [hrow]
  rw [flatMap_range_ite]
  split
  · rfl
  · rename_i hu
    rw [weightedRow_of_le (not_lt.mp hu), List.map_nil]

/-- A row tells the relationships of its vertex. The weights in their list are those of the graph
if it has any. -/
theorem weightedRow_eq : g.toGraph.weightedRow fallback u = (rowOf u g.relationships).map
    fun e => (e.target, shownWeight g.weights.isSome fallback e) := by
  have hanswer (w : α) : g.toGraph.weightedRow w u = (g.weightedTargets? w u).getD [] := rfl
  rw [rowOf_relationships, List.map_map, hanswer, hanswer, weightedTargets?, weightedTargets?]
  -- no such vertex, or a row between two offsets
  rcases g.bounds? u with _ | ⟨start, stop⟩
  · rfl
  · rw [Option.map_some, Option.map_some, Option.getD_some, Option.getD_some]
    cases g.weights with
    | none =>
      -- in the list every relationship weighs one, which is not shown
      dsimp only
      rw [List.map_map]
      rfl
    | some weights => exact (List.map_id _).symm

/-! ## Both directions -/

/-- Between two vertices are the relationships of the first graph from one to the other and back. -/
theorem weightsBetween_toUndirected (h : g.toGraph.IsSound) (fallback : α) (u v : Nat) :
    (g.toUndirected.toGraph.weightsBetween fallback u v).Perm
      (g.toGraph.weightsBetween fallback u v ++ g.toGraph.weightsBetween fallback v u) := by
  have hsorted : g.toUndirected.toGraph.weightsBetween fallback u v
      = (between u v (g.relationships.flatMap fun e => [e, reverse e])).map
        (shownWeight g.weights.isSome fallback) :=
    weightsBetween_of_weightedRow (weightedRow_sortRows fun e he => (lt_of_mem_bothWays h he).1)
  -- a relationship shows the same weight in the other direction
  have hback : ((between v u g.relationships).map reverse).map
      (shownWeight g.weights.isSome fallback)
        = (between v u g.relationships).map (shownWeight g.weights.isSome fallback) :=
    List.map_map
  rw [hsorted, weightsBetween_of_weightedRow weightedRow_eq,
    weightsBetween_of_weightedRow weightedRow_eq, ← hback, ← between_map_reverse, ← List.map_append,
    ← between_append]
  -- the order in which both directions are sorted in does not matter here
  exact (((bothWays_perm g.relationships).filter _).filter _).map _

section Counting

variable [BEq α] {weight : α}

/-- Relationships in both directions are counted there and back. -/
theorem multiplicity_toUndirected (h : g.toGraph.IsSound) :
    g.toUndirected.toGraph.multiplicity fallback u v weight
      = g.toGraph.multiplicity fallback u v weight + g.toGraph.multiplicity fallback v u weight :=
  ((weightsBetween_toUndirected h fallback u v).count_eq weight).trans List.count_append

/-- In both directions there are as many. -/
theorem multiplicity_toUndirected_comm (h : g.toGraph.IsSound) :
    g.toUndirected.toGraph.multiplicity fallback u v weight
      = g.toUndirected.toGraph.multiplicity fallback v u weight := by
  rw [multiplicity_toUndirected h, multiplicity_toUndirected h, Nat.add_comm]

/-- Each time but the first, numbers double. -/
theorem multiplicity_toUndirectedTimes (h : g.toGraph.IsSound) (k : Nat) :
    (g.toUndirectedTimes (k + 1)).toGraph.multiplicity fallback u v weight
      = 2 ^ k * g.toUndirected.toGraph.multiplicity fallback u v weight := by
  induction k generalizing g with
  | zero => exact (Nat.one_mul _).symm
  | succ k ih =>
    -- by the second time, relationships go both ways already
    have hsound := isSound_toUndirected h
    rw [toUndirectedTimes, ih hsound, multiplicity_toUndirected hsound,
      multiplicity_toUndirected_comm h (u := v), Nat.pow_succ, Nat.mul_assoc, Nat.two_mul]

/-- A graph has the relationships of another one and their reverses, and is otherwise the same. -/
structure AddsReverses (g' g : CsrGraph α) : Prop where
  multiplicity : ∀ fallback u v weight, g'.toGraph.multiplicity fallback u v weight
    = g.toGraph.multiplicity fallback u v weight + g.toGraph.multiplicity fallback v u weight
  symmetric : ∀ fallback u v weight, g'.toGraph.multiplicity fallback u v weight
    = g'.toGraph.multiplicity fallback v u weight
  hasWeights : g'.toGraph.hasWeights = g.toGraph.hasWeights
  nodeCount : g'.nodeCount = g.nodeCount
  externalId? : ∀ v, g'.externalId? v = g.externalId? v
  denseId? : ∀ id, g'.denseId? id = g.denseId? id

/-- Relationships in both directions are those of the graph and their reverses. -/
theorem addsReverses_toUndirected (h : g.toGraph.IsSound) : g.toUndirected.AddsReverses g where
  multiplicity _ _ _ _ := multiplicity_toUndirected h
  symmetric _ _ _ _ := multiplicity_toUndirected_comm h
  hasWeights := by
    change (if g.weights.isSome then some _ else none).isSome = g.weights.isSome
    cases g.weights <;> rfl
  nodeCount := nodeCount_toUndirected
  externalId? v := by
    rw [externalId?, nodeCount_toUndirected]
    rfl
  denseId? id := by
    rw [denseId?, nodeCount_toUndirected]
    rfl

end Counting

end CsrGraph

/-- With relationships in both directions, a graph that callers can make has its relationships and
their reverses, counted by weight in any sense in which weights are the same. Each further time
doubles what is there. -/
theorem reverse_relationships_added {α : Type} [Scalar α] [BEq α] {g : CsrGraph α}
    (h : g.Obtainable) : g.toUndirected.AddsReverses g ∧
      ∀ k fallback u v weight,
        (g.toUndirectedTimes (k + 1)).toGraph.multiplicity fallback u v weight
          = 2 ^ k * g.toUndirected.toGraph.multiplicity fallback u v weight :=
  ⟨CsrGraph.addsReverses_toUndirected h.isSound,
    fun k _ _ _ _ => CsrGraph.multiplicity_toUndirectedTimes h.isSound k⟩

/-- A loop, and two relationships of different weight from one vertex to another that has one back.
-/
theorem reverse_relationships_added_loop : ∃ g : CsrGraph Exact,
    CsrGraph.ofWeightedEdges 2 [⟨0, 0, .finite 3⟩, ⟨0, 1, .finite 5⟩, ⟨0, 1, .finite 7⟩,
      ⟨1, 0, .finite 5⟩] = .ok g ∧
    g.toUndirected.toGraph.multiplicity .top 0 0 (.finite 3) = 2 ∧
    g.toUndirected.toGraph.multiplicity .top 1 0 (.finite 5) = 2 ∧
    g.toUndirected.toGraph.multiplicity .top 1 0 (.finite 7) = 1 ∧
    (g.toUndirectedTimes 3).toGraph.multiplicity .top 0 1 (.finite 7) = 4 := by
  have hmade : CsrGraph.ofWeightedEdges 2 [⟨0, 0, .finite 3⟩, ⟨0, 1, .finite 5⟩,
      ⟨0, 1, .finite 7⟩, ⟨1, 0, .finite 5⟩]
        = .ok (⟨#[0, 3, 4], #[0, 1, 1, 0], some #[.finite 3, .finite 5, .finite 7, .finite 5],
          none⟩ : CsrGraph Exact) := rfl
  obtain ⟨hadds, htimes⟩ := reverse_relationships_added (.weightedEdges hmade)
  refine ⟨_, hmade, ?_, ?_, ?_, ?_⟩
  · exact (hadds.multiplicity _ _ _ _).trans (by decide)
  · exact (hadds.multiplicity _ _ _ _).trans (by decide)
  · exact (hadds.multiplicity _ _ _ _).trans (by decide)
  · rw [htimes 2, hadds.multiplicity]
    decide

end Superstep
