import Mathlib
import Superstep.Proofs.Exact
import Superstep.Proofs.Graph.Soundness

/-!
# Vertices and their ids

A graph of relationships between arbitrary ids has one vertex for each id that occurs, and greater
vertices have greater ids. Going from a vertex to its id and back, or from an id to its vertex and
back, ends where it started (`CsrGraph.NumberedBy`). Under their ids, the rows are the relationships
as they were given. With relationships in both directions the rows are others, but the ids stay.

## Key results

- `IdTable.size_ofList`: each id is entered once
- `CsrGraph.numberedBy_ofExternalEdges`, `CsrGraph.NumberedBy.toUndirectedTimes`: vertices and ids
- `CsrGraph.externalRow?_ofExternalEdges`: rows under their ids
- `external_ids_kept`: all of it
-/

namespace Superstep

namespace IdTable

variable {t : IdTable} {v : Nat}

/-- Every vertex of the table has an id. -/
theorem id?_of_lt (hv : v < t.size) : t.id? v = some t.ids[v] := Array.getElem?_eq_getElem hv

/-- Only vertices of the table have one. -/
theorem lt_size_of_id? {id : UInt64} (h : t.id? v = some id) : v < t.size :=
  (Array.getElem?_eq_some_iff.mp h).1

/-- The id of a vertex is one of the table. -/
theorem mem_of_id? {id : UInt64} (h : t.id? v = some id) : id ∈ t.ids := by
  obtain ⟨hv, rfl⟩ := Array.getElem?_eq_some_iff.mp h
  exact Array.getElem_mem hv

/-- Every id of the table belongs to a vertex. -/
theorem exists_id?_of_mem {id : UInt64} (h : id ∈ t.ids) : ∃ v, t.id? v = some id := by
  obtain ⟨v, hv, hget⟩ := Array.mem_iff_getElem.mp h
  exact ⟨v, Array.getElem?_eq_some_iff.mpr ⟨hv, hget⟩⟩

/-- Under an id that is not in the table no vertex is found. -/
theorem node?_eq_none {id : UInt64} (h : id ∉ t.ids) : t.node? id = none := by
  cases hnode : t.node? id with
  | none => rfl
  | some v => exact absurd (mem_of_id? (t.node?_eq_some_iff.mp hnode)) h

/-- The table of a list has as many entries as there are different ids in the list. -/
theorem size_ofList (ids : List UInt64) : (ofList ids).size = ids.toFinset.card := by
  have hnodup : (ascendingIds ids).Nodup := (pairwise_ascendingIds ids).imp UInt64.ne_of_lt
  have hsame : (ascendingIds ids).toFinset = ids.toFinset := by
    ext id
    have hmem : id ∈ (ofList ids).ids ↔ id ∈ ids := mem_ofList
    simpa [ofList] using hmem
  calc (ofList ids).size = (ascendingIds ids).length := by simp [size, ofList]
    _ = (ascendingIds ids).toFinset.card := (List.toFinset_card_of_nodup hnodup).symm
    _ = ids.toFinset.card := by rw [hsame]

end IdTable

namespace CsrGraph

open CountingSort

variable {α : Type} {g : CsrGraph α} {v : Nat}

/-! ## Vertices and ids -/

/-- The ids at the ends of relationships. -/
def endpoints (edges : List (ExternalEdge α)) : List UInt64 :=
  edges.flatMap fun e => [e.source, e.target]

/-- The vertices are numbered in ascending order of the ids in a list. -/
structure NumberedBy (g : CsrGraph α) (ids : List UInt64) : Prop where
  /-- There are as many vertices as different ids. -/
  nodeCount : g.nodeCount = ids.toFinset.card
  /-- Every vertex has one of the ids, under which it is found. -/
  ofVertex : ∀ v, v < g.nodeCount →
    ∃ id ∈ ids, g.externalId? v = some id ∧ g.denseId? id = some v
  /-- Greater vertices have greater ids. -/
  ascending : ∀ u v x y, g.externalId? u = some x → g.externalId? v = some y → u < v → x < y
  /-- Under every id a vertex is found, which has this id. -/
  ofId : ∀ id ∈ ids, ∃ v, v < g.nodeCount ∧ g.denseId? id = some v ∧ g.externalId? v = some id
  /-- Under no other id a vertex is found. -/
  stranger : ∀ id, id ∉ ids → g.denseId? id = none

/-- A graph with a table tells the ids of the table. -/
theorem externalId?_of_table {t : IdTable} (hids : g.ids = some t) (hcount : g.nodeCount = t.size) :
    g.externalId? v = t.id? v := by
  unfold externalId?
  rw [hids, hcount]
  split
  · rfl
  · rename_i hv
    exact (Array.getElem?_eq_none (Nat.not_lt.mp hv)).symm

/-- A graph with a table finds vertices by the table. -/
theorem denseId?_of_table {t : IdTable} (hids : g.ids = some t) (id : UInt64) :
    g.denseId? id = t.node? id := by
  rw [denseId?, hids]

/-- A graph that keeps the table of a list is numbered by the list. -/
theorem numberedBy_of_table {ids : List UInt64} (hids : g.ids = some (IdTable.ofList ids))
    (hcount : g.nodeCount = (IdTable.ofList ids).size) : g.NumberedBy ids where
  nodeCount := hcount.trans (IdTable.size_ofList ids)
  ofVertex v hv := by
    have hid := IdTable.id?_of_lt (hcount ▸ hv : v < (IdTable.ofList ids).size)
    refine ⟨_, IdTable.mem_ofList.mp (IdTable.mem_of_id? hid), ?_, ?_⟩
    · rw [externalId?_of_table hids hcount, hid]
    · rw [denseId?_of_table hids, IdTable.node?_eq_some_iff, hid]
  ascending u v x y hx hy huv := by
    rw [externalId?_of_table hids hcount] at hx hy
    exact IdTable.lt_of_id? _ hx hy huv
  ofId id hid := by
    obtain ⟨v, hv⟩ := IdTable.exists_id?_of_mem (IdTable.mem_ofList.mpr hid)
    refine ⟨v, ?_, ?_, ?_⟩
    · rw [hcount]
      exact IdTable.lt_size_of_id? hv
    · rw [denseId?_of_table hids, IdTable.node?_eq_some_iff, hv]
    · rw [externalId?_of_table hids hcount, hv]
  stranger id hid := by
    rw [denseId?_of_table hids]
    exact IdTable.node?_eq_none fun hmem => hid (IdTable.mem_ofList.mp hmem)

/-- The row of a vertex with the ids of the targets in their place. -/
def externalRow? (g : CsrGraph α) (fallback : α) (v : Nat) :
    Option (List (Option UInt64 × α)) :=
  (g.weightedTargets? fallback v).map fun row => row.map fun (t, w) => (g.externalId? t, w)

variable [Scalar α]

/-- The vertices are numbered by the ids that occur. -/
theorem numberedBy_ofExternalEdges (edges : List (ExternalEdge α)) :
    (ofExternalEdges edges).NumberedBy (endpoints edges) :=
  numberedBy_of_table rfl nodeCount_sortRows

/-- With relationships in both directions a vertex has the same id. -/
theorem externalId?_toUndirected (v : Nat) : g.toUndirected.externalId? v = g.externalId? v := by
  unfold externalId?
  rw [nodeCount_toUndirected]
  rfl

/-- With relationships in both directions, vertices are numbered as before. -/
theorem NumberedBy.toUndirected {ids : List UInt64} (h : g.NumberedBy ids) :
    g.toUndirected.NumberedBy ids := by
  -- vertices and table are the same, and nothing else is asked for
  have hexternal : g.toUndirected.externalId? = g.externalId? := funext externalId?_toUndirected
  have hdense : g.toUndirected.denseId? = g.denseId? := by
    funext id
    unfold denseId?
    rw [nodeCount_toUndirected]
    rfl
  constructor <;> simp only [hexternal, hdense, nodeCount_toUndirected]
  · exact h.nodeCount
  · exact h.ofVertex
  · exact h.ascending
  · exact h.ofId
  · exact h.stranger

/-- However often the directions are added, vertices are numbered as before. -/
theorem NumberedBy.toUndirectedTimes {ids : List UInt64} (h : g.NumberedBy ids) (k : Nat) :
    (g.toUndirectedTimes k).NumberedBy ids := by
  induction k generalizing g with
  | zero => exact h
  | succ k ih => exact ih h.toUndirected

/-! ## Rows under their ids -/

/-- The weight that a graph of these relationships tells of one of them: if none has a weight, the
graph has none either, and if some have, the others weigh one. -/
def toldWeight (edges : List (ExternalEdge α)) (fallback : α) (e : ExternalEdge α) : α :=
  if edges.any (·.weight.isSome) then e.weight.getD Scalar.one else fallback

/-- The vertex of an id that occurs is the one that has it. -/
theorem getD_node?_eq_iff {t : IdTable} {id x : UInt64} (hid : id ∈ t.ids) (hv : t.id? v = some x) :
    (t.node? id).getD 0 = v ↔ id = x := by
  obtain ⟨u, hu⟩ := IdTable.exists_id?_of_mem hid
  rw [t.node?_eq_some_iff.mpr hu, Option.getD_some]
  constructor
  · rintro rfl
    exact Option.some.inj (hu.symm.trans hv)
  · rintro rfl
    exact t.id?_inj hu hv

/-- The relationships of a vertex are those that name its id as their source. -/
theorem rowOf_denseEdges {edges : List (ExternalEdge α)} {id : UInt64}
    (hv : (idTable edges).id? v = some id) : rowOf v (denseEdges edges)
      = (edges.filter (·.source = id)).map fun e => ⟨((idTable edges).node? e.source).getD 0,
        ((idTable edges).node? e.target).getD 0, e.weight.getD Scalar.one⟩ := by
  unfold rowOf denseEdges
  rw [List.filter_map]
  congr 1
  refine List.filter_congr fun e he => ?_
  have hsource : e.source ∈ (idTable edges).ids :=
    IdTable.mem_ofList.mpr (List.mem_flatMap.mpr ⟨e, he, by simp⟩)
  simp [getD_node?_eq_iff hsource hv]

/-- Under its ids, a row has the relationships with its source as they were given. -/
theorem externalRow?_ofExternalEdges (edges : List (ExternalEdge α)) (fallback : α) {id : UInt64}
    (hv : (ofExternalEdges edges).externalId? v = some id) :
    (ofExternalEdges edges).externalRow? fallback v = some ((edges.filter (·.source = id)).map
      fun e => (some e.target, toldWeight edges fallback e)) := by
  have hcount : (ofExternalEdges edges).nodeCount = (idTable edges).size := nodeCount_sortRows
  have hexternal (u : Nat) : (ofExternalEdges edges).externalId? u = (idTable edges).id? u :=
    externalId?_of_table rfl hcount
  have hlt : v < (idTable edges).size := by
    rw [hexternal] at hv
    exact IdTable.lt_size_of_id? hv
  have hrow : (ofExternalEdges edges).weightedTargets? fallback v = some ((rowOf v
      (denseEdges edges)).map fun e => (e.target,
        if edges.any (·.weight.isSome) then e.weight else fallback)) :=
    weightedTargets?_sortRows (fun e he => (lt_of_mem_denseEdges he).1) hlt fallback
  unfold externalRow?
  rw [hrow, Option.map_some, rowOf_denseEdges (hexternal v ▸ hv), List.map_map, List.map_map]
  refine congrArg some (List.map_congr_left fun e he => ?_)
  -- the target occurs, so that its vertex has it as its id
  have htarget : e.target ∈ (idTable edges).ids :=
    IdTable.mem_ofList.mpr (List.mem_flatMap.mpr ⟨e, List.mem_of_mem_filter he, by simp⟩)
  obtain ⟨t, ht⟩ := IdTable.exists_id?_of_mem htarget
  have hnode : (idTable edges).node? e.target = some t := (IdTable.node?_eq_some_iff _).mpr ht
  simp [hexternal, hnode, ht, toldWeight]

end CsrGraph

/-- The graph of relationships between ids has a vertex for each different id, in ascending order,
and the ids can be told from the vertices and the vertices from the ids. Under their ids the rows
are the relationships as they were given. With relationships in both directions, however often, the
ids of the vertices are the same. -/
theorem external_ids_kept {α : Type} [Scalar α] (edges : List (CsrGraph.ExternalEdge α)) :
    (∀ k, ((CsrGraph.ofExternalEdges edges).toUndirectedTimes k).NumberedBy
      (CsrGraph.endpoints edges)) ∧
    ∀ v id, (CsrGraph.ofExternalEdges edges).externalId? v = some id → ∀ fallback : α,
      (CsrGraph.ofExternalEdges edges).externalRow? fallback v
        = some ((edges.filter (·.source = id)).map
          fun e => (some e.target, CsrGraph.toldWeight edges fallback e)) := by
  constructor
  · exact (CsrGraph.numberedBy_ofExternalEdges edges).toUndirectedTimes
  · intro v id hv fallback
    exact CsrGraph.externalRow?_ofExternalEdges edges fallback hv

/-- Ids at both ends of the range, a relationship given twice of which one has no weight, and a
loop. -/
theorem external_ids_kept_range : ∃ edges : List (CsrGraph.ExternalEdge Exact),
    edges = [⟨18446744073709551615, 7, some (.finite 3)⟩, ⟨0, 0, none⟩,
      ⟨18446744073709551615, 7, none⟩, ⟨7, 18446744073709551615, some (.finite 5)⟩] ∧
    ((CsrGraph.ofExternalEdges edges).toUndirectedTimes 2).nodeCount = 3 ∧
    ((CsrGraph.ofExternalEdges edges).toUndirectedTimes 2).denseId? 6 = none ∧
    ∃ v, (CsrGraph.ofExternalEdges edges).denseId? 18446744073709551615 = some v ∧
      (CsrGraph.ofExternalEdges edges).externalId? v = some 18446744073709551615 ∧
      (CsrGraph.ofExternalEdges edges).externalRow? .top v
        = some [(some 7, .finite 3), (some 7, .finite 1)] := by
  -- as long as the list is kept apart, only its ids are looked at
  obtain ⟨edges, hedges⟩ : ∃ edges : List (CsrGraph.ExternalEdge Exact),
    edges = [⟨18446744073709551615, 7, some (.finite 3)⟩, ⟨0, 0, none⟩,
      ⟨18446744073709551615, 7, none⟩, ⟨7, 18446744073709551615, some (.finite 5)⟩] := ⟨_, rfl⟩
  obtain ⟨hnumbered, hrows⟩ := external_ids_kept edges
  have hids : CsrGraph.endpoints edges = [18446744073709551615, 7, 0, 0, 18446744073709551615, 7, 7,
      18446744073709551615] := by
    rw [hedges]
    rfl
  rw [hids] at hnumbered
  obtain ⟨v, -, hdense, hid⟩ := (hnumbered 0).ofId 18446744073709551615 (by decide)
  refine ⟨edges, hedges, ?_, ?_, v, hdense, hid, ?_⟩
  · rw [(hnumbered 2).nodeCount]
    decide
  · exact (hnumbered 2).stranger 6 (by decide)
  · rw [hrows v _ hid .top, hedges]
    rfl

end Superstep
