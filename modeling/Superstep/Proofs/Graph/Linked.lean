import Mathlib
import Superstep.Proofs.Algorithm.Components
import Superstep.Proofs.Graph.ExternalIds

/-!
# Connected ids

When directions are ignored, relationships between ids connect ids (`CsrGraph.Linked`), and every
component has a smallest id. In the graph of the relationships the same is said of vertices. Since
vertices are numbered in the order of their ids, the least vertex of a component has its smallest
id, and the number of the vertex is the number of smaller ids.

## Key results

- `CsrGraph.eq_countBelow`: the number of a vertex
- `CsrGraph.connected_iff_linked`: connected vertices have connected ids
- `CsrGraph.isLeastLinked_of_isLeast`: the least vertex of a component has its smallest id
- `CsrGraph.NumbersComponents.eq_iff_linked`: connected ids are told one number
- `CsrGraph.NumbersComponents.eq_of_sameLinks`: neither order nor direction of relationships matters
-/

namespace Superstep.CsrGraph

open Components (Connected)

variable {α : Type} {edges edges' : List (ExternalEdge α)} {x y : UInt64}

/-! ## Components of ids -/

/-- Some relationship goes from one id to the other. -/
def Relates (edges : List (ExternalEdge α)) (x y : UInt64) : Prop :=
  ∃ e ∈ edges, e.source = x ∧ e.target = y

/-- Two ids are connected when directions are ignored. -/
def Linked (edges : List (ExternalEdge α)) : UInt64 → UInt64 → Prop :=
  Relation.EqvGen (Relates edges)

/-- The smallest id of the component that an id belongs to. -/
structure IsLeastLinked (edges : List (ExternalEdge α)) (id least : UInt64) : Prop where
  occurs : least ∈ endpoints edges
  linked : Linked edges least id
  le : ∀ x ∈ endpoints edges, Linked edges x id → least ≤ x

/-- The number of different ids in a list that are smaller than one. -/
def countBelow (ids : List UInt64) (id : UInt64) : Nat := (ids.toFinset.filter (· < id)).card

/-- Every id is told the number of ids that are smaller than the smallest one of its component. -/
def NumbersComponents (edges : List (ExternalEdge α)) (component : UInt64 → Nat) : Prop :=
  ∀ id ∈ endpoints edges, ∃ least, IsLeastLinked edges id least ∧
    component id = countBelow (endpoints edges) least

/-- Relationships between the same ids, in any order, directions, and number. -/
def SameLinks (edges edges' : List (ExternalEdge α)) : Prop :=
  ∀ x y, Relates edges x y ∨ Relates edges y x ↔ Relates edges' x y ∨ Relates edges' y x

/-- What is connected stays so under a map that keeps what connects it. -/
theorem eqvGen_map {β γ : Type} {r : β → β → Prop} {q : γ → γ → Prop} (f : β → γ)
    (hf : ∀ a b, r a b → Relation.EqvGen q (f a) (f b)) {a b : β} (h : Relation.EqvGen r a b) :
    Relation.EqvGen q (f a) (f b) := by
  -- one case for each way to be connected
  induction h with
  | rel a b h => exact hf a b h
  | refl a => exact .refl _
  | symm _ _ _ ih => exact .symm _ _ ih
  | trans _ _ _ _ _ ih ih' => exact .trans _ _ _ ih ih'

/-- Ids are put in order and kept once. -/
theorem mem_ascendingIds {ids : List UInt64} : x ∈ ascendingIds ids ↔ x ∈ ids := by
  rw [ascendingIds, mem_foldr_consDistinct, List.mem_mergeSort]

/-- There are as many vertices as different ids. -/
theorem length_ascendingIds (ids : List UInt64) :
    (ascendingIds ids).length = ids.toFinset.card := by
  rw [← IdTable.size_ofList]
  simp [IdTable.size, IdTable.ofList]

/-- An id occurs if a relationship leads to it or from it. -/
theorem mem_endpoints_iff : x ∈ endpoints edges ↔ ∃ y, Relates edges x y ∨ Relates edges y x := by
  simp only [endpoints, List.mem_flatMap, List.mem_cons, List.not_mem_nil, or_false]
  constructor
  · rintro ⟨e, he, rfl | rfl⟩
    · exact ⟨e.target, .inl ⟨e, he, rfl, rfl⟩⟩
    · exact ⟨e.source, .inr ⟨e, he, rfl, rfl⟩⟩
  · rintro ⟨y, ⟨e, he, rfl, rfl⟩ | ⟨e, he, rfl, rfl⟩⟩
    · exact ⟨e, he, .inl rfl⟩
    · exact ⟨e, he, .inr rfl⟩

namespace SameLinks

/-- Relationships have the same links as themselves. -/
theorem refl (edges : List (ExternalEdge α)) : SameLinks edges edges := fun _ _ => Iff.rfl

/-- It does not matter which of the two is named first. -/
theorem symm (h : SameLinks edges edges') : SameLinks edges' edges := fun x y => (h x y).symm

/-- The same ids occur. -/
theorem mem_endpoints_iff (h : SameLinks edges edges') :
    x ∈ endpoints edges ↔ x ∈ endpoints edges' := by
  rw [CsrGraph.mem_endpoints_iff, CsrGraph.mem_endpoints_iff]
  exact exists_congr fun y => h x y

/-- The same ids occur, as a set. -/
theorem toFinset_endpoints (h : SameLinks edges edges') :
    (endpoints edges).toFinset = (endpoints edges').toFinset := by
  ext x
  rw [List.mem_toFinset, List.mem_toFinset, h.mem_endpoints_iff]

/-- What is connected by the one is connected by the other. -/
theorem linked (h : SameLinks edges edges') (hlinked : Linked edges x y) : Linked edges' x y := by
  refine eqvGen_map id (fun a b hab => ?_) hlinked
  -- a link may be the other way round
  rcases (h a b).mp (.inl hab) with hab | hba
  · exact .rel _ _ hab
  · exact .symm _ _ (.rel _ _ hba)

/-- The smallest id of a component is the same. -/
theorem isLeastLinked (h : SameLinks edges edges') (hleast : IsLeastLinked edges x y) :
    IsLeastLinked edges' x y where
  occurs := h.mem_endpoints_iff.mp hleast.occurs
  linked := h.linked hleast.linked
  le z hz hlinked := hleast.le z (h.mem_endpoints_iff.mpr hz) (h.symm.linked hlinked)

/-- The ids are numbered alike. -/
theorem ascendingIds_eq (h : SameLinks edges edges') :
    ascendingIds (endpoints edges) = ascendingIds (endpoints edges') := by
  have hsorted (ids : List UInt64) := pairwise_ascendingIds ids
  have hnodup (ids : List UInt64) : (ascendingIds ids).Nodup := (hsorted ids).imp UInt64.ne_of_lt
  -- two ascending lists of the same ids are one list
  have hperm : (ascendingIds (endpoints edges)).Perm (ascendingIds (endpoints edges')) :=
    (List.perm_ext_iff_of_nodup (hnodup _) (hnodup _)).mpr fun x => by
      rw [mem_ascendingIds, mem_ascendingIds, h.mem_endpoints_iff]
  exact hperm.eq_of_pairwise (fun a b _ _ hab hba => absurd hba (UInt64.lt_asymm hab))
    (hsorted _) (hsorted _)

end SameLinks

/-- A component has one smallest id. -/
theorem IsLeastLinked.unique {id least least' : UInt64} (h : IsLeastLinked edges id least)
    (h' : IsLeastLinked edges id least') : least = least' :=
  UInt64.le_antisymm (h.le _ h'.occurs h'.linked) (h'.le _ h.occurs h.linked)

/-- Components with one smallest id are one component. -/
theorem IsLeastLinked.linked_iff_eq {id id' least least' : UInt64}
    (h : IsLeastLinked edges id least) (h' : IsLeastLinked edges id' least') :
    Linked edges id id' ↔ least = least' := by
  constructor
  · intro hlinked
    exact UInt64.le_antisymm
      (h.le _ h'.occurs (.trans _ _ _ h'.linked (.symm _ _ hlinked)))
      (h'.le _ h.occurs (.trans _ _ _ h.linked hlinked))
  · rintro rfl
    exact .trans _ _ _ (.symm _ _ h.linked) h'.linked

/-! ## Counting ids -/

/-- Counting smaller ids tells ids apart. -/
theorem countBelow_lt {ids : List UInt64} (hx : x ∈ ids) (h : x < y) :
    countBelow ids x < countBelow ids y := by
  refine Finset.card_lt_card (Finset.ssubset_iff_of_subset (fun z hz => ?_) |>.mpr ⟨x, ?_, ?_⟩)
  · rw [Finset.mem_filter] at hz ⊢
    exact ⟨hz.1, UInt64.lt_trans hz.2 h⟩
  · simp [hx, h]
  · simp [UInt64.lt_irrefl]

/-- Counting smaller ids tells ids apart, either way. -/
theorem countBelow_inj {ids : List UInt64} (hx : x ∈ ids) (hy : y ∈ ids) :
    countBelow ids x = countBelow ids y ↔ x = y := by
  constructor
  · intro h
    by_contra hne
    rcases UInt64.lt_or_lt_of_ne hne with hlt | hlt
    · exact absurd h (countBelow_lt hx hlt).ne
    · exact absurd h (countBelow_lt hy hlt).ne'
  · rintro rfl
    rfl

/-- Ids are told one number if they are connected. -/
theorem NumbersComponents.eq_iff_linked {component : UInt64 → Nat}
    (h : NumbersComponents edges component) (hx : x ∈ endpoints edges) (hy : y ∈ endpoints edges) :
    component x = component y ↔ Linked edges x y := by
  obtain ⟨least, hleast, hcomponent⟩ := h x hx
  obtain ⟨least', hleast', hcomponent'⟩ := h y hy
  rw [hcomponent, hcomponent', countBelow_inj hleast.occurs hleast'.occurs,
    hleast.linked_iff_eq hleast']

/-- The numbers of components depend only on which ids are related. -/
theorem NumbersComponents.eq_of_sameLinks {component component' : UInt64 → Nat}
    (h : NumbersComponents edges component) (hsame : SameLinks edges edges')
    (h' : NumbersComponents edges' component') (hx : x ∈ endpoints edges) :
    component x = component' x := by
  obtain ⟨least, hleast, hcomponent⟩ := h x hx
  obtain ⟨least', hleast', hcomponent'⟩ := h' x (hsame.mem_endpoints_iff.mp hx)
  rw [hcomponent, hcomponent', (hsame.isLeastLinked hleast).unique hleast', countBelow, countBelow,
    hsame.toFinset_endpoints]

/-- In an ascending list the place of an id is the number of smaller ones. -/
theorem eq_card_of_getElem? {ids : List UInt64} (h : ids.Pairwise (· < ·)) {v : Nat}
    (hv : ids[v]? = some x) : v = (ids.toFinset.filter (· < x)).card := by
  induction ids generalizing v with
  | nil => simp at hv
  | cons id ids ih =>
    obtain ⟨hid, hids⟩ := List.pairwise_cons.mp h
    rw [List.toFinset_cons, Finset.filter_insert]
    cases v with
    | zero =>
      cases hv
      have hnone : ids.toFinset.filter (· < x) = ∅ :=
        Finset.filter_eq_empty_iff.mpr fun _ hz =>
          UInt64.lt_asymm (hid _ (List.mem_toFinset.mp hz))
      rw [if_neg (UInt64.lt_irrefl x), hnone, Finset.card_empty]
    | succ v =>
      -- the first id is smaller, and is not counted a second time
      have hx : ids[v]? = some x := hv
      have hnew : id ∉ ids.toFinset.filter (· < x) := fun hmem =>
        UInt64.lt_irrefl id (hid id (List.mem_toFinset.mp (Finset.mem_filter.mp hmem).1))
      rw [if_pos (hid x (List.mem_of_getElem? hx)), Finset.card_insert_of_notMem hnew, ← ih hids hx]

/-! ## Ids and vertices -/

variable [Scalar α] {u v : Nat}

/-- The ids of the vertices, in order. -/
theorem externalId?_ofExternalEdges (edges : List (ExternalEdge α)) (v : Nat) :
    (ofExternalEdges edges).externalId? v = (ascendingIds (endpoints edges))[v]? := by
  have htable : (ofExternalEdges edges).externalId? v = (idTable edges).id? v :=
    externalId?_of_table rfl nodeCount_sortRows
  rw [htable]
  simp [IdTable.id?, idTable, IdTable.ofList, endpoints]

/-- The number of a vertex is the number of smaller ids. -/
theorem eq_countBelow (hv : (ofExternalEdges edges).externalId? v = some x) :
    v = countBelow (endpoints edges) x := by
  rw [externalId?_ofExternalEdges] at hv
  have hsame : (ascendingIds (endpoints edges)).toFinset = (endpoints edges).toFinset := by
    ext z
    rw [List.mem_toFinset, List.mem_toFinset, mem_ascendingIds]
  rw [countBelow, ← hsame]
  exact eq_card_of_getElem? (pairwise_ascendingIds _) hv

/-- No two vertices have one id. -/
theorem externalId?_inj (hu : (ofExternalEdges edges).externalId? u = some x)
    (hv : (ofExternalEdges edges).externalId? v = some x) : u = v :=
  (eq_countBelow hu).trans (eq_countBelow hv).symm

omit [Scalar α] in
/-- Only vertices of the graph have an id. -/
theorem lt_of_externalId? {g : CsrGraph α} (h : g.externalId? v = some x) : v < g.nodeCount := by
  by_contra hv
  rw [externalId?, if_neg hv] at h
  cases h

/-- The ids to which relationships lead from one, in their order. -/
theorem map_externalId?_row (hu : (ofExternalEdges edges).externalId? u = some x) :
    ((ofExternalEdges edges).toGraph.row u).map (ofExternalEdges edges).externalId?
      = (edges.filter (·.source = x)).map fun e => some e.target := by
  have hsound := isSound_ofExternalEdges edges
  have hlt := lt_of_externalId? hu
  have hrow := externalRow?_ofExternalEdges edges Scalar.one hu
  have hweighted : (ofExternalEdges edges).weightedTargets? Scalar.one u = some _ :=
    hsound.weighted u hlt Scalar.one
  rw [externalRow?, hweighted, Option.map_some] at hrow
  -- without the weights
  have hfirst := congrArg (List.map Prod.fst) (Option.some.inj hrow)
  rw [List.map_map, List.map_map] at hfirst
  rw [← hsound.unweighted u hlt Scalar.one, List.map_map]
  exact hfirst

/-- A relationship leads from one vertex to another if one leads from one id to the other. -/
theorem mem_row_ofExternalEdges (hu : (ofExternalEdges edges).externalId? u = some x) :
    v ∈ (ofExternalEdges edges).toGraph.row u ↔
      ∃ y, (ofExternalEdges edges).externalId? v = some y ∧ Relates edges x y := by
  constructor
  · intro hv
    have hmem := List.mem_map_of_mem (f := (ofExternalEdges edges).externalId?) hv
    rw [map_externalId?_row hu] at hmem
    obtain ⟨e, he, hid⟩ := List.mem_map.mp hmem
    obtain ⟨he, hsource⟩ := List.mem_filter.mp he
    exact ⟨e.target, hid.symm, e, he, of_decide_eq_true hsource, rfl⟩
  · rintro ⟨y, hy, e, he, rfl, rfl⟩
    have hmem : some e.target ∈
        ((ofExternalEdges edges).toGraph.row u).map (ofExternalEdges edges).externalId? := by
      rw [map_externalId?_row hu]
      exact List.mem_map.mpr ⟨e, List.mem_filter.mpr ⟨he, decide_eq_true rfl⟩, rfl⟩
    -- the target with this id is `v`
    obtain ⟨t, ht, hid⟩ := List.mem_map.mp hmem
    exact externalId?_inj hid hy ▸ ht

/-- Vertices are connected if their ids are. -/
theorem connected_iff_linked (hu : (ofExternalEdges edges).externalId? u = some x)
    (hv : (ofExternalEdges edges).externalId? v = some y) :
    Connected (ofExternalEdges edges).toGraph u v ↔ Linked edges x y := by
  have hnumbered := numberedBy_ofExternalEdges edges
  constructor
  · intro h
    -- a step between vertices is a step between their ids
    have hids := eqvGen_map (q := Relates edges)
      (fun v => ((ofExternalEdges edges).externalId? v).getD 0) (fun a b hab => ?_) h
    · rwa [hu, hv] at hids
    · obtain ⟨id, -, hid, -⟩ := hnumbered.ofVertex a hab.1
      obtain ⟨id', hid', hrelates⟩ := (mem_row_ofExternalEdges hid).mp hab.2
      rw [hid, hid']
      exact .rel _ _ hrelates
  · intro h
    -- and a step between ids is one between the vertices that they number
    have hvertices := eqvGen_map
      (q := fun u v => u < (ofExternalEdges edges).nodeCount ∧
        v ∈ (ofExternalEdges edges).toGraph.row u)
      (countBelow (endpoints edges)) (fun a b hab => ?_) h
    · rwa [← eq_countBelow hu, ← eq_countBelow hv] at hvertices
    · obtain ⟨s, hs, -, hsource⟩ := hnumbered.ofId a (mem_endpoints_iff.mpr ⟨b, .inl hab⟩)
      obtain ⟨t, -, -, htarget⟩ := hnumbered.ofId b (mem_endpoints_iff.mpr ⟨a, .inr hab⟩)
      rw [← eq_countBelow hsource, ← eq_countBelow htarget]
      exact .rel _ _ ⟨hs, (mem_row_ofExternalEdges hsource).mpr ⟨b, htarget, hab⟩⟩

/-- The least vertex of a component has its smallest id. -/
theorem isLeastLinked_of_isLeast {c : Nat} (hv : (ofExternalEdges edges).externalId? v = some x)
    (hc : IsLeast {u | u < (ofExternalEdges edges).nodeCount ∧
      Connected (ofExternalEdges edges).toGraph u v} c) :
    ∃ least, IsLeastLinked edges x least ∧ c = countBelow (endpoints edges) least := by
  have hnumbered := numberedBy_ofExternalEdges edges
  obtain ⟨⟨hlt, hconnected⟩, hle⟩ := hc
  obtain ⟨least, hoccurs, hleast, -⟩ := hnumbered.ofVertex c hlt
  have hlinked : Linked edges least x := (connected_iff_linked hleast hv).mp hconnected
  refine ⟨least, ⟨hoccurs, hlinked, fun z hz hzx => ?_⟩, eq_countBelow hleast⟩
  obtain ⟨w, hw, -, hid⟩ := hnumbered.ofId z hz
  -- vertices are numbered in the order of their ids
  rcases Nat.lt_or_eq_of_le (hle ⟨hw, (connected_iff_linked hid hv).mpr hzx⟩) with hlower | rfl
  · exact UInt64.le_of_lt (hnumbered.ascending _ _ _ _ hleast hid hlower)
  · rw [Option.some.inj (hleast.symm.trans hid)]
    exact UInt64.le_refl z

end Superstep.CsrGraph
