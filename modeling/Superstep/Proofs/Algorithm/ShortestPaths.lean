import Mathlib
import Superstep.Algorithm.ShortestPaths
import Superstep.Proofs.Algorithm.Spreading
import Superstep.Proofs.Exact
import Superstep.Proofs.Graph.Soundness
import Superstep.Proofs.Hook

/-!
# Shortest paths are shortest

A walk costs the sum of its weights, added up on the way. Distances spread: what a vertex offers is
its own distance, prolonged by the weight of the relationship.

## Key results

- `ShortestPaths.runs`: a call of the program is a reaction
- `ShortestPaths.realizes`: the reactions let distances spread
- `shortest_paths`: what distances are after each superstep, and when a run converges
-/

namespace Superstep

/-- Scalars are totally ordered and nothing is greater than infinity. -/
structure Scalar.IsOrdered (α : Type) [Scalar α] [LinearOrder α] : Prop where
  less : ∀ a b : α, Scalar.less a b = decide (a < b)
  min : ∀ a b : α, Scalar.min a b = Min.min a b
  le_top : ∀ a : α, a ≤ Scalar.top

/-- Adding a weight keeps the order of distances, and makes none of them less. -/
structure Graph.HasNonnegativeWeights {α : Type} [Scalar α] [LinearOrder α] (g : Graph α) :
    Prop where
  monotone : ∀ u, u < g.nodeCount → ∀ m ∈ g.weightedRow Scalar.one u, Monotone fun a => a + m.2
  le : ∀ u, u < g.nodeCount → ∀ m ∈ g.weightedRow Scalar.one u, ∀ a, a ≤ a + m.2

/-- Rows have nonnegative weights if the relationships that were sorted into them have. -/
theorem CsrGraph.hasNonnegativeWeights_sortRows {α : Type} [Scalar α] [LinearOrder α] {n : Nat}
    {edges : List (Relationship α)} (hsource : ∀ e ∈ edges, e.source < n)
    (hweights : ∀ e ∈ edges, (Monotone fun a => a + e.weight) ∧ ∀ a, a ≤ a + e.weight)
    (ids : Option IdTable) : (sortRows n edges true ids).toGraph.HasNonnegativeWeights := by
  -- every weight in a row is that of a relationship that was sorted
  have hmem {u : Nat} (hu : u < (sortRows n edges true ids).nodeCount) {m : Nat × α}
      (hm : m ∈ (sortRows n edges true ids).toGraph.weightedRow Scalar.one u) :
      ∃ e ∈ edges, e.weight = m.2 := by
    rw [nodeCount_sortRows] at hu
    have hrow : (sortRows n edges true ids).toGraph.weightedTargets? Scalar.one u = _ :=
      weightedTargets?_sortRows hsource hu Scalar.one
    rw [Graph.weightedRow_of_weightedTargets? hrow] at hm
    obtain ⟨e, he, rfl⟩ := List.mem_map.mp hm
    exact ⟨e, List.mem_of_mem_filter he, rfl⟩
  refine ⟨fun u hu m hm => ?_, fun u hu m hm => ?_⟩
  · obtain ⟨e, he, heq⟩ := hmem hu hm
    exact heq ▸ (hweights e he).1
  · obtain ⟨e, he, heq⟩ := hmem hu hm
    exact heq ▸ (hweights e he).2

namespace ShortestPaths

variable {α : Type} [Scalar α]

/-- A walk from `source` over `k` relationships, and the sum of their weights, from the left. A
relationship without a weight counts as one. -/
inductive Walk (g : Graph α) (source : Nat) : (k v : Nat) → α → Prop
  | nil : Walk g source 0 source Scalar.zero
  | concat {k u v x w} (h : Walk g source k u x) (hu : u < g.nodeCount)
      (hmem : (v, w) ∈ g.weightedRow Scalar.one u) : Walk g source (k + 1) v (x + w)

/-- The sums of the walks to `v` with a length among the given ones. -/
def costs (g : Graph α) (source : Nat) (lengths : Set Nat) (v : Nat) : Set α :=
  {x | ∃ k ∈ lengths, Walk g source k v x}

/-- `d` is the least sum of all such walks, and infinite if there are none. -/
def IsDistance [LinearOrder α] (g : Graph α) (source : Nat) (lengths : Set Nat) (v : Nat) (d : α) :
    Prop :=
  IsLeast (costs g source lengths v) d ∨ (costs g source lengths v = ∅ ∧ d = Scalar.top)

/-- The slot of the result. -/
def slot : Element α := .double distanceKey Scalar.top .visible

/-- The result is found under its key. -/
theorem key_slot : (slot : Element α).key = distanceKey := rfl

/-- What a vertex offers to its neighbours. -/
def offers (g : Graph α) (v : Nat) (x : α) : List (Nat × α) :=
  (g.weightedRow Scalar.one v).map fun (t, w) => (t, x + w)

/-- The program without its machinery. -/
def reaction (p : ShortestPaths) (g : Graph α) : Reaction α α where
  slot := slot
  reducer := .min
  cell := .double
  first v := if v = p.source then Scalar.zero else Scalar.top
  react s v x inbox :=
    if s = 0 then (x, if v = p.source then offers g v Scalar.zero else [])
    else if Scalar.less (Scalar.least inbox) x then
      (Scalar.least inbox, offers g v (Scalar.least inbox))
    else (x, [])

/-- What lets distances spread. -/
def spreading (p : ShortestPaths) (g : Graph α) : Spreading α where
  nodeCount := g.nodeCount
  first v := if v = p.source then Scalar.zero else Scalar.top
  starts v := v = p.source
  out v := (g.weightedRow Scalar.one v).map fun m => (m.1, fun a => a + m.2)

variable {p : ShortestPaths} {g : Graph α}

/-- In superstep 0 only the source has something to offer. -/
theorem react_first {s v : Nat} {x : α} {inbox : List α} (hs : s = 0) :
    (p.reaction g).react s v x inbox
      = (x, if v = p.source then offers g v Scalar.zero else []) :=
  if_pos hs

/-- Later a vertex takes the least offer over if it is shorter than its distance. -/
theorem react_later {s v : Nat} {x : α} {inbox : List α} (hs : s ≠ 0) :
    (p.reaction g).react s v x inbox
      = if Scalar.less (Scalar.least inbox) x then
          (Scalar.least inbox, offers g v (Scalar.least inbox)) else (x, []) :=
  if_neg hs

/-- A distance is prolonged by the weight of each relationship. -/
theorem passOn_spreading (v : Nat) (x : α) : (p.spreading g).passOn v x = offers g v x :=
  List.map_map

/-- What is offered to whom. -/
theorem mem_offers {v t : Nat} {x y : α} :
    (t, y) ∈ offers g v x ↔ ∃ w, (t, w) ∈ g.weightedRow Scalar.one v ∧ x + w = y := by
  simp only [offers, List.mem_map, Prod.mk.injEq]
  constructor
  · rintro ⟨⟨t, w⟩, hm, rfl, rfl⟩
    exact ⟨w, hm, rfl⟩
  · rintro ⟨w, hm, rfl⟩
    exact ⟨(t, w), hm, rfl, rfl⟩

/-! ## Calls -/

/-- An offer goes along all relationships of the vertex, prolonged by each. -/
theorem relax_apply {view : VertexView α} {s : Scratch α} (hgraph : view.graph.IsSound)
    (hv : view.vertex < view.graph.nodeCount) (x : α) :
    (relax x : HookM .compute α Unit) view s = .ok () ⟨s.row,
      ((offers view.graph view.vertex x).map fun m => .send m.1 m.2).reverse ++ s.effects⟩ := by
  rw [relax, HookM.bind_apply, HookM.weightedNeighbors_apply (hgraph.weighted _ hv _)]
  exact HookM.sendAll_apply _

/-- What a vertex does in a superstep. -/
theorem reply_compute {view : VertexView α} (hgraph : view.graph.IsSound)
    (hv : view.vertex < view.graph.nodeCount) {x : α}
    (hrow : view.row = ⟨⟨[slot]⟩, #[.double x]⟩) :
    p.compute.reply view
      = (p.reaction view.graph).answer ((p.reaction view.graph).react view.superstep view.vertex x
          view.inbox) := by
  -- superstep 0 reads no messages
  by_cases hs : view.superstep = 0
  · rw [react_first hs]
    refine Reaction.reply_of_ok ?_
    simp only [compute, HookM.bind_apply, HookM.isInitialSuperstep_apply, HookM.ite_apply, hs,
      beq_self_eq_true, if_true, HookM.vertex_apply, beq_iff_eq, HookM.voteToHalt_apply, hrow]
    split
    · rw [relax_apply hgraph hv, List.append_nil]
      rfl
    · rfl
  · rw [react_later hs]
    refine Reaction.reply_of_ok_ite ?_
    simp only [compute, HookM.bind_apply, HookM.isInitialSuperstep_apply, HookM.ite_apply, hs,
      beq_iff_eq, if_false, HookM.inbox_apply, hrow, HookM.voteToHalt_apply]
    rw [HookM.double_single key_slot]
    dsimp only
    rw [HookM.setDouble_single key_slot]
    dsimp only
    rw [relax_apply hgraph hv, List.append_nil]
    rfl

/-- A call of the program is a reaction. -/
theorem runs {job : Job α} (hprogram : job.program = p.program) (hgraph : job.graph.IsSound) :
    (p.reaction job.graph).Runs job where
  schema := by
    rw [hprogram]
    rfl
  reducer := by
    rw [hprogram]
    rfl
  master := by
    rw [hprogram]
    rfl
  typed _ := rfl
  init v _ flag := by
    rw [hprogram]
    change p.init.reply _ = ⟨(p.reaction job.graph).row (if v = p.source then Scalar.zero
      else Scalar.top), [], .ok ()⟩
    refine HookM.reply_of_ok (s := ⟨_, []⟩) ?_
    simp only [init, HookM.bind_apply, HookM.vertex_apply, HookM.ite_apply, beq_iff_eq]
    split
    · exact HookM.setDouble_single key_slot Scalar.top Scalar.zero
    · rfl
  compute s v hv x inbox flag := by
    rw [hprogram]
    exact reply_compute hgraph hv rfl
  inside s v hv x inbox m hm := by
    -- every offer is for a vertex of the graph
    have hoffers {y : α} (hm : m ∈ offers job.graph v y) : m.1 < job.graph.nodeCount := by
      obtain ⟨w, hw, -⟩ := mem_offers.mp hm
      exact hgraph.inside_weighted hv (m := (m.1, w)) hw
    rw [reaction] at hm
    dsimp only at hm
    split at hm
    · split at hm
      · exact hoffers hm
      · cases hm
    · split at hm
      · exact hoffers hm
      · cases hm

/-! ## Distances -/

/-- Distances spread along the walks from the source. -/
theorem walk_spreading_iff (hgraph : g.IsSound) {k v : Nat} (hv : v < g.nodeCount) {x : α} :
    (p.spreading g).Walk k v x ↔ Walk g p.source k v x := by
  constructor
  · intro h
    clear hv
    induction h with
    | @start v _ hstarts =>
      -- only the source starts
      obtain rfl : v = p.source := hstarts
      rw [show (p.spreading g).first p.source = (Scalar.zero : α) from if_pos rfl]
      exact .nil
    | @step k u t x y hwalk hmem ih =>
      rw [passOn_spreading, mem_offers] at hmem
      -- the walk is one relationship longer
      obtain ⟨w, hw, rfl⟩ := hmem
      refine ih.concat ?_ hw
      refine hwalk.lt_nodeCount fun u hu e he => ?_
      obtain ⟨m, hm, rfl⟩ := List.mem_map.mp he
      exact hgraph.inside_weighted hu hm
  · intro h
    induction h with
    | nil =>
      rw [show (Scalar.zero : α) = (p.spreading g).first p.source from (if_pos rfl).symm]
      exact .start hv rfl
    | @concat k u v x w _ hu hmem ih =>
      refine (ih hu).step ?_
      rw [passOn_spreading, mem_offers]
      exact ⟨w, hmem, rfl⟩

variable [LinearOrder α]

/-- Weights that shorten nothing let distances spread in order. -/
theorem inflating_spreading (hgraph : g.IsSound) (hordered : Scalar.IsOrdered α)
    (hweights : g.HasNonnegativeWeights) : (p.spreading g).IsInflating where
  inside u hu e he := by
    obtain ⟨m, hm, rfl⟩ := List.mem_map.mp he
    exact hgraph.inside_weighted hu hm
  monotone u hu e he := by
    obtain ⟨m, hm, rfl⟩ := List.mem_map.mp he
    exact hweights.monotone u hu m hm
  le u hu e he := by
    obtain ⟨m, hm, rfl⟩ := List.mem_map.mp he
    exact hweights.le u hu m hm
  greatest v _ hstarts x := by
    rw [show (p.spreading g).first v = (Scalar.top : α) from if_neg hstarts]
    exact hordered.le_top x

/-- The reactions of the program let distances spread. -/
theorem realizes (hgraph : g.IsSound) (hordered : Scalar.IsOrdered α)
    (hweights : g.HasNonnegativeWeights) :
    Realizes (p.reaction g) (p.spreading g) (id : α → α) id := by
  -- a combined message is the least of one
  have hmin (y : α) : Scalar.least [y] = y :=
    (hordered.min Scalar.top y).trans (min_eq_right (hordered.le_top y))
  have hmap (messages : List (Nat × α)) : messages.map (Prod.map id id) = messages := by
    rw [Prod.map_id, List.map_id]
  exact {
    mirrors := ⟨hordered.less, hordered.min, fun x => hmin x⟩
    reducer := rfl
    inflating := inflating_spreading hgraph hordered hweights
    first := fun _ _ => rfl
    offer := fun v _ hstarts => by
      rw [hmap, passOn_spreading, show (p.spreading g).first v = (Scalar.zero : α) from
        if_pos hstarts]
      exact congrArg (Prod.mk _) (if_pos hstarts)
    wait := fun v _ hstarts => congrArg (Prod.mk _) (if_neg hstarts)
    improve := fun s v hs _ x y hless => by
      rw [hmap, passOn_spreading]
      change (p.reaction g).react s v x [y] = (y, offers g v y)
      rw [react_later hs, hmin, hordered.less, if_pos (decide_eq_true hless)]
    ignore := fun s v hs _ x y hge => by
      change (p.reaction g).react s v x [y] = (x, [])
      rw [react_later hs, hmin, hordered.less, if_neg (by simpa using hge)] }

/-- A lower bound of the walks that is one of them, or infinite, is the distance. -/
theorem isDistance_of_le (hordered : Scalar.IsOrdered α) {source v : Nat} {lengths : Set Nat}
    {d : α}
    (hle : ∀ k ∈ lengths, ∀ x, Walk g source k v x → d ≤ x)
    (hmem : (∃ k ∈ lengths, Walk g source k v d) ∨ d = Scalar.top) :
    IsDistance g source lengths v d := by
  have hlower : d ∈ lowerBounds (costs g source lengths v) := fun x ⟨k, hk, hwalk⟩ =>
    hle k hk x hwalk
  rcases hmem with hmem | rfl
  · exact .inl ⟨hmem, hlower⟩
  · rcases (costs g source lengths v).eq_empty_or_nonempty with hnone | ⟨x, hx⟩
    · exact .inr ⟨hnone, rfl⟩
    · -- all walks are infinite
      obtain rfl := le_antisymm (hordered.le_top x) (hlower hx)
      exact .inl ⟨hx, hlower⟩

/-- After superstep `s` the distances are those of the walks over at most `s` relationships. -/
theorem isDistance_of_after (hgraph : g.IsSound) (hordered : Scalar.IsOrdered α)
    (hweights : g.HasNonnegativeWeights) {s : Nat} {labels : Nat → α} {offers : Nat → List α}
    (h : (p.spreading g).After s labels offers) {v : Nat} (hv : v < g.nodeCount) :
    IsDistance g p.source (Set.Iic s) v (labels v) := by
  have hP := inflating_spreading (p := p) hgraph hordered hweights
  refine isDistance_of_le hordered (fun k hk x hwalk =>
    h.le_of_walk hP hk ((walk_spreading_iff hgraph hv).mpr hwalk)) ?_
  -- some walk brought the distance, or it is still the first one
  rcases h.exists_walk hv with ⟨k, hk, hwalk⟩ | ⟨hstarts, hfirst⟩
  · exact .inl ⟨k, hk, (walk_spreading_iff hgraph hv).mp hwalk⟩
  · exact .inr (hfirst.trans (if_neg hstarts))

/-- When nothing is offered any more, the distances are those of all walks. -/
theorem isDistance_of_quiet (hgraph : g.IsSound) (hordered : Scalar.IsOrdered α)
    (hweights : g.HasNonnegativeWeights) {s : Nat} {labels : Nat → α} {offers : Nat → List α}
    (h : (p.spreading g).After s labels offers) (hquiet : ∀ v, v < g.nodeCount → offers v = [])
    {v : Nat} (hv : v < g.nodeCount) : IsDistance g p.source Set.univ v (labels v) := by
  have hP := inflating_spreading (p := p) hgraph hordered hweights
  refine isDistance_of_le hordered (fun k _ x hwalk =>
    h.le_of_walk_of_quiet hP hquiet ((walk_spreading_iff hgraph hv).mpr hwalk)) ?_
  -- the same, for walks of any length
  rcases h.exists_walk hv with ⟨k, -, hwalk⟩ | ⟨hstarts, hfirst⟩
  · exact .inl ⟨k, trivial, (walk_spreading_iff hgraph hv).mp hwalk⟩
  · exact .inr (hfirst.trans (if_neg hstarts))

end ShortestPaths

open ShortestPaths Workspace in
/-- Shortest paths over a totally ordered domain, for every sound graph whose weights do not shorten
a distance, every source, computer and schedule. After superstep `s` each vertex holds the least sum
of the walks from the source over at most `s` relationships. The result of a run that converged is
the least sum of all walks, and a run that was cut off has the walks that its supersteps allow. If
nobody stops the run and the cap exceeds the number of vertices, the run converges, and the last
superstep has no greater number than there are vertices. -/
theorem shortest_paths {α : Type} [Scalar α] [LinearOrder α] (p : ShortestPaths) {graph : Graph α}
    {config : Config} {flag : Flag} {r : Run α}
    (hcreate : Run.create graph config p.program flag = .ok r) (hgraph : graph.IsSound)
    (hordered : Scalar.IsOrdered α) (hweights : graph.HasNonnegativeWeights)
    (schedule : Schedule) :
    (∀ s control ws, Computes r.job schedule (r.opening ⟨[slot]⟩) s (.ok control) ws →
      ∀ v, v < graph.nodeCount → ∃ d, ws.values.double distanceKey v = .ok d ∧
        IsDistance graph p.source (Set.Iic s) v d) ∧
    (∀ result, (r.execute schedule).1 = .ok result → ∀ v, v < graph.nodeCount →
      ∃ d, result.values.double distanceKey v = .ok d ∧ IsDistance graph p.source
        (if result.didConverge then Set.univ else Set.Iic (config.maxIterations - 1)) v d) ∧
    (graph.nodeCount < config.maxIterations → (r.execute schedule).2.flag.raised = false →
      ∃ result, (r.execute schedule).1 = .ok result ∧ result.didConverge = true ∧
        result.ranIterations ≤ graph.nodeCount) := by
  obtain ⟨hg, hprogram, -⟩ := Run.job_of_create hcreate
  subst hg
  have hR : (p.reaction r.job.graph).Runs r.job := runs hprogram hgraph
  have hrealizes := realizes (p := p) hgraph hordered hweights
  refine ⟨fun s control ws hcomputes v hv => ?_, fun result hresult v hv => ?_, fun hcap hflag =>
    hrealizes.converges hR hcreate rfl hcap hflag⟩
  · obtain ⟨labels, offers, hafter, hcount, hrows⟩ := hrealizes.computes hR rfl hcomputes
    exact ⟨labels v, NodeValues.double_of_row_single (hcount ▸ hv) key_slot (hrows v hv),
      isDistance_of_after hgraph hordered hweights hafter hv⟩
  · obtain ⟨labels, offers, hafter, hquiet, hcount, hrows⟩ :=
      hrealizes.of_result hR hcreate rfl hresult
    refine ⟨labels v, NodeValues.double_of_row_single (hcount ▸ hv) key_slot (hrows v hv), ?_⟩
    -- converged, or cut off by the cap
    split
    · rename_i hconverged
      exact isDistance_of_quiet hgraph hordered hweights hafter (hquiet hconverged) hv
    · rename_i hcapped
      rw [if_neg hcapped] at hafter
      exact isDistance_of_after hgraph hordered hweights hafter hv

/-- Exact scalars are totally ordered. -/
theorem Exact.isOrdered : Scalar.IsOrdered Exact := ⟨less_eq_decide, min_eq_min, le_top⟩

namespace Detour

/-- Two relationships lead from vertex 0 to vertex 1, but the way over vertex 2 is shorter than
both. Nothing leads to vertex 3. -/
def edges : List (Relationship Exact) :=
  [⟨0, 1, .finite 5⟩, ⟨0, 1, .finite 4⟩, ⟨1, 1, .finite 0⟩, ⟨0, 2, .finite 1⟩,
    ⟨2, 1, .finite (3 / 2)⟩]

def graph : Graph Exact := (CsrGraph.sortRows 4 edges true none).toGraph

/-- Shortest paths from vertex 0. -/
def run : Run Exact :=
  ⟨⟨graph, (⟨0⟩ : ShortestPaths).program, ⟨5, 2, false, false, 1⟩, .partitioned 2 Nat.two_pos⟩,
    .fresh, .created, #[.created (.partitioned 2 Nat.two_pos) 4]⟩

/-- The rows of the detour name its vertices only. -/
theorem isSound_graph : graph.IsSound := CsrGraph.isSound_sortRows (by decide)

/-- The weights of the detour are not negative. -/
theorem hasNonnegativeWeights_graph : graph.HasNonnegativeWeights := by
  refine CsrGraph.hasNonnegativeWeights_sortRows (by decide) (fun e he => ?_) none
  have hnumber : ∃ q, 0 ≤ q ∧ e.weight = .finite q := by
    simp only [edges, List.mem_cons, List.not_mem_nil, or_false] at he
    rcases he with rfl | rfl | rfl | rfl | rfl <;> exact ⟨_, by norm_num, rfl⟩
  obtain ⟨q, hq, heq⟩ := hnumber
  exact heq ▸ ⟨Exact.monotone_add_finite q, Exact.le_add_finite hq⟩

/-- A run over the detour is created. -/
theorem create_run : Run.create graph ⟨5, 2, false, false, 1⟩ (⟨0⟩ : ShortestPaths).program .fresh
    = .ok run := rfl

end Detour

open ShortestPaths in
/-- The run over the detour converges, and its distances are those of all walks. -/
theorem shortest_paths_detour :
    ∃ result, (Detour.run.execute Relay.takingTurns).1 = .ok result ∧ result.didConverge = true ∧
      result.ranIterations ≤ 4 ∧
      (List.range 4).map (fun v => (result.values.double distanceKey v).toOption)
        = [some (.finite 0), some (.finite (5 / 2)), some (.finite 1), some .top] ∧
      ∀ v, v < 4 → ∃ d, result.values.double distanceKey v = .ok d ∧
        IsDistance Detour.graph 0 Set.univ v d := by
  obtain ⟨-, hresults, hconverges⟩ := shortest_paths ⟨0⟩ Detour.create_run Detour.isSound_graph
    Exact.isOrdered Detour.hasNonnegativeWeights_graph Relay.takingTurns
  have hflag : (Detour.run.execute Relay.takingTurns).2.flag.raised = false := by decide +kernel
  have hcap : Detour.graph.nodeCount < 5 := by decide +kernel
  obtain ⟨result, hresult, hconverged, hran⟩ := hconverges hcap hflag
  have hvalues : ((Detour.run.execute Relay.takingTurns).1.map fun result => (List.range 4).map
      fun v => (result.values.double distanceKey v).toOption) = .ok [some (.finite 0),
        some (.finite (5 / 2)), some (.finite 1), some .top] := by decide +kernel
  rw [hresult] at hvalues
  refine ⟨result, hresult, hconverged, hran, Except.ok.inj hvalues, fun v hv => ?_⟩
  have hdistance := hresults result hresult v hv
  rwa [if_pos hconverged] at hdistance

end Superstep
