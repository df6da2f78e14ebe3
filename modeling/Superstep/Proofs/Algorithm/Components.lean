import Mathlib
import Superstep.Algorithm.Components
import Superstep.Proofs.Algorithm.Spreading
import Superstep.Proofs.Exact
import Superstep.Proofs.Graph.Soundness
import Superstep.Proofs.Hook

/-!
# Component labels are least reaching vertices

A vertex offers its label as it is, so labels are the numbers of vertices from which a walk leads
there. On an undirected graph walks can be turned round, and a label names the least vertex of a
component.

Labels travel as scalars. Double-precision numbers hold integers up to `2 ^ 53` exactly, and
`Scalar.HoldsIds` is what the program relies on.

## Key results

- `Components.runs`, `Components.realizes`: the program lets labels spread
- `Components.reaches_toUndirected_iff`: walks of the undirected graph connect
- `connected_components`: what labels are after each superstep, and when a run converges
-/

namespace Superstep

/-- Scalars hold the numbers below `2 ^ 53` and compare them as integers. -/
structure Scalar.HoldsIds (α : Type) [Scalar α] : Prop where
  less : ∀ i j, i < 2 ^ 53 → j < 2 ^ 53 →
    Scalar.less (Scalar.ofLong (.ofNat i) : α) (Scalar.ofLong (.ofNat j)) = decide (i < j)
  min : ∀ i j, i < 2 ^ 53 → j < 2 ^ 53 →
    Scalar.min (Scalar.ofLong (.ofNat i) : α) (Scalar.ofLong (.ofNat j))
      = Scalar.ofLong (.ofNat (Min.min i j))
  top : ∀ i, i < 2 ^ 53 →
    Scalar.min Scalar.top (Scalar.ofLong (.ofNat i) : α) = Scalar.ofLong (.ofNat i)
  toLong : ∀ i, i < 2 ^ 53 → Scalar.toLong (Scalar.ofLong (.ofNat i) : α) = .ofNat i

namespace Components

variable {α : Type}

/-- A walk of `k` relationships leads from `u` to a vertex. -/
inductive Reaches (g : Graph α) (u : Nat) : (k v : Nat) → Prop
  | refl : Reaches g u 0 u
  | tail {k v w} (h : Reaches g u k v) (hv : v < g.nodeCount) (hmem : w ∈ g.row v) :
      Reaches g u (k + 1) w

/-- The vertices from which walks with a length among the given ones lead to `v`. -/
def origins (g : Graph α) (lengths : Set Nat) (v : Nat) : Set Nat :=
  {u | u < g.nodeCount ∧ ∃ k ∈ lengths, Reaches g u k v}

/-- Two vertices are connected when directions are ignored. -/
def Connected (g : Graph α) : Nat → Nat → Prop :=
  Relation.EqvGen fun u v => u < g.nodeCount ∧ v ∈ g.row u

/-- The slot of the result. -/
def slot : Element α := .plain componentKey .long .visible

/-- The result is found under its key. -/
theorem key_slot : (slot : Element α).key = componentKey := rfl

/-- What a vertex offers to its neighbours. -/
def offers (g : Graph α) (v : Nat) (x : α) : List (Nat × α) := (g.row v).map fun t => (t, x)

/-- The cell that a number is stored in. -/
abbrev label (i : Fin (2 ^ 53)) : Int64 := .ofNat i

/-- Labels of different vertices differ. -/
theorem ofNat_injective {i j : Nat} (hi : i < 2 ^ 53) (hj : j < 2 ^ 53)
    (h : Int64.ofNat i = Int64.ofNat j) : i = j := by
  have hint := congrArg Int64.toInt h
  rw [Int64.toInt_ofNat_of_lt (by omega), Int64.toInt_ofNat_of_lt (by omega)] at hint
  exact Int.ofNat_inj.mp hint

/-- What lets labels spread. -/
def spreading (g : Graph α) : Spreading (Fin (2 ^ 53)) where
  nodeCount := g.nodeCount
  first v := .ofNat (2 ^ 53) v
  starts _ := True
  out v := (g.row v).map fun t => (t, id)

/-- An offer goes along all relationships of the vertex. -/
theorem sendToNeighbors_apply {view : VertexView α} {s : Scratch α} (hgraph : view.graph.IsSound)
    (hv : view.vertex < view.graph.nodeCount) (x : α) :
    (HookM.sendToNeighbors x : HookM .compute α Unit) view s = .ok () ⟨s.row,
      ((offers view.graph view.vertex x).map fun m => .send m.1 m.2).reverse ++ s.effects⟩ := by
  rw [HookM.sendToNeighbors_apply (hgraph.targets _ hv), offers, List.map_map]
  rfl

variable [Scalar α]

/-- The program without its machinery. -/
def reaction (g : Graph α) : Reaction α Int64 where
  slot := slot
  reducer := .min
  cell := .long
  first v := .ofNat v
  react s v x inbox :=
    if s = 0 then (x, offers g v (Scalar.ofLong x))
    else if Scalar.less (Scalar.least inbox) (Scalar.ofLong x : α) then
      (Scalar.toLong (Scalar.least inbox), offers g v (Scalar.least inbox))
    else (x, [])

/-- In superstep 0 a vertex offers its own number. -/
theorem react_first {g : Graph α} {s v : Nat} {x : Int64} {inbox : List α} (hs : s = 0) :
    (reaction g).react s v x inbox = (x, offers g v (Scalar.ofLong x)) :=
  if_pos hs

/-- Later a vertex takes the least offer over if it is better than its label. -/
theorem react_later {g : Graph α} {s v : Nat} {x : Int64} {inbox : List α} (hs : s ≠ 0) :
    (reaction g).react s v x inbox
      = if Scalar.less (Scalar.least inbox) (Scalar.ofLong x : α) then
          (Scalar.toLong (Scalar.least inbox), offers g v (Scalar.least inbox)) else (x, []) :=
  if_neg hs

/-! ## Calls -/

/-- What a vertex does in a superstep. -/
theorem reply_compute {view : VertexView α} (hgraph : view.graph.IsSound)
    (hv : view.vertex < view.graph.nodeCount) {x : Int64}
    (hrow : view.row = ⟨⟨[slot]⟩, #[.long x]⟩) :
    (compute : HookM .compute α Unit).reply view
      = (reaction view.graph).answer ((reaction view.graph).react view.superstep view.vertex x
          view.inbox) := by
  -- superstep 0 offers without reading messages
  by_cases hs : view.superstep = 0
  · rw [react_first hs]
    refine Reaction.reply_of_ok ?_
    simp only [compute, HookM.bind_apply, HookM.isInitialSuperstep_apply, HookM.ite_apply, hs,
      beq_self_eq_true, if_true, HookM.voteToHalt_apply, hrow]
    rw [HookM.long_single key_slot]
    dsimp only
    rw [sendToNeighbors_apply hgraph hv, List.append_nil]
    rfl
  · rw [react_later hs]
    refine Reaction.reply_of_ok_ite ?_
    simp only [compute, HookM.bind_apply, HookM.isInitialSuperstep_apply, HookM.ite_apply, hs,
      beq_iff_eq, if_false, HookM.inbox_apply, hrow, HookM.voteToHalt_apply]
    rw [HookM.long_single key_slot]
    dsimp only
    rw [HookM.setLong_single key_slot]
    dsimp only
    rw [sendToNeighbors_apply hgraph hv, List.append_nil]
    rfl

/-- A call of the program is a reaction, if the numbers of the vertices are integers. -/
theorem runs {job : Job α} (hprogram : job.program = program) (hgraph : job.graph.IsSound)
    (hcount : job.graph.nodeCount ≤ longLimit) : (reaction job.graph).Runs job where
  schema := by
    rw [hprogram]
    rfl
  reducer := by
    rw [hprogram]
    rfl
  master := by
    rw [hprogram]
    rfl
  typed _ := rfl
  init v hv flag := by
    rw [hprogram]
    change (init : HookM .init α Unit).reply _
      = ⟨(reaction job.graph).row (.ofNat v), [], .ok ()⟩
    refine HookM.reply_of_ok (s := ⟨_, []⟩) ?_
    simp only [init, HookM.bind_apply, HookM.vertex_apply, HookM.ite_apply]
    -- the number of a vertex is an integer
    rw [if_pos (Nat.lt_of_lt_of_le hv hcount)]
    exact HookM.setLong_single key_slot 0 (.ofNat v)
  compute s v hv x inbox flag := by
    rw [hprogram]
    exact reply_compute hgraph hv rfl
  inside s v hv x inbox m hm := by
    have hoffers {y : α} (hm : m ∈ offers job.graph v y) : m.1 < job.graph.nodeCount := by
      obtain ⟨t, ht, rfl⟩ := List.mem_map.mp hm
      exact hgraph.inside v hv t ht
    rw [reaction] at hm
    dsimp only at hm
    split at hm
    · exact hoffers hm
    · split at hm
      · exact hoffers hm
      · cases hm

/-! ## Labels -/

variable {g : Graph α}

omit [Scalar α] in
/-- A label is passed on as it is. -/
theorem passOn_spreading (v : Nat) (x : Fin (2 ^ 53)) :
    (spreading g).passOn v x = (g.row v).map fun t => (t, x) :=
  List.map_map

omit [Scalar α] in
/-- Passing a label on does not change it, so it makes none less. -/
theorem inflating_spreading (hgraph : g.IsSound) : (spreading g).IsInflating where
  inside u hu e he := by
    obtain ⟨t, ht, rfl⟩ := List.mem_map.mp he
    exact hgraph.inside u hu t ht
  monotone u _ e he := by
    obtain ⟨t, _, rfl⟩ := List.mem_map.mp he
    exact monotone_id
  le u _ e he x := by
    obtain ⟨t, _, rfl⟩ := List.mem_map.mp he
    exact le_rfl
  greatest _ _ hstarts _ := absurd trivial hstarts

/-- The scalar that a label travels as. -/
def sent (i : Fin (2 ^ 53)) : α := Scalar.ofLong (label i)

/-- Labels that travel as scalars are compared as labels. -/
theorem mirrors_sent (h : Scalar.HoldsIds α) : Scalar.Mirrors (sent : Fin (2 ^ 53) → α) where
  less i j := h.less i j i.isLt j.isLt
  min i j := by
    rw [sent, sent, h.min i j i.isLt j.isLt, sent, label, Fin.coe_min]
  top i := h.top i i.isLt

omit [Scalar α] in
/-- The label that a vertex starts with is its number. -/
theorem label_first (hcount : g.nodeCount ≤ 2 ^ 53) {v : Nat} (hv : v < g.nodeCount) :
    Int64.ofNat v = label ((spreading g).first v) := by
  change _ = Int64.ofNat (v % 2 ^ 53)
  rw [Nat.mod_eq_of_lt (by omega)]

/-- The reactions of the program let labels spread. -/
theorem realizes (hgraph : g.IsSound) (hcount : g.nodeCount ≤ 2 ^ 53) (hids : Scalar.HoldsIds α) :
    Realizes (reaction g) (spreading g) (sent : Fin (2 ^ 53) → α) label := by
  -- an offer in labels stands for one in scalars
  have hmap (v : Nat) (x : Fin (2 ^ 53)) :
      ((spreading g).passOn v x).map (Prod.map id sent) = offers g v (sent x : α) := by
    rw [passOn_spreading, List.map_map]
    rfl
  -- a combined message is one scalar
  have hleast (y : Fin (2 ^ 53)) : Scalar.least [(sent y : α)] = sent y := hids.top y y.isLt
  exact {
    mirrors := mirrors_sent hids
    reducer := rfl
    inflating := inflating_spreading hgraph
    first := fun v hv => label_first hcount hv
    offer := fun v _ _ => by
      rw [hmap]
      rfl
    wait := fun _ _ hstarts => absurd trivial hstarts
    improve := fun s v hs _ x y hless => by
      rw [hmap]
      rw [react_later hs, hleast, ← sent, (mirrors_sent hids).less,
        if_pos (decide_eq_true hless), sent, hids.toLong y y.isLt]
    ignore := fun s v hs _ x y hge => by
      rw [react_later hs, hleast, ← sent, (mirrors_sent hids).less, if_neg (by simpa using hge)] }

omit [Scalar α] in
/-- Labels are brought by walks from the vertices that they name. -/
theorem walk_spreading_iff (hgraph : g.IsSound) (hcount : g.nodeCount ≤ 2 ^ 53) {k v : Nat}
    {x : Fin (2 ^ 53)} :
    (spreading g).Walk k v x ↔ x < g.nodeCount ∧ Reaches g x k v := by
  constructor
  · intro h
    -- on the walk, which carries the number of the vertex that it starts from
    induction h with
    | @start v hv _ =>
      -- numbers below `2 ^ 53` are not wrapped
      have hself : ((spreading g).first v : Nat) = v :=
        Nat.mod_eq_of_lt (Nat.lt_of_lt_of_le hv hcount)
      rw [hself]
      exact ⟨hv, .refl⟩
    | @step k u t x y hwalk hmem ih =>
      rw [passOn_spreading] at hmem
      obtain ⟨t, ht, heq⟩ := List.mem_map.mp hmem
      cases heq
      exact ⟨ih.1, ih.2.tail (hwalk.lt_nodeCount (inflating_spreading hgraph).inside) ht⟩
  · rintro ⟨hx, h⟩
    induction h with
    | refl =>
      have hself : (spreading g).first x = x := Fin.ext (Nat.mod_eq_of_lt x.isLt)
      have hstart := Spreading.Walk.start (P := spreading g) hx trivial
      rwa [hself] at hstart
    | @tail k v w _ _ hmem ih =>
      refine ih.step ?_
      rw [passOn_spreading]
      exact List.mem_map_of_mem hmem

omit [Scalar α] in
/-- A lower bound of the numbers of the vertices from which walks lead to `v`, that is one. -/
theorem isLeast_origins (hgraph : g.IsSound) (hcount : g.nodeCount ≤ 2 ^ 53) {lengths : Set Nat}
    {v : Nat} {x : Fin (2 ^ 53)}
    (hle : ∀ k ∈ lengths, ∀ y, (spreading g).Walk k v y → x ≤ y)
    (hmem : ∃ k ∈ lengths, (spreading g).Walk k v x) : IsLeast (origins g lengths v) x := by
  obtain ⟨k, hk, hwalk⟩ := hmem
  obtain ⟨hx, hreaches⟩ := (walk_spreading_iff hgraph hcount).mp hwalk
  -- the label itself names such a vertex, and no walk brings a lesser number
  refine ⟨⟨hx, k, hk, hreaches⟩, fun u ⟨hu, j, hj, hreaches⟩ => ?_⟩
  exact hle j hj ⟨u, by omega⟩ ((walk_spreading_iff hgraph hcount).mpr ⟨hu, hreaches⟩)

omit [Scalar α] in
/-- After superstep `s` the labels are those that walks over at most `s` relationships bring. -/
theorem isLeast_of_after (hgraph : g.IsSound) (hcount : g.nodeCount ≤ 2 ^ 53) {s : Nat}
    {labels : Nat → Fin (2 ^ 53)} {offers : Nat → List (Fin (2 ^ 53))}
    (h : (spreading g).After s labels offers) {v : Nat} (hv : v < g.nodeCount) :
    IsLeast (origins g (Set.Iic s) v) (labels v) := by
  refine isLeast_origins hgraph hcount
    (fun k hk y hwalk => h.le_of_walk (inflating_spreading hgraph) hk hwalk) ?_
  exact (h.exists_walk hv).resolve_right fun hstays => hstays.1 trivial

omit [Scalar α] in
/-- When nothing is offered any more, the labels are those that any walks bring. -/
theorem isLeast_of_quiet (hgraph : g.IsSound) (hcount : g.nodeCount ≤ 2 ^ 53) {s : Nat}
    {labels : Nat → Fin (2 ^ 53)} {offers : Nat → List (Fin (2 ^ 53))}
    (h : (spreading g).After s labels offers) (hquiet : ∀ v, v < g.nodeCount → offers v = [])
    {v : Nat} (hv : v < g.nodeCount) : IsLeast (origins g Set.univ v) (labels v) := by
  refine isLeast_origins hgraph hcount
    (fun k _ y hwalk => h.le_of_walk_of_quiet (inflating_spreading hgraph) hquiet hwalk) ?_
  obtain ⟨k, -, hwalk⟩ := (h.exists_walk hv).resolve_right fun hstays => hstays.1 trivial
  exact ⟨k, trivial, hwalk⟩

/-! ## Connected vertices -/

/-- Walks of the undirected graph lead to the vertices that are connected. -/
theorem reaches_toUndirected_iff {source : CsrGraph α} (hsource : source.toGraph.IsSound)
    {u v : Nat} :
    (∃ k, Reaches source.toUndirected.toGraph u k v) ↔ Connected source.toGraph u v := by
  have hcount : source.toUndirected.toGraph.nodeCount = source.nodeCount :=
    CsrGraph.nodeCount_toUndirected
  constructor
  · rintro ⟨k, h⟩
    induction h with
    | refl => exact .refl u
    | @tail k v w _ hv hmem ih =>
      rw [hcount] at hv
      -- the relationship itself or its reverse
      rcases (CsrGraph.mem_row_toUndirected hsource hv).mp hmem with hout | ⟨hw, hin⟩
      · exact ih.trans _ _ _ (.rel _ _ ⟨hv, hout⟩)
      · exact ih.trans _ _ _ (.symm _ _ (.rel _ _ ⟨hw, hin⟩))
  · intro h
    rw [Connected, ← Relation.EqvGen.reflTransGen_symmGen] at h
    induction h with
    | refl => exact ⟨0, .refl⟩
    | @tail v w _ hstep ih =>
      obtain ⟨k, hreaches⟩ := ih
      -- either direction is there to be walked
      rcases hstep with ⟨hv, hout⟩ | ⟨hw, hin⟩
      · exact ⟨k + 1, hreaches.tail (hcount ▸ hv)
          ((CsrGraph.mem_row_toUndirected hsource hv).mpr (.inl hout))⟩
      · have hv : v < source.nodeCount := hsource.inside w hw v hin
        exact ⟨k + 1, hreaches.tail (hcount ▸ hv)
          ((CsrGraph.mem_row_toUndirected hsource hv).mpr (.inr ⟨hw, hin⟩))⟩

/-- A label names the least vertex of a component. -/
theorem origins_toUndirected {source : CsrGraph α} (hsource : source.toGraph.IsSound) (v : Nat) :
    origins source.toUndirected.toGraph Set.univ v
      = {u | u < source.nodeCount ∧ Connected source.toGraph u v} := by
  ext u
  simp only [origins, Set.mem_ofPred_eq, Set.mem_univ, true_and, reaches_toUndirected_iff hsource]
  rw [show source.toUndirected.toGraph.nodeCount = source.nodeCount from
    CsrGraph.nodeCount_toUndirected]

omit [Scalar α] in
/-- Components with one least vertex are one component. -/
theorem connected_iff_eq {v w c d : Nat}
    (hc : IsLeast {u | u < g.nodeCount ∧ Connected g u v} c)
    (hd : IsLeast {u | u < g.nodeCount ∧ Connected g u w} d) : Connected g v w ↔ c = d := by
  constructor
  · intro h
    -- each of the two is in the other's component
    refine le_antisymm (hc.2 ⟨hd.1.1, ?_⟩) (hd.2 ⟨hc.1.1, ?_⟩)
    · exact hd.1.2.trans _ _ _ (.symm _ _ h)
    · exact hc.1.2.trans _ _ _ h
  · rintro rfl
    exact .trans _ _ _ (.symm _ _ hc.1.2) hd.1.2

end Components

open Components Workspace in
/-- Connected components over any sound graph of at most `2 ^ 53` vertices, with every computer, cap
and schedule. After superstep `s` each vertex is labelled with the least vertex from which a walk of
at most `s` relationships leads to it. The result of a run that converged is the least vertex from
which any walk leads there. On an undirected graph this is the least vertex of the component that
the vertex belongs to when directions are ignored, so two vertices have one label exactly if they
are connected. If nobody stops the run and the cap exceeds the number of vertices, the run
converges, and the last superstep has no greater number than there are vertices. -/
theorem connected_components {α : Type} [Scalar α] (hids : Scalar.HoldsIds α) {graph : Graph α}
    {config : Config} {flag : Flag} {r : Run α}
    (hcreate : Run.create graph config program flag = .ok r) (hgraph : graph.IsSound)
    (hcount : graph.nodeCount ≤ 2 ^ 53) (schedule : Schedule) :
    (∀ s control ws, Computes r.job schedule (r.opening ⟨[slot]⟩) s (.ok control) ws →
      ∀ v, v < graph.nodeCount → ∃ c, ws.values.long componentKey v = .ok (.ofNat c) ∧
        IsLeast (origins graph (Set.Iic s) v) c) ∧
    (∀ result, (r.execute schedule).1 = .ok result → ∀ v, v < graph.nodeCount →
      ∃ c, result.values.long componentKey v = .ok (.ofNat c) ∧ IsLeast (origins graph
        (if result.didConverge then Set.univ else Set.Iic (config.maxIterations - 1)) v) c) ∧
    (∀ source : CsrGraph α, source.toGraph.IsSound → graph = source.toUndirected.toGraph →
      ∀ result, (r.execute schedule).1 = .ok result → result.didConverge = true →
        (∀ v, v < graph.nodeCount → ∃ c, result.values.long componentKey v = .ok (.ofNat c) ∧
          IsLeast {u | u < source.nodeCount ∧ Connected source.toGraph u v} c) ∧
        ∀ v w, v < graph.nodeCount → w < graph.nodeCount →
          (result.values.long componentKey v = result.values.long componentKey w ↔
            Connected source.toGraph v w)) ∧
    (graph.nodeCount < config.maxIterations → (r.execute schedule).2.flag.raised = false →
      ∃ result, (r.execute schedule).1 = .ok result ∧ result.didConverge = true ∧
        result.ranIterations ≤ graph.nodeCount) := by
  obtain ⟨hg, hprogram, -⟩ := Run.job_of_create hcreate
  subst hg
  have hR : (reaction r.job.graph).Runs r.job := runs hprogram hgraph (hcount.trans (by decide))
  have hrealizes := realizes hgraph hcount hids
  have hresults (result : RunResult α) (hresult : (r.execute schedule).1 = .ok result) (v : Nat)
      (hv : v < r.job.graph.nodeCount) : ∃ c,
        result.values.long componentKey v = .ok (.ofNat c) ∧ IsLeast (origins r.job.graph
          (if result.didConverge then Set.univ else Set.Iic (config.maxIterations - 1)) v) c := by
    obtain ⟨labels, offers, hafter, hquiet, hnodes, hrows⟩ :=
      hrealizes.of_result hR hcreate rfl hresult
    refine ⟨labels v, NodeValues.long_of_row_single (hnodes ▸ hv) key_slot (hrows v hv), ?_⟩
    split
    · rename_i hconverged
      exact isLeast_of_quiet hgraph hcount hafter (hquiet hconverged) hv
    · rename_i hcapped
      rw [if_neg hcapped] at hafter
      exact isLeast_of_after hgraph hcount hafter hv
  refine ⟨fun s control ws hcomputes v hv => ?_, hresults, ?_, fun hcap hflag =>
    hrealizes.converges hR hcreate rfl hcap hflag⟩
  · -- the labels after a superstep
    obtain ⟨labels, offers, hafter, hnodes, hrows⟩ := hrealizes.computes hR rfl hcomputes
    exact ⟨labels v, NodeValues.long_of_row_single (hnodes ▸ hv) key_slot (hrows v hv),
      isLeast_of_after hgraph hcount hafter hv⟩
  · -- the labels of a run that converged on an undirected graph
    intro source hsource hundirected result hresult hconverged
    have hleast (v : Nat) (hv : v < r.job.graph.nodeCount) :
        ∃ c, result.values.long componentKey v = .ok (.ofNat c) ∧
          IsLeast {u | u < source.nodeCount ∧ Connected source.toGraph u v} c := by
      have h := hresults result hresult v hv
      rwa [if_pos hconverged, hundirected, origins_toUndirected hsource] at h
    refine ⟨hleast, fun v w hv hw => ?_⟩
    obtain ⟨c, hc, hcleast⟩ := hleast v hv
    obtain ⟨d, hd, hdleast⟩ := hleast w hw
    rw [connected_iff_eq hcleast hdleast, hc, hd]
    have hsmall : source.nodeCount ≤ 2 ^ 53 := by
      rwa [hundirected, show source.toUndirected.toGraph.nodeCount = source.nodeCount from
        CsrGraph.nodeCount_toUndirected] at hcount
    exact ⟨fun h => ofNat_injective (hcleast.1.1.trans_le hsmall) (hdleast.1.1.trans_le hsmall)
      (Except.ok.inj h), fun h => h ▸ rfl⟩

/-- Exact scalars hold the numbers of vertices. -/
theorem Exact.holdsIds : Scalar.HoldsIds Exact := by
  have hlong {i : Nat} (hi : i < 2 ^ 53) :
      (Scalar.ofLong (.ofNat i) : Exact) = .finite (i : ℤ) := by
    change finite _ = _
    rw [Int64.toInt_ofNat_of_lt (by omega)]
  have hless {i j : Nat} (hi : i < 2 ^ 53) (hj : j < 2 ^ 53) :
      Exact.less (Scalar.ofLong (.ofNat i)) (Scalar.ofLong (.ofNat j)) = decide (i < j) := by
    rw [hlong hi, hlong hj]
    simp [Exact.less]
  refine ⟨fun i j hi hj => hless hi hj, fun i j hi hj => ?_, fun i _ => rfl, fun i hi => ?_⟩
  · change (if Exact.less _ _ then _ else _) = _
    rw [hless hj hi]
    rcases lt_or_ge j i with hlt | hge
    · rw [if_pos (decide_eq_true hlt), min_eq_right hlt.le]
    · rw [if_neg (by simpa using hge), min_eq_left hge]
  · -- a whole number is converted back to itself
    rw [hlong hi]
    change Int64.ofIntClamp (((i : ℤ) : ℚ).num.tdiv ((i : ℤ) : ℚ).den) = _
    have hmax : Int64.maxValue.toInt = 9223372036854775807 := by decide
    have hmin : Int64.minValue.toInt = -9223372036854775808 := by decide
    rw [Rat.num_intCast, Rat.den_intCast, Nat.cast_one, Int.tdiv_one, ← Int64.toInt_inj,
      Int64.toInt_ofIntClamp (by omega) (by omega), Int64.toInt_ofNat_of_lt (by omega)]

namespace TwoParts

/-- Vertices 0, 1 and 2 are connected, and so are 3 and 4. -/
def source : CsrGraph Exact := CsrGraph.sortRows 5
  [⟨1, 0, .finite 1⟩, ⟨2, 1, .finite 1⟩, ⟨4, 3, .finite 1⟩] false none

def graph : Graph Exact := source.toUndirected.toGraph

/-- The connected components of both parts. -/
def run : Run Exact :=
  ⟨⟨graph, Components.program, ⟨6, 2, false, true, 2⟩, .forkJoin 2 Nat.two_pos⟩, .fresh, .created,
    #[.created (.forkJoin 2 Nat.two_pos) 5]⟩

/-- The rows of both parts name their vertices only. -/
theorem isSound_source : source.toGraph.IsSound := CsrGraph.isSound_sortRows (by decide)

/-- A run over both parts is created. -/
theorem create_run : Run.create graph ⟨6, 2, false, true, 2⟩ Components.program .fresh
    = .ok run := by
  have hcount : graph.nodeCount = 5 := by decide +kernel
  rw [Run.create, hcount]
  rfl

end TwoParts

open Components in
/-- The run over two parts converges, and its labels tell them apart. -/
theorem connected_components_twoParts :
    ∃ result, (TwoParts.run.execute Relay.secondFirst).1 = .ok result ∧
      result.didConverge = true ∧ result.ranIterations ≤ 5 ∧
      (List.range 5).map (fun v => (result.values.long componentKey v).toOption)
        = [some 0, some 0, some 0, some 3, some 3] ∧
      ∀ v w, v < 5 → w < 5 →
        (result.values.long componentKey v = result.values.long componentKey w ↔
          Connected TwoParts.source.toGraph v w) := by
  have hcount : TwoParts.graph.nodeCount = 5 := by decide +kernel
  obtain ⟨-, -, hundirected, hconverges⟩ := connected_components Exact.holdsIds
    TwoParts.create_run (CsrGraph.isSound_toUndirected TwoParts.isSound_source)
    (hcount.trans_le (by decide)) Relay.secondFirst
  have hflag : (TwoParts.run.execute Relay.secondFirst).2.flag.raised = false := by decide +kernel
  rw [hcount] at hundirected hconverges
  obtain ⟨result, hresult, hconverged, hran⟩ := hconverges (by decide) hflag
  have hvalues : ((TwoParts.run.execute Relay.secondFirst).1.map fun result => (List.range 5).map
      fun v => (result.values.long componentKey v).toOption)
        = .ok [some 0, some 0, some 0, some 3, some 3] := by decide +kernel
  rw [hresult] at hvalues
  refine ⟨result, hresult, hconverged, hran, Except.ok.inj hvalues, ?_⟩
  exact (hundirected TwoParts.source TwoParts.isSound_source rfl result hresult hconverged).2

end Superstep
