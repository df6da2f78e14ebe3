import Mathlib
import Superstep.CommandLine
import Superstep.Proofs.Graph.Linked
import Superstep.Proofs.Run.Unattended

/-!
# Connected components on the command line

What the program prints about connected components, from the text of the file to the objects of the
result. A run over the undirected graph labels each vertex with the least vertex of its component
(`Components.exists_result`), and in the order of ids the number of that vertex is the number of
ids below the smallest one of the component.

## Key results

- `Components.exists_result`: a run that nobody stops converges to the least vertices
- `CommandLine.vertexJson_of_row`: the object of a vertex
- `CommandLine.exists_executeUnder`: the result of a command
- `components_printed`: what a command prints, in terms of the relationships in the file
-/

namespace Superstep

variable {α : Type}

namespace NodeValues

variable {values : NodeValues α} {v : Nat} {e : Element α} {c : Cell α}

/-- A vertex with one cell has a schema of one slot. -/
theorem schema_of_row_single (hrow : values.row v = ⟨⟨[e]⟩, #[c]⟩) : values.schema = ⟨[e]⟩ :=
  congrArg Row.schema hrow

/-- The one cell of a vertex is found under its key. -/
theorem cell_of_row_single (hv : v < values.nodeCount) (hrow : values.row v = ⟨⟨[e]⟩, #[c]⟩) :
    (values.column? e.key).bind (·.cell? v) = some c := by
  have hindex : values.schema.indexOf? e.key = some 0 := by
    rw [schema_of_row_single hrow]
    simp [Schema.indexOf?]
  have hcell := getElem?_cells_row hv 0
  rw [hrow] at hcell
  rw [column?, hindex]
  exact hcell.symm

end NodeValues

/-- A configuration that was built is one that runs start with. -/
theorem Run.exists_create_of_build {processors : Nat} {settings : List Config.Setting}
    {config : Config} (h : Config.build processors settings = .ok config) (graph : Graph α)
    (program : Program α) (flag : Flag) : ∃ r, Run.create graph config program flag = .ok r := by
  -- building checks the same fields as creating a run does
  have hvalid : config.invalidField? = none := by
    rw [Config.build, Config.validate] at h
    cases hinvalid : ((Config.default processors).applyAll settings).invalidField? with
    | some field =>
      rw [hinvalid] at h
      cases h
    | none =>
      rw [hinvalid] at h
      cases h
      exact hinvalid
  rw [Run.create]
  split
  · rename_i hfield
    cases hvalid.symm.trans hfield
  · exact ⟨_, rfl⟩

namespace Components

/-- A run over an undirected graph that nobody stops converges, and labels each vertex with the
least vertex of its component. -/
theorem exists_result [Scalar α] (hids : Scalar.HoldsIds α) {source : CsrGraph α}
    (hsource : source.toGraph.IsSound) (hcount : source.nodeCount ≤ 2 ^ 53) {config : Config}
    {r : Run α}
    (hcreate : Run.create source.toUndirected.toGraph config program .fresh = .ok r)
    (hcap : source.nodeCount < config.maxIterations) {schedule : Schedule}
    (hschedule : schedule.IsUnattended) :
    ∃ result, (r.execute schedule).1 = .ok result ∧ result.didConverge = true ∧
      result.ranIterations ≤ source.nodeCount ∧ result.values.nodeCount = source.nodeCount ∧
      ∀ v, v < source.nodeCount → ∃ c : Nat, c < 2 ^ 53 ∧
        result.values.row v = ⟨⟨[slot]⟩, #[.long (.ofNat c)]⟩ ∧
        IsLeast {u | u < source.nodeCount ∧ Connected source.toGraph u v} c := by
  have hsame : source.toUndirected.toGraph.nodeCount = source.nodeCount :=
    CsrGraph.nodeCount_toUndirected
  have hgraph := CsrGraph.isSound_toUndirected hsource
  have hsmall : source.toUndirected.toGraph.nodeCount ≤ 2 ^ 53 := hsame.trans_le hcount
  obtain ⟨hjob, hprogram, -⟩ := Run.job_of_create hcreate
  have hR : (reaction source.toUndirected.toGraph).Runs r.job :=
    hjob ▸ runs hprogram (hjob ▸ hgraph) (hjob ▸ hsmall.trans (by decide))
  have hrealizes := realizes hgraph hsmall hids
  -- a fresh flag stays down, since the schedule has nobody raise it
  have hflag : (r.execute schedule).2.flag.raised = false := by
    obtain ⟨computer, rfl⟩ := Run.of_create hcreate
    rw [Run.flag_execute hschedule rfl]
    rfl
  obtain ⟨result, hresult, hconverged, hran⟩ :=
    hrealizes.converges hR hcreate rfl (hsame.trans_lt hcap) hflag
  obtain ⟨labels, offers, hafter, hquiet, hnodes, hrows⟩ :=
    hrealizes.of_result hR hcreate rfl hresult
  refine ⟨result, hresult, hconverged, hsame ▸ hran, hnodes.trans hsame, fun v hv => ?_⟩
  rw [← hsame] at hv
  refine ⟨labels v, (labels v).isLt, hrows v hv, ?_⟩
  rw [← origins_toUndirected hsource]
  exact isLeast_of_quiet hgraph hsmall hafter (hquiet hconverged) hv

end Components

namespace CommandLine

open Components (slot)
open CsrGraph (ExternalEdge endpoints Linked NumbersComponents SameLinks countBelow)

/-! ## Objects -/

/-- The object of an id in a component. -/
def componentJson (component : Nat) (id : UInt64) : Json :=
  .record [("component", .ofNat component), ("node_id", .ofNat id.toNat)]

/-- The result of a run that converged. -/
def convergedJson (nodes : List Json) (ranIterations : Nat) : Json :=
  .record [("did_converge", .bool true), ("nodes", .array nodes),
    ("ran_iterations", .ofNat ranIterations)]

/-- A number of a vertex is printed as the natural number that it is. -/
theorem ofInt_toInt {c : Nat} (h : c < 2 ^ 53) : Json.ofInt (Int64.ofNat c).toInt = .ofNat c := by
  rw [Int64.toInt_ofNat_of_lt (by omega)]
  simp [Json.ofInt, JsonNumber.ofInt, Json.ofNat, JsonNumber.ofNat]

/-- The object of a vertex with one number. -/
theorem vertexJson_of_row {format : ScalarFormat α} {graph : Graph α} {values : NodeValues α}
    {v c : Nat} {id : UInt64} (hid : graph.externalId? v = some id) (hv : v < values.nodeCount)
    (hc : c < 2 ^ 53) (hrow : values.row v = ⟨⟨[slot]⟩, #[.long (.ofNat c)]⟩) :
    vertexJson format graph values v = componentJson c id := by
  have hkeys : values.publicKeys = [Components.componentKey] := by
    rw [NodeValues.publicKeys, NodeValues.schema_of_row_single hrow]
    rfl
  have hcell : (values.column? Components.componentKey).bind (·.cell? v)
      = some (.long (.ofNat c)) := NodeValues.cell_of_row_single hv hrow
  -- the one public key of the vertex gives the one member besides its id
  have hmember : ([Components.componentKey].filterMap fun key =>
      ((values.column? key).bind (·.cell? v)).map fun cell => (key, cellJson format cell))
        = [("component", .ofNat c)] := by
    rw [List.filterMap_cons, hcell, Option.map_some, cellJson, ofInt_toInt hc, List.filterMap_nil]
    rfl
  rw [vertexJson, hid, hkeys]
  dsimp only
  rw [hmember]
  simp [componentJson, sortedRecord, List.mergeSort]

/-- The result of a run that converged, in JSON. -/
theorem resultJson_of_converged {format : ScalarFormat α} {graph : Graph α} {result : RunResult α}
    (h : result.didConverge = true) : resultJson format graph result
      = convergedJson ((List.range result.values.nodeCount).map
        (vertexJson format graph result.values)) result.ranIterations := by
  simp [resultJson, h, convergedJson, sortedRecord, List.mergeSort]

/-! ## Commands -/

variable [Scalar α] {text : ScalarText α} {processors : Nat} {command : Command α}
  {config : Config} {content : String} {edges : List (ExternalEdge α)} {schedule : Schedule}

/-- One object is made for each id, in ascending order. -/
theorem map_vertexJson (format : ScalarFormat α) {values : NodeValues α} {label : Nat → Nat}
    (hvalues : values.nodeCount = (CsrGraph.ofExternalEdges edges).nodeCount)
    (hsmall : ∀ v, v < values.nodeCount → label v < 2 ^ 53)
    (hrow : ∀ v, v < values.nodeCount →
      values.row v = ⟨⟨[slot]⟩, #[.long (.ofNat (label v))]⟩) :
    (List.range values.nodeCount).map
        (vertexJson format (CsrGraph.ofExternalEdges edges).toUndirected.toGraph values)
      = (ascendingIds (endpoints edges)).map fun id =>
        componentJson (label (countBelow (endpoints edges) id)) id := by
  refine List.ext_getElem? fun v => ?_
  rw [List.getElem?_map, List.getElem?_map, ← CsrGraph.externalId?_ofExternalEdges]
  by_cases hv : v < values.nodeCount
  · -- a vertex of the graph has the id that is in its place
    obtain ⟨id, -, hid, -⟩ :=
      (CsrGraph.numberedBy_ofExternalEdges edges).ofVertex v (hvalues ▸ hv)
    have hundirected : (CsrGraph.ofExternalEdges edges).toUndirected.toGraph.externalId? v
        = some id := (CsrGraph.externalId?_toUndirected v).trans hid
    rw [List.getElem?_range hv, hid, Option.map_some, Option.map_some,
      vertexJson_of_row hundirected hv (hsmall v hv) (hrow v hv), ← CsrGraph.eq_countBelow hid]
  · rw [CsrGraph.externalId?, if_neg (hvalues ▸ hv), List.getElem?_eq_none (by simpa using hv)]
    rfl

/-- The run behind the result of a command. -/
theorem executeUnder_of_result (halgorithm : command.algorithm = .connectedComponents)
    (hconfig : Config.build processors command.settings = .ok config)
    (hedges : EdgeList.read text.arguments.read content.toList = .ok edges) {r : Run α}
    (hcreate : Run.create (CsrGraph.ofExternalEdges edges).toUndirected.toGraph config
      Components.program .fresh = .ok r) {result : RunResult α}
    (hresult : (r.execute schedule).1 = .ok result) :
    executeUnder schedule text processors command (.ok content) = .ok (resultJson text.json
      (CsrGraph.ofExternalEdges edges).toUndirected.toGraph result) := by
  simp only [executeUnder, hedges, hconfig, halgorithm, runAlgorithm, runProgram, hcreate, hresult]

/-- What a command answers about the components of a file that is read. -/
theorem exists_executeUnder (hids : Scalar.HoldsIds α)
    (halgorithm : command.algorithm = .connectedComponents)
    (hconfig : Config.build processors command.settings = .ok config)
    (hedges : EdgeList.read text.arguments.read content.toList = .ok edges)
    (hcount : (endpoints edges).toFinset.card ≤ 2 ^ 53)
    (hcap : (endpoints edges).toFinset.card < config.maxIterations)
    (hschedule : schedule.IsUnattended) :
    ∃ (component : UInt64 → Nat) (k : Nat),
      NumbersComponents edges component ∧ k ≤ (endpoints edges).toFinset.card ∧
      executeUnder schedule text processors command (.ok content) = .ok (convergedJson
        ((ascendingIds (endpoints edges)).map fun id => componentJson (component id) id) k) := by
  have hnumbered := CsrGraph.numberedBy_ofExternalEdges edges
  rw [← hnumbered.nodeCount] at hcount hcap ⊢
  obtain ⟨r, hcreate⟩ := Run.exists_create_of_build hconfig
    (CsrGraph.ofExternalEdges edges).toUndirected.toGraph Components.program .fresh
  obtain ⟨result, hresult, hconverged, hran, hvalues, hrows⟩ := Components.exists_result hids
    (CsrGraph.isSound_ofExternalEdges edges) hcount hcreate hcap hschedule
  -- the least vertex of the component of every vertex
  choose! label hsmall hrow hleast using hrows
  have hobjects := map_vertexJson text.json hvalues (hvalues ▸ hsmall) (hvalues ▸ hrow)
  refine ⟨fun id => label (countBelow (endpoints edges) id), result.ranIterations,
    fun id hid => ?_, hran, ?_⟩
  · -- the vertex of an id has the number of smaller ids
    obtain ⟨v, hv, -, hexternal⟩ := hnumbered.ofId id hid
    dsimp only
    rw [← CsrGraph.eq_countBelow hexternal]
    exact CsrGraph.isLeastLinked_of_isLeast hexternal (hleast v hv)
  · rw [executeUnder_of_result halgorithm hconfig hedges hcreate hresult,
      resultJson_of_converged hconverged, hobjects]

/-- Unless the run is stopped, the command prints these objects, and that the run converged. -/
def Prints (text : ScalarText α) (processors : Nat) (command : Command α) (content : String)
    (nodes : List Json) : Prop :=
  ∀ schedule : Schedule, schedule.IsUnattended → ∃ k, k ≤ nodes.length ∧
    let result := convergedJson nodes k
    executeUnder schedule text processors command (.ok content) = .ok result ∧
      command.outcome (executeUnder schedule text processors command (.ok content))
        = ⟨0, (if command.pretty then result.pretty else result.compact) ++ "\n", ""⟩

end CommandLine

open CommandLine CsrGraph in
/-- Connected components on the command line, for every file that is an edge list, with at most
`2 ^ 53` different ids and fewer than the cap. The run converges, and one object is printed for each
id, in ascending order. The component of an id is the number of ids in the file that are smaller
than the smallest id to which it is connected, so that two ids have one component exactly if they
are connected when directions are ignored. The same objects are printed for every file that relates
the same ids. -/
theorem components_printed {α : Type} [Scalar α] (hids : Scalar.HoldsIds α) {text : ScalarText α}
    {processors : Nat} {command : Command α} {config : Config} {content : String}
    {edges : List (ExternalEdge α)} (halgorithm : command.algorithm = .connectedComponents)
    (hconfig : Config.build processors command.settings = .ok config)
    (hedges : EdgeList.read text.arguments.read content.toList = .ok edges)
    (hcount : (endpoints edges).toFinset.card ≤ 2 ^ 53)
    (hcap : (endpoints edges).toFinset.card < config.maxIterations) :
    ∃ (ids : List UInt64) (component : UInt64 → Nat),
      ids.Pairwise (· < ·) ∧ (∀ id, id ∈ ids ↔ id ∈ endpoints edges) ∧
      (∀ id ∈ ids, ∃ least, IsLeastLinked edges id least ∧
        component id = countBelow (endpoints edges) least) ∧
      (∀ id ∈ ids, ∀ id' ∈ ids, component id = component id' ↔ Linked edges id id') ∧
      Prints text processors command content (ids.map fun id => componentJson (component id) id) ∧
      ∀ content' edges', EdgeList.read text.arguments.read content'.toList = .ok edges' →
        SameLinks edges edges' → Prints text processors command content'
          (ids.map fun id => componentJson (component id) id) := by
  obtain ⟨component, -, hnumbers, -, -⟩ := exists_executeUnder hids halgorithm hconfig hedges hcount
    hcap Schedule.isUnattended_sequential
  have hprints {content' : String} {edges' : List (ExternalEdge α)}
      (hedges' : EdgeList.read text.arguments.read content'.toList = .ok edges')
      (hsame : SameLinks edges edges') : Prints text processors command content'
        ((ascendingIds (endpoints edges)).map fun id => componentJson (component id) id) := by
    intro schedule hschedule
    have hcard := hsame.toFinset_endpoints
    obtain ⟨component', k, hnumbers', hk, hresult⟩ := exists_executeUnder hids halgorithm hconfig
      hedges' (hcard ▸ hcount) (hcard ▸ hcap) hschedule
    -- both lists of objects are about the same ids, and tell them the same numbers
    have hobjects : ((ascendingIds (endpoints edges')).map fun id =>
        componentJson (component' id) id)
          = (ascendingIds (endpoints edges)).map fun id => componentJson (component id) id := by
      rw [← hsame.ascendingIds_eq]
      refine List.map_congr_left fun id hid => ?_
      rw [hnumbers.eq_of_sameLinks hsame hnumbers' (mem_ascendingIds.mp hid)]
    rw [hobjects] at hresult
    refine ⟨k, ?_, hresult, by rw [hresult]; rfl⟩
    rw [List.length_map, length_ascendingIds, hcard]
    exact hk
  refine ⟨ascendingIds (endpoints edges), component, pairwise_ascendingIds _,
    fun _ => mem_ascendingIds, fun id hid => hnumbers id (mem_ascendingIds.mp hid),
    fun id hid id' hid' => hnumbers.eq_iff_linked (mem_ascendingIds.mp hid)
      (mem_ascendingIds.mp hid'), hprints hedges (.refl edges), fun _ _ => hprints⟩

namespace FourIds

/-- Scalars that are neither read nor printed. -/
def text : CommandLine.ScalarText Exact :=
  ⟨⟨fun _ => none, .finite 0, .finite 0⟩, fun _ => "", ⟨fun _ => none, fun _ => none⟩⟩

/-- Ids that are not the numbers of vertices, a comment, a pair in both directions, and a loop. -/
def content : List Char :=
  ['9', ' ', '4', '\n', '#', '\n', '4', ' ', '9', '\n', '7', '\t', '7', '\r', '\n', '2', ' ', '9']

def edges : List (CsrGraph.ExternalEdge Exact) :=
  [⟨9, 4, none⟩, ⟨4, 9, none⟩, ⟨7, 7, none⟩, ⟨2, 9, none⟩]

def command : CommandLine.Command Exact := ⟨"pairs", [.maxIterations 5], true, .connectedComponents⟩

/-- The file is read as its four relationships. -/
theorem read_content :
    EdgeList.read text.arguments.read (String.ofList content).toList = .ok edges := by
  rw [String.toList_ofList]
  rfl

/-- Nothing is connected to the loop. -/
theorem eq_of_linked {id : UInt64} (h : CsrGraph.Linked edges id 7) : id = 7 := by
  -- every relationship has the loop's vertex at both ends or at none
  have hsides : Relation.EqvGen Eq (decide (id = 7)) (decide (7 = (7 : UInt64))) := by
    refine CsrGraph.eqvGen_map (fun id => decide (id = 7)) (fun a b hab => .rel _ _ ?_) h
    obtain ⟨e, he, rfl, rfl⟩ := hab
    revert e
    decide
  rw [eq_equivalence.eqvGen_iff] at hsides
  simpa using hsides

end FourIds

open CommandLine in
/-- Three ids are one component and the third smallest is another, for which two ids are counted. -/
theorem components_printed_fourIds : ∃ component : UInt64 → Nat,
    (component 2, component 4, component 7, component 9) = (0, 0, 2, 0) ∧
      ∃ ids : List UInt64, (∀ id, id ∈ ids ↔ id ∈ [2, 4, 7, 9]) ∧
        Prints FourIds.text 1 FourIds.command (String.ofList FourIds.content)
          (ids.map fun id => componentJson (component id) id) := by
  have hconfig : Config.build 1 FourIds.command.settings = .ok ⟨5, 1, false, false, 1000⟩ := rfl
  obtain ⟨ids, component, -, hmem, hleast, hlinked, hprints, -⟩ := components_printed
    Exact.holdsIds rfl hconfig FourIds.read_content (by decide) (by decide)
  have hids (id : UInt64) : id ∈ ids ↔ id ∈ [2, 4, 7, 9] := by
    rw [hmem]
    simp [CsrGraph.endpoints, FourIds.edges]
    tauto
  have hnumber {id : UInt64} {k : Nat} (hid : id ∈ [2, 4, 7, 9])
      (hle : ∀ least ∈ CsrGraph.endpoints FourIds.edges, CsrGraph.Linked FourIds.edges least id →
        least ≤ id → least = id)
      (hk : CsrGraph.countBelow (CsrGraph.endpoints FourIds.edges) id = k) : component id = k := by
    obtain ⟨least, h, hcomponent⟩ := hleast id ((hids id).mpr hid)
    have hoccurs : id ∈ CsrGraph.endpoints FourIds.edges := (hmem id).mp ((hids id).mpr hid)
    rw [hcomponent, hle least h.occurs h.linked (h.le id hoccurs (.refl id)), hk]
  have hlink {id id' : UInt64} (h : CsrGraph.Relates FourIds.edges id id') :
      component id = component id' := by
    refine (hlinked id ?_ id' ?_).mpr (.rel _ _ h)
    · exact (hmem id).mpr (CsrGraph.mem_endpoints_iff.mpr ⟨id', .inl h⟩)
    · exact (hmem id').mpr (CsrGraph.mem_endpoints_iff.mpr ⟨id, .inr h⟩)
  have hsmallest : ∀ least ∈ CsrGraph.endpoints FourIds.edges, least ≤ 2 → least = 2 := by
    simp [CsrGraph.endpoints, FourIds.edges]
  have htwo : component 2 = 0 :=
    hnumber (by decide) (fun least hleast _ => hsmallest least hleast) (by decide)
  have hseven : component 7 = 2 :=
    hnumber (by decide) (fun _ _ h _ => FourIds.eq_of_linked h) (by decide)
  have hnine : component 2 = component 9 := hlink ⟨⟨2, 9, none⟩, by decide, rfl, rfl⟩
  have hfour : component 4 = component 9 := hlink ⟨⟨4, 9, none⟩, by decide, rfl, rfl⟩
  exact ⟨component, by rw [hfour, ← hnine, htwo, hseven], ids, hids, hprints⟩

end Superstep
