import Superstep.Graph
import Superstep.Graph.IdTable
import Superstep.Scalar

/-!
# Graphs in compressed rows

`CsrGraph` stores the targets of all rows in one array, row after row, with an array of offsets that
says where each row starts. Weights, if there are any, lie in an array of their own under the same
positions.

Most constructors take relationships in any order and bring them into rows by a counting sort:
`rowOffsets` counts the relationships of every source and adds the counts up, `positions` gives each
relationship the next free place of its row, and `scatter` writes it there. The relationships of one
source keep their order.
-/

namespace Superstep

/-- A relationship between two vertices. -/
structure Relationship (α : Type) where
  source : Nat
  target : Nat
  weight : α
  deriving Repr, DecidableEq

/-- A directed graph in compressed rows. -/
structure CsrGraph (α : Type) where
  /-- Where each row starts, and at the end where the last row ends. -/
  offsets : Array Nat
  /-- The targets of all rows. -/
  targets : Array Nat
  /-- The weights of all rows, unless the graph is unweighted. -/
  weights : Option (Array α)
  /-- The ids under which the vertices were loaded, unless those are the vertex numbers. -/
  ids : Option IdTable
  deriving Repr

namespace CountingSort

variable {α β : Type}

/-- The number of relationships of every source `s`, under index `s + 1`. -/
def sourceCounts (n : Nat) (edges : List (Relationship α)) : Array Nat :=
  edges.foldl (fun counts e => counts.modify (e.source + 1) (· + 1)) (.replicate (n + 1) 0)

/-- The array in which each of the first `n + 1` entries was added to all later ones. -/
def accumulate (n : Nat) (counts : Array Nat) : Array Nat :=
  -- when entry `i` is added to the next one, it is the sum of all up to `i`
  (List.range n).foldl (fun a i => let before := a.getD i 0; a.modify (i + 1) (· + before)) counts

/-- Where each row starts, and at the end where the last row ends. -/
def rowOffsets (n : Nat) (edges : List (Relationship α)) : Array Nat :=
  accumulate n (sourceCounts n edges)

/-- Gives a relationship the next free place of its row. The state is the next free place of every
row, and the places given so far. -/
def assign : Array Nat × Array Nat → Relationship α → Array Nat × Array Nat
  | (next, places), e =>
    let place := next.getD e.source 0
    (next.modify e.source (· + 1), places.push place)

/-- The place of each relationship, where `starts` holds the first place of every row. -/
def positions (starts : Array Nat) (edges : List (Relationship α)) : List Nat :=
  (edges.foldl assign (starts, #[])).2.toList

/-- Writes values at their places. -/
def scatter (cells : Array β) (values : List (Nat × β)) : Array β :=
  values.foldl (fun a (place, b) => a.setIfInBounds place b) cells

end CountingSort

namespace CsrGraph

variable {α : Type}

/-- Number of vertices. -/
def nodeCount (g : CsrGraph α) : Nat := g.offsets.size - 1

/-- Number of relationships. -/
def relationshipCount (g : CsrGraph α) : Nat := g.targets.size

/-- Where the row of a vertex starts and ends. -/
def bounds? (g : CsrGraph α) (node : Nat) : Option (Nat × Nat) :=
  if node < g.nodeCount then some (g.offsets.getD node 0, g.offsets.getD (node + 1) 0) else none

/-- Number of relationships that leave a vertex. -/
def degree? (g : CsrGraph α) (node : Nat) : Option Nat :=
  (g.bounds? node).map fun (start, stop) => stop - start

/-- Targets of the relationships that leave a vertex. -/
def targets? (g : CsrGraph α) (node : Nat) : Option (List Nat) :=
  (g.bounds? node).map fun (start, stop) => (g.targets.extract start stop).toList

/-- Targets and weights of the relationships that leave a vertex. -/
def weightedTargets? (g : CsrGraph α) (fallback : α) (node : Nat) : Option (List (Nat × α)) :=
  (g.bounds? node).map fun (start, stop) =>
    let targets := (g.targets.extract start stop).toList
    match g.weights with
    | none => targets.map fun t => (t, fallback)
    | some weights => targets.zip (weights.extract start stop).toList

/-- The id under which a vertex was loaded. -/
def externalId? (g : CsrGraph α) (node : Nat) : Option UInt64 :=
  if node < g.nodeCount then
    match g.ids with
    | some table => table.id? node
    | none => some node.toUInt64
  else none

/-- The vertex that was loaded under an id. -/
def denseId? (g : CsrGraph α) (id : UInt64) : Option Nat :=
  match g.ids with
  | some table => table.node? id
  | none => if id.toNat < g.nodeCount then some id.toNat else none

/-- The graph as the engine sees it. -/
def toGraph (g : CsrGraph α) : Graph α where
  nodeCount := g.nodeCount
  relationshipCount := g.relationshipCount
  hasWeights := g.weights.isSome
  degree? := g.degree?
  targets? := g.targets?
  weightedTargets? := g.weightedTargets?
  externalId? := g.externalId?
  denseId? := g.denseId?

/-- Rejects the first relationship with an end that does not exist. -/
def checkEdges (n : Nat) : List (Relationship α) → Except Violation Unit
  | [] => .ok ()
  | e :: edges =>
    if e.source < n ∧ e.target < n then checkEdges n edges
    else .error (.relationship e.source e.target n)

/-- The rows of relationships between existing vertices. -/
def sortRows [Scalar α] (n : Nat) (edges : List (Relationship α)) (weighted : Bool)
    (ids : Option IdTable) : CsrGraph α :=
  let offsets := CountingSort.rowOffsets n edges
  let places := CountingSort.positions offsets edges
  let targets := CountingSort.scatter (.replicate edges.length 0)
    (places.zip (edges.map (·.target)))
  let weights := CountingSort.scatter (.replicate edges.length Scalar.zero)
    (places.zip (edges.map (·.weight)))
  ⟨offsets, targets, if weighted then some weights else none, ids⟩

/-- The weighted graph of `n` vertices with the given relationships. -/
def ofWeightedEdges [Scalar α] (n : Nat) (edges : List (Relationship α)) :
    Except Violation (CsrGraph α) :=
  (checkEdges n edges).map fun _ => sortRows n edges true none

/-- The unweighted graph of `n` vertices with relationships between the given pairs. -/
def ofEdges [Scalar α] (n : Nat) (edges : List (Nat × Nat)) : Except Violation (CsrGraph α) :=
  let edges := edges.map fun (s, t) => ⟨s, t, Scalar.one⟩
  (checkEdges n edges).map fun _ => sortRows n edges false none

/-- Rejects the first target that does not exist, in row order. -/
def checkRows (n : Nat) : (source : Nat) → List (List Nat) → Except Violation Unit
  | _, [] => .ok ()
  | source, row :: rows =>
    match row.find? (n ≤ ·) with
    | some t => .error (.relationship source t n)
    | none => checkRows n (source + 1) rows

/-- The sums of the first `0, 1, …` numbers of a list, added to `total`. -/
def runningSums : (total : Nat) → List Nat → List Nat
  | total, [] => [total]
  | total, k :: ks => total :: runningSums (total + k) ks

/-- The unweighted graph with the given rows. -/
def ofAdjacency (rows : List (List Nat)) : Except Violation (CsrGraph α) :=
  (checkRows rows.length 0 rows).map fun _ =>
    ⟨(runningSums 0 (rows.map List.length)).toArray, rows.flatten.toArray, none, none⟩

/-- Whether no number of a list is less than the one before. -/
def isMonotone : List Nat → Bool
  | a :: b :: rest => decide (a ≤ b) && isMonotone (b :: rest)
  | _ => true

/-- The unweighted graph of given offsets and targets. -/
def ofParts (offsets targets : List Nat) : Except Violation (CsrGraph α) :=
  match offsets.getLast? with
  | none => .error .noOffsets
  | some last =>
    let n := offsets.length - 1
    -- offsets that start past zero are let through: the targets before the first row are no one's
    if !isMonotone offsets then .error .offsetsNotMonotone
    else if last ≠ targets.length then .error .offsetsEnd
    else match targets.find? (n ≤ ·) with
      | some t => .error (.rowTarget t n)
      | none => .ok ⟨offsets.toArray, targets.toArray, none, none⟩

/-- A relationship between vertices named by their ids, possibly with a weight. -/
structure ExternalEdge (α : Type) where
  source : UInt64
  target : UInt64
  weight : Option α
  deriving Repr, DecidableEq

/-- The graph of relationships between arbitrary ids. Vertices are numbered in ascending order of
id. The graph is weighted if some relationship has a weight; the others then weigh one. -/
def ofExternalEdges [Scalar α] (edges : List (ExternalEdge α)) : CsrGraph α :=
  let table := IdTable.ofList (edges.flatMap fun e => [e.source, e.target])
  let dense := edges.map fun e =>
    ⟨(table.node? e.source).getD 0, (table.node? e.target).getD 0, e.weight.getD Scalar.one⟩
  sortRows table.size dense (edges.any (·.weight.isSome)) (some table)

/-- The relationships in row order. -/
def relationships [Scalar α] (g : CsrGraph α) : List (Relationship α) :=
  (List.range g.nodeCount).flatMap fun u =>
    ((g.weightedTargets? Scalar.one u).getD []).map fun (t, w) => ⟨u, t, w⟩

/-- The graph in which every relationship also goes the other way. -/
def toUndirected [Scalar α] (g : CsrGraph α) : CsrGraph α :=
  let edges := g.relationships.flatMap fun e => [e, ⟨e.target, e.source, e.weight⟩]
  sortRows g.nodeCount edges g.weights.isSome g.ids

/-- The graph after `k` times `toUndirected`. -/
def toUndirectedTimes [Scalar α] : (k : Nat) → CsrGraph α → CsrGraph α
  | 0, g => g
  | k + 1, g => toUndirectedTimes k g.toUndirected

end CsrGraph

end Superstep
