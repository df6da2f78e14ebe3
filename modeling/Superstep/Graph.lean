import Superstep.Violation

/-!
# Graphs

The engine reads a graph and never changes it. Vertices are the numbers below `nodeCount`; a graph
also knows under which id each vertex was loaded. Every question about a vertex that does not exist
has the answer `none`.

A row is the list of relationships that leave a vertex, in a fixed order. `visit` hands a row to a
consumer that may stop early.
-/

namespace Superstep

/-- A directed graph, as the engine and vertex programs see it. -/
structure Graph (α : Type) where
  /-- Number of vertices. -/
  nodeCount : Nat
  /-- Number of relationships. -/
  relationshipCount : Nat
  /-- Whether relationships carry weights of their own. -/
  hasWeights : Bool
  /-- Number of relationships that leave a vertex. -/
  degree? : Nat → Option Nat
  /-- Targets of the relationships that leave a vertex. -/
  targets? : Nat → Option (List Nat)
  /-- Targets and weights of the relationships that leave a vertex. Without weights of its own,
  every relationship has the given one. -/
  weightedTargets? : (fallback : α) → Nat → Option (List (Nat × α))
  /-- The id under which a vertex was loaded. -/
  externalId? : Nat → Option UInt64
  /-- The vertex that was loaded under an id. -/
  denseId? : UInt64 → Option Nat

/-- Hands items to a consumer in order until it answers `false`. -/
def visit {β σ : Type} (consumer : σ → β → σ × Bool) : σ → List β → σ
  | s, [] => s
  | s, b :: rest =>
    match consumer s b with
    | (s, true) => visit consumer s rest
    | (s, false) => s

namespace Graph

variable {α : Type}

/-- An answer about a vertex, rejecting a vertex that does not exist. -/
def require {β : Type} (node : Nat) : Option β → Except Violation β
  | some b => .ok b
  | none => .error (.vertex node)

/-- Number of relationships that leave a vertex. -/
def degree (g : Graph α) (node : Nat) : Except Violation Nat := require node (g.degree? node)

/-- Targets of the relationships that leave a vertex. -/
def targets (g : Graph α) (node : Nat) : Except Violation (List Nat) :=
  require node (g.targets? node)

/-- Targets and weights of the relationships that leave a vertex. -/
def weightedTargets (g : Graph α) (fallback : α) (node : Nat) :
    Except Violation (List (Nat × α)) :=
  require node (g.weightedTargets? fallback node)

/-- The id under which a vertex was loaded. -/
def externalId (g : Graph α) (node : Nat) : Except Violation UInt64 :=
  require node (g.externalId? node)

/-- Hands the targets of a vertex to a consumer until it answers `false`. -/
def visitTargets {σ : Type} (g : Graph α) (node : Nat) (consumer : σ → Nat → σ × Bool) (s : σ) :
    Except Violation σ :=
  (g.targets node).map (visit consumer s)

/-- Hands the targets and weights of a vertex to a consumer until it answers `false`. -/
def visitWeightedTargets {σ : Type} (g : Graph α) (fallback : α) (node : Nat)
    (consumer : σ → Nat × α → σ × Bool) (s : σ) : Except Violation σ :=
  (g.weightedTargets fallback node).map (visit consumer s)

/-- The graph in which every vertex has a relationship to every other one, without weights and
with vertices loaded under their own numbers. Only `degree` tells whether a vertex exists. -/
def complete (n : Nat) : Graph α where
  nodeCount := n
  relationshipCount := n * (n - 1)
  hasWeights := false
  degree? v := if v < n then some (n - 1) else none
  targets? v := some ((List.range n).filter (· != v))
  weightedTargets? w v := some (((List.range n).filter (· != v)).map fun t => (t, w))
  externalId? v := some v.toUInt64
  denseId? id := if id.toNat < n then some id.toNat else none

end Graph

end Superstep
