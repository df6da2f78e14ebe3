import Mathlib
import Superstep.Hook
import Superstep.Proofs.NodeValues

/-!
# Running hooks

What the primitives of the hook language answer and what they make of the working state, one lemma
for each, so that a hook without faults is run by rewriting.

## Key results

- `HookM.bind_apply`: a hook goes on from where its first part ended
- `HookM.sendAll_apply`: messages are recorded in order
- `HookM.reply_of_ok`: the reply of a hook without fault
-/

namespace Superstep.HookM

variable {p : Phase} {α β γ : Type} {view : VertexView α} {s : Scratch α}

/-- A hook that does nothing answers with what it was given. -/
@[simp] theorem pure_apply (b : β) : (pure b : HookM p α β) view s = .ok b s := rfl

/-- A hook goes on from where its first part ended, unless there was a fault. -/
@[simp] theorem bind_apply (hook : HookM p α β) (next : β → HookM p α γ) :
    (hook >>= next) view s = match hook view s with
      | .ok b s => next b view s
      | .error fault s => .error fault s := by
  change EStateM.bind (hook view) (fun b => next b view) s = _
  unfold EStateM.bind
  cases hook view s <;> rfl

/-- A hook that decides does one of two things. -/
@[simp] theorem ite_apply {c : Prop} [Decidable c] (yes no : HookM p α β) :
    (if c then yes else no) view s = if c then yes view s else no view s := by
  split <;> rfl

/-- A hook is told its vertex. -/
@[simp] theorem vertex_apply : (vertex : HookM p α Nat) view s = .ok view.vertex s := rfl

/-- A hook is told the number of vertices. -/
@[simp] theorem nodeCount_apply :
    (nodeCount : HookM p α Nat) view s = .ok view.graph.nodeCount s := rfl

/-- A hook is told whether this is the first superstep. -/
@[simp] theorem isInitialSuperstep_apply : (isInitialSuperstep : HookM .compute α Bool) view s
    = .ok (view.superstep == 0) s := rfl

/-- A hook is told the messages of its vertex. -/
@[simp] theorem inbox_apply : (inbox : HookM .compute α (List α)) view s = .ok view.inbox s := rfl

/-- A vote is recorded among the effects. -/
@[simp] theorem voteToHalt_apply : (voteToHalt : HookM .compute α Unit) view s
    = .ok () ⟨s.row, .voteToHalt :: s.effects⟩ := rfl

/-- A hook is told the degree of its vertex. -/
theorem degree_apply {k : Nat} (h : view.graph.degree? view.vertex = some k) :
    (degree : HookM p α Nat) view s = .ok k s := by
  -- the vertex exists, so the graph answers
  have hdegree : view.graph.degree view.vertex = .ok k := by rw [Graph.degree, h]; rfl
  change require (view.graph.degree view.vertex) view s = _
  rw [hdegree]
  rfl

/-- A hook is told the neighbors of its vertex. -/
theorem neighbors_apply {row : List Nat} (h : view.graph.targets? view.vertex = some row) :
    (neighbors : HookM p α (List Nat)) view s = .ok row s := by
  have htargets : view.graph.targets view.vertex = .ok row := by rw [Graph.targets, h]; rfl
  change require (view.graph.targets view.vertex) view s = _
  rw [htargets]
  rfl

/-- A hook is told the neighbors of its vertex with the weights. -/
theorem weightedNeighbors_apply {fallback : α} {row : List (Nat × α)}
    (h : view.graph.weightedTargets? fallback view.vertex = some row) :
    (weightedNeighbors fallback : HookM p α (List (Nat × α))) view s = .ok row s := by
  have htargets : view.graph.weightedTargets fallback view.vertex = .ok row := by
    rw [Graph.weightedTargets, h]
    rfl
  change require (view.graph.weightedTargets fallback view.vertex) view s = _
  rw [htargets]
  rfl

/-- A hook reads an integer from the row as it stands. -/
theorem long_apply {key : String} {x : Int64} (h : s.row.long key = .ok x) :
    (long key : HookM p α Int64) view s = .ok x s := by
  rw [long, read, h]

/-- A hook reads a double from the row as it stands. -/
theorem double_apply {key : String} {x : α} (h : s.row.double key = .ok x) :
    (double key : HookM p α α) view s = .ok x s := by
  rw [double, read, h]

/-- A hook writes a cell into the slot that its key leads to. -/
theorem write_apply {key : String} {c : Cell α} {i : Nat}
    (h : s.row.locate key c.valueType = .ok i) :
    (write key c : HookM p α Unit) view s = .ok () ⟨s.row.store i c, s.effects⟩ := by
  rw [write, h]

section Single

variable {key : String} {e : Element α} {effects : List (Effect α)}

/-- A hook with one slot reads the double in it. -/
theorem double_single (he : e.key = key) (x : α) :
    (double key : HookM p α α) view ⟨⟨⟨[e]⟩, #[.double x]⟩, effects⟩
      = .ok x ⟨⟨⟨[e]⟩, #[.double x]⟩, effects⟩ :=
  double_apply (Row.double_single he x)

/-- A hook with one slot reads the integer in it. -/
theorem long_single (he : e.key = key) (x : Int64) :
    (long key : HookM p α Int64) view ⟨⟨⟨[e]⟩, #[.long x]⟩, effects⟩
      = .ok x ⟨⟨⟨[e]⟩, #[.long x]⟩, effects⟩ :=
  long_apply (Row.long_single he x)

/-- Storing a cell in the only slot makes the row of that cell. -/
theorem write_single (he : e.key = key) {c d : Cell α} (h : c.valueType = d.valueType) :
    (write key d : HookM p α Unit) view ⟨⟨⟨[e]⟩, #[c]⟩, effects⟩
      = .ok () ⟨⟨⟨[e]⟩, #[d]⟩, effects⟩ := by
  have hlocate := Row.locate_single he c
  rw [h] at hlocate
  rw [write_apply hlocate]
  rfl

/-- A hook with one slot replaces the double in it. -/
theorem setDouble_single (he : e.key = key) (x y : α) :
    (setDouble key y : HookM p α Unit) view ⟨⟨⟨[e]⟩, #[.double x]⟩, effects⟩
      = .ok () ⟨⟨⟨[e]⟩, #[.double y]⟩, effects⟩ :=
  write_single he rfl

/-- A hook with one slot replaces the integer in it. -/
theorem setLong_single (he : e.key = key) (x y : Int64) :
    (setLong key y : HookM p α Unit) view ⟨⟨⟨[e]⟩, #[.long x]⟩, effects⟩
      = .ok () ⟨⟨⟨[e]⟩, #[.long y]⟩, effects⟩ :=
  write_single he rfl

end Single

/-- Messages are recorded in order, which is from the back. -/
theorem sendAll_apply (messages : List (Nat × α)) :
    (sendAll messages : HookM .compute α Unit) view s
      = .ok () ⟨s.row, (messages.map fun m => .send m.1 m.2).reverse ++ s.effects⟩ := by
  induction messages generalizing s with
  | nil => rfl
  | cons m messages ih =>
    -- the first message is put in front of the effects, and the others in front of it
    rw [sendAll, bind_apply]
    change sendAll messages view ⟨s.row, .send m.1 m.2 :: s.effects⟩ = _
    rw [ih, List.map_cons, List.reverse_cons, List.append_assoc]
    rfl

/-- A message to all neighbors is one message to each, in the order of the row. -/
theorem sendToNeighbors_apply {row : List Nat}
    (h : view.graph.targets? view.vertex = some row) (value : α) :
    (sendToNeighbors value : HookM .compute α Unit) view s
      = .ok () ⟨s.row, (row.map fun target => .send target value).reverse ++ s.effects⟩ := by
  rw [sendToNeighbors, bind_apply, neighbors_apply h]
  dsimp only
  rw [sendAll_apply, List.map_map]
  rfl

/-- The reply of a hook that ends without a fault. -/
theorem reply_of_ok {hook : HookM p α Unit} {view : VertexView α} {s : Scratch α}
    (h : hook view ⟨view.row, []⟩ = .ok () s) :
    hook.reply view = ⟨s.row, s.effects.reverse, .ok ()⟩ := by
  rw [reply, h]

end Superstep.HookM
