import Superstep.Storage.PagedArray
import Superstep.Message.Arena

/-!
# Message queues

`Queues` holds one queue of messages per vertex. The queues are linked lists: each vertex has the
index of its newest cell in a common arena, and each cell links to the one queued before it. The
view of a queue is `inbox`, its messages with the newest first.

Nothing is freed one by one. `take` detaches the queue of one vertex, `drainInto` moves all queues
to another set, and `clear` empties the set and lets the arena be used again from its start.
-/

namespace Superstep

/-- One queue of messages per vertex. -/
structure Queues (α : Type) where
  /-- Index of the newest cell of each vertex. -/
  heads : PagedArray (Option Nat)
  /-- The cells. -/
  arena : Arena α

namespace Queues

variable {α : Type}

/-- Empty queues whose arena has pages of `2 ^ shift` cells. -/
def emptyWith (nodeCount shift : Nat) : Queues α :=
  ⟨.replicate nodeCount none, .empty shift⟩

/-- Empty queues for `nodeCount` vertices. -/
def empty (nodeCount : Nat) : Queues α := emptyWith nodeCount Arena.defaultShift

/-- Number of vertices. -/
def nodeCount (q : Queues α) : Nat := q.heads.size

/-- The newest cell of a vertex. -/
@[inline] def head (q : Queues α) (node : Nat) : Option Nat :=
  match q.heads.get? node with
  | some h => h
  | none => none

/-- The messages queued for a vertex, newest first. -/
def inbox (q : Queues α) (node : Nat) : List α := q.arena.chain (q.head node)

/-- Queues a message, if the vertex exists. -/
def push (q : Queues α) (target : Nat) (value : α) : Queues α :=
  if target < q.nodeCount then
    let next := q.head target
    ⟨q.heads.set target (some q.arena.cursor), q.arena.push ⟨value, next⟩⟩
  else q

/-- Detaches the queue of a vertex. -/
def take (q : Queues α) (node : Nat) : Queues α :=
  if (q.head node).isSome then ⟨q.heads.set node none, q.arena⟩ else q

/-- Whether no message was queued since the last `clear`. -/
def isEmpty (q : Queues α) : Bool := q.arena.cursor == 0

/-- Whether some vertex has a message. -/
def hasPending (q : Queues α) : Bool :=
  !q.isEmpty && q.heads.any Option.isSome

/-- Empties every queue and starts the arena again. -/
def clear (q : Queues α) : Queues α :=
  if q.isEmpty then q else ⟨q.heads.fill none, q.arena.clear⟩

/-- Detaches every queue. -/
def takeAll (q : Queues α) : Queues α :=
  if q.isEmpty then q else ⟨q.heads.fill none, q.arena⟩

/-- `target` after every message of `source` was queued there too, vertex by vertex. -/
def receiveAll (target source : Queues α) : Queues α :=
  if source.isEmpty then target
  -- each queue is read newest first, so it arrives in the other order
  else (List.range source.nodeCount).foldl
    (fun t node => (source.inbox node).foldl (fun t value => t.push node value) t) target

/-- Moves every message of `source` to `target`. -/
def drainInto (source target : Queues α) : Queues α × Queues α :=
  (source.takeAll, target.receiveAll source)

end Queues

end Superstep
