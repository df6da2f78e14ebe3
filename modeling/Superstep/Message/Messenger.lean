import Superstep.Storage.BitSet
import Superstep.Message.Queues
import Superstep.Message.Reducer
import Superstep.Message.Strategy
import Superstep.Footprint

/-!
# Messengers

A messenger carries messages between vertices. All three kinds have two buffers and the same use:
`prepare s` before superstep `s`, then `post`, `inbox` and `afterReceiving` in any order.

* A synchronous messenger writes to one buffer and reads the other. The roles follow the parity of
  the superstep, so what is sent in a superstep is read in the next one and gone after that.
* An asynchronous messenger writes to and reads from the same buffer. Reading takes the messages
  away. Between supersteps what is left moves to the other buffer.
* A reducing messenger combines what is sent to a vertex into one value as it is sent. Its buffers
  take turns as those of a synchronous messenger.

The functions that the engine uses are total. `Messenger.perform` answers a caller, and rejects a
vertex that does not exist and any use after `release`. Arenas are taken to have room: what happens
to a message beyond `Arena.capacity` is not modelled.
-/

namespace Superstep

/-- One of two buffers. -/
inductive Side where
  | first
  | second
  deriving Repr, DecidableEq, Inhabited

namespace Side

/-- The other buffer. -/
def other : Side → Side
  | .first => .second
  | .second => .first

/-- The buffers take turns: the first one in even supersteps. -/
def ofParity (superstep : Nat) : Side := if superstep % 2 = 0 then .first else .second

end Side

/-- Two buffers. -/
structure Buffers (β : Type) where
  first : β
  second : β

namespace Buffers

variable {β : Type}

/-- The buffer on one side. -/
def get (b : Buffers β) : Side → β
  | .first => b.first
  | .second => b.second

/-- The buffers after a change on one side. -/
@[inline] def modify (b : Buffers β) (side : Side) (f : β → β) : Buffers β :=
  match side with
  | .first => ⟨f b.first, b.second⟩
  | .second => ⟨b.first, f b.second⟩

end Buffers

/-- Queues that take turns. -/
structure SyncMessenger (α : Type) where
  buffers : Buffers (Queues α)
  /-- The side that is written. -/
  writing : Side

namespace SyncMessenger

variable {α : Type}

/-- A messenger without messages. -/
def empty (nodeCount : Nat) : SyncMessenger α := ⟨⟨.empty nodeCount, .empty nodeCount⟩, .first⟩

/-- Gets ready for a superstep: the buffer of its parity is emptied and written from now on. -/
def prepare (m : SyncMessenger α) (superstep : Nat) : SyncMessenger α :=
  let side := Side.ofParity superstep
  ⟨m.buffers.modify side Queues.clear, side⟩

/-- Sends a message. -/
def post (m : SyncMessenger α) (target : Nat) (value : α) : SyncMessenger α :=
  ⟨m.buffers.modify m.writing (·.push target value), m.writing⟩

/-- The messages of a vertex. -/
def inbox (m : SyncMessenger α) (node : Nat) : List α :=
  (m.buffers.get m.writing.other).inbox node

/-- Whether a vertex has messages. -/
def hasMail (m : SyncMessenger α) (node : Nat) : Bool :=
  ((m.buffers.get m.writing.other).head node).isSome

/-- Whether something was sent since the superstep began. -/
def pending (m : SyncMessenger α) : Bool := !(m.buffers.get m.writing).isEmpty

end SyncMessenger

/-- Queues that are read while they are written. -/
structure AsyncMessenger (α : Type) where
  buffers : Buffers (Queues α)
  /-- The side in use. -/
  current : Side

namespace AsyncMessenger

variable {α : Type}

/-- A messenger without messages. -/
def empty (nodeCount : Nat) : AsyncMessenger α := ⟨⟨.empty nodeCount, .empty nodeCount⟩, .first⟩

/-- Gets ready for a superstep: what is left moves to the other buffer, which is used from now on,
so that the arena left behind can be filled again from its start. -/
def prepare (m : AsyncMessenger α) : AsyncMessenger α :=
  match m with
  | ⟨⟨a, b⟩, .first⟩ =>
    -- the other buffer was emptied when it was left, so its arena is filled from the start
    let (a, b) := a.drainInto b.clear
    ⟨⟨a.clear, b⟩, .second⟩
  | ⟨⟨a, b⟩, .second⟩ =>
    let (b, a) := b.drainInto a.clear
    ⟨⟨a, b.clear⟩, .first⟩

/-- Sends a message. -/
def post (m : AsyncMessenger α) (target : Nat) (value : α) : AsyncMessenger α :=
  ⟨m.buffers.modify m.current (·.push target value), m.current⟩

/-- The messages of a vertex. -/
def inbox (m : AsyncMessenger α) (node : Nat) : List α := (m.buffers.get m.current).inbox node

/-- Takes the messages of a vertex away. -/
def take (m : AsyncMessenger α) (node : Nat) : AsyncMessenger α :=
  ⟨m.buffers.modify m.current (·.take node), m.current⟩

/-- Whether a vertex has messages. -/
def hasMail (m : AsyncMessenger α) (node : Nat) : Bool :=
  ((m.buffers.get m.current).head node).isSome

/-- Whether some vertex has messages. -/
def pending (m : AsyncMessenger α) : Bool := (m.buffers.get m.current).hasPending

end AsyncMessenger

/-- One combined value per vertex. -/
structure ReducedBuffer (α : Type) where
  /-- The value combined so far, for every vertex. -/
  values : ScalarArray α
  /-- The vertices to which something was sent. -/
  received : BitSet

namespace ReducedBuffer

variable {α : Type}

/-- The buffer before anything was sent. -/
def empty (nodeCount : Nat) (identity : α) : ReducedBuffer α :=
  ⟨.replicate nodeCount identity, .empty nodeCount⟩

/-- Forgets what was sent. -/
def clear (b : ReducedBuffer α) (identity : α) : ReducedBuffer α :=
  if b.received.isEmpty then b else ⟨b.values.fill identity, b.received.clear⟩

/-- Combines one more message into the value of a vertex. -/
def post (b : ReducedBuffer α) (r : Reducer α) (target : Nat) (value : α) : ReducedBuffer α :=
  ⟨b.values.modify target fun current => r.reduce current value, b.received.insert target⟩

/-- The value of a vertex to which something was sent. -/
def value? (b : ReducedBuffer α) (node : Nat) : Option α :=
  if b.received.contains node then b.values.get? node else none

end ReducedBuffer

/-- Combined values that take turns. -/
structure ReducingMessenger (α : Type) where
  reducer : Reducer α
  buffers : Buffers (ReducedBuffer α)
  /-- The side that is written. -/
  writing : Side

namespace ReducingMessenger

variable {α : Type}

/-- A messenger without messages. -/
def empty (nodeCount : Nat) (r : Reducer α) : ReducingMessenger α :=
  ⟨r, ⟨.empty nodeCount r.identity, .empty nodeCount r.identity⟩, .first⟩

/-- Gets ready for a superstep: the buffer of its parity is emptied and written from now on. -/
def prepare (m : ReducingMessenger α) (superstep : Nat) : ReducingMessenger α :=
  let side := Side.ofParity superstep
  ⟨m.reducer, m.buffers.modify side (·.clear m.reducer.identity), side⟩

/-- Sends a message. -/
def post (m : ReducingMessenger α) (target : Nat) (value : α) : ReducingMessenger α :=
  ⟨m.reducer, m.buffers.modify m.writing (·.post m.reducer target value), m.writing⟩

/-- The messages of a vertex: one value, or none. -/
def inbox (m : ReducingMessenger α) (node : Nat) : List α :=
  ((m.buffers.get m.writing.other).value? node).toList

/-- Whether a vertex has messages. -/
def hasMail (m : ReducingMessenger α) (node : Nat) : Bool :=
  (m.buffers.get m.writing.other).received.contains node

/-- Whether something was sent since the superstep began. -/
def pending (m : ReducingMessenger α) : Bool := !(m.buffers.get m.writing).received.isEmpty

end ReducingMessenger

/-- A messenger of one of the three kinds, or one that was released. -/
inductive Messenger (α : Type) where
  | sync (m : SyncMessenger α)
  | async (m : AsyncMessenger α)
  | reducing (m : ReducingMessenger α)
  | released

namespace Messenger

variable {α : Type}

/-- The messenger of a run: a reducer always wins, otherwise the flag decides. -/
def create (nodeCount : Nat) (reducer : Option (Reducer α)) (isAsynchronous : Bool) : Messenger α :=
  match reducer with
  | some r => .reducing (.empty nodeCount r)
  | none => if isAsynchronous then .async (.empty nodeCount) else .sync (.empty nodeCount)

/-- The kind of the messenger. -/
def strategy? : Messenger α → Option MessengerStrategy
  | .sync _ => some .syncQueue
  | .async _ => some .asyncQueue
  | .reducing _ => some .reducing
  | .released => none

/-- Whether the buffers were freed. -/
def isReleased : Messenger α → Bool
  | .released => true
  | _ => false

/-- Number of vertices, 0 after release. -/
def nodeCount : Messenger α → Nat
  | .sync m => m.buffers.first.nodeCount
  | .async m => m.buffers.first.nodeCount
  | .reducing m => m.buffers.first.values.size
  | .released => 0

/-- Gets ready for a superstep. -/
def prepare (m : Messenger α) (superstep : Nat) : Messenger α :=
  match m with
  | .sync m => .sync (m.prepare superstep)
  | .async m => .async m.prepare
  | .reducing m => .reducing (m.prepare superstep)
  | .released => .released

/-- Why a message to this vertex is rejected, if it is. That its arena is full is not among the
reasons. -/
def refusal? (m : Messenger α) (target : Nat) : Option Violation :=
  match m with
  | .sync _ | .async _ =>
    if target < m.nodeCount then none else some (.messageTarget target m.nodeCount)
  | .reducing _ => if target < m.nodeCount then none else some (.index target m.nodeCount)
  | .released => some .released

/-- Sends a message that is not rejected. -/
def post (m : Messenger α) (target : Nat) (value : α) : Messenger α :=
  match m with
  | .sync m => .sync (m.post target value)
  | .async m => .async (m.post target value)
  | .reducing m => .reducing (m.post target value)
  | .released => .released

/-- The messages that a vertex would receive now. -/
def inbox (m : Messenger α) (node : Nat) : List α :=
  match m with
  | .sync m => m.inbox node
  | .async m => m.inbox node
  | .reducing m => m.inbox node
  | .released => []

/-- What is left when a vertex has received its messages: only the asynchronous messenger forgets
them. -/
def afterReceiving (m : Messenger α) (node : Nat) : Messenger α :=
  match m with
  | .async m => .async (m.take node)
  | m => m

/-- Whether a vertex has messages. -/
def hasMail (m : Messenger α) (node : Nat) : Bool :=
  match m with
  | .sync m => m.hasMail node
  | .async m => m.hasMail node
  | .reducing m => m.hasMail node
  | .released => false

/-- Whether some message waits for the next superstep. -/
def pending : Messenger α → Bool
  | .sync m => m.pending
  | .async m => m.pending
  | .reducing m => m.pending
  | .released => false

/-- Bytes held by the buffers of a pair of queue sets. -/
def queueBytes (b : Buffers (Queues α)) : Nat :=
  (Footprint.longs b.first.nodeCount + b.first.arena.allocatedBytes)
    + (Footprint.longs b.second.nodeCount + b.second.arena.allocatedBytes)

/-- Bytes held by the buffers. -/
def allocatedBytes : Messenger α → Nat
  | .sync m => queueBytes m.buffers
  | .async m => queueBytes m.buffers
  | .reducing m => 2 * Footprint.reducedBuffer m.buffers.first.values.size
  | .released => 0

/-- Why reading the messages of a vertex is rejected, if it is. -/
def readRefusal? (m : Messenger α) (node : Nat) : Option Violation :=
  match m with
  | .sync _ | .async _ => if node < m.nodeCount then none else some (.index node m.nodeCount)
  | .reducing _ => if node < m.nodeCount then none else some (.bit node m.nodeCount)
  | .released => some .released

/-- A request to a messenger. -/
inductive Request (α : Type) where
  | prepare (superstep : Nat)
  | send (target : Nat) (value : α)
  /-- Asks for the messages of a vertex. -/
  | receive (node : Nat)
  | hasMail (node : Nat)
  | pending
  | nodeCount
  | allocatedBytes
  | release

/-- The answer to a request. -/
inductive Answer (α : Type) where
  | done
  | messages (inbox : List α)
  | flag (b : Bool)
  | count (n : Nat)

/-- Why a request is rejected, if it is. -/
def rejection? (m : Messenger α) : Request α → Option Violation
  | .prepare _ => if m.isReleased then some .released else none
  | .send target _ => m.refusal? target
  | .receive node | .hasMail node => m.readRefusal? node
  | .pending | .nodeCount | .allocatedBytes | .release => none

/-- Answers a request that is not rejected. -/
def accept (m : Messenger α) : Request α → Answer α × Messenger α
  | .prepare superstep => (.done, m.prepare superstep)
  | .send target value => (.done, m.post target value)
  | .receive node => let inbox := m.inbox node; (.messages inbox, m.afterReceiving node)
  | .hasMail node => (.flag (m.hasMail node), m)
  | .pending => (.flag m.pending, m)
  | .nodeCount => (.count m.nodeCount, m)
  | .allocatedBytes => (.count m.allocatedBytes, m)
  | .release => (.done, .released)

/-- Answers one request. A rejected one leaves the messenger as it was. -/
def perform (m : Messenger α) (r : Request α) : Except Violation (Answer α) × Messenger α :=
  match m.rejection? r with
  | some violation => (.error violation, m)
  | none => let (answer, m) := m.accept r; (.ok answer, m)

end Messenger

end Superstep
