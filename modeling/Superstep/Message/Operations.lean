import Superstep.Operation
import Superstep.Message.Messenger

/-!
# Messengers, effect by effect

What a messenger does to send a message and to hand messages over, as the sequence of the effects
that it takes: to queue a message it reserves a cell, looks up the newest cell of the vertex, fills
the cell and links it; to combine a message it updates the value of the vertex and then remembers
that something was sent. `Messenger.performStepwise` answers requests in this way.
-/

namespace Superstep

variable {α : Type}

/-! ## Queues -/

namespace Queues

/-- Takes the next cell of the arena. -/
def reserve : Operation (Queues α) Nat :=
  ⟨fun q =>
    (.ok q.arena.cursor, ⟨q.heads, ⟨q.arena.cursor + 1, q.arena.shift, q.arena.directories⟩⟩)⟩

/-- Writes to a cell that was reserved. Its directory and page are installed if it is the first one
on them. -/
def writeCell (index : Nat) (c : MessageCell α) : Operation (Queues α) Unit :=
  .change fun q =>
    let at_ := Arena.address q.arena.shift index
    ⟨q.heads, (q.arena.install at_ c).write at_ c⟩

/-- The newest cell of a vertex. -/
def peek (node : Nat) : Operation (Queues α) (Option Nat) := .read (·.heads.read node)

/-- Replaces the newest cell of a vertex and answers the one before. -/
def swapHead (node : Nat) (next : Option Nat) : Operation (Queues α) (Option Nat) :=
  .on Queues.heads (fun q heads => ⟨heads, q.arena⟩) fun heads =>
    heads.access node fun head => (head, next)

/-- Queues a message. -/
def pushStepwise (target : Nat) (value : α) : Operation (Queues α) Unit := do
  let nodeCount ← .read fun q => .ok q.nodeCount
  -- without this the cell would be lost when the vertex is looked up
  if target < nodeCount then
    let index ← reserve
    let next ← peek target
    writeCell index ⟨value, next⟩
    let _ ← swapHead target (some index)
  else .refuse (.messageTarget target nodeCount)

/-- Detaches the queue of a vertex and answers its newest cell. -/
def takeStepwise (node : Nat) : Operation (Queues α) (Option Nat) := do
  let head ← peek node
  if head.isSome then swapHead node none else pure none

/-- Queues every message of `source`, vertex by vertex. -/
def receiveAllStepwise (source : Queues α) : Operation (Queues α) Unit :=
  if source.isEmpty then pure ()
  else (List.range source.nodeCount).forM fun node => (source.inbox node).forM (pushStepwise node)

end Queues

/-! ## Combined values -/

namespace ReducedBuffer

/-- Combines one more message into the value of a vertex. -/
def postStepwise (r : Reducer α) (target : Nat) (value : α) : Operation (ReducedBuffer α) Unit := do
  let _ ← .on values (fun b values => ⟨values, b.received⟩) fun values =>
    ScalarArray.perform values (.update target fun current => r.reduce current value)
  let _ ← .on received (fun b received => ⟨b.values, received⟩) (·.perform (.set target))

/-- Whether something was sent to a vertex. -/
def hasReceived (node : Nat) : Operation (ReducedBuffer α) Bool := do
  let answer ← .on received (fun b received => ⟨b.values, received⟩) (·.perform (.get node))
  pure (answer == .flag true)

/-- The value of a vertex to which something was sent. -/
def valueStepwise (node : Nat) : Operation (ReducedBuffer α) (Option α) := do
  if ← hasReceived node then
    let value ← .read (·.values.read node)
    pure (some value)
  else pure none

end ReducedBuffer

/-! ## Messengers -/

/-- An operation on the buffer of one side. -/
def Buffers.onSide {σ β : Type} (side : Side) (e : Operation σ β) : Operation (Buffers σ) β :=
  .on (·.get side) (fun b s => b.modify side fun _ => s) e.run

namespace SyncMessenger

/-- An operation on the queues of one side. -/
def onSide {β : Type} (side : Side) (e : Operation (Queues α) β) :
    Operation (SyncMessenger α) β :=
  .on buffers (fun m b => ⟨b, m.writing⟩) (Buffers.onSide side e).run

/-- Sends a message. -/
def postStepwise (target : Nat) (value : α) : Operation (SyncMessenger α) Unit := do
  onSide (← .read fun m => .ok m.writing) (Queues.pushStepwise target value)

/-- Hands over the messages of a vertex. -/
def receiveStepwise (node : Nat) : Operation (SyncMessenger α) (List α) := do
  onSide (← .read fun m => .ok m.writing.other) do
    let head ← Queues.peek node
    .read fun q => .ok (q.arena.chain head)

/-- Whether a vertex has messages. -/
def hasMailStepwise (node : Nat) : Operation (SyncMessenger α) Bool := do
  let head ← onSide (← .read fun m => .ok m.writing.other) (Queues.peek node)
  pure head.isSome

end SyncMessenger

namespace AsyncMessenger

/-- An operation on the queues of one side. -/
def onSide {β : Type} (side : Side) (e : Operation (Queues α) β) :
    Operation (AsyncMessenger α) β :=
  .on buffers (fun m b => ⟨b, m.current⟩) (Buffers.onSide side e).run

/-- Moves what is left to the other buffer, and turns to that one. -/
def prepareStepwise : Operation (AsyncMessenger α) Unit := do
  let side ← .read fun m => .ok m.current
  let left ← .read fun m => .ok (m.buffers.get side)
  onSide side.other do
    .change Queues.clear
    Queues.receiveAllStepwise left
  onSide side do
    .change Queues.takeAll
    .change Queues.clear
  .change fun m => ⟨m.buffers, side.other⟩

/-- Sends a message. -/
def postStepwise (target : Nat) (value : α) : Operation (AsyncMessenger α) Unit := do
  onSide (← .read fun m => .ok m.current) (Queues.pushStepwise target value)

/-- Hands over the messages of a vertex, which is left without. -/
def receiveStepwise (node : Nat) : Operation (AsyncMessenger α) (List α) := do
  onSide (← .read fun m => .ok m.current) do
    let head ← Queues.takeStepwise node
    .read fun q => .ok (q.arena.chain head)

/-- Whether a vertex has messages. -/
def hasMailStepwise (node : Nat) : Operation (AsyncMessenger α) Bool := do
  let head ← onSide (← .read fun m => .ok m.current) (Queues.peek node)
  pure head.isSome

end AsyncMessenger

namespace ReducingMessenger

/-- An operation on the buffer of one side. -/
def onSide {β : Type} (side : Side) (e : Operation (ReducedBuffer α) β) :
    Operation (ReducingMessenger α) β :=
  .on buffers (fun m b => ⟨m.reducer, b, m.writing⟩) (Buffers.onSide side e).run

/-- Sends a message. -/
def postStepwise (target : Nat) (value : α) : Operation (ReducingMessenger α) Unit := do
  let r ← .read fun m => .ok m.reducer
  onSide (← .read fun m => .ok m.writing) (ReducedBuffer.postStepwise r target value)

/-- Hands over the messages of a vertex: one value, or none. -/
def receiveStepwise (node : Nat) : Operation (ReducingMessenger α) (List α) := do
  let value ← onSide (← .read fun m => .ok m.writing.other) (ReducedBuffer.valueStepwise node)
  pure value.toList

/-- Whether a vertex has messages. -/
def hasMailStepwise (node : Nat) : Operation (ReducingMessenger α) Bool := do
  onSide (← .read fun m => .ok m.writing.other) (ReducedBuffer.hasReceived node)

end ReducingMessenger

namespace Messenger

/-- What messengers of the three kinds do. After release nothing can be done. -/
def byKind {β : Type} (sync : Operation (SyncMessenger α) β)
    (async : Operation (AsyncMessenger α) β) (reducing : Operation (ReducingMessenger α) β) :
    Operation (Messenger α) β :=
  ⟨fun
    | .sync m => let (answer, m) := sync.run m; (answer, .sync m)
    | .async m => let (answer, m) := async.run m; (answer, .async m)
    | .reducing m => let (answer, m) := reducing.run m; (answer, .reducing m)
    | .released => (.error .released, .released)⟩

/-- What is done to answer a request. -/
def operation : Request α → Operation (Messenger α) (Answer α)
  | .prepare superstep => do
    byKind (.change (·.prepare superstep)) AsyncMessenger.prepareStepwise
      (.change (·.prepare superstep))
    pure .done
  | .send target value => do
    byKind (SyncMessenger.postStepwise target value) (AsyncMessenger.postStepwise target value)
      (ReducingMessenger.postStepwise target value)
    pure .done
  | .receive node => do
    let inbox ← byKind (SyncMessenger.receiveStepwise node) (AsyncMessenger.receiveStepwise node)
      (ReducingMessenger.receiveStepwise node)
    pure (.messages inbox)
  | .hasMail node => do
    let flag ← byKind (SyncMessenger.hasMailStepwise node) (AsyncMessenger.hasMailStepwise node)
      (ReducingMessenger.hasMailStepwise node)
    pure (.flag flag)
  | .pending => .read fun m => .ok (.flag m.pending)
  | .nodeCount => .read fun m => .ok (.count m.nodeCount)
  | .allocatedBytes => .read fun m => .ok (.count m.allocatedBytes)
  | .release => do
    .change fun _ => .released
    pure .done

/-- Answers one request, effect by effect. -/
def performStepwise (m : Messenger α) (request : Request α) :
    Except Violation (Answer α) × Messenger α :=
  (operation request).run m

end Messenger

end Superstep
