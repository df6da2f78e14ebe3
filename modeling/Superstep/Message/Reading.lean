import Superstep.Message.Messenger

/-!
# Reading messages one by one

A vertex may read its messages one by one, stop before the last one, or read them again, and others
may send while it reads. A `Reading` remembers what was read and where it goes on. To begin one is
what the asynchronous messenger takes as receiving, whether anything is read or not; to read on
changes no messenger.
-/

namespace Superstep

/-- Messages that were not read yet. -/
inductive Unread (α : Type) where
  /-- Those that are linked from a cell, in the queues on one side. -/
  | linked (side : Side) (next : Option Nat)
  /-- The one combined value, if there is one. -/
  | single (value : Option α)

/-- Whether nothing is left to read. -/
def Unread.isEmpty {α : Type} : Unread α → Bool
  | .linked _ next => next.isNone
  | .single value => value.isNone

/-- The messages of a vertex while they are read. -/
structure Reading (α : Type) where
  vertex : Nat
  /-- What was read, the latest first. -/
  taken : List α
  unread : Unread α

namespace Messenger

variable {α : Type}

/-- The queues on one side, if the messenger keeps queues. -/
def queues? (m : Messenger α) (side : Side) : Option (Queues α) :=
  match m with
  | .sync m => some (m.buffers.get side)
  | .async m => some (m.buffers.get side)
  | .reducing _ | .released => none

/-- The messages that a vertex would receive now. -/
def unread (m : Messenger α) (node : Nat) : Unread α :=
  match m with
  | .sync m => .linked m.writing.other ((m.buffers.get m.writing.other).head node)
  | .async m => .linked m.current ((m.buffers.get m.current).head node)
  | .reducing m => .single ((m.buffers.get m.writing.other).value? node)
  | .released => .single none

/-- Begins to read the messages of a vertex. -/
def beginReading (m : Messenger α) (node : Nat) : Except Violation (Reading α) × Messenger α :=
  match m.readRefusal? node with
  | some violation => (.error violation, m)
  | none => (.ok ⟨node, [], m.unread node⟩, m.afterReceiving node)

/-- The next message, with those after it. -/
def next? (m : Messenger α) : Unread α → Option (α × Unread α)
  | .linked _ none | .single none => none
  | .linked side (some i) =>
    ((m.queues? side).bind (·.arena.get? i)).map fun c => (c.value, .linked side c.next)
  | .single (some value) => some (value, .single none)

/-- Reads one more message, if there is one. -/
def readOn (m : Messenger α) (r : Reading α) : Reading α :=
  match m.next? r.unread with
  | none => r
  | some (value, unread) => ⟨r.vertex, value :: r.taken, unread⟩

/-- Reads at most so many messages more. -/
def readUpTo (m : Messenger α) : Nat → Reading α → Reading α
  | 0, r => r
  | count + 1, r => if r.unread.isEmpty then r else readUpTo m count (m.readOn r)

end Messenger

end Superstep
