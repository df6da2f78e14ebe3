import Superstep.Scalar

/-!
# Reducers

A reducer combines all messages that are sent to one vertex in one superstep into a single value.
Workers send in no particular order, so `reduce` is meant to be associative and commutative, with
`identity` as its neutral element.
-/

namespace Superstep

/-- A way to combine messages. -/
structure Reducer (α : Type) where
  /-- The value before the first message. -/
  identity : α
  /-- The value after one more message. -/
  reduce : α → α → α

namespace Reducer

variable {α : Type}

/-- The combination of a list of messages, taken from the left. -/
def fold (r : Reducer α) (messages : List α) : α := messages.foldl r.reduce r.identity

/-- The value before the first message and after each. -/
def states (r : Reducer α) (messages : List α) : List α :=
  r.identity :: (messages.foldl (fun (c, out) m => (r.reduce c m, r.reduce c m :: out))
    (r.identity, [])).2.reverse

variable [Scalar α]

/-- The sum of the messages. -/
def sum : Reducer α := ⟨Scalar.zero, (· + ·)⟩

/-- The least message. -/
def min : Reducer α := ⟨Scalar.top, Scalar.min⟩

/-- The greatest message. -/
def max : Reducer α := ⟨Scalar.bottom, Scalar.max⟩

/-- The number of messages. -/
def count : Reducer α := ⟨Scalar.zero, fun current _ => current + Scalar.one⟩

end Reducer

end Superstep
