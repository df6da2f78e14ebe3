/-!
# Messenger strategies

How messages travel is fixed by two facts: whether the program has a reducer, and whether the run
was asked to deliver messages as soon as they are sent. A reducer always wins.
-/

namespace Superstep

/-- How messages travel. -/
inductive MessengerStrategy where
  /-- Queues that are read in the superstep after they were written. -/
  | syncQueue
  /-- Queues that are read while they are written. -/
  | asyncQueue
  /-- One combined value per vertex, read in the superstep after it was combined. -/
  | reducing
  deriving Repr, DecidableEq

namespace MessengerStrategy

/-- The strategy of a run. -/
def select (hasReducer isAsynchronous : Bool) : MessengerStrategy :=
  if hasReducer then .reducing else if isAsynchronous then .asyncQueue else .syncQueue

/-- The strategy's name in messages. -/
def text : MessengerStrategy → String
  | .syncQueue => "sync-queue"
  | .asyncQueue => "async-queue"
  | .reducing => "reducing"

/-- The strategy's name in event fields. -/
def constructorName : MessengerStrategy → String
  | .syncQueue => "SyncQueue"
  | .asyncQueue => "AsyncQueue"
  | .reducing => "Reducing"

/-- The strategy of a given name. -/
def ofText? (s : String) : Option MessengerStrategy :=
  [syncQueue, asyncQueue, reducing].find? (·.text == s)

end MessengerStrategy

end Superstep
