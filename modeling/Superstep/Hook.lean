import Superstep.Program

/-!
# Writing hooks

`HookM` is the language in which hooks are written: it reads the view, changes the row, records
effects in order and can stop with a fault. The phase in its type keeps a set-up hook from sending
and voting, which only make sense in a superstep. `HookM.reply` turns a hook into the function from
view to reply that a `Program` holds.

`MasterM` is the same for the hook between supersteps.
-/

namespace Superstep

/-- A hook's working state. -/
structure Scratch (α : Type) where
  /-- The vertex's values so far. -/
  row : Row α
  /-- What the hook did so far, the latest first. -/
  effects : List (Effect α)

/-- The language of hooks that run in a phase. -/
def HookM (_phase : Phase) (α β : Type) : Type :=
  ReaderT (VertexView α) (EStateM Fault (Scratch α)) β

namespace HookM

variable {p : Phase} {α β : Type}

instance : Monad (HookM p α) :=
  inferInstanceAs (Monad (ReaderT (VertexView α) (EStateM Fault (Scratch α))))

/-- The reply of a hook. -/
def reply (hook : HookM p α Unit) (view : VertexView α) : Reply α :=
  match hook view ⟨view.row, []⟩ with
  | .ok _ scratch => ⟨scratch.row, scratch.effects.reverse, .ok ()⟩
  | .error fault scratch => ⟨scratch.row, scratch.effects.reverse, .error fault⟩

/-- What the hook may look at. -/
def view : HookM p α (VertexView α) := fun v s => .ok v s

/-- Stops with a fault. -/
def stop (fault : Fault) : HookM p α β := fun _ s => .error fault s

/-- Stops with an error of the program. -/
def fail (source : String) : HookM p α β := stop (.error source)

/-- Goes on with an answer, or stops where a contract was broken. -/
def require : Except Violation β → HookM p α β
  | .ok b => fun _ s => .ok b s
  | .error violation => stop (.violation violation)

/-- Records an effect. -/
def record (e : Effect α) : HookM p α Unit := fun _ s => .ok () ⟨s.row, e :: s.effects⟩

/-- Reads the vertex's values so far. -/
def read (f : Row α → Except Violation β) : HookM p α β := fun _ s =>
  match f s.row with
  | .ok b => .ok b s
  | .error violation => .error (.violation violation) s

/-- Stores a cell under a key of the cell's type. -/
def write (key : String) (c : Cell α) : HookM p α Unit := fun _ s =>
  match s.row.locate key c.valueType with
  | .ok i => .ok () ⟨s.row.store i c, s.effects⟩
  | .error violation => .error (.violation violation) s

/-- The vertex that the hook works on. -/
def vertex : HookM p α Nat := return (← view).vertex

/-- Number of vertices. -/
def nodeCount : HookM p α Nat := return (← view).graph.nodeCount

/-- Number of relationships. -/
def relationshipCount : HookM p α Nat := return (← view).graph.relationshipCount

/-- Number of relationships that leave the vertex. -/
def degree : HookM p α Nat := do
  let v ← view
  require (v.graph.degree v.vertex)

/-- Targets of the relationships that leave the vertex. -/
def neighbors : HookM p α (List Nat) := do
  let v ← view
  require (v.graph.targets v.vertex)

/-- Targets and weights of the relationships that leave the vertex. -/
def weightedNeighbors (fallback : α) : HookM p α (List (Nat × α)) := do
  let v ← view
  require (v.graph.weightedTargets fallback v.vertex)

/-- Whether the run was asked to stop, by this hook or before. -/
def isTerminated : HookM p α Bool := fun v s =>
  let requested := s.effects.any fun
    | .terminate => true
    | _ => false
  .ok (if requested then v.flag.request.raised else v.flag.raised) s

/-- Asks the run to stop. -/
def terminate : HookM p α Unit := record .terminate

/-- Reads an integer of the vertex. -/
def long (key : String) : HookM p α Int64 := read (·.long key)

/-- Reads a floating-point number of the vertex. -/
def double (key : String) : HookM p α α := read (·.double key)

/-- Reads an integer array of the vertex, if one was stored. -/
def longArray (key : String) : HookM p α (Option (Array Int64)) := read (·.longArray key)

/-- Reads a floating-point array of the vertex, if one was stored. -/
def doubleArray (key : String) : HookM p α (Option (Array α)) := read (·.doubleArray key)

/-- Writes an integer of the vertex. -/
def setLong (key : String) (value : Int64) : HookM p α Unit := write key (.long value)

/-- Writes a floating-point number of the vertex. -/
def setDouble (key : String) (value : α) : HookM p α Unit := write key (.double value)

/-- Writes an integer array of the vertex. -/
def setLongArray (key : String) (value : Array Int64) : HookM p α Unit :=
  write key (.longArray (some value))

/-- Writes a floating-point array of the vertex. -/
def setDoubleArray (key : String) (value : Array α) : HookM p α Unit :=
  write key (.doubleArray (some value))

/-- The running superstep. -/
def superstep : HookM .compute α Nat := return (← view).superstep

/-- Whether this is superstep 0. -/
def isInitialSuperstep : HookM .compute α Bool := return (← superstep) == 0

/-- The messages handed to the vertex. -/
def inbox : HookM .compute α (List α) := return (← view).inbox

/-- Sends a message. -/
def send (target : Nat) (value : α) : HookM .compute α Unit := record (.send target value)

/-- Sends messages in order. -/
def sendAll : List (Nat × α) → HookM .compute α Unit
  | [] => pure ()
  | (target, value) :: rest => do
    send target value
    sendAll rest

/-- Sends the same message along every relationship that leaves the vertex. -/
def sendToNeighbors (value : α) : HookM .compute α Unit := do
  sendAll ((← neighbors).map fun target => (target, value))

/-- Makes the vertex sleep until it receives a message. -/
def voteToHalt : HookM .compute α Unit := record .voteToHalt

end HookM

/-- The working state of the hook between supersteps. -/
structure MasterScratch (α : Type) where
  /-- The values of all vertices so far. -/
  values : NodeValues α
  /-- Whether the hook asked the run to stop. -/
  requested : Bool

/-- The language of the hook between supersteps. -/
def MasterM (α β : Type) : Type :=
  ReaderT (MasterView α) (EStateM Fault (MasterScratch α)) β

namespace MasterM

variable {α β : Type}

instance : Monad (MasterM α) :=
  inferInstanceAs (Monad (ReaderT (MasterView α) (EStateM Fault (MasterScratch α))))

/-- The reply of a hook. -/
def reply (hook : MasterM α Control) (view : MasterView α) (values : NodeValues α) :
    MasterReply α :=
  match hook view ⟨values, false⟩ with
  | .ok control scratch => ⟨scratch.values, scratch.requested, .ok control⟩
  | .error fault scratch => ⟨scratch.values, scratch.requested, .error fault⟩

/-- What the hook may look at. -/
def view : MasterM α (MasterView α) := fun v s => .ok v s

/-- Stops with a fault. -/
def stop (fault : Fault) : MasterM α β := fun _ s => .error fault s

/-- Stops with an error of the program. -/
def fail (source : String) : MasterM α β := stop (.error source)

/-- Goes on with an answer, or stops where a contract was broken. -/
def require : Except Violation β → MasterM α β
  | .ok b => fun _ s => .ok b s
  | .error violation => stop (.violation violation)

/-- Reads the values of all vertices. -/
def read (f : NodeValues α → Except Violation β) : MasterM α β := fun _ s =>
  match f s.values with
  | .ok b => .ok b s
  | .error violation => .error (.violation violation) s

/-- Stores a cell of a vertex under a key of the cell's type. -/
def write (key : String) (node : Nat) (c : Cell α) : MasterM α Unit := fun _ s =>
  match s.values.locate key c.valueType node with
  | .ok i => .ok () ⟨s.values.store i node c, s.requested⟩
  | .error violation => .error (.violation violation) s

/-- Whether the run was asked to stop, by this hook or before. -/
def isTerminated : MasterM α Bool := fun v s =>
  .ok (if s.requested then v.flag.request.raised else v.flag.raised) s

/-- Asks the run to stop. -/
def terminate : MasterM α Unit := fun _ s => .ok () ⟨s.values, true⟩

end MasterM

end Superstep
