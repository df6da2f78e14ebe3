import Superstep.Computer
import Superstep.Message.Strategy
import Superstep.Program
import Superstep.Run.State

/-!
# The journal of a run

A run writes down what happens, in order: its changes of state, every call of a vertex program with
what it was handed and what it replied, every range of vertices that a worker finished, and the
figures of every superstep. `Event.log?` is the line that an event leaves in a log, if it leaves
one.
-/

namespace Superstep

/-- A call of a vertex program. -/
structure Call (α : Type) where
  phase : Phase
  superstep : Nat
  vertex : Nat
  /-- Whether the vertex slept when the superstep began and was woken by a message sent in it. -/
  late : Bool
  /-- Whether the vertex's vote to halt stood when the call began. -/
  halted : Bool
  inbox : List α
  reply : Reply α

/-- What the workers of a phase did. -/
structure PhaseStats where
  /-- Number of calls. -/
  invocations : Nat
  /-- Number of messages sent. -/
  messagesSent : Nat
  /-- Number of vertices that voted to halt and had not done so before. -/
  newlyHalted : Nat
  deriving Repr, DecidableEq

/-- The counters at the start of a phase. -/
def PhaseStats.zero : PhaseStats := ⟨0, 0, 0⟩

/-- The figures of a superstep. -/
structure SuperstepStats where
  superstep : Nat
  /-- Number of vertices that were awake when the superstep began. -/
  active : Nat
  /-- What the workers did. -/
  work : PhaseStats
  /-- Number of vertices whose vote to halt stood at the end. -/
  halted : Nat
  /-- Whether messages waited for the next superstep at the end. -/
  pending : Bool
  deriving Repr, DecidableEq

/-- Something that happened in a run. -/
inductive Event (α : Type) where
  | created (computer : Computer) (nodeCount : Nat)
  | transition (source target : RunState)
  | starting (nodeCount relationshipCount : Nat) (messenger : Option MessengerStrategy)
      (computer : Computer) (maxIterations : Nat)
  | call (c : Call α)
  /-- A worker is done with its vertices; `ok` tells that it did not fail. -/
  | stepFinished (phase : Phase) (superstep : Nat) (vertices : VertexRange) (ok : Bool)
  | superstepFinished (stats : SuperstepStats)
  | finished (didConverge : Bool) (ranIterations : Nat)
  | failed (error : RunError)
  /-- The run was broken off by a violation. -/
  | brokenOff (state : RunState)

/-- How important a log line is. -/
inductive LogLevel where
  | debug
  | info
  | warn
  deriving Repr, DecidableEq

/-- The level's name in a log. -/
def LogLevel.name : LogLevel → String
  | .debug => "DEBUG"
  | .info => "INFO"
  | .warn => "WARN"

/-- The value of a log field. -/
inductive LogValue where
  | text (s : String)
  | number (n : Nat)
  | flag (b : Bool)
  deriving Repr, DecidableEq

/-- A line of a log. -/
structure LogLine where
  level : LogLevel
  message : String
  fields : List (String × LogValue)
  deriving Repr, DecidableEq

/-- The text of an optional value in a log. -/
def optionText : Option String → String
  | none => "None"
  | some s => "Some(" ++ s ++ ")"

/-- The line that an event leaves in the log. Calls and finished ranges leave none. -/
def Event.log? {α : Type} : Event α → Option LogLine
  | .created computer nodeCount => some ⟨.debug, "created pregel run",
      [("computer", .text computer.text), ("node_count", .number nodeCount)]⟩
  | .transition source target => some ⟨.debug, "run state transition",
      [("from", .text source.text), ("to", .text target.text)]⟩
  | .starting nodeCount relationshipCount messenger computer maxIterations =>
    some ⟨.info, "starting pregel run",
      [("node_count", .number nodeCount), ("relationship_count", .number relationshipCount),
       ("messenger", .text (optionText (messenger.map (·.constructorName)))),
       ("computer", .text computer.text), ("max_iterations", .number maxIterations)]⟩
  | .superstepFinished s => some ⟨.debug, "superstep finished",
      [("superstep", .number s.superstep), ("active", .number s.active),
       ("invocations", .number s.work.invocations),
       ("messages_sent", .number s.work.messagesSent),
       ("newly_halted", .number s.work.newlyHalted), ("halted", .number s.halted),
       ("pending", .flag s.pending)]⟩
  | .finished didConverge ranIterations => some ⟨.info, "pregel run finished",
      [("did_converge", .flag didConverge), ("ran_iterations", .number ranIterations)]⟩
  | .failed error => some ⟨.warn, "pregel run failed",
      [("error", .text error.message),
       ("superstep", .text (optionText (error.superstep?.map toString)))]⟩
  | .brokenOff state => some ⟨.warn, "pregel run panicked", [("state", .text state.text)]⟩
  | .call _ | .stepFinished _ _ _ _ => none

/-- Everything that happened in a run, in order. -/
abbrev Journal (α : Type) := Array (Event α)

namespace Journal

variable {α : Type}

/-- The log of a run. -/
def log (j : Journal α) : List LogLine := j.toList.filterMap Event.log?

/-- The calls of a phase, in order. -/
def calls (j : Journal α) (phase : Phase) : List (Call α) := j.toList.filterMap fun
  | .call c => if c.phase = phase then some c else none
  | _ => none

/-- The calls of a superstep in a list of calls, and those of the supersteps after it. At most
`fuel` supersteps are looked at. -/
def bySuperstep : (fuel superstep : Nat) → List (Call α) → List (List (Call α))
  | 0, _, _ => []
  | _ + 1, _, [] => []
  | fuel + 1, s, calls =>
    let (here, later) := calls.span (·.superstep == s)
    here.mergeSort (fun a b => decide (a.vertex ≤ b.vertex)) :: bySuperstep fuel (s + 1) later

/-- The computing calls of every superstep, up to the last one with a call, by vertex. -/
def trace (j : Journal α) : List (List (Call α)) :=
  let calls := j.calls .compute
  bySuperstep ((calls.getLast?.map (·.superstep + 1)).getD 0) 0 calls

/-- A range of vertices that a worker finished. -/
structure FinishedStep where
  phase : Phase
  superstep : Nat
  vertices : VertexRange
  ok : Bool
  deriving Repr, DecidableEq

/-- The place of a range in a report: the set-up first, then by superstep and vertices. -/
def FinishedStep.rank (s : FinishedStep) : List Nat :=
  [if s.phase = .init then 0 else 1, s.superstep, s.vertices.start, s.vertices.stop]

/-- The ranges that workers finished, in order. -/
def finishedSteps (j : Journal α) : List FinishedStep := j.toList.filterMap fun
  | .stepFinished phase superstep vertices ok => some ⟨phase, superstep, vertices, ok⟩
  | _ => none

end Journal

end Superstep
