import Superstep.Algorithm.Components
import Superstep.Algorithm.ShortestPaths
import Superstep.CommandLine.Arguments
import Superstep.Graph.EdgeList
import Superstep.Json.Codec
import Superstep.Run

/-!
# The command line program

`CommandLine.execute` does what a command line asks for: it reads the edge list, creates the run,
follows it to its end and answers with the public values of every vertex in JSON. Of several things
that are wrong the first in this order is reported: the file, the settings of the run, the settings
of the algorithm, the run itself. `CommandLine.executeUnder` is the same with workers that take
turns in any way.
-/

namespace Superstep.CommandLine

/-- Why a file has no text. -/
inductive FileFault where
  | notFound
  | isDirectory
  | notDirectory
  | notText
  | other (text : String)
  deriving Repr, DecidableEq

/-- The text that reports a file fault. -/
def FileFault.message : FileFault → String
  | .notFound => "No such file or directory (os error 2)"
  | .isDirectory => "Is a directory (os error 21)"
  | .notDirectory => "Not a directory (os error 20)"
  | .notText => "stream did not contain valid UTF-8"
  | .other text => text

/-- The text of a file with the given bytes. -/
def decodeText (bytes : ByteArray) : Except FileFault String :=
  match String.fromUTF8? bytes with
  | some text => .ok text
  | none => .error .notText

/-- Why a command has no result. -/
inductive Failure where
  | unreadable (path : String) (fault : FileFault)
  | edgeList (fault : EdgeList.Fault)
  | rejected (e : RunError)
  /-- The damping factor is not in range. -/
  | dampingFactor (text : String)
  | unknownSource (source : UInt64)
  | stopped (e : RunError)
  | brokenOff (v : Violation)
  deriving Repr, DecidableEq

namespace Failure

/-- The text that reports a failure. -/
def message : Failure → String
  | .unreadable path _ => "failed to read " ++ path
  | .edgeList fault => fault.message
  | .rejected e => e.message
  | .dampingFactor text => "damping factor must be in [0, 1), got " ++ text
  | .unknownSource source => "source vertex " ++ toString source.toNat ++ " is not in the graph"
  | .stopped _ => "pregel run failed"
  | .brokenOff v => v.message

/-- The text that reports what led to a failure. -/
def cause? : Failure → Option String
  | .unreadable _ fault => some fault.message
  | .edgeList fault => fault.cause?
  | .stopped e => some e.message
  | _ => none

/-- What is printed about a failure. -/
def report (f : Failure) : String :=
  "Error: " ++ f.message ++ "\n" ++
    (f.cause?.map fun cause => "\nCaused by:\n    " ++ cause ++ "\n").getD ""

/-- The exit code of the program. -/
def exitCode : Failure → Nat
  -- a violation ends the program as such, not the run it happened in
  | .brokenOff _ => 101
  | _ => 1

end Failure

/-- How scalars are read and written by the program. -/
structure ScalarText (α : Type) where
  arguments : ScalarArguments α
  /-- The text of a scalar in a message. -/
  message : α → String
  json : ScalarFormat α

/-- Doubles in the program. -/
def ScalarText.double : ScalarText Float where
  arguments := ⟨readDouble, PageRank.standard.damping, PageRank.standard.tolerance⟩
  message := NumberLayout.plainText
  json := .double

variable {α : Type}

/-- A cell in JSON. -/
def cellJson (format : ScalarFormat α) : Cell α → Json
  | .long v => .ofInt v.toInt
  | .double v => format.toJson v
  | .longArray none | .doubleArray none => .null
  | .longArray (some values) => .array (values.toList.map fun v => .ofInt v.toInt)
  | .doubleArray (some values) => .array (values.toList.map format.toJson)

/-- The object with the given members in the order of their keys. -/
def sortedRecord (members : List (String × Json)) : Json :=
  .record (members.mergeSort fun a b => decide (a.1 ≤ b.1))

/-- The public values of a vertex, with its id. -/
def vertexJson (format : ScalarFormat α) (graph : Graph α) (values : NodeValues α) (node : Nat) :
    Json :=
  let id : Json := match graph.externalId? node with
    | some id => .ofNat id.toNat
    | none => .null
  let member (key : String) : Option (String × Json) :=
    ((values.column? key).bind (·.cell? node)).map fun cell => (key, cellJson format cell)
  sortedRecord (("node_id", id) :: values.publicKeys.filterMap member)

/-- The result of a run. -/
def resultJson (format : ScalarFormat α) (graph : Graph α) (result : RunResult α) : Json :=
  sortedRecord [
    ("did_converge", .bool result.didConverge),
    ("ran_iterations", .ofNat result.ranIterations),
    ("nodes", .array ((List.range result.values.nodeCount).map
      (vertexJson format graph result.values)))]

variable [Scalar α]

/-- Runs a program over a graph and answers with the result. -/
def runProgram (schedule : Schedule) (format : ScalarFormat α) (graph : CsrGraph α)
    (config : Config) (program : Program α) : Except Failure Json :=
  let graph := graph.toGraph
  match Run.create graph config program .fresh with
  | .error e => .error (.rejected e)
  | .ok run =>
    match (run.execute schedule).1 with
    | .ok result => .ok (resultJson format graph result)
    | .error (.error e) => .error (.stopped e)
    | .error (.violation v) => .error (.brokenOff v)

/-- Runs an algorithm over a graph. Components are those of the undirected graph. -/
def runAlgorithm (schedule : Schedule) (text : ScalarText α) (graph : CsrGraph α)
    (config : Config) : Algorithm α → Except Failure Json
  | .pageRank damping tolerance =>
    -- not a number is not less than zero, but not less than one either
    if !Scalar.less damping Scalar.zero && Scalar.less damping Scalar.one then
      runProgram schedule text.json graph config (PageRank.mk damping tolerance).program
    else .error (.dampingFactor (text.message damping))
  | .connectedComponents =>
    runProgram schedule text.json graph.toUndirected config Components.program
  | .shortestPath source =>
    match graph.denseId? source with
    | some node => runProgram schedule text.json graph config (ShortestPaths.mk node).program
    | none => .error (.unknownSource source)

/-- Does what a command asks for on a machine with `processors` processors, where the file has the
given text, if any, and the workers take turns as the schedule says. -/
def executeUnder (schedule : Schedule) (text : ScalarText α) (processors : Nat)
    (command : Command α) (content : Except FileFault String) : Except Failure Json :=
  match content with
  | .error fault => .error (.unreadable command.input fault)
  | .ok content =>
    match EdgeList.read text.arguments.read content.toList with
    | .error fault => .error (.edgeList fault)
    | .ok edges =>
      match Config.build processors command.settings with
      | .error e => .error (.rejected e)
      | .ok config => runAlgorithm schedule text (.ofExternalEdges edges) config command.algorithm

/-- Does what a command asks for, one vertex after the other. -/
def execute (text : ScalarText α) (processors : Nat) (command : Command α)
    (content : Except FileFault String) : Except Failure Json :=
  executeUnder .sequential text processors command content

/-- What the program leaves behind. -/
structure Outcome where
  exitCode : Nat
  /-- What is printed as the result. -/
  output : String
  /-- What is printed about an error. -/
  errors : String
  deriving Repr, DecidableEq

/-- The outcome of a command. -/
def Command.outcome (command : Command α) : Except Failure Json → Outcome
  | .ok j => ⟨0, (if command.pretty then j.pretty else j.compact) ++ "\n", ""⟩
  | .error f => ⟨f.exitCode, "", f.report⟩

/-- The outcome of a command line that asks for nothing. -/
def UsageError.outcome (e : UsageError) : Outcome := ⟨2, "", "error: " ++ e.message ++ "\n"⟩

end Superstep.CommandLine
