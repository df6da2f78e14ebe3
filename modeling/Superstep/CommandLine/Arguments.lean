import Superstep.Config
import Superstep.Decimal.Reading
import Superstep.Word

/-!
# Command-line arguments

A command line names a file, an algorithm and options: first the file and the options of the run, in
any order, then the algorithm with its own options. The value of an option follows it as the next
argument or after an equals sign; in the first form it must not start with a hyphen. An option is
given at most once.

`Arguments.step` takes one argument after the other; `CommandLine.parse` reads the values.
-/

namespace Superstep.CommandLine

/-- The algorithm to run. -/
inductive AlgorithmName where
  | pageRank
  | connectedComponents
  | shortestPath
  deriving Repr, DecidableEq

/-- The name of an algorithm on the command line. -/
def AlgorithmName.name : AlgorithmName → String
  | .pageRank => "page-rank"
  | .connectedComponents => "connected-components"
  | .shortestPath => "shortest-path"

/-- The algorithm of a given name. -/
def AlgorithmName.ofName? (s : String) : Option AlgorithmName :=
  [pageRank, connectedComponents, shortestPath].find? (·.name == s)

/-- An option. -/
inductive OptionName where
  | maxIterations
  | concurrency
  | asynchronous
  | forkJoin
  | forkJoinThreshold
  | pretty
  | dampingFactor
  | tolerance
  | source
  deriving Repr, DecidableEq

namespace OptionName

/-- The name of an option, without its hyphens. -/
def name : OptionName → String
  | maxIterations => "max-iterations"
  | concurrency => "concurrency"
  | asynchronous => "asynchronous"
  | forkJoin => "fork-join"
  | forkJoinThreshold => "fork-join-threshold"
  | pretty => "pretty"
  | dampingFactor => "damping-factor"
  | tolerance => "tolerance"
  | source => "source"

/-- Whether an option has a value. -/
def takesValue : OptionName → Bool
  | asynchronous | forkJoin | pretty => false
  | _ => true

/-- The options that may be given before the algorithm, or after it. -/
def available : Option AlgorithmName → List OptionName
  | none => [maxIterations, concurrency, asynchronous, forkJoin, forkJoinThreshold, pretty]
  | some .pageRank => [dampingFactor, tolerance]
  | some .connectedComponents => []
  | some .shortestPath => [source]

end OptionName

/-- What is wrong with a command line. -/
inductive UsageError where
  | unexpected (argument : String)
  | repeated (o : OptionName)
  | missingValue (o : OptionName)
  | unwantedValue (o : OptionName)
  | invalidValue (o : OptionName) (value : String)
  | emptyInput
  | missingInput
  | missingAlgorithm
  | missingSource
  deriving Repr, DecidableEq

/-- The text that reports a usage error. -/
def UsageError.message : UsageError → String
  | .unexpected argument => "unexpected argument '" ++ argument ++ "' found"
  | .repeated o => "the argument '--" ++ o.name ++ "' cannot be used multiple times"
  | .missingValue o => "a value is required for '--" ++ o.name ++ "' but none was supplied"
  | .unwantedValue o => "'--" ++ o.name ++ "' takes no value"
  | .invalidValue o value => "invalid value '" ++ value ++ "' for '--" ++ o.name ++ "'"
  | .emptyInput => "a value is required for '<INPUT>' but none was supplied"
  | .missingInput => "the following required argument was not provided: <INPUT>"
  | .missingAlgorithm => "a subcommand is required but one was not provided"
  | .missingSource => "the following required argument was not provided: --source"

/-- The form of an argument. -/
inductive ArgumentForm where
  | plain (text : String)
  /-- Two hyphens: no option follows. -/
  | endOfOptions
  /-- An option with what follows its equals sign, if there is one. -/
  | option (name : String) (value : Option String)
  /-- A hyphen and letters. There are no such options. -/
  | short
  deriving Repr, DecidableEq

/-- The form of an argument. A single hyphen is plain. -/
def ArgumentForm.of (argument : String) : ArgumentForm :=
  match argument.toList with
  | ['-', '-'] => .endOfOptions
  | '-' :: '-' :: rest =>
    let name := String.ofList (rest.takeWhile (· != '='))
    match rest.dropWhile (· != '=') with
    | [] => .option name none
    | _ :: value => .option name (some (String.ofList value))
  | '-' :: _ :: _ => .short
  | _ => .plain argument

/-- What the arguments so far say. -/
structure Arguments where
  input : Option String
  algorithm : Option AlgorithmName
  /-- The options that were given, with their values; those without a value have an empty one. -/
  options : List (OptionName × String)
  /-- The option whose value comes next. -/
  pending : Option OptionName
  /-- Whether no option may follow. -/
  optionsEnded : Bool
  deriving Repr, DecidableEq

namespace Arguments

/-- Before the first argument. -/
def empty : Arguments := ⟨none, none, [], none, false⟩

/-- The value of an option, if it was given. -/
def value? (a : Arguments) (o : OptionName) : Option String := a.options.lookup o

/-- Whether an option was given. -/
def has (a : Arguments) (o : OptionName) : Bool := (a.value? o).isSome

/-- Takes an option. -/
def takeOption (a : Arguments) (argument name : String) (value : Option String) :
    Except UsageError Arguments :=
  match (OptionName.available a.algorithm).find? (·.name == name) with
  | none => .error (.unexpected argument)
  | some o =>
    if a.has o then .error (.repeated o)
    else match o.takesValue, value with
      | true, none => .ok { a with pending := some o }
      | true, some v => .ok { a with options := (o, v) :: a.options }
      | false, none => .ok { a with options := (o, "") :: a.options }
      | false, some _ => .error (.unwantedValue o)

/-- Takes an argument that is not an option: before the algorithm, the algorithm or the file. -/
def takePlain (a : Arguments) (text : String) : Except UsageError Arguments :=
  match a.algorithm, AlgorithmName.ofName? text, a.input with
  | none, some algorithm, _ => .ok { a with algorithm := some algorithm }
  | none, none, none =>
    if text.isEmpty then .error .emptyInput else .ok { a with input := some text }
  | _, _, _ => .error (.unexpected text)

/-- Takes one more argument. -/
def step (a : Arguments) (argument : String) : Except UsageError Arguments :=
  if a.optionsEnded then .error (.unexpected argument)
  -- a value that starts with a hyphen has to follow an equals sign
  else match a.pending, ArgumentForm.of argument with
    | some o, .plain v => .ok { a with options := (o, v) :: a.options, pending := none }
    | some o, _ => .error (.missingValue o)
    | none, .plain text => a.takePlain text
    | none, .option name value => a.takeOption argument name value
    | none, .short => .error (.unexpected argument)
    | none, .endOfOptions =>
      if a.algorithm.isSome then .ok { a with optionsEnded := true } else .error .missingAlgorithm

end Arguments

/-- The algorithm to run, with its settings. -/
inductive Algorithm (α : Type) where
  | pageRank (damping tolerance : α)
  | connectedComponents
  | shortestPath (source : UInt64)
  deriving Repr

/-- What a command line asks for. -/
structure Command (α : Type) where
  /-- The file with the edge list. -/
  input : String
  /-- The settings of the run that were given. -/
  settings : List Config.Setting
  /-- Whether the result is printed with one item a line. -/
  pretty : Bool
  algorithm : Algorithm α

/-- How scalars are read from a command line, and the settings of PageRank that are not given. -/
structure ScalarArguments (α : Type) where
  read : List Char → Option α
  damping : α
  tolerance : α

namespace Arguments

variable {α : Type}

/-- Reads the value of an option, if the option was given. -/
def readOption {β : Type} (a : Arguments) (o : OptionName) (read : List Char → Option β) :
    Except UsageError (Option β) :=
  match a.value? o with
  | none => .ok none
  | some value =>
    match read value.toList with
    | some b => .ok (some b)
    | none => .error (.invalidValue o value)

/-- Reads a 64-bit word. -/
def readWord (text : List Char) : Option Nat := (readNatural wordLimit text).toOption

/-- The settings of the run. -/
def settings (a : Arguments) : Except UsageError (List Config.Setting) := do
  let maxIterations ← a.readOption .maxIterations readWord
  let concurrency ← a.readOption .concurrency readWord
  let forkJoinThreshold ← a.readOption .forkJoinThreshold readWord
  return (maxIterations.map Config.Setting.maxIterations).toList
    ++ [.isAsynchronous (a.has .asynchronous), .useForkJoin (a.has .forkJoin)]
    ++ (forkJoinThreshold.map Config.Setting.forkJoinThreshold).toList
    ++ (concurrency.map Config.Setting.concurrency).toList

/-- The algorithm with its settings. -/
def readAlgorithm (a : Arguments) (scalars : ScalarArguments α) :
    AlgorithmName → Except UsageError (Algorithm α)
  | .pageRank => do
    let damping ← a.readOption .dampingFactor scalars.read
    let tolerance ← a.readOption .tolerance scalars.read
    return .pageRank (damping.getD scalars.damping) (tolerance.getD scalars.tolerance)
  | .connectedComponents => .ok .connectedComponents
  | .shortestPath => do
    match ← a.readOption .source readWord with
    | some source => return .shortestPath source.toUInt64
    | none => .error .missingSource

/-- What complete arguments ask for. -/
def command (a : Arguments) (scalars : ScalarArguments α) : Except UsageError (Command α) :=
  match a.pending, a.input, a.algorithm with
  | some o, _, _ => .error (.missingValue o)
  | none, none, _ => .error .missingInput
  | none, some _, none => .error .missingAlgorithm
  | none, some input, some algorithm => do
    let settings ← a.settings
    let algorithm ← a.readAlgorithm scalars algorithm
    return ⟨input, settings, a.has .pretty, algorithm⟩

end Arguments

/-- What a command line asks for. -/
def parse {α : Type} (scalars : ScalarArguments α) (arguments : List String) :
    Except UsageError (Command α) := do
  (← arguments.foldlM Arguments.step .empty).command scalars

end Superstep.CommandLine
