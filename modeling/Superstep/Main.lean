import Superstep.CommandLine

/-!
# The program

Reads the file that the command line names, and prints what comes out.
-/

namespace Superstep.CommandLine

/-- The number of workers of a run whose command line does not set one. No result depends on it. -/
def defaultProcessors : Nat := 1

/-- The fault behind a failure to read a file. -/
def fileFault : IO.Error → FileFault
  | .noFileOrDirectory .. => .notFound
  | .inappropriateType .. => .isDirectory
  | .noSuchThing .. => .notDirectory
  | e => .other (toString e)

/-- The text of a file. -/
def readText (path : String) : IO (Except FileFault String) := do
  try
    return decodeText (← IO.FS.readBinFile path)
  catch e =>
    return .error (fileFault e)

end Superstep.CommandLine

open Superstep.CommandLine in
/-- Runs the command line program. -/
def main (arguments : List String) : IO UInt32 := do
  let outcome ← match parse ScalarText.double.arguments arguments with
    | .error e => pure e.outcome
    | .ok command => do
      let content ← readText command.input
      pure (command.outcome (execute .double defaultProcessors command content))
  (← IO.getStdout).putStr outcome.output
  (← IO.getStderr).putStr outcome.errors
  return outcome.exitCode.toUInt32
