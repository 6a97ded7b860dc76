import BeanSynthesis.Command.Arguments
import BeanSynthesis.Command.Check
import BeanSynthesis.Command.ListPasses

/-!
# The command line

Reads the files that a command needs, and does what the command says.
-/

namespace BeanSynthesis

/-- The text of a file. -/
def readText (path : String) : IO FileText := do
  try
    return .ok (← IO.FS.readFile path)
  catch e =>
    return .error (toString e)

/-- Does something. If it fails, the error says what it was for. -/
def attempt (purpose : String) (work : IO Unit) : IO Unit := do
  try work
  catch e => throw (IO.userError (purpose ++ "\n\nCaused by:\n    " ++ toString e))

/-- Writes a source, in a directory that is made if there is none. -/
def writeSource (file : SourceFile) : IO Unit := do
  let directory := "/".intercalate ((file.path.splitOn "/").dropLast)
  if directory ≠ "" then
    attempt ("Failed to create directory: " ++ directory) (IO.FS.createDirAll directory)
  attempt ("Failed to write source file: " ++ file.path) (IO.FS.writeFile file.path file.text)

/-- Does one thing. -/
def Action.perform : Action → IO Unit
  | print line => IO.println line
  | log entry => IO.eprintln (entry.level.name ++ " " ++ entry.message)
  | writeSource file => BeanSynthesis.writeSource file
  | writeReport path text =>
    attempt ("Failed to write report: " ++ path) (IO.FS.writeFile path text)

/-- The error that ends a command, with its cause. -/
def CommandFailure.message (failure : CommandFailure) : String :=
  match failure.cause? with
  | none => failure.context
  | some cause => failure.context ++ "\n\nCaused by:\n    " ++ cause.message

/-- Does what a command says. The result is the exit code. -/
def CommandRun.perform (run : CommandRun) : IO UInt32 := do
  try
    run.actions.forM Action.perform
    match run.failure with
    | none => return 0
    | some failure => throw (IO.userError failure.message)
  catch e =>
    IO.eprintln ("Error: " ++ toString e)
    return 1

/-- Runs the command that arguments ask for. -/
def runArguments (arguments : List String) : IO UInt32 := do
  match Command.ofArguments arguments with
  | .error reason => do
    IO.eprintln ("error: " ++ reason)
    return 2
  | .ok .listPasses => listPasses.perform
  | .ok (.check path) => do
    (checkModel path (← readText path)).perform
  | .ok (.generate request) => do
    let settingsFile ← readText (request.settingsPath.getD "")
    (generate request settingsFile (← readText request.modelPath)).perform

end BeanSynthesis

/-- The entry point. -/
def main (arguments : List String) : IO UInt32 := BeanSynthesis.runArguments arguments
