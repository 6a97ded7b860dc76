import BeanSynthesis.Format.Model
import BeanSynthesis.Log.Level
import BeanSynthesis.Source.Files
import BeanSynthesis.Synthesis.Error

/-!
# Commands

What a command does is a value: the lines it prints, the messages it logs and the files it writes,
in order, and the failure that ends it. The files that it reads are handed to it.
-/

namespace BeanSynthesis

/-- The text of a file, or the reason why it cannot be read. -/
abbrev FileText := Except String String

/-- Why a command fails. -/
inductive CommandFailure where
  | settings (path : String) (cause : ModelError)
  | noPasses
  | model (path : String) (cause : ModelError)
  | synthesis (cause : SynthError)
  | problems (path : String) (count : Nat)
deriving DecidableEq, Repr

namespace CommandFailure

/-- What was being done. -/
def context : CommandFailure → String
  | settings path _ => "Failed to load configuration: " ++ path
  | noPasses => "No passes selected; use --pass or set `passes` in beanweave.toml"
  | model path _ => "Failed to load class model: " ++ path
  | synthesis _ => "Synthesis failed"
  | problems path count => Nat.repr count ++ " problem(s) found in " ++ path

/-- The error behind a failure. -/
def cause? : CommandFailure → Option SynthError
  | settings _ cause => some (.model cause)
  | noPasses => none
  | model _ cause => some (.model cause)
  | synthesis cause => some cause
  | problems .. => none

end CommandFailure

/-- Something that a command does. -/
inductive Action where
  /-- Prints a line. -/
  | print (line : String)
  | log (entry : LogEntry)
  /-- Writes a source, in a directory that is made if there is none. -/
  | writeSource (file : SourceFile)
  | writeReport (path text : String)
deriving DecidableEq, Repr

/-- What a command does, and how it ends. -/
structure CommandRun where
  actions : List Action
  failure : Option CommandFailure := none

namespace CommandRun

/-- Whether a command succeeds. -/
def succeeds (run : CommandRun) : Bool := run.failure.isNone

/-- All that a command prints. -/
def printed (run : CommandRun) : String :=
  String.join (run.actions.filterMap fun
    | .print line => some (line ++ "\n")
    | _ => none)

/-- The messages that a command logs. -/
def logged (run : CommandRun) : List LogEntry :=
  run.actions.filterMap fun
    | .log entry => some entry
    | _ => none

/-- The sources that a command writes, in order; a later one replaces an earlier one at its path. -/
def written (run : CommandRun) : List SourceFile :=
  run.actions.filterMap fun
    | .writeSource file => some file
    | _ => none

/-- The text of the report that a command writes. -/
def report? (run : CommandRun) : Option String :=
  run.actions.findSome? fun
    | .writeReport _ text => some text
    | _ => none

end CommandRun

/-- Reads a model from the text of a file. -/
def CodeModel.ofFile (path : String) (file : FileText) : Except CommandFailure CodeModel :=
  match file with
  | .error reason => .error (.model path (.io reason))
  | .ok text => (CodeModel.ofText text).mapError (.model path ·)

end BeanSynthesis
