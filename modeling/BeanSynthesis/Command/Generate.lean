import BeanSynthesis.Command.Basic
import BeanSynthesis.Format.Settings
import BeanSynthesis.Synthesis.Pipeline

/-!
# Generating sources

Runs passes over a model and writes the sources of the result. What is asked for on the command
line wins over the settings.
-/

namespace BeanSynthesis

/-- What is asked for on the command line. -/
structure GenerateRequest where
  modelPath : String
  /-- The directory that the sources go to. -/
  output : String
  settingsPath : Option String := none
  passes : List String := []
  implements : List String := []
  debug : Bool := false
  /-- The file that the report goes to. -/
  report : Option String := none
deriving Repr, Inhabited

namespace GenerateRequest

/-- The settings of a request: those in the file, with the interfaces that are asked for. -/
def settings (r : GenerateRequest) (file : FileText) : Except CommandFailure Settings := do
  let stored : Settings ←
    match r.settingsPath with
    | none => .ok {}
    | some path =>
      match file with
      | .error reason => .error (.settings path (.io reason))
      | .ok text => (Settings.ofToml text).mapError (.settings path ·)
  return if r.implements.isEmpty then stored else { stored with implements := r.implements }

/-- The options of the passes that are to run. -/
def options (r : GenerateRequest) (s : Settings) : Except CommandFailure (List String) :=
  let options := if r.passes.isEmpty then s.passes else r.passes
  if options.isEmpty then .error .noPasses else .ok options

/-- The threshold of the log: that of the settings, unless debug mode is asked for. A level that
is not known stands for the usual one. -/
def threshold (r : GenerateRequest) (s : Settings) : LogLevel :=
  if r.debug || s.debug then .debug else (LogLevel.parse? s.logLevel).getD .info

end GenerateRequest

/-- The actions that log those messages that pass a threshold. -/
def logActions (threshold : LogLevel) (entries : List LogEntry) : List Action :=
  (entries.filter fun entry => threshold.passes entry.level).map .log

/-- The actions that write sources. -/
def writeActions (threshold : LogLevel) (files : List SourceFile) : List Action :=
  files.flatMap fun file =>
    .writeSource file :: logActions threshold [⟨.debug, "Wrote " ++ file.path⟩]

/-- Runs the passes of a request and writes sources and report. -/
def generate (r : GenerateRequest) (settingsFile modelFile : FileText) : CommandRun :=
  let prepared := do
    let settings ← r.settings settingsFile
    let options ← r.options settings
    let model ← CodeModel.ofFile r.modelPath modelFile
    return (settings, options, model)
  match prepared with
  | .error failure => { actions := [], failure }
  | .ok (settings, options, model) =>
    let opening := Action.print
      ("Loaded " ++ Nat.repr model.classes.length ++ " classes from " ++ r.modelPath)
    let threshold := r.threshold settings
    let session : Session := { model, settings }
    let (outcome, entries, session) := session.synthesize options
    let begun := opening :: logActions threshold entries
    match outcome with
    | .error cause => { actions := begun, failure := some (.synthesis cause) }
    | .ok report =>
      let files := session.model.sourceFiles.map (·.inDirectory r.output)
      let closing : List Action :=
        [.print ("✓ " ++ Nat.repr report.membersAdded ++ " members added, " ++
          Nat.repr report.skipped.length ++ " skipped"),
        .print ("✓ Wrote " ++ Nat.repr files.length ++ " files to " ++ r.output)]
      let reported : List Action :=
        match r.report with
        | none => []
        | some path =>
          [.writeReport path report.toText, .print ("✓ Report: " ++ path)]
      { actions := begun ++ writeActions threshold files ++ closing ++ reported }

end BeanSynthesis
