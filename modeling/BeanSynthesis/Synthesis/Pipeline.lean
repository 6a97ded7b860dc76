import BeanSynthesis.Synthesis.Classifier
import BeanSynthesis.Synthesis.Pass.Constraints
import BeanSynthesis.Synthesis.Pass.Copying
import BeanSynthesis.Synthesis.Pass.Description
import BeanSynthesis.Synthesis.Pass.Equality
import BeanSynthesis.Synthesis.Pass.FactoryDocs
import BeanSynthesis.Synthesis.Pass.Interfaces
import BeanSynthesis.Synthesis.Pass.ListAccessors
import BeanSynthesis.Synthesis.Pass.NullMarker
import BeanSynthesis.Synthesis.Pass.PrivateFields
import BeanSynthesis.Synthesis.Pass.StyleMarker
import BeanSynthesis.Synthesis.Pass.ValueAccessors

/-!
# Synthesis runs

The passes in the order in which they run, their selection by option, and a run of the selected
ones over a model. The first error ends a run; what was added before it stays in the model. A
session keeps the model, the settings and what is remembered of external classes from run to run.
-/

namespace BeanSynthesis

/-- A synthesis pass. -/
inductive Pass where
  | localAccessors
  | valueAccessors
  | listAccessors
  | equality
  | description
  | copying
  | constraints (dialect : ValidationDialect)
  | interfaces
  | privateFields
  | factoryDocs
  | styleMarker
  | nullMarker
deriving DecidableEq, Repr, Inhabited

namespace Pass

/-- All passes, in the order in which they run. -/
def all : List Pass := [localAccessors, valueAccessors, listAccessors, equality, description,
  copying, constraints .jsr303, constraints .jsr349, interfaces, privateFields, factoryDocs,
  styleMarker, nullMarker]

/-- The option that selects a pass. -/
def option : Pass → String
  | localAccessors => LocalAccessors.option
  | valueAccessors => ValueAccessors.option
  | listAccessors => ListAccessors.option
  | equality => Equality.option
  | description => Description.option
  | copying => Copying.option
  | constraints dialect => Constraints.option dialect
  | interfaces => Interfaces.option
  | privateFields => PrivateFields.option
  | factoryDocs => FactoryDocs.option
  | styleMarker => StyleMarker.option
  | nullMarker => NullMarker.option

/-- What a pass does, in one line. -/
def usage : Pass → String
  | localAccessors => "add additional methods for Offset* date time types"
  | valueAccessors => "create additional constructors with the 'value' as argument + getter and setter for the value"
  | listAccessors => "add additional methods for List types"
  | equality => "auto implement equals and hashCode using com.helger.base.equals.EqualsHelper and com.helger.base.hashcode.HashCodeGenerator"
  | description => "auto implement toString using com.helger.base.tostring.ToStringGenerator"
  | copying => "implement clone() of IExplicitlyCloneable interface and cloneTo(target)"
  | constraints .jsr303 => "inject Bean validation 1.0 annotations (JSR 303)"
  | constraints .jsr349 => "inject Bean validation 1.1 annotations (JSR 349)"
  | interfaces => "implement the interfaces listed in \x60implements\x60 in all classes/enums"
  | privateFields => "mark all fields as private"
  | factoryDocs => "fix some issues that cause warnings in the generated code"
  | styleMarker => "add @CodingStyleguideUnaware annotations to all classes"
  | nullMarker => "add @org.jspecify.annotations.NullMarked annotations to package-info.java"

/-- What a pass does to a model. -/
def treat : Pass → PassContext → CodeModel → PassRun
  | localAccessors => LocalAccessors.run
  | valueAccessors => ValueAccessors.run
  | listAccessors => ListAccessors.run
  | equality => Equality.run
  | description => Description.run
  | copying => Copying.run
  | constraints dialect => Constraints.run dialect
  | interfaces => Interfaces.run
  | privateFields => PrivateFields.run
  | factoryDocs => FactoryDocs.run
  | styleMarker => StyleMarker.run
  | nullMarker => NullMarker.run

/-- Runs a pass, which says so first. -/
def run (pass : Pass) (context : PassContext) (m : CodeModel) : PassRun :=
  let treated := pass.treat context m
  { treated with events := .logged ⟨.info, "Running -" ++ pass.option⟩ :: treated.events }

/-- The option that a text names: white space around it and dashes in front do not count. -/
def optionOf (text : String) : String :=
  String.ofList ((Text.trimChars text.toList).dropWhile (· = '-'))

/-- The pass with this option. -/
def ofOption? (option : String) : Option Pass := all.find? (·.option == option)

/-- No two passes have the same option. -/
theorem ofOption?_option (pass : Pass) : ofOption? pass.option = some pass := by
  cases pass with
  | constraints dialect => cases dialect <;> rfl
  | _ => rfl

/-- The passes that options select, in the order in which they run and each once. -/
def select (options : List String) : Except SynthError (List Pass) :=
  let wanted := options.map optionOf
  match wanted.find? fun name => (ofOption? name).isNone with
  | some name => .error (.unknownPass name)
  | none => .ok (all.filter fun pass => wanted.contains pass.option)

end Pass

/-- A model after a run, with the report and the events on the way. -/
structure EngineRun where
  model : CodeModel
  outcome : Except SynthError RunReport
  events : List Event

namespace EngineRun

/-- What is logged when a pass ends with an error. -/
def abortion (pass : Pass) (e : SynthError) : Event :=
  .logged ⟨.error, "Synthesis aborted in -" ++ pass.option ++ " (code " ++ Nat.repr e.code ++
    "): " ++ e.message⟩

/-- What is logged when a pass is done. -/
def completion (report : PassReport) : Event :=
  .logged ⟨.debug, "-" ++ report.option ++ ": " ++ Nat.repr report.tally.membersAdded ++
    " members added, " ++ Nat.repr report.tally.skipped.length ++ " skipped"⟩

/-- Runs passes one after the other, up to the first error. -/
def runPasses (context : PassContext) (m : CodeModel) (report : RunReport) : List Pass → EngineRun
  | [] => { model := m, outcome := .ok report, events := [] }
  | pass :: rest =>
    let run := pass.run context m
    match run.outcome with
    | .error e =>
      { model := run.model, outcome := .error e, events := run.events ++ [abortion pass e] }
    | .ok passReport =>
      let others := runPasses context run.model (report.add passReport) rest
      { others with events := run.events ++ completion passReport :: others.events }

/-- What is logged before the first pass. -/
def opening (classes passes : Nat) : Event :=
  .logged ⟨.info, "Synthesizing " ++ Nat.repr classes ++ " classes with " ++ Nat.repr passes ++
    " passes"⟩

/-- What is logged after the last pass. -/
def closing (report : RunReport) : Event :=
  .logged ⟨.info, "Synthesis finished: " ++ Nat.repr report.membersAdded ++ " members added, " ++
    Nat.repr report.skipped.length ++ " skipped"⟩

/-- Runs the passes of a selection. -/
def ofSelection (settings : Settings) (m : CodeModel) (selected : List Pass) : EngineRun :=
  let context : PassContext := { settings, active := selected.map Pass.option }
  let run := runPasses context m {} selected
  { run with
    events := opening m.classes.length selected.length :: run.events ++
      match run.outcome with
      | .ok report => [closing report]
      | .error _ => [] }

end EngineRun

/-- The passes that options select for a model, provided that its inheritance is well-formed and
every option is known. -/
def CodeModel.plan (m : CodeModel) (options : List String) : Except SynthError (List Pass) :=
  match m.validate with
  | .error e => .error (.model e)
  | .ok () => Pass.select options

/-- Runs the passes that options select over a model. A run that cannot be planned leaves the model
as it was and logs nothing. -/
def synthesize (settings : Settings) (m : CodeModel) (options : List String) : EngineRun :=
  match m.plan options with
  | .error e => { model := m, outcome := .error e, events := [] }
  | .ok selected => .ofSelection settings m selected

/-- What stays from run to run. -/
structure Session where
  model : CodeModel
  settings : Settings
  classifier : Classifier := {}
  /-- The options of the passes that took part in the last run that could be planned. -/
  active : List String := []

/-- What an event logs, and what is remembered after it. -/
def Classifier.observe (k : Classifier) (m : CodeModel) : Event → List LogEntry × Classifier
  | .logged entry => ([entry], k)
  | .askedExternal name => (k.notices m name, k.remember m name)

/-- What events log, and what is remembered after them. -/
def Classifier.observeAll (k : Classifier) (m : CodeModel) :
    List Event → List LogEntry × Classifier
  | [] => ([], k)
  | event :: rest =>
    let (entries, k) := k.observe m event
    let (others, k) := k.observeAll m rest
    (entries ++ others, k)

namespace Session

/-- The session after a run with these events, and what the run logged. -/
def advance (s : Session) (model : CodeModel) (events : List Event) : List LogEntry × Session :=
  let (entries, classifier) := s.classifier.observeAll s.model events
  (entries, { s with model, classifier })

/-- The options of the passes that take part in a run: the planned ones, or those of the run before
if this one cannot be planned. -/
def activeIn (s : Session) (options : List String) : List String :=
  match s.model.plan options with
  | .error _ => s.active
  | .ok selected => selected.map Pass.option

/-- Runs the passes that options select. -/
def synthesize (s : Session) (options : List String) :
    Except SynthError RunReport × List LogEntry × Session :=
  let run := BeanSynthesis.synthesize s.settings s.model options
  let active := s.activeIn options
  let (entries, s) := s.advance run.model run.events
  (run.outcome, entries, { s with active })

/-- Runs one pass by itself, as part of a run with the passes of these options. -/
def runPass (s : Session) (pass : Pass) (active : List String) :
    Except SynthError PassReport × List LogEntry × Session :=
  let run := pass.run { settings := s.settings, active } s.model
  let (entries, s) := s.advance run.model run.events
  (run.outcome, entries, { s with active })

end Session

end BeanSynthesis
