import BeanSynthesis.Synthesis.Members

/-!
# Sweeps over classes

Most passes treat one class after the other. The first error ends the sweep; the classes before
it keep what they have received, and those from it on are left as they were.
-/

namespace BeanSynthesis

/-- What a pass may consult besides the model. -/
structure PassContext where
  settings : Settings
  /-- The options of the passes that take part in the run. -/
  active : List String

/-- Classes after a sweep, with its outcome and its events. -/
structure Sweep where
  classes : List BeanClass
  outcome : Except SynthError Tally
  events : List Event

/-- Treats one class after the other. -/
def sweep (f : BeanClass → Step Changed) : List BeanClass → Sweep
  | [] => { classes := [], outcome := .ok {}, events := [] }
  | c :: rest =>
    let step := f c
    match step.outcome with
    | .error e => { classes := c :: rest, outcome := .error e, events := step.events }
    | .ok (changed, tally) =>
      let others := sweep f rest
      { classes := changed :: others.classes
        outcome := others.outcome.map (tally ++ ·)
        events := step.events ++ others.events }

/-- A treatment that leaves enumerations alone. -/
def exceptEnums (f : BeanClass → Step Changed) (c : BeanClass) : Step Changed :=
  if c.isEnum then pure (c, {}) else f c

/-- A model after a pass, with what the pass reports and the events on the way. -/
structure PassRun where
  model : CodeModel
  outcome : Except SynthError PassReport
  events : List Event

/-- The run of a pass that is one sweep over the classes of a model. -/
def PassRun.ofSweep (option : String) (m : CodeModel) (f : BeanClass → Step Changed) : PassRun :=
  let s := sweep f m.classes
  { model := { m with classes := s.classes }
    outcome := s.outcome.map fun tally => { option, tally }
    events := s.events }

end BeanSynthesis
