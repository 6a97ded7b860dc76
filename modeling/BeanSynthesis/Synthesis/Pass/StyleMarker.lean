import BeanSynthesis.Synthesis.Sweep

/-!
# Style marker

All classes, enumerations and object factories get an annotation that takes them out of the checks
of coding style.
-/

namespace BeanSynthesis.StyleMarker

/-- The option of the pass. -/
def option : String := "Xph-csu"

/-- Marks a class that is not marked yet. -/
def onClass (marker : String) (c : BeanClass) : Step Changed :=
  if c.hasAnnotation marker then pure (c, {})
  else pure ({ c with annotations := c.annotations ++ [.ofName marker] }, .synthesized ++ .touched)

/-- Marks the classes and the object factories of a model. -/
def run (context : PassContext) (m : CodeModel) : PassRun :=
  let mark := onClass context.settings.runtime.codingStyleguideUnaware
  let classes := sweep mark m.classes
  let factories := sweep mark m.objectFactories
  { model := { m with classes := classes.classes, objectFactories := factories.classes }
    outcome := do
      let first ← classes.outcome
      let second ← factories.outcome
      return { option, tally := first ++ second }
    events := classes.events ++ factories.events }

end BeanSynthesis.StyleMarker
