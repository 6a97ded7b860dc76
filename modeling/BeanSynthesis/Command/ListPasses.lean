import BeanSynthesis.Command.Basic
import BeanSynthesis.Synthesis.Pipeline

/-!
# The list of passes
-/

namespace BeanSynthesis

/-- A text filled up with spaces on its right to a width. -/
def padRight (width : Nat) (text : String) : String :=
  text ++ String.ofList (List.replicate (width - text.length) ' ')

/-- Prints the option of every pass and what the pass does. -/
def listPasses : CommandRun :=
  { actions := .print "Available passes:" :: Pass.all.map fun pass =>
      .print ("  -" ++ padRight 26 pass.option ++ " " ++ pass.usage) }

end BeanSynthesis
