import BeanSynthesis.Command.Basic
import BeanSynthesis.Synthesis.Problems

/-!
# Checking a model

A model is sound if it can be loaded and has no problems.
-/

namespace BeanSynthesis

/-- The lines about a sound model. -/
def CodeModel.summary (m : CodeModel) : List String :=
  let enums := m.classes.countP BeanClass.isEnum
  ["✓ Classes: " ++ Nat.repr (m.classes.length - enums),
    "✓ Enums: " ++ Nat.repr enums,
    "✓ Object factories: " ++ Nat.repr m.objectFactories.length,
    "✓ External types: " ++ Nat.repr m.external.size,
    "\nClass model is valid!"]

/-- Checks the model in a file. -/
def checkModel (path : String) (file : FileText) : CommandRun :=
  let opening := Action.print ("Checking class model: " ++ path)
  match CodeModel.ofFile path file with
  | .error failure => { actions := [opening], failure }
  | .ok m =>
    let problems := m.problems
    if problems.isEmpty then { actions := opening :: m.summary.map .print }
    else
      { actions := opening :: problems.map fun problem => .print ("✗ " ++ problem.message)
        failure := some (.problems path problems.length) }

end BeanSynthesis
