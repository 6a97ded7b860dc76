import BeanSynthesis.Synthesis.Fields
import BeanSynthesis.Synthesis.Lineage
import BeanSynthesis.Synthesis.Sweep

/-!
# Descriptions of objects

Every class gets a `toString` that lists its instance fields. A class that builds on another one
and has no fields of its own needs none.
-/

namespace BeanSynthesis.Description

/-- The option of the pass. -/
def option : String := "Xph-tostring"

/-- The generator that a description starts from. -/
def start (runtime : RuntimeClasses) : Lineage → Expr
  | .root => .newObject (.ofName runtime.toStringGenerator) [.thisRef]
  | .derived => .static runtime.toStringGenerator "getDerived" [Expr.superRef.invoke "toString" []]

/-- The description of the fields, built on what the superclass describes. -/
def description (runtime : RuntimeClasses) (fields : List InstanceField) (lineage : Lineage) :
    Expr :=
  let generator := fields.foldl
    (fun generator f => generator.invoke "append" [.strLit f.name, .ident f.name])
    (start runtime lineage)
  generator.invoke "getToString" []

/-- The method `toString`. -/
def toStringMethod (runtime : RuntimeClasses) (fields : List InstanceField) (lineage : Lineage) :
    Method where
  name := "toString"
  returnType := .ofName "java.lang.String"
  annotations := [overrideMark]
  body := some [.give (description runtime fields lineage)]

/-- Adds the method to a class. -/
def onClass (settings : Settings) (m : CodeModel) (c : BeanClass) : Step Changed := do
  let lineage := m.lineageOf c
  let fields ← c.instanceFields
  if lineage == .derived && fields.isEmpty then return (c, {})
  let changed ← c.addMethod
    ((toStringMethod settings.runtime fields lineage).stamp settings option)
  return changed.noted (settings.classNote option)

/-- Adds descriptions to a model. -/
def run (context : PassContext) (m : CodeModel) : PassRun :=
  .ofSweep option m (exceptEnums (onClass context.settings m))

end BeanSynthesis.Description
