import BeanSynthesis.Synthesis.Sweep

/-!
# Private fields

All fields of all classes become private.
-/

namespace BeanSynthesis.PrivateFields

/-- The option of the pass. -/
def option : String := "Xph-fields-private"

/-- Makes fields of a class private; the number says how many were not. -/
def hideFields (className : String) : List Field → Step (List Field × Nat)
  | [] => pure ([], 0)
  | f :: rest =>
    if f.visibility == .priv then do
      let (others, count) ← hideFields className rest
      return (f :: others, count)
    else do
      Step.log .debug ("Making " ++ className ++ "." ++ f.name ++ " private")
      let (others, count) ← hideFields className rest
      return ({ f with visibility := .priv } :: others, count + 1)

/-- Makes the fields of a class private. -/
def onClass (c : BeanClass) : Step Changed := do
  let (fields, count) ← hideFields c.name c.fields
  return ({ c with fields }, { membersAdded := count } ++ .touchIf (count > 0))

/-- Makes the fields of a model private. -/
def run (_ : PassContext) (m : CodeModel) : PassRun :=
  .ofSweep option m (exceptEnums onClass)

end BeanSynthesis.PrivateFields
