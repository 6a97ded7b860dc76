import BeanSynthesis.Text.Leading
import BeanSynthesis.Text.Uppercase
import BeanSynthesis.TypeExpr.Basic

/-!
# Bean naming

The accessors of a property are named after it: the first letter becomes a capital, and `get`,
`is` or `set` goes before it.
-/

namespace BeanSynthesis.Naming

/-- The name with a capital first letter. -/
def capitalize (name : String) : String :=
  match name.toList with
  | [] => ""
  | first :: rest => String.ofList (Text.upperChar first ++ rest)

/-- The getter of a property: `is` for truth values, `get` for all others. -/
def getterName (type : TypeExpr) (name : String) : String :=
  (if type.isBooleanLike then "is" else "get") ++ capitalize name

/-- The setter of a property. -/
def setterName (name : String) : String := "set" ++ capitalize name

/-- The property part of an accessor name: what follows `accessor`, unless that is nothing. -/
def propertyPart? (name accessor : String) : Option String :=
  match Text.afterStart? accessor.toList name.toList with
  | none => none
  | some [] => none
  | some rest => some (String.ofList rest)

end BeanSynthesis.Naming
