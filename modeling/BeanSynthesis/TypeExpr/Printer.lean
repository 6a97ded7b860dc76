import BeanSynthesis.TypeExpr.Basic

/-!
# Written types

The one written form of a type: arguments in angle brackets and separated by a comma and a space,
`[]` after the element type of an array, and `? extends ` before the bound of a wildcard.
-/

namespace BeanSynthesis

namespace TypeExpr

mutual

/-- The written form of a type, where `spell` writes the class names. -/
def render (spell : String → String) : TypeExpr → String
  | void => "void"
  | primitive p => p.keyword
  | named name [] => spell name
  | named name (arg :: args) =>
    spell name ++ "<" ++ render spell arg ++ renderRest spell args ++ ">"
  | array element => render spell element ++ "[]"
  | unbounded => "?"
  | bounded bound => "? extends " ++ render spell bound

/-- The arguments after the first, each after a comma and a space. -/
def renderRest (spell : String → String) : List TypeExpr → String
  | [] => ""
  | arg :: args => ", " ++ render spell arg ++ renderRest spell args

end

/-- The written form of a type with all class names in full. -/
def toText (t : TypeExpr) : String := t.render id

instance : ToString TypeExpr := ⟨toText⟩

end TypeExpr

/-- The written form of a class reference. -/
def ClassRef.toText (c : ClassRef) : String := (TypeExpr.ofClass c).toText

instance : ToString ClassRef := ⟨ClassRef.toText⟩

end BeanSynthesis
