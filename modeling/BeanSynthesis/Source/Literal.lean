import BeanSynthesis.Member

/-!
# Literals in Java source
-/

namespace BeanSynthesis.Source

/-- A character inside a string literal. -/
def literalChar (c : Char) : List Char :=
  if c = '"' then ['\\', '"']
  else if c = '\\' then ['\\', '\\']
  else if c = '\n' then ['\\', 'n']
  else if c = '\r' then ['\\', 'r']
  else if c = '\t' then ['\\', 't']
  else [c]

/-- A string literal. Quotes, backslashes, line breaks and tabs are escaped. -/
def stringLiteral (value : String) : String :=
  String.ofList (['"'] ++ value.toList.flatMap literalChar ++ ['"'])

/-- An integer literal. -/
def intLiteral (value : Int) : String :=
  if value < 0 then "-" ++ Nat.repr value.natAbs else Nat.repr value.natAbs

/-- A truth value. -/
def boolLiteral (value : Bool) : String := if value then "true" else "false"

/-- The value of an annotation parameter. -/
def annotationValue : AnnotationValue → String
  | .bool value => boolLiteral value
  | .int value => intLiteral value
  | .str value => stringLiteral value

end BeanSynthesis.Source
