import BeanSynthesis.Source.Literal
import BeanSynthesis.Source.Names

/-!
# Expressions in Java source

An operand is put in parentheses if it binds less tightly than its place demands.
-/

namespace BeanSynthesis.Source

/-- How tightly the operators bind, from the conditional to what needs no parentheses at all. -/
inductive Level where
  | cond | or | and | equality | relation | additive | unary | primary
deriving DecidableEq, Repr, Inhabited

/-- The rank of a level; a higher one binds tighter. -/
def Level.rank : Level → Nat
  | cond => 0
  | or => 1
  | and => 2
  | equality => 3
  | relation => 4
  | additive => 5
  | unary => 6
  | primary => 7

/-- The level of a binary operator. -/
def opLevel : BinaryOp → Level
  | .minus => .additive
  | .eq => .equality
  | .ne => .equality
  | .and => .and
  | .or => .or

/-- The level of an expression. -/
def level : Expr → Level
  | .cast .. => .unary
  | .not _ => .unary
  | .binary op _ _ => opLevel op
  | .instanceOf .. => .relation
  | .cond .. => .cond
  | _ => .primary

/-- Puts the text of `e` in parentheses if its level ranks below `least`. -/
def parenthesized (e : Expr) (least : Nat) (text : String) : String :=
  if (level e).rank < least then "(" ++ text ++ ")" else text

namespace NameTable

mutual

/-- The text of an expression. -/
def expr (table : NameTable) : Expr → String
  | .thisRef => "this"
  | .superRef => "super"
  | .nullLit => "null"
  | .boolLit value => boolLiteral value
  | .intLit value => intLiteral value
  | .strLit value => stringLiteral value
  | .ident name => name
  | .field target name =>
    parenthesized target Level.primary.rank (expr table target) ++ "." ++ name
  | .call method args => method ++ "(" ++ argList table args ++ ")"
  | .invoke target method args =>
    parenthesized target Level.primary.rank (expr table target) ++ "." ++ method ++ "(" ++
      argList table args ++ ")"
  | .staticCall owner method args =>
    table.spell owner.name ++ "." ++ method ++ "(" ++ argList table args ++ ")"
  | .staticField owner name => table.spell owner.name ++ "." ++ name
  | .newObject type args => "new " ++ table.type type ++ "(" ++ argList table args ++ ")"
  | .cast type operand =>
    "(" ++ table.type type ++ ") " ++
      parenthesized operand Level.unary.rank (expr table operand)
  | .not operand => "!" ++ parenthesized operand Level.unary.rank (expr table operand)
  | .binary op lhs rhs =>
    parenthesized lhs (opLevel op).rank (expr table lhs) ++ " " ++ op.symbol ++ " " ++
      parenthesized rhs ((opLevel op).rank + 1) (expr table rhs)
  | .instanceOf operand type =>
    parenthesized operand Level.relation.rank (expr table operand) ++ " instanceof " ++
      table.type type
  | .cond test yes no =>
    parenthesized test (Level.cond.rank + 1) (expr table test) ++ " ? " ++
      parenthesized yes (Level.cond.rank + 1) (expr table yes) ++ " : " ++
      parenthesized no Level.cond.rank (expr table no)

/-- The text of arguments, without the parentheses around them. -/
def argList (table : NameTable) : List Expr → String
  | [] => ""
  | arg :: args => expr table arg ++ argRest table args

/-- The arguments after the first, each after a comma and a space. -/
def argRest (table : NameTable) : List Expr → String
  | [] => ""
  | arg :: args => ", " ++ expr table arg ++ argRest table args

end

/-- The text of an annotation, with its parameters if it has any. -/
def annotationText (table : NameTable) (a : Annotation) : String :=
  "@" ++ table.spell a.type.name ++
    if a.params.isEmpty then ""
    else "(" ++ ", ".intercalate (a.params.map fun (name, value) =>
      name ++ " = " ++ annotationValue value) ++ ")"

end NameTable

end BeanSynthesis.Source
