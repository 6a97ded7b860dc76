import BeanSynthesis.TypeExpr.Basic

/-!
# Bodies of methods

The part of Java that synthesized members are made of: expressions, statements and blocks.
-/

namespace BeanSynthesis

/-- Binary operators. -/
inductive BinaryOp where
  | eq | ne | or | and | minus
deriving DecidableEq, Repr, Inhabited

/-- The sign of an operator. -/
def BinaryOp.symbol : BinaryOp → String
  | eq => "=="
  | ne => "!="
  | or => "||"
  | and => "&&"
  | minus => "-"

/-- An expression. -/
inductive Expr where
  | thisRef
  | superRef
  | nullLit
  | boolLit (value : Bool)
  | intLit (value : Int)
  | strLit (value : String)
  /-- A local variable, a parameter, or a field of the object itself. -/
  | ident (name : String)
  /-- `target.name` -/
  | field (target : Expr) (name : String)
  /-- `method(args)` -/
  | call (method : String) (args : List Expr)
  /-- `target.method(args)` -/
  | invoke (target : Expr) (method : String) (args : List Expr)
  /-- `Owner.method(args)` -/
  | staticCall (owner : ClassRef) (method : String) (args : List Expr)
  /-- `Owner.name` -/
  | staticField (owner : ClassRef) (name : String)
  /-- `new Type(args)` -/
  | newObject (type : TypeExpr) (args : List Expr)
  /-- `(Type) operand` -/
  | cast (type : TypeExpr) (operand : Expr)
  | not (operand : Expr)
  | binary (op : BinaryOp) (lhs rhs : Expr)
  /-- `operand instanceof Type` -/
  | instanceOf (operand : Expr) (type : TypeExpr)
  /-- `test ? yes : no` -/
  | cond (test yes no : Expr)
deriving Repr, Inhabited

namespace Expr

/-- A static call of a class without type arguments. -/
def static (owner method : String) (args : List Expr) : Expr :=
  staticCall (.ofName owner) method args

/-- `lhs == rhs` -/
def eq (lhs rhs : Expr) : Expr := binary .eq lhs rhs

/-- `lhs != rhs` -/
def ne (lhs rhs : Expr) : Expr := binary .ne lhs rhs

/-- `lhs || rhs` -/
def or (lhs rhs : Expr) : Expr := binary .or lhs rhs

/-- `lhs && rhs` -/
def and (lhs rhs : Expr) : Expr := binary .and lhs rhs

/-- `lhs - rhs` -/
def minus (lhs rhs : Expr) : Expr := binary .minus lhs rhs

/-- `e == null` -/
def isNull (e : Expr) : Expr := e.eq nullLit

/-- `e == null ? null : value` -/
def nullOr (e value : Expr) : Expr := cond e.isNull nullLit value

end Expr

/-- A statement. -/
inductive Stmt where
  | ret (value : Option Expr)
  | expr (e : Expr)
  /-- A local variable. -/
  | decl (isFinal : Bool) (type : TypeExpr) (name : String) (init : Option Expr)
  | assign (target value : Expr)
  | ifThen (test : Expr) (body : List Stmt)
  | ifElse (test : Expr) (body otherwise : List Stmt)
  /-- `for (final Type name : iterable) body` -/
  | forEach (type : TypeExpr) (name : String) (iterable : Expr) (body : List Stmt)
deriving Repr, Inhabited

/-- A sequence of statements. -/
abbrev Block := List Stmt

namespace Stmt

/-- `return value;` -/
def give (value : Expr) : Stmt := ret (some value)

/-- A final local variable. -/
def declFinal (type : TypeExpr) (name : String) (init : Expr) : Stmt :=
  decl true type name (some init)

/-- A local variable that may be assigned again. -/
def declVar (type : TypeExpr) (name : String) (init : Expr) : Stmt :=
  decl false type name (some init)

/-- `if (test) return value;` -/
def giveIf (test value : Expr) : Stmt := ifThen test [give value]

end Stmt

end BeanSynthesis
