import BeanSynthesis.Proofs.JavaText.Grammar
import BeanSynthesis.Proofs.Spelling.Table

/-!
# What written expressions stand for

An expression is written with its class names spelled as a table has them, and a class before a
static member cannot be told from a chain of field accesses. So what is read back is the plain form
of the expression. The tokens of the written form stand for it, with parentheses where the level of
an operand demands them.
-/

namespace BeanSynthesis

/-! ## Plain forms -/

mutual

/-- The type with its class names spelled so. -/
def TypeExpr.spelled (spell : String → String) : TypeExpr → TypeExpr
  | .void => .void
  | .primitive p => .primitive p
  | .named name args => .named (spell name) (TypeExpr.listSpelled spell args)
  | .array element => .array (element.spelled spell)
  | .unbounded => .unbounded
  | .bounded bound => .bounded (bound.spelled spell)

/-- The types with their class names spelled so. -/
def TypeExpr.listSpelled (spell : String → String) : List TypeExpr → List TypeExpr
  | [] => []
  | t :: ts => t.spelled spell :: TypeExpr.listSpelled spell ts

end

/-- A spelled type is a wildcard if and only if the type is. -/
@[simp] theorem TypeExpr.isWildcard_spelled (spell : String → String) (t : TypeExpr) :
    (t.spelled spell).isWildcard = t.isWildcard := by
  cases t <;> rfl

namespace Java

/-- The parts of a dotted name. -/
def dotParts (name : String) : List String := (name.toList.splitOn '.').map String.ofList

/-- A name has parts. -/
theorem dotParts_ne_nil (name : String) : dotParts name ≠ [] := by
  simp [dotParts, List.splitOn_ne_nil]

/-- The parts of a name make it up. -/
theorem intercalate_dotParts (name : String) : ".".intercalate (dotParts name) = name := by
  apply String.toList_injective
  have hparts : (dotParts name).map String.toList = name.toList.splitOn '.' := by
    simp [dotParts, Function.comp_def]
  rw [String.toList_intercalate, hparts]
  exact List.intercalate_splitOn '.'

private theorem dotParts_simpleName (name : String) :
    dotParts (simpleName name) = [simpleName name] := by
  rw [dotParts, List.splitOn_eq_singleton (dot_not_mem_simpleName name)]
  simp

/-- The simple name is the last part. -/
theorem simpleName_mem_dotParts (name : String) : simpleName name ∈ dotParts name := by
  rcases simple_or_dotted name with ⟨-, hsimple⟩ | hdotted
  · have hparts := dotParts_simpleName name
    rw [hsimple] at hparts ⊢
    simp [hparts]
  · have hlast := List.splitOn_eq_singleton (dot_not_mem_simpleName name)
    rw [dotParts, hdotted, List.splitOn_append_cons_self, hlast]
    simp

/-- The chain of field accesses that a dotted name is. -/
def chain (name : String) : Expr :=
  match dotParts name with
  | [] => .ident name
  | first :: rest => rest.foldl .field (.ident first)

end Java

namespace Source.NameTable

open Java

mutual

/-- The expression as its text is read: class names are spelled as the table has them, and static
members are selected from a chain of field accesses. -/
def plain (table : NameTable) : Expr → Expr
  | .thisRef => .thisRef
  | .superRef => .superRef
  | .nullLit => .nullLit
  | .boolLit value => .boolLit value
  | .intLit value => .intLit value
  | .strLit value => .strLit value
  | .ident name => .ident name
  | .field target name => .field (plain table target) name
  | .call method args => .call method (plainList table args)
  | .invoke target method args => .invoke (plain table target) method (plainList table args)
  | .staticCall owner method args =>
    .invoke (chain (table.spell owner.name)) method (plainList table args)
  | .staticField owner name => .field (chain (table.spell owner.name)) name
  | .newObject type args => .newObject (type.spelled table.spell) (plainList table args)
  | .cast type operand => .cast (type.spelled table.spell) (plain table operand)
  | .not operand => .not (plain table operand)
  | .binary op lhs rhs => .binary op (plain table lhs) (plain table rhs)
  | .instanceOf operand type => .instanceOf (plain table operand) (type.spelled table.spell)
  | .cond test yes no => .cond (plain table test) (plain table yes) (plain table no)

/-- The plain forms of a list of expressions. -/
def plainList (table : NameTable) : List Expr → List Expr
  | [] => []
  | e :: es => plain table e :: plainList table es

end

end Source.NameTable

/-! ## Tokens -/

mutual

/-- The tokens of a written type. -/
def TypeExpr.written (spell : String → String) : TypeExpr → List Java.Token
  | .void => [.word "void"]
  | .primitive p => [.word p.keyword]
  | .named name [] => Java.dotted (Java.dotParts (spell name))
  | .named name (arg :: args) =>
    Java.dotted (Java.dotParts (spell name)) ++
      Java.inAngles (arg.written spell :: TypeExpr.listWritten spell args)
  | .array element => element.written spell ++ [.openBracket, .closeBracket]
  | .unbounded => [.question]
  | .bounded bound => .question :: .word "extends" :: bound.written spell

/-- The tokens of each type of a list. -/
def TypeExpr.listWritten (spell : String → String) : List TypeExpr → List (List Java.Token)
  | [] => []
  | t :: ts => t.written spell :: TypeExpr.listWritten spell ts

end

namespace Source

open Java

/-- Puts the tokens of `e` in parentheses if its level ranks below `least`. -/
def enclosed (e : Expr) (least : Nat) (ts : List Token) : List Token :=
  if (level e).rank < least then .openParen :: ts ++ [.closeParen] else ts

namespace NameTable

mutual

/-- The tokens of a written expression. -/
def written (table : NameTable) : Expr → List Token
  | .thisRef => [.word "this"]
  | .superRef => [.word "super"]
  | .nullLit => [.word "null"]
  | .boolLit value => [.word (boolLiteral value)]
  | .intLit value => [.number (Nat.repr value.natAbs)]
  | .strLit value => [.string value]
  | .ident name => [.word name]
  | .field target name =>
    enclosed target Level.primary.rank (written table target) ++ [.dot, .word name]
  | .call method args => .word method :: inParens (writtenList table args)
  | .invoke target method args =>
    enclosed target Level.primary.rank (written table target) ++
      .dot :: .word method :: inParens (writtenList table args)
  | .staticCall owner method args =>
    dotted (dotParts (table.spell owner.name)) ++
      .dot :: .word method :: inParens (writtenList table args)
  | .staticField owner name => dotted (dotParts (table.spell owner.name)) ++ [.dot, .word name]
  | .newObject type args =>
    .word "new" :: type.written table.spell ++ inParens (writtenList table args)
  | .cast type operand =>
    .openParen :: type.written table.spell ++
      .closeParen :: enclosed operand Level.unary.rank (written table operand)
  | .not operand => .bang :: enclosed operand Level.unary.rank (written table operand)
  | .binary op lhs rhs =>
    enclosed lhs (opLevel op).rank (written table lhs) ++
      .operator op :: enclosed rhs ((opLevel op).rank + 1) (written table rhs)
  | .instanceOf operand type =>
    enclosed operand Level.relation.rank (written table operand) ++
      .word "instanceof" :: type.written table.spell
  | .cond test yes no =>
    enclosed test (Level.cond.rank + 1) (written table test) ++
      .question :: enclosed yes (Level.cond.rank + 1) (written table yes) ++
      .colon :: enclosed no Level.cond.rank (written table no)

/-- The tokens of each expression of a list. -/
def writtenList (table : NameTable) : List Expr → List (List Token)
  | [] => []
  | e :: es => written table e :: writtenList table es

end

end NameTable

end Source

/-! ## Expressions with Java names -/

namespace Java.Letters

open Source

variable (letters : Letters)

/-- A dotted name whose parts are identifiers. -/
def IsDotted (name : String) : Prop := ∀ part ∈ dotParts name, letters.IsName part

instance (name : String) : Decidable (letters.IsDotted name) :=
  inferInstanceAs (Decidable (∀ part ∈ dotParts name, letters.IsName part))

mutual

/-- All class names in the type consist of identifiers. -/
def NamesType : TypeExpr → Prop
  | .void => True
  | .primitive _ => True
  | .named name args => letters.IsDotted name ∧ NamesTypes args
  | .array element => NamesType element
  | .unbounded => True
  | .bounded bound => NamesType bound

/-- All class names in the types consist of identifiers. -/
def NamesTypes : List TypeExpr → Prop
  | [] => True
  | t :: ts => NamesType t ∧ NamesTypes ts

end

mutual

/-- All names are identifiers, new objects are of class types, no type is itself a wildcard, and
integers are not negative. -/
def Names : Expr → Prop
  | .thisRef | .superRef | .nullLit | .boolLit _ | .strLit _ => True
  | .intLit value => 0 ≤ value
  | .ident name => letters.IsName name
  | .field target name => Names target ∧ letters.IsName name
  | .call method args => letters.IsName method ∧ NamesAll args
  | .invoke target method args => Names target ∧ letters.IsName method ∧ NamesAll args
  | .staticCall owner method args =>
    letters.IsDotted owner.name ∧ letters.IsName method ∧ NamesAll args
  | .staticField owner name => letters.IsDotted owner.name ∧ letters.IsName name
  | .newObject type args =>
    (∃ c : ClassRef, type = .ofClass c) ∧ letters.NamesType type ∧ NamesAll args
  | .cast type operand => type.isWildcard = false ∧ letters.NamesType type ∧ Names operand
  | .not operand => Names operand
  | .binary _ lhs rhs => Names lhs ∧ Names rhs
  | .instanceOf operand type => type.isWildcard = false ∧ letters.NamesType type ∧ Names operand
  | .cond test yes no => Names test ∧ Names yes ∧ Names no

/-- The same for all expressions of a list. -/
def NamesAll : List Expr → Prop
  | [] => True
  | e :: es => Names e ∧ NamesAll es

end

/-- The spelling of a dotted name is a dotted name. -/
theorem IsDotted.spell {name : String} (h : letters.IsDotted name) (table : NameTable) :
    letters.IsDotted (table.spell name) := by
  unfold NameTable.spell
  split
  · intro part hpart
    rw [dotParts_simpleName, List.mem_singleton] at hpart
    exact hpart ▸ h _ (simpleName_mem_dotParts name)
  · exact h

end Java.Letters

/-! ## Wildcards as elements -/

mutual

/-- Somewhere in the type an element of an array is itself a wildcard. -/
def TypeExpr.hasWildcardElement : TypeExpr → Bool
  | .void => false
  | .primitive _ => false
  | .named _ args => TypeExpr.anyWildcardElement args
  | .array element => element.isWildcard || element.hasWildcardElement
  | .unbounded => false
  | .bounded bound => bound.hasWildcardElement

/-- The same for one of the types. -/
def TypeExpr.anyWildcardElement : List TypeExpr → Bool
  | [] => false
  | t :: ts => t.hasWildcardElement || TypeExpr.anyWildcardElement ts

end

mutual

/-- The types that are written in an expression. -/
def Expr.types : Expr → List TypeExpr
  | .thisRef | .superRef | .nullLit | .boolLit _ | .intLit _ | .strLit _ | .ident _ => []
  | .field target _ => target.types
  | .call _ args => Expr.listTypes args
  | .invoke target _ args => target.types ++ Expr.listTypes args
  | .staticCall _ _ args => Expr.listTypes args
  | .staticField _ _ => []
  | .newObject type args => type :: Expr.listTypes args
  | .cast type operand => type :: operand.types
  | .not operand => operand.types
  | .binary _ lhs rhs => lhs.types ++ rhs.types
  | .instanceOf operand type => type :: operand.types
  | .cond test yes no => test.types ++ yes.types ++ no.types

/-- The types that are written in a list of expressions. -/
def Expr.listTypes : List Expr → List TypeExpr
  | [] => []
  | e :: es => e.types ++ Expr.listTypes es

end

/-- In some type of the expression an element of an array is itself a wildcard. -/
def Expr.hasWildcardElement (e : Expr) : Bool := e.types.any (·.hasWildcardElement)

/-! An expression has no wildcard as an element if its parts have none. -/

namespace Expr

variable {target operand lhs rhs test yes no : Expr} {type : TypeExpr} {args : List Expr}

/-- A call has wildcards as elements of arrays in its target or in its arguments. -/
theorem elements_invoke {method : String} :
    (invoke target method args).hasWildcardElement = false ↔
      target.hasWildcardElement = false ∧ (listTypes args).any (·.hasWildcardElement) = false := by
  simp [hasWildcardElement, types]

/-- A new object has them in its type or in its arguments. -/
theorem elements_newObject : (newObject type args).hasWildcardElement = false ↔
    type.hasWildcardElement = false ∧ (listTypes args).any (·.hasWildcardElement) = false := by
  simp [hasWildcardElement, types]

/-- A cast has them in its type or in its operand. -/
theorem elements_cast : (cast type operand).hasWildcardElement = false ↔
    type.hasWildcardElement = false ∧ operand.hasWildcardElement = false := by
  simp [hasWildcardElement, types]

/-- An operator has them in its operands. -/
theorem elements_binary {op : BinaryOp} : (binary op lhs rhs).hasWildcardElement = false ↔
    lhs.hasWildcardElement = false ∧ rhs.hasWildcardElement = false := by
  simp [hasWildcardElement, types]

/-- A test for a type has them in its type or in its operand. -/
theorem elements_instanceOf : (instanceOf operand type).hasWildcardElement = false ↔
    type.hasWildcardElement = false ∧ operand.hasWildcardElement = false := by
  simp [hasWildcardElement, types]

/-- A conditional has them in its test or in its branches. -/
theorem elements_cond : (cond test yes no).hasWildcardElement = false ↔
    test.hasWildcardElement = false ∧ yes.hasWildcardElement = false ∧
      no.hasWildcardElement = false := by
  simp [hasWildcardElement, types]

/-- Arguments have them in the first one or in the others. -/
theorem elements_listTypes {e : Expr} {es : List Expr} :
    (listTypes (e :: es)).any (·.hasWildcardElement) = false ↔
      e.hasWildcardElement = false ∧ (listTypes es).any (·.hasWildcardElement) = false := by
  simp [hasWildcardElement, listTypes]

end Expr

end BeanSynthesis
