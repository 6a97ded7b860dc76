/-!
# Declared types

A type expression is the declared type of a field, a parameter or a result: `void`, a primitive,
a class with type arguments, an array, or a wildcard. Class names are given in full
(`java.util.List`); what stands after the last dot is the simple name.
-/

namespace BeanSynthesis

/-- The part of a dotted name after its last dot. -/
def simpleName (name : String) : String :=
  String.ofList (name.toList.reverse.takeWhile (· ≠ '.')).reverse

/-- The part of a dotted name before its last dot, empty if it has none. -/
def packageName (name : String) : String :=
  String.ofList ((name.toList.reverse.dropWhile (· ≠ '.')).drop 1).reverse

/-- The primitive types. -/
inductive Primitive where
  | boolean | byte | char | short | int | long | float | double
deriving DecidableEq, Repr, Inhabited

namespace Primitive

/-- All primitive types. -/
def all : List Primitive := [boolean, byte, char, short, int, long, float, double]

/-- The keyword of a primitive type. -/
def keyword : Primitive → String
  | boolean => "boolean"
  | byte => "byte"
  | char => "char"
  | short => "short"
  | int => "int"
  | long => "long"
  | float => "float"
  | double => "double"

/-- The primitive type with this keyword. -/
def ofKeyword? (word : String) : Option Primitive := all.find? (·.keyword == word)

/-- A primitive type is known by its keyword. -/
theorem ofKeyword?_keyword (p : Primitive) : ofKeyword? p.keyword = some p := by
  cases p <;> rfl

/-- The name of the class that wraps a primitive value. -/
def boxedName : Primitive → String
  | boolean => "java.lang.Boolean"
  | byte => "java.lang.Byte"
  | char => "java.lang.Character"
  | short => "java.lang.Short"
  | int => "java.lang.Integer"
  | long => "java.lang.Long"
  | float => "java.lang.Float"
  | double => "java.lang.Double"

end Primitive

/-- A declared type. -/
inductive TypeExpr where
  /-- No value; only a result type. -/
  | void
  | primitive (kind : Primitive)
  /-- A class, an interface or an enumeration, with its type arguments. -/
  | named (name : String) (args : List TypeExpr)
  | array (element : TypeExpr)
  /-- The wildcard `?`. -/
  | unbounded
  /-- The wildcard `? extends bound`. -/
  | bounded (bound : TypeExpr)
deriving Repr, Inhabited

/-- A class type: a name with type arguments. -/
structure ClassRef where
  name : String
  args : List TypeExpr
deriving Repr, Inhabited

namespace TypeExpr

mutual

/-- Equality of types is decided by comparing them part by part. -/
def decEq : (a b : TypeExpr) → Decidable (a = b)
  | void, void => isTrue rfl
  | void, primitive _ => isFalse nofun
  | void, named .. => isFalse nofun
  | void, array _ => isFalse nofun
  | void, unbounded => isFalse nofun
  | void, bounded _ => isFalse nofun
  | primitive _, void => isFalse nofun
  | primitive p, primitive q =>
    if h : p = q then isTrue (h ▸ rfl) else isFalse fun e => h (primitive.inj e)
  | primitive _, named .. => isFalse nofun
  | primitive _, array _ => isFalse nofun
  | primitive _, unbounded => isFalse nofun
  | primitive _, bounded _ => isFalse nofun
  | named .., void => isFalse nofun
  | named .., primitive _ => isFalse nofun
  | named n as, named m bs =>
    if h : n = m then
      match decEqList as bs with
      | isTrue hargs => isTrue (by rw [h, hargs])
      | isFalse hargs => isFalse fun e => hargs (named.inj e).2
    else isFalse fun e => h (named.inj e).1
  | named .., array _ => isFalse nofun
  | named .., unbounded => isFalse nofun
  | named .., bounded _ => isFalse nofun
  | array _, void => isFalse nofun
  | array _, primitive _ => isFalse nofun
  | array _, named .. => isFalse nofun
  | array a, array b =>
    match decEq a b with
    | isTrue h => isTrue (by rw [h])
    | isFalse h => isFalse fun e => h (array.inj e)
  | array _, unbounded => isFalse nofun
  | array _, bounded _ => isFalse nofun
  | unbounded, void => isFalse nofun
  | unbounded, primitive _ => isFalse nofun
  | unbounded, named .. => isFalse nofun
  | unbounded, array _ => isFalse nofun
  | unbounded, unbounded => isTrue rfl
  | unbounded, bounded _ => isFalse nofun
  | bounded _, void => isFalse nofun
  | bounded _, primitive _ => isFalse nofun
  | bounded _, named .. => isFalse nofun
  | bounded _, array _ => isFalse nofun
  | bounded _, unbounded => isFalse nofun
  | bounded a, bounded b =>
    match decEq a b with
    | isTrue h => isTrue (by rw [h])
    | isFalse h => isFalse fun e => h (bounded.inj e)

/-- Equality of argument lists. -/
def decEqList : (as bs : List TypeExpr) → Decidable (as = bs)
  | [], [] => isTrue rfl
  | [], _ :: _ => isFalse nofun
  | _ :: _, [] => isFalse nofun
  | a :: as, b :: bs =>
    match decEq a b, decEqList as bs with
    | isTrue h, isTrue hrest => isTrue (by rw [h, hrest])
    | isFalse h, _ => isFalse fun e => h (List.cons.inj e).1
    | _, isFalse h => isFalse fun e => h (List.cons.inj e).2

end

instance : DecidableEq TypeExpr := decEq

/-- A class type without arguments. -/
def ofName (name : String) : TypeExpr := named name []

/-- The class type of a class reference. -/
def ofClass (c : ClassRef) : TypeExpr := named c.name c.args

/-- `java.util.List<element>`. -/
def listOf (element : TypeExpr) : TypeExpr := named "java.util.List" [element]

/-- Whether the type is primitive. -/
def isPrimitive : TypeExpr → Bool
  | primitive _ => true
  | _ => false

/-- Whether the type is an array. -/
def isArray : TypeExpr → Bool
  | array _ => true
  | _ => false

/-- The class reference of a class type. -/
def asClass? : TypeExpr → Option ClassRef
  | named name args => some ⟨name, args⟩
  | _ => none

/-- The simple name of the erased type; primitives and arrays are spelled out. -/
def erasureName : TypeExpr → String
  | void => "void"
  | primitive p => p.keyword
  | named name _ => simpleName name
  | array element => element.erasureName ++ "[]"
  | bounded bound => bound.erasureName
  | unbounded => "Object"

/-- Whether the type erases to a class of this simple name. -/
def isErasure (name : String) : TypeExpr → Bool
  | named n _ => simpleName n == name
  | bounded bound => bound.isErasure name
  | _ => false

/-- The first argument of a class type. -/
def firstTypeArg? : TypeExpr → Option TypeExpr
  | named _ args => args.head?
  | _ => none

/-- The element type of a list type. -/
def listElement? (t : TypeExpr) : Option TypeExpr :=
  if t.isErasure "List" then t.firstTypeArg? else none

/-- The element type of an array type. -/
def arrayElement? : TypeExpr → Option TypeExpr
  | array element => some element
  | _ => none

/-- The bound of a wildcard; every other type is its own bound. -/
def upperBound : TypeExpr → TypeExpr
  | bounded bound => bound
  | t => t

/-- The primitive `boolean` or its wrapper class. -/
def isBooleanLike : TypeExpr → Bool
  | primitive p => p == .boolean
  | named name _ => name == "java.lang.Boolean" || name == "Boolean"
  | _ => false

/-- The wrapper class of a primitive; every other type is its own boxed form. -/
def boxed : TypeExpr → TypeExpr
  | primitive p => ofName p.boxedName
  | t => t

end TypeExpr

namespace ClassRef

/-- Class references are equal when their names and arguments are. -/
instance : DecidableEq ClassRef := fun a b =>
  if h : a.name = b.name ∧ a.args = b.args then
    isTrue (by cases a; cases b; simp_all)
  else isFalse fun e => h (by simp [e])

/-- A class reference without type arguments. -/
def ofName (name : String) : ClassRef := ⟨name, []⟩

/-- The simple name of the class. -/
def simpleName (c : ClassRef) : String := BeanSynthesis.simpleName c.name

/-- The package of the class. -/
def packageName (c : ClassRef) : String := BeanSynthesis.packageName c.name

end ClassRef

end BeanSynthesis
