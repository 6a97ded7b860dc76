import BeanSynthesis.Model.Basic
import BeanSynthesis.TypeExpr.Printer

/-!
# Names in a compilation unit

Inside the source of a class, class names are shortened to their simple names where that is
possible: the class itself is always short, and of several other classes with one simple name the
first in the order of full names is, unless the simple name is that of the class itself. Short
names from other packages are imported.
-/

namespace BeanSynthesis

mutual

/-- The class names in a type. -/
def TypeExpr.classNames : TypeExpr → List String
  | .named name args => name :: TypeExpr.listClassNames args
  | .array element => element.classNames
  | .bounded bound => bound.classNames
  | .void => []
  | .primitive _ => []
  | .unbounded => []

/-- The class names in a list of types. -/
def TypeExpr.listClassNames : List TypeExpr → List String
  | [] => []
  | t :: ts => t.classNames ++ TypeExpr.listClassNames ts

end

/-- The class names in a class reference. -/
def ClassRef.classNames (c : ClassRef) : List String := c.name :: TypeExpr.listClassNames c.args

mutual

/-- The class names in an expression. -/
def Expr.classNames : Expr → List String
  | .thisRef | .superRef | .nullLit | .boolLit _ | .intLit _ | .strLit _ | .ident _ => []
  | .field target _ => target.classNames
  | .call _ args => Expr.listClassNames args
  | .invoke target _ args => target.classNames ++ Expr.listClassNames args
  | .staticCall owner _ args => owner.classNames ++ Expr.listClassNames args
  | .staticField owner _ => owner.classNames
  | .newObject type args => type.classNames ++ Expr.listClassNames args
  | .cast type operand => type.classNames ++ operand.classNames
  | .not operand => operand.classNames
  | .binary _ lhs rhs => lhs.classNames ++ rhs.classNames
  | .instanceOf operand type => type.classNames ++ operand.classNames
  | .cond test yes no => test.classNames ++ yes.classNames ++ no.classNames

/-- The class names in a list of expressions. -/
def Expr.listClassNames : List Expr → List String
  | [] => []
  | e :: es => e.classNames ++ Expr.listClassNames es

end

/-- The class names in an optional expression. -/
def Expr.optionClassNames : Option Expr → List String
  | none => []
  | some e => e.classNames

mutual

/-- The class names in a statement. -/
def Stmt.classNames : Stmt → List String
  | .ret value => Expr.optionClassNames value
  | .expr e => e.classNames
  | .decl _ type _ init => type.classNames ++ Expr.optionClassNames init
  | .assign target value => target.classNames ++ value.classNames
  | .ifThen test body => test.classNames ++ Stmt.listClassNames body
  | .ifElse test body otherwise =>
    test.classNames ++ Stmt.listClassNames body ++ Stmt.listClassNames otherwise
  | .forEach type _ iterable body =>
    type.classNames ++ iterable.classNames ++ Stmt.listClassNames body

/-- The class names in a block. -/
def Stmt.listClassNames : List Stmt → List String
  | [] => []
  | s :: rest => s.classNames ++ Stmt.listClassNames rest

end

/-- The class names in annotations. -/
def Annotation.listClassNames (annotations : List Annotation) : List String :=
  annotations.map (·.type.name)

/-- The class names in parameters. -/
def Param.listClassNames (params : List Param) : List String :=
  params.flatMap fun p => p.type.classNames ++ Annotation.listClassNames p.annotations

/-- The class names in a constructor. -/
def Constructor.classNames (c : Constructor) : List String :=
  Param.listClassNames c.params ++ Stmt.listClassNames c.body

/-- The class names in a method. -/
def Method.classNames (m : Method) : List String :=
  m.returnType.classNames ++ Param.listClassNames m.params ++
    Annotation.listClassNames m.annotations ++ m.throws.flatMap ClassRef.classNames ++
    Stmt.listClassNames (m.body.getD [])

/-- All class names that the source of a class mentions, its own included. -/
def BeanClass.classNames (c : BeanClass) : List String :=
  c.name :: (c.parent.toList.flatMap ClassRef.classNames ++
    c.interfaces.flatMap ClassRef.classNames ++ Annotation.listClassNames c.annotations ++
    c.fields.flatMap (fun f => f.type.classNames ++ Annotation.listClassNames f.annotations) ++
    c.constructors.flatMap Constructor.classNames ++ c.methods.flatMap Method.classNames)

namespace Source

/-- The names in increasing order, each once. -/
def sortedNames (names : List String) : List String :=
  (Dict.ofList (names.map fun name => (name, ()))).names

/-- How the names of classes are spelled in one compilation unit. -/
structure NameTable where
  /-- The class of the unit. -/
  self : String
  /-- The names that are spelled short, in increasing order. -/
  shortened : List String

namespace NameTable

/-- Whether `name` is the first of the names that have its simple name. -/
def isFirst (used : List String) (name : String) : Bool :=
  used.find? (simpleName · == simpleName name) == some name

/-- The table of a unit with class `self` that mentions these names. -/
def ofNames (self : String) (used : List String) : NameTable where
  self
  shortened := used.filter fun name =>
    name == self || (simpleName name != simpleName self && isFirst used name)

/-- The table of a class. -/
def ofClass (c : BeanClass) : NameTable := ofNames c.name (sortedNames c.classNames)

/-- The spelling of a class name. -/
def spell (table : NameTable) (name : String) : String :=
  if name ∈ table.shortened then simpleName name else name

/-- Whether a short name needs an import: not for the class itself, and not from no package, the
class's own package or `java.lang`. -/
def needsImport (table : NameTable) (name : String) : Bool :=
  name != table.self && packageName name != "" && packageName name != "java.lang" &&
    packageName name != packageName table.self

/-- The names to import, in increasing order. -/
def imports (table : NameTable) : List String := table.shortened.filter table.needsImport

/-- The spelling of a type. -/
def type (table : NameTable) (t : TypeExpr) : String := t.render table.spell

/-- The spelling of a class reference. -/
def classRef (table : NameTable) (c : ClassRef) : String := table.type (.ofClass c)

end NameTable

end Source

end BeanSynthesis
