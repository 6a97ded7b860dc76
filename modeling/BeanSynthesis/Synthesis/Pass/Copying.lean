import BeanSynthesis.Naming
import BeanSynthesis.Synthesis.Category
import BeanSynthesis.Synthesis.Fields
import BeanSynthesis.Synthesis.Lineage
import BeanSynthesis.Synthesis.Sweep

/-!
# Copies

Every class gets `cloneTo`, which copies its instance fields to another object, and `clone`. What
may be shared is copied by reference, lists are copied element by element, maps as a whole, and
everything else by its own way of being cloned.
-/

namespace BeanSynthesis.Copying

/-- The option of the pass. -/
def option : String := "Xph-cloneable2"

/-- A copy of a value of a type. -/
def copyOf (runtime : RuntimeClasses) (m : CodeModel) (t : TypeExpr) (value : Expr) : Expr :=
  match m.category t with
  | .primitive => value
  | .immutableValue => value
  | .enumValue => value
  | .genericObject => value
  | .arrayOfImmutable => .static runtime.arrayHelper "getCopy" [value]
  | .externallyCloneable => value.nullOr (.cast t (value.invoke "clone" []))
  | .wrappedUnionElement => .static runtime.jaxbHelper "getClonedJAXBElement" [value]
  | _ => value.nullOr (value.invoke "clone" [])

/-- The field of the target. -/
def targetField (f : InstanceField) : Expr := (Expr.ident "ret").field f.name

/-- Sets the field of the target to null, or else runs a block. -/
def unlessNull (f : InstanceField) (copy : Block) : Stmt :=
  .ifElse (Expr.ident f.name).isNull [.assign (targetField f) .nullLit] copy

/-- The name of the local variable that holds a new list. -/
def listLocal (f : InstanceField) : String := "ret" ++ f.accessor

/-- Copies a list field element by element. -/
def copyList (runtime : RuntimeClasses) (m : CodeModel) (f : InstanceField) : Stmt :=
  let element := f.type.elementOrObject
  unlessNull f [
    .declFinal (.listOf element) (listLocal f)
      (.newObject (.named "java.util.ArrayList" [element]) []),
    .forEach element "aItem" (.call (Naming.getterName f.type f.accessor) [])
      [.expr ((Expr.ident (listLocal f)).invoke "add"
        [copyOf runtime m element (.ident "aItem")])],
    .assign (targetField f) (.ident (listLocal f))]

/-- The type arguments of a class type. -/
def typeArgs (t : TypeExpr) : List TypeExpr :=
  match t with
  | .named _ args => args
  | _ => []

/-- Copies a map field as a whole. -/
def copyMap (f : InstanceField) : Stmt :=
  unlessNull f [.assign (targetField f)
    (.newObject (.named "java.util.HashMap" (typeArgs f.type)) [.ident f.name])]

/-- Copies a field. -/
def copyField (runtime : RuntimeClasses) (m : CodeModel) (f : InstanceField) : Stmt :=
  if f.type.isErasure "List" then copyList runtime m f
  else if f.type.isErasure "Map" then copyMap f
  else .assign (targetField f) (copyOf runtime m f.type (.ident f.name))

/-- The type whose category decides how a field is copied; a map has none. -/
def decidingType? (f : InstanceField) : Option TypeExpr :=
  if f.type.isErasure "List" then some f.type.elementOrObject
  else if f.type.isErasure "Map" then none
  else some f.type

/-- The body of `cloneTo`. -/
def cloneToBody (runtime : RuntimeClasses) (m : CodeModel) (fields : List InstanceField)
    (lineage : Lineage) : Block :=
  (match lineage with
    | .root => []
    | .derived => [.expr (Expr.superRef.invoke "cloneTo" [.ident "ret"])]) ++
    fields.map (copyField runtime m)

/-- The method `cloneTo`. -/
def cloneToMethod (runtime : RuntimeClasses) (m : CodeModel) (c : BeanClass)
    (fields : List InstanceField) (lineage : Lineage) : Method where
  name := "cloneTo"
  returnType := .void
  params := [(Param.final "ret" c.asType).annotate (.ofName runtime.nonNull)]
  body := some (cloneToBody runtime m fields lineage)
  javadoc := {
    lines := ["This method clones all values from <code>this</code> to the passed object. All data in the parameter object is overwritten!"]
    params := [("ret", "The target object to clone to. May not be <code>null</code>.")] }

/-- The body of `clone` of a class that has objects of its own. -/
def cloneBody (c : BeanClass) : Block := [
  .declFinal c.asType "ret" (.newObject c.asType []),
  .expr (.call "cloneTo" [.ident "ret"]),
  .give (.ident "ret")]

/-- The method `clone`; it is abstract in an abstract class. -/
def cloneMethod (runtime : RuntimeClasses) (c : BeanClass) : Method where
  name := "clone"
  returnType := c.asType
  modifiers := { isAbstract := c.isAbstract }
  annotations :=
    [.ofName runtime.nonNull, .ofName runtime.returnsMutableCopy, overrideMark]
  body := if c.isAbstract then none else some (cloneBody c)
  javadoc.returns := some "The cloned object. Never <code>null</code>."

/-- A class with the interface of cloneable objects, which the first class of a hierarchy lists. -/
def withInterface (interface : ClassRef) (lineage : Lineage) (c : BeanClass) : BeanClass :=
  if lineage == .root && interface ∉ c.interfaces then
    { c with interfaces := c.interfaces ++ [interface] }
  else c

/-- Adds the two methods to a class. -/
def onClass (settings : Settings) (m : CodeModel) (c : BeanClass) : Step Changed := do
  let lineage := m.lineageOf c
  let fields ← c.instanceFields
  fields.forM fun f => Step.ask ((decidingType? f).bind m.externalAsked?)
  let methods := [(cloneToMethod settings.runtime m c fields lineage).stamp settings option,
    (cloneMethod settings.runtime c).stamp settings option]
  let c := withInterface (.ofName settings.runtime.cloneableInterface) lineage c
  let (c, tally) ← c.addMethods methods
  Step.logIf (tally.membersAdded > 0) .debug ("Added clone methods to " ++ c.name)
  return Changed.noted (c, tally) (settings.classNote option)

/-- Adds copying to a model. -/
def run (context : PassContext) (m : CodeModel) : PassRun :=
  .ofSweep option m (exceptEnums (onClass context.settings m))

end BeanSynthesis.Copying
