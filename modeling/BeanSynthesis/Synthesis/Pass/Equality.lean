import BeanSynthesis.Synthesis.Category
import BeanSynthesis.Synthesis.Fields
import BeanSynthesis.Synthesis.Lineage
import BeanSynthesis.Synthesis.Sweep

/-!
# Equality and hash codes

Every class gets `equals` and `hashCode` over its instance fields. A class that builds on another
one leaves the fields of its superclasses to them. The category of a field decides which helper
compares or hashes it.
-/

namespace BeanSynthesis.Equality

/-- The option of the pass. -/
def option : String := "Xph-equalshashcode"

/-- The class that the elements of a list wrap, if the list is one of wrapped elements. -/
def listPayload? (t : TypeExpr) : Option String :=
  match t.listElement? with
  | some element =>
    match element.upperBound.firstTypeArg? with
    | some (.named name _) => some name
    | _ => none
  | none => none

/-- Whether the lists of wrapped elements have to be cast before they are compared. -/
def needsCast (m : CodeModel) (t : TypeExpr) : Bool :=
  match listPayload? t with
  | some name => m.isGenerated name
  | none => false

/-- An expression, cast without check if that is needed. -/
def castIf (runtime : RuntimeClasses) (needed : Bool) (e : Expr) : Expr :=
  if needed then .static runtime.genericReflection "uncheckedCast" [e] else e

/-- The comparison of a field of this object with that of the object `rhs`. -/
def fieldEquals (runtime : RuntimeClasses) (m : CodeModel) (f : InstanceField) : Expr :=
  let mine := Expr.ident f.name
  let theirs := (Expr.ident "rhs").field f.name
  match m.category f.type with
  | .collectionOfWrappedUnionElement =>
    let cast := castIf runtime (needsCast m f.type)
    .static runtime.jaxbHelper "equalListJAXBElements" [cast mine, cast theirs]
  | .collectionOfAny => .static runtime.jaxbHelper "equalListAnys" [mine, theirs]
  | .collectionOfOther =>
    .static runtime.collectionEqualsHelper "equalsCollection" [mine, theirs]
  | .wrappedUnionElement => .static runtime.jaxbHelper "equalJAXBElements" [mine, theirs]
  | .genericObject =>
    let node := TypeExpr.ofName runtime.domNode
    .cond ((mine.instanceOf node).and (theirs.instanceOf node))
      (.static runtime.jaxbHelper "equalDOMNodes" [.cast node mine, .cast node theirs])
      (.static runtime.equalsHelper "equals" [mine, theirs])
  | _ => .static runtime.equalsHelper "equals" [mine, theirs]

/-- What a field adds to the hash code. -/
def fieldHash (runtime : RuntimeClasses) (m : CodeModel) (f : InstanceField) : Expr :=
  let value := Expr.ident f.name
  match m.category f.type with
  | .collectionOfWrappedUnionElement =>
    .static runtime.jaxbHelper "getListJAXBElementHashCode"
      [castIf runtime (needsCast m f.type) value]
  | .collectionOfAny => .static runtime.jaxbHelper "getListAnyHashCode" [value]
  | .wrappedUnionElement => .static runtime.jaxbHelper "getHashCode" [value]
  | .genericObject =>
    let node := TypeExpr.ofName runtime.domNode
    .cond (value.instanceOf node)
      (.static runtime.jaxbHelper "getHashCode" [.cast node value])
      (.static runtime.hashCodeCalculator "hashCode" [value])
  | _ => value

/-- The statements that compare the fields of two objects of the class. -/
def compareFields (runtime : RuntimeClasses) (m : CodeModel) (c : BeanClass)
    (fields : List InstanceField) : Block :=
  if fields.isEmpty then []
  else
    .declFinal c.asType "rhs" (.cast c.asType (.ident "o")) ::
      fields.map fun f => .giveIf (.not (fieldEquals runtime m f)) (.boolLit false)

/-- The statement that refuses an object of another class, or one that differs in what the
superclass knows. -/
def refuseOther : Lineage → Stmt
  | .root => .giveIf ((Expr.ident "o").isNull.or (.not ((Expr.call "getClass" []).invoke "equals"
      [(Expr.ident "o").invoke "getClass" []]))) (.boolLit false)
  | .derived => .giveIf (.not (Expr.superRef.invoke "equals" [.ident "o"])) (.boolLit false)

/-- The body of `equals`. -/
def equalsBody (runtime : RuntimeClasses) (m : CodeModel) (c : BeanClass)
    (fields : List InstanceField) (lineage : Lineage) : Block :=
  if lineage == .derived && fields.isEmpty then
    [.give (Expr.superRef.invoke "equals" [.ident "o"])]
  else
    [.giveIf ((Expr.ident "o").eq .thisRef) (.boolLit true), refuseOther lineage] ++
      compareFields runtime m c fields ++ [.give (.boolLit true)]

/-- The method `equals`. -/
def equalsMethod (runtime : RuntimeClasses) (m : CodeModel) (c : BeanClass)
    (fields : List InstanceField) (lineage : Lineage) : Method where
  name := "equals"
  returnType := .primitive .boolean
  params := [.final "o" (.ofName objectClass)]
  annotations := [overrideMark]
  body := some (equalsBody runtime m c fields lineage)

/-- The generator that a hash code starts from. -/
def hashStart (runtime : RuntimeClasses) : Lineage → Expr
  | .root => .newObject (.ofName runtime.hashCodeGenerator) [.thisRef]
  | .derived => .static runtime.hashCodeGenerator "getDerived" [Expr.superRef.invoke "hashCode" []]

/-- The body of `hashCode`. -/
def hashCodeBody (runtime : RuntimeClasses) (m : CodeModel) (fields : List InstanceField)
    (lineage : Lineage) : Block :=
  if lineage == .derived && fields.isEmpty then [.give (Expr.superRef.invoke "hashCode" [])]
  else
    let generator := fields.foldl
      (fun generator f => generator.invoke "append" [fieldHash runtime m f])
      (hashStart runtime lineage)
    [.give (generator.invoke "getHashCode" [])]

/-- The method `hashCode`. -/
def hashCodeMethod (runtime : RuntimeClasses) (m : CodeModel) (fields : List InstanceField)
    (lineage : Lineage) : Method where
  name := "hashCode"
  returnType := .primitive .int
  annotations := [overrideMark]
  body := some (hashCodeBody runtime m fields lineage)

/-- Adds the two methods to a class. -/
def onClass (settings : Settings) (m : CodeModel) (c : BeanClass) : Step Changed := do
  let lineage := m.lineageOf c
  let fields ← c.instanceFields
  fields.forM fun f => Step.ask (m.externalAsked? f.type)
  fields.forM fun f => Step.ask (m.externalAsked? f.type)
  let (c, tally) ← c.addMethods
    [(equalsMethod settings.runtime m c fields lineage).stamp settings option,
      (hashCodeMethod settings.runtime m fields lineage).stamp settings option]
  Step.logIf (tally.membersAdded > 0) .debug ("Added equals/hashCode to " ++ c.name)
  return Changed.noted (c, tally) (settings.classNote option)

/-- Adds equality and hash codes to a model. -/
def run (context : PassContext) (m : CodeModel) : PassRun :=
  .ofSweep option m (exceptEnums (onClass context.settings m))

end BeanSynthesis.Equality
