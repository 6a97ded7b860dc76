import BeanSynthesis.Model.Inheritance
import BeanSynthesis.Proofs.Execution.Value

/-!
# Looking up members

A member is looked up in a class and then in its superclasses, as far as they are generated. Which
of several overloaded methods a call means is decided by the static types of its arguments.
-/

namespace BeanSynthesis

namespace CodeModel

/-- A class and its generated superclasses, at most `steps` of them. -/
def lineFrom (m : CodeModel) : Nat → BeanClass → List BeanClass
  | 0, c => [c]
  | steps + 1, c =>
    match m.parentOf c with
    | .generated parent => c :: m.lineFrom steps parent
    | _ => [c]

/-- A class and its generated superclasses, the nearest one first. -/
def line (m : CodeModel) (c : BeanClass) : List BeanClass := m.lineFrom m.classes.length c

/-- The line of the class of this name, if it is generated. -/
def lineNamed (m : CodeModel) (name : String) : List BeanClass :=
  match m.class? name with
  | some c => m.line c
  | none => []

/-- The line of the class that a type names. -/
def lineOfType (m : CodeModel) : TypeExpr → List BeanClass
  | .named name _ => m.lineNamed name
  | _ => []

/-- Whether a parameter takes an argument of this static type. An argument without a type, such as
`null`, goes with every parameter. -/
def accepts (m : CodeModel) (param : TypeExpr) : Option TypeExpr → Bool
  | none => true
  | some type =>
    param == type || param == .ofName objectClass ||
      (m.lineOfType type).any fun c => param == c.asType

/-- Whether parameters take arguments of these static types. -/
def acceptsAll (m : CodeModel) : List TypeExpr → List (Option TypeExpr) → Bool
  | [], [] => true
  | param :: params, type :: types => m.accepts param type && m.acceptsAll params types
  | _, _ => false

/-- The most specific one of the signatures that take arguments of these static types. None is more
specific than the types themselves. -/
def mostSpecific? (m : CodeModel) (signatures : List (List TypeExpr))
    (types : List (Option TypeExpr)) : Option (List TypeExpr) :=
  match signatures.find? fun signature => signature.map some == types with
  | some signature => some signature
  | none =>
    let fitting := signatures.filter fun signature => m.acceptsAll signature types
    fitting.find? fun signature =>
      fitting.all fun other => m.acceptsAll other (signature.map some)

end CodeModel

namespace Method

/-- The types of the parameters. -/
def signature (n : Method) : List TypeExpr := n.params.map (·.type)

/-- Whether the method has this name and this signature. -/
def answers (n : Method) (name : String) (signature : List TypeExpr) : Bool :=
  n.name == name && n.hasSignature signature

end Method

namespace BeanClass

/-- The first method of this name and signature. -/
def method? (c : BeanClass) (name : String) (signature : List TypeExpr) : Option Method :=
  c.methods.find? (·.answers name signature)

/-- The first instance field of this name. -/
def instanceField? (c : BeanClass) (name : String) : Option Field :=
  c.fields.find? fun f => f.name == name && !f.isStatic

/-- The type of the instance field of this name, as the code of the class sees it. -/
def declaredType (c : BeanClass) (name : String) : Option TypeExpr :=
  (c.instanceField? name).map (·.type)

end BeanClass

/-- The signatures of the methods of this name in a line. -/
def signaturesIn (line : List BeanClass) (name : String) : List (List TypeExpr) :=
  line.flatMap fun c => (c.methods.filter (·.name == name)).map Method.signature

/-- The method of this name and signature in a line, with the class that it stands in. -/
def methodIn? (line : List BeanClass) (name : String) (signature : List TypeExpr) :
    Option (BeanClass × Method) :=
  line.findSome? fun c => (c.method? name signature).map fun n => (c, n)

/-- The instance field of this name in a line, and its type. -/
def fieldIn? (line : List BeanClass) (name : String) : Option (Slot × TypeExpr) :=
  line.findSome? fun c => (c.instanceField? name).map fun f => ((c.name, name), f.type)

end BeanSynthesis
