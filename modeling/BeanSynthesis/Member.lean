import BeanSynthesis.Body.Basic

/-!
# Members

Methods and constructors with all that is attached to them: parameters, annotations,
documentation, and where they came from.
-/

namespace BeanSynthesis

/-- Who made a member. -/
inductive Origin where
  /-- The schema compiler. -/
  | schema
  /-- The synthesis pass of this option. -/
  | synthesized (option : String)
deriving DecidableEq, Repr, Inhabited

/-- Whether a synthesis pass made the member. -/
def Origin.isSynthesized : Origin → Bool
  | schema => false
  | synthesized _ => true

/-- The modifiers of a method. -/
structure Modifiers where
  isAbstract : Bool := false
  isStatic : Bool := false
  isPrivate : Bool := false
deriving DecidableEq, Repr, Inhabited

/-- The value of an annotation parameter. -/
inductive AnnotationValue where
  | bool (value : Bool)
  | int (value : Int)
  | str (value : String)
deriving DecidableEq, Repr, Inhabited

/-- An annotation with its parameters. -/
structure Annotation where
  type : ClassRef
  params : List (String × AnnotationValue) := []
deriving Repr, Inhabited

namespace Annotation

/-- An annotation without parameters. -/
def ofName (name : String) : Annotation := { type := .ofName name }

/-- The annotation with one more parameter. -/
def withParam (a : Annotation) (name : String) (value : AnnotationValue) : Annotation :=
  { a with params := a.params ++ [(name, value)] }

/-- The value of the first parameter of this name. -/
def get? (a : Annotation) (name : String) : Option AnnotationValue :=
  (a.params.find? (·.1 == name)).map (·.2)

end Annotation

/-- Whether one of the annotations is of this class. -/
def hasAnnotation (annotations : List Annotation) (className : String) : Bool :=
  annotations.any (·.type.name == className)

/-- Documentation of a member. -/
structure Javadoc where
  lines : List String := []
  /-- Names and descriptions of parameters. -/
  params : List (String × String) := []
  returns : Option String := none
  /-- Classes and reasons of exceptions. -/
  throws : List (String × String) := []
deriving DecidableEq, Repr, Inhabited

/-- Whether nothing is documented. -/
def Javadoc.isEmpty (doc : Javadoc) : Bool :=
  doc.lines.isEmpty && doc.params.isEmpty && doc.returns.isNone && doc.throws.isEmpty

/-- A parameter. -/
structure Param where
  name : String
  type : TypeExpr
  isFinal : Bool := false
  annotations : List Annotation := []
deriving Repr, Inhabited

namespace Param

/-- A final parameter without annotations. -/
def final (name : String) (type : TypeExpr) : Param := { name, type, isFinal := true }

/-- The parameter with one more annotation. -/
def annotate (p : Param) (a : Annotation) : Param := { p with annotations := p.annotations ++ [a] }

end Param

/-- Whether parameters have exactly these types. -/
def haveTypes (params : List Param) (types : List TypeExpr) : Bool :=
  params.map (·.type) == types

/-- A method. -/
structure Method where
  name : String
  returnType : TypeExpr
  params : List Param := []
  modifiers : Modifiers := {}
  annotations : List Annotation := []
  throws : List ClassRef := []
  javadoc : Javadoc := {}
  /-- An abstract method has no body. -/
  body : Option Block := some []
  origin : Origin := .schema
deriving Repr, Inhabited

namespace Method

/-- The method with one more parameter. -/
def withParam (m : Method) (p : Param) : Method := { m with params := m.params ++ [p] }

/-- The method with this body. -/
def withBody (m : Method) (body : Block) : Method := { m with body := some body }

/-- The method without a body. -/
def asAbstract (m : Method) : Method :=
  { m with modifiers := { m.modifiers with isAbstract := true }, body := none }

/-- The method with one more annotation. -/
def annotate (m : Method) (a : Annotation) : Method :=
  { m with annotations := m.annotations ++ [a] }

/-- The method as made by the pass of this option. -/
def synthesizedBy (m : Method) (option : String) : Method :=
  { m with origin := .synthesized option }

/-- Whether the parameters have exactly these types. -/
def hasSignature (m : Method) (types : List TypeExpr) : Bool := haveTypes m.params types

end Method

/-- A constructor. -/
structure Constructor where
  params : List Param := []
  javadoc : Javadoc := {}
  body : Block := []
  origin : Origin := .schema
deriving Repr, Inhabited

namespace Constructor

/-- The constructor with one more parameter. -/
def withParam (c : Constructor) (p : Param) : Constructor := { c with params := c.params ++ [p] }

/-- The constructor with this body. -/
def withBody (c : Constructor) (body : Block) : Constructor := { c with body }

/-- The constructor as made by the pass of this option. -/
def synthesizedBy (c : Constructor) (option : String) : Constructor :=
  { c with origin := .synthesized option }

/-- Whether the parameters have exactly these types. -/
def hasSignature (c : Constructor) (types : List TypeExpr) : Bool := haveTypes c.params types

end Constructor

end BeanSynthesis
