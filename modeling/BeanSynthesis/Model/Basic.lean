import BeanSynthesis.Member
import BeanSynthesis.Schema

/-!
# The class model

What a schema compiler has generated: classes with fields, properties and members, the object
factories and packages beside them, and a table of the classes outside the generated set.
Synthesis reads the model and adds to it.
-/

namespace BeanSynthesis

/-- Class or enumeration. -/
inductive ClassKind where
  | plain | enumeration
deriving DecidableEq, Repr, Inhabited

/-- The access to a field. -/
inductive Visibility where
  | priv | prot | publ
deriving DecidableEq, Repr, Inhabited

/-- The keyword of a visibility. -/
def Visibility.keyword : Visibility → String
  | priv => "private"
  | prot => "protected"
  | publ => "public"

/-- A field. -/
structure Field where
  name : String
  type : TypeExpr
  isStatic : Bool := false
  visibility : Visibility := .prot
  annotations : List Annotation := []
deriving Repr, Inhabited

/-- A generated class. -/
structure BeanClass where
  name : String
  kind : ClassKind := .plain
  parent : Option ClassRef := none
  isAbstract : Bool := false
  interfaces : List ClassRef := []
  annotations : List Annotation := []
  fields : List Field := []
  properties : List Property := []
  constructors : List Constructor := []
  methods : List Method := []
  javadoc : List String := []
  /-- The constants of an enumeration. -/
  constants : List String := []
deriving Inhabited

namespace BeanClass

/-- The name without its package. -/
def simpleName (c : BeanClass) : String := BeanSynthesis.simpleName c.name

/-- The package of the class. -/
def packageName (c : BeanClass) : String := BeanSynthesis.packageName c.name

/-- The class as a type. -/
def asType (c : BeanClass) : TypeExpr := .ofName c.name

/-- Whether the class is an enumeration. -/
def isEnum (c : BeanClass) : Bool := c.kind == .enumeration

/-- The first field of this name. -/
def field? (c : BeanClass) (name : String) : Option Field := c.fields.find? (·.name == name)

/-- The first property that this field holds. -/
def property? (c : BeanClass) (fieldName : String) : Option Property :=
  c.properties.find? (·.name == fieldName)

/-- Whether there is a method of this name with exactly these parameter types. -/
def hasMethod (c : BeanClass) (name : String) (types : List TypeExpr) : Bool :=
  c.methods.any fun m => m.name == name && m.hasSignature types

/-- Whether there is a method of this name without parameters. -/
def hasMethodWithoutParams (c : BeanClass) (name : String) : Bool := c.hasMethod name []

/-- Whether there is a constructor with exactly these parameter types. -/
def hasConstructor (c : BeanClass) (types : List TypeExpr) : Bool :=
  c.constructors.any (·.hasSignature types)

/-- Whether an annotation of this class is applied. -/
def hasAnnotation (c : BeanClass) (className : String) : Bool :=
  BeanSynthesis.hasAnnotation c.annotations className

/-- Whether the class lists this interface itself. -/
def implements (c : BeanClass) (interface : String) : Bool :=
  c.interfaces.any (·.name == interface)

/-- The class with a line of documentation that it holds once. -/
def addNote (c : BeanClass) (note : String) : BeanClass :=
  if note ∈ c.javadoc then c else { c with javadoc := c.javadoc ++ [note] }

end BeanClass

/-- Declarations of a package. -/
structure Package where
  name : String
  annotations : List Annotation := []
  javadoc : List String := []
deriving Repr, Inhabited

/-- A class outside the generated set, as far as it is known. -/
structure ExternalClass where
  name : String
  isEnum : Bool := false
  /-- Whether the class is a number. -/
  isNumber : Bool := false
  superclass : Option String := none
  /-- The public fields. -/
  fields : Dict TypeExpr := ∅
deriving Inhabited

/-- The classes outside the generated set that can be loaded, by the name they are loaded with. -/
abbrev ExternalTypes := Dict ExternalClass

/-- Everything that one run of the schema compiler has generated. -/
structure CodeModel where
  classes : List BeanClass := []
  /-- The factories of elements, one for a package. -/
  objectFactories : List BeanClass := []
  packages : List Package := []
  external : ExternalTypes := ∅
deriving Inhabited

namespace CodeModel

/-- The first class of this name. -/
def class? (m : CodeModel) (name : String) : Option BeanClass := m.classes.find? (·.name == name)

/-- The position of the first class of this name. -/
def classIndex? (m : CodeModel) (name : String) : Option Nat :=
  m.classes.findIdx? (·.name == name)

/-- Whether a class of this name is generated. -/
def isGenerated (m : CodeModel) (name : String) : Bool := (m.class? name).isSome

/-- Whether an enumeration of this name is generated. -/
def isGeneratedEnum (m : CodeModel) (name : String) : Bool :=
  match m.class? name with
  | some c => c.isEnum
  | none => false

/-- The generated classes whose superclass has this name. -/
def subclassesOf (m : CodeModel) (name : String) : List BeanClass :=
  m.classes.filter fun c =>
    match c.parent with
    | some parent => parent.name == name
    | none => false

/-- The model with one more class. -/
def addClass (m : CodeModel) (c : BeanClass) : CodeModel := { m with classes := m.classes ++ [c] }

/-- The model with an external class, loaded by its own name. -/
def addExternal (m : CodeModel) (c : ExternalClass) : CodeModel :=
  { m with external := m.external.insert c.name c }

/-- Changes the first package of this name, which is added first if there is none. -/
def updatePackage (m : CodeModel) (name : String) (f : Package → Package) : CodeModel :=
  if m.packages.any (·.name == name) then { m with packages := go m.packages }
  else { m with packages := m.packages ++ [f { name }] }
where
  /-- Changes the first package of the list that has the name. -/
  go : List Package → List Package
    | [] => []
    | p :: rest => if p.name == name then f p :: rest else p :: go rest

end CodeModel

end BeanSynthesis
