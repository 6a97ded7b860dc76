import BeanSynthesis.Model.Basic
import BeanSynthesis.Model.Error

/-!
# Inheritance

The superclass of a generated class is nothing (or `java.lang.Object`, which is the same), another
generated class, or a class outside. A model is well-formed if its classes have different names
and the superclasses of every class end.
-/

namespace BeanSynthesis

/-- The name of the class above all others. -/
def objectClass : String := "java.lang.Object"

/-- Where the superclass of a class lives. -/
inductive Parent where
  /-- There is none, or it is `java.lang.Object`. -/
  | root
  | generated (c : BeanClass)
  | external (c : ClassRef)

namespace CodeModel

/-- The superclass of a class. -/
def parentOf (m : CodeModel) (c : BeanClass) : Parent :=
  match c.parent with
  | none => .root
  | some parent =>
    if parent.name == objectClass then .root
    else
      match m.class? parent.name with
      | some generated => .generated generated
      | none => .external parent

/-- Whether the generated superclasses of a class end after at most `steps` of them. -/
def endsWithin (m : CodeModel) (steps : Nat) (c : BeanClass) : Bool :=
  match m.parentOf c with
  | .generated parent =>
    match steps with
    | 0 => false
    | steps + 1 => m.endsWithin steps parent
  | _ => true

/-- The first name of the list that an earlier one repeats. -/
def firstRepeated? (seen : List String) : List String → Option String
  | [] => none
  | name :: rest => if name ∈ seen then some name else firstRepeated? (name :: seen) rest

/-- Refuses a model with two classes of one name, and then one with a class whose superclasses
never end. A chain of superclasses that ends is no longer than the list of classes. -/
def validate (m : CodeModel) : Except ModelError Unit :=
  match firstRepeated? [] (m.classes.map (·.name)) with
  | some name => .error (.duplicateClass name)
  | none =>
    match m.classes.find? fun c => !m.endsWithin m.classes.length c with
    | some c => .error (.cyclicInheritance c.name)
    | none => .ok ()

/-- The class of this name, or an error. -/
def requireClass (m : CodeModel) (name : String) : Except ModelError BeanClass :=
  match m.class? name with
  | some c => .ok c
  | none => .error (.unknownClass name)

end CodeModel

end BeanSynthesis
