import BeanSynthesis.Model.Inheritance

/-!
# Lineage

A class starts a hierarchy of its own or builds on a superclass. The superclasses of a class can
lead through generated and external classes alike; they are followed by name.
-/

namespace BeanSynthesis

/-- Whether a class builds on a superclass. -/
inductive Lineage where
  | root | derived
deriving DecidableEq, Repr, Inhabited

namespace CodeModel

/-- The lineage of a class. -/
def lineageOf (m : CodeModel) (c : BeanClass) : Lineage :=
  match m.parentOf c with
  | .root => .root
  | .generated _ => .derived
  | .external _ => .derived

/-- The name of the superclass of the class of this name. A name that is not known has none. -/
def superclassName? (m : CodeModel) (name : String) : Option String :=
  match m.class? name with
  | some c => c.parent.map (·.name)
  | none => (m.external.get? name).bind (·.superclass)

/-- The names from `next` upward, without those in `visited`: each name once, up to one that has
no superclass, has been visited, or lies more than `steps` names away. -/
def chainFrom (m : CodeModel) (steps : Nat) (visited : List String) (next : Option String) :
    List String :=
  match steps, next with
  | 0, _ => []
  | _ + 1, none => []
  | steps + 1, some name =>
    if name ∈ visited then []
    else name :: m.chainFrom steps (name :: visited) (m.superclassName? name)

/-- How many names a chain can hold: every name in it but the last one belongs to a class that is
known. -/
def chainBound (m : CodeModel) : Nat := m.classes.length + m.external.size + 1

/-- The names of the superclasses of a class, the nearest one first. -/
def ancestorNames (m : CodeModel) (c : BeanClass) : List String :=
  m.chainFrom m.chainBound [] (c.parent.map (·.name))

end CodeModel

end BeanSynthesis
