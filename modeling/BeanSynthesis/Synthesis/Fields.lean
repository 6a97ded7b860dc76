import BeanSynthesis.Model.Basic
import BeanSynthesis.Synthesis.Step

/-!
# Instance fields

Synthesis works on the instance fields of a class, each with the base name of its accessors. That
name comes from the property which the field holds; the map of any other attributes has no
property and goes by its own name.
-/

namespace BeanSynthesis

/-- The field that holds attributes of any name. -/
def otherAttributesField : String := "otherAttributes"

/-- An instance field. -/
structure InstanceField where
  name : String
  type : TypeExpr
  /-- The base name of the accessors. -/
  accessor : String
deriving Repr, Inhabited

namespace BeanClass

/-- The base name of the accessors of a field; none if the field belongs to no property. -/
def accessorName? (c : BeanClass) (field : String) : Option String :=
  match c.property? field with
  | some property => some property.publicName
  | none => if field == otherAttributesField then some field else none

/-- The instance fields among these fields of a class. -/
def instanceFieldsAmong (c : BeanClass) : List Field → Step (List InstanceField)
  | [] => pure []
  | f :: rest =>
    if f.isStatic then do
      Step.log .debug ("Ignoring static field '" ++ f.name ++ "' of " ++ c.name)
      c.instanceFieldsAmong rest
    else
      match c.accessorName? f.name with
      | none => Step.fail (.unknownProperty c.name f.name (c.properties.map (·.name)))
      | some accessor => do
        let others ← c.instanceFieldsAmong rest
        return { name := f.name, type := f.type, accessor } :: others

/-- The instance fields of a class, in the order in which they are declared. -/
def instanceFields (c : BeanClass) : Step (List InstanceField) := c.instanceFieldsAmong c.fields

end BeanClass

end BeanSynthesis
