import BeanSynthesis.Synthesis.Fields

/-!
# Problems of a model

Synthesis needs a property for every instance field and a field for every property that is no
reference. What is missing can be listed without running a pass.
-/

namespace BeanSynthesis

namespace BeanClass

/-- The properties of a class that should have a field and have none. -/
def unbackedProperties (c : BeanClass) : List Property :=
  c.properties.filter fun p => !p.kind.isReference && (c.field? p.name).isNone

/-- The problems of a class: the first field without a property, then the properties without a
field. -/
def problems (c : BeanClass) : List SynthError :=
  (match c.instanceFields.outcome with
    | .error e => [e]
    | .ok _ => []) ++
    c.unbackedProperties.map fun p => .missingField c.name p.name

end BeanClass

/-- The problems of a model. Enumerations have none. -/
def CodeModel.problems (m : CodeModel) : List SynthError :=
  (m.classes.filter fun c => !c.isEnum).flatMap BeanClass.problems

end BeanSynthesis
