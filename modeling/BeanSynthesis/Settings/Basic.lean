/-!
# Settings

What a synthesis run can be told: the name that generated members are marked with, how much is
logged, which passes and interfaces are wanted, and the names of the helper classes that
generated code uses.
-/

namespace BeanSynthesis

/-- Names of annotations for validation. -/
structure ValidationSettings where
  /-- The package of the validation annotations. -/
  package : String := "jakarta.validation"
deriving DecidableEq, Repr, Inhabited

namespace ValidationSettings

/-- The name of a constraint annotation. -/
def constraint (s : ValidationSettings) (simpleName : String) : String :=
  s.package ++ ".constraints." ++ simpleName

/-- The name of the annotation that asks for validation of the parts. -/
def valid (s : ValidationSettings) : String := s.package ++ ".Valid"

end ValidationSettings

/-- The names of the helper classes that generated code uses. -/
structure RuntimeClasses where
  equalsHelper : String := "com.helger.base.equals.EqualsHelper"
  collectionEqualsHelper : String := "com.helger.collection.helper.CollectionEqualsHelper"
  hashCodeGenerator : String := "com.helger.base.hashcode.HashCodeGenerator"
  hashCodeCalculator : String := "com.helger.base.hashcode.HashCodeCalculator"
  toStringGenerator : String := "com.helger.base.tostring.ToStringGenerator"
  jaxbHelper : String := "com.helger.jaxb.adapter.JAXBHelper"
  arrayHelper : String := "com.helger.base.array.ArrayHelper"
  genericReflection : String := "com.helger.base.reflection.GenericReflection"
  cloneableInterface : String := "com.helger.base.lang.IExplicitlyCloneable"
  domNode : String := "org.w3c.dom.Node"
  nullable : String := "org.jspecify.annotations.Nullable"
  nonNull : String := "org.jspecify.annotations.NonNull"
  nonnegative : String := "com.helger.annotation.Nonnegative"
  returnsMutableCopy : String := "com.helger.annotation.style.ReturnsMutableCopy"
  codingStyleguideUnaware : String := "com.helger.annotation.style.CodingStyleguideUnaware"
  nullMarked : String := "org.jspecify.annotations.NullMarked"
deriving DecidableEq, Repr, Inhabited

/-- The settings of a synthesis run. -/
structure Settings where
  /-- The name that generated members are marked with. -/
  generatorName : String := "ph-jaxb-plugin"
  /-- Whether debug messages are logged whatever the level says. -/
  debug : Bool := false
  logLevel : String := "info"
  /-- The passes that run when none are asked for. -/
  passes : List String := []
  /-- The interfaces that all classes shall implement. -/
  implements : List String := []
  validation : ValidationSettings := {}
  runtime : RuntimeClasses := {}
deriving DecidableEq, Repr, Inhabited

namespace Settings

/-- The line of documentation that marks a member made by the pass of this option. -/
def provenance (s : Settings) (option : String) : String :=
  "Created by " ++ s.generatorName ++ " -" ++ option

/-- The note on a package annotated by the pass of this option. -/
def packageNote (s : Settings) (option : String) : String :=
  "<p>This class was annotated by " ++ s.generatorName ++ " -" ++ option ++ "</p>"

/-- The note on a class with members made by the pass of this option. -/
def classNote (s : Settings) (option : String) : String :=
  "<p>This class contains methods created by " ++ s.generatorName ++ " -" ++ option ++ "</p>"

end Settings

end BeanSynthesis
