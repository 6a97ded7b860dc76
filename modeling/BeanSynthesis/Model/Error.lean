/-!
# Errors of the model

What can go wrong when a model or a configuration is read or asked, each with the code that
reports use.
-/

namespace BeanSynthesis

/-- Why a model or configuration could not be read or asked. -/
inductive ModelError where
  /-- A text that has to be a type is none. -/
  | invalidType (input reason : String)
  | unknownClass (name : String)
  /-- Two classes have the same name. -/
  | duplicateClass (name : String)
  /-- The superclasses of a class never end. -/
  | cyclicInheritance (name : String)
  | config (reason : String)
  | json (reason : String)
  | io (reason : String)
deriving DecidableEq, Repr

namespace ModelError

/-- The code of an error. -/
def code : ModelError → Nat
  | invalidType .. => 1
  | unknownClass _ => 2
  | duplicateClass _ => 3
  | cyclicInheritance _ => 4
  | config _ => 5
  | json _ => 6
  | io _ => 7

/-- The text of an error. -/
def message : ModelError → String
  | invalidType input reason => "invalid type '" ++ input ++ "': " ++ reason
  | unknownClass name => "unknown class: " ++ name
  | duplicateClass name => "duplicate class: " ++ name
  | cyclicInheritance name => "cyclic inheritance involving " ++ name
  | config reason => "configuration error: " ++ reason
  | json reason => "JSON error: " ++ reason
  | io reason => "I/O error: " ++ reason

end ModelError

end BeanSynthesis
