import BeanSynthesis.Model.Error
import BeanSynthesis.Text.Quoted

/-!
# Errors of synthesis

What ends a synthesis run, with the code that reports use.
-/

namespace BeanSynthesis

/-- Why a synthesis run ended early. -/
inductive SynthError where
  /-- A field belongs to no property of its class. -/
  | unknownProperty (className field : String) (known : List String)
  /-- A property of a class has no field. -/
  | missingField (className field : String)
  /-- No pass has this option. -/
  | unknownPass (option : String)
  /-- A pass lacks something that has to be configured. -/
  | missingArgument (option what : String)
  | model (cause : ModelError)
deriving DecidableEq, Repr

namespace SynthError

/-- The code of an error. -/
def code : SynthError → Nat
  | unknownProperty .. => 100
  | missingField .. => 101
  | unknownPass _ => 102
  | missingArgument .. => 103
  | model cause => cause.code

/-- Whether the error lies in the model and not in what was asked for. -/
def isFatal : SynthError → Bool
  | unknownPass _ => false
  | missingArgument .. => false
  | _ => true

/-- The text of an error. -/
def message : SynthError → String
  | unknownProperty className field known =>
    "'" ++ field ++ "' not found in " ++ Text.quotedList known ++ " of " ++ className
  | missingField className field =>
    "property '" ++ field ++ "' of " ++ className ++ " has no backing field"
  | unknownPass option => "unknown pass option: " ++ option
  | missingArgument option what => "-" ++ option ++ " requires " ++ what
  | model cause => cause.message

end SynthError

end BeanSynthesis
