import BeanSynthesis.Log.Level
import BeanSynthesis.Synthesis.Category

/-!
# Remembered answers

Whether an external class is an enumeration is looked up once for a name; from then on the first
answer stands, also that of a class that could not be loaded.
-/

namespace BeanSynthesis

/-- The external classes that have been looked up, and whether each is an enumeration. -/
structure Classifier where
  answers : Dict Bool := ∅
deriving Inhabited

namespace Classifier

/-- How many names have been looked up. -/
def size (k : Classifier) : Nat := k.answers.size

/-- What is logged when a class cannot be loaded. -/
def loadFailure (name : String) : LogEntry :=
  ⟨.debug, "Failed to load class '" ++ name ++ "', assuming it is not an enum"⟩

/-- Whether an external class is an enumeration: the remembered answer, or else that of the
model. -/
def answer (k : Classifier) (m : CodeModel) (name : String) : Bool :=
  match k.answers.get? name with
  | some known => known
  | none => m.isExternalEnum name

/-- Remembers the answer for a name. -/
def remember (k : Classifier) (m : CodeModel) (name : String) : Classifier :=
  match k.answers.get? name with
  | some _ => k
  | none => ⟨k.answers.insert name (m.isExternalEnum name)⟩

/-- What the look-up of a name logs: a failure to load it, when it is looked up first. -/
def notices (k : Classifier) (m : CodeModel) (name : String) : List LogEntry :=
  if (k.answers.get? name).isSome || (m.external.get? name).isSome then [] else [loadFailure name]

/-- Whether an external class is an enumeration, and what is remembered afterwards. -/
def isExternalEnum (k : Classifier) (m : CodeModel) (name : String) : Bool × Classifier :=
  (k.answer m name, k.remember m name)

/-- The category of a type, and what is remembered afterwards. -/
def classify (k : Classifier) (m : CodeModel) (t : TypeExpr) : TypeCategory × Classifier :=
  (m.categoryWith (k.answer m) t,
    match m.externalAsked? t with
    | some name => k.remember m name
    | none => k)

end Classifier

end BeanSynthesis
