import BeanSynthesis.Model.Inheritance
import BeanSynthesis.Synthesis.Sweep
import BeanSynthesis.Text.Blank

/-!
# Interfaces

The configured interfaces are added to every enumeration and to every class whose superclass is
not generated; the other classes inherit them. An enumeration can be serialized anyway.
-/

namespace BeanSynthesis.Interfaces

/-- The option of the pass. -/
def option : String := "Xph-implements"

/-- The interface that enumerations need not list. -/
def serializable : String := "java.io.Serializable"

/-- The parts of a text between commas and semicolons. -/
def parts (entry : List Char) : List (List Char) :=
  match entry with
  | [] => [[]]
  | c :: rest =>
    match parts rest with
    | [] => [[c]]
    | part :: others => if c = ',' || c = ';' then [] :: part :: others else (c :: part) :: others

/-- The names without repetitions, in the order in which they occur first. -/
def distinct (names : List String) : List String :=
  names.foldl (fun seen name => if name ∈ seen then seen else seen ++ [name]) []

/-- The interfaces that entries name. An entry can hold several names. -/
def interfaceNames (entries : List String) : List String :=
  distinct ((entries.flatMap fun entry =>
    (parts entry.toList).map fun part => String.ofList (Text.trimChars part)).filter (· ≠ ""))

/-- Adds interfaces to a class one after the other. -/
def addInterfaces (c : BeanClass) : List String → Step Changed
  | [] => pure (c, {})
  | interface :: rest =>
    if c.isEnum && interface == serializable then addInterfaces c rest
    else if c.implements interface then do
      Step.log .debug (c.name ++ " already implements " ++ interface)
      addInterfaces c rest
    else do
      let (c, others) ← addInterfaces
        { c with interfaces := c.interfaces ++ [.ofName interface] } rest
      return (c, .synthesized ++ others)

/-- Whether a class lists the interfaces itself. -/
def isTarget (m : CodeModel) (c : BeanClass) : Bool :=
  c.isEnum ||
    match m.parentOf c with
    | .generated _ => false
    | .root => true
    | .external _ => true

/-- Adds the interfaces to a class that lists them itself. -/
def onClass (m : CodeModel) (interfaces : List String) (c : BeanClass) : Step Changed :=
  if isTarget m c then do
    let (c, tally) ← addInterfaces c interfaces
    return (c, tally ++ .touchIf (tally.membersAdded > 0))
  else pure (c, {})

/-- What has to be configured. -/
def argument : String := "interface names separated by ',' or ';'"

/-- Adds the configured interfaces to a model. -/
def run (context : PassContext) (m : CodeModel) : PassRun :=
  let interfaces := interfaceNames context.settings.implements
  if interfaces.isEmpty then
    { model := m, outcome := .error (.missingArgument option argument), events := [] }
  else .ofSweep option m (onClass m interfaces)

end BeanSynthesis.Interfaces
