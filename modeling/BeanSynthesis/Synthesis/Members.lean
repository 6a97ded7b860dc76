import BeanSynthesis.Model.Basic
import BeanSynthesis.Settings.Basic
import BeanSynthesis.Synthesis.Step

/-!
# Adding members

A pass adds a member only if the class has none of the same name and parameter types. What it
adds is marked with its option, and a class that received something gets a note.
-/

namespace BeanSynthesis

/-- The annotation of a method that overrides another one. -/
def overrideMark : Annotation := .ofName "java.lang.Override"

/-- The annotations that say whether a value may be null; a primitive value has none. -/
def nullnessAnnotations (type : TypeExpr) (className : String) : List Annotation :=
  if type.isPrimitive then [] else [.ofName className]

/-- A method as made by the pass of an option: its documentation says so last. -/
def Method.stamp (m : Method) (settings : Settings) (option : String) : Method :=
  { m with
    javadoc := { m.javadoc with lines := m.javadoc.lines ++ [settings.provenance option] }
    origin := .synthesized option }

/-- A constructor as made by the pass of an option: its documentation says so last. -/
def Constructor.stamp (c : Constructor) (settings : Settings) (option : String) : Constructor :=
  { c with
    javadoc := { c.javadoc with lines := c.javadoc.lines ++ [settings.provenance option] }
    origin := .synthesized option }

/-- A class on its way through a pass, with what has been done to it. -/
abbrev Changed := BeanClass × Tally

namespace BeanClass

/-- Adds a method, unless there is one of the same name and parameter types. -/
def addMethod (c : BeanClass) (m : Method) : Step Changed :=
  if c.hasMethod m.name (m.params.map (·.type)) then do
    Step.log .debug ("Method '" ++ m.name ++ "' already exists in " ++ c.name ++
      ", not creating it")
    return (c, .leftOut (.collision c.name m.name))
  else pure ({ c with methods := c.methods ++ [m] }, .synthesized)

/-- Adds methods one after the other. -/
def addMethods (c : BeanClass) : List Method → Step Changed
  | [] => pure (c, {})
  | m :: rest => do
    let (c, first) ← c.addMethod m
    let (c, others) ← c.addMethods rest
    return (c, first ++ others)

/-- Adds a constructor, unless there is one of the same parameter types. -/
def addConstructor (c : BeanClass) (k : Constructor) : Changed :=
  let types := k.params.map (·.type)
  if c.hasConstructor types then
    (c, .leftOut (.collision c.name
      (c.simpleName ++ "(" ++ ", ".intercalate (types.map TypeExpr.erasureName) ++ ")")))
  else ({ c with constructors := c.constructors ++ [k] }, .synthesized)

/-- Adds constructors one after the other. -/
def addConstructors (c : BeanClass) : List Constructor → Changed
  | [] => (c, {})
  | k :: rest =>
    let (c, first) := c.addConstructor k
    let (c, others) := c.addConstructors rest
    (c, first ++ others)

end BeanClass

/-- Counts the class and notes on it that it received something, if it did. -/
def Changed.noted (changed : Changed) (note : String) : Changed :=
  if changed.2.membersAdded > 0 then (changed.1.addNote note, changed.2 ++ .touched) else changed

end BeanSynthesis
