import BeanSynthesis.Synthesis.Sweep
import BeanSynthesis.Text.Leading

/-!
# Object factories

The element names of object factories become public, what their `create` methods return is
documented, and the parameter of those that wrap an element becomes final.
-/

namespace BeanSynthesis.FactoryDocs

/-- The option of the pass. -/
def option : String := "Xph-code-quality"

/-- Publishes the element names among fields; the number says how many were not public. -/
def publishNames : List Field → List Field × Nat
  | [] => ([], 0)
  | f :: rest =>
    let (others, count) := publishNames rest
    if f.type.erasureName == "QName" && f.visibility != .publ then
      ({ f with visibility := .publ } :: others, count + 1)
    else (f :: others, count)

/-- Whether a method wraps its only parameter into an element. -/
def wrapsElement (m : Method) : Bool :=
  m.params.length == 1 && m.returnType.erasureName == "JAXBElement"

/-- What the documentation of a `create` method shall say about its result, if anything. -/
def resultDoc? (m : Method) : Option String :=
  if wrapsElement m then some "The created JAXBElement and never <code>null</code>."
  else if m.params.isEmpty then
    some ("The created " ++ m.returnType.erasureName ++ " object and never <code>null</code>.")
  else none

/-- A method with a final parameter if it wraps an element. -/
def withFinalParam (m : Method) : Method :=
  if wrapsElement m then { m with params := m.params.map fun p => { p with isFinal := true } }
  else m

/-- Whether a method creates something. -/
def isCreator (m : Method) : Bool := (Text.afterStart? "create".toList m.name.toList).isSome

/-- Documents methods of a factory; the number says how many were documented otherwise. -/
def documentMethods (factory : String) : List Method → Step (List Method × Nat)
  | [] => pure ([], 0)
  | m :: rest =>
    match if isCreator m then resultDoc? m else none with
    | none => do
      let (others, count) ← documentMethods factory rest
      return (m :: others, count)
    | some doc =>
      let fixed := withFinalParam m
      if m.javadoc.returns == some doc then do
        let (others, count) ← documentMethods factory rest
        return (fixed :: others, count)
      else do
        Step.log .debug ("Documented " ++ factory ++ "." ++ m.name)
        let (others, count) ← documentMethods factory rest
        return ({ fixed with javadoc := { fixed.javadoc with returns := some doc } } :: others,
          count + 1)

/-- Treats one factory. -/
def onFactory (c : BeanClass) : Step Changed := do
  let (fields, published) := publishNames c.fields
  let (methods, documented) ← documentMethods c.name c.methods
  let count := published + documented
  return ({ c with fields, methods }, { membersAdded := count } ++ .touchIf (count > 0))

/-- Treats the object factories of a model. -/
def run (_ : PassContext) (m : CodeModel) : PassRun :=
  let s := sweep onFactory m.objectFactories
  { model := { m with objectFactories := s.classes }
    outcome := s.outcome.map fun tally => { option, tally }
    events := s.events }

end BeanSynthesis.FactoryDocs
