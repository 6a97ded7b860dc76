import BeanSynthesis.Naming
import BeanSynthesis.Synthesis.Carriers
import BeanSynthesis.Synthesis.Pass.LocalAccessors

/-!
# Access to carried values

A class that carries a value gets a constructor for it. Where another class has a setter or a
getter for such a class, it gets one for the value as well. Every class gets a constructor without
parameters first, since the other constructors would suppress it.
-/

namespace BeanSynthesis.ValueAccessors

/-- The option of the pass. -/
def option : String := "Xph-value-extender"

/-- The parameter that takes a value. -/
def valueParam (settings : Settings) (type : TypeExpr) : Param :=
  { Param.final "valueParam" type with
    annotations := nullnessAnnotations type settings.runtime.nullable }

/-- The description of the parameter that takes a value. -/
def valueParamDoc (type : TypeExpr) : String :=
  if type.isPrimitive then "The value to be set."
  else "The value to be set. May be <code>null</code>."

/-- A type and its local companion, if those take part. -/
def withCompanion (withLocal : Bool) (type : TypeExpr) : List TypeExpr :=
  if withLocal then type :: ((localCompanion? type).map (·.type)).toList else [type]

/-- The constructor without parameters. -/
def defaultConstructor (settings : Settings) : Constructor :=
  Constructor.stamp { javadoc := { lines := ["Default constructor"] } } settings option

/-- Adds the constructor without parameters. -/
def addDefaultConstructor (settings : Settings) (c : BeanClass) : Step Changed :=
  if c.hasConstructor [] then pure (c, {})
  else pure (Changed.noted
    ({ c with constructors := c.constructors ++ [defaultConstructor settings] }, .synthesized)
    (settings.classNote option))

/-- The constructor that takes a value. -/
def valueConstructor (settings : Settings) (type : TypeExpr) : Constructor :=
  Constructor.stamp {
    params := [valueParam settings type]
    body := [.expr (.call "setValue" [.ident "valueParam"])]
    javadoc := {
      lines := ["Constructor for value of type " ++ type.erasureName]
      params := [("valueParam", valueParamDoc type)] } } settings option

/-- Adds the constructors for the value that a class carries. -/
def addValueConstructors (settings : Settings) (withLocal : Bool)
    (valueType? : BeanClass → Option TypeExpr) (c : BeanClass) : Step Changed :=
  match valueType? c with
  | none => pure (c, {})
  | some type => do
    Step.log .debug (c.name ++ " carries a value of type " ++ type.toText)
    let changed : Changed :=
      c.addConstructors ((withCompanion withLocal type).map (valueConstructor settings))
    return changed.noted (settings.classNote option)

/-- What the classes of a model carry, by the name of the class. -/
def carriedTypes (valueType? : BeanClass → Option TypeExpr) (classes : List BeanClass) :
    Dict TypeExpr :=
  classes.foldl
    (fun types c =>
      if c.isEnum then types
      else
        match valueType? c with
        | some type => types.insert c.name type
        | none => types) ∅

/-- What a type carries. -/
def carried? (carriers : Dict TypeExpr) (t : TypeExpr) : Option TypeExpr :=
  match t with
  | .named name _ => carriers.get? name
  | _ => none

/-- The setter that takes the value of a carrier, next to the setter for the carrier itself. -/
def valueSetter (settings : Settings) (setter property : String) (carrier type : TypeExpr) :
    Method :=
  Method.stamp {
    name := setter
    returnType := carrier
    annotations := [.ofName settings.runtime.nonNull]
    params := [valueParam settings type]
    body := some [
      .declVar carrier "aObj" (.call ("get" ++ property) []),
      .ifElse (Expr.ident "aObj").isNull
        [.assign (.ident "aObj") (.newObject carrier [.ident "valueParam"]),
          .expr (.call setter [.ident "aObj"])]
        [.expr ((Expr.ident "aObj").invoke "setValue" [.ident "valueParam"])],
      .give (.ident "aObj")]
    javadoc := {
      lines := ["Special setter with value of type " ++ type.erasureName]
      params := [("valueParam", valueParamDoc type)]
      returns := some ("The created intermediary object of type " ++ carrier.erasureName ++
        " and never <code>null</code>") } } settings option

/-- The value setters that go with a method, if it is a setter for a carrier. -/
def settersFor (settings : Settings) (carriers : Dict TypeExpr) (withLocal : Bool) (m : Method) :
    List Method :=
  match m.params, Naming.propertyPart? m.name "set" with
  | [param], some property =>
    match carried? carriers param.type with
    | some type => (withCompanion withLocal type).map fun type =>
        valueSetter settings m.name property param.type type
    | none => []
  | _, _ => []

/-- Adds the value setters of a class. -/
def addSetters (settings : Settings) (carriers : Dict TypeExpr) (withLocal : Bool)
    (c : BeanClass) : Step Changed := do
  let changed ← c.addMethods (c.methods.flatMap (settersFor settings carriers withLocal))
  return changed.noted (settings.classNote option)

/-- The getter for the value of a carrier, which is read with `read`. A primitive value needs a
fallback for a missing carrier. -/
def valueGetter (settings : Settings) (name getter : String) (carrier type : TypeExpr)
    (read : String) : Method :=
  let value := (Expr.ident "aObj").invoke read []
  let heading := "Get the value of the contained " ++ carrier.erasureName ++ " object"
  let either := "Either the value of the contained " ++ carrier.erasureName ++ " object or "
  let decl := Stmt.declFinal carrier "aObj" (.call getter [])
  if type.isPrimitive then
    Method.stamp {
      name
      returnType := type
      params := [Param.final "nullValue" type]
      body := some [decl, .give (.cond (Expr.ident "aObj").isNull (.ident "nullValue") value)]
      javadoc := {
        lines := [heading]
        params := [("nullValue",
          "The value to be returned, if the owning object is <code>null</code>")]
        returns := some (either ++ "the passed nullValue") } } settings option
  else
    Method.stamp {
      name
      returnType := type
      annotations := [.ofName settings.runtime.nullable]
      body := some [decl, .give ((Expr.ident "aObj").nullOr value)]
      javadoc := {
        lines := [heading]
        returns := some (either ++ "<code>null</code>") } } settings option

/-- Whether a value is read with an `is` method. -/
def readsWithIs (type : TypeExpr) : Bool := type == .primitive .boolean

/-- The name of the getter for the value of a property. -/
def valueGetterName (property : String) (type : TypeExpr) : String :=
  (if readsWithIs type then "is" else "get") ++ property ++ "Value"

/-- The value getters that go with a method, if it is a getter for a carrier, or the name of a
getter that exists already. -/
def gettersFor (settings : Settings) (carriers : Dict TypeExpr) (withLocal : Bool) (c : BeanClass)
    (m : Method) : List (Except String Method) :=
  match m.params, Naming.propertyPart? m.name "get" with
  | [], some property =>
    match carried? carriers m.returnType with
    | some type =>
      let name := valueGetterName property type
      if c.hasMethodWithoutParams name then [.error name]
      else
        .ok (valueGetter settings name m.name m.returnType type
            (if readsWithIs type then "isValue" else "getValue")) ::
          (match if withLocal && !type.isPrimitive then localCompanion? type else none with
            | some companion => [.ok (valueGetter settings (name ++ "Local") m.name m.returnType
                companion.type "getValueLocal")]
            | none => [])
    | none => []
  | _, _ => []

/-- Reports a getter that exists already. -/
def warnTaken (c : BeanClass) (name : String) : Step Unit :=
  Step.log .warn ("Another method with name '" ++ name ++
    "' and no parameters is already present in class '" ++ c.name ++ "' - not creating it.")

/-- Adds the value getters of a class. -/
def addGetters (settings : Settings) (carriers : Dict TypeExpr) (withLocal : Bool)
    (c : BeanClass) : Step Changed := do
  let found := c.methods.flatMap (gettersFor settings carriers withLocal c)
  let taken := found.filterMap fun
    | .error name => some name
    | .ok _ => none
  taken.forM (warnTaken c)
  let (c, tally) ← c.addMethods (found.filterMap Except.toOption)
  let left := taken.map fun name => SkipReason.collision c.name name
  return Changed.noted (c, tally ++ { skipped := left }) (settings.classNote option)

/-- Adds access to carried values to a model. -/
def run (context : PassContext) (m : CodeModel) : PassRun :=
  let settings := context.settings
  let withLocal := context.active.contains LocalAccessors.option
  let stage (f : BeanClass → Step Changed) (classes : List BeanClass) : Sweep :=
    sweep (exceptEnums f) classes
  let first := stage (addDefaultConstructor settings) m.classes
  let m := { m with classes := first.classes }
  let scan := Carriers.ofModel m
  match scan.outcome with
  | .error e => { model := m, outcome := .error e, events := first.events ++ scan.events }
  | .ok found =>
    let valueType? := Carriers.valueType? m found
    let carriers := carriedTypes valueType? m.classes
    let second := stage (addValueConstructors settings withLocal valueType?) m.classes
    let third := stage (addSetters settings carriers withLocal) second.classes
    let fourth := stage (addGetters settings carriers withLocal) third.classes
    let count : Event :=
      .logged ⟨.debug, Nat.repr carriers.size ++ " value carrier classes"⟩
    { model := { m with classes := fourth.classes }
      outcome := do
        let first ← first.outcome
        let second ← second.outcome
        let third ← third.outcome
        let fourth ← fourth.outcome
        let tally := first ++ { skipped := found.skipped } ++ second ++ third ++ fourth
        return { option, tally }
      events := first.events ++ scan.events ++ second.events ++ [count] ++ third.events ++
        fourth.events }

end BeanSynthesis.ValueAccessors
