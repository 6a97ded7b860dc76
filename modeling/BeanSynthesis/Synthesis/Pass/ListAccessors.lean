import BeanSynthesis.Naming
import BeanSynthesis.Synthesis.Category
import BeanSynthesis.Synthesis.Fields
import BeanSynthesis.Synthesis.Sweep

/-!
# Access to lists

A list field gets a setter, and every getter of a list gets companions: whether there are entries,
how many there are, the entry at an index, and adding an entry.
-/

namespace BeanSynthesis.ListAccessors

/-- The option of the pass. -/
def option : String := "Xph-list-extension"

/-- A getter of a list. -/
structure ListGetter where
  getter : String
  /-- The base name of the companions. -/
  property : String
  /-- The type of the entries. -/
  element : TypeExpr

/-- The list getter that a method is, if it is one. -/
def listGetter? (m : Method) : Option ListGetter :=
  if m.params.isEmpty && m.returnType.isErasure "List" then
    (Naming.propertyPart? m.name "get").map fun property =>
      { getter := m.name, property, element := m.returnType.elementOrObject }
  else none

namespace ListGetter

/-- The list. -/
def list (g : ListGetter) : Expr := .call g.getter []

/-- Whether there are entries. -/
def hasEntries (g : ListGetter) : Method where
  name := "has" ++ g.property ++ "Entries"
  returnType := .primitive .boolean
  body := some [.give (.not (g.list.invoke "isEmpty" []))]
  javadoc.returns := some
    "<code>true</code> if at least one item is contained, <code>false</code> otherwise."

/-- Whether there are no entries. -/
def hasNoEntries (g : ListGetter) : Method where
  name := "hasNo" ++ g.property ++ "Entries"
  returnType := .primitive .boolean
  body := some [.give (g.list.invoke "isEmpty" [])]
  javadoc.returns := some
    "<code>true</code> if no item is contained, <code>false</code> otherwise."

/-- How many entries there are. -/
def count (settings : Settings) (g : ListGetter) (name : String) : Method where
  name
  returnType := .primitive .int
  annotations := [.ofName settings.runtime.nonnegative]
  body := some [.give (g.list.invoke "size" [])]
  javadoc.returns := some "The number of contained elements. Always &ge; 0."

/-- The entry at an index. -/
def atIndex (settings : Settings) (g : ListGetter) : Method where
  name := "get" ++ g.property ++ "AtIndex"
  returnType := g.element
  annotations := nullnessAnnotations g.element settings.runtime.nullable
  params := [(Param.final "index" (.primitive .int)).annotate
    (.ofName settings.runtime.nonnegative)]
  body := some [.give (g.list.invoke "get" [.ident "index"])]
  throws := [.ofName "java.lang.IndexOutOfBoundsException"]
  javadoc := {
    params := [("index", "The index to retrieve")]
    returns := some "The element at the specified index. May be <code>null</code>"
    throws := [("java.lang.IndexOutOfBoundsException", "if the index is invalid!")] }

/-- Adding an entry. -/
def add (settings : Settings) (g : ListGetter) : Method where
  name := "add" ++ g.property
  returnType := .void
  params := [{ Param.final "elem" g.element with
    annotations := nullnessAnnotations g.element settings.runtime.nonNull }]
  body := some [.expr (g.list.invoke "add" [.ident "elem"])]
  javadoc.params := [("elem", "The element to be added. May not be <code>null</code>.")]

/-- The names under which the number of entries may be asked for. -/
def countNames (g : ListGetter) : List String :=
  ["get" ++ g.property ++ "Count", "get" ++ g.property ++ "ListCount"]

/-- The first of the count names that neither the class nor the methods to be added to it use
without parameters. -/
def freeCountName? (g : ListGetter) (c : BeanClass) (queued : List Method) : Option String :=
  g.countNames.find? fun name =>
    !c.hasMethodWithoutParams name && !queued.any fun m => m.params.isEmpty && m.name == name

end ListGetter

/-- The setter of a list field. -/
def setter (settings : Settings) (f : InstanceField) : Method where
  name := Naming.setterName f.accessor
  returnType := .void
  params := [{ Param.final "aList" f.type with
    annotations := nullnessAnnotations f.type settings.runtime.nullable }]
  body := some [.assign (.ident f.name) (.ident "aList")]
  javadoc.params := [("aList", "The new list member to set. May be <code>null</code>.")]

/-- Methods to be added to a class, and members that are left out. -/
structure Plan where
  methods : List Method
  skipped : List SkipReason := []

/-- The plan with the companions of one more list getter. -/
def planGetter (settings : Settings) (c : BeanClass) (plan : Plan) (g : ListGetter) :
    Step Plan := do
  let queued := plan.methods ++ [g.hasEntries, g.hasNoEntries]
  let others := [g.atIndex settings, g.add settings]
  match g.freeCountName? c queued with
  | some name => return { plan with methods := queued ++ [g.count settings name] ++ others }
  | none => do
    let member := "get" ++ g.property ++ "Count"
    Step.log .warn ("Cannot create '" ++ member ++ "' method because it already exists")
    return {
      methods := queued ++ others
      skipped := plan.skipped ++ [.collision c.name member] }

/-- Adds the accessors of all lists of a class. -/
def onClass (settings : Settings) (c : BeanClass) : Step Changed := do
  let fields ← c.instanceFields
  let setters := (fields.filter (·.type.isErasure "List")).map (setter settings)
  let plan ← (c.methods.filterMap listGetter?).foldlM (planGetter settings c) { methods := setters }
  let (c, tally) ← c.addMethods (plan.methods.map (·.stamp settings option))
  return Changed.noted (c, tally ++ { skipped := plan.skipped }) (settings.classNote option)

/-- Adds list accessors to a model. -/
def run (context : PassContext) (m : CodeModel) : PassRun :=
  .ofSweep option m (exceptEnums (onClass context.settings))

end BeanSynthesis.ListAccessors
