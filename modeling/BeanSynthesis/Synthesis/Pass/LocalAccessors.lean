import BeanSynthesis.Naming
import BeanSynthesis.Synthesis.Fields
import BeanSynthesis.Synthesis.Sweep

/-!
# Local views of dates and times

A field with a date or time and an offset gets a getter and a setter that work with the date or
time alone.
-/

namespace BeanSynthesis

/-- The date or time type without offset that goes with one with offset. -/
structure LocalCompanion where
  type : TypeExpr
  /-- The method that drops the offset. -/
  conversion : String
  /-- Whether a value is made at the offset of UTC rather than without an offset. -/
  usesUtc : Bool
deriving DecidableEq, Repr

/-- The companion of a type, if it is a date or time with an offset. -/
def localCompanion? (t : TypeExpr) : Option LocalCompanion :=
  match t with
  | .named name _ =>
    match simpleName name with
    | "OffsetDate" => some ⟨.ofName "java.time.LocalDate", "toLocalDate", true⟩
    | "XMLOffsetDate" => some ⟨.ofName "java.time.LocalDate", "toLocalDate", false⟩
    | "OffsetTime" => some ⟨.ofName "java.time.LocalTime", "toLocalTime", true⟩
    | "XMLOffsetTime" => some ⟨.ofName "java.time.LocalTime", "toLocalTime", false⟩
    | "OffsetDateTime" => some ⟨.ofName "java.time.LocalDateTime", "toLocalDateTime", true⟩
    | "XMLOffsetDateTime" => some ⟨.ofName "java.time.LocalDateTime", "toLocalDateTime", false⟩
    | _ => none
  | _ => none

namespace LocalAccessors

/-- The option of the pass. -/
def option : String := "Xph-offset-dt-extension"

/-- The getter of the local view. -/
def getter (settings : Settings) (f : InstanceField) (companion : LocalCompanion) : Method where
  name := Naming.getterName f.type f.name ++ "Local"
  returnType := companion.type
  annotations := [.ofName settings.runtime.nullable]
  body := some [.give ((Expr.ident f.name).nullOr
    ((Expr.ident f.name).invoke companion.conversion []))]
  javadoc.returns := some ("The " ++ companion.type.erasureName ++ " representation of " ++
    f.name ++ ". May be <code>null</code>.")

/-- The offset that a local value is combined with. -/
def offset (companion : LocalCompanion) : Expr :=
  if companion.usesUtc then .staticField (.ofName "java.time.ZoneOffset") "UTC" else .nullLit

/-- The name of the class of a field. -/
def className (t : TypeExpr) : String :=
  match t with
  | .named name _ => name
  | _ => ""

/-- The setter of the local view. -/
def setter (settings : Settings) (f : InstanceField) (companion : LocalCompanion) : Method where
  name := Naming.setterName f.name
  returnType := .void
  params := [(Param.final "aValue" companion.type).annotate (.ofName settings.runtime.nullable)]
  body := some [.assign (.ident f.name) ((Expr.ident "aValue").nullOr
    (.static (className f.type) "of" [.ident "aValue", offset companion]))]
  javadoc.params := [("aValue", "The " ++ companion.type.erasureName ++
    " to set. May be <code>null</code>.")]

/-- The methods for a field. -/
def fieldMethods (settings : Settings) (f : InstanceField) : List Method :=
  match localCompanion? f.type with
  | some companion => [getter settings f companion, setter settings f companion]
  | none => []

/-- Adds the methods for all fields of a class. -/
def onClass (settings : Settings) (c : BeanClass) : Step Changed := do
  let fields ← c.instanceFields
  let changed ← c.addMethods ((fields.flatMap (fieldMethods settings)).map
    (·.stamp settings option))
  return changed.noted (settings.classNote option)

/-- Adds local accessors to a model. -/
def run (context : PassContext) (m : CodeModel) : PassRun :=
  .ofSweep option m (exceptEnums (onClass context.settings))

end LocalAccessors

end BeanSynthesis
