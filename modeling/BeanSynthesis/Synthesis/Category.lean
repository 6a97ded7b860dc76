import BeanSynthesis.Model.Basic

/-!
# Categories of types

How values of a type are compared, hashed and copied hangs on the category of the type. It is read
off the type and the model, except that for some classes outside the model the question is
whether they are enumerations; that answer comes from a table of external classes, or from what
is remembered of it.
-/

namespace BeanSynthesis

/-- How the values of a type are compared, hashed and copied. -/
inductive TypeCategory where
  | primitive
  | immutableValue
  | enumValue
  | arrayOfImmutable
  | externallyCloneable
  | wrappedUnionElement
  | collectionOfWrappedUnionElement
  | collectionOfAny
  | collectionOfOther
  | genericObject
  | nestedGeneratedOrExternal
deriving DecidableEq, Repr, Inhabited

namespace TypeCategory

/-- Whether an object and its copy may share values of the category. -/
def isShareable : TypeCategory → Bool
  | primitive => true
  | immutableValue => true
  | enumValue => true
  | genericObject => true
  | _ => false

/-- Whether values of the category are collections. -/
def isCollection : TypeCategory → Bool
  | collectionOfWrappedUnionElement => true
  | collectionOfAny => true
  | collectionOfOther => true
  | _ => false

end TypeCategory

/-- The simple names of external classes with immutable values. -/
def immutableValueNames : List String := [
  "BigDecimal", "BigInteger", "Boolean", "Byte", "Character", "DataHandler", "Double", "Duration",
  "Element", "Float", "Integer", "LocalDate", "LocalDateTime", "LocalTime", "Long", "OffsetDate",
  "OffsetDateTime", "OffsetTime", "Period", "PeriodDuration", "QName", "Serializable", "Short",
  "String", "W3CEndpointReference", "XMLOffsetDate", "XMLOffsetDateTime", "XMLOffsetTime",
  "ZonedDateTime"]

/-- The simple name of the external class whose mutable values can be cloned. -/
def externallyCloneableName : String := "XMLGregorianCalendar"

/-- The simple names that are numeric in small and capital letters alike. -/
def numericNames : List String :=
  ["bigdecimal", "biginteger", "string", "byte", "short", "int", "long"]

/-- The number classes of the platform. -/
def platformNumbers : List String := [
  "java.lang.Byte", "java.lang.Short", "java.lang.Integer", "java.lang.Long", "java.lang.Float",
  "java.lang.Double", "java.math.BigDecimal", "java.math.BigInteger",
  "java.util.concurrent.atomic.AtomicInteger", "java.util.concurrent.atomic.AtomicLong",
  "java.util.concurrent.atomic.DoubleAccumulator", "java.util.concurrent.atomic.DoubleAdder",
  "java.util.concurrent.atomic.LongAccumulator", "java.util.concurrent.atomic.LongAdder"]

namespace TypeExpr

/-- Whether the type is the class of all objects. -/
def isObject : TypeExpr → Bool
  | named name _ => name == "java.lang.Object" || name == "Object"
  | unbounded => true
  | _ => false

/-- Whether the type is a wildcard with a bound. -/
def isBounded : TypeExpr → Bool
  | bounded _ => true
  | _ => false

/-- The element type that a list type names, `java.lang.Object` if it names none. -/
def elementOrObject (t : TypeExpr) : TypeExpr :=
  match t.firstTypeArg? with
  | some arg => arg.upperBound
  | none => ofName "java.lang.Object"

end TypeExpr

namespace CodeModel

/-- The category of a list with these type arguments. -/
def listCategory (args : List TypeExpr) : TypeCategory :=
  match args.head?.map TypeExpr.upperBound with
  | some element =>
    if element.isErasure "JAXBElement" then .collectionOfWrappedUnionElement
    else if element.isObject then .collectionOfAny
    else .collectionOfOther
  | none => .collectionOfOther

/-- What decides the category of a class: nothing outside the model, or whether an external class
is an enumeration. -/
inductive ClassVerdict where
  | settled (category : TypeCategory)
  /-- An enumeration or not; the answer decides between two categories. -/
  | asksExternal

/-- What decides the category of the class of this name, with these type arguments. -/
def classVerdict (m : CodeModel) (name : String) (args : List TypeExpr) : ClassVerdict :=
  if simpleName name == "List" then .settled (listCategory args)
  else if simpleName name == "JAXBElement" then .settled .wrappedUnionElement
  else if (TypeExpr.named name args).isObject then .settled .genericObject
  else
    match m.class? name with
    | some c => .settled (if c.isEnum then .enumValue else .nestedGeneratedOrExternal)
    | none =>
      if simpleName name ∈ immutableValueNames then .settled .immutableValue
      else if simpleName name == externallyCloneableName then .settled .externallyCloneable
      else .asksExternal

/-- The category of a type, where `isEnum` says which external classes are enumerations. -/
def categoryWith (m : CodeModel) (isEnum : String → Bool) : TypeExpr → TypeCategory
  | .void => .nestedGeneratedOrExternal
  | .primitive _ => .primitive
  | .array element =>
    if (categoryWith m isEnum element).isShareable then .arrayOfImmutable
    else .nestedGeneratedOrExternal
  | .unbounded => .genericObject
  | .bounded bound =>
    if bound.isBounded then .nestedGeneratedOrExternal else categoryWith m isEnum bound
  | .named name args =>
    match m.classVerdict name args with
    | .settled category => category
    | .asksExternal => if isEnum name then .enumValue else .nestedGeneratedOrExternal

/-- The external class about which the category of a type asks, if it asks about one. -/
def externalAsked? (m : CodeModel) : TypeExpr → Option String
  | .array element => m.externalAsked? element
  | .bounded bound => if bound.isBounded then none else m.externalAsked? bound
  | .named name args =>
    match m.classVerdict name args with
    | .settled _ => none
    | .asksExternal => some name
  | _ => none

/-- Whether an external class is an enumeration; one that cannot be loaded is none. -/
def isExternalEnum (m : CodeModel) (name : String) : Bool :=
  match m.external.get? name with
  | some c => c.isEnum
  | none => false

/-- The category of a type. -/
def category (m : CodeModel) (t : TypeExpr) : TypeCategory := m.categoryWith m.isExternalEnum t

/-- Whether bounds on numbers apply to values of a type. -/
def isNumeric (m : CodeModel) (t : TypeExpr) : Bool :=
  match t.upperBound with
  | .primitive p => p != .boolean && p != .char
  | .named name _ =>
    String.ofList ((simpleName name).toList.map Char.toLower) ∈ numericNames ||
      name ∈ platformNumbers ||
      match m.external.get? name with
      | some c => c.isNumber
      | none => false
  | _ => false

end CodeModel

end BeanSynthesis
