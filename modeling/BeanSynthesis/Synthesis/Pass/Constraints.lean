import BeanSynthesis.Synthesis.Category
import BeanSynthesis.Synthesis.Sweep

/-!
# Validation constraints

What the schema says about a property becomes annotations of its field: whether there must be a
value, how many there may be, and the facets of its simple type. An annotation that the field has
already is not added again. The two dialects differ in whether a bound can be exclusive.
-/

namespace BeanSynthesis

/-- The releases of the validation annotations. -/
inductive ValidationDialect where
  /-- The first release, in which every bound is inclusive. -/
  | jsr303
  /-- The release with exclusive bounds. -/
  | jsr349
deriving DecidableEq, Repr, Inhabited

/-- Whether a bound can be marked as exclusive. -/
def ValidationDialect.supportsExclusiveBounds : ValidationDialect → Bool
  | jsr303 => false
  | jsr349 => true

namespace Constraints

/-- The option of the pass. -/
def option : ValidationDialect → String
  | .jsr303 => "Xph-bean-validation10"
  | .jsr349 => "Xph-bean-validation11"

/-- The literals that stand for "no bound". -/
def sentinels : List String :=
  ["9223372036854775807", "2147483647", "-9223372036854775808", "-2147483648"]

/-- The pattern that matches every text. -/
def matchAllPattern : String := "\\c+"

/-- The container classes whose contents are validated as well. -/
def nestedContainers : List String :=
  ["java.util.Collection", "java.util.Set", "java.util.List", "java.util.Map"]

/-- What the schema gives for a field. -/
inductive Finding where
  | constraint (mark : Annotation)
  /-- A bound that stands for no bound. -/
  | sentinel (facet literal : String)
deriving Repr

/-- A constraint without parameters. -/
def plain (v : ValidationSettings) (name : String) : Annotation := .ofName (v.constraint name)

/-- A constraint with these parameters. -/
def withParams (v : ValidationSettings) (name : String)
    (params : List (String × AnnotationValue)) : Annotation :=
  { type := .ofName (v.constraint name), params }

/-- Whether the contents of values of a type are validated as well. -/
def isNested (m : CodeModel) (t : TypeExpr) : Bool :=
  match t with
  | .array _ => true
  | .named name _ => name ∈ nestedContainers || m.isGenerated name
  | _ => false

/-- Whether the length of values of a type is bounded by length facets. -/
def isTextual (t : TypeExpr) : Bool := t.erasureName == "String" || t.isArray

/-- The constraint on the length of a text. -/
def lengthFindings (v : ValidationSettings) (t : TypeExpr) (s : SimpleType) : List Finding :=
  let min := s.intFacet? "minLength"
  let max := s.intFacet? "maxLength"
  if isTextual t && (min.isSome || max.isSome) then
    [.constraint (withParams v "Size"
      ((min.toList.map fun n => ("min", .int n)) ++ (max.toList.map fun n => ("max", .int n))))]
  else []

/-- The constraint on the form of a text. -/
def patternFindings (v : ValidationSettings) (s : SimpleType) : List Finding :=
  match s.facet? "pattern" with
  | some pattern =>
    if pattern == matchAllPattern then []
    else [.constraint (withParams v "Pattern" [("regexp", .str pattern)])]
  | none => []

/-- The constraint that a facet for a bound gives. -/
def boundFindings (v : ValidationSettings) (dialect : ValidationDialect) (s : SimpleType)
    (facet constraint : String) (exclusive : Bool) : List Finding :=
  match s.facet? facet with
  | none => []
  | some literal =>
    if literal ∈ sentinels then [.sentinel facet literal]
    else
      [.constraint (withParams v constraint (("value", .str literal) ::
        if exclusive && dialect.supportsExclusiveBounds then [("inclusive", .bool false)] else []))]

/-- The constraints on the value of a number. An inclusive bound comes before an exclusive one. -/
def rangeFindings (v : ValidationSettings) (dialect : ValidationDialect) (s : SimpleType) :
    List Finding :=
  boundFindings v dialect s "maxInclusive" "DecimalMax" false ++
    boundFindings v dialect s "minInclusive" "DecimalMin" false ++
    boundFindings v dialect s "maxExclusive" "DecimalMax" true ++
    boundFindings v dialect s "minExclusive" "DecimalMin" true

/-- The constraint on the digits of a number. -/
def digitFindings (v : ValidationSettings) (s : SimpleType) : List Finding :=
  match s.intFacet? "totalDigits" with
  | none => []
  | some total =>
    match (s.intFacet? "fractionDigits").filter fun fraction => fitsInt32 (total - fraction) with
    | some fraction =>
      [.constraint (withParams v "Digits" [("integer", .int (total - fraction)),
        ("fraction", .int fraction)])]
    | none => [.constraint (withParams v "Digits" [("integer", .int total)])]

/-- The constraints that the facets of a simple type give for a field of type `t`. -/
def facetFindings (v : ValidationSettings) (dialect : ValidationDialect) (m : CodeModel)
    (t : TypeExpr) (s : SimpleType) : List Finding :=
  lengthFindings v t s ++ patternFindings v s ++
    (if m.isNumeric t then rangeFindings v dialect s else []) ++ digitFindings v s

/-- The constraint on how many values there may be. -/
def occurrenceFindings (v : ValidationSettings) (minOccurs : Nat) : MaxOccurs → List Finding
  | .one => []
  | .bounded max =>
    if max > 1 then
      [.constraint (withParams v "Size" [("min", .int minOccurs), ("max", .int max)])]
    else []
  | .unbounded =>
    if minOccurs > 0 then [.constraint (withParams v "Size" [("min", .int minOccurs)])] else []

/-- A constraint that there must be a value, if that is so. -/
def requiredFindings (v : ValidationSettings) (required : Bool) : List Finding :=
  if required then [.constraint (plain v "NotNull")] else []

/-- What a property gives for its field of type `t`. -/
def findings (v : ValidationSettings) (dialect : ValidationDialect) (m : CodeModel) (t : TypeExpr)
    (kind : PropertyKind) : List Finding :=
  let facets (s : Option SimpleType) : List Finding :=
    s.toList.flatMap (facetFindings v dialect m t)
  match kind with
  | .element minOccurs maxOccurs required term =>
    requiredFindings v (minOccurs ≥ 1 && required) ++ occurrenceFindings v minOccurs maxOccurs ++
      (if isNested m t then [.constraint (.ofName v.valid)] else []) ++
      match term with
      | .element s => facets s
      | .modelGroup => []
      | .unsupported _ => []
  | .attr required s => requiredFindings v required ++ facets s
  | .value s => facets s
  | .reference => []

/-- The description of a construct that gives nothing. -/
def unsupported? : PropertyKind → Option String
  | .element _ _ _ (.unsupported description) => some description
  | _ => none

/-- Whether a property was made for a reference to other elements. -/
def isReference : PropertyKind → Bool
  | .reference => true
  | _ => false

/-- Applies one finding to a field. -/
def applyFinding (f : Field) : Finding → Step (Field × Nat)
  | .sentinel facet literal => do
    Step.log .debug ("Ignoring " ++ facet ++ " sentinel '" ++ literal ++ "' on '" ++ f.name ++ "'")
    return (f, 0)
  | .constraint a =>
    if hasAnnotation f.annotations a.type.name then pure (f, 0)
    else do
      Step.log .debug ("@" ++ a.type.simpleName ++ " on field '" ++ f.name ++ "'")
      return ({ f with annotations := f.annotations ++ [a] }, 1)

/-- Applies findings one after the other; the number says how many constraints were added. -/
def applyFindings (f : Field) : List Finding → Step (Field × Nat)
  | [] => pure (f, 0)
  | finding :: rest => do
    let (f, first) ← applyFinding f finding
    let (f, others) ← applyFindings f rest
    return (f, first + others)

/-- Changes the first field of a name. -/
def updateField (name : String) (f : Field) : List Field → List Field
  | [] => []
  | g :: rest => if g.name == name then f :: rest else g :: updateField name f rest

/-- Applies a property to its field. -/
def applyProperty (v : ValidationSettings) (dialect : ValidationDialect) (m : CodeModel)
    (c : BeanClass) (p : Property) : Step Changed :=
  match c.field? p.name with
  | none => pure (c, {})
  | some f => do
    let (f, added) ← applyFindings f (findings v dialect m f.type p.kind)
    let c := { c with fields := updateField p.name f c.fields }
    match unsupported? p.kind with
    | none => return (c, { membersAdded := added })
    | some description => do
      Step.log .warn ("Unsupported particle term '" ++ description ++ "'")
      return (c, {
        membersAdded := added
        skipped := [.unsupported c.name p.name description] })

/-- Applies properties one after the other. -/
def applyProperties (v : ValidationSettings) (dialect : ValidationDialect) (m : CodeModel)
    (c : BeanClass) : List Property → Step Changed
  | [] => pure (c, {})
  | p :: rest => do
    let (c, first) ← applyProperty v dialect m c p
    let (c, others) ← applyProperties v dialect m c rest
    return (c, first ++ others)

/-- Applies all properties of a class. None is applied if one of them has no field. -/
def onClass (settings : Settings) (dialect : ValidationDialect) (m : CodeModel) (c : BeanClass) :
    Step Changed :=
  let properties := c.properties.filter fun p => !isReference p.kind
  match properties.find? fun p => (c.field? p.name).isNone with
  | some p => Step.fail (.missingField c.name p.name)
  | none => do
    let (c, tally) ← applyProperties settings.validation dialect m c properties
    Step.logIf (tally.membersAdded > 0) .debug
      (Nat.repr tally.membersAdded ++ " constraints added to " ++ c.name)
    return (c, tally ++ .touchIf (tally.membersAdded > 0))

/-- Adds validation constraints to a model. -/
def run (dialect : ValidationDialect) (context : PassContext) (m : CodeModel) : PassRun :=
  .ofSweep (option dialect) m (exceptEnums (onClass context.settings dialect m))

end Constraints

end BeanSynthesis
