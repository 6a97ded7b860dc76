import BeanSynthesis.Synthesis.Lineage
import BeanSynthesis.Synthesis.Step
import BeanSynthesis.Text.Leading
import BeanSynthesis.TypeExpr.Printer

/-!
# Value carriers

A class carries a value if it has a field `value`, declared by itself or by a superclass. The
superclasses are scanned once for the whole model; classes of the platform are left alone, and a
set of well-known classes carries values that need not be looked up.
-/

namespace BeanSynthesis

/-- The field that makes a class a carrier. -/
def valueField : String := "value"

/-- The package of the core component types. -/
def coreComponentPackage : String := "com.helger.xsds.ccts.cct.schemamodule."

/-- The core component types and what they carry. -/
def coreComponents : List (String × TypeExpr) := [
  ("AmountType", .ofName "java.math.BigDecimal"),
  ("BinaryObjectType", .array (.primitive .byte)),
  ("CodeType", .ofName "java.lang.String"),
  ("DateTimeType", .ofName "java.lang.String"),
  ("IdentifierType", .ofName "java.lang.String"),
  ("MeasureType", .ofName "java.math.BigDecimal"),
  ("NumericType", .ofName "java.math.BigDecimal"),
  ("QuantityType", .ofName "java.math.BigDecimal"),
  ("TextType", .ofName "java.lang.String")]

/-- Whether a class belongs to the platform. -/
def isPlatformClass (name : String) : Bool :=
  (Text.afterStart? "java.".toList name.toList).isSome

/-- What the scan of superclasses has found. -/
structure Carriers where
  /-- The names that have been scanned. -/
  scanned : List String := []
  /-- The classes with a field `value`, and its type. -/
  types : Dict TypeExpr := ∅
  /-- The names that could not be loaded. -/
  unresolved : List String := []
deriving Inhabited

namespace Carriers

/-- Scans one class. -/
def scan (m : CodeModel) (carriers : Carriers) (name : String) : Step Carriers :=
  let carriers := { carriers with scanned := name :: carriers.scanned }
  match m.class? name with
  | some c =>
    match c.field? valueField with
    | some f => pure { carriers with types := carriers.types.insert name f.type }
    | none => pure carriers
  | none =>
    match m.external.get? name with
    | some external =>
      match external.fields.get? valueField with
      | some type => do
        Step.log .debug
          ("External class '" ++ name ++ "' carries a value of type " ++ type.toText)
        return { carriers with types := carriers.types.insert name type }
      | none => pure carriers
    | none => do
      Step.log .warn ("Failed to load super class '" ++ name ++ "'")
      return { carriers with unresolved := carriers.unresolved ++ [name] }

/-- Scans the superclasses of a class, up to the first one that belongs to the platform or has
been scanned before. -/
def scanAncestors (m : CodeModel) (carriers : Carriers) (c : BeanClass) : Step Carriers :=
  ((m.ancestorNames c).takeWhile fun name =>
    !isPlatformClass name && name ∉ carriers.scanned).foldlM (scan m) carriers

/-- The carriers with the core component types that have not been found otherwise. -/
def withCoreComponents (types : Dict TypeExpr) : Dict TypeExpr :=
  coreComponents.foldl
    (fun types (simple, type) =>
      let name := coreComponentPackage ++ simple
      if (types.get? name).isSome then types else types.insert name type) types

/-- Scans the superclasses of all classes of a model. -/
def ofModel (m : CodeModel) : Step Carriers := do
  let carriers ← m.classes.foldlM (scanAncestors m) {}
  return { carriers with types := withCoreComponents carriers.types }

/-- What a class carries: its own field, or that of the nearest superclass that has one. -/
def valueType? (m : CodeModel) (carriers : Carriers) (c : BeanClass) : Option TypeExpr :=
  match c.field? valueField with
  | some f => some f.type
  | none => (m.ancestorNames c).findSome? carriers.types.get?

/-- The names that could not be loaded, as left out. -/
def skipped (carriers : Carriers) : List SkipReason :=
  carriers.unresolved.map .resolveFailed

end Carriers

end BeanSynthesis
