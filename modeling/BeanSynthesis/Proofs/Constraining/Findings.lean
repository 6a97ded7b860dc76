import BeanSynthesis.Proofs.Constraining.Fields

/-!
# Constraints class by class

What a property gives for its field comes in families, each of which asks for annotations of one
class. A field receives the first annotation of a class that is asked for, unless it has one, so
what becomes of a class of annotations is told by the families that ask for it.
-/

namespace BeanSynthesis

/-- The simple type of what a property holds, if it has one. -/
def PropertyKind.simpleType? : PropertyKind → Option SimpleType
  | .element _ _ _ (.element s) => s
  | .attr _ s => s
  | .value s => s
  | _ => none

/-- The annotations of a class on the field of this name, in the class of this name. -/
def CodeModel.annotationsOf? (m : CodeModel) (className fieldName annotation : String) :
    Option (List Annotation) :=
  ((m.class? className).bind (·.field? fieldName)).map fun f =>
    f.annotations.filter (Constraints.markClass · = annotation)

namespace ValidationSettings

/-- A constraint is known by its name. -/
theorem constraint_injective (v : ValidationSettings) : Function.Injective v.constraint := by
  intro name other h
  have hlist := congrArg String.toList h
  simp only [constraint, String.toList_append, List.append_cancel_left_eq] at hlist
  exact String.toList_injective hlist

/-- The mark of validity is no constraint. -/
theorem valid_ne_constraint (v : ValidationSettings) (name : String) :
    v.valid ≠ v.constraint name := by
  intro h
  have hlist := congrArg String.toList h
  simp only [valid, constraint, String.toList_append, List.append_assoc,
    List.append_cancel_left_eq] at hlist
  simp at hlist

end ValidationSettings

namespace Constraints

variable {v : ValidationSettings} {dialect : ValidationDialect} {context : PassContext}
  {m : CodeModel} {c : BeanClass} {f : Field} {p : Property} {t : TypeExpr} {s : SimpleType}
  {found others : List Finding} {className other name : String}

/-! ## Families of findings -/

/-- Findings that ask for annotations of one class only. -/
def AskFor (className : String) (found : List Finding) : Prop :=
  ∀ a ∈ found.filterMap Finding.mark?, markClass a = className

/-- The first annotation of a class that findings ask for. -/
def first? (className : String) (found : List Finding) : Option Annotation :=
  (found.filterMap Finding.mark?).find? (markClass · = className)

/-- The first finding of a class is looked for in the one list before the other. -/
@[simp] theorem first?_append :
    first? className (found ++ others) = (first? className found).or (first? className others) := by
  rw [first?, List.filterMap_append, List.find?_append]
  rfl

/-- Findings that ask for another class have none of this one. -/
theorem AskFor.first?_eq_none (h : AskFor other found) (hne : other ≠ className) :
    first? className found = none :=
  List.find?_eq_none.mpr fun a ha => by simpa [h a ha] using hne

/-- Findings that ask for another constraint have none of this one. -/
theorem AskFor.first?_constraint_eq_none (h : AskFor (v.constraint other) found)
    (hne : other ≠ name) : first? (v.constraint name) found = none :=
  h.first?_eq_none (v.constraint_injective.ne hne)

/-- Of findings that all ask for the same class the first one counts. -/
theorem AskFor.first?_eq_head? (h : AskFor className found) :
    first? className found = (found.filterMap Finding.mark?).head? := by
  unfold first?
  cases hfound : found.filterMap Finding.mark? with
  | nil => rfl
  | cons a rest =>
    have ha : markClass a = className := h a (by simp [hfound])
    rw [List.find?_cons_of_pos (by simpa using ha), List.head?_cons]

/-- Being required asks for the constraint against null. -/
theorem requiredFindings_askFor (required : Bool) :
    AskFor (v.constraint "NotNull") (requiredFindings v required) := by
  unfold requiredFindings
  split <;> simp [AskFor, Finding.mark?, markClass, plain, Annotation.ofName, ClassRef.ofName]

/-- The numbers of occurrences ask for the constraint of size. -/
theorem occurrenceFindings_askFor (minOccurs : Nat) (maxOccurs : MaxOccurs) :
    AskFor (v.constraint "Size") (occurrenceFindings v minOccurs maxOccurs) := by
  unfold occurrenceFindings
  split
  · simp [AskFor]
  · split <;> simp [AskFor, Finding.mark?, markClass, withParams, ClassRef.ofName]
  · split <;> simp [AskFor, Finding.mark?, markClass, withParams, ClassRef.ofName]

/-- Lengths ask for the constraint of size. -/
theorem lengthFindings_askFor : AskFor (v.constraint "Size") (lengthFindings v t s) := by
  unfold lengthFindings
  dsimp only
  split <;> simp [AskFor, Finding.mark?, markClass, withParams, ClassRef.ofName]

/-- Patterns ask for the constraint of patterns. -/
theorem patternFindings_askFor : AskFor (v.constraint "Pattern") (patternFindings v s) := by
  unfold patternFindings
  split
  · split <;> simp [AskFor, Finding.mark?, markClass, withParams, ClassRef.ofName]
  · simp [AskFor]

/-- A facet for a bound asks for the constraint of that bound. -/
theorem boundFindings_askFor (facet : String) (exclusive : Bool) :
    AskFor (v.constraint name) (boundFindings v dialect s facet name exclusive) := by
  unfold boundFindings
  split
  · simp [AskFor]
  · split <;> simp [AskFor, Finding.mark?, markClass, withParams, ClassRef.ofName]

/-- Facets for digits ask for the constraint of digits. -/
theorem digitFindings_askFor : AskFor (v.constraint "Digits") (digitFindings v s) := by
  unfold digitFindings
  split
  · simp [AskFor]
  · split <;> simp [AskFor, Finding.mark?, markClass, withParams, ClassRef.ofName]

/-- The facets of a range ask for its bounds only. -/
theorem first?_range_eq_none (hmax : "DecimalMax" ≠ name) (hmin : "DecimalMin" ≠ name) :
    first? (v.constraint name)
      (if m.isNumeric t then rangeFindings v dialect s else []) = none := by
  have hupper : ∀ facet exclusive, first? (v.constraint name)
      (boundFindings v dialect s facet "DecimalMax" exclusive) = none := fun facet exclusive =>
    (boundFindings_askFor facet exclusive).first?_constraint_eq_none hmax
  have hlower : ∀ facet exclusive, first? (v.constraint name)
      (boundFindings v dialect s facet "DecimalMin" exclusive) = none := fun facet exclusive =>
    (boundFindings_askFor facet exclusive).first?_constraint_eq_none hmin
  split
  · simp only [rangeFindings, first?_append, hupper, hlower, Option.or_none]
  · rfl

/-- What a property gives apart from the facets of its simple type. -/
def particulars (v : ValidationSettings) (m : CodeModel) (t : TypeExpr) :
    PropertyKind → List Finding
  | .element minOccurs maxOccurs required _ =>
    requiredFindings v (minOccurs ≥ 1 && required) ++ occurrenceFindings v minOccurs maxOccurs ++
      if isNested m t then [.constraint (.ofName v.valid)] else []
  | .attr required _ => requiredFindings v required
  | .value _ => []
  | .reference => []

/-- The findings of a property are those of its kind and those of its facets. -/
theorem findings_split (v : ValidationSettings) (dialect : ValidationDialect) (m : CodeModel)
    (t : TypeExpr) (kind : PropertyKind) :
    findings v dialect m t kind = particulars v m t kind ++
      kind.simpleType?.toList.flatMap (facetFindings v dialect m t) := by
  cases kind with
  | element minOccurs maxOccurs required term =>
    cases term <;> simp [findings, particulars, PropertyKind.simpleType?]
  | attr required s => simp [findings, particulars, PropertyKind.simpleType?]
  | value s => simp [findings, particulars, PropertyKind.simpleType?]
  | reference => rfl

/-- A nested type asks for the mark of validity. -/
theorem nestedFindings_askFor (nested : Bool) :
    AskFor v.valid (if nested then [.constraint (.ofName v.valid)] else []) := by
  cases nested <;> simp [AskFor, Finding.mark?, markClass, Annotation.ofName, ClassRef.ofName]

/-- Only the presence and the number of values are told apart from the facets. -/
theorem first?_particulars (hpresence : name ≠ "NotNull") (hnumber : name ≠ "Size")
    (kind : PropertyKind) : first? (v.constraint name) (particulars v m t kind) = none := by
  have hrequired : ∀ required, first? (v.constraint name) (requiredFindings v required) = none :=
    fun required => (requiredFindings_askFor required).first?_constraint_eq_none hpresence.symm
  cases kind with
  | element minOccurs maxOccurs required term =>
    have hoccurrence := (occurrenceFindings_askFor minOccurs maxOccurs).first?_constraint_eq_none
      hnumber.symm (v := v)
    have hnested := (nestedFindings_askFor (isNested m t)).first?_eq_none
      (v.valid_ne_constraint name)
    simp only [particulars, first?_append, hrequired, hoccurrence, hnested, Option.or_none]
  | attr required s => exact hrequired required
  | value s => rfl
  | reference => rfl

/-- All other annotations come from the facets of the simple type. -/
theorem first?_findings {kind : PropertyKind} (hs : kind.simpleType? = some s)
    (hpresence : name ≠ "NotNull") (hnumber : name ≠ "Size") :
    first? (v.constraint name) (findings v dialect m t kind) =
      first? (v.constraint name) (facetFindings v dialect m t s) := by
  rw [findings_split, hs, first?_append, first?_particulars hpresence hnumber, Option.none_or]
  simp only [Option.toList_some, List.flatMap_singleton]

/-! ## The field that one property describes -/

/-- A field of a class, the first one of its name, that one property describes and no other. -/
structure Sole (m : CodeModel) (c : BeanClass) (f : Field) (p : Property) : Prop where
  valid : m.validate = .ok ()
  mem : c ∈ m.classes
  plain : ¬c.isEnum
  first : c.field? f.name = some f
  sole : (constraining c).filter (·.name == f.name) = [p]

/-- The annotations of a class on such a field, if it has had none, are the first one that its
property asks for. -/
theorem Sole.annotationsOf?_run (h : Sole m c f p) {report : PassReport}
    (hok : (run dialect context m).outcome = .ok report)
    (hfresh : ¬ hasAnnotation f.annotations className) :
    (run dialect context m).model.annotationsOf? c.name f.name className =
      some (first? className
        (findings context.settings.validation dialect m f.type p.kind)).toList := by
  obtain ⟨d, hd, hf⟩ := run_field h.valid hok h.mem h.plain h.first
  have hdemanded : demanded context.settings.validation dialect m (constraining c) f =
      marks context.settings.validation dialect m p f.type := by
    rw [demanded, h.sole, List.flatMap_singleton]
  rw [CodeModel.annotationsOf?, hd, Option.bind_some, hf, Option.map_some, hdemanded,
    filter_markField hfresh]
  rfl

end Constraints

end BeanSynthesis
