import BeanSynthesis.Proofs.Constraining.Numbers
import BeanSynthesis.Proofs.Constraining.Numerals

/-!
# Length and digits

The facets for the length of texts and for the digits of numbers become constraints with just these
numbers. The difference that tells the digits before the point is one of integers, and where it is
no 32-bit integer the digits after the point are left out. No literal ends the pass.
-/

namespace BeanSynthesis.Constraints

variable {v : ValidationSettings} {settings : Settings} {dialect : ValidationDialect}
  {context : PassContext} {m : CodeModel} {c : BeanClass} {f : Field} {t : TypeExpr}
  {s : SimpleType} {kind : PropertyKind} {name : String}

/-! ## Classes that are reached -/

private theorem isTreatable_iff : isTreatable c ↔
    (¬c.isEnum → ∀ p ∈ constraining c, (c.field? p.name).isSome) := by
  have hbacked : c.unbackedProperties = [] ↔
      ∀ p ∈ constraining c, (c.field? p.name).isSome := by
    rw [← List.head?_eq_none_iff, ← find?_unbacked, List.find?_eq_none]
    refine forall₂_congr fun p _ => ?_
    simp [Option.isSome_iff_ne_none]
  rw [isTreatable, Bool.or_eq_true, List.isEmpty_iff, hbacked, ← not_imp_not]
  tauto

/-- Nothing but a property without a field ends the pass. -/
theorem run_ok_iff (dialect : ValidationDialect) (context : PassContext) (m : CodeModel) :
    (∃ report, (run dialect context m).outcome = .ok report) ↔
      ∀ c ∈ m.classes, ¬c.isEnum → ∀ p ∈ constraining c, (c.field? p.name).isSome := by
  rw [← failure?_eq_none, run, PassRun.ofSweep, failure?_map, failure?_sweep,
    List.findSome?_eq_none_iff]
  refine forall₂_congr fun c _ => ?_
  rw [← isTreatable_iff, ← failure?_exceptEnums_onClass, Option.isNone_iff_eq_none]

/-- The classes that the pass constrains: those for which no class up to and including them has a
property that lacks its field, unless it is an enumeration. -/
def reached (m : CodeModel) : List BeanClass := m.classes.takeWhile isTreatable

private theorem run_class {i : Nat} (hc : (reached m)[i]? = some c) :
    (run dialect context m).model.classes[i]? =
      some (constrained context.settings dialect m c) := by
  obtain ⟨hi, rfl⟩ := List.getElem?_eq_some_iff.mp hc
  rw [run_classes]
  change (_ ++ _)[i]? = _
  rw [List.getElem?_append_left (by simpa [reached] using hi), List.getElem?_map]
  exact congrArg _ hc

/-! ## What the facets ask for -/

/-- The annotations that facets give for the length of a text. -/
theorem first?_length (t : TypeExpr) (s : SimpleType) :
    (first? (v.constraint "Size") (lengthFindings v t s)).toList =
      if (t.erasureName = "String" ∨ t.isArray) ∧
          ((s.intFacet? "minLength").isSome ∨ (s.intFacet? "maxLength").isSome) then
        [withParams v "Size" (((s.intFacet? "minLength").toList.map fun n => ("min", .int n)) ++
          (s.intFacet? "maxLength").toList.map fun n => ("max", .int n))]
      else [] := by
  rw [lengthFindings_askFor.first?_eq_head?, lengthFindings]
  split <;> split <;> simp_all [Finding.mark?, isTextual]

private theorem first?_digits (hs : kind.simpleType? = some s) :
    first? (v.constraint "Digits") (findings v dialect m t kind) =
      ((digitFindings v s).filterMap Finding.mark?).head? := by
  have hlength : first? (v.constraint "Digits") (lengthFindings v t s) = none :=
    lengthFindings_askFor.first?_constraint_eq_none (by decide)
  have hpattern : first? (v.constraint "Digits") (patternFindings v s) = none :=
    patternFindings_askFor.first?_constraint_eq_none (by decide)
  have hrange : first? (v.constraint "Digits")
      (if m.isNumeric t then rangeFindings v dialect s else []) = none :=
    first?_range_eq_none (by decide) (by decide)
  rw [first?_findings hs (by decide) (by decide), facetFindings, first?_append, first?_append,
    first?_append, hlength, hpattern, hrange, Option.none_or, Option.none_or, Option.none_or,
    digitFindings_askFor.first?_eq_head?]

/-! ## The constraints of a field -/

/-- A field of a class, the first one of its name, that has no constraint on its length or on its
digits and that one property describes and no other: an attribute or a value of a simple type. -/
structure Faceted (v : ValidationSettings) (c : BeanClass) (f : Field) (s : SimpleType) :
    Prop where
  first : c.field? f.name = some f
  sole : ∃ p, (constraining c).filter (·.name == f.name) = [p] ∧
    (p.kind = .value (some s) ∨ ∃ required, p.kind = .attr required (some s))
  unsized : ¬ hasAnnotation f.annotations (v.constraint "Size")
  undivided : ¬ hasAnnotation f.annotations (v.constraint "Digits")

/-- The annotations for a constraint on a field. -/
def marksOf (v : ValidationSettings) (name : String) (f : Field) : List Annotation :=
  f.annotations.filter (markClass · = v.constraint name)

/-- What the facets of a simple type say about length and digits holds of a field. -/
structure CarriesFacets (v : ValidationSettings) (s : SimpleType) (f : Field) : Prop where
  length : marksOf v "Size" f =
    if (f.type.erasureName = "String" ∨ f.type.isArray) ∧
        ((s.intFacet? "minLength").isSome ∨ (s.intFacet? "maxLength").isSome) then
      [{ type := .ofName (v.constraint "Size")
         params := ((s.intFacet? "minLength").toList.map fun n => ("min", .int n)) ++
          (s.intFacet? "maxLength").toList.map fun n => ("max", .int n) }]
    else []
  noDigits : s.intFacet? "totalDigits" = none → marksOf v "Digits" f = []
  /-- The digits before the point are all but those after it. -/
  digits : ∀ total fraction, s.intFacet? "totalDigits" = some total →
    s.intFacet? "fractionDigits" = some fraction →
    -2 ^ 31 ≤ total - fraction ∧ total - fraction < 2 ^ 31 → marksOf v "Digits" f =
      [{ type := .ofName (v.constraint "Digits")
         params := [("integer", .int (total - fraction)), ("fraction", .int fraction)] }]
  /-- Without those after it, all digits are before the point. -/
  integer : ∀ total, s.intFacet? "totalDigits" = some total →
    (∀ fraction, s.intFacet? "fractionDigits" = some fraction →
      ¬(-2 ^ 31 ≤ total - fraction ∧ total - fraction < 2 ^ 31)) → marksOf v "Digits" f =
      [{ type := .ofName (v.constraint "Digits"), params := [("integer", .int total)] }]
  holdsInts : ∀ name ∈ ["Size", "Digits"], ∀ a ∈ marksOf v name f, a.HoldsInts

variable {g : Field}

/-- Annotations that are those which the findings of a simple type give tell its facets. -/
theorem carriesFacets_of_marks
    (hsize : marksOf v "Size" g =
      (first? (v.constraint "Size") (lengthFindings v g.type s)).toList)
    (hdigits : marksOf v "Digits" g =
      ((digitFindings v s).filterMap Finding.mark?).head?.toList) : CarriesFacets v s g where
  length := by
    rw [hsize, first?_length]
    rfl
  noDigits htotal := by
    rw [hdigits, digitFindings, htotal]
    rfl
  digits total fraction htotal hfraction hfits := by
    have hfilter : (some fraction).filter (fun n => fitsInt32 (total - n)) = some fraction :=
      Option.filter_some_pos ((fitsInt32_iff _).mpr hfits)
    rw [hdigits, digitFindings, htotal, hfraction]
    simp only [hfilter]
    rfl
  integer total htotal hexceeds := by
    have hfilter : (s.intFacet? "fractionDigits").filter (fun n => fitsInt32 (total - n)) = none :=
      Option.filter_eq_none_iff.mpr fun fraction hfraction hfits =>
        hexceeds fraction hfraction ((fitsInt32_iff _).mp hfits)
    rw [hdigits, digitFindings, htotal]
    simp only [hfilter]
    rfl
  holdsInts := by
    refine List.forall_mem_cons.mpr ⟨fun a ha => ?_, List.forall_mem_singleton.mpr fun a ha => ?_⟩
    · rw [hsize] at ha
      exact lengthFindings_holdInts a (List.mem_of_find?_eq_some (Option.mem_toList.mp ha))
    · rw [hdigits] at ha
      exact digitFindings_holdInts a (List.mem_of_mem_head? (Option.mem_toList.mp ha))

/-- Such a field tells the facets when its class has been treated. -/
theorem Faceted.constrained_field? (h : Faceted settings.validation c f s) (hplain : ¬c.isEnum) :
    ∃ g, (constrained settings dialect m c).field? f.name = some g ∧ g.type = f.type ∧
      CarriesFacets settings.validation s g := by
  obtain ⟨p, hsole, hkind⟩ := h.sole
  have hs : p.kind.simpleType? = some s := by
    rcases hkind with hkind | ⟨required, hkind⟩ <;> rw [hkind] <;> rfl
  have honce : p.kind.occurrences? = none := by
    rcases hkind with hkind | ⟨required, hkind⟩ <;> rw [hkind] <;> rfl
  have hdemanded : demanded settings.validation dialect m (constraining c) f =
      marks settings.validation dialect m p f.type := by
    rw [demanded, hsole, List.flatMap_singleton]
  refine ⟨_, Constraints.constrained_field? hplain h.first, rfl, carriesFacets_of_marks ?_ ?_⟩
  · rw [marksOf, filter_markField h.unsized, hdemanded]
    change (first? _ (findings _ _ _ _ _)).toList = _
    rw [first?_size, honce, hs, Option.map_none, Option.none_or, Option.bind_some]
    rfl
  · rw [marksOf, filter_markField h.undivided, hdemanded]
    change (first? _ (findings _ _ _ _ _)).toList = _
    rw [first?_digits hs]

/-- A facet has a number exactly if its literal is a numeral, white space around it aside, for a
32-bit integer. Wherever the pass comes to a field that one attribute or value of a simple type
describes, the field is given the length and the digits that the numbers of the facets tell,
computed over the integers. It comes to a class that is no enumeration if no class up to and
including it, the enumerations aside, has a property that lacks its field, whatever the literals
are. -/
theorem run_facets (dialect : ValidationDialect) (context : PassContext) (m : CodeModel) :
    (∀ (s : SimpleType) facet n, s.intFacet? facet = some n ↔
      ∃ literal, s.facet? facet = some literal ∧ Denotes literal n ∧ -2 ^ 31 ≤ n ∧ n < 2 ^ 31) ∧
    (∀ (i : Nat) c f s, (reached m)[i]? = some c → ¬c.isEnum →
      Faceted context.settings.validation c f s →
        ∃ (d : BeanClass) (g : Field), (run dialect context m).model.classes[i]? = some d ∧
          d.field? f.name = some g ∧ g.type = f.type ∧
            CarriesFacets context.settings.validation s g) ∧
    ((∃ report, (run dialect context m).outcome = .ok report) ↔
      ∀ c ∈ m.classes, ¬c.isEnum → ∀ p ∈ constraining c, (c.field? p.name).isSome) := by
  refine ⟨SimpleType.intFacet?_eq_some_iff, fun i c f s hc hplain hf => ?_,
    run_ok_iff dialect context m⟩
  obtain ⟨g, hg, htype, hfacets⟩ : ∃ g, (constrained context.settings dialect m c).field? f.name =
      some g ∧ g.type = f.type ∧ CarriesFacets context.settings.validation s g :=
    hf.constrained_field? hplain
  exact ⟨_, g, run_class hc, hg, htype, hfacets⟩

/-- Settings for the constraints of the examples. -/
def plainContext : PassContext := { settings := {}, active := [] }

/-- The type of a serial number: a sign and zeros before the least length, a largest length that no
32-bit integer can tell, and digits that cannot be divided in 32-bit integers. -/
def serialType : SimpleType :=
  (((({} : SimpleType).withFacet "minLength" "\u00a0+007\n").withFacet "maxLength" "2147483648")
    |>.withFacet "totalDigits" "-2147483648").withFacet "fractionDigits" "1"

/-- The field of a serial number. -/
def serial : Field := { name := "serial", type := .named "java.lang.String" [] }

/-- The property of this name with a simple type. -/
def typedProperty (name : String) (s : SimpleType) : Property :=
  { name, publicName := name, kind := .attr false (some s) }

/-- A class with a property of a simple type. -/
def labelled (kind : ClassKind) (s : SimpleType) : BeanClass where
  name := "shop.Label"
  kind := kind
  fields := [serial]
  properties := [typedProperty "serial" s]

private theorem labelled_faceted (kind : ClassKind) (s : SimpleType) :
    Faceted plainContext.settings.validation (labelled kind s) serial s where
  first := rfl
  sole := ⟨_, rfl, .inr ⟨false, rfl⟩⟩
  unsized := Bool.false_ne_true
  undivided := Bool.false_ne_true

/-- A model of such a class. -/
def labels : CodeModel := { classes := [labelled .plain serialType] }

/-- A serial number gets the least length and the number of digits that its facets tell. -/
theorem serial_carries_facets :
    ∃ (d : BeanClass) (g : Field),
      (run .jsr349 plainContext labels).model.classes[0]? = some d ∧ d.field? "serial" = some g ∧
      marksOf {} "Size" g = [{
        type := .ofName "jakarta.validation.constraints.Size", params := [("min", .int 7)] }] ∧
      marksOf {} "Digits" g = [{
        type := .ofName "jakarta.validation.constraints.Digits"
        params := [("integer", .int (-2147483648))] }] := by
  obtain ⟨d, g, hd, hg, htype, hfacets⟩ := (run_facets .jsr349 plainContext labels).2.1 0
    (labelled .plain serialType) serial serialType rfl (by decide) (labelled_faceted _ _)
  have hleast : serialType.intFacet? "minLength" = some 7 := by decide +kernel
  have hmost : serialType.intFacet? "maxLength" = none := by decide +kernel
  have htotal : serialType.intFacet? "totalDigits" = some (-2147483648) := by decide +kernel
  have hfraction : serialType.intFacet? "fractionDigits" = some 1 := by decide +kernel
  have htext : g.type.erasureName = "String" := htype ▸ (by decide +kernel)
  refine ⟨d, g, hd, hg, ?_, ?_⟩
  · refine hfacets.length.trans ?_
    simp only [htext, hleast, hmost]
    rfl
  · refine hfacets.integer _ htotal fun fraction hsome => ?_
    obtain rfl := Option.some.inj (hfraction.symm.trans hsome)
    decide

/-- An enumeration with a field whose type has a length. -/
def shades : CodeModel := { classes := [labelled .enumeration serialType] }

/-- A class with a second property, which lacks its field. -/
def incomplete : BeanClass :=
  { labelled .plain serialType with
    properties := [typedProperty "serial" serialType, typedProperty "lost" serialType] }

private theorem incomplete_faceted : Faceted {} incomplete serial serialType where
  first := rfl
  sole := ⟨_, rfl, .inr ⟨false, rfl⟩⟩
  unsized := Bool.false_ne_true
  undivided := Bool.false_ne_true

/-- A class that lacks a field, and then one that lacks none. -/
def leftovers : CodeModel := { classes := [incomplete, labelled .plain serialType] }

/-- Fields of enumerations, of a class that lacks a field, and of the classes behind such a class,
are not constrained. -/
theorem shades_not_constrained :
    let carried (m : CodeModel) (i : Nat) := ∃ (d : BeanClass) (g : Field),
      (run .jsr349 plainContext m).model.classes[i]? = some d ∧ d.field? "serial" = some g ∧
        CarriesFacets {} serialType g
    (shades.classes[0]? = some (labelled .enumeration serialType) ∧
        Faceted {} (labelled .enumeration serialType) serial serialType ∧ ¬carried shades 0) ∧
      (leftovers.classes[0]? = some incomplete ∧ Faceted {} incomplete serial serialType ∧
        ¬carried leftovers 0) ∧
      (leftovers.classes[1]? = some (labelled .plain serialType) ∧
        Faceted {} (labelled .plain serialType) serial serialType ∧ ¬carried leftovers 1) := by
  have hunmarked : ∀ {c d : BeanClass} {g : Field}, c.field? "serial" = some serial →
      some c = some d → d.field? "serial" = some g → ¬CarriesFacets {} serialType g := by
    rintro c d g hserial ⟨⟩ hg hfacets
    obtain rfl := Option.some.inj (hserial.symm.trans hg)
    have hleast : serialType.intFacet? "minLength" = some 7 := by decide +kernel
    have hlength := hfacets.length
    rw [if_pos ⟨.inl (by decide +kernel), .inl (by rw [hleast]; rfl)⟩] at hlength
    cases hlength
  refine ⟨⟨rfl, labelled_faceted _ _, ?enumeration⟩, ⟨rfl, incomplete_faceted, ?incomplete⟩,
    rfl, labelled_faceted _ _, ?behind⟩
  case enumeration =>
    rintro ⟨d, g, hd, hg, hfacets⟩
    rw [run_classes] at hd
    exact hunmarked (c := labelled .enumeration serialType) rfl hd hg hfacets
  case incomplete =>
    rintro ⟨d, g, hd, hg, hfacets⟩
    rw [run_classes] at hd
    exact hunmarked (c := incomplete) rfl hd hg hfacets
  case behind =>
    rintro ⟨d, g, hd, hg, hfacets⟩
    rw [run_classes] at hd
    exact hunmarked (c := labelled .plain serialType) rfl hd hg hfacets

end BeanSynthesis.Constraints
