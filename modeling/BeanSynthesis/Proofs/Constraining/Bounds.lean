import BeanSynthesis.Proofs.Constraining.Findings

/-!
# Bounds of numbers

A number has at most one bound at each end of its range. The literal of an inclusive facet comes
first, that of an exclusive facet takes its place, and the largest and smallest numbers of the
usual widths are no bounds. One end of a range has no part in what becomes of the other.
-/

namespace BeanSynthesis

/-- The literal of the largest or the smallest number of 32 or of 64 bits. -/
def IsExtremum (literal : String) : Prop :=
  ∃ bits ∈ [32, 64], literal = toString (2 ^ (bits - 1) - 1) ∨
    literal = "-" ++ toString (2 ^ (bits - 1))

/-- A facet of a simple type has a literal that is a bound. -/
def SimpleType.HasBound (s : SimpleType) (facet literal : String) : Prop :=
  s.facet? facet = some literal ∧ ¬IsExtremum literal

/-- The ends of a range. -/
inductive RangeEnd where
  | upper
  | lower
deriving DecidableEq, Repr

namespace RangeEnd

/-- The annotation for a bound. -/
def constraint : RangeEnd → String
  | upper => "DecimalMax"
  | lower => "DecimalMin"

/-- The facet for a bound that is allowed itself. -/
def inclusive : RangeEnd → String
  | upper => "maxInclusive"
  | lower => "minInclusive"

/-- The facet for a bound that is not allowed itself. -/
def exclusive : RangeEnd → String
  | upper => "maxExclusive"
  | lower => "minExclusive"

end RangeEnd

namespace Constraints

variable {v : ValidationSettings} {dialect : ValidationDialect} {context : PassContext}
  {m : CodeModel} {c : BeanClass} {f : Field} {p : Property} {t : TypeExpr} {s : SimpleType}
  {kind : PropertyKind} {facet literal name : String} {exclusive : Bool}

/-! ## The bound that facets give -/

private theorem mem_sentinels_iff : literal ∈ sentinels ↔ IsExtremum literal := by
  have hlongMax : toString (2 ^ (64 - 1) - 1) = "9223372036854775807" := by decide +kernel
  have hlongMin : "-" ++ toString (2 ^ (64 - 1)) = "-9223372036854775808" := by decide +kernel
  have hintMax : toString (2 ^ (32 - 1) - 1) = "2147483647" := by decide +kernel
  have hintMin : "-" ++ toString (2 ^ (32 - 1)) = "-2147483648" := by decide +kernel
  simp only [IsExtremum, List.mem_cons, List.not_mem_nil, or_false, exists_eq_or_imp,
    exists_eq_left, hlongMax, hlongMin, hintMax, hintMin, sentinels]
  tauto

/-- The annotation that a facet for a bound asks for. -/
def boundOf (v : ValidationSettings) (dialect : ValidationDialect) (s : SimpleType)
    (facet name : String) (exclusive : Bool) : Option Annotation :=
  ((s.facet? facet).filter (· ∉ sentinels)).map fun literal =>
    withParams v name (("value", .str literal) ::
      if exclusive && dialect.supportsExclusiveBounds then [("inclusive", .bool false)] else [])

private theorem first?_boundFindings :
    first? (v.constraint name) (boundFindings v dialect s facet name exclusive) =
      boundOf v dialect s facet name exclusive := by
  rw [(boundFindings_askFor facet exclusive).first?_eq_head?, boundOf, boundFindings]
  cases s.facet? facet with
  | none => rfl
  | some literal =>
    by_cases hliteral : literal ∈ sentinels
    · simp [hliteral, Finding.mark?, Option.filter_some]
    · simp [hliteral, Finding.mark?, Option.filter_some]

/-- The annotation for the bound of a range at an end. -/
def endBound? (v : ValidationSettings) (dialect : ValidationDialect) (s : SimpleType)
    (e : RangeEnd) : Option Annotation :=
  (boundOf v dialect s e.inclusive e.constraint false).or
    (boundOf v dialect s e.exclusive e.constraint true)

/-- Of the facets of a range, those of an end ask for its bound. -/
theorem first?_rangeFindings (e : RangeEnd) :
    first? (v.constraint e.constraint) (rangeFindings v dialect s) = endBound? v dialect s e := by
  have hother : ∀ (other facet : String) (exclusive : Bool), other ≠ e.constraint →
      first? (v.constraint e.constraint) (boundFindings v dialect s facet other exclusive) = none :=
    fun _ facet exclusive hne =>
      (boundFindings_askFor facet exclusive).first?_eq_none (v.constraint_injective.ne hne)
  simp only [rangeFindings, first?_append, endBound?, ← first?_boundFindings]
  cases e with
  | upper =>
    rw [hother "DecimalMin" _ _ (by decide), hother "DecimalMin" _ _ (by decide), Option.or_none,
      Option.or_none]
    rfl
  | lower =>
    rw [hother "DecimalMax" _ _ (by decide), hother "DecimalMax" _ _ (by decide), Option.none_or,
      Option.or_none]
    rfl

private theorem first?_findings_bound (e : RangeEnd) (hs : kind.simpleType? = some s) :
    first? (v.constraint e.constraint) (findings v dialect m t kind) =
      if m.isNumeric t then endBound? v dialect s e else none := by
  have hne : e.constraint ≠ "NotNull" ∧ e.constraint ≠ "Size" ∧ "Size" ≠ e.constraint ∧
      "Pattern" ≠ e.constraint ∧ "Digits" ≠ e.constraint := by
    cases e <;> decide
  obtain ⟨hpresence, hnumber, hlength, hpattern, hdigits⟩ := hne
  rw [first?_findings hs hpresence hnumber]
  simp only [facetFindings, first?_append, lengthFindings_askFor.first?_constraint_eq_none hlength,
    patternFindings_askFor.first?_constraint_eq_none hpattern,
    digitFindings_askFor.first?_constraint_eq_none hdigits, Option.or_none, Option.none_or]
  split
  · exact first?_rangeFindings e
  · rfl

private theorem boundOf_of_hasBound (h : s.HasBound facet literal) :
    boundOf v dialect s facet name exclusive = some (withParams v name
      (("value", .str literal) :: if exclusive && dialect.supportsExclusiveBounds then
        [("inclusive", .bool false)] else [])) := by
  obtain ⟨hliteral, hbound⟩ := h
  have hfilter : (s.facet? facet).filter (· ∉ sentinels) = some literal := by
    rw [hliteral, Option.filter_some_pos (by simpa using mt mem_sentinels_iff.mp hbound)]
  rw [boundOf, hfilter, Option.map_some]

private theorem boundOf_eq_none (h : ¬∃ literal, s.HasBound facet literal) :
    boundOf v dialect s facet name exclusive = none := by
  have hfilter : (s.facet? facet).filter (· ∉ sentinels) = none := by
    rw [Option.filter_eq_none_iff]
    intro literal hliteral hbound
    exact h ⟨literal, hliteral, mt mem_sentinels_iff.mpr (by simpa using hbound)⟩
  rw [boundOf, hfilter, Option.map_none]

private theorem isSome_endBound?_iff (e : RangeEnd) : (endBound? v dialect s e).isSome ↔
    ∃ literal, s.HasBound e.inclusive literal ∨ s.HasBound e.exclusive literal := by
  rw [exists_or, endBound?]
  by_cases hinclusive : ∃ literal, s.HasBound e.inclusive literal
  · obtain ⟨literal, hliteral⟩ := hinclusive
    rw [boundOf_of_hasBound hliteral]
    exact iff_of_true rfl (.inl ⟨literal, hliteral⟩)
  · rw [boundOf_eq_none hinclusive, Option.none_or, or_iff_right hinclusive]
    by_cases hexclusive : ∃ literal, s.HasBound e.exclusive literal
    · obtain ⟨literal, hliteral⟩ := hexclusive
      rw [boundOf_of_hasBound hliteral]
      exact iff_of_true rfl ⟨literal, hliteral⟩
    · rw [boundOf_eq_none hexclusive]
      exact iff_of_false Bool.false_ne_true hexclusive

/-! ## The bounds of a field -/

/-- The annotations for the bound at an end that a field has after a run. -/
def boundsAfter (dialect : ValidationDialect) (context : PassContext) (m : CodeModel)
    (c : BeanClass) (f : Field) (e : RangeEnd) : Option (List Annotation) :=
  (run dialect context m).model.annotationsOf? c.name f.name
    (context.settings.validation.constraint e.constraint)

/-- A run succeeds over a model with a field that one property of a certain simple type describes
and that has no annotation for the bound at an end. -/
structure Bounding (dialect : ValidationDialect) (context : PassContext) (m : CodeModel)
    (c : BeanClass) (f : Field) (s : SimpleType) (e : RangeEnd) : Prop where
  field : ∃ p, Sole m c f p ∧ p.kind.simpleType? = some s
  fresh : ¬ hasAnnotation f.annotations (context.settings.validation.constraint e.constraint)
  succeeds : ∃ report, (run dialect context m).outcome = .ok report

private theorem Bounding.boundsAfter_eq {e : RangeEnd} (h : Bounding dialect context m c f s e) :
    boundsAfter dialect context m c f e = some (if m.isNumeric f.type then
      endBound? context.settings.validation dialect s e else none).toList := by
  obtain ⟨p, hsole, hs⟩ := h.field
  obtain ⟨report, hok⟩ := h.succeeds
  rw [boundsAfter, hsole.annotationsOf?_run hok h.fresh, first?_findings_bound e hs]

/-- A field has a bound at an end of its range if and only if its type is numeric and one of the
two facets of this end has a literal that is a bound. The inclusive one comes first; an exclusive
one is marked as such in the dialect that can. What the facets of the other end say, and all else
about the model and the field, makes no difference. -/
theorem run_bounds {e : RangeEnd} (h : Bounding dialect context m c f s e) :
    let type := ClassRef.ofName (context.settings.validation.constraint e.constraint)
    ∃ bound : Option Annotation,
      boundsAfter dialect context m c f e = some bound.toList ∧
      (bound.isSome ↔ m.isNumeric f.type ∧
        ∃ literal, s.HasBound e.inclusive literal ∨ s.HasBound e.exclusive literal) ∧
      (m.isNumeric f.type → ∀ literal, s.HasBound e.inclusive literal →
        bound = some { type, params := [("value", .str literal)] }) ∧
      (m.isNumeric f.type → (¬∃ literal, s.HasBound e.inclusive literal) →
        ∀ literal, s.HasBound e.exclusive literal →
          bound = some { type, params := ("value", .str literal) ::
            if dialect = .jsr349 then [("inclusive", .bool false)] else [] }) ∧
      ∀ n d g s', Bounding dialect context n d g s' e →
        n.isNumeric g.type = m.isNumeric f.type →
        s'.facet? e.inclusive = s.facet? e.inclusive →
        s'.facet? e.exclusive = s.facet? e.exclusive →
          boundsAfter dialect context n d g e = some bound.toList := by
  intro type
  refine ⟨_, h.boundsAfter_eq, ?_, ?_, ?_, ?_⟩
  · by_cases hnumeric : m.isNumeric f.type
    · simp only [hnumeric, if_true, true_and, isSome_endBound?_iff]
    · simp [hnumeric]
  · intro hnumeric literal hinclusive
    rw [if_pos hnumeric, endBound?, boundOf_of_hasBound hinclusive, Option.some_or]
    rfl
  · intro hnumeric hnone literal hexclusive
    rw [if_pos hnumeric, endBound?, boundOf_eq_none hnone, Option.none_or,
      boundOf_of_hasBound hexclusive]
    cases dialect <;> rfl
  · intro n d g s' hother hnumeric hinclusive hexclusive
    rw [hother.boundsAfter_eq, hnumeric]
    simp only [endBound?, boundOf, hinclusive, hexclusive]

/-- A weight below a limit that is not reached, with a sentinel beside it. -/
def weightType : SimpleType :=
  (({} : SimpleType).withFacet "maxInclusive" "2147483647").withFacet "maxExclusive" "30"

/-- The field of such a weight. -/
def weight : Field := { name := "weight", type := .named "java.math.BigDecimal" [] }

/-- The property of such a weight. -/
def weightProperty : Property :=
  { name := "weight", publicName := "Weight", kind := .attr true (some weightType) }

/-- A class with such a weight. -/
def crate : BeanClass :=
  { name := "shop.Crate", fields := [weight], properties := [weightProperty] }

/-- A model with such a class. -/
def freight : CodeModel := { classes := [crate] }

/-- A weight whose inclusive upper bound stands for none is bounded from above by the exclusive
one. -/
theorem weight_bounded :
    let context : PassContext := { settings := {}, active := [] }
    Bounding .jsr349 context freight crate weight weightType .upper ∧
      boundsAfter .jsr349 context freight crate weight .upper = some [{
        type := .ofName "jakarta.validation.constraints.DecimalMax"
        params := [("value", .str "30"), ("inclusive", .bool false)] }] := by
  intro context
  have hsole : Sole freight crate weight weightProperty :=
    { valid := by decide +kernel
      mem := List.mem_singleton.mpr rfl
      plain := by decide
      first := rfl
      sole := rfl }
  have hbounding : Bounding .jsr349 context freight crate weight weightType .upper :=
    { field := ⟨weightProperty, hsole, rfl⟩
      fresh := by decide +kernel
      succeeds := failure?_eq_none.mp (by decide +kernel) }
  have hnumeric : freight.isNumeric weight.type := by decide +kernel
  have hsentinel : weightType.facet? "maxInclusive" = some "2147483647" := by decide +kernel
  have hliteral : weightType.facet? "maxExclusive" = some "30" := by decide +kernel
  have hnone : ¬∃ literal, weightType.HasBound "maxInclusive" literal := by
    rintro ⟨literal, hsome, hbound⟩
    obtain rfl := Option.some.inj (hsentinel.symm.trans hsome)
    exact hbound (mem_sentinels_iff.mp (by decide))
  have hbound : weightType.HasBound "maxExclusive" "30" :=
    ⟨hliteral, mt mem_sentinels_iff.mpr (by decide)⟩
  obtain ⟨bound, hafter, -, -, hexclusive, -⟩ := run_bounds hbounding
  rw [hexclusive hnumeric hnone "30" hbound] at hafter
  exact ⟨hbounding, hafter⟩

end Constraints

end BeanSynthesis
