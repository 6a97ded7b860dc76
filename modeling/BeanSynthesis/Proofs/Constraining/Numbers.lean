import BeanSynthesis.Proofs.Constraining.Findings

/-!
# Numbers in constraints

The numbers in the facets of a simple type are read as 32-bit integers, and what is computed from
them is one again. How often an element may occur is written as it is. So all numbers that a run
writes are 32-bit integers if and only if those are that decide about the size of a field.
-/

namespace BeanSynthesis

/-- All numbers in the parameters are 32-bit integers. -/
def Annotation.HoldsInts (a : Annotation) : Prop :=
  ∀ name n, (name, .int n) ∈ a.params → -2147483648 ≤ n ∧ n ≤ 2147483647

/-- The smallest number of occurrences of an element that a constraint tells, and the largest one
unless there is none. -/
def PropertyKind.occurrences? : PropertyKind → Option (Nat × Option Nat)
  | .element minOccurs (.bounded max) _ _ => if max > 1 then some (minOccurs, some max) else none
  | .element minOccurs .unbounded _ _ => if minOccurs > 0 then some (minOccurs, none) else none
  | _ => none

/-- The first value that is found is that of the first entry that has one. -/
theorem findSome?_eq_bind_find? {α β : Type} (g : α → Option β) (xs : List α) :
    xs.findSome? g = (xs.find? fun x => (g x).isSome).bind g := by
  induction xs with
  | nil => rfl
  | cons x rest ih =>
    cases hx : g x with
    | none => rw [List.findSome?_cons, hx, List.find?_cons_of_neg (by simp [hx]), ih]
    | some y =>
      rw [List.findSome?_cons, hx, List.find?_cons_of_pos (by simp [hx]), Option.bind_some, hx]

/-! ## Annotations that have been received -/

/-- The annotations that a field has received. -/
def Field.received (before after : Field) : List Annotation :=
  after.annotations.drop before.annotations.length

/-- The annotations that the fields of a class have received. -/
def BeanClass.received (before after : BeanClass) : List Annotation :=
  (List.zipWith Field.received before.fields after.fields).flatten

/-- The annotations that the fields of a model have received. -/
def CodeModel.received (before after : CodeModel) : List Annotation :=
  (List.zipWith BeanClass.received before.classes after.classes).flatten

@[simp] private theorem Field.received_self (f : Field) : f.received f = [] := List.drop_length

@[simp] private theorem BeanClass.received_self (c : BeanClass) : c.received c = [] := by
  simp [received, List.zipWith_self]

namespace Constraints

variable {v : ValidationSettings} {settings : Settings} {dialect : ValidationDialect}
  {context : PassContext} {m : CodeModel} {c : BeanClass} {f : Field} {p : Property}
  {t : TypeExpr} {s : SimpleType} {a : Annotation} {kind : PropertyKind}

@[simp] private theorem received_markField (as : List Annotation) (f : Field) :
    f.received (markField as f) = newMarks f as :=
  List.drop_left

/-- The first field of each name receives what is new to it. -/
theorem mem_received_markFirsts {demand : Field → List Annotation} {seen : List String}
    {fields : List Field} :
    a ∈ (List.zipWith Field.received fields (markFirsts demand seen fields)).flatten ↔
      ∃ f, f.name ∉ seen ∧ fields.find? (·.name == f.name) = some f ∧
        a ∈ newMarks f (demand f) := by
  induction fields generalizing seen with
  | nil => simp [markFirsts]
  | cons g rest ih =>
    rw [markFirsts, List.zipWith_cons_cons, List.flatten_cons, List.mem_append, ih]
    constructor
    · rintro (hfirst | ⟨f, hseen, hf, ha⟩)
      · by_cases hg : g.name ∈ seen
        · simp [hg] at hfirst
        · rw [if_neg hg, received_markField] at hfirst
          exact ⟨g, hg, List.find?_cons_of_pos (by simp), hfirst⟩
      · obtain ⟨hne, hnew⟩ := not_or.mp (mt List.mem_cons.mpr hseen)
        exact ⟨f, hnew, by rw [List.find?_cons_of_neg (by simpa using Ne.symm hne), hf], ha⟩
    · rintro ⟨f, hseen, hf, ha⟩
      by_cases hname : g.name = f.name
      · obtain rfl : g = f := by simpa [hname] using hf
        exact .inl (by rwa [if_neg hseen, received_markField])
      · rw [List.find?_cons_of_neg (by simpa using hname)] at hf
        exact .inr ⟨f, by simp [hseen, Ne.symm hname], hf, ha⟩

/-- What a run adds is what is new to the fields of the classes before the first failure. -/
theorem mem_received_run : a ∈ m.received (run dialect context m).model ↔
    ∃ c ∈ m.classes.takeWhile isTreatable, ¬c.isEnum ∧ ∃ f, c.field? f.name = some f ∧
      a ∈ newMarks f (demanded context.settings.validation dialect m (constraining c) f) := by
  have hsplit : ∀ treated rest : List BeanClass,
      (List.zipWith BeanClass.received (treated ++ rest)
          (treated.map (constrained context.settings dialect m) ++ rest)).flatten =
        treated.flatMap fun c => c.received (constrained context.settings dialect m c) := by
    intro treated rest
    rw [List.zipWith_append (by rw [List.length_map])]
    simp [List.zipWith_self, List.zipWith_map_right, List.flatMap_def]
  have hreceived := hsplit (m.classes.takeWhile isTreatable) (m.classes.dropWhile isTreatable)
  rw [List.takeWhile_append_dropWhile] at hreceived
  rw [CodeModel.received, run_classes, hreceived, List.mem_flatMap]
  refine exists_congr fun c => and_congr_right fun _ => ?_
  by_cases henum : c.isEnum
  · simp [constrained, henum]
  · rw [constrained, if_neg henum, BeanClass.received, mem_received_markFirsts,
      and_iff_right henum]
    simp only [List.not_mem_nil, not_false_eq_true, true_and, BeanClass.field?]

/-! ## Numbers that are asked for -/

private theorem holdsInts_of_fits (h : ∀ param ∈ a.params, ∀ n, param.2 = .int n → fitsInt32 n) :
    a.HoldsInts := by
  intro name n hparam
  have hfits := h _ hparam n rfl
  simp only [fitsInt32, Bool.and_eq_true, decide_eq_true_eq] at hfits
  omega

/-- The lengths that facets ask for are numbers of 32 bits. -/
theorem lengthFindings_holdInts :
    ∀ a ∈ (lengthFindings v t s).filterMap Finding.mark?, a.HoldsInts := by
  unfold lengthFindings
  dsimp only
  split
  · intro a ha
    obtain rfl := List.mem_singleton.mp ha
    refine holdsInts_of_fits fun param hparam n hn => ?_
    rcases List.mem_append.mp hparam with hmin | hmax
    · obtain ⟨k, hk, rfl⟩ := List.mem_map.mp hmin
      obtain rfl := AnnotationValue.int.inj hn
      exact SimpleType.intFacet?_fits (Option.mem_toList.mp hk)
    · obtain ⟨k, hk, rfl⟩ := List.mem_map.mp hmax
      obtain rfl := AnnotationValue.int.inj hn
      exact SimpleType.intFacet?_fits (Option.mem_toList.mp hk)
  · simp

private theorem patternFindings_holdInts :
    ∀ a ∈ (patternFindings v s).filterMap Finding.mark?, a.HoldsInts := by
  unfold patternFindings
  split
  · split <;> simp [Finding.mark?, withParams, Annotation.HoldsInts]
  · simp

private theorem boundFindings_holdInts (facet name : String) (exclusive : Bool) :
    ∀ a ∈ (boundFindings v dialect s facet name exclusive).filterMap Finding.mark?,
      a.HoldsInts := by
  unfold boundFindings
  split
  · simp
  · split
    · simp [Finding.mark?]
    · split <;> simp [Finding.mark?, withParams, Annotation.HoldsInts]

private theorem rangeFindings_holdInts :
    ∀ a ∈ (rangeFindings v dialect s).filterMap Finding.mark?, a.HoldsInts := by
  simp only [rangeFindings, List.filterMap_append, List.forall_mem_append]
  exact ⟨⟨⟨boundFindings_holdInts _ _ _, boundFindings_holdInts _ _ _⟩,
    boundFindings_holdInts _ _ _⟩, boundFindings_holdInts _ _ _⟩

/-- The digits that facets ask for are numbers of 32 bits. -/
theorem digitFindings_holdInts :
    ∀ a ∈ (digitFindings v s).filterMap Finding.mark?, a.HoldsInts := by
  unfold digitFindings
  split
  · simp
  case h_2 total htotal =>
    split
    case h_1 fraction hfraction =>
      obtain ⟨hsome, hdifference⟩ := Option.filter_eq_some_iff.mp hfraction
      intro a ha
      obtain rfl := List.mem_singleton.mp ha
      refine holdsInts_of_fits fun param hparam n hn => ?_
      rcases List.mem_pair.mp hparam with rfl | rfl
      · obtain rfl := AnnotationValue.int.inj hn
        exact hdifference
      · obtain rfl := AnnotationValue.int.inj hn
        exact SimpleType.intFacet?_fits hsome
    case h_2 =>
      intro a ha
      obtain rfl := List.mem_singleton.mp ha
      refine holdsInts_of_fits fun param hparam n hn => ?_
      obtain rfl := List.mem_singleton.mp hparam
      obtain rfl := AnnotationValue.int.inj hn
      exact SimpleType.intFacet?_fits htotal

private theorem facetFindings_holdInts :
    ∀ a ∈ (facetFindings v dialect m t s).filterMap Finding.mark?, a.HoldsInts := by
  simp only [facetFindings, List.filterMap_append, List.forall_mem_append]
  refine ⟨⟨⟨lengthFindings_holdInts, patternFindings_holdInts⟩, ?_⟩, digitFindings_holdInts⟩
  split
  · exact rangeFindings_holdInts
  · simp

/-! ## The size of a field -/

/-- The constraint on the number of occurrences. -/
def occurrenceMark (v : ValidationSettings) (occurrences : Nat × Option Nat) : Annotation :=
  withParams v "Size" (("min", .int occurrences.1) ::
    occurrences.2.toList.map fun (max : Nat) => ("max", .int max))

private theorem holdsInts_occurrenceMark_iff {least : Nat} {most : Option Nat} :
    (occurrenceMark v (least, most)).HoldsInts ↔
      least ≤ 2147483647 ∧ ∀ max ∈ most, max ≤ 2147483647 := by
  constructor
  · intro h
    have hleast := h "min" least List.mem_cons_self
    refine ⟨by omega, fun max hmax => ?_⟩
    have hmost := h "max" max
      (List.mem_cons_of_mem _ (List.mem_map.mpr ⟨max, Option.mem_toList.mpr hmax, rfl⟩))
    omega
  · rintro ⟨hleast, hmost⟩ name n hparam
    rcases List.mem_cons.mp hparam with hmin | hmax
    · obtain rfl := AnnotationValue.int.inj (Prod.mk.inj hmin).2
      omega
    · obtain ⟨max, hmem, heq⟩ := List.mem_map.mp hmax
      obtain rfl := AnnotationValue.int.inj (Prod.mk.inj heq).2
      have hbound := hmost max (Option.mem_toList.mp hmem)
      omega

private theorem occurrenceFindings_eq (v : ValidationSettings) (minOccurs : Nat)
    (maxOccurs : MaxOccurs)
    (required : Bool) (term : ParticleTerm) : occurrenceFindings v minOccurs maxOccurs =
      (PropertyKind.element minOccurs maxOccurs required term).occurrences?.toList.map
        fun occurrences => .constraint (occurrenceMark v occurrences) := by
  cases maxOccurs with
  | one => rfl
  | bounded max =>
    by_cases hmax : max > 1
    · simp [occurrenceFindings, PropertyKind.occurrences?, hmax, occurrenceMark]
    · simp [occurrenceFindings, PropertyKind.occurrences?, hmax]
  | unbounded =>
    by_cases hmin : minOccurs > 0
    · simp [occurrenceFindings, PropertyKind.occurrences?, hmin, occurrenceMark]
    · simp [occurrenceFindings, PropertyKind.occurrences?, hmin]

private theorem holdsInts_ofName (name : String) : Annotation.HoldsInts (.ofName name) := by
  intro parameter n h
  cases h

private theorem requiredFindings_holdInts (required : Bool) :
    ∀ a ∈ (requiredFindings v required).filterMap Finding.mark?, a.HoldsInts := by
  cases required with
  | false => simp [requiredFindings]
  | true => exact List.forall_mem_singleton.mpr (holdsInts_ofName _)

private theorem nestedFindings_holdInts (nested : Bool) :
    ∀ a ∈ (if nested then [.constraint (.ofName v.valid)] else []).filterMap Finding.mark?,
      a.HoldsInts := by
  cases nested with
  | false => simp
  | true => exact List.forall_mem_singleton.mpr (holdsInts_ofName _)

/-- Apart from the facets, only the number of occurrences is told in numbers. -/
theorem holdsInts_of_mem_particulars (h : a ∈ (particulars v m t kind).filterMap Finding.mark?) :
    a.HoldsInts ∨
      ∃ occurrences, kind.occurrences? = some occurrences ∧ a = occurrenceMark v occurrences := by
  cases kind with
  | element minOccurs maxOccurs required term =>
    simp only [particulars, List.filterMap_append, List.mem_append] at h
    rcases h with (hpresence | hnumber) | hnested
    · exact .inl (requiredFindings_holdInts _ a hpresence)
    · rw [occurrenceFindings_eq v minOccurs maxOccurs required term] at hnumber
      obtain ⟨finding, hfinding, hmark⟩ := List.mem_filterMap.mp hnumber
      obtain ⟨occurrences, hoccurrences, rfl⟩ := List.mem_map.mp hfinding
      exact .inr ⟨occurrences, Option.mem_toList.mp hoccurrences, (Option.some.inj hmark).symm⟩
    · exact .inl (nestedFindings_holdInts _ a hnested)
  | attr required s => exact .inl (requiredFindings_holdInts _ a h)
  | value s => cases h
  | reference => cases h

/-- What a property asks for holds integers only, or tells the number of occurrences. -/
theorem holdsInts_of_mem_marks (h : a ∈ marks v dialect m p t) : a.HoldsInts ∨
    ∃ occurrences, p.kind.occurrences? = some occurrences ∧ a = occurrenceMark v occurrences := by
  rw [marks, findings_split, List.filterMap_append, List.mem_append] at h
  rcases h with hparticular | hfacet
  · exact holdsInts_of_mem_particulars hparticular
  · left
    cases hs : p.kind.simpleType? with
    | none => simp [hs] at hfacet
    | some s =>
      simp only [hs, Option.toList_some, List.flatMap_singleton] at hfacet
      exact facetFindings_holdInts a hfacet

/-- A property tells the number of occurrences or the length of texts. -/
def asksSize (t : TypeExpr) (kind : PropertyKind) : Bool :=
  kind.occurrences?.isSome || isTextual t && kind.simpleType?.any fun s =>
    (s.intFacet? "minLength").isSome || (s.intFacet? "maxLength").isSome

/-- The property that decides about the size of a field: the first one that tells it. -/
def sizing? (c : BeanClass) (f : Field) : Option Property :=
  (constraining c).find? fun p => p.name == f.name && asksSize f.type p.kind

private theorem first?_particulars_size (kind : PropertyKind) :
    first? (v.constraint "Size") (particulars v m t kind) =
      kind.occurrences?.map (occurrenceMark v) := by
  have hrequired : ∀ required,
      first? (v.constraint "Size") (requiredFindings v required) = none := fun required =>
    (requiredFindings_askFor required).first?_constraint_eq_none (by decide)
  cases kind with
  | element minOccurs maxOccurs required term =>
    have hnested := (nestedFindings_askFor (isNested m t)).first?_eq_none
      (v.valid_ne_constraint "Size")
    simp only [particulars, first?_append, hrequired, hnested, Option.none_or, Option.or_none]
    rw [(occurrenceFindings_askFor minOccurs maxOccurs).first?_eq_head?,
      occurrenceFindings_eq v minOccurs maxOccurs required term]
    cases (PropertyKind.element minOccurs maxOccurs required term).occurrences? <;> rfl
  | attr required s => exact hrequired required
  | value s => rfl
  | reference => rfl

/-- The number of occurrences comes before the length of texts. -/
theorem first?_size (kind : PropertyKind) :
    first? (v.constraint "Size") (findings v dialect m t kind) =
      (kind.occurrences?.map (occurrenceMark v)).or
        (kind.simpleType?.bind fun s => first? (v.constraint "Size") (lengthFindings v t s)) := by
  rw [findings_split, first?_append, first?_particulars_size]
  congr 1
  cases kind.simpleType? with
  | none => rfl
  | some s =>
    have hpattern : first? (v.constraint "Size") (patternFindings v s) = none :=
      patternFindings_askFor.first?_constraint_eq_none (by decide)
    have hrange : first? (v.constraint "Size")
        (if m.isNumeric t then rangeFindings v dialect s else []) = none :=
      first?_range_eq_none (by decide) (by decide)
    have hdigits : first? (v.constraint "Size") (digitFindings v s) = none :=
      digitFindings_askFor.first?_constraint_eq_none (by decide)
    simp only [Option.toList_some, List.flatMap_singleton, Option.bind_some, facetFindings,
      first?_append, hpattern, hrange, hdigits, Option.or_none]

private theorem isSome_first?_size (kind : PropertyKind) :
    (first? (v.constraint "Size") (findings v dialect m t kind)).isSome = asksSize t kind := by
  have hlength : ∀ s, (first? (v.constraint "Size") (lengthFindings v t s)).isSome =
      (isTextual t && ((s.intFacet? "minLength").isSome || (s.intFacet? "maxLength").isSome)) := by
    intro s
    rw [lengthFindings_askFor.first?_eq_head?, lengthFindings]
    split
    case isTrue h => simpa [Finding.mark?] using h
    case isFalse h => simpa using h
  rw [first?_size, asksSize, Option.isSome_or, Option.isSome_map]
  cases kind.simpleType? with
  | none => simp
  | some s => simp [hlength]

/-- The size that is demanded for a field comes from the property that decides about it. -/
theorem find?_demanded_size :
    (demanded v dialect m (constraining c) f).find? (markClass · = v.constraint "Size") =
      (sizing? c f).bind fun p =>
        first? (v.constraint "Size") (findings v dialect m f.type p.kind) := by
  rw [demanded, List.find?_flatMap]
  change List.findSome? (fun p : Property => first? (v.constraint "Size")
    (findings v dialect m f.type p.kind)) _ = _
  rw [findSome?_eq_bind_find?, List.find?_filter, sizing?]
  simp only [isSome_first?_size, Bool.decide_and, Bool.decide_eq_true]

/-! ## The numbers of a run -/

/-- Wherever the occurrences of an element decide about the size of a field that a run annotates,
their numbers are 32-bit integers. -/
def SizesFit (settings : Settings) (m : CodeModel) : Prop :=
  ∀ c ∈ m.classes.takeWhile isTreatable, ¬c.isEnum → ∀ f, c.field? f.name = some f →
    ¬ hasAnnotation f.annotations (settings.validation.constraint "Size") →
      ∀ p least most, sizing? c f = some p → p.kind.occurrences? = some (least, most) →
        least ≤ 2147483647 ∧ ∀ max ∈ most, max ≤ 2147483647

/-- The numbers in the annotations that a run adds are 32-bit integers, whatever the facets say, if
and only if the numbers of occurrences are that decide about the size of a field. -/
theorem received_holdInts_iff (dialect : ValidationDialect) (context : PassContext)
    (m : CodeModel) : (∀ a ∈ m.received (run dialect context m).model, a.HoldsInts) ↔
      SizesFit context.settings m := by
  constructor
  · intro h c hc hplain f hf hfresh p least most hp hoccurrences
    have hfirst : (demanded context.settings.validation dialect m (constraining c) f).find?
        (markClass · = context.settings.validation.constraint "Size") =
          some (occurrenceMark context.settings.validation (least, most)) := by
      rw [find?_demanded_size, hp, Option.bind_some, first?_size, hoccurrences, Option.map_some,
        Option.some_or]
    have hnew : occurrenceMark context.settings.validation (least, most) ∈
        newMarks f (demanded context.settings.validation dialect m (constraining c) f) := by
      refine mem_newcomers_iff.mpr ⟨mt hasAnnotation_iff.mpr ?_, hfirst⟩
      exact hfresh
    exact holdsInts_occurrenceMark_iff.mp (h _ (mem_received_run.mpr ⟨c, hc, hplain, f, hf, hnew⟩))
  · intro h a ha
    obtain ⟨c, hc, hplain, f, hf, hnew⟩ := mem_received_run.mp ha
    obtain ⟨hfresh, hfirst⟩ := mem_newcomers_iff.mp hnew
    -- Only annotations for the size can come from numbers of occurrences.
    by_cases hsize : markClass a = context.settings.validation.constraint "Size"
    · rw [hsize, find?_demanded_size, Option.bind_eq_some_iff] at hfirst
      obtain ⟨p, hp, hfirst⟩ := hfirst
      rcases holdsInts_of_mem_marks (List.mem_of_find?_eq_some hfirst) with
        hints | ⟨⟨least, most⟩, hoccurrences, rfl⟩
      · exact hints
      · have hnone : ¬ hasAnnotation f.annotations
            (occurrenceMark context.settings.validation (least, most)).type.name :=
          mt hasAnnotation_iff.mp hfresh
        exact holdsInts_occurrenceMark_iff.mpr
          (h c hc hplain f hf hnone p least most hp hoccurrences)
    · obtain ⟨p, -, hmark⟩ := List.mem_flatMap.mp (List.mem_of_find?_eq_some hfirst)
      rcases holdsInts_of_mem_marks hmark with hints | ⟨occurrences, -, rfl⟩
      · exact hints
      · exact absurd rfl hsize

/-- A list of members. -/
def members : Field := { name := "members", type := .named "java.util.List" [.named "String" []] }

/-- Members of which there have to be more than a 32-bit integer can tell. -/
def membersProperty : Property where
  name := "members"
  publicName := "Members"
  kind := .element 2147483648 .unbounded false (.element none)

/-- A class with such members. -/
def crowd : CodeModel where
  classes := [{ name := "shop.Crowd", fields := [members], properties := [membersProperty] }]

/-- The members of a crowd get a constraint with a number that is none of 32 bits. -/
theorem crowd_exceeds_ints : crowd.validate = .ok () ∧ ∀ dialect context,
    ¬∀ a ∈ crowd.received (run dialect context crowd).model, a.HoldsInts := by
  refine ⟨by decide +kernel, fun dialect context hints => ?_⟩
  have hfit := (received_holdInts_iff dialect context crowd).mp hints
  have hleast := (hfit _ (List.mem_singleton.mpr rfl) (by decide) members rfl Bool.false_ne_true
    membersProperty 2147483648 none rfl rfl).1
  omega

end Constraints

end BeanSynthesis
