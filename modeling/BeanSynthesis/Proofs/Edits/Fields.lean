import BeanSynthesis.Proofs.Edits.Newcomers
import BeanSynthesis.Proofs.Growth.Carriers
import BeanSynthesis.Proofs.Growth.Passes

/-!
# Edits of fields

Two kinds of passes change fields: constraints are annotations of the first field of a name, and
hiding makes every field private. Constraints are added once, whatever grows on the fields between,
and neither kind looks at what the other one changes.
-/

namespace BeanSynthesis

/-! ## The first field of a name -/

/-- The fields, of which the first one of this name has been changed. -/
def changeField (name : String) (change : Field → Field) : List Field → List Field
  | [] => []
  | f :: rest =>
    if f.name == name then change f :: rest else f :: changeField name change rest

section

variable {name : String} {change : Field → Field} {fields : List Field} {f : Field}

/-- A change of a field leaves the fields as they are if and only if it leaves that field as it
is. -/
theorem changeField_eq_self_iff : changeField name change fields = fields ↔
    ∀ f, fields.find? (·.name == name) = some f → change f = f := by
  induction fields with
  | nil => simp [changeField]
  | cons g rest ih =>
    by_cases hname : g.name == name
    · simp [changeField, hname]
    · simp [changeField, hname, ih]

private theorem changeField_map (change other : Field → Field)
    (hname : ∀ f, (other f).name = f.name)
    (hcomm : ∀ f, change (other f) = other (change f)) (fields : List Field) :
    changeField name change (fields.map other) = (changeField name change fields).map other := by
  induction fields with
  | nil => rfl
  | cons g rest ih =>
    by_cases hg : g.name == name
    · simp [changeField, hname, hg, hcomm]
    · simp [changeField, hname, hg, ih]

private theorem changeField_grows (h : ∀ f : Field, f.Grows (change f)) (fields : List Field) :
    List.Forall₂ Field.Grows fields (changeField name change fields) := by
  induction fields with
  | nil => exact .nil
  | cons g rest ih =>
    unfold changeField
    split
    · exact .cons (h g) (forall₂_refl_of Field.Grows.refl rest)
    · exact .cons (.refl g) ih

private theorem find?_changeField (change : Field → Field) (h : ∀ f, (change f).name = f.name)
    (fields : List Field) :
    (changeField name change fields).find? (·.name == name) =
      (fields.find? (·.name == name)).map change := by
  induction fields with
  | nil => rfl
  | cons g rest ih =>
    by_cases hg : g.name == name
    · simp [changeField, hg, h]
    · simpa [changeField, hg] using ih

/-- Replacing the first field of a name is changing it. -/
theorem Constraints.updateField_eq (change : Field → Field)
    (h : fields.find? (·.name == name) = some f) :
    updateField name (change f) fields = changeField name change fields := by
  induction fields with
  | nil => rfl
  | cons g rest ih =>
    by_cases hg : g.name == name
    · obtain rfl : g = f := by simpa [hg] using h
      simp [updateField, changeField, hg]
    · have hrest : rest.find? (·.name == name) = some f := by simpa [hg] using h
      simp [updateField, changeField, hg, ih hrest]

end

namespace Constraints

/-! ## Constraints -/

/-- The annotation that a finding asks for. -/
def Finding.mark? : Finding → Option Annotation
  | .constraint mark => some mark
  | .sentinel .. => none

/-- The class of an annotation, of which a field has at most one that a pass has added. -/
def markClass (a : Annotation) : String := a.type.name

/-- The annotations among these that a field has no others like. -/
def newMarks (f : Field) (marks : List Annotation) : List Annotation :=
  newcomers markClass (f.annotations.map markClass) marks

/-- A field with these annotations. -/
def markField (marks : List Annotation) (f : Field) : Field :=
  { f with annotations := f.annotations ++ newMarks f marks }

variable {v : ValidationSettings} {dialect : ValidationDialect} {m n : CodeModel} {c : BeanClass}
  {f : Field} {fields grown : List Field} {p : Property} {properties : List Property}

/-- An annotation of a class is there if and only if the class is one of those of the
annotations. -/
theorem hasAnnotation_iff {annotations : List Annotation} {a : Annotation} :
    hasAnnotation annotations a.type.name ↔ markClass a ∈ annotations.map markClass := by
  simp [markClass, hasAnnotation]

/-- Applying findings adds the annotations that they ask for, and counts them. -/
theorem applyFindings_eq (f : Field) (found : List Finding) :
    (applyFindings f found).outcome =
      .ok (markField (found.filterMap Finding.mark?) f,
        (newMarks f (found.filterMap Finding.mark?)).length) := by
  induction found generalizing f with
  | nil => simp [applyFindings, markField, newMarks, newcomers]
  | cons finding rest ih =>
    cases finding with
    | sentinel facet literal =>
      have hfirst : (applyFinding f (.sentinel facet literal)).outcome = .ok (f, 0) := rfl
      refine Step.bind_eq_ok.mpr ⟨_, hfirst, Step.bind_eq_ok.mpr ⟨_, ih f, ?_⟩⟩
      simp [List.filterMap_cons, Finding.mark?]
    | constraint a =>
      by_cases ha : hasAnnotation f.annotations a.type.name
      · have hfirst : (applyFinding f (.constraint a)).outcome = .ok (f, 0) := by
          simp [applyFinding, ha]
        have hold : newMarks f (a :: rest.filterMap Finding.mark?) =
            newMarks f (rest.filterMap Finding.mark?) :=
          newcomers_cons_of_mem (hasAnnotation_iff.mp ha)
        refine Step.bind_eq_ok.mpr ⟨_, hfirst, Step.bind_eq_ok.mpr ⟨_, ih f, ?_⟩⟩
        simp [Finding.mark?, markField, hold]
      · have hfirst : (applyFinding f (.constraint a)).outcome =
            .ok ({ f with annotations := f.annotations ++ [a] }, 1) := by
          simp only [applyFinding, if_neg ha]
          rfl
        have hnew : newMarks f (a :: rest.filterMap Finding.mark?) =
            a :: newMarks { f with annotations := f.annotations ++ [a] }
              (rest.filterMap Finding.mark?) := by
          simp [newMarks, newcomers_cons_of_not_mem (mt hasAnnotation_iff.mpr ha)]
        refine Step.bind_eq_ok.mpr ⟨_, hfirst, Step.bind_eq_ok.mpr ⟨_, ih _, ?_⟩⟩
        simp [Finding.mark?, markField, hnew, Nat.add_comm]

/-- The annotations that a property asks for on a field of type `t`. -/
def marks (v : ValidationSettings) (dialect : ValidationDialect) (m : CodeModel) (p : Property)
    (t : TypeExpr) : List Annotation :=
  (findings v dialect m t p.kind).filterMap Finding.mark?

/-- The fields with the constraints that a property gives. -/
def constrain (v : ValidationSettings) (dialect : ValidationDialect) (m : CodeModel)
    (fields : List Field) (p : Property) : List Field :=
  changeField p.name (fun f => markField (marks v dialect m p f.type) f) fields

/-- The fields with the constraints that properties give. -/
def constrainAll (v : ValidationSettings) (dialect : ValidationDialect) (m : CodeModel)
    (properties : List Property) (fields : List Field) : List Field :=
  properties.foldl (constrain v dialect m) fields

/-- The field that a property describes has all the annotations that the property asks for. -/
def Meets (v : ValidationSettings) (dialect : ValidationDialect) (m : CodeModel)
    (fields : List Field) (p : Property) : Prop :=
  ∀ f, fields.find? (·.name == p.name) = some f →
    ∀ a ∈ marks v dialect m p f.type, hasAnnotation f.annotations a.type.name

private theorem markField_grows (f : Field) (as : List Annotation) : f.Grows (markField as f) :=
  ⟨rfl, rfl, rfl, List.prefix_append _ _⟩

private theorem markField_eq_self_iff {as : List Annotation} :
    markField as f = f ↔ ∀ a ∈ as, hasAnnotation f.annotations a.type.name := by
  have hnone : markField as f = f ↔ newMarks f as = [] := by
    constructor
    · intro h
      exact List.append_right_eq_self.mp (congrArg Field.annotations h)
    · intro h
      simp [markField, h]
  simp only [hnone, newMarks, newcomers_eq_nil_iff, hasAnnotation_iff]

private theorem hasAnnotation_markField {as : List Annotation} {a : Annotation} (ha : a ∈ as) :
    hasAnnotation (markField as f).annotations a.type.name := by
  rw [hasAnnotation_iff, markField, List.map_append, List.mem_append]
  exact key_mem_of_mem ha

private theorem constrain_eq_self_iff :
    constrain v dialect m fields p = fields ↔ Meets v dialect m fields p := by
  simp only [constrain, changeField_eq_self_iff, markField_eq_self_iff]
  rfl

/-- The constraints of a property are growth of the fields. -/
theorem constrain_grows (fields : List Field) (p : Property) :
    List.Forall₂ Field.Grows fields (constrain v dialect m fields p) :=
  changeField_grows (fun f => markField_grows f _) fields

/-- The constraints of properties are growth of the fields. -/
theorem constrainAll_grows (properties : List Property) (fields : List Field) :
    List.Forall₂ Field.Grows fields (constrainAll v dialect m properties fields) := by
  induction properties generalizing fields with
  | nil => exact forall₂_refl_of Field.Grows.refl fields
  | cons p rest ih => exact forall₂_trans (constrain_grows fields p) (ih _) Field.Grows.trans

private theorem meets_constrain (fields : List Field) (p : Property) :
    Meets v dialect m (constrain v dialect m fields p) p := by
  intro g hg a ha
  rw [constrain, find?_changeField (fun f => markField (marks v dialect m p f.type) f)
    fun _ => rfl] at hg
  obtain ⟨f, -, rfl⟩ := Option.map_eq_some_iff.mp hg
  exact hasAnnotation_markField ha

/-- What a property asks for is not lost when fields grow. -/
theorem Meets.of_grows (hfields : List.Forall₂ Field.Grows fields grown)
    (h : Meets v dialect m fields p) : Meets v dialect m grown p := by
  intro g hg a ha
  have hrel := Field.Grows.find?_rel hfields p.name
  rw [hg] at hrel
  cases hf : fields.find? (·.name == p.name) with
  | none =>
    rw [hf] at hrel
    cases hrel
  | some f =>
    rw [hf] at hrel
    cases hrel with
    | some hfg =>
      rw [hfg.type] at ha
      have hold := h f hf a ha
      obtain ⟨added, hadded⟩ := hfg.annotations
      rw [← hadded]
      simp only [List.any_append, hasAnnotation, Bool.or_eq_true] at hold ⊢
      exact .inl hold

/-- After the constraints of all properties each of them is met. -/
theorem meets_constrainAll {properties : List Property} (hp : p ∈ properties)
    (fields : List Field) : Meets v dialect m (constrainAll v dialect m properties fields) p := by
  induction properties generalizing fields with
  | nil => cases hp
  | cons q rest ih =>
    rcases List.mem_cons.mp hp with rfl | hrest
    · exact (meets_constrain fields p).of_grows (constrainAll_grows rest _)
    · exact ih hrest _

/-- Constraints change nothing if and only if all of them are there. -/
theorem constrainAll_eq_self_iff : constrainAll v dialect m properties fields = fields ↔
    ∀ p ∈ properties, Meets v dialect m fields p := by
  constructor
  · intro h p hp
    rw [← h]
    exact meets_constrainAll hp fields
  · intro h
    induction properties with
    | nil => rfl
    | cons p rest ih =>
      obtain ⟨hp, hrest⟩ := List.forall_mem_cons.mp h
      change constrainAll v dialect m rest (constrain v dialect m fields p) = fields
      rw [constrain_eq_self_iff.mpr hp]
      exact ih hrest

/-- Constraints are added once. -/
theorem constrainAll_again (properties : List Property) (fields : List Field) :
    constrainAll v dialect m properties (constrainAll v dialect m properties fields) =
      constrainAll v dialect m properties fields :=
  constrainAll_eq_self_iff.mpr fun _ hp => meets_constrainAll hp fields

/-- Fields to which nothing is added get nothing after growth. -/
theorem constrainAll_eq_self_of_grows (hfields : List.Forall₂ Field.Grows fields grown)
    (h : constrainAll v dialect m properties fields = fields) :
    constrainAll v dialect m properties grown = grown :=
  constrainAll_eq_self_iff.mpr fun p hp => (constrainAll_eq_self_iff.mp h p hp).of_grows hfields

/-! ## The pass for constraints -/

/-- How many annotations the fields have together. -/
def annotationCount (fields : List Field) : Nat := (fields.map (·.annotations.length)).sum

/-- A field is counted with the annotations that are new to it. -/
theorem annotationCount_changeField {name : String} (as : Field → List Annotation)
    (hf : fields.find? (·.name == name) = some f) :
    annotationCount (changeField name (fun f => markField (as f) f) fields) =
      annotationCount fields + (newMarks f (as f)).length := by
  induction fields with
  | nil => cases hf
  | cons g rest ih =>
    by_cases hg : g.name == name
    · obtain rfl : g = f := by simpa [hg] using hf
      simp only [annotationCount, changeField, hg, if_true, List.map_cons, List.sum_cons, markField,
        List.length_append]
      omega
    · have hrest : rest.find? (·.name == name) = some f := by simpa [hg] using hf
      have hcount := ih hrest
      simp only [annotationCount, changeField, hg, List.map_cons, List.sum_cons] at hcount ⊢
      simp only [Bool.false_eq_true, if_false, List.map_cons, List.sum_cons]
      omega

/-- A property constrains its field, and the new constraints are counted. -/
theorem applyProperty_eq (v : ValidationSettings) (dialect : ValidationDialect) (m : CodeModel)
    (c : BeanClass) (p : Property) : ∃ tally, (applyProperty v dialect m c p).outcome =
      .ok ({ c with fields := constrain v dialect m c.fields p }, tally) ∧
      annotationCount (constrain v dialect m c.fields p) =
        annotationCount c.fields + tally.membersAdded := by
  unfold applyProperty
  cases hf : c.field? p.name with
  | none =>
    have hsame : constrain v dialect m c.fields p = c.fields := by
      rw [constrain_eq_self_iff]
      intro f hfind
      rw [BeanClass.field?] at hf
      rw [hf] at hfind
      cases hfind
    exact ⟨{}, by simp [hsame], by rw [hsame]; rfl⟩
  | some f =>
    have hupdate : updateField p.name (markField (marks v dialect m p f.type) f) c.fields =
        constrain v dialect m c.fields p :=
      updateField_eq (fun f => markField (marks v dialect m p f.type) f) hf
    have hcount := annotationCount_changeField (fun f => marks v dialect m p f.type) hf
    have hfindings := applyFindings_eq f (findings v dialect m f.type p.kind)
    dsimp only
    cases hkind : unsupported? p.kind with
    | none =>
      refine ⟨{ membersAdded := (newMarks f (marks v dialect m p f.type)).length }, ?_, hcount⟩
      refine Step.bind_eq_ok.mpr ⟨_, hfindings, ?_⟩
      simp only [← hupdate]
      rfl
    | some description =>
      refine ⟨{
        membersAdded := (newMarks f (marks v dialect m p f.type)).length
        skipped := [.unsupported c.name p.name description] }, ?_, hcount⟩
      refine Step.bind_eq_ok.mpr ⟨_, hfindings, ?_⟩
      simp only [← hupdate]
      rfl

/-- The properties always succeed, make the constrained fields and count what is added to them. -/
theorem applyProperties_eq (v : ValidationSettings) (dialect : ValidationDialect) (m : CodeModel)
    (c : BeanClass) (properties : List Property) :
    ∃ tally, (applyProperties v dialect m c properties).outcome =
      .ok ({ c with fields := constrainAll v dialect m properties c.fields }, tally) ∧
      annotationCount (constrainAll v dialect m properties c.fields) =
        annotationCount c.fields + tally.membersAdded := by
  induction properties generalizing c with
  | nil => exact ⟨{}, rfl, rfl⟩
  | cons p rest ih =>
    obtain ⟨first, hfirst, hcount⟩ := applyProperty_eq v dialect m c p
    obtain ⟨others, hothers, hcount'⟩ := ih { c with fields := constrain v dialect m c.fields p }
    refine ⟨first ++ others, ?_, ?_⟩
    · exact Step.bind_eq_ok.mpr ⟨_, hfirst, Step.bind_eq_ok.mpr ⟨_, hothers, rfl⟩⟩
    · change annotationCount (constrainAll v dialect m rest (constrain v dialect m c.fields p)) =
        annotationCount c.fields + (first.membersAdded + others.membersAdded)
      dsimp only at hcount'
      omega

/-- The properties that constrain a class. -/
def constraining (c : BeanClass) : List Property := c.properties.filter fun p => !isReference p.kind

private theorem findings_eq {settings : Settings} {options : List String}
    (h : m.Grows settings options n)
    (t : TypeExpr) (kind : PropertyKind) :
    findings v dialect n t kind = findings v dialect m t kind := by
  have hnested : isNested n t = isNested m t := by
    unfold isNested
    split
    · rfl
    · rw [h.isGenerated_eq]
    · rfl
  have hnumeric : n.isNumeric t = m.isNumeric t := by
    unfold CodeModel.isNumeric
    rw [h.external]
  have hfacets : facetFindings v dialect n t = facetFindings v dialect m t := by
    funext s
    unfold facetFindings
    rw [hnumeric]
  unfold findings
  rw [hnested, hfacets]

/-- A grown model asks for the same constraints. -/
theorem constrainAll_eq_of_grows {settings : Settings} {options : List String}
    (h : m.Grows settings options n) (properties : List Property) :
    constrainAll v dialect n properties = constrainAll v dialect m properties := by
  have hmarks : marks v dialect n = marks v dialect m := by
    funext p t
    rw [marks, findings_eq h, marks]
  have hconstrain : constrain v dialect n = constrain v dialect m := by
    funext fields p
    rw [constrain, hmarks, constrain]
  funext fields
  rw [constrainAll, hconstrain, constrainAll]

end Constraints

/-! ## Hiding -/

namespace PrivateFields

/-- A field that is private. -/
def hide (f : Field) : Field := { f with visibility := .priv }

/-- A field stays as it is if and only if it is private. -/
theorem hide_eq_self_iff {f : Field} : hide f = f ↔ f.visibility = .priv := by
  constructor
  · intro h
    rw [← h]
    rfl
  · intro h
    rw [hide, ← h]

/-- Hiding makes all fields private and counts those that were not. -/
theorem hideFields_eq (className : String) (fields : List Field) :
    (hideFields className fields).outcome =
      .ok (fields.map hide, fields.countP (·.visibility ≠ .priv)) := by
  induction fields with
  | nil => rfl
  | cons f rest ih =>
    unfold hideFields
    by_cases hf : f.visibility = .priv
    · simp [hf, ih, hide_eq_self_iff.mpr hf, bind]
    · simp [hf, ih, hide, bind]

/-- Hidden fields are hidden already. -/
theorem map_hide_again (fields : List Field) : (fields.map hide).map hide = fields.map hide := by
  rw [List.map_map]
  rfl

/-- Constraints do not look at who may use a field, and hiding it does not look at constraints. -/
theorem constrainAll_map_hide {v : ValidationSettings} {dialect : ValidationDialect}
    {m : CodeModel} (properties : List Property) (fields : List Field) :
    Constraints.constrainAll v dialect m properties (fields.map hide) =
      (Constraints.constrainAll v dialect m properties fields).map hide := by
  induction properties generalizing fields with
  | nil => rfl
  | cons p rest ih =>
    have hfirst : Constraints.constrain v dialect m (fields.map hide) p =
        (Constraints.constrain v dialect m fields p).map hide :=
      changeField_map (fun f => Constraints.markField (Constraints.marks v dialect m p f.type) f)
        hide
        (fun _ => rfl) (fun _ => rfl) fields
    change Constraints.constrainAll v dialect m rest _ = _
    rw [hfirst]
    exact ih _

end PrivateFields

end BeanSynthesis
