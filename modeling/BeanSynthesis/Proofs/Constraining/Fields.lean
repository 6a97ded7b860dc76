import BeanSynthesis.Proofs.Edits.Treatment
import BeanSynthesis.Proofs.Problems
import BeanSynthesis.Proofs.Validation

/-!
# Constraints field by field

The pass for constraints goes through the properties of a class one after the other. Seen from the
fields, the first field of each name receives what all the properties that describe it ask for, in
their order and the first annotation of each class only, and the other fields receive nothing. A run
does this to every class before the first one that lacks a field for a property.
-/

namespace BeanSynthesis

/-- A sweep makes of each class before the first failure what its treatment makes. -/
theorem Makes.sweep_classes {f : BeanClass → Step Changed} {g : BeanClass → BeanClass}
    {count : BeanClass → Nat} (h : Makes f g count) (classes : List BeanClass) :
    (BeanSynthesis.sweep f classes).classes =
      (classes.takeWhile fun c => (failure? (f c).outcome).isNone).map g ++
        classes.dropWhile fun c => (failure? (f c).outcome).isNone := by
  induction classes with
  | nil => rfl
  | cons c rest ih =>
    cases hc : (f c).outcome with
    | error e => simp [sweep_cons_of_error hc, hc]
    | ok changed =>
      have hafter : changed.1 = g c := (h c changed.1 changed.2 hc).1
      simp [sweep_cons_of_ok hc, hc, hafter, ih]

namespace Constraints

variable {v : ValidationSettings} {dialect : ValidationDialect} {context : PassContext}
  {m : CodeModel} {c : BeanClass} {f : Field} {fields : List Field} {name : String}
  {seen : List String} {demand other : Field → List Annotation}

/-! ## Fields -/

@[simp] private theorem markField_nil (f : Field) : markField [] f = f := by
  simp [markField, newMarks, newcomers]

/-- Annotations that are added one list after the other may as well be added at once. -/
theorem markField_markField (as bs : List Annotation) (f : Field) :
    markField bs (markField as f) = markField (as ++ bs) f := by
  simp [markField, newMarks, newcomers_append]

/-- The fields, of which the first one of each name has received the annotations demanded for it. -/
def markFirsts (demand : Field → List Annotation) (seen : List String) : List Field → List Field
  | [] => []
  | f :: rest =>
    (if f.name ∈ seen then f else markField (demand f) f) ::
      markFirsts demand (f.name :: seen) rest

/-- Only demands for names that have not been seen matter. -/
theorem markFirsts_congr (h : ∀ f, f.name ∉ seen → demand f = other f) (fields : List Field) :
    markFirsts demand seen fields = markFirsts other seen fields := by
  induction fields generalizing seen with
  | nil => rfl
  | cons f rest ih =>
    have hrest : ∀ g, g.name ∉ f.name :: seen → demand g = other g := fun g hg =>
      h g fun hmem => hg (List.mem_cons_of_mem _ hmem)
    rw [markFirsts, markFirsts, ih hrest]
    split
    · rfl
    case isFalse hf => rw [h f hf]

private theorem markFirsts_nil (seen : List String) (fields : List Field) :
    markFirsts (fun _ => []) seen fields = fields := by
  induction fields generalizing seen with
  | nil => rfl
  | cons f rest ih => rw [markFirsts, ih, markField_nil, ite_self]

/-- What one more property demands comes after what has been demanded before. -/
theorem changeField_markFirsts (as : TypeExpr → List Annotation) (hname : name ∉ seen)
    (fields : List Field) :
    changeField name (fun f => markField (as f.type) f) (markFirsts demand seen fields) =
      markFirsts (fun f => demand f ++ if name = f.name then as f.type else []) seen fields := by
  induction fields generalizing seen with
  | nil => rfl
  | cons f rest ih =>
    by_cases hf : name = f.name
    · -- This field has the name; those after it are not changed, and their demands stay.
      have hlater : ∀ g : Field, g.name ∉ f.name :: seen →
          demand g = demand g ++ if name = g.name then as g.type else [] := by
        intro g hg
        have hne : name ≠ g.name := fun h => hg (List.mem_cons.mpr (.inl (h.symm.trans hf)))
        rw [if_neg hne, List.append_nil]
      have hnew : f.name ∉ seen := hf ▸ hname
      have hhead : ((markField (demand f) f).name == name) = true := by simp [markField, hf]
      simp only [markFirsts, if_neg hnew, changeField, hhead, if_true, markField_markField,
        if_pos hf]
      rw [markFirsts_congr hlater]
      rfl
    · have hhead :
          ((if f.name ∈ seen then f else markField (demand f) f).name == name) = false := by
        split
        · simp [Ne.symm hf]
        · simp [markField, Ne.symm hf]
      have hlater : name ∉ f.name :: seen := by simp [hf, hname]
      simp only [markFirsts, changeField, hhead, Bool.false_eq_true, if_false, ih hlater, if_neg hf,
        List.append_nil]

/-- What properties demand for a field, in their order. -/
def demanded (v : ValidationSettings) (dialect : ValidationDialect) (m : CodeModel)
    (properties : List Property) (f : Field) : List Annotation :=
  (properties.filter (·.name == f.name)).flatMap fun p => marks v dialect m p f.type

/-- The properties constrain the first field of each name. -/
theorem constrainAll_eq (v : ValidationSettings) (dialect : ValidationDialect) (m : CodeModel)
    (properties : List Property) (fields : List Field) :
    constrainAll v dialect m properties fields =
      markFirsts (demanded v dialect m properties) [] fields := by
  have hall : ∀ demand : Field → List Annotation,
      constrainAll v dialect m properties (markFirsts demand [] fields) =
        markFirsts (fun f => demand f ++ demanded v dialect m properties f) [] fields := by
    induction properties with
    | nil => simp [constrainAll, demanded]
    | cons p rest ih =>
      intro demand
      change constrainAll v dialect m rest (constrain v dialect m _ p) = _
      rw [constrain, changeField_markFirsts _ List.not_mem_nil, ih]
      refine markFirsts_congr (fun f _ => ?_) fields
      by_cases hp : p.name = f.name
      · simp [demanded, hp]
      · simp [demanded, hp]
  have h := hall fun _ => []
  simpa only [markFirsts_nil, List.nil_append] using h

private theorem find?_markFirsts (hname : name ∉ seen) (fields : List Field) :
    (markFirsts demand seen fields).find? (·.name == name) =
      (fields.find? (·.name == name)).map fun f => markField (demand f) f := by
  induction fields generalizing seen with
  | nil => rfl
  | cons f rest ih =>
    by_cases hf : f.name = name
    · have hnew : f.name ∉ seen := hf.symm ▸ hname
      rw [markFirsts, if_neg hnew, List.find?_cons_of_pos (by simpa [markField] using hf),
        List.find?_cons_of_pos (by simpa using hf), Option.map_some]
    · have hlater : name ∉ f.name :: seen := by simp [Ne.symm hf, hname]
      rw [markFirsts, List.find?_cons_of_neg (by split <;> simpa [markField] using hf), ih hlater,
        List.find?_cons_of_neg (by simpa using hf)]

/-- The annotations of a class that a field receives, if it has none: the first one demanded. -/
theorem filter_markField {className : String} (hfresh : ¬ hasAnnotation f.annotations className)
    (as : List Annotation) :
    (markField as f).annotations.filter (markClass · = className) =
      (as.find? (markClass · = className)).toList := by
  have hclass : className ∉ f.annotations.map markClass := by
    simpa [markClass, hasAnnotation] using hfresh
  have hold : f.annotations.filter (markClass · = className) = [] :=
    List.filter_eq_nil_iff.mpr fun a ha heq =>
      hclass (List.mem_map.mpr ⟨a, ha, of_decide_eq_true heq⟩)
  rw [markField, List.filter_append, hold, List.nil_append, newMarks, filter_newcomers hclass]

/-! ## Classes and runs -/

/-- A class whose first field of each name has received what the properties demand. Enumerations
are left as they are. -/
def constrained (settings : Settings) (dialect : ValidationDialect) (m : CodeModel)
    (c : BeanClass) : BeanClass :=
  if c.isEnum then c
  else { c with
    fields := markFirsts (demanded settings.validation dialect m (constraining c)) [] c.fields }

/-- The first field of a name receives what the properties demand for it. -/
theorem constrained_field? {settings : Settings} (hplain : ¬c.isEnum)
    (hf : c.field? name = some f) : (constrained settings dialect m c).field? name =
      some (markField (demanded settings.validation dialect m (constraining c) f) f) := by
  rw [BeanClass.field?] at hf
  rw [constrained, if_neg hplain, BeanClass.field?, find?_markFirsts List.not_mem_nil, hf,
    Option.map_some]

/-- The properties constrain the fields of a class one after the other. -/
theorem constrained_plain {settings : Settings} (hplain : ¬c.isEnum) :
    constrained settings dialect m c = { c with
      fields := constrainAll settings.validation dialect m (constraining c) c.fields } := by
  rw [constrained, if_neg hplain, constrainAll_eq]

/-- A class for which the pass does not fail. -/
def isTreatable (c : BeanClass) : Bool := c.isEnum || c.unbackedProperties.isEmpty

/-- The pass treats the classes for which it does not fail. -/
theorem failure?_exceptEnums_onClass {settings : Settings} :
    (failure? (exceptEnums (onClass settings dialect m) c).outcome).isNone = isTreatable c := by
  rw [failure?_exceptEnums, failure?_onClass, isTreatable]
  by_cases henum : c.isEnum
  · simp [henum]
  · cases c.unbackedProperties <;> simp [henum]

/-- A class that is treated becomes the constrained one, and as many annotations are counted as it
gains. -/
theorem exceptEnums_onClass_makes {settings : Settings} :
    Makes (exceptEnums (onClass settings dialect m)) (constrained settings dialect m) fun c =>
      annotationCount (constrained settings dialect m c).fields - annotationCount c.fields := by
  intro c after tally h
  obtain ⟨hafter, hcount⟩ := onClass_makes.exceptEnums c after tally h
  unfold constrained
  by_cases henum : c.isEnum
  · simp only [henum, if_true, Nat.sub_self] at hafter hcount ⊢
    exact ⟨hafter, hcount⟩
  · simp only [henum, editFields, constrainAll_eq] at hafter hcount ⊢
    exact ⟨hafter, hcount⟩

/-- A run constrains the classes before the first one for which it fails. -/
theorem run_classes (dialect : ValidationDialect) (context : PassContext) (m : CodeModel) :
    (run dialect context m).model = { m with
      classes := (m.classes.takeWhile isTreatable).map (constrained context.settings dialect m) ++
        m.classes.dropWhile isTreatable } := by
  have hmakes : Makes (exceptEnums (onClass context.settings dialect m))
      (constrained context.settings dialect m) _ := exceptEnums_onClass_makes
  have hclasses := hmakes.sweep_classes m.classes
  simp only [failure?_exceptEnums_onClass] at hclasses
  simp only [run, PassRun.ofSweep, hclasses]

/-- A run that succeeds constrains all classes. -/
theorem run_of_ok {report : PassReport} (hok : (run dialect context m).outcome = .ok report) :
    (run dialect context m).model = { m with
      classes := m.classes.map (constrained context.settings dialect m) } := by
  have hsweep : failure? (sweep (exceptEnums (onClass context.settings dialect m))
      m.classes).outcome = none := by
    rw [← failure?_map]
    exact failure?_eq_none.mpr ⟨report, hok⟩
  obtain ⟨tally, htally⟩ := failure?_eq_none.mp hsweep
  have hclasses := (exceptEnums_onClass_makes.sweep htally).1
  simp only [run, PassRun.ofSweep, hclasses]

/-- The field of a name after a run that succeeds. -/
theorem run_field {report : PassReport} (hvalid : m.validate = .ok ())
    (hok : (run dialect context m).outcome = .ok report) (hc : c ∈ m.classes) (hplain : ¬c.isEnum)
    (hf : c.field? name = some f) :
    ∃ d, (run dialect context m).model.class? c.name = some d ∧ d.field? name =
      some (markField (demanded context.settings.validation dialect m (constraining c) f) f) := by
  have hgrows : m.Grows context.settings [option dialect] (run dialect context m).model :=
    (Pass.constraints dialect).run_grows context m
  have hwell := hgrows.wellFormed (CodeModel.wellFormed_of_validate hvalid)
  have hmem : constrained context.settings dialect m c ∈ (run dialect context m).model.classes := by
    rw [run_of_ok hok]
    exact List.mem_map_of_mem hc
  have hname : (constrained context.settings dialect m c).name = c.name := by
    rw [constrained, if_neg hplain]
  exact ⟨_, hname ▸ hwell.class?_name hmem, constrained_field? hplain hf⟩

end Constraints

end BeanSynthesis
