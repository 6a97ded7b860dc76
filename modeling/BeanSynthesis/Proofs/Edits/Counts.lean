import BeanSynthesis.Proofs.Edits.Declarations
import BeanSynthesis.Proofs.Edits.Values

/-!
# What passes count

What a pass does to a class shows in what it counts, with two exceptions. The interface of cloneable
objects is not counted, so a class that has both methods for copies may receive it silently. And the
parameter of a method that wraps an element becomes final without being counted, if the method is
documented as it shall be.
-/

namespace BeanSynthesis

variable {settings : Settings} {context : PassContext} {m : CodeModel} {c : BeanClass}
  {pass : Pass}

/-- A change of classes shows in what it counts, except for what it does silently. -/
def ShownBy (g : BeanClass → BeanClass) (count : BeanClass → Nat) (silent : BeanClass → Prop) :
    Prop :=
  ∀ c, g c = c ↔ count c = 0 ∧ ¬silent c

namespace ShownBy

variable {g : BeanClass → BeanClass} {count : BeanClass → Nat} {silent : BeanClass → Prop}

/-- A change that does nothing silently. -/
theorem of_iff (h : ∀ c, g c = c ↔ count c = 0) : ShownBy g count fun _ => False := by
  intro c
  rw [h c, not_false_eq_true, and_true]

/-- What shows in one class shows in a list of classes. -/
theorem map (h : ShownBy g count silent) (classes : List BeanClass) :
    classes.map g = classes ↔ (classes.map count).sum = 0 ∧ ¬∃ c ∈ classes, silent c := by
  induction classes with
  | nil => simp
  | cons c rest ih =>
    simp only [List.map_cons, List.cons.injEq, List.sum_cons, Nat.add_eq_zero_iff,
      List.exists_mem_cons_iff, h c, ih, not_or]
    exact and_and_and_comm

/-- Enumerations are left as they are. -/
theorem exceptEnums (h : ShownBy g count silent) :
    ShownBy (fun c => if c.isEnum then c else g c) (fun c => if c.isEnum then 0 else count c)
      (fun c => ¬c.isEnum ∧ silent c) := by
  intro c
  by_cases henum : c.isEnum
  · simp [henum]
  · simpa [henum] using h c

end ShownBy

/-! ## Classes -/

namespace ClassEdit

variable {e : ClassEdit}

/-- An edit that offers no members changes lists only. -/
theorem apply_lists (fields : List Field → List Field)
    (interfaces : List ClassRef → List ClassRef) (annotations : List Annotation → List Annotation)
    (c : BeanClass) : ({ fields, interfaces, annotations } : ClassEdit).apply c =
      { c with
        fields := fields c.fields
        interfaces := interfaces c.interfaces
        annotations := annotations c.annotations } := by
  simp [apply, count, BeanClass.newMethods, BeanClass.newConstructors, newcomers]

/-- An edit changes nothing if and only if it adds no members and leaves the lists. -/
theorem apply_eq_self_iff_count : e.apply c = c ↔ e.count c = 0 ∧ e.fields c.fields = c.fields ∧
    e.interfaces c.interfaces = c.interfaces ∧ e.annotations c.annotations = c.annotations := by
  rw [apply_eq_self_iff, count_eq_zero_iff]
  constructor
  · intro h
    exact ⟨⟨h.constructors, h.methods⟩, h.fields, h.interfaces, h.annotations⟩
  · rintro ⟨⟨hconstructors, hmethods⟩, hfields, hinterfaces, hannotations⟩
    exact ⟨hconstructors, hmethods, hfields, hinterfaces, hannotations⟩

/-- An edit that offers members alone leaves a class as it is if and only if it counts none. -/
theorem ofMembers_apply_eq_self_iff {note : String} {ks : List Constructor} {ms : List Method} :
    (ofMembers note ks ms).apply c = c ↔ (ofMembers note ks ms).count c = 0 := by
  rw [apply_eq_self_iff_count]
  exact and_iff_left ⟨rfl, rfl, rfl⟩

end ClassEdit

/-- A class begins a hierarchy and does not list the interface of cloneable objects. -/
def Copying.LacksInterface (settings : Settings) (m : CodeModel) (c : BeanClass) : Prop :=
  m.lineageOf c = .root ∧ .ofName settings.runtime.cloneableInterface ∉ c.interfaces

/-- The edit for copies shows in its count, except for the interface. -/
theorem Copying.edit_shownBy : ShownBy (fun c => (edit settings m c).apply c)
    (fun c => (edit settings m c).count c) (LacksInterface settings m) := by
  intro c
  have hinterfaces : editInterfaces settings (m.lineageOf c) c.interfaces = c.interfaces ↔
      ¬LacksInterface settings m c := by
    unfold editInterfaces addOnce LacksInterface
    by_cases hroot : m.lineageOf c = .root
    · simp [hroot]
    · simp [hroot]
  rw [ClassEdit.apply_eq_self_iff_count, ← hinterfaces]
  exact and_congr_right fun _ => ⟨fun h => h.2.1, fun h => ⟨rfl, h, rfl⟩⟩

namespace Constraints

variable {v : ValidationSettings} {dialect : ValidationDialect}

/-- Constraints are more annotations, if they are any. -/
theorem annotationCount_constrain (fields : List Field) (p : Property) :
    ∃ count, annotationCount (constrain v dialect m fields p) = annotationCount fields + count ∧
      (count = 0 → constrain v dialect m fields p = fields) := by
  cases hfield : fields.find? (·.name == p.name) with
  | none =>
    have hsame : constrain v dialect m fields p = fields :=
      changeField_eq_self_iff.mpr fun f hf => by cases hfield.symm.trans hf
    exact ⟨0, congrArg annotationCount hsame, fun _ => hsame⟩
  | some f =>
    refine ⟨_, annotationCount_changeField (fun f => marks v dialect m p f.type) hfield, ?_⟩
    intro hnone
    refine changeField_eq_self_iff.mpr fun g hg => ?_
    obtain rfl : f = g := Option.some.inj (hfield.symm.trans hg)
    simp [markField, List.length_eq_zero_iff.mp hnone]

private theorem annotationCount_constrainAll (properties : List Property) (fields : List Field) :
    ∃ count, annotationCount (constrainAll v dialect m properties fields) =
        annotationCount fields + count ∧
      (count = 0 → constrainAll v dialect m properties fields = fields) := by
  induction properties generalizing fields with
  | nil => exact ⟨0, rfl, fun _ => rfl⟩
  | cons p rest ih =>
    obtain ⟨first, hfirst, hsame⟩ := annotationCount_constrain (v := v) (m := m) fields p
    obtain ⟨others, hothers, hsame'⟩ := ih (constrain v dialect m fields p)
    refine ⟨first + others, ?_, fun hnone => ?_⟩
    · rw [← Nat.add_assoc, ← hfirst, ← hothers]
      rfl
    · exact (hsame' (by omega)).trans (hsame (by omega))

/-- The edit for constraints shows in its count. -/
theorem editFields_shownBy : ShownBy
    (fun c => { c with fields := editFields settings dialect m c c.fields })
    (fun c => annotationCount (editFields settings dialect m c c.fields) -
      annotationCount c.fields) (fun _ => False) := by
  refine .of_iff fun c => ?_
  obtain ⟨count, hcount, hnone⟩ : ∃ count,
      annotationCount (editFields settings dialect m c c.fields) =
        annotationCount c.fields + count ∧
      (count = 0 → editFields settings dialect m c c.fields = c.fields) :=
    annotationCount_constrainAll (constraining c) c.fields
  constructor
  · intro h
    have hfields : editFields settings dialect m c c.fields = c.fields :=
      congrArg BeanClass.fields h
    rw [hfields, Nat.sub_self]
  · intro h
    rw [hnone (by omega)]

end Constraints

/-- A list that has grown is the same if and only if it has not become longer. -/
theorem eq_iff_of_prefix {α : Type} {xs ys : List α} (h : xs <+: ys) :
    ys = xs ↔ ys.length - xs.length = 0 := by
  constructor
  · rintro rfl
    exact Nat.sub_self _
  · intro hlength
    exact (h.eq_of_length_le (by omega)).symm

/-- Interfaces come behind those that a class has had. -/
theorem Interfaces.prefix_editInterfaces (xs : List ClassRef) :
    xs <+: editInterfaces settings m c xs := by
  unfold editInterfaces
  split
  · exact List.prefix_append _ _
  · exact List.prefix_rfl

/-- The edit for interfaces shows in its count. -/
theorem Interfaces.editInterfaces_shownBy : ShownBy
    (fun c => { c with interfaces := editInterfaces settings m c c.interfaces })
    (fun c => (editInterfaces settings m c c.interfaces).length - c.interfaces.length)
    (fun _ => False) := by
  refine .of_iff fun c => ?_
  rw [← eq_iff_of_prefix (prefix_editInterfaces c.interfaces)]
  exact ⟨congrArg BeanClass.interfaces, fun h => by rw [h]⟩

private theorem StyleMarker.prefix_mark (marker : String) (xs : List Annotation) :
    xs <+: mark marker xs := by
  unfold mark
  split
  · exact List.prefix_rfl
  · exact List.prefix_append _ _

/-- The marker shows in its count. -/
theorem StyleMarker.mark_shownBy {marker : String} : ShownBy
    (fun c => { c with annotations := mark marker c.annotations })
    (fun c => (mark marker c.annotations).length - c.annotations.length) (fun _ => False) := by
  refine .of_iff fun c => ?_
  rw [← eq_iff_of_prefix (prefix_mark marker c.annotations)]
  exact ⟨congrArg BeanClass.annotations, fun h => by rw [h]⟩

/-- A field that becomes private shows in the count. -/
theorem PrivateFields.hide_shownBy : ShownBy (fun c => { c with fields := c.fields.map hide })
    (fun c => c.fields.countP (·.visibility ≠ .priv)) (fun _ => False) := by
  refine .of_iff fun c => ?_
  have hfields : c.fields.map hide = c.fields ↔ c.fields.countP (·.visibility ≠ .priv) = 0 := by
    simp [map_eq_self_iff, hide_eq_self_iff, List.countP_eq_zero]
  rw [← hfields]
  exact ⟨congrArg BeanClass.fields, fun h => by rw [h]⟩

/-! ## Object factories -/

namespace FactoryDocs

/-- A method wraps an element and is documented as it shall be, but its parameter is not final. -/
def LacksFinal (n : Method) : Prop :=
  isCreator n ∧ wrapsElement n ∧ n.javadoc.returns = resultDoc? n ∧ ∃ p ∈ n.params, ¬p.isFinal

/-- A factory has such a method. -/
def LacksFinals (factory : BeanClass) : Prop := ∃ n ∈ factory.methods, LacksFinal n

private theorem publish_eq_self_iff {f : Field} : publish f = f ↔ ¬isHidden f := by
  constructor
  · intro h hhidden
    rw [← h, isHidden_publish] at hhidden
    cases hhidden
  · intro h
    exact if_neg h

private theorem withFinalParam_eq_self_iff {n : Method} :
    withFinalParam n = n ↔ ¬(wrapsElement n ∧ ∃ p ∈ n.params, ¬p.isFinal) := by
  unfold withFinalParam
  by_cases hwraps : wrapsElement n
  · have hparams : (n.params.map fun p => { p with isFinal := true }) = n.params ↔
        ∀ p ∈ n.params, p.isFinal := by
      rw [map_eq_self_iff]
      refine forall₂_congr fun p _ => ⟨fun h => ?_, fun h => ?_⟩
      · rw [← h]
      · rw [← h]
    rw [if_pos hwraps, and_iff_right hwraps, not_exists]
    simp only [not_and, not_not]
    rw [← hparams]
    exact ⟨congrArg Method.params, fun h => by rw [h]⟩
  · rw [if_neg hwraps]
    exact iff_of_true rfl fun h => hwraps h.1

private theorem document_eq_self_iff {n : Method} :
    document n = n ↔ ¬isUndocumented n ∧ ¬LacksFinal n := by
  cases hcreation : creation? n with
  | none =>
    have hsame : document n = n := by simp only [document, hcreation]
    have hdone : ¬isUndocumented n := by simp [isUndocumented, hcreation]
    refine iff_of_true hsame ⟨hdone, ?_⟩
    rintro ⟨hcreator, hwraps, -⟩
    simp [creation?, hcreator, resultDoc?, hwraps] at hcreation
  | some doc =>
    obtain ⟨hcreator, hresult⟩ : isCreator n ∧ resultDoc? n = some doc := by
      simpa [creation?] using hcreation
    have hundone : isUndocumented n ↔ n.javadoc.returns ≠ some doc := by
      simp [isUndocumented, hcreation]
    have hlacks : LacksFinal n ↔ n.javadoc.returns = some doc ∧
        wrapsElement n ∧ ∃ p ∈ n.params, ¬p.isFinal := by
      rw [LacksFinal, hresult, and_iff_right hcreator]
      exact and_left_comm
    rw [hundone, hlacks, not_not]
    by_cases hreturns : n.javadoc.returns = some doc
    · rw [document_of_returns hcreation hreturns, withFinalParam_eq_self_iff]
      simp only [hreturns, true_and]
    · refine iff_of_false (fun h => hreturns ?_) fun h => hreturns h.1
      rw [← h, document_of_creation hcreation]

/-- The edit of a factory shows in its count, except for parameters that become final. -/
theorem edit_shownBy : ShownBy edit
    (fun c => c.fields.countP isHidden + c.methods.countP isUndocumented) LacksFinals := by
  intro c
  have hedit : edit c = c ↔
      c.fields.map publish = c.fields ∧ c.methods.map document = c.methods := by
    constructor
    · intro h
      exact ⟨congrArg BeanClass.fields h, congrArg BeanClass.methods h⟩
    · rintro ⟨hfields, hmethods⟩
      rw [edit, hfields, hmethods]
  simp only [hedit, map_eq_self_iff, publish_eq_self_iff, document_eq_self_iff, LacksFinals,
    Nat.add_eq_zero_iff, List.countP_eq_zero, not_exists, not_and, forall_and, and_assoc]

end FactoryDocs

/-! ## Passes -/

/-- A pass would write something that it does not count. -/
def Pass.WritesSilently (pass : Pass) (settings : Settings) (m : CodeModel) : Prop :=
  match pass with
  | copying => ∃ c ∈ m.classes, ¬c.isEnum ∧ Copying.LacksInterface settings m c
  | factoryDocs => ∃ factory ∈ m.objectFactories, FactoryDocs.LacksFinals factory
  | _ => False

end BeanSynthesis
