import BeanSynthesis.Proofs.Equality.Methods
import BeanSynthesis.Proofs.Execution.Added
import BeanSynthesis.Proofs.Growth.Runs

/-!
# Where `equals` and `hashCode` are

After the pass, every class that had no such method before has the one that the pass makes. What
happens to the model later changes neither the method nor its meaning.
-/

namespace BeanSynthesis.Equality

variable {settings : Settings} {options : List String} {m n : CodeModel} {c d : BeanClass}
  {context : PassContext} {report : PassReport}

/-! ## Growth leaves the bodies as they are -/

private theorem needsCast_eq (h : m.Grows settings options n) (t : TypeExpr) :
    needsCast n t = needsCast m t := by
  unfold needsCast
  split
  · exact h.isGenerated_eq _
  · rfl

private theorem fieldEquals_eq_of_grows (h : m.Grows settings options n) (runtime : RuntimeClasses)
    (f : InstanceField) : fieldEquals runtime n f = fieldEquals runtime m f := by
  unfold fieldEquals
  rw [h.category_eq, needsCast_eq h]

private theorem fieldHash_eq_of_grows (h : m.Grows settings options n) (runtime : RuntimeClasses)
    (f : InstanceField) : fieldHash runtime n f = fieldHash runtime m f := by
  unfold fieldHash
  rw [h.category_eq, needsCast_eq h]

/-- The method `equals` is made alike for a class and the grown one. -/
theorem equalsMethod_eq_of_grows (h : m.Grows settings options n)
    (hcd : c.Grows settings options d) (runtime : RuntimeClasses) (fields : List InstanceField) :
    equalsMethod runtime n d fields (n.lineageOf d) =
      equalsMethod runtime m c fields (m.lineageOf c) := by
  have hfields : fieldEquals runtime n = fieldEquals runtime m :=
    funext (fieldEquals_eq_of_grows h runtime)
  unfold equalsMethod equalsBody compareFields
  rw [h.lineageOf_eq hcd, hfields, hcd.asType_eq]

/-- The method `hashCode` is made alike for a class and the grown one. -/
theorem hashCodeMethod_eq_of_grows (h : m.Grows settings options n)
    (hcd : c.Grows settings options d) (runtime : RuntimeClasses) (fields : List InstanceField) :
    hashCodeMethod runtime n fields (n.lineageOf d) =
      hashCodeMethod runtime m fields (m.lineageOf c) := by
  have hfields : fieldHash runtime n = fieldHash runtime m :=
    funext (fieldHash_eq_of_grows h runtime)
  unfold hashCodeMethod hashCodeBody
  rw [h.lineageOf_eq hcd, hfields]

/-- A grown class keeps the generated `equals`. -/
theorem HasEquals.of_grows (h : m.Grows settings options n) (hcd : c.Grows settings options d)
    (hc : HasEquals settings m c) : HasEquals settings n d := by
  obtain ⟨fields, hfields, hn⟩ := hc
  refine ⟨fields, hcd.instanceFields_eq.trans hfields, ?_⟩
  rw [equalsMethod_eq_of_grows h hcd]
  exact BeanClass.method?_of_grows hcd hn

/-- A grown class keeps the generated `hashCode`. -/
theorem HasHashCode.of_grows (h : m.Grows settings options n) (hcd : c.Grows settings options d)
    (hc : HasHashCode settings m c) : HasHashCode settings n d := by
  obtain ⟨fields, hfields, hn⟩ := hc
  refine ⟨fields, hcd.instanceFields_eq.trans hfields, ?_⟩
  rw [hashCodeMethod_eq_of_grows h hcd]
  exact BeanClass.method?_of_grows hcd hn

/-- The type of a field and the values in two objects are the same in a grown class. -/
theorem fieldsRelated_iff_of_grows {p : Program} {runtime : RuntimeClasses} {h : Heap}
    {x y : Value} (hcd : c.Grows settings options d) :
    FieldsRelated p runtime h x y d ↔ FieldsRelated p runtime h x y c := by
  have hdeclared : ∀ name, d.declaredType name = c.declaredType name := by
    intro name
    have hfields := hcd.fields
    unfold BeanClass.declaredType BeanClass.instanceField?
    generalize c.fields = before, d.fields = after at hfields
    induction hfields with
    | nil => rfl
    | cons hf _ ih =>
      rw [List.find?_cons, List.find?_cons, hf.name, hf.isStatic]
      split
      · simp [hf.type]
      · exact ih
  have hfields := hcd.fields
  unfold FieldsRelated
  simp only [hdeclared, hcd.name]
  generalize c.fields = before, d.fields = after at hfields
  induction hfields with
  | nil => simp
  | cons hf _ ih =>
    rw [List.forall_mem_cons, List.forall_mem_cons, hf.isStatic, hf.name, hf.type]
    exact and_congr Iff.rfl ih

/-! ## The pass -/

/-- With `equals` and `hashCode` a model has grown. -/
theorem run_grows (context : PassContext) (m : CodeModel) :
    m.Grows context.settings [option] (run context m).model :=
  .withClasses (forall₂_sweep_exceptEnums (fun _ _ _ => onClass_grows) _)

/-- The two methods of the pass have different names. -/
theorem not_clashes (runtime : RuntimeClasses) (fields : List InstanceField) (lineage : Lineage) :
    [(equalsMethod runtime m c fields lineage).stamp settings option,
      (hashCodeMethod runtime m fields lineage).stamp settings option].Pairwise
        fun a b => ¬a.Clashes b := by
  simp [Method.Clashes, Method.stamp, equalsMethod, hashCodeMethod]

private theorem method?_of_onClass {tally : Tally} {fields : List InstanceField}
    (h : (onClass settings m c).outcome = .ok (d, tally))
    (hfields : c.instanceFields.outcome = .ok fields) {k : Method}
    (hk : k ∈ [(equalsMethod settings.runtime m c fields (m.lineageOf c)).stamp settings option,
      (hashCodeMethod settings.runtime m fields (m.lineageOf c)).stamp settings option])
    (hnone : c.hasMethod k.name k.signature = false) : d.method? k.name k.signature = some k := by
  obtain ⟨fields', hfields', hreceives⟩ := onClass_receives h
  obtain rfl : fields' = fields := Except.ok.inj (hfields'.symm.trans hfields)
  exact hreceives.method? (not_clashes _ _ _) hk hnone

/-- What the pass has done to a class that is no enumeration. -/
theorem onClass_of_run (hm : m.WellFormed) (hrun : (run context m).outcome = .ok report)
    (hc : c ∈ m.classes) (hd : d ∈ (run context m).model.classes) (hname : d.name = c.name)
    (hplain : ¬c.isEnum) : ∃ tally, (onClass context.settings m c).outcome = .ok (d, tally) := by
  rcases CodeModel.treated_of_run hm hrun (fun c d tally hplain htreated =>
    (onClass_grows hplain htreated).name) hc hd hname with ⟨-, henum⟩ | ⟨-, htreated⟩
  · exact absurd henum hplain
  · exact htreated

/-- A class that had no `equals` has the generated one after the pass. -/
theorem hasEquals_of_run (hm : m.WellFormed)
    (hrun : (run context m).outcome = .ok report) (hc : c ∈ m.classes)
    (hd : d ∈ (run context m).model.classes) (hcd : c.Grows context.settings [option] d)
    (hplain : ¬c.isEnum) (hnone : c.hasMethod "equals" [.ofName objectClass] = false) :
    HasEquals context.settings (run context m).model d := by
  obtain ⟨tally, htreated⟩ := onClass_of_run hm hrun hc hd hcd.name hplain
  obtain ⟨fields, hfields, -⟩ := Step.bind_eq_ok.mp htreated
  refine ⟨fields, hcd.instanceFields_eq.trans hfields, ?_⟩
  rw [equalsMethod_eq_of_grows (run_grows context m) hcd]
  exact method?_of_onClass htreated hfields List.mem_cons_self hnone

/-- A class that is to receive `equals`: no enumeration, without the method before, and with no
field that a local variable of it would hide. -/
structure AwaitsEquals (c : BeanClass) : Prop where
  plain : ¬c.isEnum
  noEquals : c.hasMethod "equals" [.ofName objectClass] = false
  free : c.FreeOf ["o", "rhs"]

/-- A run with the pass makes the classes comparable, whatever other passes it has. -/
theorem comparable_of_runPasses {passes : List Pass} {report₀ report : RunReport}
    (hm : m.WellFormed) (hpass : .equality ∈ passes)
    (hrun : (EngineRun.runPasses context m report₀ passes).outcome = .ok report)
    (hc : c ∈ m.classes) (hd : d ∈ (EngineRun.runPasses context m report₀ passes).model.classes)
    (hname : d.name = c.name) (hawaits : AwaitsEquals c) :
    Comparable context.settings (EngineRun.runPasses context m report₀ passes).model d := by
  refine EngineRun.runPasses_gives .equality (fun _ => AwaitsEquals) (Comparable context.settings)
    ?_ ?_ ?_ hm hpass hrun hc hd hname hawaits
  · intro other m c d hne htreats hawaits
    exact {
      plain := by
        rw [htreats.grows.isEnum_eq]
        exact hawaits.plain
      noEquals :=
        (htreats.adds.hasMethod_eq (Pass.not_names_of_ne hne List.mem_cons_self)).trans
          hawaits.noEquals
      free := htreats.grows.freeOf hawaits.free }
  · intro m c d htreats hawaits
    obtain ⟨report, hrun⟩ := htreats.succeeds
    exact ⟨hasEquals_of_run htreats.wellFormed hrun htreats.before htreats.after htreats.grows
      hawaits.plain hawaits.noEquals, htreats.grows.freeOf hawaits.free⟩
  · intro other m c d htreats hcomparable
    exact ⟨hcomparable.1.of_grows (other.run_grows context m) htreats.grows,
      htreats.grows.freeOf hcomparable.2⟩

/-- A class that had no `hashCode` has the generated one after the pass. -/
theorem hasHashCode_of_run (hm : m.WellFormed)
    (hrun : (run context m).outcome = .ok report) (hc : c ∈ m.classes)
    (hd : d ∈ (run context m).model.classes) (hcd : c.Grows context.settings [option] d)
    (hplain : ¬c.isEnum) (hnone : c.hasMethod "hashCode" [] = false) :
    HasHashCode context.settings (run context m).model d := by
  obtain ⟨tally, htreated⟩ := onClass_of_run hm hrun hc hd hcd.name hplain
  obtain ⟨fields, hfields, -⟩ := Step.bind_eq_ok.mp htreated
  refine ⟨fields, hcd.instanceFields_eq.trans hfields, ?_⟩
  rw [hashCodeMethod_eq_of_grows (run_grows context m) hcd]
  exact method?_of_onClass htreated hfields (.tail _ List.mem_cons_self) hnone

end BeanSynthesis.Equality
