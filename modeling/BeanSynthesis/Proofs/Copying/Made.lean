import BeanSynthesis.Proofs.Copying.Beans
import BeanSynthesis.Proofs.Copying.Methods
import BeanSynthesis.Proofs.Execution.Added
import BeanSynthesis.Proofs.Growth.Runs

/-!
# Where `cloneTo` and `clone` are

After the pass, every class that had no such methods before has the two that the pass makes. Passes
that add methods of other names change neither the two methods nor their meaning.
-/

namespace BeanSynthesis.Copying

variable {settings : Settings} {options : List String} {m n : CodeModel} {c d : BeanClass}
  {context : PassContext} {report : PassReport}

/-! ## Growth leaves the bodies as they are -/

private theorem copyField_eq_of_grows (h : m.Grows settings options n) (runtime : RuntimeClasses)
    (f : InstanceField) : copyField runtime n f = copyField runtime m f := by
  have hcopy : ∀ t value, copyOf runtime n t value = copyOf runtime m t value := by
    intro t value
    unfold copyOf
    rw [h.category_eq]
  simp only [copyField, copyList, hcopy]

/-- The method that copies into an object is made alike for a class and the grown one. -/
theorem cloneToMethod_eq_of_grows (h : m.Grows settings options n)
    (hcd : c.Grows settings options d) (runtime : RuntimeClasses) (fields : List InstanceField) :
    cloneToMethod runtime n d fields (n.lineageOf d) =
      cloneToMethod runtime m c fields (m.lineageOf c) := by
  have hfields : copyField runtime n = copyField runtime m :=
    funext (copyField_eq_of_grows h runtime)
  unfold cloneToMethod cloneToBody
  rw [h.lineageOf_eq hcd, hfields, hcd.asType_eq]

/-- The method that clones is made alike for a class and the grown one. -/
theorem cloneMethod_eq_of_grows (hcd : c.Grows settings options d) (runtime : RuntimeClasses) :
    cloneMethod runtime d = cloneMethod runtime c := by
  unfold cloneMethod cloneBody
  rw [hcd.asType_eq, hcd.isAbstract]

private theorem HasCopying.of_grows (h : m.Grows settings options n)
    (hcd : c.Grows settings options d)
    (hsame : d.methods.filter (·.name == "cloneTo") = c.methods.filter (·.name == "cloneTo"))
    (hc : HasCopying settings m c) : HasCopying settings n d := by
  obtain ⟨fields, hfields, hcloneTo, hclone, hsignatures⟩ := hc
  refine ⟨fields, hcd.instanceFields_eq.trans hfields, ?_, ?_, ?_⟩
  · rw [cloneToMethod_eq_of_grows h hcd, hcd.asType_eq]
    exact BeanClass.method?_of_grows hcd hcloneTo
  · rw [cloneMethod_eq_of_grows hcd]
    exact BeanClass.method?_of_grows hcd hclone
  · rw [hsame, hcd.asType_eq]
    exact hsignatures

private theorem WellNamed.of_grows (hcd : c.Grows settings options d) (hc : WellNamed c) :
    WellNamed d where
  once := by
    rw [hcd.instanceNames_eq]
    exact hc.once
  free := hcd.freeOf hc.free
  named := by
    rw [hcd.properties]
    exact hc.named

/-! ## The pass -/

private theorem run_grows (context : PassContext) (m : CodeModel) :
    m.Grows context.settings [option] (run context m).model :=
  .withClasses (forall₂_sweep_exceptEnums (fun _ _ _ => onClass_grows) _)

/-- A class for which the pass is responsible: no enumeration, without methods that are called like
those of the pass, and with names for everything. -/
structure Eligible (c : BeanClass) : Prop where
  plain : ¬c.isEnum
  fresh : ∀ n ∈ c.methods, n.name ∉ ["cloneTo", "clone"]
  named : WellNamed c

/-- The two methods of the pass have different names. -/
theorem not_clashes (runtime : RuntimeClasses) (fields : List InstanceField) (lineage : Lineage) :
    [(cloneToMethod runtime m c fields lineage).stamp settings option,
      (cloneMethod runtime c).stamp settings option].Pairwise fun a b => ¬a.Clashes b := by
  simp [Method.Clashes, Method.stamp, cloneToMethod, cloneMethod]

/-- What the pass does to the methods of a class. -/
theorem onClass_methods {tally : Tally} (h : (onClass settings m c).outcome = .ok (d, tally)) :
    ∃ fields added tally', c.instanceFields.outcome = .ok fields ∧
      ((withInterface (.ofName settings.runtime.cloneableInterface) (m.lineageOf c) c).addMethods
        [(cloneToMethod settings.runtime m c fields (m.lineageOf c)).stamp settings option,
          (cloneMethod settings.runtime c).stamp settings option]).outcome =
        .ok (added, tally') ∧ d.methods = added.methods := by
  obtain ⟨fields, hfields, added, tally', _, hadd, rfl⟩ := onClass_receives h
  exact ⟨fields, added, tally', hfields, hadd, Changed.noted_methods _ _⟩

private theorem hasCopying_of_run (hm : m.WellFormed) (hrun : (run context m).outcome = .ok report)
    (hc : c ∈ m.classes) (hd : d ∈ (run context m).model.classes)
    (hcd : c.Grows context.settings [option] d) (heligible : Eligible c) :
    HasCopying context.settings (run context m).model d := by
  rcases CodeModel.treated_of_run hm hrun (fun c d tally hplain htreated =>
    (onClass_grows hplain htreated).name) hc hd hcd.name with ⟨-, henum⟩ | ⟨-, tally, htreated⟩
  · exact absurd henum heligible.plain
  · obtain ⟨fields, added, tally', hfields, hadd, hmethods⟩ := onClass_methods htreated
    have hnone : ∀ name signature, name ∈ ["cloneTo", "clone"] →
        c.methods.find? (·.answers name signature) = none := by
      intro name signature hname
      refine List.find?_eq_none.mpr fun n hn hanswers => heligible.fresh n hn ?_
      simp only [Method.answers, Bool.and_eq_true, beq_iff_eq] at hanswers
      exact hanswers.1 ▸ hname
    have hfresh : ∀ name signature, name ∈ ["cloneTo", "clone"] →
        (withInterface (.ofName context.settings.runtime.cloneableInterface) (m.lineageOf c)
          c).hasMethod name signature = false := by
      intro name signature hname
      refine BeanClass.method?_eq_none_iff.mp ?_
      unfold BeanClass.method?
      rw [methods_withInterface]
      exact hnone name signature hname
    have hall := (BeanClass.methods_addMethods hadd (not_clashes _ _ _)
      (by simp [Method.stamp, cloneToMethod, cloneMethod, hfresh]))
    rw [methods_withInterface] at hall
    have hmethods := hmethods.trans hall
    refine ⟨fields, hcd.instanceFields_eq.trans hfields, ?_, ?_, ?_⟩
    · rw [cloneToMethod_eq_of_grows (run_grows context m) hcd, hcd.asType_eq]
      unfold BeanClass.method?
      rw [hmethods, List.find?_append, hnone _ _ (by decide), Option.none_or]
      refine List.find?_cons_of_pos ?_
      simp [Method.answers, Method.stamp, cloneToMethod, Method.hasSignature, haveTypes,
        Param.annotate, Param.final]
    · rw [cloneMethod_eq_of_grows hcd]
      unfold BeanClass.method?
      rw [hmethods, List.find?_append, hnone _ _ (by decide), Option.none_or]
      simp [Method.answers, Method.stamp, cloneToMethod, cloneMethod, Method.hasSignature,
        haveTypes]
    · have hold : c.methods.filter (·.name == "cloneTo") = [] :=
        List.filter_eq_nil_iff.mpr fun n hn heq =>
          heligible.fresh n hn (by simp [beq_iff_eq.mp heq])
      rw [hmethods, List.filter_append, hold, hcd.asType_eq]
      rfl

/-! ## Runs -/

private theorem Eligible.of_treats {pass : Pass} (hpass : pass ≠ .copying)
    (htreats : pass.Treats context m c d) (hc : Eligible c) : Eligible d where
  plain := by
    rw [htreats.grows.isEnum_eq]
    exact hc.plain
  fresh := by
    obtain ⟨added, hadded, hnames⟩ := htreats.adds
    rw [hadded, List.forall_mem_append]
    exact ⟨hc.fresh, fun n hn hname => Pass.not_names_of_ne hpass hname (hnames n hn)⟩
  named := hc.named.of_grows htreats.grows

/-- A class that has the two methods keeps them as they are, also in another run of the pass. -/
theorem HasCopying.of_treats {pass : Pass} (htreats : pass.Treats context m c d)
    (hc : HasCopying context.settings m c) :
    HasCopying context.settings (pass.run context m).model d := by
  refine hc.of_grows (pass.run_grows context m) htreats.grows ?_
  by_cases hpass : pass = .copying
  · subst hpass
    obtain ⟨fields, -, hcloneTo, hclone, -⟩ := hc
    obtain ⟨report, hrun⟩ := htreats.succeeds
    rcases CodeModel.treated_of_run htreats.wellFormed hrun (fun c d tally hplain htreated =>
      (onClass_grows hplain htreated).name) htreats.before htreats.after htreats.grows.name with
      ⟨rfl, -⟩ | ⟨-, tally, htreated⟩
    · rfl
    · obtain ⟨fields', added, tally', -, hadd, hmethods⟩ := onClass_methods htreated
      have hthere : ∀ n ∈ [(cloneToMethod context.settings.runtime m c fields'
          (m.lineageOf c)).stamp context.settings option,
          (cloneMethod context.settings.runtime c).stamp context.settings option],
          (withInterface (.ofName context.settings.runtime.cloneableInterface) (m.lineageOf c)
            c).hasMethod n.name n.signature := by
        unfold BeanClass.hasMethod
        rw [methods_withInterface]
        simp only [List.forall_mem_cons]
        exact ⟨BeanClass.hasMethod_of_method? hcloneTo, BeanClass.hasMethod_of_method? hclone,
          by simp⟩
      rw [hmethods, BeanClass.methods_addMethods_of_hasMethod hadd hthere, methods_withInterface]
  · rw [htreats.adds.filter_methods (Pass.not_names_of_ne hpass List.mem_cons_self)]

/-- A run with the pass makes the classes copyable, whatever other passes it has. -/
theorem copyable_of_runPasses {passes : List Pass} {report₀ report : RunReport}
    (hm : m.WellFormed) (hpass : .copying ∈ passes)
    (hrun : (EngineRun.runPasses context m report₀ passes).outcome = .ok report)
    (hc : c ∈ m.classes) (hd : d ∈ (EngineRun.runPasses context m report₀ passes).model.classes)
    (hname : d.name = c.name) (heligible : Eligible c) :
    Copyable context.settings (EngineRun.runPasses context m report₀ passes).model d := by
  refine EngineRun.runPasses_gives .copying (fun _ => Eligible) (Copyable context.settings)
    (fun hne htreats => .of_treats hne htreats) ?_ ?_ hm hpass hrun hc hd hname heligible
  · intro m c d htreats heligible
    obtain ⟨report, hrun⟩ := htreats.succeeds
    exact ⟨hasCopying_of_run htreats.wellFormed hrun htreats.before htreats.after htreats.grows
      heligible, heligible.named.of_grows htreats.grows⟩
  · intro other m c d htreats hcopyable
    exact ⟨hcopyable.1.of_treats htreats, hcopyable.2.of_grows htreats.grows⟩

/-! ## Suitable classes -/

variable {p : Program} {Q : BeanClass → Prop}

/-- A class of which there are objects, in a hierarchy of classes of this kind. It has a constructor
without parameters, and its list fields have getters. -/
structure Suitable (p : Program) (m : CodeModel) (Q : BeanClass → Prop) (c : BeanClass) : Prop where
  rooted : m.Rooted Q c
  concrete : c.isAbstract = false
  constructs : p.Constructs c.name
  getsLists : p.GetsLists c.name (p.model.lineNamed c.name)

/-- After a run with the pass, the objects of suitable classes can be cloned. -/
theorem clonable_of_suitable {passes : List Pass} {report₀ report : RunReport}
    (hm : m.WellFormed) (hcopying : .copying ∈ passes)
    (hrun : (EngineRun.runPasses context m report₀ passes).outcome = .ok report)
    (hmodel : p.model = (EngineRun.runPasses context m report₀ passes).model)
    (hgrows : m.Grows context.settings options p.model) (hQ : ∀ c, Q c → Eligible c)
    (hd : d ∈ p.model.classes) (hcd : c.Grows context.settings options d)
    (hc : Suitable p m Q c) : Clonable context.settings p d where
  rooted := hgrows.rooted (fun c d hc hd hcd hcQ => by
    rw [hmodel] at hd ⊢
    exact copyable_of_runPasses hm hcopying hrun hc hd hcd.name (hQ c hcQ)) hc.rooted hd hcd
  concrete := hcd.isAbstract.trans hc.concrete
  constructs := hcd.name ▸ hc.constructs
  getsLists := by
    rw [hcd.name, ← (hgrows.wellFormed hm).lineNamed_name hd, hcd.name]
    exact hc.getsLists

/-- Plain beans are suitable. -/
theorem suitable_of_plain (hm : m.WellFormed) (hgrows : m.Grows settings options p.model)
    (hrooted : m.Rooted Q c) (hconcrete : c.isAbstract = false) (hplain : ¬c.isEnum)
    (hname : c.name ≠ "java.util.ArrayList")
    (hnone : ∀ e ∈ p.model.lineNamed c.name, e.constructors = [])
    (hgetters : Program.HasListGetters (p.model.lineNamed c.name)) : Suitable p m Q c := by
  obtain ⟨d, hd, hcd⟩ := hgrows.exists_of_mem_before hrooted.mem
  have hm' := hgrows.wellFormed hm
  have hline : p.model.lineNamed c.name = p.model.line d := by
    rw [← hcd.name, hm'.lineNamed_name hd]
  have hrooted' : p.model.Rooted (fun _ => True) d :=
    hgrows.rooted (fun _ _ _ _ _ _ => trivial) hrooted hd hcd
  rw [hline] at hnone hgetters
  exact {
    rooted := hrooted
    concrete := hconcrete
    constructs := by
      rw [← hcd.name]
      exact Program.constructs_of_none hm' hd (hcd.isAbstract.trans hconcrete)
        (by rwa [hcd.isEnum_eq]) hnone (by rwa [hcd.name])
    getsLists := by
      rw [hline, ← hcd.name]
      exact Program.getsLists_of_getters hm' hrooted' hgetters }

end BeanSynthesis.Copying
