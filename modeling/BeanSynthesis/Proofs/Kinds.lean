import BeanSynthesis.Proofs.Carrying.Members
import BeanSynthesis.Proofs.Edits.Lists
import BeanSynthesis.Proofs.Edits.Order

/-!
# The kinds of synthesized members

All methods that passes offer are of twelve kinds, and all constructors of two. What is to hold of
every member of a run has to be shown of these alone.
-/

namespace BeanSynthesis

variable {context : PassContext} {m : CodeModel} {c : BeanClass} {pass : Pass} {x : Method}
  {k : Constructor}

/-- A pass makes a method for a class of a model. -/
inductive Pass.MakesMethod (context : PassContext) (m : CodeModel) (c : BeanClass) :
    Pass → Method → Prop
  | equals : MakesMethod context m c .equality
      ((Equality.equalsMethod context.settings.runtime m c c.instances (m.lineageOf c)).stamp
        context.settings Equality.option)
  | hashCode : MakesMethod context m c .equality
      ((Equality.hashCodeMethod context.settings.runtime m c.instances (m.lineageOf c)).stamp
        context.settings Equality.option)
  | toString : MakesMethod context m c .description
      ((Description.toStringMethod context.settings.runtime c.instances (m.lineageOf c)).stamp
        context.settings Description.option)
  | cloneTo : MakesMethod context m c .copying
      ((Copying.cloneToMethod context.settings.runtime m c c.instances (m.lineageOf c)).stamp
        context.settings Copying.option)
  | clone : MakesMethod context m c .copying
      ((Copying.cloneMethod context.settings.runtime c).stamp context.settings Copying.option)
  | listSetter {f : InstanceField} (hf : f ∈ c.instances) : MakesMethod context m c .listAccessors
      ((ListAccessors.setter context.settings f).stamp context.settings ListAccessors.option)
  | listCompanion {g : ListAccessors.ListGetter} {x : Method} (hg : g ∈ ListAccessors.getters c)
      (hcompanion : x ∈ ListAccessors.companions context.settings g) :
      MakesMethod context m c .listAccessors
      (x.stamp context.settings ListAccessors.option)
  | listCount {g : ListAccessors.ListGetter} (hg : g ∈ ListAccessors.getters c) (name : String) :
      MakesMethod context m c .listAccessors
      ((g.count context.settings name).stamp context.settings ListAccessors.option)
  | localGetter {f : InstanceField} {companion : LocalCompanion} (hf : f ∈ c.instances)
      (hcompanion : localCompanion? f.type = some companion) :
      MakesMethod context m c .localAccessors
      ((LocalAccessors.getter context.settings f companion).stamp context.settings
        LocalAccessors.option)
  | localSetter {f : InstanceField} {companion : LocalCompanion} (hf : f ∈ c.instances)
      (hcompanion : localCompanion? f.type = some companion) :
      MakesMethod context m c .localAccessors
      ((LocalAccessors.setter context.settings f companion).stamp context.settings
        LocalAccessors.option)
  | valueSetter {n : Method} {param : Param} {type form : TypeExpr} (property : String)
      (hn : n ∈ c.methods) (hparams : n.params = [param])
      (hcarried : ValueAccessors.carried? (ValueAccessors.carriersOf m) param.type = some type)
      (hform : form ∈ ValueAccessors.withCompanion (ValueAccessors.takesLocal context) type) :
      MakesMethod context m c .valueAccessors
      (ValueAccessors.valueSetter context.settings n.name property param.type form)
  | valueGetter {n : Method} (hn : n ∈ c.methods) (name : String) (type : TypeExpr)
      (read : String) : MakesMethod context m c .valueAccessors
      (ValueAccessors.valueGetter context.settings name n.name n.returnType type read)

private theorem LocalAccessors.makesMethod_of_mem (h : x ∈ (edit context.settings c).methods) :
    Pass.MakesMethod context m c .localAccessors x := by
  obtain ⟨made, hmade, rfl⟩ := List.mem_map.mp h
  obtain ⟨f, hf, hmade⟩ := List.mem_flatMap.mp hmade
  unfold fieldMethods at hmade
  split at hmade
  case h_2 => cases hmade
  case h_1 companion hcompanion =>
    rcases List.mem_pair.mp hmade with rfl | rfl
    · exact .localGetter hf hcompanion
    · exact .localSetter hf hcompanion

private theorem ListAccessors.makesMethod_of_mem (h : x ∈ (edit context.settings c).methods) :
    Pass.MakesMethod context m c .listAccessors x := by
  obtain ⟨made, hmade, rfl⟩ := List.mem_map.mp h
  rcases mem_foldl_queue hmade with hsetter | ⟨g, hg, hcompanion | ⟨name, -, -, rfl⟩⟩
  · obtain ⟨f, hf, rfl⟩ := List.mem_map.mp hsetter
    exact .listSetter (List.mem_of_mem_filter hf)
  · exact .listCompanion hg hcompanion
  · exact .listCount hg name

private theorem ValueAccessors.makesMethod_of_mem (h : x ∈ (edit context m c).methods) :
    Pass.MakesMethod context m c .valueAccessors x := by
  rcases List.mem_append.mp h with h | h
  · obtain ⟨n, hn, h⟩ := List.mem_flatMap.mp h
    obtain ⟨param, property, type, hparams, -, hcarried, form, hform, rfl⟩ :=
      exists_of_mem_settersFor h
    exact .valueSetter property hn hparams hcarried hform
  · rw [getters_eq] at h
    obtain ⟨n, hn, h⟩ := List.mem_flatMap.mp h
    obtain ⟨property, type, -, -, -, -, h⟩ := exists_of_mem_offeredGetters h
    rcases mem_gettersOf_iff.mp h with rfl | ⟨-, companion, -, rfl⟩
    · exact .valueGetter hn _ _ _
    · exact .valueGetter hn _ _ _

/-- What a pass offers is of one of these kinds. -/
theorem Pass.makesMethod_of_mem (h : x ∈ (pass.offer context m c).methods) :
    MakesMethod context m c pass x := by
  cases pass with
  | localAccessors => exact LocalAccessors.makesMethod_of_mem h
  | valueAccessors => exact ValueAccessors.makesMethod_of_mem h
  | listAccessors => exact ListAccessors.makesMethod_of_mem h
  | equality =>
    rcases List.mem_pair.mp h with rfl | rfl
    · exact .equals
    · exact .hashCode
  | description =>
    change x ∈ Description.methods context.settings m c at h
    unfold Description.methods at h
    split at h
    · cases h
    · obtain rfl := List.mem_singleton.mp h
      exact .toString
  | copying =>
    rcases List.mem_pair.mp h with rfl | rfl
    · exact .cloneTo
    · exact .clone
  | _ => cases h

/-- Constructors are offered by one pass only: one without parameters, and those for a value. -/
theorem Pass.constructor_of_mem (h : k ∈ (pass.offer context m c).constructors) :
    pass = .valueAccessors ∧ (k = ValueAccessors.defaultConstructor context.settings ∨
      ∃ form, k = ValueAccessors.valueConstructor context.settings form) := by
  have honly : (pass.offer context m c).constructors = [] ∨ pass = .valueAccessors :=
    pass.offer_constructors
  rcases honly with hnone | rfl
  · rw [hnone] at h
    cases h
  · refine ⟨rfl, (List.mem_cons.mp h).imp_right fun h => ?_⟩
    unfold ValueAccessors.constructorsFor at h
    split at h
    · cases h
    · obtain ⟨form, -, rfl⟩ := List.mem_map.mp h
      exact ⟨form, rfl⟩

end BeanSynthesis
