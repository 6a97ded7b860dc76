import BeanSynthesis.Proofs.Edits.Order
import BeanSynthesis.Proofs.Validation

/-!
# Runs that are repeated

A pass that does not look at methods recognises its own work: what it has done it does not do again,
and no pass that runs after it undoes any of it. So a run of such passes over a model that they have
made already changes nothing and reports nothing as added.
-/

namespace BeanSynthesis

variable {settings : Settings} {context : PassContext} {m : CodeModel} {c : BeanClass}
  {pass other : Pass}

/-! ## Edits that are made once -/

private theorem Copying.editInterfaces_again (lineage : Lineage) (xs : List ClassRef) :
    editInterfaces settings lineage (editInterfaces settings lineage xs) =
      editInterfaces settings lineage xs := by
  unfold editInterfaces
  split
  · exact addOnce_addOnce
  · rfl

private theorem Interfaces.editInterfaces_again (xs : List ClassRef) :
    editInterfaces settings m c (editInterfaces settings m c xs) =
      editInterfaces settings m c xs := by
  unfold editInterfaces
  split
  · have hnone : newInterfaces (xs ++ newInterfaces xs
        (listable c.isEnum (interfaceNames settings.implements)))
        (listable c.isEnum (interfaceNames settings.implements)) = [] := by
      rw [newInterfaces, List.map_append]
      exact newcomers_again
    rw [hnone, List.append_nil]
  · rfl

private theorem StyleMarker.mark_mark (marker : String) (xs : List Annotation) :
    mark marker (mark marker xs) = mark marker xs := by
  have hmarked : hasAnnotation (mark marker xs) marker := by
    unfold mark
    split
    case isTrue hold => exact hold
    case isFalse _ => simp [ClassRef.ofName, hasAnnotation, Annotation.ofName]
  exact if_pos hmarked

namespace Pass

private theorem offer_idempotent (pass : Pass) : (pass.offer context m c).Idempotent where
  fields xs := by
    rcases pass.offer_fields with hsame | rfl | ⟨dialect, rfl⟩
    · rw [hsame, id, id]
    · exact PrivateFields.map_hide_again xs
    · exact Constraints.constrainAll_again _ xs
  interfaces xs := by
    rcases pass.offer_interfaces with hsame | rfl | rfl
    · rw [hsame, id, id]
    · exact Copying.editInterfaces_again _ xs
    · exact Interfaces.editInterfaces_again xs
  annotations xs := by
    rcases pass.offer_annotations with hsame | rfl
    · rw [hsame, id, id]
    · exact StyleMarker.mark_mark _ xs

private theorem editOf_idempotent (pass : Pass) : (pass.editOf context m c).Idempotent := by
  unfold editOf
  split
  · exact ⟨fun _ => rfl, fun _ => rfl, fun _ => rfl⟩
  · exact pass.offer_idempotent

private theorem prefix_editOf_interfaces (pass : Pass) (xs : List ClassRef) :
    xs <+: (pass.editOf context m c).interfaces xs := by
  unfold editOf
  split
  · exact List.prefix_rfl
  · rcases pass.offer_interfaces with hsame | rfl | rfl
    · rw [hsame]
      exact List.prefix_rfl
    · change xs <+: Copying.editInterfaces _ _ xs
      unfold Copying.editInterfaces
      split
      · exact prefix_addOnce
      · exact List.prefix_rfl
    · exact Interfaces.prefix_editInterfaces xs

private theorem editFactory_again (pass : Pass) (settings : Settings) (c : BeanClass) :
    pass.editFactory settings (pass.editFactory settings c) = pass.editFactory settings c := by
  cases pass with
  | factoryDocs => exact FactoryDocs.edit_edit c
  | styleMarker =>
    change { c with annotations := StyleMarker.mark _ (StyleMarker.mark _ c.annotations) } = _
    rw [StyleMarker.mark_mark]
    rfl
  | _ => rfl

private theorem editPackages_again (pass : Pass) (settings : Settings) (m : CodeModel)
    (packages : List Package) :
    pass.editPackages settings m (pass.editPackages settings m packages) =
      pass.editPackages settings m packages := by
  cases pass with
  | nullMarker => exact NullMarker.edit_edit
  | _ => rfl

/-! ## Settled passes -/

/-- What a pass has made it does not change again. -/
theorem edited_again {report : PassReport} (hreads : pass.readsMethods = false)
    (h : (pass.run context m).outcome = .ok report) :
    pass.edited context (pass.edited context m) = pass.edited context m := by
  rw [edited_edited h (by simp [hreads])]
  simp only [edited, editFactory_again, editPackages_again,
    ClassEdit.apply_eq_self_iff.mpr (editOf_idempotent pass |>.settled_apply _)]

/-- Two passes for accessors that do not look at methods are the same. -/
theorem eq_of_mem_accessorPasses (hpass : pass ∈ accessorPasses) (hother : other ∈ accessorPasses)
    (hreads : pass.readsMethods = false) (hreads' : other.readsMethods = false) : pass = other := by
  have honly : ∀ p ∈ accessorPasses, p.readsMethods = false → p = localAccessors := by decide
  rw [honly pass hpass hreads, honly other hother hreads']

private theorem exists_eq_constraints (h : pass ∈ validationPasses) :
    ∃ dialect, pass = constraints dialect := by
  rcases List.mem_pair.mp h with rfl | rfl
  · exact ⟨_, rfl⟩
  · exact ⟨_, rfl⟩

/-- Constraints of two dialects do not commute, but neither dialect takes any away. -/
theorem settled_constraints {dialect dialect' : ValidationDialect}
    (h : ((constraints dialect).editOf context m c).Settled c) :
    ((constraints dialect).editOf context m c).Settled
      (((constraints dialect').editOf context m c).apply c) := by
  by_cases henum : c.isEnum
  · have hnone : ∀ dialect, (constraints dialect).editOf context m c = {} := by
      intro dialect
      rw [editOf, henum]
      rfl
    rw [hnone, hnone, ClassEdit.apply_empty]
    exact ⟨List.forall_mem_nil _, List.forall_mem_nil _, rfl, rfl, rfl⟩
  · have hoffer : ∀ dialect, (constraints dialect).editOf context m c =
        (constraints dialect).offer context m c := by
      intro dialect
      simp [editOf, henum]
    rw [hoffer] at h
    rw [hoffer, hoffer]
    exact h.apply
      (Constraints.constrainAll_eq_self_of_grows (Constraints.constrainAll_grows _ _) h.fields)
      rfl rfl

/-- A class that has all that a pass offers still has it after another pass. -/
theorem settled_editOf (hne : pass ≠ other) (hreads : pass.readsMethods = false)
    (hreads' : other.readsMethods = false) (h : (pass.editOf context m c).Settled c) :
    (pass.editOf context m c).Settled ((other.editOf context m c).apply c) := by
  have haccess : ¬(pass ∈ accessorPasses ∧ other ∈ accessorPasses) := fun hboth =>
    hne (eq_of_mem_accessorPasses hboth.1 hboth.2 hreads hreads')
  by_cases hvalid : pass ∈ validationPasses ∧ other ∈ validationPasses
  · obtain ⟨dialect, rfl⟩ := exists_eq_constraints hvalid.1
    obtain ⟨dialect', rfl⟩ := exists_eq_constraints hvalid.2
    exact settled_constraints h
  · exact (editOf_independent hne haccess hvalid).settled_apply pass.prefix_editOf_interfaces h

/-- A pass that would change nothing would still change nothing after another pass. -/
theorem edited_of_settled {report : PassReport} (hreads : pass.readsMethods = false)
    (hreads' : other.readsMethods = false) (hother : (other.run context m).outcome = .ok report)
    (h : pass.edited context m = m) :
    pass.edited context (other.edited context m) = other.edited context m := by
  by_cases hne : pass = other
  · rw [← hne, h, h]
  have hclasses : ∀ c ∈ m.classes, (pass.editOf context m c).apply c = c :=
    map_eq_self_iff.mp (congrArg CodeModel.classes h)
  have hfactories : ∀ c ∈ m.objectFactories, pass.editFactory context.settings c = c :=
    map_eq_self_iff.mp (congrArg CodeModel.objectFactories h)
  have hpackages : pass.editPackages context.settings m m.packages = m.packages :=
    congrArg CodeModel.packages h
  have hclasses' : m.classes.map (fun c =>
      (pass.editOf context m c).apply ((other.editOf context m c).apply c)) =
      m.classes.map fun c => (other.editOf context m c).apply c := by
    apply List.map_congr_left
    intro c hc
    have hsettled := ClassEdit.apply_eq_self_iff.mp (hclasses c hc)
    exact ClassEdit.apply_eq_self_iff.mpr (settled_editOf hne hreads hreads' hsettled)
  have hfactories' : m.objectFactories.map (fun c =>
      pass.editFactory context.settings (other.editFactory context.settings c)) =
      m.objectFactories.map (other.editFactory context.settings) := by
    apply List.map_congr_left
    intro c hc
    rw [editFactory_comm other pass, hfactories c hc]
  rw [edited_edited hother (by simp [hreads]), hclasses', hfactories', editPackages_comm, hpackages]
  rfl

end Pass

/-! ## Runs -/

namespace EngineRun

variable {passes : List Pass} {report₀ report : RunReport}

/-- A pass that would change nothing would still change nothing after a run. -/
theorem edited_runPasses_of_settled (hreads : ∀ p ∈ pass :: passes, p.readsMethods = false)
    (hok : (runPasses context m report₀ passes).outcome = .ok report)
    (h : pass.edited context m = m) :
    pass.edited context (runPasses context m report₀ passes).model =
      (runPasses context m report₀ passes).model := by
  induction passes generalizing m report₀ with
  | nil => exact h
  | cons first rest ih =>
    obtain ⟨hpass, hfirst, hrest⟩ := by simpa only [List.forall_mem_cons] using hreads
    obtain ⟨firstReport, report₁, hrun, hok', hmodel⟩ := runPasses_cons hok
    rw [hmodel]
    refine ih (List.forall_mem_cons.mpr ⟨hpass, hrest⟩) hok' ?_
    rw [(Pass.run_performed hrun).model]
    exact Pass.edited_of_settled hpass hfirst hrun h

/-- After a run none of its passes would change anything. -/
theorem edited_runPasses (hreads : ∀ p ∈ passes, p.readsMethods = false)
    (hok : (runPasses context m report₀ passes).outcome = .ok report) :
    ∀ p ∈ passes, p.edited context (runPasses context m report₀ passes).model =
      (runPasses context m report₀ passes).model := by
  induction passes generalizing m report₀ with
  | nil => simp
  | cons first rest ih =>
    obtain ⟨hfirst, hrest⟩ := List.forall_mem_cons.mp hreads
    obtain ⟨firstReport, report₁, hrun, hok', hmodel⟩ := runPasses_cons hok
    rw [hmodel]
    refine List.forall_mem_cons.mpr ⟨?_, ih hrest hok'⟩
    refine edited_runPasses_of_settled hreads hok' ?_
    rw [(Pass.run_performed hrun).model]
    exact Pass.edited_again hfirst hrun

/-- A run of passes that change nothing leaves the model as it is, and reports nothing as added. -/
theorem runPasses_settled (h : ∀ p ∈ passes, p.edited context m = m)
    (hok : (runPasses context m report₀ passes).outcome = .ok report) :
    (runPasses context m report₀ passes).model = m ∧
      ∃ reports, report.passes = report₀.passes ++ reports ∧
        reports.map (·.option) = passes.map Pass.option ∧
          ∀ r ∈ reports, r.tally.membersAdded = 0 := by
  induction passes generalizing report₀ with
  | nil =>
    obtain rfl := Except.ok.inj hok
    exact ⟨rfl, [], by simp, rfl, by simp⟩
  | cons first rest ih =>
    obtain ⟨hfirst, hrest⟩ := List.forall_mem_cons.mp h
    simp only [runPasses] at hok ⊢
    cases hrun : (first.run context m).outcome with
    | error e => simp [hrun] at hok
    | ok firstReport =>
      have hperformed := Pass.run_performed hrun
      have hmodel : (first.run context m).model = m := hperformed.model.trans hfirst
      rw [hrun] at hok
      dsimp only at hok ⊢
      rw [hmodel] at hok ⊢
      obtain ⟨hsame, reports, hreports, hoptions, hnone⟩ := ih hrest hok
      refine ⟨hsame, firstReport :: reports, ?_, ?_, ?_⟩
      · rw [hreports]
        simp [RunReport.add]
      · rw [List.map_cons, hperformed.option, hoptions, List.map_cons]
      · exact List.forall_mem_cons.mpr ⟨(hperformed.unchanged_iff.mp hfirst).1, hnone⟩

end EngineRun

/-! ## The same run again -/

variable {options : List String} {selected : List Pass} {report : RunReport}

/-- What can be planned for a model can be planned for a grown one. -/
theorem CodeModel.Grows.plan_eq {made : List String} {n : CodeModel} (h : m.Grows settings made n)
    (hplan : m.plan options = .ok selected) : n.plan options = .ok selected := by
  have hvalid : m.validate = .ok () := by
    unfold CodeModel.plan at hplan
    split at hplan
    · cases hplan
    case h_2 hvalid => exact hvalid
  rw [CodeModel.plan_of_valid hvalid] at hplan
  rw [CodeModel.plan_of_valid (h.wellFormed (CodeModel.wellFormed_of_validate hvalid)).validate,
    hplan]

/-- A run that has succeeded succeeds again on the model that it has made. -/
theorem synthesize_again_ok (hplan : m.plan options = .ok selected)
    (hok : (synthesize settings m options).outcome = .ok report) :
    ∃ again,
      (synthesize settings (synthesize settings m options).model options).outcome = .ok again := by
  have hgrows := synthesize_grows settings m options
  have hnone : failure? (synthesize settings m options).outcome = none :=
    failure?_eq_none.mpr ⟨report, hok⟩
  rw [← failure?_eq_none]
  rw [failure?_synthesize, hplan] at hnone
  rw [failure?_synthesize, hgrows.plan_eq hplan]
  simpa only [hgrows.objectionTo?_eq] using hnone

/-- A run without the passes that look at methods, over a model that the same run has made,
succeeds, leaves the model exactly as it is, and reports for each pass that it has added nothing. -/
theorem synthesize_again (hplan : m.plan options = .ok selected)
    (hvalues : .valueAccessors ∉ selected) (hlists : .listAccessors ∉ selected)
    (hok : (synthesize settings m options).outcome = .ok report) :
    let made := (synthesize settings m options).model
    ∃ again, (synthesize settings made options).outcome = .ok again ∧
      (synthesize settings made options).model = made ∧
        again.passes.map (·.option) = selected.map Pass.option ∧
          ∀ r ∈ again.passes, r.tally.membersAdded = 0 := by
  intro made
  have hreads : ∀ p ∈ selected, p.readsMethods = false := by
    intro p hp
    cases p with
    | valueAccessors => exact absurd hp hvalues
    | listAccessors => exact absurd hp hlists
    | _ => rfl
  have hplan' : made.plan options = .ok selected :=
    (synthesize_grows settings m options).plan_eq hplan
  obtain ⟨again, hagain⟩ := synthesize_again_ok hplan hok
  have hmade : made = _ := synthesize_model hplan
  rw [synthesize_outcome hplan] at hok
  have hsettled := EngineRun.edited_runPasses hreads hok
  rw [← hmade] at hsettled
  have hrun := (synthesize_outcome hplan').symm.trans hagain
  obtain ⟨hsame, reports, hreports, hoptions, hnone⟩ := EngineRun.runPasses_settled hsettled hrun
  refine ⟨again, hagain, (synthesize_model hplan').trans hsame, ?_, ?_⟩
  · rw [hreports]
    exact hoptions
  · rw [hreports]
    exact hnone

/-- A class with a date that has to be given. -/
def datedOrder : BeanClass :=
  { name := "shop.Order"
    fields := [{ name := "placed", type := .ofName "java.time.OffsetDateTime" }]
    properties := [{
      name := "placed", publicName := "Placed", kind := .element 1 .one true (.element none) }] }

/-- All eleven passes that do not look at methods run over the class, and run again. -/
theorem datedOrder_synthesized_once :
    let m : CodeModel := { classes := [datedOrder] }
    let settings : Settings := { implements := ["java.io.Serializable"] }
    let selected := Pass.all.filter fun pass => !pass.readsMethods
    let first := synthesize settings m (selected.map Pass.option)
    m.plan (selected.map Pass.option) = .ok selected ∧
      .valueAccessors ∉ selected ∧ .listAccessors ∉ selected ∧
        (∃ report, first.outcome = .ok report ∧ 0 < report.membersAdded) ∧
          ∃ again,
            (synthesize settings first.model (selected.map Pass.option)).outcome = .ok again ∧
            (synthesize settings first.model (selected.map Pass.option)).model = first.model ∧
              again.passes.map (·.option) = selected.map Pass.option ∧
                ∀ r ∈ again.passes, r.tally.membersAdded = 0 := by
  intro m settings selected first
  have hplan : m.plan (selected.map Pass.option) = .ok selected :=
    CodeModel.plan_map_option rfl selected
  have hvalues : .valueAccessors ∉ selected := by decide
  have hlists : .listAccessors ∉ selected := by decide
  have hcount : (EngineRun.runPasses { settings, active := selected.map Pass.option } m {}
      selected).outcome.map (·.membersAdded) = .ok 12 := by decide +kernel
  obtain ⟨report, hrun, hadded⟩ : ∃ report, (EngineRun.runPasses
      { settings, active := selected.map Pass.option } m {} selected).outcome = .ok report ∧
        report.membersAdded = 12 := by
    generalize (EngineRun.runPasses _ _ _ _).outcome = outcome at hcount ⊢
    cases outcome with
    | error e => cases hcount
    | ok report => exact ⟨report, rfl, Except.ok.inj hcount⟩
  have hok : first.outcome = .ok report := (synthesize_outcome hplan).trans hrun
  exact ⟨hplan, hvalues, hlists, ⟨report, hok, by omega⟩, synthesize_again hplan hvalues hlists hok⟩

end BeanSynthesis
