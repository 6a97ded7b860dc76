import BeanSynthesis.Proofs.Edits.Counts

/-!
# Passes as edits

A pass that succeeds has edited every class, every object factory and the packages of the model, and
what it does to each can be read off the model before the pass. It has changed something if and only
if it reports members as added, except for what it writes silently.
-/

namespace BeanSynthesis

variable {context : PassContext} {m : CodeModel} {pass : Pass} {c : BeanClass}

namespace Pass

/-- Whether a pass treats enumerations like other classes. -/
def treatsEnums : Pass → Bool
  | interfaces => true
  | styleMarker => true
  | _ => false

/-- What a pass does to a class that it treats. -/
def offer (pass : Pass) (context : PassContext) (m : CodeModel) (c : BeanClass) : ClassEdit :=
  match pass with
  | localAccessors => LocalAccessors.edit context.settings c
  | valueAccessors => ValueAccessors.edit context m c
  | listAccessors => ListAccessors.edit context.settings c
  | equality => Equality.edit context.settings m c
  | description => Description.edit context.settings m c
  | copying => Copying.edit context.settings m c
  | constraints dialect => { fields := Constraints.editFields context.settings dialect m c }
  | interfaces => { interfaces := Interfaces.editInterfaces context.settings m c }
  | privateFields => { fields := List.map PrivateFields.hide }
  | factoryDocs => {}
  | styleMarker =>
    { annotations := StyleMarker.mark context.settings.runtime.codingStyleguideUnaware }
  | nullMarker => {}

/-- What a pass does to a class. -/
def editOf (pass : Pass) (context : PassContext) (m : CodeModel) (c : BeanClass) : ClassEdit :=
  if c.isEnum && !pass.treatsEnums then {} else pass.offer context m c

/-- What a pass does to an object factory. -/
def editFactory (pass : Pass) (settings : Settings) (c : BeanClass) : BeanClass :=
  match pass with
  | factoryDocs => FactoryDocs.edit c
  | styleMarker =>
    { c with
      annotations := StyleMarker.mark settings.runtime.codingStyleguideUnaware c.annotations }
  | _ => c

/-- What a pass does to the packages of a model. -/
def editPackages (pass : Pass) (settings : Settings) (m : CodeModel) (packages : List Package) :
    List Package :=
  match pass with
  | nullMarker => NullMarker.edit settings (NullMarker.packages m) packages
  | _ => packages

/-- What a pass makes of a model. -/
def edited (pass : Pass) (context : PassContext) (m : CodeModel) : CodeModel :=
  { m with
    classes := m.classes.map fun c => (pass.editOf context m c).apply c
    objectFactories := m.objectFactories.map (pass.editFactory context.settings)
    packages := pass.editPackages context.settings m m.packages }

/-! ## Runs of a pass -/

/-- The model is what the pass makes of it, and the report is that of the pass: it reports members
as added if and only if the pass has changed the model, unless it writes silently. -/
structure Performed (pass : Pass) (context : PassContext) (m : CodeModel) (run : PassRun)
    (report : PassReport) : Prop where
  model : run.model = pass.edited context m
  option : report.option = pass.option
  unchanged_iff : pass.edited context m = m ↔
    report.tally.membersAdded = 0 ∧ ¬pass.WritesSilently context.settings m

private theorem withClasses_eq_self_iff {classes : List BeanClass} :
    { m with classes } = m ↔ classes = m.classes :=
  ⟨congrArg CodeModel.classes, fun h => by rw [h]⟩

/-- A sweep of a treatment performs a pass that makes of each class what the treatment makes. -/
theorem performed_sweep {f : BeanClass → Step Changed} {g : BeanClass → BeanClass}
    {count : BeanClass → Nat} {silent : BeanClass → Prop} {report : PassReport}
    (h : Makes f g count) (hshown : ShownBy g count silent)
    (hsilent : pass.WritesSilently context.settings m ↔ ∃ c ∈ m.classes, silent c)
    (hedited : pass.edited context m = { m with classes := m.classes.map g })
    (hok : (PassRun.ofSweep pass.option m f).outcome = .ok report) :
    pass.Performed context m (PassRun.ofSweep pass.option m f) report := by
  unfold PassRun.ofSweep at hok
  dsimp only at hok
  cases hsweep : (sweep f m.classes).outcome with
  | error e => simp [hsweep, Except.map] at hok
  | ok tally =>
    obtain ⟨hclasses, hsum⟩ := h.sweep hsweep
    obtain rfl : _ = report := by simpa [hsweep, Except.map] using hok
    refine ⟨?_, rfl, ?_⟩
    · rw [hedited, ← hclasses]
      rfl
    · rw [hedited, withClasses_eq_self_iff, hshown.map, hsilent, hsum]

/-- A pass that does not treat enumerations makes its offer to all other classes. -/
theorem editOf_apply (henums : pass.treatsEnums = false) (c : BeanClass) :
    (pass.editOf context m c).apply c =
      if c.isEnum then c else (pass.offer context m c).apply c := by
  by_cases henum : c.isEnum
  · simp [editOf, henum, henums]
  · simp [editOf, henum]

/-- The same for a treatment that leaves enumerations alone. -/
theorem performed_exceptEnums {f : BeanClass → Step Changed} {g : BeanClass → BeanClass}
    {count : BeanClass → Nat} {silent : BeanClass → Prop} {report : PassReport}
    (h : Makes f g count) (hshown : ShownBy g count silent)
    (hsilent : pass.WritesSilently context.settings m ↔ ∃ c ∈ m.classes, ¬c.isEnum ∧ silent c)
    (hoffer : ∀ c, (pass.offer context m c).apply c = g c) (henums : pass.treatsEnums = false)
    (hedited : pass.edited context m =
      { m with classes := m.classes.map fun c => (pass.editOf context m c).apply c })
    (hok : (PassRun.ofSweep pass.option m (exceptEnums f)).outcome = .ok report) :
    pass.Performed context m (PassRun.ofSweep pass.option m (exceptEnums f)) report := by
  refine performed_sweep h.exceptEnums hshown.exceptEnums hsilent ?_ hok
  simp only [hedited, editOf_apply henums, hoffer]

/-- A pass for classes alone makes the edited classes of a model. -/
theorem edited_of_classes (hfactory : ∀ c, pass.editFactory context.settings c = c)
    (hpackages : ∀ packages, pass.editPackages context.settings m packages = packages) :
    pass.edited context m =
      { m with classes := m.classes.map fun c => (pass.editOf context m c).apply c } := by
  have hsame : m.objectFactories.map (pass.editFactory context.settings) = m.objectFactories := by
    rw [funext hfactory]
    exact List.map_id' _
  rw [edited, hsame, hpackages]

private theorem performed_values {report : PassReport}
    (h : (ValueAccessors.run context m).outcome = .ok report) :
    valueAccessors.Performed context m (ValueAccessors.run context m) report := by
  obtain ⟨tally, hok, hmodel, hsum⟩ := ValueAccessors.run_eq context m
  obtain rfl := Except.ok.inj (hok.symm.trans h)
  have hedited : valueAccessors.edited context m = { m with
      classes := m.classes.map fun c =>
        if c.isEnum then c else (ValueAccessors.edit context m c).apply c } := by
    have happly : ∀ c, (valueAccessors.editOf context m c).apply c =
        if c.isEnum then c else (valueAccessors.offer context m c).apply c := editOf_apply rfl
    rw [edited_of_classes (fun _ => rfl) fun _ => rfl]
    simp only [happly]
    rfl
  refine ⟨hmodel.trans hedited.symm, rfl, ?_⟩
  have hshown : ShownBy (fun c => (ValueAccessors.edit context m c).apply c)
      (fun c => (ValueAccessors.edit context m c).count c) fun _ => False :=
    .of_iff fun _ => ClassEdit.ofMembers_apply_eq_self_iff
  rw [hedited, withClasses_eq_self_iff, hshown.exceptEnums.map, hsum]
  simp [WritesSilently]

private theorem performed_interfaces {report : PassReport}
    (h : (Interfaces.run context m).outcome = .ok report) :
    interfaces.Performed context m (Interfaces.run context m) report := by
  unfold Interfaces.run at h ⊢
  dsimp only at h ⊢
  split at h
  case isTrue hnone => cases h
  case isFalse hsome =>
    rw [if_neg hsome]
    refine performed_sweep Interfaces.onClass_makes Interfaces.editInterfaces_shownBy
      (by simp [WritesSilently]) ?_ h
    rw [edited_of_classes (fun _ => rfl) fun _ => rfl]
    congr 2
    funext c
    simp [editOf, treatsEnums, offer, ClassEdit.apply_lists]

private theorem performed_factoryDocs {report : PassReport}
    (h : (FactoryDocs.run context m).outcome = .ok report) :
    factoryDocs.Performed context m (FactoryDocs.run context m) report := by
  unfold FactoryDocs.run at h
  dsimp only at h
  cases hsweep : (sweep FactoryDocs.onFactory m.objectFactories).outcome with
  | error e => simp [hsweep, Except.map] at h
  | ok tally =>
    obtain ⟨hfactories, hsum⟩ := FactoryDocs.onFactory_makes.sweep hsweep
    obtain rfl : _ = report := by simpa [hsweep, Except.map] using h
    have hedited : factoryDocs.edited context m =
        { m with objectFactories := m.objectFactories.map FactoryDocs.edit } := by
      simp [edited, editOf, offer, editFactory, editPackages]
    refine ⟨?_, rfl, ?_⟩
    · rw [hedited, ← hfactories]
      rfl
    · have hsame : factoryDocs.edited context m = m ↔
          m.objectFactories.map FactoryDocs.edit = m.objectFactories := by
        rw [hedited]
        exact ⟨congrArg CodeModel.objectFactories, fun h => by rw [h]⟩
      rw [hsame, FactoryDocs.edit_shownBy.map, hsum]
      rfl

private theorem performed_styleMarker {report : PassReport}
    (h : (StyleMarker.run context m).outcome = .ok report) :
    styleMarker.Performed context m (StyleMarker.run context m) report := by
  let marker := context.settings.runtime.codingStyleguideUnaware
  unfold StyleMarker.run at h
  dsimp only at h
  obtain ⟨first, hfirst⟩ := sweep_succeeds (StyleMarker.succeeds_onClass marker) m.classes
  obtain ⟨second, hsecond⟩ := sweep_succeeds (StyleMarker.succeeds_onClass marker) m.objectFactories
  rw [hfirst, hsecond] at h
  obtain rfl := Except.ok.inj h
  obtain ⟨hclasses, hsum⟩ := StyleMarker.onClass_makes.sweep hfirst
  obtain ⟨hfactories, hsum'⟩ := StyleMarker.onClass_makes.sweep hsecond
  have hedited : styleMarker.edited context m = { m with
      classes := m.classes.map fun c =>
        { c with annotations := StyleMarker.mark marker c.annotations }
      objectFactories := m.objectFactories.map fun c =>
        { c with annotations := StyleMarker.mark marker c.annotations } } := by
    simp [edited, editOf, offer, editFactory, editPackages, treatsEnums, ClassEdit.apply_lists,
      marker]
  have hsame : styleMarker.edited context m = m ↔
      m.classes.map (fun c => { c with annotations := StyleMarker.mark marker c.annotations }) =
          m.classes ∧
        m.objectFactories.map (fun c =>
          { c with annotations := StyleMarker.mark marker c.annotations }) =
            m.objectFactories := by
    rw [hedited]
    constructor
    · intro h
      exact ⟨congrArg CodeModel.classes h, congrArg CodeModel.objectFactories h⟩
    · rintro ⟨hclasses, hfactories⟩
      rw [hclasses, hfactories]
  refine ⟨?_, rfl, ?_⟩
  · rw [hedited, ← hclasses, ← hfactories]
    rfl
  · have hboth : (first ++ second).membersAdded = first.membersAdded + second.membersAdded := rfl
    rw [hsame, StyleMarker.mark_shownBy.map, StyleMarker.mark_shownBy.map, hboth, hsum, hsum']
    simp [WritesSilently]

private theorem performed_nullMarker {report : PassReport}
    (h : (NullMarker.run context m).outcome = .ok report) :
    nullMarker.Performed context m (NullMarker.run context m) report := by
  obtain ⟨tally, hmark, hnone⟩ :=
    NullMarker.markAll_eq context.settings m (NullMarker.packages m)
  unfold NullMarker.run at h ⊢
  dsimp only at h ⊢
  rw [hmark] at h
  obtain rfl := Except.ok.inj h
  have hedited : nullMarker.edited context m = { m with
      packages := NullMarker.edit context.settings (NullMarker.packages m) m.packages } := by
    have hfactory : nullMarker.editFactory context.settings = id := rfl
    simp [edited, editOf, offer, hfactory, editPackages]
  refine ⟨?_, rfl, ?_⟩
  · rw [hedited, hmark]
  · have hsame : nullMarker.edited context m = m ↔
        NullMarker.edit context.settings (NullMarker.packages m) m.packages = m.packages := by
      rw [hedited]
      exact ⟨congrArg CodeModel.packages, fun h => by rw [h]⟩
    rw [hsame, NullMarker.edit_eq_self_iff, ← hnone]
    exact (and_iff_left not_false).symm

/-- A pass that succeeds has performed its edits. -/
theorem run_performed {report : PassReport} (h : (pass.run context m).outcome = .ok report) :
    pass.Performed context m (pass.run context m) report := by
  change (pass.treat context m).outcome = .ok report at h
  suffices hperformed : pass.Performed context m (pass.treat context m) report from
    ⟨hperformed.model, hperformed.option, hperformed.unchanged_iff⟩
  have hnever : False ↔ ∃ c ∈ m.classes, ¬c.isEnum ∧ False := by simp
  have hmembers : ∀ {note : BeanClass → String} {ks : BeanClass → List Constructor}
      {ms : BeanClass → List Method},
      ShownBy (fun c => (ClassEdit.ofMembers (note c) (ks c) (ms c)).apply c)
        (fun c => (ClassEdit.ofMembers (note c) (ks c) (ms c)).count c) fun _ => False :=
    .of_iff fun _ => ClassEdit.ofMembers_apply_eq_self_iff
  have hclasses : ∀ {pass : Pass}, (∀ c, pass.editFactory context.settings c = c) →
      (∀ packages, pass.editPackages context.settings m packages = packages) →
      pass.edited context m =
        { m with classes := m.classes.map fun c => (pass.editOf context m c).apply c } :=
    edited_of_classes
  cases pass with
  | localAccessors =>
    exact performed_exceptEnums LocalAccessors.onClass_makes hmembers hnever (fun _ => rfl) rfl
      (hclasses (fun _ => rfl) fun _ => rfl) h
  | valueAccessors => exact performed_values h
  | listAccessors =>
    exact performed_exceptEnums ListAccessors.onClass_makes hmembers hnever (fun _ => rfl) rfl
      (hclasses (fun _ => rfl) fun _ => rfl) h
  | equality =>
    exact performed_exceptEnums Equality.onClass_makes hmembers hnever (fun _ => rfl) rfl
      (hclasses (fun _ => rfl) fun _ => rfl) h
  | description =>
    exact performed_exceptEnums Description.onClass_makes hmembers hnever (fun _ => rfl) rfl
      (hclasses (fun _ => rfl) fun _ => rfl) h
  | copying =>
    exact performed_exceptEnums Copying.onClass_makes Copying.edit_shownBy .rfl (fun _ => rfl) rfl
      (hclasses (fun _ => rfl) fun _ => rfl) h
  | constraints dialect =>
    exact performed_exceptEnums Constraints.onClass_makes Constraints.editFields_shownBy hnever
      (fun c => ClassEdit.apply_lists _ _ _ c) rfl (hclasses (fun _ => rfl) fun _ => rfl) h
  | interfaces => exact performed_interfaces h
  | privateFields =>
    exact performed_exceptEnums PrivateFields.onClass_makes PrivateFields.hide_shownBy hnever
      (fun c => ClassEdit.apply_lists _ _ _ c) rfl (hclasses (fun _ => rfl) fun _ => rfl) h
  | factoryDocs => exact performed_factoryDocs h
  | styleMarker => exact performed_styleMarker h
  | nullMarker => exact performed_nullMarker h

end Pass

/-- A model whose enumerations are left alone stays the same if and only if all other classes do. -/
theorem CodeModel.map_classes_eq_self_iff {f : BeanClass → BeanClass}
    (henums : ∀ c, c.isEnum → f c = c) :
    { m with classes := m.classes.map f } = m ↔ ∀ c ∈ m.classes, ¬c.isEnum → f c = c := by
  constructor
  · intro h c hc _
    exact map_eq_self_iff.mp (congrArg CodeModel.classes h) c hc
  · intro h
    have hclasses : m.classes.map f = m.classes := by
      refine map_eq_self_iff.mpr fun c hc => ?_
      by_cases henum : c.isEnum
      · exact henums c henum
      · exact h c hc henum
    rw [hclasses]

end BeanSynthesis
