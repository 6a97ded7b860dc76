import BeanSynthesis.Proofs.Growth.Runs
import BeanSynthesis.Proofs.Growth.Shape
import BeanSynthesis.Synthesis.Problems

/-!
# What a run fails on

A pass fails only on what it needs and a class lacks: a property for an instance field, or a field
for a property. It looks at nothing else that could fail, and what it looks at is not changed by
the passes before it. So the problems of a model can be listed without running a pass.
-/

namespace BeanSynthesis

/-- The error that something ended with. -/
def failure? {α : Type} : Except SynthError α → Option SynthError
  | .ok _ => none
  | .error e => some e

section

variable {α β : Type}

@[simp] private theorem failure?_ok (a : α) : failure? (.ok a) = none := rfl

@[simp] private theorem failure?_error (e : SynthError) :
    failure? (.error e : Except SynthError α) = some e :=
  rfl

/-- What is made of a result changes no failure. -/
@[simp] theorem failure?_map (x : Except SynthError α) (f : α → β) :
    failure? (x.map f) = failure? x := by
  cases x <;> rfl

/-- Without a failure there is a result. -/
theorem failure?_eq_none {x : Except SynthError α} : failure? x = none ↔ ∃ a, x = .ok a := by
  cases x <;> simp

/-- Something that cannot fail, after something that has not failed. -/
theorem exists_ok_bind {x : Except SynthError α} {f : α → Except SynthError β}
    (hx : ∃ a, x = .ok a) (hf : ∀ a, ∃ b, f a = .ok b) : ∃ b, x >>= f = .ok b := by
  obtain ⟨a, rfl⟩ := hx
  exact hf a

/-- A failure is an error. -/
theorem failure?_eq_some {x : Except SynthError α} {e : SynthError} :
    failure? x = some e ↔ x = .error e := by
  cases x <;> simp

end

/-! ## Steps that cannot fail -/

namespace Step

variable {α β : Type}

/-- The step has a value. -/
def Succeeds (s : Step α) : Prop := failure? s.outcome = none

private theorem succeeds_pure (a : α) : (pure a : Step α).Succeeds := rfl

private theorem succeeds_log (level : LogLevel) (message : String) : (log level message).Succeeds :=
  rfl

private theorem succeeds_logIf (condition : Bool) (level : LogLevel) (message : String) :
    (logIf condition level message).Succeeds := by
  simp [Succeeds]

private theorem succeeds_ask (name : Option String) : (ask name).Succeeds := by
  simp [Succeeds]

/-- A step fails as its first part does, if the other part cannot fail. -/
theorem failure?_bind (s : Step α) {f : α → Step β} (h : ∀ a, (f a).Succeeds) :
    failure? (s >>= f).outcome = failure? s.outcome := by
  rw [outcome_bind]
  cases s.outcome with
  | error e => rfl
  | ok a => exact h a

private theorem Succeeds.bind {s : Step α} (hs : s.Succeeds) {f : α → Step β}
    (h : ∀ a, (f a).Succeeds) : (s >>= f).Succeeds :=
  (failure?_bind s h).trans hs

private theorem succeeds_forM {f : α → Step Unit} (h : ∀ a, (f a).Succeeds) (xs : List α) :
    (xs.forM f).Succeeds := by
  induction xs with
  | nil => exact succeeds_pure ()
  | cons x xs ih => exact (h x).bind fun _ => ih

private theorem succeeds_foldlM {f : β → α → Step β} (h : ∀ b a, (f b a).Succeeds) (b : β)
    (xs : List α) : (xs.foldlM f b).Succeeds := by
  induction xs generalizing b with
  | nil => exact succeeds_pure b
  | cons x xs ih => exact (h b x).bind ih

end Step

open Step

private theorem BeanClass.succeeds_addMethod (c : BeanClass) (m : Method) :
    (c.addMethod m).Succeeds := by
  obtain ⟨tally, h⟩ := c.addMethod_outcome m
  simp [Succeeds, h]

private theorem BeanClass.succeeds_addMethods (c : BeanClass) (ms : List Method) :
    (c.addMethods ms).Succeeds := by
  obtain ⟨methods, tally, h, -⟩ := c.addMethods_outcome (fun m (_ : m ∈ ms) => trivial)
  simp [Succeeds, h]

/-- A sweep fails on the first class that cannot be treated. -/
theorem failure?_sweep (f : BeanClass → Step Changed) (classes : List BeanClass) :
    failure? (sweep f classes).outcome = classes.findSome? fun c => failure? (f c).outcome := by
  induction classes with
  | nil => rfl
  | cons c rest ih =>
    cases h : (f c).outcome with
    | error e => simp [sweep_cons_of_error h, h]
    | ok changed => simp [sweep_cons_of_ok h, h, ih]

/-- A sweep of what always succeeds succeeds. -/
theorem sweep_succeeds {f : BeanClass → Step Changed} (h : ∀ c, (f c).Succeeds)
    (classes : List BeanClass) : ∃ tally, (sweep f classes).outcome = .ok tally := by
  rw [← failure?_eq_none, failure?_sweep, List.findSome?_eq_none_iff]
  exact fun c _ => h c

/-- An enumeration fails in nothing that is not for it. -/
theorem failure?_exceptEnums (f : BeanClass → Step Changed) (c : BeanClass) :
    failure? (exceptEnums f c).outcome = if c.isEnum then none else failure? (f c).outcome := by
  unfold exceptEnums
  split
  · rfl
  · rfl

/-- What succeeds at every class succeeds when enumerations are left out. -/
theorem succeeds_exceptEnums {f : BeanClass → Step Changed} (h : ∀ c, (f c).Succeeds)
    (c : BeanClass) : (exceptEnums f c).Succeeds := by
  unfold exceptEnums
  split
  · exact succeeds_pure _
  · exact h c

/-! ## What each pass needs of a class -/

variable {settings : Settings} {m : CodeModel} {c d : BeanClass}

private theorem LocalAccessors.failure?_onClass :
    failure? (onClass settings c).outcome = failure? c.instanceFields.outcome :=
  failure?_bind _ fun _ => (c.succeeds_addMethods _).bind fun _ => succeeds_pure _

private theorem ListAccessors.succeeds_planGetter (plan : Plan) (g : ListGetter) :
    (planGetter settings c plan g).Succeeds := by
  unfold planGetter
  dsimp only
  split
  · exact succeeds_pure _
  · exact (succeeds_log _ _).bind fun _ => succeeds_pure _

private theorem ListAccessors.failure?_onClass :
    failure? (onClass settings c).outcome = failure? c.instanceFields.outcome :=
  failure?_bind _ fun _ => (succeeds_foldlM succeeds_planGetter _ _).bind fun _ =>
    (c.succeeds_addMethods _).bind fun _ => succeeds_pure _

private theorem Equality.failure?_onClass :
    failure? (onClass settings m c).outcome = failure? c.instanceFields.outcome :=
  failure?_bind _ fun _ => (succeeds_forM (fun _ => succeeds_ask _) _).bind fun _ =>
    (succeeds_forM (fun _ => succeeds_ask _) _).bind fun _ =>
      (c.succeeds_addMethods _).bind fun _ => (succeeds_logIf _ _ _).bind fun _ => succeeds_pure _

private theorem Description.failure?_onClass :
    failure? (onClass settings m c).outcome = failure? c.instanceFields.outcome := by
  refine failure?_bind _ fun fields => ?_
  split
  · exact succeeds_pure _
  · exact (c.succeeds_addMethod _).bind fun _ => succeeds_pure _

private theorem Copying.failure?_onClass :
    failure? (onClass settings m c).outcome = failure? c.instanceFields.outcome :=
  failure?_bind _ fun _ => (succeeds_forM (fun _ => succeeds_ask _) _).bind fun _ =>
    (BeanClass.succeeds_addMethods _ _).bind fun _ => (succeeds_logIf _ _ _).bind fun _ =>
      succeeds_pure _

namespace Constraints

private theorem succeeds_applyFinding (f : Field) (finding : Finding) :
    (applyFinding f finding).Succeeds := by
  cases finding with
  | sentinel facet literal => exact (succeeds_log _ _).bind fun _ => succeeds_pure _
  | constraint mark =>
    unfold applyFinding
    dsimp only
    split
    · exact succeeds_pure _
    · exact (succeeds_log _ _).bind fun _ => succeeds_pure _

private theorem succeeds_applyFindings (f : Field) (findings : List Finding) :
    (applyFindings f findings).Succeeds := by
  induction findings generalizing f with
  | nil => exact succeeds_pure _
  | cons finding rest ih =>
    exact (succeeds_applyFinding f finding).bind fun first =>
      (ih first.1).bind fun _ => succeeds_pure _

private theorem succeeds_applyProperty (v : ValidationSettings) (dialect : ValidationDialect)
    (m : CodeModel) (c : BeanClass) (p : Property) :
    (applyProperty v dialect m c p).Succeeds := by
  unfold applyProperty
  split
  · exact succeeds_pure _
  · refine (succeeds_applyFindings _ _).bind fun changed => ?_
    dsimp only
    split
    · exact succeeds_pure _
    · exact (succeeds_log _ _).bind fun _ => succeeds_pure _

private theorem succeeds_applyProperties (v : ValidationSettings) (dialect : ValidationDialect)
    (m : CodeModel) (c : BeanClass) (properties : List Property) :
    (applyProperties v dialect m c properties).Succeeds := by
  induction properties generalizing c with
  | nil => exact succeeds_pure _
  | cons p rest ih =>
    exact (succeeds_applyProperty v dialect m c p).bind fun first =>
      (ih first.1).bind fun _ => succeeds_pure _

/-- The pass misses the field of the first property that the list of problems names. -/
theorem find?_unbacked (c : BeanClass) :
    (c.properties.filter fun p => !isReference p.kind).find? (fun p => (c.field? p.name).isNone) =
      c.unbackedProperties.head? := by
  have hreference : ∀ kind, isReference kind = kind.isReference := fun kind => by
    cases kind <;> rfl
  simp only [BeanClass.unbackedProperties, List.find?_filter, List.head?_filter, hreference,
    Bool.decide_and, Bool.decide_eq_true]

/-- A class fails if one of its properties has no field, and names the first such one. -/
theorem failure?_onClass {dialect : ValidationDialect} :
    failure? (onClass settings dialect m c).outcome =
      c.unbackedProperties.head?.map fun p => .missingField c.name p.name := by
  unfold onClass
  dsimp only
  rw [← find?_unbacked]
  split
  case h_1 p hp => simp [hp]
  case h_2 hnone =>
    rw [hnone]
    exact (succeeds_applyProperties _ _ _ _ _).bind fun _ => (succeeds_logIf _ _ _).bind fun _ =>
      succeeds_pure _

end Constraints

private theorem Interfaces.succeeds_addInterfaces (c : BeanClass) (names : List String) :
    (addInterfaces c names).Succeeds := by
  induction names generalizing c with
  | nil => exact succeeds_pure _
  | cons name rest ih =>
    unfold addInterfaces
    split
    · exact ih c
    · split
      · exact (succeeds_log _ _).bind fun _ => ih c
      · exact (ih _).bind fun _ => succeeds_pure _

/-- To add interfaces always succeeds. -/
theorem Interfaces.succeeds_onClass (interfaces : List String) (c : BeanClass) :
    (onClass m interfaces c).Succeeds := by
  unfold onClass
  split
  · exact (succeeds_addInterfaces c interfaces).bind fun _ => succeeds_pure _
  · exact succeeds_pure _

/-- With interfaces to add, the pass succeeds. -/
theorem Interfaces.succeeds_run {context : PassContext}
    (h : interfaceNames context.settings.implements ≠ []) :
    ∃ report, (run context m).outcome = .ok report := by
  obtain ⟨tally, htally⟩ := sweep_succeeds
    (succeeds_onClass (m := m) (interfaceNames context.settings.implements)) m.classes
  unfold run
  simp [h, PassRun.ofSweep, htally, Except.map]

private theorem PrivateFields.succeeds_hideFields (className : String) (fields : List Field) :
    (hideFields className fields).Succeeds := by
  induction fields with
  | nil => exact succeeds_pure _
  | cons f rest ih =>
    unfold hideFields
    split
    · exact ih.bind fun _ => succeeds_pure _
    · exact (succeeds_log _ _).bind fun _ => ih.bind fun _ => succeeds_pure _

/-- To add a marker always succeeds. -/
theorem StyleMarker.succeeds_onClass (marker : String) (c : BeanClass) :
    (onClass marker c).Succeeds := by
  unfold onClass
  split
  · exact succeeds_pure _
  · exact succeeds_pure _

private theorem StyleMarker.succeeds_run (context : PassContext) (m : CodeModel) :
    ∃ report, (run context m).outcome = .ok report := by
  have hsweep := sweep_succeeds
    (succeeds_onClass context.settings.runtime.codingStyleguideUnaware)
  exact exists_ok_bind (hsweep m.classes) fun _ =>
    exists_ok_bind (hsweep m.objectFactories) fun _ => ⟨_, rfl⟩

private theorem FactoryDocs.succeeds_documentMethods (factory : String) (methods : List Method) :
    (documentMethods factory methods).Succeeds := by
  induction methods with
  | nil => exact succeeds_pure _
  | cons n rest ih =>
    unfold documentMethods
    split
    · exact ih.bind fun _ => succeeds_pure _
    · dsimp only
      split
      · exact ih.bind fun _ => succeeds_pure _
      · exact (succeeds_log _ _).bind fun _ => ih.bind fun _ => succeeds_pure _

private theorem FactoryDocs.succeeds_run (context : PassContext) (m : CodeModel) :
    ∃ report, (run context m).outcome = .ok report := by
  have hfactory : ∀ c, (onFactory c).Succeeds := fun c =>
    (succeeds_documentMethods c.name c.methods).bind fun _ => succeeds_pure _
  obtain ⟨tally, htally⟩ := sweep_succeeds hfactory m.objectFactories
  exact ⟨_, by simp only [run, htally, Except.map]; rfl⟩

private theorem NullMarker.succeeds_markAll (m : CodeModel) (names : List String) :
    (markAll settings m names).Succeeds := by
  induction names generalizing m with
  | nil => exact succeeds_pure _
  | cons name rest ih =>
    unfold markAll
    split
    · exact (succeeds_log _ _).bind fun _ => ih m
    · exact (ih _).bind fun _ => succeeds_pure _

private theorem NullMarker.succeeds_run (context : PassContext) (m : CodeModel) :
    ∃ report, (run context m).outcome = .ok report := by
  have hall : (markAll context.settings m (packages m)).Succeeds := succeeds_markAll m (packages m)
  obtain ⟨marked, hmarked⟩ := failure?_eq_none.mp hall
  exact ⟨_, by simp only [run, hmarked, Except.map]; rfl⟩

namespace ValueAccessors

private theorem succeeds_scan (carriers : Carriers) (name : String) :
    (carriers.scan m name).Succeeds := by
  unfold Carriers.scan
  dsimp only
  split
  · split
    · exact succeeds_pure _
    · exact succeeds_pure _
  · split
    · split
      · exact (succeeds_log _ _).bind fun _ => succeeds_pure _
      · exact succeeds_pure _
    · exact (succeeds_log _ _).bind fun _ => succeeds_pure _

/-- To find the carriers of a model always succeeds. -/
theorem succeeds_ofModel (m : CodeModel) : (Carriers.ofModel m).Succeeds :=
  (succeeds_foldlM (fun _ _ => succeeds_foldlM succeeds_scan _ _) _ _).bind fun _ => succeeds_pure _

/-- To add a default constructor always succeeds. -/
theorem succeeds_addDefaultConstructor (c : BeanClass) :
    (addDefaultConstructor settings c).Succeeds := by
  unfold addDefaultConstructor
  split
  · exact succeeds_pure _
  · exact succeeds_pure _

/-- To add constructors from values always succeeds. -/
theorem succeeds_addValueConstructors (withLocal : Bool) (valueType? : BeanClass → Option TypeExpr)
    (c : BeanClass) : (addValueConstructors settings withLocal valueType? c).Succeeds := by
  unfold addValueConstructors
  split
  · exact succeeds_pure _
  · exact (succeeds_log _ _).bind fun _ => succeeds_pure _

/-- To add setters for values always succeeds. -/
theorem succeeds_addSetters (carriers : Dict TypeExpr) (withLocal : Bool) (c : BeanClass) :
    (addSetters settings carriers withLocal c).Succeeds :=
  (c.succeeds_addMethods _).bind fun _ => succeeds_pure _

/-- To add getters for values always succeeds. -/
theorem succeeds_addGetters (carriers : Dict TypeExpr) (withLocal : Bool) (c : BeanClass) :
    (addGetters settings carriers withLocal c).Succeeds :=
  (succeeds_forM (fun _ => succeeds_log _ _) _).bind fun _ =>
    (c.succeeds_addMethods _).bind fun _ => succeeds_pure _

/-- Access to carried values never fails: what cannot be loaded is left out. -/
theorem succeeds_run (context : PassContext) (m : CodeModel) :
    ∃ report, (run context m).outcome = .ok report := by
  have hstage : ∀ {f : BeanClass → Step Changed}, (∀ c, (f c).Succeeds) → ∀ classes,
      ∃ tally, (sweep (exceptEnums f) classes).outcome = .ok tally :=
    fun h classes => sweep_succeeds (succeeds_exceptEnums h) classes
  unfold run
  dsimp only
  split
  case h_1 e he =>
    have hscan := succeeds_ofModel
      { m with classes := (sweep (exceptEnums (addDefaultConstructor context.settings))
        m.classes).classes }
    rw [Succeeds, he] at hscan
    cases hscan
  case h_2 found _ =>
    refine exists_ok_bind (hstage succeeds_addDefaultConstructor _) fun _ => ?_
    refine exists_ok_bind (hstage (succeeds_addValueConstructors _ _) _) fun _ => ?_
    refine exists_ok_bind (hstage (succeeds_addSetters _ _) _) fun _ => ?_
    exact exists_ok_bind (hstage (succeeds_addGetters _ _) _) fun _ => ⟨_, rfl⟩

end ValueAccessors

/-! ## What a pass says against a model -/

/-- What a pass misses in a class that is no enumeration. -/
def Pass.objection? (pass : Pass) (c : BeanClass) : Option SynthError :=
  match pass with
  | .localAccessors => failure? c.instanceFields.outcome
  | .listAccessors => failure? c.instanceFields.outcome
  | .equality => failure? c.instanceFields.outcome
  | .description => failure? c.instanceFields.outcome
  | .copying => failure? c.instanceFields.outcome
  | .constraints _ => c.unbackedProperties.head?.map fun p => .missingField c.name p.name
  | _ => none

/-- What a pass misses in a model, or in what it has been told. -/
def Pass.objectionTo? (pass : Pass) (settings : Settings) (m : CodeModel) : Option SynthError :=
  if pass = .interfaces ∧ Interfaces.interfaceNames settings.implements = [] then
    some (.missingArgument Interfaces.option Interfaces.argument)
  else m.classes.findSome? fun c => if c.isEnum then none else pass.objection? c

/-- A sweep that leaves enumerations alone fails on what its treatment of classes misses. -/
theorem failure?_sweep_exceptEnums {f : BeanClass → Step Changed} {pass : Pass}
    (h : ∀ c, failure? (f c).outcome = pass.objection? c) (classes : List BeanClass) :
    failure? (sweep (exceptEnums f) classes).outcome =
      classes.findSome? fun c => if c.isEnum then none else pass.objection? c := by
  rw [failure?_sweep]
  simp only [failure?_exceptEnums, h]

/-- A pass fails on its first objection. -/
theorem Pass.failure?_run (pass : Pass) (context : PassContext) (m : CodeModel) :
    failure? (pass.run context m).outcome = pass.objectionTo? context.settings m := by
  have hsweep : ∀ {f : BeanClass → Step Changed} {option : String},
      (∀ c, failure? (f c).outcome = pass.objection? c) →
      failure? (PassRun.ofSweep option m (exceptEnums f)).outcome =
        m.classes.findSome? fun c => if c.isEnum then none else pass.objection? c := by
    intro f option h
    rw [← failure?_sweep_exceptEnums h]
    exact failure?_map _ _
  -- a pass that misses nothing in any class has to succeed
  have hnone : (∀ c, pass.objection? c = none) →
      (∃ report, (pass.treat context m).outcome = .ok report) →
      failure? (pass.treat context m).outcome =
        m.classes.findSome? fun c => if c.isEnum then none else pass.objection? c := by
    intro h hrun
    simp only [h, ite_self, failure?_eq_none.mpr hrun]
    exact (List.findSome?_eq_none_iff.mpr fun _ _ => rfl).symm
  unfold objectionTo?
  change failure? (pass.treat context m).outcome = _
  by_cases hargument :
      pass = .interfaces ∧ Interfaces.interfaceNames context.settings.implements = []
  · obtain ⟨rfl, hempty⟩ := hargument
    simp [treat, Interfaces.run, hempty]
  · rw [if_neg hargument]
    cases pass with
    | localAccessors => exact hsweep fun _ => LocalAccessors.failure?_onClass
    | valueAccessors => exact hnone (fun _ => rfl) (ValueAccessors.succeeds_run context m)
    | listAccessors => exact hsweep fun _ => ListAccessors.failure?_onClass
    | equality => exact hsweep fun _ => Equality.failure?_onClass
    | description => exact hsweep fun _ => Description.failure?_onClass
    | copying => exact hsweep fun _ => Copying.failure?_onClass
    | constraints dialect => exact hsweep fun _ => Constraints.failure?_onClass
    | interfaces =>
      exact hnone (fun _ => rfl) (Interfaces.succeeds_run fun h => hargument ⟨rfl, h⟩)
    | privateFields =>
      exact hsweep fun c =>
        (PrivateFields.succeeds_hideFields c.name c.fields).bind fun _ => succeeds_pure _
    | factoryDocs => exact hnone (fun _ => rfl) (FactoryDocs.succeeds_run context m)
    | styleMarker => exact hnone (fun _ => rfl) (StyleMarker.succeeds_run context m)
    | nullMarker => exact hnone (fun _ => rfl) (NullMarker.succeeds_run context m)

/-! ## Runs -/

/-- The same fields are there as before. -/
theorem BeanClass.Grows.isNone_field? {options : List String} (h : c.Grows settings options d)
    (name : String) : (d.field? name).isNone = (c.field? name).isNone := by
  have hfields := h.fields
  unfold BeanClass.field?
  generalize c.fields = before, d.fields = after at hfields
  induction hfields with
  | nil => rfl
  | @cons f g _ _ hf _ ih =>
    rw [List.find?_cons, List.find?_cons, hf.name]
    split
    · rfl
    · exact ih

private theorem BeanClass.Grows.unbackedProperties_eq {options : List String}
    (h : c.Grows settings options d) : d.unbackedProperties = c.unbackedProperties := by
  unfold BeanClass.unbackedProperties
  simp only [h.isNone_field?, h.properties]

/-- What a pass misses in a model is not changed by growth. -/
theorem CodeModel.Grows.objectionTo?_eq {options : List String} {n : CodeModel}
    (h : m.Grows settings options n) (pass : Pass) :
    pass.objectionTo? settings n = pass.objectionTo? settings m := by
  have hclass : ∀ {c d : BeanClass}, c.Grows settings options d →
      (if d.isEnum then none else pass.objection? d) =
        if c.isEnum then none else pass.objection? c := by
    intro c d hcd
    unfold Pass.objection?
    rw [hcd.isEnum_eq, hcd.instanceFields_eq, hcd.unbackedProperties_eq, hcd.name]
  have hclasses := h.classes
  unfold Pass.objectionTo?
  generalize m.classes = before, n.classes = after at hclasses
  split
  · rfl
  · induction hclasses with
    | nil => rfl
    | cons hcd _ ih => rw [List.findSome?_cons, List.findSome?_cons, hclass hcd, ih]

/-- A run fails on the first objection of its passes to the model as it was before the run. -/
theorem EngineRun.failure?_runPasses (context : PassContext) (m : CodeModel) (report : RunReport)
    (passes : List Pass) :
    failure? (runPasses context m report passes).outcome =
      passes.findSome? (·.objectionTo? context.settings m) := by
  induction passes generalizing m report with
  | nil => rfl
  | cons pass rest ih =>
    have hpass := pass.failure?_run context m
    rw [List.findSome?_cons, ← hpass]
    simp only [runPasses]
    cases hrun : (pass.run context m).outcome with
    | error e => rfl
    | ok passReport =>
      simp only [failure?_ok]
      rw [ih]
      simp only [(pass.run_grows context m).objectionTo?_eq]

/-- A run fails if its passes cannot be selected or if one of them fails. -/
theorem failure?_synthesize (options : List String) :
    failure? (synthesize settings m options).outcome =
      match m.plan options with
      | .error e => some e
      | .ok selected => selected.findSome? (·.objectionTo? settings m) := by
  unfold synthesize
  cases m.plan options with
  | error e => rfl
  | ok selected =>
    exact EngineRun.failure?_runPasses { settings, active := selected.map Pass.option } m {}
      selected

/-! ## Problems -/

private theorem BeanClass.problems_eq (c : BeanClass) :
    c.problems = (failure? c.instanceFields.outcome).toList ++
      c.unbackedProperties.map fun p => .missingField c.name p.name := by
  unfold BeanClass.problems
  cases c.instanceFields.outcome <;> rfl

/-- What a pass misses in a class is one of its problems. -/
theorem Pass.mem_problems_of_objection? {pass : Pass} {e : SynthError}
    (h : pass.objection? c = some e) : e ∈ c.problems := by
  rw [c.problems_eq, List.mem_append]
  have hfield : failure? c.instanceFields.outcome = some e →
      e ∈ (failure? c.instanceFields.outcome).toList := fun h => Option.mem_toList.mpr h
  cases pass with
  | localAccessors => exact .inl (hfield h)
  | listAccessors => exact .inl (hfield h)
  | equality => exact .inl (hfield h)
  | description => exact .inl (hfield h)
  | copying => exact .inl (hfield h)
  | constraints dialect =>
    obtain ⟨p, hp, rfl⟩ := Option.map_eq_some_iff.mp h
    exact .inr (List.mem_map_of_mem (List.mem_of_head? hp))
  | _ => cases h

/-- A class without problems is one in which no pass misses anything. -/
theorem BeanClass.problems_eq_nil_iff :
    c.problems = [] ↔ ∀ pass ∈ Pass.all, pass.objection? c = none := by
  constructor
  · intro h pass _
    rw [Option.eq_none_iff_forall_ne_some]
    intro e he
    have hmem := Pass.mem_problems_of_objection? he
    simp [h] at hmem
  · intro h
    have hfields : failure? c.instanceFields.outcome = none := h .equality (by decide)
    have hbacked : c.unbackedProperties.head?.map (fun p => SynthError.missingField c.name p.name) =
        none := h (.constraints .jsr303) (by decide)
    rw [Option.map_eq_none_iff, List.head?_eq_none_iff] at hbacked
    simp [c.problems_eq, hfields, hbacked]

private theorem Pass.objectionTo?_eq_some {pass : Pass} {e : SynthError}
    (h : pass.objectionTo? settings m = some e) :
    e = .missingArgument Interfaces.option Interfaces.argument ∨ e ∈ m.problems := by
  unfold objectionTo? at h
  split at h
  · exact .inl (Option.some.inj h).symm
  · obtain ⟨c, hc, hobjection⟩ := List.exists_of_findSome?_eq_some h
    split at hobjection
    · cases hobjection
    case isFalse hplain =>
      refine .inr (List.mem_flatMap.mpr ⟨c, ?_, mem_problems_of_objection? hobjection⟩)
      simp [hc, hplain]

/-- A model has no problems if and only if no pass that has been told enough has an objection. -/
theorem CodeModel.problems_eq_nil_iff
    (hconfigured : Interfaces.interfaceNames settings.implements ≠ []) :
    m.problems = [] ↔ ∀ pass ∈ Pass.all, pass.objectionTo? settings m = none := by
  have htold : ∀ pass : Pass, pass.objectionTo? settings m =
      m.classes.findSome? fun c => if c.isEnum then none else pass.objection? c := fun pass =>
    if_neg fun h => hconfigured h.2
  simp only [htold, List.findSome?_eq_none_iff, CodeModel.problems, List.flatMap_eq_nil_iff,
    List.mem_filter, BeanClass.problems_eq_nil_iff]
  constructor
  · intro h pass hpass c hc
    cases hplain : c.isEnum with
    | true => rfl
    | false => exact h c ⟨hc, by simp [hplain]⟩ pass hpass
  · rintro h c ⟨hc, hplain⟩ pass hpass
    have hnone := h pass hpass c hc
    simpa [show c.isEnum = false by simpa using hplain] using hnone

/-- In a valid model the passes are selected by their options alone. -/
theorem CodeModel.plan_of_valid (hvalid : m.validate = .ok ()) (options : List String) :
    m.plan options = Pass.select options := by
  unfold CodeModel.plan
  rw [hvalid]

private theorem Pass.select_eq_error {options : List String} {e : SynthError}
    (h : select options = .error e) : ∃ name, e = .unknownPass name := by
  unfold select at h
  dsimp only at h
  split at h
  case h_1 name _ => exact ⟨name, (Except.error.inj h).symm⟩
  case h_2 => cases h

namespace Pass

/-- No two passes share an option. -/
theorem option_injective : Function.Injective option := by
  intro pass other h
  have hfound := ofOption?_option other
  rw [← h, ofOption?_option] at hfound
  exact Option.some.inj hfound

private theorem optionOf_option (pass : Pass) : optionOf pass.option = pass.option := by
  have htext {cs : List Char} (hcs : (Text.trimChars cs).dropWhile (· = '-') = cs) :
      optionOf (.ofList cs) = .ofList cs := by
    rw [optionOf, String.toList_ofList, hcs]
  cases pass with
  | constraints dialect => cases dialect <;> exact htext rfl
  | _ => exact htext rfl

/-- The options of passes select these passes, in the order of all passes. -/
theorem select_map_option (passes : List Pass) :
    select (passes.map option) = .ok (all.filter (· ∈ passes)) := by
  have hwanted : (passes.map option).map optionOf = passes.map option := by
    simp [Function.comp_def, optionOf_option]
  have hknown : (passes.map option).find? (fun name => (ofOption? name).isNone) = none := by
    simp [ofOption?_option]
  unfold select
  simp only [hwanted, hknown]
  congr 1
  refine List.filter_congr fun pass _ => ?_
  rw [List.contains_eq_mem, decide_eq_decide, List.mem_map_of_injective option_injective]

end Pass

/-- The options of some passes select these passes, in the order of the registry. -/
theorem CodeModel.plan_map_option (hvalid : m.validate = .ok ()) (passes : List Pass) :
    m.plan (passes.map Pass.option) = .ok (Pass.all.filter (· ∈ passes)) :=
  (CodeModel.plan_of_valid hvalid _).trans (Pass.select_map_option passes)

/-- A model that is valid, with settings that name an interface, has no problems if and only if all
passes together succeed. Whatever passes run over it, a field without a property or a property
without a field on which the run ends is a problem of the model as it was before the run. -/
theorem problems_foretell_runs (hvalid : m.validate = .ok ())
    (hconfigured : Interfaces.interfaceNames settings.implements ≠ []) :
    (∀ options, Pass.select options = .ok Pass.all →
      (m.problems = [] ↔ ∃ report, (synthesize settings m options).outcome = .ok report)) ∧
      ∀ options e, (synthesize settings m options).outcome = .error e →
        ((∃ className field known, e = .unknownProperty className field known) ∨
          ∃ className field, e = .missingField className field) → e ∈ m.problems := by
  refine ⟨fun options hall => ?_, fun options e hrun hkind => ?_⟩
  · rw [CodeModel.problems_eq_nil_iff hconfigured, ← failure?_eq_none, failure?_synthesize,
      CodeModel.plan_of_valid hvalid, hall]
    exact List.findSome?_eq_none_iff.symm
  · have hfailure := failure?_eq_some.mpr hrun
    rw [failure?_synthesize, CodeModel.plan_of_valid hvalid] at hfailure
    split at hfailure
    case h_1 planError hplan =>
      obtain ⟨name, rfl⟩ := Pass.select_eq_error hplan
      obtain rfl := Option.some.inj hfailure
      simp at hkind
    case h_2 selected _ =>
      obtain ⟨pass, -, hobjection⟩ := List.exists_of_findSome?_eq_some hfailure
      rcases Pass.objectionTo?_eq_some hobjection with rfl | hmem
      · simp at hkind
      · exact hmem

/-- A class with a field for which there is no property. -/
def unlinkedField : BeanClass :=
  { name := "shop.Order", fields := [{ name := "note", type := .ofName "java.lang.String" }] }

/-- The field is a problem of the model, as the second of two passes finds out, and so all passes
together do not succeed. -/
theorem unlinkedField_foretold :
    let m : CodeModel := { classes := [unlinkedField] }
    let settings : Settings := { implements := ["java.io.Serializable"] }
    m.validate = .ok () ∧ Interfaces.interfaceNames settings.implements ≠ [] ∧
      SynthError.unknownProperty "shop.Order" "note" [] ∈ m.problems ∧
      ¬∃ report, (synthesize settings m (Pass.all.map Pass.option)).outcome = .ok report := by
  intro m settings
  have hvalid : m.validate = .ok () := by decide +kernel
  have hconfigured : Interfaces.interfaceNames settings.implements ≠ [] := by decide +kernel
  have hall : Pass.select (Pass.all.map Pass.option) = .ok Pass.all :=
    (Pass.select_map_option Pass.all).trans rfl
  have hrun : (synthesize settings m ["Xph-equalshashcode", "Xph-value-extender"]).outcome =
      .error (.unknownProperty "shop.Order" "note" []) := by rfl
  obtain ⟨hiff, hlisted⟩ := problems_foretell_runs hvalid hconfigured
  have hproblem := hlisted _ _ hrun (.inl ⟨_, _, _, rfl⟩)
  refine ⟨hvalid, hconfigured, hproblem, fun hok => ?_⟩
  rw [(hiff _ hall).mpr hok] at hproblem
  cases hproblem

end BeanSynthesis
