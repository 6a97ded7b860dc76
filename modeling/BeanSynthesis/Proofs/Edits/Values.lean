import Mathlib.Algebra.BigOperators.Group.List.Basic
import BeanSynthesis.Proofs.Edits.Treatment
import BeanSynthesis.Proofs.Problems

/-!
# Access to carried values as an edit

The pass sweeps over the classes four times: for the constructor without parameters, the
constructors that take a value, the setters and the getters. The sweeps make one edit of each class,
because the scan for carriers sees nothing of the first sweep and the getters see nothing of the
setters.
-/

namespace BeanSynthesis.ValueAccessors

variable {settings : Settings} {carriers : Dict TypeExpr} {withLocal : Bool} {m : CodeModel}
  {c d : BeanClass} {n x : Method}

/-! ## What a pass reads -/

/-- What the scan of the superclasses finds. -/
def found (m : CodeModel) : Carriers := (Carriers.ofModel m).getD default

/-- What a class of a model carries. -/
def carriedBy? (m : CodeModel) (c : BeanClass) : Option TypeExpr :=
  Carriers.valueType? m (found m) c

/-- What the classes of a model carry, by the name of the class. -/
def carriersOf (m : CodeModel) : Dict TypeExpr := carriedTypes (carriedBy? m) m.classes

/-- Whether local companions take part in a run. -/
def takesLocal (context : PassContext) : Bool := context.active.contains LocalAccessors.option

/-- The constructors that take the value of a class, or its companion. -/
def constructorsFor (settings : Settings) (withLocal : Bool) (type? : Option TypeExpr) :
    List Constructor :=
  match type? with
  | none => []
  | some type => (withCompanion withLocal type).map (valueConstructor settings)

/-- The value setters for the methods of a class. -/
def setters (settings : Settings) (carriers : Dict TypeExpr) (withLocal : Bool) (c : BeanClass) :
    List Method :=
  c.methods.flatMap (settersFor settings carriers withLocal)

/-- The value getters for the methods of a class. -/
def getters (settings : Settings) (carriers : Dict TypeExpr) (withLocal : Bool) (c : BeanClass) :
    List Method :=
  (c.methods.flatMap (gettersFor settings carriers withLocal c)).filterMap Except.toOption

/-! ## The sweeps -/

/-- The constructor without parameters is offered first. -/
def editDefault (settings : Settings) : ClassEdit :=
  .ofMembers (settings.classNote option) [defaultConstructor settings] []

/-- Then the constructors for the value. -/
def editConstructors (settings : Settings) (withLocal : Bool) (type? : Option TypeExpr) :
    ClassEdit :=
  .ofMembers (settings.classNote option) (constructorsFor settings withLocal type?) []

/-- Then the setters. -/
def editSetters (settings : Settings) (carriers : Dict TypeExpr) (withLocal : Bool)
    (c : BeanClass) : ClassEdit :=
  .ofMembers (settings.classNote option) [] (setters settings carriers withLocal c)

/-- Then the getters. -/
def editGetters (settings : Settings) (carriers : Dict TypeExpr) (withLocal : Bool)
    (c : BeanClass) : ClassEdit :=
  .ofMembers (settings.classNote option) [] (getters settings carriers withLocal c)

/-- The first sweep makes the classes with default constructors. -/
theorem addDefaultConstructor_makes : Makes (addDefaultConstructor settings)
    (editDefault settings).apply (editDefault settings).count := by
  intro c after tally h
  unfold addDefaultConstructor at h
  split at h
  case isTrue hold =>
    obtain ⟨rfl, rfl⟩ := Prod.mk.inj (Except.ok.inj h)
    have hsettled : (editDefault settings).Settled c :=
      ⟨List.forall_mem_singleton.mpr hold, List.forall_mem_nil _, rfl, rfl, rfl⟩
    exact hsettled.makes
  case isFalse hnone =>
    have hadd : c.addConstructors [defaultConstructor settings] =
        ({ c with constructors := c.constructors ++ [defaultConstructor settings] },
          .synthesized) := by
      have hnew : ¬c.hasConstructor ((defaultConstructor settings).params.map (·.type)) := hnone
      simp only [BeanClass.addConstructors, BeanClass.addConstructor, if_neg hnew]
      rfl
    have hnoted : Changed.noted (c.addConstructors [defaultConstructor settings])
        (settings.classNote option) = (after, tally) := by
      rw [hadd]
      exact Except.ok.inj h
    exact ClassEdit.noted_addConstructors hnoted

/-- The first sweep goes on to make the classes with constructors from values. -/
theorem addValueConstructors_makes {type? : BeanClass → Option TypeExpr} :
    Makes (addValueConstructors settings withLocal type?)
      (fun c => (editConstructors settings withLocal (type? c)).apply c)
      (fun c => (editConstructors settings withLocal (type? c)).count c) := by
  intro c after tally h
  dsimp only
  unfold addValueConstructors at h
  split at h
  case h_1 hnone =>
    obtain ⟨rfl, rfl⟩ := Prod.mk.inj (Except.ok.inj h)
    rw [hnone]
    exact ⟨(ClassEdit.apply_empty c).symm, rfl⟩
  case h_2 type hsome =>
    obtain ⟨-, -, h⟩ := Step.bind_eq_ok.mp h
    rw [hsome]
    exact ClassEdit.noted_addConstructors (Except.ok.inj h)

/-- The second sweep makes the classes with setters for values. -/
theorem addSetters_makes : Makes (addSetters settings carriers withLocal)
    (fun c => (editSetters settings carriers withLocal c).apply c)
    (fun c => (editSetters settings carriers withLocal c).count c) := by
  intro c after tally h
  obtain ⟨changed, hadd, h⟩ := Step.bind_eq_ok.mp h
  exact ClassEdit.noted_addMethods hadd rfl (Except.ok.inj h)

/-- The third sweep makes the classes with getters for values. -/
theorem addGetters_makes : Makes (addGetters settings carriers withLocal)
    (fun c => (editGetters settings carriers withLocal c).apply c)
    (fun c => (editGetters settings carriers withLocal c).count c) := by
  intro c after tally h
  obtain ⟨-, -, h⟩ := Step.bind_eq_ok.mp h
  obtain ⟨⟨added, first⟩, hadd, h⟩ := Step.bind_eq_ok.mp h
  dsimp only at h
  generalize hskipped : List.map _ _ = skipped at h
  have hskipped : (first ++ { skipped := skipped } : Tally).membersAdded = first.membersAdded :=
    Nat.add_zero _
  exact ClassEdit.noted_addMethods hadd hskipped (Except.ok.inj h)

/-! ## One edit -/

/-- What the pass does to a class that carries a value of this type, or none. -/
def editWith (settings : Settings) (carriers : Dict TypeExpr) (withLocal : Bool)
    (type? : Option TypeExpr) (c : BeanClass) : ClassEdit :=
  .ofMembers (settings.classNote option)
    (defaultConstructor settings :: constructorsFor settings withLocal type?)
    (setters settings carriers withLocal c ++ getters settings carriers withLocal c)

/-- What the pass does to a class. -/
def edit (context : PassContext) (m : CodeModel) (c : BeanClass) : ClassEdit :=
  editWith context.settings (carriersOf m) (takesLocal context) (carriedBy? m c) c

private theorem settersFor_takes (h : x ∈ settersFor settings carriers withLocal n) :
    ∃ type, x.signature = [type] := by
  obtain ⟨param, property, type, -, -, -, t, -, rfl⟩ := exists_of_mem_settersFor h
  exact ⟨t, rfl⟩

private theorem gettersFor_of_params (h : n.params ≠ []) :
    gettersFor settings carriers withLocal c n = [] := by
  unfold gettersFor
  split
  case h_1 hnone _ => exact absurd hnone h
  case h_2 => rfl

/-- The getters for values depend on the class through the names in use alone. -/
theorem gettersFor_congr (h : ∀ property type,
      d.hasMethodWithoutParams (valueGetterName property type) =
        c.hasMethodWithoutParams (valueGetterName property type)) :
    gettersFor settings carriers withLocal d = gettersFor settings carriers withLocal c := by
  funext n
  unfold gettersFor
  simp only [h]

/-- Methods with parameters make no difference to the getters. -/
theorem getters_of_append {added : List Method} (hmethods : d.methods = c.methods ++ added)
    (hadded : ∀ x ∈ added, x.params ≠ []) :
    getters settings carriers withLocal d = getters settings carriers withLocal c := by
  have hsame : ∀ name, d.hasMethodWithoutParams name = c.hasMethodWithoutParams name := by
    intro name
    have hnone : added.any (fun x => x.name == name && x.hasSignature []) = false := by
      simp only [List.any_eq_false, Bool.and_eq_true, not_and]
      intro x hx _
      simpa [Method.hasSignature, haveTypes] using hadded x hx
    rw [BeanClass.hasMethodWithoutParams, BeanClass.hasMethod, hmethods, List.any_append, hnone,
      Bool.or_false]
    rfl
  have hnew : added.flatMap (gettersFor settings carriers withLocal c) = [] :=
    List.flatMap_eq_nil_iff.mpr fun x hx => gettersFor_of_params (hadded x hx)
  rw [getters, gettersFor_congr fun _ _ => hsame _, hmethods, List.flatMap_append, hnew,
    List.append_nil, getters]

/-- The class after the third sweep. -/
def afterSetters (settings : Settings) (carriers : Dict TypeExpr) (withLocal : Bool)
    (type? : Option TypeExpr) (c : BeanClass) : BeanClass :=
  (ClassEdit.ofMembers (settings.classNote option)
    (defaultConstructor settings :: constructorsFor settings withLocal type?)
    (setters settings carriers withLocal c)).apply c

private theorem isEnum_afterSetters (type? : Option TypeExpr) (c : BeanClass) :
    (afterSetters settings carriers withLocal type? c).isEnum = c.isEnum :=
  ClassEdit.apply_isEnum _ c

/-- The setters before them do not change which getters are offered. -/
theorem getters_afterSetters (type? : Option TypeExpr) (c : BeanClass) :
    getters settings carriers withLocal (afterSetters settings carriers withLocal type? c) =
      getters settings carriers withLocal c := by
  refine getters_of_append (ClassEdit.apply_methods _ c) fun x hx => ?_
  obtain ⟨n, -, hn⟩ := List.mem_flatMap.mp (mem_of_mem_newcomers hx)
  obtain ⟨type, htype⟩ := settersFor_takes hn
  intro hnone
  rw [Method.signature, hnone] at htype
  cases htype

/-- A treatment of a class by the first three sweeps, with what they count. -/
theorem firstSweeps_eq (type? : Option TypeExpr) (c : BeanClass) :
    let first := (editDefault settings).apply c
    let second := (editConstructors settings withLocal type?).apply first
    (editSetters settings carriers withLocal second).apply second =
        afterSetters settings carriers withLocal type? c ∧
      (editDefault settings).count c + (editConstructors settings withLocal type?).count first +
          (editSetters settings carriers withLocal second).count second =
        (ClassEdit.ofMembers (settings.classNote option)
          (defaultConstructor settings :: constructorsFor settings withLocal type?)
          (setters settings carriers withLocal c)).count c := by
  intro first second
  have hsecond : second = (ClassEdit.ofMembers (settings.classNote option)
      ([defaultConstructor settings] ++ constructorsFor settings withLocal type?)
      ([] ++ [])).apply c :=
    (ClassEdit.ofMembers_apply_append ..).symm
  have hmethods : second.methods = c.methods := by
    simp [hsecond, ClassEdit.ofMembers, BeanClass.newMethods, newcomers]
  have hsetters : setters settings carriers withLocal second =
      setters settings carriers withLocal c := by
    rw [setters, hmethods, setters]
  rw [editSetters, hsetters]
  constructor
  · rw [hsecond, ← ClassEdit.ofMembers_apply_append]
    simp [afterSetters]
  · have hcount := ClassEdit.ofMembers_count_append (settings.classNote option)
      [defaultConstructor settings] (constructorsFor settings withLocal type?) [] [] c
    have hlater := ClassEdit.ofMembers_count_append (settings.classNote option)
      ([defaultConstructor settings] ++ constructorsFor settings withLocal type?) [] ([] ++ [])
      (setters settings carriers withLocal c) c
    rw [← hsecond] at hlater
    simp only [List.append_nil, List.nil_append, List.singleton_append] at hcount hlater
    rw [hlater, hcount]
    rfl

/-- The fourth sweep completes the edit. -/
theorem lastSweep_eq (type? : Option TypeExpr) (c : BeanClass) :
    let third := afterSetters settings carriers withLocal type? c
    (editGetters settings carriers withLocal third).apply third =
        (editWith settings carriers withLocal type? c).apply c ∧
      (ClassEdit.ofMembers (settings.classNote option)
          (defaultConstructor settings :: constructorsFor settings withLocal type?)
          (setters settings carriers withLocal c)).count c +
          (editGetters settings carriers withLocal third).count third =
        (editWith settings carriers withLocal type? c).count c := by
  intro third
  rw [editGetters, getters_afterSetters, editWith]
  have happend := ClassEdit.ofMembers_apply_append (settings.classNote option)
    (defaultConstructor settings :: constructorsFor settings withLocal type?) []
    (setters settings carriers withLocal c) (getters settings carriers withLocal c) c
  have hcount := ClassEdit.ofMembers_count_append (settings.classNote option)
    (defaultConstructor settings :: constructorsFor settings withLocal type?) []
    (setters settings carriers withLocal c) (getters settings carriers withLocal c) c
  rw [List.append_nil] at happend hcount
  exact ⟨happend.symm, hcount.symm⟩

/-! ## Runs -/

/-- The first sweep lets a class grow. -/
theorem grows_afterDefault (hplain : ¬c.isEnum) :
    c.Grows settings [option] ((editDefault settings).apply c) := by
  have hsucceeds : (addDefaultConstructor settings c).Succeeds := succeeds_addDefaultConstructor c
  obtain ⟨⟨after, tally⟩, hok⟩ := failure?_eq_none.mp hsucceeds
  rw [← (addDefaultConstructor_makes c after tally hok).1]
  exact addDefaultConstructor_grows hplain hok

/-- A sweep of a treatment that cannot fail makes and counts what its treatment does. -/
theorem sweep_exceptEnums {f : BeanClass → Step Changed} {g : BeanClass → BeanClass}
    {count : BeanClass → Nat} (hok : ∀ c, (f c).Succeeds) (h : Makes f g count)
    (classes : List BeanClass) : ∃ tally, (sweep (exceptEnums f) classes).outcome = .ok tally ∧
      (sweep (exceptEnums f) classes).classes =
        classes.map (fun c => if c.isEnum then c else g c) ∧
      tally.membersAdded = (classes.map fun c => if c.isEnum then 0 else count c).sum := by
  obtain ⟨tally, htally⟩ := sweep_succeeds (succeeds_exceptEnums hok) classes
  exact ⟨tally, htally, h.exceptEnums.sweep htally⟩

/-- After three sweeps the classes have their setters, and all that has been added is counted. -/
theorem thirdSweep_eq (settings : Settings) (carriers : Dict TypeExpr) (withLocal : Bool)
    (type? : BeanClass → Option TypeExpr) (classes : List BeanClass) :
    let first := sweep (exceptEnums (addDefaultConstructor settings)) classes
    let second := sweep (exceptEnums (addValueConstructors settings withLocal type?)) first.classes
    let third := sweep (exceptEnums (addSetters settings carriers withLocal)) second.classes
    let edit (c : BeanClass) : ClassEdit :=
      .ofMembers (settings.classNote option)
        (defaultConstructor settings ::
          constructorsFor settings withLocal (type? ((editDefault settings).apply c)))
        (setters settings carriers withLocal c)
    ∃ t₁ t₂ t₃ : Tally, first.outcome = .ok t₁ ∧ second.outcome = .ok t₂ ∧
      third.outcome = .ok t₃ ∧
      third.classes = classes.map (fun c => if c.isEnum then c else
        afterSetters settings carriers withLocal (type? ((editDefault settings).apply c)) c) ∧
      t₁.membersAdded + t₂.membersAdded + t₃.membersAdded =
        (classes.map fun c => if c.isEnum then 0 else (edit c).count c).sum := by
  intro first second third edit
  obtain ⟨t₁, hok₁, hclasses₁, hcount₁⟩ :=
    sweep_exceptEnums succeeds_addDefaultConstructor addDefaultConstructor_makes classes
  obtain ⟨t₂, hok₂, hclasses₂, hcount₂⟩ := sweep_exceptEnums
    (succeeds_addValueConstructors withLocal type?) addValueConstructors_makes first.classes
  obtain ⟨t₃, hok₃, hclasses₃, hcount₃⟩ := sweep_exceptEnums
    (succeeds_addSetters carriers withLocal) addSetters_makes second.classes
  refine ⟨t₁, t₂, t₃, hok₁, hok₂, hok₃, ?_, ?_⟩
  · rw [hclasses₃, hclasses₂, hclasses₁, List.map_map, List.map_map]
    apply List.map_congr_left
    intro c _
    by_cases henum : c.isEnum
    · simp [henum]
    · simp only [Function.comp_apply, henum, ClassEdit.apply_isEnum, Bool.false_eq_true, if_false]
      rw [(firstSweeps_eq _ c).1]
  · rw [hcount₁, hcount₂, hcount₃, hclasses₂, hclasses₁]
    simp only [List.map_map, ← List.sum_map_add]
    congr 1
    apply List.map_congr_left
    intro c _
    by_cases henum : c.isEnum
    · simp [henum]
    · simp only [Function.comp_apply, henum, ClassEdit.apply_isEnum, Bool.false_eq_true, if_false]
      exact (firstSweeps_eq _ c).2

/-- The four sweeps make one edit of each class, and count what it adds. -/
theorem sweeps_eq (settings : Settings) (carriers : Dict TypeExpr) (withLocal : Bool)
    (type? : BeanClass → Option TypeExpr) (classes : List BeanClass) :
    let first := sweep (exceptEnums (addDefaultConstructor settings)) classes
    let second := sweep (exceptEnums (addValueConstructors settings withLocal type?)) first.classes
    let third := sweep (exceptEnums (addSetters settings carriers withLocal)) second.classes
    let fourth := sweep (exceptEnums (addGetters settings carriers withLocal)) third.classes
    let edit (c : BeanClass) : ClassEdit :=
      editWith settings carriers withLocal (type? ((editDefault settings).apply c)) c
    ∃ t₁ t₂ t₃ t₄ : Tally, first.outcome = .ok t₁ ∧ second.outcome = .ok t₂ ∧
      third.outcome = .ok t₃ ∧ fourth.outcome = .ok t₄ ∧
      fourth.classes = classes.map (fun c => if c.isEnum then c else (edit c).apply c) ∧
      t₁.membersAdded + t₂.membersAdded + t₃.membersAdded + t₄.membersAdded =
        (classes.map fun c => if c.isEnum then 0 else (edit c).count c).sum := by
  intro first second third fourth edit
  obtain ⟨t₁, t₂, t₃, hok₁, hok₂, hok₃, hthird, hcount⟩ :=
    thirdSweep_eq settings carriers withLocal type? classes
  obtain ⟨t₄, hok₄, hclasses₄, hcount₄⟩ := sweep_exceptEnums
    (succeeds_addGetters carriers withLocal) addGetters_makes third.classes
  refine ⟨t₁, t₂, t₃, t₄, hok₁, hok₂, hok₃, hok₄, ?_, ?_⟩
  · rw [hclasses₄, hthird, List.map_map]
    apply List.map_congr_left
    intro c _
    by_cases henum : c.isEnum
    · simp [henum]
    · simp only [Function.comp_apply, henum, isEnum_afterSetters, Bool.false_eq_true, if_false]
      rw [(lastSweep_eq _ c).1]
  · rw [hcount, hcount₄, hthird]
    simp only [List.map_map, ← List.sum_map_add]
    congr 1
    apply List.map_congr_left
    intro c _
    by_cases henum : c.isEnum
    · simp [henum]
    · simp only [Function.comp_apply, henum, isEnum_afterSetters, Bool.false_eq_true, if_false]
      exact (lastSweep_eq _ c).2

private theorem bind_of_eq_ok {α β : Type} {x : Except SynthError α} {a : α} (h : x = .ok a)
    (f : α → Except SynthError β) : x >>= f = f a := by
  rw [h]
  rfl

/-- The model after the first sweep. -/
def afterDefaults (settings : Settings) (m : CodeModel) : CodeModel :=
  { m with classes := (sweep (exceptEnums (addDefaultConstructor settings)) m.classes).classes }

/-- The scan for carriers, which comes after the first sweep, finds what it would have found
before. -/
theorem scan_afterDefaults (settings : Settings) (m : CodeModel) :
    m.Grows settings [option] (afterDefaults settings m) ∧
      (Carriers.ofModel (afterDefaults settings m)).outcome = .ok (found m) ∧
      carriedTypes (Carriers.valueType? (afterDefaults settings m) (found m))
        (afterDefaults settings m).classes = carriersOf m := by
  have hgrows : m.Grows settings [option] (afterDefaults settings m) :=
    .withClasses (forall₂_sweep_exceptEnums (fun _ _ _ => addDefaultConstructor_grows) m.classes)
  obtain ⟨carriers, hscan⟩ := failure?_eq_none.mp (succeeds_ofModel (afterDefaults settings m))
  have hfound : carriers = found m := by
    rw [Carriers.ofModel_eq hgrows] at hscan
    exact (Step.getD_of_ok hscan).symm
  refine ⟨hgrows, hfound ▸ hscan, ?_⟩
  rw [carriedTypes_eq hgrows]
  rfl

/-- The run consists of the four sweeps, with the scan after the first one. -/
theorem run_of_sweeps (context : PassContext) (m : CodeModel) {t₁ t₂ t₃ t₄ : Tally} :
    let settings := context.settings
    let withLocal := takesLocal context
    let type? := Carriers.valueType? (afterDefaults settings m) (found m)
    let first := sweep (exceptEnums (addDefaultConstructor settings)) m.classes
    let second := sweep (exceptEnums (addValueConstructors settings withLocal type?)) first.classes
    let third := sweep (exceptEnums (addSetters settings (carriersOf m) withLocal)) second.classes
    let fourth := sweep (exceptEnums (addGetters settings (carriersOf m) withLocal)) third.classes
    first.outcome = .ok t₁ → second.outcome = .ok t₂ → third.outcome = .ok t₃ →
      fourth.outcome = .ok t₄ →
        (run context m).outcome = .ok { option, tally :=
          t₁ ++ { skipped := (found m).skipped } ++ t₂ ++ t₃ ++ t₄ } ∧
        (run context m).model = { m with classes := fourth.classes } := by
  intro settings withLocal type? first second third fourth hok₁ hok₂ hok₃ hok₄
  obtain ⟨-, hscan, htable⟩ := scan_afterDefaults settings m
  simp only [fourth, third, ← htable] at hok₃ hok₄ ⊢
  unfold afterDefaults at hscan hok₃ hok₄ ⊢
  unfold run
  dsimp only
  rw [hscan]
  constructor
  · exact (bind_of_eq_ok hok₁ _).trans ((bind_of_eq_ok hok₂ _).trans
      ((bind_of_eq_ok hok₃ _).trans (bind_of_eq_ok hok₄ _)))
  · rfl

/-- The pass succeeds, makes one edit of each class, and counts what it adds. -/
theorem run_eq (context : PassContext) (m : CodeModel) :
    ∃ tally, (run context m).outcome = .ok { option, tally } ∧
      (run context m).model = { m with
        classes := m.classes.map fun c => if c.isEnum then c else (edit context m c).apply c } ∧
      tally.membersAdded =
        (m.classes.map fun c => if c.isEnum then 0 else (edit context m c).count c).sum := by
  obtain ⟨hgrows, -, -⟩ := scan_afterDefaults context.settings m
  obtain ⟨t₁, t₂, t₃, t₄, hok₁, hok₂, hok₃, hok₄, hclasses, hcount⟩ :=
    sweeps_eq context.settings (carriersOf m) (takesLocal context)
      (Carriers.valueType? (afterDefaults context.settings m) (found m)) m.classes
  obtain ⟨hok, hmodel⟩ := run_of_sweeps context m hok₁ hok₂ hok₃ hok₄
  -- what a class carries is looked up after the first sweep, which changes nothing of it
  have hedit : ∀ c : BeanClass, ¬c.isEnum →
      editWith context.settings (carriersOf m) (takesLocal context)
        (Carriers.valueType? (afterDefaults context.settings m) (found m)
          ((editDefault context.settings).apply c)) c =
      edit context m c := by
    intro c hplain
    rw [Carriers.valueType?_eq hgrows (grows_afterDefault hplain)]
    rfl
  refine ⟨_, hok, hmodel.trans ?_, hcount.trans ?_⟩
  · rw [hclasses]
    congr 1
    apply List.map_congr_left
    intro c _
    by_cases henum : c.isEnum
    · rw [if_pos henum, if_pos henum]
    · rw [if_neg henum, if_neg henum]
      exact congrArg (ClassEdit.apply · c) (hedit c henum)
  · congr 1
    apply List.map_congr_left
    intro c _
    by_cases henum : c.isEnum
    · rw [if_pos henum, if_pos henum]
    · rw [if_neg henum, if_neg henum]
      exact congrArg (ClassEdit.count · c) (hedit c henum)

end BeanSynthesis.ValueAccessors
