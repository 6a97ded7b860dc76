import BeanSynthesis.Proofs.Growth.Treatment

/-!
# Growth through each pass

Every pass lets the model grow by members that its own option marks. The passes that add methods
share one argument; the others are followed through the lists that they change in place.
-/

namespace BeanSynthesis

variable {settings : Settings} {m : CodeModel} {c after : BeanClass} {tally : Tally}

/-! ## Passes that add methods -/

/-- A class receives the accessors of its fields. -/
theorem LocalAccessors.onClass_receives
    (h : (LocalAccessors.onClass settings c).outcome = .ok (after, tally)) :
    ∃ fields, c.instanceFields.outcome = .ok fields ∧
      c.Receives settings option
        ((fields.flatMap (fieldMethods settings)).map (·.stamp settings option)) after := by
  obtain ⟨fields, hfields, h⟩ := Step.bind_eq_ok.mp h
  obtain ⟨changed, hadd, h⟩ := Step.bind_eq_ok.mp h
  exact ⟨fields, hfields, changed.1, changed.2, changed.2, hadd,
    congrArg Prod.fst (Except.ok.inj h).symm⟩

private theorem LocalAccessors.onClass_grows (hplain : ¬c.isEnum)
    (h : (LocalAccessors.onClass settings c).outcome = .ok (after, tally)) :
    c.Grows settings [option] after := by
  obtain ⟨fields, -, hreceives⟩ := onClass_receives h
  exact .of_receives hplain Method.madeBy_of_mem_map_stamp hreceives

/-- A class receives the setters of its list fields and the companions of its list getters. -/
theorem ListAccessors.onClass_receives
    (h : (ListAccessors.onClass settings c).outcome = .ok (after, tally)) :
    ∃ fields plan, c.instanceFields.outcome = .ok fields ∧
      ((c.methods.filterMap listGetter?).foldlM (planGetter settings c)
        { methods := (fields.filter (·.type.isErasure "List")).map (setter settings) }).outcome =
          .ok plan ∧
      c.Receives settings option (plan.methods.map (·.stamp settings option)) after := by
  obtain ⟨fields, hfields, h⟩ := Step.bind_eq_ok.mp h
  obtain ⟨plan, hplan, h⟩ := Step.bind_eq_ok.mp h
  obtain ⟨changed, hadd, h⟩ := Step.bind_eq_ok.mp h
  exact ⟨fields, plan, hfields, hplan, changed.1, changed.2, _, hadd,
    congrArg Prod.fst (Except.ok.inj h).symm⟩

private theorem ListAccessors.onClass_grows (hplain : ¬c.isEnum)
    (h : (ListAccessors.onClass settings c).outcome = .ok (after, tally)) :
    c.Grows settings [option] after := by
  obtain ⟨fields, plan, -, -, hreceives⟩ := onClass_receives h
  exact .of_receives hplain Method.madeBy_of_mem_map_stamp hreceives

/-- A class receives `equals` and `hashCode`. -/
theorem Equality.onClass_receives
    (h : (Equality.onClass settings m c).outcome = .ok (after, tally)) :
    ∃ fields, c.instanceFields.outcome = .ok fields ∧
      c.Receives settings option
        [(equalsMethod settings.runtime m c fields (m.lineageOf c)).stamp settings option,
          (hashCodeMethod settings.runtime m fields (m.lineageOf c)).stamp settings option]
        after := by
  obtain ⟨fields, hfields, h⟩ := Step.bind_eq_ok.mp h
  obtain ⟨-, -, h⟩ := Step.bind_eq_ok.mp h
  obtain ⟨-, -, h⟩ := Step.bind_eq_ok.mp h
  obtain ⟨changed, hadd, h⟩ := Step.bind_eq_ok.mp h
  obtain ⟨-, -, h⟩ := Step.bind_eq_ok.mp h
  exact ⟨fields, hfields, changed.1, changed.2, changed.2, hadd,
    congrArg Prod.fst (Except.ok.inj h).symm⟩

/-- With `equals` and `hashCode` a class has grown. -/
theorem Equality.onClass_grows (hplain : ¬c.isEnum)
    (h : (Equality.onClass settings m c).outcome = .ok (after, tally)) :
    c.Grows settings [option] after := by
  obtain ⟨fields, -, hreceives⟩ := onClass_receives h
  refine .of_receives hplain (fun x hx => ?_) hreceives
  rcases List.mem_pair.mp hx with rfl | rfl
  · exact Method.stamp_madeBy _ settings option
  · exact Method.stamp_madeBy _ settings option

/-- A derived class without fields of its own inherits its description. -/
theorem Description.onClass_receives
    (h : (Description.onClass settings m c).outcome = .ok (after, tally)) :
    ∃ fields, c.instanceFields.outcome = .ok fields ∧ (fields = [] ∧ after = c ∨
      c.Receives settings option
        [(toStringMethod settings.runtime fields (m.lineageOf c)).stamp settings option]
        after) := by
  obtain ⟨fields, hfields, h⟩ := Step.bind_eq_ok.mp h
  refine ⟨fields, hfields, ?_⟩
  split at h
  case isTrue hnone =>
    have hempty : fields = [] := by simpa using (Bool.and_eq_true_iff.mp hnone).2
    exact .inl ⟨hempty, congrArg Prod.fst (Except.ok.inj h).symm⟩
  case isFalse _ =>
    obtain ⟨changed, hadd, h⟩ := Step.bind_eq_ok.mp h
    exact .inr ⟨changed.1, _, changed.2, Step.bind_eq_ok.mpr ⟨changed, hadd, rfl⟩,
      congrArg Prod.fst (Except.ok.inj h).symm⟩

/-- With `toString` a class has grown. -/
theorem Description.onClass_grows (hplain : ¬c.isEnum)
    (h : (Description.onClass settings m c).outcome = .ok (after, tally)) :
    c.Grows settings [option] after := by
  obtain ⟨fields, -, ⟨-, rfl⟩ | hreceives⟩ := onClass_receives h
  · exact .refl _
  · exact .of_receives hplain
      (List.forall_mem_singleton.mpr (Method.stamp_madeBy _ settings option)) hreceives

private theorem Copying.withInterface_grows (interface : ClassRef) (lineage : Lineage) :
    c.Grows settings [option] (withInterface interface lineage c) := by
  unfold withInterface
  split
  · exact .withInterfaces _
  · exact .refl _

private theorem Copying.isEnum_withInterface (interface : ClassRef) (lineage : Lineage) :
    (withInterface interface lineage c).isEnum = c.isEnum := by
  unfold withInterface
  split <;> rfl

/-- A class receives `cloneTo` and `clone`, besides the interface. -/
theorem Copying.onClass_receives
    (h : (Copying.onClass settings m c).outcome = .ok (after, tally)) :
    ∃ fields, c.instanceFields.outcome = .ok fields ∧
      (withInterface (.ofName settings.runtime.cloneableInterface) (m.lineageOf c) c).Receives
        settings option
        [(cloneToMethod settings.runtime m c fields (m.lineageOf c)).stamp settings option,
          (cloneMethod settings.runtime c).stamp settings option] after := by
  obtain ⟨fields, hfields, h⟩ := Step.bind_eq_ok.mp h
  obtain ⟨-, -, h⟩ := Step.bind_eq_ok.mp h
  obtain ⟨changed, hadd, h⟩ := Step.bind_eq_ok.mp h
  obtain ⟨-, -, h⟩ := Step.bind_eq_ok.mp h
  exact ⟨fields, hfields, changed.1, changed.2, changed.2, hadd,
    congrArg Prod.fst (Except.ok.inj h).symm⟩

/-- With the methods that clone it a class has grown. -/
theorem Copying.onClass_grows (hplain : ¬c.isEnum)
    (h : (Copying.onClass settings m c).outcome = .ok (after, tally)) :
    c.Grows settings [option] after := by
  obtain ⟨fields, -, hreceives⟩ := onClass_receives h
  refine (withInterface_grows _ _).trans (.of_receives ?_ (fun x hx => ?_) hreceives)
  · rwa [isEnum_withInterface]
  · rcases List.mem_pair.mp hx with rfl | rfl
    · exact Method.stamp_madeBy _ settings option
    · exact Method.stamp_madeBy _ settings option

/-! ## Access to carried values -/

namespace ValueAccessors

variable {carriers : Dict TypeExpr} {withLocal : Bool} {valueType? : BeanClass → Option TypeExpr}
  {n x : Method}

/-! ### What the treatments do -/

/-- A class receives the constructor without parameters unless it has one. -/
theorem addDefaultConstructor_cases
    (h : (addDefaultConstructor settings c).outcome = .ok (after, tally)) :
    after = c ∨ c.hasConstructor [] = false ∧ ∃ counted, after = (Changed.noted ({ c with
      constructors := c.constructors ++ [defaultConstructor settings] }, counted)
        (settings.classNote option)).1 := by
  unfold addDefaultConstructor at h
  split at h
  case isTrue _ => exact .inl (congrArg Prod.fst (Except.ok.inj h)).symm
  case isFalse hnone =>
    exact .inr ⟨Bool.eq_false_iff.mpr hnone, _, (congrArg Prod.fst (Except.ok.inj h)).symm⟩

/-- A class that carries a value receives the constructors for it. -/
theorem addValueConstructors_cases
    (h : (addValueConstructors settings withLocal valueType? c).outcome = .ok (after, tally)) :
    after = c ∨ ∃ type, valueType? c = some type ∧ after = (Changed.noted
      (c.addConstructors ((withCompanion withLocal type).map (valueConstructor settings)))
        (settings.classNote option)).1 := by
  unfold addValueConstructors at h
  split at h
  case h_1 => exact .inl (congrArg Prod.fst (Except.ok.inj h)).symm
  case h_2 type htype =>
    obtain ⟨-, -, h⟩ := Step.bind_eq_ok.mp h
    exact .inr ⟨type, htype, (congrArg Prod.fst (Except.ok.inj h)).symm⟩

/-- A class receives the setters for the values of its setters' carriers. -/
theorem addSetters_receives
    (h : (addSetters settings carriers withLocal c).outcome = .ok (after, tally)) :
    c.Receives settings option (c.methods.flatMap (settersFor settings carriers withLocal))
      after := by
  obtain ⟨changed, hadd, h⟩ := Step.bind_eq_ok.mp h
  exact ⟨changed.1, changed.2, changed.2, hadd, (congrArg Prod.fst (Except.ok.inj h)).symm⟩

/-- The getters of which the name is taken are left out. -/
theorem exists_of_mem_untaken (h : x ∈ (c.methods.flatMap (gettersFor settings carriers withLocal
      c)).filterMap Except.toOption) :
    ∃ n ∈ c.methods, .ok x ∈ gettersFor settings carriers withLocal c n := by
  obtain ⟨found, hfound, hx⟩ := List.mem_filterMap.mp h
  obtain ⟨n, hn, hmem⟩ := List.mem_flatMap.mp hfound
  cases found with
  | error name => simp [Except.toOption] at hx
  | ok y =>
    obtain rfl : y = x := by simpa [Except.toOption] using hx
    exact ⟨n, hn, hmem⟩

/-- A class receives the getters for the values of its getters' carriers, apart from those that are
reported. -/
theorem addGetters_receives
    (h : (addGetters settings carriers withLocal c).outcome = .ok (after, tally)) :
    c.Receives settings option ((c.methods.flatMap (gettersFor settings carriers withLocal
      c)).filterMap Except.toOption) after := by
  obtain ⟨-, -, h⟩ := Step.bind_eq_ok.mp h
  obtain ⟨changed, hadd, h⟩ := Step.bind_eq_ok.mp h
  exact ⟨changed.1, changed.2, _, hadd, (congrArg Prod.fst (Except.ok.inj h)).symm⟩

/-- A setter for a value belongs to a setter of a carrier. -/
theorem exists_of_mem_settersFor (h : x ∈ settersFor settings carriers withLocal n) :
    ∃ param property type, n.params = [param] ∧ Naming.propertyPart? n.name "set" = some property ∧
      carried? carriers param.type = some type ∧
        ∃ t ∈ withCompanion withLocal type,
          x = valueSetter settings n.name property param.type t := by
  unfold settersFor at h
  split at h
  case h_1 param property hparams hproperty =>
    split at h
    case h_1 type hcarried =>
      obtain ⟨t, ht, rfl⟩ := List.mem_map.mp h
      exact ⟨param, property, type, hparams, hproperty, hcarried, t, ht, rfl⟩
    case h_2 => cases h
  case h_2 => cases h

/-- A getter for a carrier is followed by one for its value, and perhaps by one for the local
companion of the value. -/
theorem exists_of_mem_gettersFor (h : .ok x ∈ gettersFor settings carriers withLocal c n) :
    ∃ property type, carried? carriers n.returnType = some type ∧
      ((∃ read, x = valueGetter settings (valueGetterName property type) n.name n.returnType type
          read) ∨
        ∃ companion, localCompanion? type = some companion ∧
          x = valueGetter settings (valueGetterName property type ++ "Local") n.name n.returnType
            companion.type "getValueLocal") := by
  unfold gettersFor at h
  split at h
  case h_1 property _ _ =>
    split at h
    case h_1 type hcarried =>
      refine ⟨property, type, hcarried, ?_⟩
      dsimp only at h
      split at h
      case isTrue => simp at h
      case isFalse =>
        rcases List.mem_cons.mp h with h | h
        · exact .inl ⟨_, Except.ok.inj h⟩
        · split at h
          case h_1 companion hcompanion =>
            have hlocal : localCompanion? type = some companion := by
              split at hcompanion
              · exact hcompanion
              · cases hcompanion
            exact .inr ⟨companion, hlocal, Except.ok.inj (List.mem_singleton.mp h)⟩
          case h_2 => cases h
    case h_2 => cases h
  case h_2 => cases h

/-! ### Growth -/

/-- With a default constructor a class has grown. -/
theorem addDefaultConstructor_grows (hplain : ¬c.isEnum)
    (h : (addDefaultConstructor settings c).outcome = .ok (after, tally)) :
    c.Grows settings [option] after := by
  obtain rfl | ⟨hnone, counted, rfl⟩ := addDefaultConstructor_cases h
  · exact .refl _
  · have hfresh : ∀ d ∈ c.constructors, ¬d.Clashes (defaultConstructor settings) :=
      BeanClass.hasConstructor_eq_false_iff.mp hnone
    exact (BeanClass.Grows.withConstructors hplain
      (.snoc (Constructor.stamp_madeBy _ settings option) hfresh)).noted hplain _ _

private theorem addValueConstructors_grows (hplain : ¬c.isEnum)
    (h : (addValueConstructors settings withLocal valueType? c).outcome = .ok (after, tally)) :
    c.Grows settings [option] after := by
  obtain rfl | ⟨type, -, rfl⟩ := addValueConstructors_cases h
  · exact .refl _
  · have hmade : ∀ k ∈ (withCompanion withLocal type).map (valueConstructor settings),
        k.MadeBy settings [option] := by
      intro k hk
      obtain ⟨carried, -, rfl⟩ := List.mem_map.mp hk
      exact Constructor.stamp_madeBy _ settings option
    obtain ⟨constructors, hfst, hcont⟩ := BeanClass.addConstructors_fst hmade c
    refine BeanClass.Grows.noted ?_ hplain _ _
    rw [hfst]
    exact .withConstructors hplain hcont

/-- Setters for values bear the mark of their pass. -/
theorem settersFor_madeBy (n : Method) :
    ∀ x ∈ settersFor settings carriers withLocal n, x.MadeBy settings [option] := by
  intro x hx
  obtain ⟨param, property, type, -, -, -, t, -, rfl⟩ := exists_of_mem_settersFor hx
  exact Method.stamp_madeBy _ settings option

private theorem addSetters_grows (hplain : ¬c.isEnum)
    (h : (addSetters settings carriers withLocal c).outcome = .ok (after, tally)) :
    c.Grows settings [option] after := by
  refine .of_receives hplain (fun x hx => ?_) (addSetters_receives h)
  obtain ⟨n, -, hx⟩ := List.mem_flatMap.mp hx
  exact settersFor_madeBy n x hx

private theorem valueGetter_madeBy (name getter : String) (carrier type : TypeExpr)
    (read : String) :
    (valueGetter settings name getter carrier type read).MadeBy settings [option] := by
  unfold valueGetter
  split
  · exact Method.stamp_madeBy _ settings option
  · exact Method.stamp_madeBy _ settings option

/-- Getters for values bear the mark of their pass. -/
theorem gettersFor_madeBy (hx : .ok x ∈ gettersFor settings carriers withLocal c n) :
    x.MadeBy settings [option] := by
  obtain ⟨property, type, -, ⟨read, rfl⟩ | ⟨companion, -, rfl⟩⟩ := exists_of_mem_gettersFor hx
  · exact valueGetter_madeBy _ _ _ _ _
  · exact valueGetter_madeBy _ _ _ _ _

private theorem addGetters_grows (hplain : ¬c.isEnum)
    (h : (addGetters settings carriers withLocal c).outcome = .ok (after, tally)) :
    c.Grows settings [option] after := by
  refine .of_receives hplain (fun x hx => ?_) (addGetters_receives h)
  obtain ⟨n, -, hget⟩ := exists_of_mem_untaken hx
  exact gettersFor_madeBy hget

private theorem run_grows (context : PassContext) (m : CodeModel) :
    m.Grows context.settings [option] (run context m).model := by
  have hfirst : List.Forall₂ (BeanClass.Grows context.settings [option]) m.classes
      (sweep (exceptEnums (addDefaultConstructor context.settings)) m.classes).classes :=
    forall₂_sweep_exceptEnums (fun _ _ _ => addDefaultConstructor_grows) _
  unfold run
  dsimp only
  split
  · exact .withClasses hfirst
  · refine .withClasses (forall₂_trans (forall₂_trans (forall₂_trans hfirst
      (forall₂_sweep_exceptEnums ?_ _) BeanClass.Grows.trans)
      (forall₂_sweep_exceptEnums ?_ _) BeanClass.Grows.trans)
      (forall₂_sweep_exceptEnums ?_ _) BeanClass.Grows.trans)
    · exact fun _ _ _ => addValueConstructors_grows
    · exact fun _ _ _ => addSetters_grows
    · exact fun _ _ _ => addGetters_grows

end ValueAccessors

/-! ## Passes that change lists in place -/

namespace Constraints

/-- A finding gives a field its constraint, or nothing. -/
theorem applyFinding_cases {f g : Field} {n : Nat} {finding : Finding}
    (h : (applyFinding f finding).outcome = .ok (g, n)) :
    g = f ∨ ∃ mark, finding = .constraint mark ∧
      g = { f with annotations := f.annotations ++ [mark] } := by
  cases finding with
  | sentinel facet literal =>
    obtain ⟨-, -, h⟩ := Step.bind_eq_ok.mp h
    exact .inl (congrArg Prod.fst (Except.ok.inj h)).symm
  | constraint mark =>
    simp only [applyFinding] at h
    split at h
    · exact .inl (congrArg Prod.fst (Except.ok.inj h)).symm
    · obtain ⟨-, -, h⟩ := Step.bind_eq_ok.mp h
      exact .inr ⟨mark, rfl, (congrArg Prod.fst (Except.ok.inj h)).symm⟩

/-- Findings put constraints at the end of a field's annotations, and change nothing else. -/
theorem applyFindings_annotations {f g : Field} {n : Nat} {findings : List Finding}
    (h : (applyFindings f findings).outcome = .ok (g, n)) :
    ∃ added, g = { f with annotations := f.annotations ++ added } ∧
      ∀ mark ∈ added, .constraint mark ∈ findings := by
  induction findings generalizing f n with
  | nil =>
    obtain rfl := congrArg Prod.fst (Except.ok.inj h)
    exact ⟨[], by simp, List.forall_mem_nil _⟩
  | cons finding rest ih =>
    obtain ⟨first, hfirst, h⟩ := Step.bind_eq_ok.mp h
    obtain ⟨others, hothers, h⟩ := Step.bind_eq_ok.mp h
    obtain rfl := congrArg Prod.fst (Except.ok.inj h)
    obtain ⟨added, hadded, hmarks⟩ := ih hothers
    have hlater : ∀ mark ∈ added, .constraint mark ∈ finding :: rest :=
      fun mark hmark => .tail _ (hmarks mark hmark)
    obtain hsame | ⟨mark, rfl, hmark⟩ := applyFinding_cases hfirst
    · exact ⟨added, by rw [hadded, hsame], hlater⟩
    · refine ⟨mark :: added, ?_, List.forall_mem_cons.mpr ⟨List.mem_cons_self, hlater⟩⟩
      rw [hadded, hmark]
      simp

private theorem applyFindings_grows {f g : Field} {n : Nat} {findings : List Finding}
    (h : (applyFindings f findings).outcome = .ok (g, n)) : f.Grows g := by
  obtain ⟨added, rfl, -⟩ := applyFindings_annotations h
  exact ⟨rfl, rfl, rfl, List.prefix_append _ _⟩

/-- Putting a grown field in the place of the first one of its name lets the fields grow. -/
theorem updateField_grows {name : String} {f g : Field} {fields : List Field}
    (hfind : fields.find? (·.name == name) = some f) (hgrows : f.Grows g) :
    List.Forall₂ Field.Grows fields (updateField name g fields) := by
  induction fields with
  | nil => exact .nil
  | cons first rest ih =>
    unfold updateField
    by_cases hname : first.name == name
    · rw [if_pos hname]
      obtain rfl : first = f := by simpa [hname] using hfind
      exact .cons hgrows (forall₂_refl_of Field.Grows.refl rest)
    · rw [if_neg hname]
      exact .cons (.refl first) (ih (by simpa [List.find?_cons, hname] using hfind))

section Properties

variable {v : ValidationSettings} {dialect : ValidationDialect} {properties : List Property}

/-- A property changes the annotations of the first field of its name, if there is one. -/
theorem applyProperty_cases {p : Property}
    (h : (applyProperty v dialect m c p).outcome = .ok (after, tally)) :
    after = c ∨ ∃ f g added, c.field? p.name = some f ∧
      (applyFindings f (findings v dialect m f.type p.kind)).outcome = .ok (g, added) ∧
        after = { c with fields := updateField p.name g c.fields } := by
  unfold applyProperty at h
  split at h
  case h_1 => exact .inl (congrArg Prod.fst (Except.ok.inj h)).symm
  case h_2 f hfield =>
    obtain ⟨⟨g, added⟩, hadd, h⟩ := Step.bind_eq_ok.mp h
    refine .inr ⟨f, g, added, hfield, hadd, ?_⟩
    dsimp only at h
    split at h
    · exact (congrArg Prod.fst (Except.ok.inj h)).symm
    · obtain ⟨-, -, h⟩ := Step.bind_eq_ok.mp h
      exact (congrArg Prod.fst (Except.ok.inj h)).symm

/-- What each of the properties keeps holds after all of them. -/
theorem applyProperties_keeps {P : BeanClass → Prop}
    (hstep : ∀ p ∈ properties, ∀ c after tally, P c →
      (applyProperty v dialect m c p).outcome = .ok (after, tally) → P after) (hc : P c)
    (h : (applyProperties v dialect m c properties).outcome = .ok (after, tally)) : P after := by
  induction properties generalizing c tally with
  | nil =>
    obtain rfl := congrArg Prod.fst (Except.ok.inj h)
    exact hc
  | cons p rest ih =>
    obtain ⟨hfirst, hrest⟩ := List.forall_mem_cons.mp hstep
    obtain ⟨first, hone, h⟩ := Step.bind_eq_ok.mp h
    obtain ⟨others, hothers, h⟩ := Step.bind_eq_ok.mp h
    obtain rfl := congrArg Prod.fst (Except.ok.inj h)
    exact ih hrest (hfirst c first.1 first.2 hc hone) hothers

/-- The treatment of a class applies those of its properties that stand for values. -/
theorem onClass_applies (h : (onClass settings dialect m c).outcome = .ok (after, tally)) :
    ∃ counted, (applyProperties settings.validation dialect m c
      (c.properties.filter fun p => !isReference p.kind)).outcome = .ok (after, counted) := by
  unfold onClass at h
  dsimp only at h
  split at h
  · cases h
  · obtain ⟨changed, happly, h⟩ := Step.bind_eq_ok.mp h
    obtain ⟨-, -, h⟩ := Step.bind_eq_ok.mp h
    obtain rfl := congrArg Prod.fst (Except.ok.inj h)
    exact ⟨changed.2, happly⟩

private theorem applyProperty_grows {p : Property} (hplain : ¬c.isEnum)
    (h : (applyProperty v dialect m c p).outcome = .ok (after, tally)) :
    c.Grows settings [option dialect] after ∧ ¬after.isEnum := by
  obtain rfl | ⟨f, g, added, hfield, hadd, rfl⟩ := applyProperty_cases h
  · exact ⟨.refl _, hplain⟩
  · exact ⟨.withFields hplain (updateField_grows hfield (applyFindings_grows hadd)), hplain⟩

private theorem onClass_grows (hplain : ¬c.isEnum)
    (h : (onClass settings dialect m c).outcome = .ok (after, tally)) :
    c.Grows settings [option dialect] after := by
  obtain ⟨counted, happly⟩ := onClass_applies h
  have hkept : c.Grows settings [option dialect] after ∧ ¬after.isEnum := by
    refine applyProperties_keeps
      (P := fun d => c.Grows settings [option dialect] d ∧ ¬d.isEnum)
      (fun p _ d after tally hd hone => ?_) ⟨.refl c, hplain⟩ happly
    obtain ⟨hgrows, hplain'⟩ := applyProperty_grows hd.2 hone
    exact ⟨hd.1.trans hgrows, hplain'⟩
  exact hkept.1

end Properties

end Constraints

namespace Interfaces

/-- Some of the interfaces are put at the end, and nothing else changes. -/
theorem addInterfaces_outcome {names : List String} {changed : Changed}
    (h : (addInterfaces c names).outcome = .ok changed) :
    ∃ added, added ⊆ names ∧
      changed.1 = { c with interfaces := c.interfaces ++ added.map ClassRef.ofName } := by
  induction names generalizing c changed with
  | nil =>
    obtain rfl := Except.ok.inj h
    exact ⟨[], List.nil_subset _, by simp⟩
  | cons name rest ih =>
    unfold addInterfaces at h
    split at h
    · obtain ⟨added, hsome, hadded⟩ := ih h
      exact ⟨added, List.subset_cons_of_subset _ hsome, hadded⟩
    · split at h
      · obtain ⟨-, -, h⟩ := Step.bind_eq_ok.mp h
        obtain ⟨added, hsome, hadded⟩ := ih h
        exact ⟨added, List.subset_cons_of_subset _ hsome, hadded⟩
      · obtain ⟨others, hrest, h⟩ := Step.bind_eq_ok.mp h
        obtain rfl := Except.ok.inj h
        obtain ⟨added, hsome, hadded⟩ := ih hrest
        exact ⟨name :: added, List.cons_subset_cons _ hsome, by simp [hadded]⟩

/-- A class gains some of the interfaces, behind those that it has had. -/
theorem onClass_interfaces {interfaces : List String}
    (h : (onClass m interfaces c).outcome = .ok (after, tally)) :
    ∃ added, added ⊆ interfaces ∧
      after = { c with interfaces := c.interfaces ++ added.map ClassRef.ofName } := by
  unfold onClass at h
  split at h
  · obtain ⟨changed, hadd, h⟩ := Step.bind_eq_ok.mp h
    obtain ⟨added, hsome, hadded⟩ := addInterfaces_outcome hadd
    exact ⟨added, hsome, (congrArg Prod.fst (Except.ok.inj h)).symm.trans hadded⟩
  · obtain rfl := congrArg Prod.fst (Except.ok.inj h)
    exact ⟨[], List.nil_subset _, by simp⟩

private theorem onClass_grows {interfaces : List String}
    (h : (onClass m interfaces c).outcome = .ok (after, tally)) :
    c.Grows settings [option] after := by
  obtain ⟨added, -, rfl⟩ := onClass_interfaces h
  exact .withInterfaces _

/-- With further interfaces a model has grown. -/
theorem run_grows (context : PassContext) (m : CodeModel) :
    m.Grows context.settings [option] (run context m).model := by
  unfold run
  dsimp only
  split
  · exact .refl _
  · exact .withClasses (forall₂_sweep BeanClass.Grows.refl (fun _ _ _ => onClass_grows) _)

end Interfaces

namespace PrivateFields

private theorem hideFields_published {className : String} {fields hidden : List Field} {count : Nat}
    (h : (hideFields className fields).outcome = .ok (hidden, count)) :
    List.Forall₂ Field.Published fields hidden := by
  induction fields generalizing hidden count with
  | nil =>
    obtain rfl := congrArg Prod.fst (Except.ok.inj h)
    exact .nil
  | cons f rest ih =>
    unfold hideFields at h
    split at h
    · obtain ⟨others, hothers, h⟩ := Step.bind_eq_ok.mp h
      obtain rfl := congrArg Prod.fst (Except.ok.inj h)
      exact .cons (.refl f) (ih hothers)
    · obtain ⟨-, -, h⟩ := Step.bind_eq_ok.mp h
      obtain ⟨others, hothers, h⟩ := Step.bind_eq_ok.mp h
      obtain rfl := congrArg Prod.fst (Except.ok.inj h)
      exact .cons rfl (ih hothers)

/-- A class has its fields hidden and is otherwise left as it is. -/
theorem onClass_fields (h : (onClass c).outcome = .ok (after, tally)) :
    ∃ fields, List.Forall₂ Field.Published c.fields fields ∧ after = { c with fields } := by
  obtain ⟨hidden, hhide, h⟩ := Step.bind_eq_ok.mp h
  exact ⟨hidden.1, hideFields_published hhide, (congrArg Prod.fst (Except.ok.inj h)).symm⟩

private theorem onClass_grows (hplain : ¬c.isEnum) (h : (onClass c).outcome = .ok (after, tally)) :
    c.Grows settings [option] after := by
  obtain ⟨fields, hpublished, rfl⟩ := onClass_fields h
  exact .withFields hplain (hpublished.imp fun _ _ => Field.Published.grows)

end PrivateFields

/-- A class gains at most the marker, behind the annotations that it has had. -/
theorem StyleMarker.onClass_outcome {marker : String}
    (h : (onClass marker c).outcome = .ok (after, tally)) :
    ∃ added : List Annotation, added ⊆ [.ofName marker] ∧
      after = { c with annotations := c.annotations ++ added } := by
  unfold onClass at h
  split at h
  · obtain rfl := congrArg Prod.fst (Except.ok.inj h)
    exact ⟨[], List.nil_subset _, by simp⟩
  · obtain rfl := congrArg Prod.fst (Except.ok.inj h)
    exact ⟨[.ofName marker], List.Subset.refl _, rfl⟩

private theorem StyleMarker.run_grows (context : PassContext) (m : CodeModel) :
    m.Grows context.settings [option] (run context m).model where
  classes := by
    refine forall₂_sweep BeanClass.Grows.refl (fun c after tally h => ?_) m.classes
    obtain ⟨added, -, rfl⟩ := onClass_outcome h
    exact .withAnnotations added
  objectFactories := by
    refine forall₂_sweep BeanClass.FactoryGrows.refl (fun c after tally h => ?_) m.objectFactories
    obtain ⟨added, -, rfl⟩ := onClass_outcome h
    exact ⟨rfl, forall₂_refl_of Field.Published.refl _, forall₂_refl_of Method.Documented.refl _,
      List.prefix_append _ _⟩
  packages := .refl _
  external := rfl

/-! ## Object factories and packages -/

namespace FactoryDocs

/-- Fields are published one by one. -/
theorem publishNames_published (fields : List Field) :
    List.Forall₂ Field.Published fields (publishNames fields).1 := by
  induction fields with
  | nil => exact .nil
  | cons f rest ih =>
    simp only [publishNames]
    split
    · exact .cons rfl ih
    · exact .cons (.refl f) ih

private theorem prefix_of_isCreator {n : Method} (h : isCreator n) :
    "create".toList <+: n.name.toList := by
  obtain ⟨rest, hrest⟩ := Option.isSome_iff_exists.mp h
  exact ⟨rest, (Text.eq_append_of_afterStart? hrest).symm⟩

private theorem withFinalParam_params (n : Method) :
    FirstMadeFinal n.params (withFinalParam n).params := by
  unfold withFinalParam
  split
  case isTrue hwraps =>
    have hlength : n.params.length = 1 := by
      simp only [wrapsElement, Bool.and_eq_true, beq_iff_eq] at hwraps
      exact hwraps.1
    obtain ⟨p, hp⟩ := List.length_eq_one_iff.mp hlength
    exact .inr ⟨p, [], hp, by simp [hp]⟩
  case isFalse _ => exact .inl rfl

private theorem withFinalParam_documented {n : Method} (hcreator : isCreator n)
    (doc : Option String) :
    n.Documented { withFinalParam n with
      javadoc := { (withFinalParam n).javadoc with returns := doc } } where
  rest := by
    unfold withFinalParam
    split <;> rfl
  params := withFinalParam_params n
  others h := absurd (prefix_of_isCreator hcreator) h

/-- Methods are documented one by one. -/
theorem documentMethods_documented {factory : String} {methods documented : List Method}
    {count : Nat} (h : (documentMethods factory methods).outcome = .ok (documented, count)) :
    List.Forall₂ Method.Documented methods documented := by
  induction methods generalizing documented count with
  | nil =>
    obtain rfl := congrArg Prod.fst (Except.ok.inj h)
    exact .nil
  | cons n rest ih =>
    unfold documentMethods at h
    split at h
    · obtain ⟨others, hothers, h⟩ := Step.bind_eq_ok.mp h
      obtain rfl := congrArg Prod.fst (Except.ok.inj h)
      exact .cons (.refl n) (ih hothers)
    case h_2 doc hdoc =>
      have hcreator : isCreator n := by
        by_contra hnot
        simp [hnot] at hdoc
      dsimp only at h
      split at h
      · obtain ⟨others, hothers, h⟩ := Step.bind_eq_ok.mp h
        obtain rfl := congrArg Prod.fst (Except.ok.inj h)
        exact .cons (withFinalParam_documented hcreator (withFinalParam n).javadoc.returns)
          (ih hothers)
      · obtain ⟨-, -, h⟩ := Step.bind_eq_ok.mp h
        obtain ⟨others, hothers, h⟩ := Step.bind_eq_ok.mp h
        obtain rfl := congrArg Prod.fst (Except.ok.inj h)
        exact .cons (withFinalParam_documented hcreator (some doc)) (ih hothers)

private theorem onFactory_grows (h : (onFactory c).outcome = .ok (after, tally)) :
    c.FactoryGrows after := by
  obtain ⟨documented, hdocument, h⟩ := Step.bind_eq_ok.mp h
  obtain rfl := congrArg Prod.fst (Except.ok.inj h)
  exact {
    rest := rfl
    fields := publishNames_published c.fields
    methods := documentMethods_documented hdocument
    annotations := List.prefix_rfl }

private theorem run_grows (context : PassContext) (m : CodeModel) :
    m.Grows context.settings [option] (run context m).model :=
  .withFactories (forall₂_sweep BeanClass.FactoryGrows.refl (fun _ _ _ => onFactory_grows) _)

end FactoryDocs

namespace NullMarker

private theorem mark_grows (settings : Settings) (p : Package) : p.Grows (mark settings p) where
  name := rfl
  annotations := List.prefix_append _ _
  javadoc := by
    unfold mark
    dsimp only
    split
    · exact List.prefix_rfl
    · exact List.prefix_append _ _

/-- Changing the first package of a name lets the packages grow if it lets that one grow. -/
theorem updatePackage_go_grows {name : String} {f : Package → Package}
    (h : ∀ p : Package, p.Grows (f p)) (packages : List Package) :
    List.Forall₂ Package.Grows packages (CodeModel.updatePackage.go name f packages) := by
  induction packages with
  | nil => exact .nil
  | cons p rest ih =>
    unfold CodeModel.updatePackage.go
    split
    · exact .cons (h p) (forall₂_refl_of Package.Grows.refl rest)
    · exact .cons (.refl p) ih

private theorem updatePackage_grows {options : List String} {name : String} {f : Package → Package}
    (h : ∀ p : Package, p.Grows (f p)) (m : CodeModel) :
    m.Grows settings options (m.updatePackage name f) := by
  unfold CodeModel.updatePackage
  split
  · exact .withPackages ⟨_, [], (List.append_nil _).symm, updatePackage_go_grows h m.packages⟩
  · exact .withPackages ⟨m.packages, _, rfl, forall₂_refl_of Package.Grows.refl _⟩

/-- What marking one package keeps holds after marking all of them. -/
theorem markAll_keeps {P : CodeModel → Prop} {names : List String} {m' : CodeModel}
    (hstep : ∀ m name, P m → P (m.updatePackage name (mark settings))) (hm : P m)
    (h : (markAll settings m names).outcome = .ok (m', tally)) : P m' := by
  induction names generalizing m tally with
  | nil =>
    obtain rfl := congrArg Prod.fst (Except.ok.inj h)
    exact hm
  | cons name rest ih =>
    unfold markAll at h
    split at h
    · obtain ⟨-, -, h⟩ := Step.bind_eq_ok.mp h
      exact ih hm h
    · obtain ⟨others, hothers, h⟩ := Step.bind_eq_ok.mp h
      obtain rfl := congrArg Prod.fst (Except.ok.inj h)
      exact ih (hstep m name hm) hothers

private theorem markAll_grows {options : List String} {names : List String} {m' : CodeModel}
    (h : (markAll settings m names).outcome = .ok (m', tally)) : m.Grows settings options m' :=
  markAll_keeps (P := fun n => m.Grows settings options n)
    (fun n _ hn => hn.trans (updatePackage_grows (mark_grows settings) n)) (.refl m) h

private theorem run_grows (context : PassContext) (m : CodeModel) :
    m.Grows context.settings [option] (run context m).model := by
  unfold run
  dsimp only
  split
  case h_1 changed tally hmark => exact markAll_grows hmark
  case h_2 _ => exact .refl _

end NullMarker

/-- Every pass lets a model grow by members that its own option marks, also when it fails. -/
theorem Pass.run_grows (pass : Pass) (context : PassContext) (m : CodeModel) :
    m.Grows context.settings [pass.option] (pass.run context m).model := by
  cases pass with
  | localAccessors =>
    exact .withClasses (forall₂_sweep_exceptEnums (fun _ _ _ => LocalAccessors.onClass_grows) _)
  | valueAccessors => exact ValueAccessors.run_grows context m
  | listAccessors =>
    exact .withClasses (forall₂_sweep_exceptEnums (fun _ _ _ => ListAccessors.onClass_grows) _)
  | equality =>
    exact .withClasses (forall₂_sweep_exceptEnums (fun _ _ _ => Equality.onClass_grows) _)
  | description =>
    exact .withClasses (forall₂_sweep_exceptEnums (fun _ _ _ => Description.onClass_grows) _)
  | copying =>
    exact .withClasses (forall₂_sweep_exceptEnums (fun _ _ _ => Copying.onClass_grows) _)
  | constraints dialect =>
    exact .withClasses (forall₂_sweep_exceptEnums (fun _ _ _ => Constraints.onClass_grows) _)
  | interfaces => exact Interfaces.run_grows context m
  | privateFields =>
    exact .withClasses (forall₂_sweep_exceptEnums (fun _ _ _ => PrivateFields.onClass_grows) _)
  | factoryDocs => exact FactoryDocs.run_grows context m
  | styleMarker => exact StyleMarker.run_grows context m
  | nullMarker => exact NullMarker.run_grows context m

end BeanSynthesis
