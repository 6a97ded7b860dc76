import BeanSynthesis.Proofs.Carrying.Members

/-!
# Classes that count as touched

A treatment that adds members counts its class once if it has added any. The pass for carried values
treats every class four times, so it counts a class up to four times: what each of the treatments
adds does not depend on the treatments before it.
-/

namespace BeanSynthesis

variable {settings : Settings} {context : PassContext} {m : CodeModel} {c added after : BeanClass}
  {tally total : Tally}

/-! ## Treatments -/

/-- A treatment counts a class as touched if and only if it counts a member as added. -/
def Touches (f : BeanClass → Step Changed) : Prop :=
  ∀ c after tally, (f c).outcome = .ok (after, tally) →
    tally.classesTouched = min 1 tally.membersAdded

/-- What leaves enumerations out counts them neither as touched nor with members. -/
theorem Touches.exceptEnums {f : BeanClass → Step Changed} (h : Touches f) :
    Touches (exceptEnums f) := by
  intro c after tally hok
  unfold BeanSynthesis.exceptEnums at hok
  split at hok
  · obtain ⟨rfl, rfl⟩ := Prod.mk.inj (Except.ok.inj hok)
    rfl
  · exact h c after tally hok

/-- A sweep counts every class that has received something. -/
theorem Makes.sweep_touches {f : BeanClass → Step Changed} {g : BeanClass → BeanClass}
    {count : BeanClass → Nat} (h : Makes f g count) (htouches : Touches f)
    {classes : List BeanClass} (hok : (BeanSynthesis.sweep f classes).outcome = .ok tally) :
    tally.classesTouched = (classes.map fun c => min 1 (count c)).sum := by
  induction classes generalizing tally with
  | nil =>
    obtain rfl := Except.ok.inj hok
    rfl
  | cons c rest ih =>
    cases hc : (f c).outcome with
    | error e =>
      rw [sweep_cons_of_error hc] at hok
      cases hok
    | ok changed =>
      have hcount : changed.2.membersAdded = count c := (h c changed.1 changed.2 hc).2
      have hfirst := htouches c changed.1 changed.2 hc
      rw [sweep_cons_of_ok hc] at hok
      cases hrest : (BeanSynthesis.sweep f rest).outcome with
      | error e => simp [hrest, Except.map] at hok
      | ok others =>
        simp only [hrest, Except.map, Except.ok.injEq] at hok
        subst hok
        rw [List.map_cons, List.sum_cons, ← ih hrest, ← hcount, ← hfirst]
        rfl

private theorem BeanClass.addMethods_touches {ms : List Method}
    (h : (c.addMethods ms).outcome = .ok (added, tally)) : tally.classesTouched = 0 := by
  induction ms generalizing c added tally with
  | nil =>
    obtain ⟨-, rfl⟩ := Prod.mk.inj (Except.ok.inj h)
    rfl
  | cons n rest ih =>
    obtain ⟨⟨next, first⟩, hfirst, h⟩ := Step.bind_eq_ok.mp h
    obtain ⟨⟨last, others⟩, hothers, h⟩ := Step.bind_eq_ok.mp h
    obtain ⟨-, rfl⟩ := Prod.mk.inj (Except.ok.inj h)
    have hnone : first.classesTouched = 0 := by
      unfold BeanClass.addMethod at hfirst
      split at hfirst
      · obtain ⟨-, rfl⟩ := Prod.mk.inj (Except.ok.inj hfirst)
        rfl
      · obtain ⟨-, rfl⟩ := Prod.mk.inj (Except.ok.inj hfirst)
        rfl
    have hnone' : others.classesTouched = 0 := ih hothers
    change first.classesTouched + others.classesTouched = 0
    rw [hnone, hnone']

private theorem BeanClass.addConstructors_touches (c : BeanClass) (ks : List Constructor) :
    (c.addConstructors ks).2.classesTouched = 0 := by
  induction ks generalizing c with
  | nil => rfl
  | cons k rest ih =>
    have hnone : (c.addConstructor k).2.classesTouched = 0 := by
      unfold BeanClass.addConstructor
      dsimp only
      split
      · rfl
      · rfl
    change (c.addConstructor k).2.classesTouched +
      ((c.addConstructor k).1.addConstructors rest).2.classesTouched = 0
    rw [hnone, ih]

/-- A class that is noted to have received members is counted with them. -/
theorem Changed.noted_touches {changed : Changed} {note : String}
    (hnone : changed.2.classesTouched = 0) (h : changed.noted note = (after, total)) :
    total.classesTouched = min 1 total.membersAdded := by
  unfold Changed.noted at h
  split at h
  case isTrue hsome =>
    obtain ⟨-, rfl⟩ := Prod.mk.inj h
    change changed.2.classesTouched + 1 = min 1 changed.2.membersAdded
    omega
  case isFalse =>
    obtain rfl := congrArg Prod.snd h
    omega

/-- The accessors of fields count a class as touched if they are counted. -/
theorem LocalAccessors.onClass_touches : Touches (onClass settings) := by
  intro c after tally h
  obtain ⟨fields, -, h⟩ := Step.bind_eq_ok.mp h
  obtain ⟨changed, hadd, h⟩ := Step.bind_eq_ok.mp h
  exact Changed.noted_touches (BeanClass.addMethods_touches hadd) (Except.ok.inj h)

/-- The companions of list getters count a class as touched if they are counted. -/
theorem ListAccessors.onClass_touches : Touches (onClass settings) := by
  intro c after tally h
  obtain ⟨fields, -, h⟩ := Step.bind_eq_ok.mp h
  obtain ⟨plan, -, h⟩ := Step.bind_eq_ok.mp h
  obtain ⟨⟨added, first⟩, hadd, h⟩ := Step.bind_eq_ok.mp h
  have hnone : first.classesTouched + 0 = 0 := BeanClass.addMethods_touches hadd
  exact Changed.noted_touches hnone (Except.ok.inj h)

/-- The methods `equals` and `hashCode` count a class as touched if they are counted. -/
theorem Equality.onClass_touches : Touches (onClass settings m) := by
  intro c after tally h
  obtain ⟨fields, -, h⟩ := Step.bind_eq_ok.mp h
  obtain ⟨-, -, h⟩ := Step.bind_eq_ok.mp h
  obtain ⟨-, -, h⟩ := Step.bind_eq_ok.mp h
  obtain ⟨changed, hadd, h⟩ := Step.bind_eq_ok.mp h
  obtain ⟨-, -, h⟩ := Step.bind_eq_ok.mp h
  exact Changed.noted_touches (BeanClass.addMethods_touches hadd) (Except.ok.inj h)

/-- The method `toString` counts a class as touched if it is counted. -/
theorem Description.onClass_touches : Touches (onClass settings m) := by
  intro c after tally h
  obtain ⟨fields, -, h⟩ := Step.bind_eq_ok.mp h
  split at h
  case isTrue =>
    obtain ⟨-, rfl⟩ := Prod.mk.inj (Except.ok.inj h)
    rfl
  case isFalse =>
    obtain ⟨changed, hadd, h⟩ := Step.bind_eq_ok.mp h
    have hall : (c.addMethods [(toStringMethod settings.runtime fields (m.lineageOf c)).stamp
        settings option]).outcome = .ok (changed.1, changed.2 ++ {}) :=
      Step.bind_eq_ok.mpr ⟨changed, hadd, rfl⟩
    have hnone : (changed.2 ++ {} : Tally).classesTouched = 0 := BeanClass.addMethods_touches hall
    exact Changed.noted_touches hnone (Except.ok.inj h)

/-- The methods of cloning count a class as touched if they are counted. -/
theorem Copying.onClass_touches : Touches (onClass settings m) := by
  intro c after tally h
  obtain ⟨fields, -, h⟩ := Step.bind_eq_ok.mp h
  obtain ⟨-, -, h⟩ := Step.bind_eq_ok.mp h
  obtain ⟨changed, hadd, h⟩ := Step.bind_eq_ok.mp h
  obtain ⟨-, -, h⟩ := Step.bind_eq_ok.mp h
  exact Changed.noted_touches (BeanClass.addMethods_touches hadd) (Except.ok.inj h)

/-! ## Access to carried values -/

namespace ValueAccessors

variable {carriers : Dict TypeExpr} {withLocal : Bool} {type? : Option TypeExpr} {n x y : Method}

private theorem addDefaultConstructor_touches : Touches (addDefaultConstructor settings) := by
  intro c after tally h
  unfold addDefaultConstructor at h
  split at h
  case isTrue =>
    obtain ⟨-, rfl⟩ := Prod.mk.inj (Except.ok.inj h)
    rfl
  case isFalse => exact Changed.noted_touches rfl (Except.ok.inj h)

private theorem addValueConstructors_touches {type? : BeanClass → Option TypeExpr} :
    Touches (addValueConstructors settings withLocal type?) := by
  intro c after tally h
  unfold addValueConstructors at h
  split at h
  case h_1 =>
    obtain ⟨-, rfl⟩ := Prod.mk.inj (Except.ok.inj h)
    rfl
  case h_2 type hsome =>
    obtain ⟨-, -, h⟩ := Step.bind_eq_ok.mp h
    exact Changed.noted_touches (c.addConstructors_touches _) (Except.ok.inj h)

private theorem addSetters_touches : Touches (addSetters settings carriers withLocal) := by
  intro c after tally h
  obtain ⟨changed, hadd, h⟩ := Step.bind_eq_ok.mp h
  exact Changed.noted_touches (BeanClass.addMethods_touches hadd) (Except.ok.inj h)

private theorem addGetters_touches : Touches (addGetters settings carriers withLocal) := by
  intro c after tally h
  obtain ⟨-, -, h⟩ := Step.bind_eq_ok.mp h
  obtain ⟨⟨added, first⟩, hadd, h⟩ := Step.bind_eq_ok.mp h
  have hnone : first.classesTouched + 0 = 0 := BeanClass.addMethods_touches hadd
  exact Changed.noted_touches hnone (Except.ok.inj h)

private theorem exists_name_of_mem_gettersOf {property : String} {type : TypeExpr}
    (h : x ∈ gettersOf settings withLocal n property type) :
    ∃ rest, x.name = (if readsWithIs type then "is" else "get") ++ rest := by
  rcases List.mem_cons.mp h with rfl | h
  · refine ⟨property ++ "Value", ?_⟩
    rw [valueGetter_name, valueGetterName, String.append_assoc]
  · obtain ⟨companion, -, rfl⟩ := Option.map_eq_some_iff.mp (Option.mem_toList.mp h)
    refine ⟨property ++ "Value" ++ "Local", ?_⟩
    rw [valueGetter_name, valueGetterName, String.append_assoc, String.append_assoc,
      String.append_assoc]

/-- Value setters and value getters have different names. -/
theorem key_ne_of_mem (hx : x ∈ setters settings carriers withLocal c)
    (hy : y ∈ getters settings carriers withLocal c) : x.key ≠ y.key := by
  have hset : x.name.toList.head? = some 's' := by
    obtain ⟨n, -, hn⟩ := List.mem_flatMap.mp hx
    obtain ⟨param, property, type, -, hproperty, -, t, -, rfl⟩ := exists_of_mem_settersFor hn
    change n.name.toList.head? = some 's'
    rw [(Naming.propertyPart?_eq_some_iff.mp hproperty).2, String.toList_append]
    rfl
  have hget : y.name.toList.head? ≠ some 's' := by
    rw [getters_eq] at hy
    obtain ⟨n, -, hn⟩ := List.mem_flatMap.mp hy
    obtain ⟨property, type, -, -, -, -, hn⟩ := exists_of_mem_offeredGetters hn
    obtain ⟨rest, hname⟩ := exists_name_of_mem_gettersOf hn
    rw [hname]
    split
    · simp [String.toList_append]
    · simp [String.toList_append]
  intro hkey
  have hname : x.name = y.name := congrArg Prod.fst hkey
  rw [← hname] at hget
  exact hget hset

/-! ### Treatments of a class -/

/-- What the four treatments of a class do. -/
def parts (context : PassContext) (m : CodeModel) (c : BeanClass) : List ClassEdit :=
  [editDefault context.settings,
    editConstructors context.settings (takesLocal context) (carriedBy? m c),
    editSetters context.settings (carriersOf m) (takesLocal context) c,
    editGetters context.settings (carriersOf m) (takesLocal context) c]

/-- The constructors for the value take a parameter, so the one without parameters is none of
them. -/
theorem editConstructors_count_apply (c : BeanClass) :
    (editConstructors settings withLocal type?).count ((editDefault settings).apply c) =
      (editConstructors settings withLocal type?).count c := by
  have hconstructors : ((editDefault settings).apply c).newConstructors
      (constructorsFor settings withLocal type?) =
        c.newConstructors (constructorsFor settings withLocal type?) := by
    rw [BeanClass.newConstructors, ClassEdit.apply_constructors, List.map_append]
    apply newcomers_append_seen
    intro k hk hkey
    obtain ⟨type, htype⟩ : ∃ type, k.key = [type] := by
      cases type? with
      | none => cases hk
      | some type =>
        obtain ⟨t, -, rfl⟩ := List.mem_map.mp hk
        exact ⟨t, rfl⟩
    obtain ⟨k', hk', hkey'⟩ := List.mem_map.mp hkey
    obtain rfl := List.mem_singleton.mp (mem_of_mem_newcomers hk')
    rw [htype] at hkey'
    cases hkey'
  exact congrArg (·.length + 0) hconstructors

private theorem editSetters_count_apply (c : BeanClass) :
    let second := (editConstructors settings withLocal type?).apply ((editDefault settings).apply c)
    (editSetters settings carriers withLocal second).count second =
      (editSetters settings carriers withLocal c).count c := by
  intro second
  have hmethods : second.methods = c.methods := by
    simp [second, editConstructors, editDefault, ClassEdit.ofMembers, BeanClass.newMethods,
      newcomers]
  rw [editSetters, setters, hmethods, ← setters, ← editSetters, ClassEdit.count,
    BeanClass.newMethods, hmethods]
  rfl

private theorem editGetters_count_apply (c : BeanClass) :
    let third := afterSetters settings carriers withLocal type? c
    (editGetters settings carriers withLocal third).count third =
      (editGetters settings carriers withLocal c).count c := by
  intro third
  rw [editGetters, getters_afterSetters, editGetters]
  apply ClassEdit.Independent.count_apply
  exact {
    constructors := .inr rfl
    methods := fun x hx y hy => key_ne_of_mem hx hy
    fields := fun _ => rfl
    interfaces := fun _ => .refl _
    annotations := fun _ => rfl }

/-- The edit adds what its parts add. -/
theorem edit_count (context : PassContext) (m : CodeModel) (c : BeanClass) :
    (edit context m c).count c = ((parts context m c).map (·.count c)).sum := by
  -- Every treatment meets the class after those before it, but adds to it what it would have added
  -- to the class itself.
  rw [edit, ← (lastSweep_eq (carriedBy? m c) c).2, editGetters_count_apply,
    ← (firstSweeps_eq (carriedBy? m c) c).2, editConstructors_count_apply, editSetters_count_apply]
  simp [parts, Nat.add_assoc]

/-- How many of the treatments of a class add something. -/
theorem countP_parts (context : PassContext) (m : CodeModel) (c : BeanClass) :
    (parts context m c).countP (fun e => 0 < e.count c) =
      ((parts context m c).map fun e => min 1 (e.count c)).sum := by
  induction parts context m c with
  | nil => rfl
  | cons e rest ih =>
    rw [List.countP_cons, ih, List.map_cons, List.sum_cons]
    by_cases he : 0 < e.count c
    · rw [if_pos (by simpa using he)]
      omega
    · rw [if_neg (by simpa using he)]
      omega

/-- The pass counts a class once for each treatment that adds something to it. -/
theorem run_touches (context : PassContext) (m : CodeModel) :
    ∃ tally, (run context m).outcome = .ok { option, tally } ∧
      tally.classesTouched = (m.classes.map fun c =>
        if c.isEnum then 0 else (parts context m c).countP fun e => 0 < e.count c).sum := by
  let type? := Carriers.valueType? (afterDefaults context.settings m) (found m)
  obtain ⟨hgrows, -, -⟩ := scan_afterDefaults context.settings m
  have hmakes₁ : Makes (addDefaultConstructor context.settings) _ _ := addDefaultConstructor_makes
  have hmakes₂ : Makes (addValueConstructors context.settings (takesLocal context) type?) _ _ :=
    addValueConstructors_makes
  have hmakes₃ : Makes (addSetters context.settings (carriersOf m) (takesLocal context)) _ _ :=
    addSetters_makes
  have hmakes₄ : Makes (addGetters context.settings (carriersOf m) (takesLocal context)) _ _ :=
    addGetters_makes
  obtain ⟨t₁, hok₁, hclasses₁, -⟩ :=
    sweep_exceptEnums succeeds_addDefaultConstructor hmakes₁ m.classes
  obtain ⟨t₂, hok₂, hclasses₂, -⟩ :=
    sweep_exceptEnums (succeeds_addValueConstructors (takesLocal context) type?) hmakes₂ _
  obtain ⟨t₃, hok₃, hclasses₃, -⟩ :=
    sweep_exceptEnums (succeeds_addSetters (carriersOf m) (takesLocal context)) hmakes₃ _
  obtain ⟨t₄, hok₄, -, -⟩ :=
    sweep_exceptEnums (succeeds_addGetters (carriersOf m) (takesLocal context)) hmakes₄ _
  have htouched₁ := hmakes₁.exceptEnums.sweep_touches addDefaultConstructor_touches.exceptEnums hok₁
  have htouched₂ := hmakes₂.exceptEnums.sweep_touches addValueConstructors_touches.exceptEnums hok₂
  have htouched₃ := hmakes₃.exceptEnums.sweep_touches addSetters_touches.exceptEnums hok₃
  have htouched₄ := hmakes₄.exceptEnums.sweep_touches addGetters_touches.exceptEnums hok₄
  refine ⟨_, (run_of_sweeps context m hok₁ hok₂ hok₃ hok₄).1, ?_⟩
  change t₁.classesTouched + 0 + t₂.classesTouched + t₃.classesTouched + t₄.classesTouched = _
  rw [htouched₁, htouched₂, htouched₃, htouched₄, hclasses₃, hclasses₂, hclasses₁, Nat.add_zero]
  simp only [List.map_map, ← List.sum_map_add]
  congr 1
  apply List.map_congr_left
  intro c _
  by_cases henum : c.isEnum
  · simp [henum]
  · have htype : type? ((editDefault context.settings).apply c) = carriedBy? m c := by
      simp only [type?, Carriers.valueType?_eq hgrows (grows_afterDefault henum)]
      rfl
    simp only [Function.comp_apply, henum, ClassEdit.apply_isEnum, Bool.false_eq_true, if_false,
      htype]
    rw [(firstSweeps_eq _ c).1, editConstructors_count_apply, editSetters_count_apply,
      editGetters_count_apply, countP_parts]
    simp [parts, Nat.add_assoc]

end ValueAccessors

end BeanSynthesis
