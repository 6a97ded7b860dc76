import BeanSynthesis.Proofs.Edits.Repetition

/-!
# Carriers of carriers

Access to carried values is added next to the setters and getters for carriers, whoever has made
those. If what a carrier carries is a carrier itself, the setters and getters that the pass has made
for it are such, and in a second run they get companions in their turn. No other method and no
constructor is ever added again.
-/

namespace BeanSynthesis.ValueAccessors

variable {settings : Settings} {context : PassContext} {carriers : Dict TypeExpr} {withLocal : Bool}
  {type? : Option TypeExpr} {m : CodeModel} {c d : BeanClass} {n x : Method} {t type : TypeExpr}
  {property : String}

/-! ## Methods with all their companions -/

/-- If a method is a setter for a carrier, the class has the setters that take its value. -/
def HasValueSetters (carriers : Dict TypeExpr) (withLocal : Bool) (c : BeanClass)
    (n : Method) : Prop :=
  ∀ param property type, n.params = [param] → Naming.propertyPart? n.name "set" = some property →
    carried? carriers param.type = some type →
      ∀ t ∈ withCompanion withLocal type, c.hasMethod n.name [t]

/-- If a method is a getter for a carrier, the class has a getter for its value, which takes a
fallback at most if the value is primitive. -/
def HasValueGetter (carriers : Dict TypeExpr) (c : BeanClass) (n : Method) : Prop :=
  ∀ property type, n.params = [] → Naming.propertyPart? n.name "get" = some property →
    carried? carriers n.returnType = some type →
      c.hasMethodWithoutParams (valueGetterName property type) ∨
        type.isPrimitive ∧ c.hasMethod (valueGetterName property type) [type]

/-- The setter of a carrier is followed by one for each form of the value. -/
theorem settersFor_eq {param : Param} (hparams : n.params = [param])
    (hproperty : Naming.propertyPart? n.name "set" = some property)
    (hcarried : carried? carriers param.type = some type) :
    settersFor settings carriers withLocal n =
      (withCompanion withLocal type).map (valueSetter settings n.name property param.type) := by
  simp [settersFor, hparams, hproperty, hcarried]

/-- A setter has its companions if and only if all that the pass offers for it are there. -/
theorem hasValueSetters_iff (settings : Settings) : HasValueSetters carriers withLocal c n ↔
    ∀ x ∈ settersFor settings carriers withLocal n, c.hasMethod x.name x.signature := by
  constructor
  · intro h x hx
    obtain ⟨param, property, type, hparams, hproperty, hcarried, t, ht, rfl⟩ :=
      exists_of_mem_settersFor hx
    exact h param property type hparams hproperty hcarried t ht
  · intro h param property type hparams hproperty hcarried t ht
    rw [settersFor_eq hparams hproperty hcarried] at h
    exact h _ (List.mem_map_of_mem ht)

/-- The getters that are offered for a getter of a carrier, of which the name is not taken. -/
def gettersOf (settings : Settings) (withLocal : Bool) (n : Method) (property : String)
    (type : TypeExpr) : List Method :=
  valueGetter settings (valueGetterName property type) n.name n.returnType type
      (if readsWithIs type then "isValue" else "getValue") ::
    ((if withLocal && !type.isPrimitive then localCompanion? type else none).map fun companion =>
      valueGetter settings (valueGetterName property type ++ "Local") n.name n.returnType
        companion.type "getValueLocal").toList

/-- The getters that the pass offers for a method of a class. -/
def offeredGetters (settings : Settings) (carriers : Dict TypeExpr) (withLocal : Bool)
    (c : BeanClass) (n : Method) : List Method :=
  (gettersFor settings carriers withLocal c n).filterMap Except.toOption

/-- The getters are those that are offered for the methods one by one. -/
theorem getters_eq (settings : Settings) (carriers : Dict TypeExpr) (withLocal : Bool)
    (c : BeanClass) : getters settings carriers withLocal c =
      c.methods.flatMap (offeredGetters settings carriers withLocal c) :=
  List.filterMap_flatMap ..

/-- A getter of a carrier is followed by those for the value, unless the class has one of their
name. -/
theorem offeredGetters_eq (hparams : n.params = [])
    (hproperty : Naming.propertyPart? n.name "get" = some property)
    (hcarried : carried? carriers n.returnType = some type) :
    offeredGetters settings carriers withLocal c n =
      if c.hasMethodWithoutParams (valueGetterName property type) then []
      else gettersOf settings withLocal n property type := by
  unfold offeredGetters gettersFor gettersOf
  simp only [hparams, hproperty, hcarried]
  split
  · rfl
  · generalize (if withLocal && !type.isPrimitive then localCompanion? type else none) = companion?
    cases companion? with
    | none => rfl
    | some companion => rfl

/-- A getter that is offered belongs to a getter of a carrier. -/
theorem exists_of_mem_offeredGetters (h : x ∈ offeredGetters settings carriers withLocal c n) :
    ∃ property type, n.params = [] ∧ Naming.propertyPart? n.name "get" = some property ∧
      carried? carriers n.returnType = some type ∧
        ¬c.hasMethodWithoutParams (valueGetterName property type) ∧
          x ∈ gettersOf settings withLocal n property type := by
  obtain ⟨property, type, hparams, hproperty, hcarried⟩ : ∃ property type, n.params = [] ∧
      Naming.propertyPart? n.name "get" = some property ∧
        carried? carriers n.returnType = some type := by
    unfold offeredGetters gettersFor at h
    split at h
    case h_1 property hparams hproperty =>
      split at h
      case h_1 type hcarried => exact ⟨property, type, hparams, hproperty, hcarried⟩
      case h_2 => cases h
    case h_2 => cases h
  rw [offeredGetters_eq hparams hproperty hcarried] at h
  split at h
  case isTrue => cases h
  case isFalse hfree => exact ⟨property, type, hparams, hproperty, hcarried, hfree, h⟩

/-- A getter for a value has a parameter, by which it says what to give without a carrier, only if
the value is primitive. -/
theorem valueGetter_signature (name getter : String) (carrier type : TypeExpr) (read : String) :
    (valueGetter settings name getter carrier type read).signature =
      if type.isPrimitive then [type] else [] := by
  unfold valueGetter
  split
  · rfl
  · rfl

/-- A getter has its companion if and only if all that the pass offers for it are there. -/
theorem hasValueGetter_iff (settings : Settings) (withLocal : Bool) : HasValueGetter carriers c n ↔
    ∀ x ∈ offeredGetters settings carriers withLocal c n, c.hasMethod x.name x.signature := by
  constructor
  · intro h x hx
    obtain ⟨property, type, hparams, hproperty, hcarried, hfree, hx⟩ :=
      exists_of_mem_offeredGetters hx
    rcases h property type hparams hproperty hcarried with htaken | ⟨hprimitive, hold⟩
    · exact absurd htaken hfree
    · have honly : gettersOf settings withLocal n property type =
          [valueGetter settings (valueGetterName property type) n.name n.returnType type
            (if readsWithIs type then "isValue" else "getValue")] := by
        simp [gettersOf, hprimitive]
      rw [honly, List.mem_singleton] at hx
      rw [hx, valueGetter_name, valueGetter_signature, if_pos hprimitive]
      exact hold
  · intro h property type hparams hproperty hcarried
    by_cases htaken : c.hasMethodWithoutParams (valueGetterName property type)
    · exact .inl htaken
    · rw [offeredGetters_eq hparams hproperty hcarried, if_neg htaken] at h
      have hold := h _ List.mem_cons_self
      rw [valueGetter_name, valueGetter_signature] at hold
      split at hold
      case isTrue hprimitive => exact .inr ⟨hprimitive, hold⟩
      case isFalse => exact .inl hold

/-! ## A class after the pass -/

/-- What the pass makes of a class that carries a value of this type, or none. -/
def made (settings : Settings) (carriers : Dict TypeExpr) (withLocal : Bool)
    (type? : Option TypeExpr) (c : BeanClass) : BeanClass :=
  (editWith settings carriers withLocal type? c).apply c

/-- The methods that the pass adds to a class. -/
def added (settings : Settings) (carriers : Dict TypeExpr) (withLocal : Bool)
    (type? : Option TypeExpr) (c : BeanClass) : List Method :=
  c.newMethods (editWith settings carriers withLocal type? c).methods

/-- The accessors come behind the methods that a class has had. -/
theorem methods_made : (made settings carriers withLocal type? c).methods =
    c.methods ++ added settings carriers withLocal type? c :=
  ClassEdit.apply_methods _ c

/-- All that is offered for the methods of a class the class has after the pass. -/
theorem complete_of_mem (settings : Settings) (carriers : Dict TypeExpr) (withLocal : Bool)
    (type? : Option TypeExpr) (hn : n ∈ c.methods) :
    HasValueSetters carriers withLocal (made settings carriers withLocal type? c) n ∧
      HasValueGetter carriers (made settings carriers withLocal type? c) n := by
  constructor
  · rw [hasValueSetters_iff settings]
    intro x hx
    have hoffered : x ∈ (editWith settings carriers withLocal type? c).methods :=
      List.mem_append_left _ (List.mem_flatMap.mpr ⟨n, hn, hx⟩)
    exact ClassEdit.hasMethod_apply hoffered
  · rw [hasValueGetter_iff settings withLocal]
    intro x hx
    obtain ⟨property, type, hparams, hproperty, hcarried, hfree, hx⟩ :=
      exists_of_mem_offeredGetters hx
    have hfree' : ¬c.hasMethodWithoutParams (valueGetterName property type) :=
      fun hold => hfree (ClassEdit.hasMethod_apply_of_hasMethod hold)
    have hx' : x ∈ offeredGetters settings carriers withLocal c n := by
      rw [offeredGetters_eq hparams hproperty hcarried, if_neg hfree']
      exact hx
    have hoffered : x ∈ (editWith settings carriers withLocal type? c).methods := by
      refine List.mem_append_right _ ?_
      rw [getters_eq]
      exact List.mem_flatMap.mpr ⟨n, hn, hx'⟩
    exact ClassEdit.hasMethod_apply hoffered

/-- No constructor is new a second time. -/
theorem hasConstructors_made :
    ∀ k ∈ defaultConstructor settings :: constructorsFor settings withLocal type?,
    (made settings carriers withLocal type? c).hasConstructor k.key :=
  fun _ hk => ClassEdit.hasConstructor_apply hk

private theorem constructors_made_made :
    (made settings carriers withLocal type?
      (made settings carriers withLocal type? c)).constructors =
      (made settings carriers withLocal type? c).constructors := by
  have hnone : (made settings carriers withLocal type? c).newConstructors
      (defaultConstructor settings :: constructorsFor settings withLocal type?) = [] :=
    ClassEdit.newConstructors_eq_nil_iff.mpr hasConstructors_made
  exact (congrArg (_ ++ ·) hnone).trans (List.append_nil _)

/-- A second time the class stays the same if and only if the methods that the pass has added have
all their companions. -/
theorem made_made_eq_iff :
    made settings carriers withLocal type? (made settings carriers withLocal type? c) =
        made settings carriers withLocal type? c ↔
      ∀ n ∈ added settings carriers withLocal type? c,
        HasValueSetters carriers withLocal (made settings carriers withLocal type? c) n ∧
          HasValueGetter carriers (made settings carriers withLocal type? c) n := by
  constructor
  · intro h n hn
    have hold : n ∈ (made settings carriers withLocal type? c).methods := by
      rw [methods_made]
      exact List.mem_append_right _ hn
    have hcomplete := complete_of_mem settings carriers withLocal type? hold
    rwa [h] at hcomplete
  · intro h
    refine ClassEdit.apply_eq_self_iff.mpr ⟨?_, ?_, rfl, rfl, rfl⟩
    · exact hasConstructors_made
    · have hall : ∀ n ∈ (made settings carriers withLocal type? c).methods,
          HasValueSetters carriers withLocal (made settings carriers withLocal type? c) n ∧
            HasValueGetter carriers (made settings carriers withLocal type? c) n := by
        intro n hn
        rw [methods_made] at hn
        rcases List.mem_append.mp hn with hold | hnew
        · exact complete_of_mem settings carriers withLocal type? hold
        · exact h n hnew
      intro x hx
      rcases List.mem_append.mp hx with hsetter | hgetter
      · obtain ⟨n, hn, hx⟩ := List.mem_flatMap.mp hsetter
        exact (hasValueSetters_iff settings).mp (hall n hn).1 x hx
      · rw [getters_eq] at hgetter
        obtain ⟨n, hn, hx⟩ := List.mem_flatMap.mp hgetter
        exact (hasValueGetter_iff settings withLocal).mp (hall n hn).2 x hx

private theorem origin_of_mem_added (hn : n ∈ added settings carriers withLocal type? c) :
    n.origin = .synthesized option := by
  obtain ⟨o, ho, horigin, -⟩ : n.MadeBy settings [option] := by
    rcases List.mem_append.mp (mem_of_mem_newcomers hn) with hsetter | hgetter
    · obtain ⟨n', -, hn⟩ := List.mem_flatMap.mp hsetter
      exact settersFor_madeBy n' n hn
    · obtain ⟨n', -, hget⟩ := exists_of_mem_untaken hgetter
      exact gettersFor_madeBy hget
  rw [horigin, List.mem_singleton.mp ho]

/-! ### Chains -/

/-- A type of which values are taken and given: something is carried that is of the type, or has it
for a local companion that takes part. -/
def IsValue (carriers : Dict TypeExpr) (withLocal : Bool) (t : TypeExpr) : Prop :=
  ∃ name type, carriers.get? name = some type ∧ t ∈ withCompanion withLocal type

/-- Nothing that is carried is a carrier itself. -/
def Unchained (carriers : Dict TypeExpr) (withLocal : Bool) : Prop :=
  ∀ t, IsValue carriers withLocal t → carried? carriers t = none

private theorem isValue_of_carried? {carrier : TypeExpr} (h : carried? carriers carrier = some type)
    (ht : t ∈ withCompanion withLocal type) : IsValue carriers withLocal t := by
  cases carrier with
  | named name args => exact ⟨name, type, h, ht⟩
  | _ => cases h

/-- A method that takes or gives values of a type: its only parameter is of the type, or it has none
and returns the type. -/
def Handles (n : Method) (t : TypeExpr) : Prop :=
  (∀ param, n.params = [param] → param.type = t) ∧ (n.params = [] → n.returnType = t)

private theorem valueGetter_handles (name getter : String) (carrier t : TypeExpr) (read : String) :
    Handles (valueGetter settings name getter carrier t read) t := by
  unfold valueGetter
  split
  · refine ⟨fun param hparam => ?_, fun hnone => (List.cons_ne_nil _ _ hnone).elim⟩
    rw [← (List.cons.inj hparam).1]
    rfl
  · exact ⟨fun _ hparam => (List.cons_ne_nil _ _ hparam.symm).elim, fun _ => rfl⟩

private theorem gettersOf_handle (h : x ∈ gettersOf settings withLocal n property type) :
    ∃ t ∈ withCompanion withLocal type, Handles x t := by
  rcases List.mem_cons.mp h with rfl | h
  · refine ⟨type, ?_, valueGetter_handles ..⟩
    unfold withCompanion
    split
    · exact List.mem_cons_self
    · exact List.mem_cons_self
  · obtain ⟨companion, hcompanion, rfl⟩ := Option.map_eq_some_iff.mp (Option.mem_toList.mp h)
    refine ⟨companion.type, ?_, valueGetter_handles ..⟩
    split at hcompanion
    case isTrue hlocal =>
      rw [Bool.and_eq_true] at hlocal
      simp [withCompanion, hlocal.1, hcompanion]
    case isFalse => cases hcompanion

/-- What the pass adds takes or gives values. -/
theorem added_handle (hn : n ∈ added settings carriers withLocal type? c) :
    ∃ t, IsValue carriers withLocal t ∧ Handles n t := by
  rcases List.mem_append.mp (mem_of_mem_newcomers hn) with hsetter | hgetter
  · obtain ⟨n', -, hn⟩ := List.mem_flatMap.mp hsetter
    obtain ⟨param, property, type, -, -, hcarried, t, ht, rfl⟩ := exists_of_mem_settersFor hn
    refine ⟨t, isValue_of_carried? hcarried ht, fun param hparam => ?_,
      fun hnone => (List.cons_ne_nil _ _ hnone).elim⟩
    rw [← (List.cons.inj hparam).1]
    rfl
  · rw [getters_eq] at hgetter
    obtain ⟨n', -, hn⟩ := List.mem_flatMap.mp hgetter
    obtain ⟨property, type, -, -, hcarried, -, hn⟩ := exists_of_mem_offeredGetters hn
    obtain ⟨t, ht, hhandles⟩ := gettersOf_handle hn
    exact ⟨t, isValue_of_carried? hcarried ht, hhandles⟩

/-- Where nothing that is carried is a carrier, nothing is added a second time. -/
theorem made_made_of_unchained (h : Unchained carriers withLocal) :
    made settings carriers withLocal type? (made settings carriers withLocal type? c) =
      made settings carriers withLocal type? c := by
  rw [made_made_eq_iff]
  intro n hn
  obtain ⟨t, hvalue, hparam, hreturn⟩ := added_handle hn
  constructor
  · intro param property type hparams _ hcarried
    rw [hparam param hparams, h t hvalue] at hcarried
    cases hcarried
  · intro property type hparams _ hcarried
    rw [hreturn hparams, h t hvalue] at hcarried
    cases hcarried

/-! ## Runs -/

/-- What the pass makes of a class of a model, which it leaves alone if it is an enumeration. -/
def madeOf (context : PassContext) (m : CodeModel) (c : BeanClass) : BeanClass :=
  if c.isEnum then c
  else made context.settings (carriersOf m) (takesLocal context) (carriedBy? m c) c

/-- Whether it fails or not, the pass leaves the edited classes. -/
theorem run_model (context : PassContext) (m : CodeModel) :
    (run context m).model = { m with classes := m.classes.map (madeOf context m) } := by
  obtain ⟨-, -, hmodel, -⟩ := run_eq context m
  exact hmodel

/-- A class grows in a run of the pass. -/
theorem madeOf_grows (context : PassContext) (hc : c ∈ m.classes) :
    c.Grows context.settings [option] (madeOf context m c) := by
  have hgrows : m.Grows context.settings [option] (run context m).model :=
    Pass.valueAccessors.run_grows context m
  have hclasses := hgrows.classes
  rw [run_model, List.forall₂_map_right_iff, List.forall₂_same] at hclasses
  exact hclasses c hc

/-- A class of a model that the pass has made is, if no enumeration, what the pass makes of one.
A second time the pass reads the same carriers and treats the class like the one it came from. -/
theorem exists_made (hc : c ∈ (run context m).model.classes) (hplain : ¬c.isEnum) :
    ∃ type? b, c = made context.settings (carriersOf m) (takesLocal context) type? b ∧
      madeOf context (run context m).model c =
        made context.settings (carriersOf m) (takesLocal context) type? c := by
  have hgrows : m.Grows context.settings [option] (run context m).model :=
    Pass.valueAccessors.run_grows context m
  rw [run_model] at hc
  obtain ⟨b, hb, rfl⟩ := List.mem_map.mp hc
  have hb' := madeOf_grows context hb
  rw [hb'.isEnum_eq] at hplain
  refine ⟨carriedBy? m b, b, if_neg hplain, ?_⟩
  rw [← carriedBy?_eq hgrows hb', ← carriersOf_eq hgrows]
  exact if_neg (by rwa [hb'.isEnum_eq])

/-- A class of a model that the pass has made stays the same if and only if every method in it that
the pass has added, and that is an accessor of a carrier, has its companions. -/
theorem madeOf_eq_iff (hc : c ∈ (run context m).model.classes) (hplain : ¬c.isEnum) :
    madeOf context (run context m).model c = c ↔ ∀ n ∈ c.methods, n.origin = .synthesized option →
      HasValueSetters (carriersOf m) (takesLocal context) c n ∧
        HasValueGetter (carriersOf m) c n := by
  obtain ⟨type?, b, hmade, hagain⟩ := exists_made hc hplain
  rw [hagain]
  subst hmade
  rw [made_made_eq_iff]
  constructor
  · intro h n hn _
    rw [methods_made] at hn
    rcases List.mem_append.mp hn with hold | hnew
    · exact complete_of_mem _ _ _ _ hold
    · exact h n hnew
  · intro h n hn
    refine h n ?_ (origin_of_mem_added hn)
    rw [methods_made]
    exact List.mem_append_right _ hn

private theorem run_model_eq_iff : (run context m).model = m ↔
    ∀ c ∈ m.classes, ¬c.isEnum → madeOf context m c = c := by
  have henums : ∀ c, c.isEnum → madeOf context m c = c := fun _ henum => if_pos henum
  rw [run_model, CodeModel.map_classes_eq_self_iff henums]

/-- On a model that the pass has made it succeeds again and adds no constructor. The model stays the
same if and only if every method that the pass has added, and that is an accessor of a carrier, has
its companions; it does so if nothing that is carried is a carrier. -/
theorem second_run_follows_chains (context : PassContext) (m : CodeModel) :
    let first := (run context m).model
    let second := run context first
    (∃ report, second.outcome = .ok report) ∧
      List.Forall₂ (fun c d => d.constructors = c.constructors) first.classes second.model.classes ∧
      (second.model = first ↔ ∀ c ∈ first.classes, ¬c.isEnum →
        ∀ n ∈ c.methods, n.origin = .synthesized option →
          HasValueSetters (carriersOf m) (takesLocal context) c n ∧
            HasValueGetter (carriersOf m) c n) ∧
      (Unchained (carriersOf m) (takesLocal context) → second.model = first) := by
  intro first second
  refine ⟨succeeds_run context first, ?_, ?_, fun hunchained => ?_⟩
  · rw [show second.model.classes = first.classes.map (madeOf context first) from
      congrArg CodeModel.classes (run_model context first), List.forall₂_map_right_iff,
      List.forall₂_same]
    intro c hc
    by_cases henum : c.isEnum
    · rw [madeOf, if_pos henum]
    · obtain ⟨type?, b, hmade, hagain⟩ := exists_made hc henum
      rw [hagain, hmade]
      exact constructors_made_made
  · rw [run_model_eq_iff]
    exact forall₂_congr fun c hc => forall_congr' fun hplain => madeOf_eq_iff hc hplain
  · rw [run_model_eq_iff]
    intro c hc hplain
    obtain ⟨type?, b, hmade, hagain⟩ := exists_made hc hplain
    rw [hagain, hmade]
    exact made_made_of_unchained hunchained

/-- A class with a setter and a getter for objects of another class. -/
def holderOf (carrier : String) : BeanClass :=
  { name := "shop.Holder"
    methods := [
      { name := "getItem", returnType := .ofName carrier },
      { name := "setItem", returnType := .void,
        params := [Param.final "value" (.ofName carrier)] }] }

/-- A class that carries a number. -/
def numberCarrier : BeanClass :=
  { name := "shop.Number", fields := [{ name := "value", type := .primitive .int }] }

/-- A class that carries a carrier of a number. -/
def carrierCarrier : BeanClass :=
  { name := "shop.Item", fields := [{ name := "value", type := .ofName "shop.Number" }] }

/-- Where only a number is carried, the second run adds nothing. -/
theorem numberCarrier_not_extended_again :
    let context : PassContext := { settings := {}, active := [option] }
    let m : CodeModel := { classes := [numberCarrier, holderOf "shop.Number"] }
    Unchained (carriersOf m) (takesLocal context) ∧
      (run context (run context m).model).model = (run context m).model := by
  intro context m
  have hentries : (carriersOf m).entries = [("shop.Number", .primitive .int)] := by decide +kernel
  have hunchained : Unchained (carriersOf m) (takesLocal context) := by
    rintro t ⟨name, type, hcarried, ht⟩
    have htype : type = .primitive .int := by
      have hmem := (Dict.find?_eq_some_iff_mem (carriersOf m).increasing).mp hcarried
      rw [hentries, List.mem_singleton] at hmem
      exact congrArg Prod.snd hmem
    have hlocal : takesLocal context = false := by decide +kernel
    rw [htype, hlocal] at ht
    obtain rfl := List.mem_singleton.mp ht
    rfl
  exact ⟨hunchained, (second_run_follows_chains context m).2.2.2 hunchained⟩

/-- A second run does not leave constructors and methods alone whatever the model: where what is
carried carries a number, the holder gets a setter and a getter for the number in the second run. -/
theorem carrierCarrier_extended_again :
    ¬∀ (context : PassContext) (m : CodeModel) (report : PassReport),
    m.validate = .ok () → (run context m).outcome = .ok report →
      (run context (run context m).model).model.classes.map (fun c => (c.constructors, c.methods)) =
        (run context m).model.classes.map (fun c => (c.constructors, c.methods)) := by
  intro hall
  let context : PassContext := { settings := {}, active := [option] }
  let m : CodeModel := { classes := [carrierCarrier, numberCarrier, holderOf "shop.Item"] }
  obtain ⟨report, hok⟩ := succeeds_run context m
  have hvalid : m.validate = .ok () := by decide +kernel
  have hnames := congrArg (List.map fun members => members.2.map (·.name))
      (hall context m report hvalid hok)
  have hadded : (run context (run context m).model).model.classes.map (·.methods.map (·.name)) ≠
      (run context m).model.classes.map (·.methods.map (·.name)) := by decide +kernel
  rw [List.map_map, List.map_map] at hnames
  exact hadded hnames

end BeanSynthesis.ValueAccessors
