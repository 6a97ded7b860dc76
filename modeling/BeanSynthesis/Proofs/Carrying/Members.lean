import BeanSynthesis.Proofs.Edits.Chains

/-!
# The members for carried values

What the pass for carried values adds is told by declarations alone: by the fields that make classes
carriers and by the setters and getters for carriers. Every class receives the members that they
call for, and no others.
-/

namespace BeanSynthesis

/-- A property is what follows the start of an accessor name, unless that is nothing. -/
theorem Naming.propertyPart?_eq_some_iff {name accessor property : String} :
    propertyPart? name accessor = some property ↔ property ≠ "" ∧ name = accessor ++ property := by
  unfold propertyPart?
  constructor
  · intro h
    split at h
    · cases h
    · cases h
    case h_3 rest hne hrest =>
      obtain rfl := Option.some.inj h
      have htext := Text.eq_append_of_afterStart? hrest
      refine ⟨fun hnone => ?_, ?_⟩
      · exact hne (by simpa using congrArg String.toList hnone)
      · exact String.toList_inj.mp (by simpa using htext)
  · rintro ⟨hne, rfl⟩
    have hrest : property.toList ≠ [] := by simpa using hne
    rw [String.toList_append, Text.afterStart?_append]
    cases htext : property.toList with
    | nil => exact absurd htext hrest
    | cons first rest => simp [← htext]

namespace ValueAccessors

variable {context : PassContext} {m : CodeModel} {c d e : BeanClass} {n x : Method}
  {type form t : TypeExpr} {property : String}

/-! ## What calls for members -/

/-- A type in which a value is given: its own, and its local companion if the pass for local views
takes part. -/
def ValueForm (context : PassContext) (type form : TypeExpr) : Prop :=
  form = type ∨ LocalAccessors.option ∈ context.active ∧
    ∃ companion, localCompanion? type = some companion ∧ form = companion.type

/-- The type is a generated class, and no enumeration, that carries values of another type. -/
def NamesCarrier (m : CodeModel) (found : Carriers) (t type : TypeExpr) : Prop :=
  ∃ c ∈ m.classes, ¬c.isEnum ∧ (∃ args, t = .named c.name args) ∧
    Carriers.valueType? m found c = some type

/-- A method `set<property>` with one parameter, which takes a carrier of values of the type. -/
structure SetsCarrier (m : CodeModel) (found : Carriers) (n : Method) (property : String)
    (type : TypeExpr) : Prop where
  name : n.name = "set" ++ property
  property_ne : property ≠ ""
  carrier : ∃ param, n.params = [param] ∧ NamesCarrier m found param.type type

/-- A method `get<property>` without parameters, which gives a carrier of values of the type. -/
structure GetsCarrier (m : CodeModel) (found : Carriers) (n : Method) (property : String)
    (type : TypeExpr) : Prop where
  name : n.name = "get" ++ property
  property_ne : property ≠ ""
  params : n.params = []
  carrier : NamesCarrier m found n.returnType type

/-- The name of the getter for a value of the type: `is<property>Value` for a primitive truth value,
and `get<property>Value` for any other one. -/
def NamesValueGetter (property : String) (type : TypeExpr) (name : String) : Prop :=
  type = .primitive .boolean ∧ name = "is" ++ property ++ "Value" ∨
    type ≠ .primitive .boolean ∧ name = "get" ++ property ++ "Value"

/-- The name of a getter for a value is the one that the pass gives it. -/
theorem namesValueGetter_iff {name : String} :
    NamesValueGetter property type name ↔ name = valueGetterName property type := by
  unfold NamesValueGetter valueGetterName readsWithIs
  by_cases htruth : type = .primitive .boolean
  · simp [htruth]
  · simp [htruth]

/-- A constructor that the pass may add to a class: without parameters, or for the value that the
class carries. -/
def CallsForConstructor (context : PassContext) (m : CodeModel) (found : Carriers) (c : BeanClass)
    (k : Constructor) : Prop :=
  k.key = [] ∨ ∃ type form, Carriers.valueType? m found c = some type ∧
    ValueForm context type form ∧ k.key = [form]

/-- A method that the pass may add to a class: next to a setter for a carrier one for the value, and
next to a getter one or two for the value, unless there is one of the name without parameters. -/
def CallsForMethod (context : PassContext) (m : CodeModel) (found : Carriers) (c : BeanClass)
    (x : Method) : Prop :=
  (∃ n ∈ c.methods, ∃ property type form, SetsCarrier m found n property type ∧
    ValueForm context type form ∧ x.name = n.name ∧ x.signature = [form]) ∨
  ∃ n ∈ c.methods, ∃ property type name, GetsCarrier m found n property type ∧
    NamesValueGetter property type name ∧ ¬c.hasMethod name [] ∧
    (x.name = name ∧ x.signature = (if type.isPrimitive then [type] else []) ∨
      LocalAccessors.option ∈ context.active ∧
        (∃ companion, localCompanion? type = some companion) ∧
          x.name = name ++ "Local" ∧ x.signature = [])

/-- What the pass makes of a class that is no enumeration. -/
structure Extended (context : PassContext) (m : CodeModel) (found : Carriers) (report : PassReport)
    (c d : BeanClass) : Prop where
  default : d.hasConstructor []
  constructors : ∀ type form, Carriers.valueType? m found c = some type →
    ValueForm context type form → d.hasConstructor [form]
  setters : ∀ n ∈ c.methods, ∀ property type form, SetsCarrier m found n property type →
    ValueForm context type form → d.hasMethod n.name [form]
  /-- A getter whose name is taken is reported. -/
  getters : ∀ n ∈ c.methods, ∀ property type name, GetsCarrier m found n property type →
    NamesValueGetter property type name →
      c.hasMethod name [] ∧ .collision c.name name ∈ report.tally.skipped ∨
        d.hasMethod name (if type.isPrimitive then [type] else []) ∧
          (LocalAccessors.option ∈ context.active → (localCompanion? type).isSome →
            d.hasMethod (name ++ "Local") [])
  newConstructors : ∃ added, d.constructors = c.constructors ++ added ∧
    ∀ k ∈ added, ¬c.hasConstructor k.key ∧ CallsForConstructor context m found c k
  newMethods : ∃ added, d.methods = c.methods ++ added ∧
    ∀ x ∈ added, ¬c.hasMethod x.name x.signature ∧ CallsForMethod context m found c x
  rest : d = { c with constructors := d.constructors, methods := d.methods, javadoc := d.javadoc }

/-! ## The table of carriers -/

section

variable {valueType? : BeanClass → Option TypeExpr}

/-- The table with what one class carries. -/
def tableWith (valueType? : BeanClass → Option TypeExpr) (types : Dict TypeExpr) (c : BeanClass) :
    Dict TypeExpr :=
  if c.isEnum then types
  else
    match valueType? c with
    | some type => types.insert c.name type
    | none => types

private theorem get?_tableWith_of_ne {types : Dict TypeExpr} {name : String} (h : c.name ≠ name) :
    (tableWith valueType? types c).get? name = types.get? name := by
  unfold tableWith
  split
  · rfl
  · split
    · rw [Dict.get?_insert, if_neg h.symm]
    · rfl

private theorem get?_tableWith_self {types : Dict TypeExpr} (h : types.get? c.name = none) :
    (tableWith valueType? types c).get? c.name = some type ↔
      ¬c.isEnum ∧ valueType? c = some type := by
  unfold tableWith
  split
  case isTrue henum => simp [h, henum]
  case isFalse hplain =>
    cases hvalue : valueType? c with
    | none => simp [h]
    | some other => simp [Dict.get?_insert, hplain]

private theorem get?_foldl_tableWith_of_not_mem {types : Dict TypeExpr} {classes : List BeanClass}
    {name : String} (h : name ∉ classes.map (·.name)) :
    (classes.foldl (tableWith valueType?) types).get? name = types.get? name := by
  induction classes generalizing types with
  | nil => rfl
  | cons c rest ih =>
    rw [List.map_cons, List.mem_cons, not_or] at h
    rw [List.foldl_cons, ih h.2, get?_tableWith_of_ne (Ne.symm h.1)]

private theorem get?_foldl_tableWith {types : Dict TypeExpr} {classes : List BeanClass}
    {name : String}
    (hnames : (classes.map (·.name)).Nodup) (hnone : types.get? name = none) :
    (classes.foldl (tableWith valueType?) types).get? name = some type ↔
      ∃ c ∈ classes, ¬c.isEnum ∧ c.name = name ∧ valueType? c = some type := by
  induction classes generalizing types with
  | nil => simp [hnone]
  | cons c rest ih =>
    obtain ⟨hfresh, hrest⟩ := List.nodup_cons.mp hnames
    rw [List.foldl_cons]
    by_cases hname : c.name = name
    · subst hname
      have hother : ¬∃ d ∈ rest, ¬d.isEnum ∧ d.name = c.name ∧ valueType? d = some type := by
        rintro ⟨d, hd, -, hsame, -⟩
        exact hfresh (List.mem_map.mpr ⟨d, hd, hsame⟩)
      rw [get?_foldl_tableWith_of_not_mem hfresh, get?_tableWith_self hnone,
        List.exists_mem_cons_iff, or_iff_left hother]
      simp
    · rw [ih hrest ((get?_tableWith_of_ne hname).trans hnone), List.exists_mem_cons_iff]
      simp [hname]

/-- Where classes have different names, the table says under each name what its class carries. -/
theorem get?_carriedTypes {classes : List BeanClass} (hnames : (classes.map (·.name)).Nodup)
    (name : String) : (carriedTypes valueType? classes).get? name = some type ↔
      ∃ c ∈ classes, ¬c.isEnum ∧ c.name = name ∧ valueType? c = some type :=
  get?_foldl_tableWith hnames rfl

end

/-- What is found is what the search for carriers gives. -/
theorem found_eq_of_ok {carriers : Carriers} (h : (Carriers.ofModel m).outcome = .ok carriers) :
    found m = carriers :=
  Step.getD_of_ok h

/-- What a type carries by the table is what the class that it names carries. -/
theorem carried?_eq_some_iff {carriers : Carriers} (hm : m.WellFormed)
    (hfound : (Carriers.ofModel m).outcome = .ok carriers) :
    carried? (carriersOf m) t = some type ↔ NamesCarrier m carriers t type := by
  cases t with
  | named name args =>
    have hlookup : (carriersOf m).get? name = some type ↔
        ∃ c ∈ m.classes, ¬c.isEnum ∧ c.name = name ∧ carriedBy? m c = some type :=
      get?_carriedTypes hm.names name
    refine hlookup.trans (exists_congr fun c => and_congr_right fun _ => ?_)
    have hname : (∃ others, TypeExpr.named name args = .named c.name others) ↔ c.name = name := by
      constructor
      · rintro ⟨others, heq⟩
        exact (TypeExpr.named.inj heq).1.symm
      · rintro rfl
        exact ⟨args, rfl⟩
    rw [hname, carriedBy?, found_eq_of_ok hfound]
  | _ => simp [carried?, NamesCarrier]

/-- The forms that are added for a value are its own and, where they are asked for, the local
one. -/
theorem mem_withCompanion_iff :
    form ∈ withCompanion (takesLocal context) type ↔ ValueForm context type form := by
  unfold withCompanion ValueForm takesLocal
  rw [List.contains_eq_mem]
  split
  case isTrue hlocal =>
    have hlocal' : LocalAccessors.option ∈ context.active := by simpa using hlocal
    cases hcompanion : localCompanion? type with
    | none => simp
    | some companion => simp [hlocal']
  case isFalse hlocal =>
    have hlocal' : LocalAccessors.option ∉ context.active := by simpa using hlocal
    simp [hlocal']

/-! ## Collisions -/

/-- What a sweep leaves out in the treatment of a class it reports. -/
theorem skipped_sweep {f : BeanClass → Step Changed} {classes : List BeanClass} {tally : Tally}
    (hok : (sweep f classes).outcome = .ok tally) (hc : c ∈ classes) :
    ∃ changed, (f c).outcome = .ok changed ∧
      ∀ reason ∈ changed.2.skipped, reason ∈ tally.skipped := by
  induction classes generalizing tally with
  | nil => cases hc
  | cons first rest ih =>
    cases hfirst : (f first).outcome with
    | error e =>
      rw [sweep_cons_of_error hfirst] at hok
      cases hok
    | ok changed =>
      rw [sweep_cons_of_ok hfirst] at hok
      cases hrest : (sweep f rest).outcome with
      | error e => simp [hrest, Except.map] at hok
      | ok others =>
        simp only [hrest, Except.map, Except.ok.injEq] at hok
        subst hok
        rcases List.mem_cons.mp hc with rfl | hc
        · exact ⟨changed, hfirst, fun reason hreason => List.mem_append_left _ hreason⟩
        · obtain ⟨later, hlater, hskipped⟩ := ih hrest hc
          exact ⟨later, hlater, fun reason hreason =>
            List.mem_append_right _ (hskipped reason hreason)⟩

private theorem skipped_noted (changed : Changed) (note : String) :
    (changed.noted note).2.skipped = changed.2.skipped := by
  unfold Changed.noted
  split
  · exact List.append_nil _
  · rfl

/-- A getter whose name is taken is left out with the reason. -/
theorem skipped_addGetters {settings : Settings} {carriers : Dict TypeExpr} {withLocal : Bool}
    {changed : Changed} {name : String}
    (hok : (addGetters settings carriers withLocal c).outcome = .ok changed) (hn : n ∈ c.methods)
    (htaken : .error name ∈ gettersFor settings carriers withLocal c n) :
    .collision c.name name ∈ changed.2.skipped := by
  obtain ⟨-, -, hok⟩ := Step.bind_eq_ok.mp hok
  obtain ⟨⟨added, first⟩, hadd, hok⟩ := Step.bind_eq_ok.mp hok
  obtain ⟨tally, hadd', -⟩ := c.addMethods_eq
    ((c.methods.flatMap (gettersFor settings carriers withLocal c)).filterMap Except.toOption)
  obtain ⟨rfl, rfl⟩ := Prod.mk.inj (Except.ok.inj (hadd.symm.trans hadd'))
  obtain rfl := Except.ok.inj hok
  rw [skipped_noted]
  refine List.mem_append_right _ (List.mem_map.mpr ⟨name, ?_, rfl⟩)
  exact List.mem_filterMap.mpr ⟨.error name, List.mem_flatMap.mpr ⟨n, hn, htaken⟩, rfl⟩

/-- The fourth sweep goes over the classes with their setters, and what it leaves out the pass
reports. -/
theorem exists_lastSweep {report : PassReport} (hrun : (run context m).outcome = .ok report) :
    ∃ (type? : BeanClass → Option TypeExpr) (tally : Tally),
      (sweep (exceptEnums (addGetters context.settings (carriersOf m) (takesLocal context)))
        (m.classes.map fun c => if c.isEnum then c else afterSetters context.settings
          (carriersOf m) (takesLocal context) (type? c) c)).outcome = .ok tally ∧
      ∀ reason ∈ tally.skipped, reason ∈ report.tally.skipped := by
  let type? := Carriers.valueType? (afterDefaults context.settings m) (found m)
  obtain ⟨t₁, t₂, t₃, hok₁, hok₂, hok₃, hthird, -⟩ :=
    thirdSweep_eq context.settings (carriersOf m) (takesLocal context) type? m.classes
  have hgetters : ∀ c,
      (addGetters context.settings (carriersOf m) (takesLocal context) c).Succeeds :=
    succeeds_addGetters _ _
  obtain ⟨t₄, hok₄, -⟩ := sweep_exceptEnums hgetters addGetters_makes _
  obtain ⟨hall, -⟩ := run_of_sweeps context m hok₁ hok₂ hok₃ hok₄
  obtain rfl := Except.ok.inj (hall.symm.trans hrun)
  refine ⟨fun c => type? ((editDefault context.settings).apply c), t₄, ?_,
    fun reason hreason => List.mem_append_right _ hreason⟩
  rw [← hthird]
  exact hok₄

/-- A getter for a carrier whose value getter would have a name that is taken is reported. -/
theorem collision_reported {report : PassReport} (hrun : (run context m).outcome = .ok report)
    (hc : c ∈ m.classes) (hplain : ¬c.isEnum) (hn : n ∈ c.methods) (hparams : n.params = [])
    (hproperty : Naming.propertyPart? n.name "get" = some property)
    (hcarried : carried? (carriersOf m) n.returnType = some type)
    (htaken : c.hasMethod (valueGetterName property type) []) :
    .collision c.name (valueGetterName property type) ∈ report.tally.skipped := by
  obtain ⟨type?, tally, hok, hskipped⟩ := exists_lastSweep hrun
  have hmem := List.mem_map_of_mem (f := fun c => if c.isEnum then c else afterSetters
    context.settings (carriersOf m) (takesLocal context) (type? c) c) hc
  obtain ⟨changed, hchanged, hsub⟩ := skipped_sweep hok hmem
  rw [if_neg hplain] at hchanged
  generalize hafter : afterSetters context.settings (carriersOf m) (takesLocal context) (type? c) c
    = e at hchanged
  have hname : e.name = c.name := by rw [← hafter]; rfl
  have hplain' : ¬e.isEnum := by rw [← hafter]; exact hplain
  have hn' : n ∈ e.methods := by rw [← hafter]; exact List.mem_append_left _ hn
  have htaken' : e.hasMethodWithoutParams (valueGetterName property type) := by
    rw [← hafter]
    exact ClassEdit.hasMethod_apply_of_hasMethod htaken
  rw [exceptEnums, if_neg hplain'] at hchanged
  have herror : .error (valueGetterName property type) ∈
      gettersFor context.settings (carriersOf m) (takesLocal context) e n := by
    simp [gettersFor, hparams, hproperty, hcarried, htaken']
  have hleft := skipped_addGetters hchanged hn' herror
  rw [hname] at hleft
  exact hskipped _ (hsub _ hleft)

/-! ## Runs -/

section

variable {found : Carriers} {report : PassReport}

/-- A setter of a carrier is one for which the pass adds setters. -/
theorem setsCarrier_iff (hm : m.WellFormed) (hfound : (Carriers.ofModel m).outcome = .ok found) :
    SetsCarrier m found n property type ↔ ∃ param, n.params = [param] ∧
      Naming.propertyPart? n.name "set" = some property ∧
        carried? (carriersOf m) param.type = some type := by
  simp only [Naming.propertyPart?_eq_some_iff, carried?_eq_some_iff hm hfound]
  constructor
  · rintro ⟨hname, hproperty, param, hparams, hcarrier⟩
    exact ⟨param, hparams, ⟨hproperty, hname⟩, hcarrier⟩
  · rintro ⟨param, hparams, ⟨hproperty, hname⟩, hcarrier⟩
    exact ⟨hname, hproperty, param, hparams, hcarrier⟩

/-- A getter of a carrier is one for which the pass adds getters. -/
theorem getsCarrier_iff (hm : m.WellFormed) (hfound : (Carriers.ofModel m).outcome = .ok found) :
    GetsCarrier m found n property type ↔ n.params = [] ∧
      Naming.propertyPart? n.name "get" = some property ∧
        carried? (carriersOf m) n.returnType = some type := by
  simp only [Naming.propertyPart?_eq_some_iff, carried?_eq_some_iff hm hfound]
  constructor
  · rintro ⟨hname, hproperty, hparams, hcarrier⟩
    exact ⟨hparams, ⟨hproperty, hname⟩, hcarrier⟩
  · rintro ⟨hparams, ⟨hproperty, hname⟩, hcarrier⟩
    exact ⟨hname, hproperty, hparams, hcarrier⟩

/-- No primitive type has a local companion. -/
theorem not_isPrimitive_of_localCompanion? {companion : LocalCompanion}
    (h : localCompanion? type = some companion) : type.isPrimitive = false := by
  cases type with
  | primitive kind => cases h
  | _ => rfl

/-- What is offered for a getter: a getter for the value and, if there is a companion that takes
part, another one for that. -/
theorem mem_gettersOf_iff {settings : Settings} :
    x ∈ gettersOf settings (takesLocal context) n property type ↔
      x = valueGetter settings (valueGetterName property type) n.name n.returnType type
          (if readsWithIs type then "isValue" else "getValue") ∨
        LocalAccessors.option ∈ context.active ∧
          ∃ companion, localCompanion? type = some companion ∧
          x = valueGetter settings (valueGetterName property type ++ "Local") n.name n.returnType
            companion.type "getValueLocal" := by
  have hactive : takesLocal context = true ↔ LocalAccessors.option ∈ context.active := by
    simp [takesLocal]
  rw [gettersOf, List.mem_cons, ← hactive]
  refine or_congr Iff.rfl ?_
  cases hcompanion : localCompanion? type with
  | none => simp
  | some companion =>
    rw [not_isPrimitive_of_localCompanion? hcompanion]
    cases takesLocal context <;> simp

/-- No local companion stands for a primitive type. -/
theorem isPrimitive_companion {companion : LocalCompanion}
    (h : localCompanion? type = some companion) : companion.type.isPrimitive = false := by
  unfold localCompanion? at h
  split at h
  · split at h <;> cases h <;> rfl
  · cases h

/-- What is offered for a getter whose name is free the class has after the pass. -/
theorem hasMethod_made_of_mem_gettersOf {settings : Settings} {carriers : Dict TypeExpr}
    {withLocal : Bool} {type? : Option TypeExpr} (hn : n ∈ c.methods) (hparams : n.params = [])
    (hproperty : Naming.propertyPart? n.name "get" = some property)
    (hcarried : carried? carriers n.returnType = some type)
    (hfree : ¬c.hasMethodWithoutParams (valueGetterName property type))
    (hx : x ∈ gettersOf settings withLocal n property type) :
    (made settings carriers withLocal type? c).hasMethod x.name x.signature := by
  refine ClassEdit.hasMethod_apply (List.mem_append_right _ ?_)
  rw [getters_eq]
  refine List.mem_flatMap.mpr ⟨n, hn, ?_⟩
  rw [offeredGetters_eq hparams hproperty hcarried, if_neg hfree]
  exact hx

private theorem callsForConstructor_of_mem {k : Constructor}
    (hfound : (Carriers.ofModel m).outcome = .ok found)
    (hk : k ∈ defaultConstructor context.settings ::
      constructorsFor context.settings (takesLocal context) (carriedBy? m c)) :
    CallsForConstructor context m found c k := by
  rcases List.mem_cons.mp hk with rfl | hk
  · exact .inl rfl
  · rw [carriedBy?, found_eq_of_ok hfound] at hk
    cases htype : Carriers.valueType? m found c with
    | none =>
      rw [htype] at hk
      cases hk
    | some type =>
      rw [htype] at hk
      obtain ⟨form, hform, rfl⟩ := List.mem_map.mp hk
      exact .inr ⟨type, form, htype, mem_withCompanion_iff.mp hform, rfl⟩

/-- A setter or getter that the pass adds calls the accessors of the carrier. -/
theorem callsForMethod_of_mem (hm : m.WellFormed)
    (hfound : (Carriers.ofModel m).outcome = .ok found)
    (hx : x ∈ setters context.settings (carriersOf m) (takesLocal context) c ++
      getters context.settings (carriersOf m) (takesLocal context) c) :
    CallsForMethod context m found c x := by
  rcases List.mem_append.mp hx with hx | hx
  · left
    obtain ⟨n, hn, hx⟩ := List.mem_flatMap.mp hx
    obtain ⟨param, property, type, hparams, hproperty, hcarried, form, hform, rfl⟩ :=
      exists_of_mem_settersFor hx
    exact ⟨n, hn, property, type, form,
      (setsCarrier_iff hm hfound).mpr ⟨param, hparams, hproperty, hcarried⟩,
      mem_withCompanion_iff.mp hform, rfl, rfl⟩
  · right
    rw [getters_eq] at hx
    obtain ⟨n, hn, hx⟩ := List.mem_flatMap.mp hx
    obtain ⟨property, type, hparams, hproperty, hcarried, hfree, hx⟩ :=
      exists_of_mem_offeredGetters hx
    refine ⟨n, hn, property, type, _,
      (getsCarrier_iff hm hfound).mpr ⟨hparams, hproperty, hcarried⟩,
      namesValueGetter_iff.mpr rfl, hfree, ?_⟩
    rcases mem_gettersOf_iff.mp hx with rfl | ⟨hactive, companion, hcompanion, rfl⟩
    · exact .inl ⟨valueGetter_name .., valueGetter_signature ..⟩
    · refine .inr ⟨hactive, ⟨companion, hcompanion⟩, valueGetter_name .., ?_⟩
      rw [valueGetter_signature, isPrimitive_companion hcompanion]
      rfl

/-- The pass makes of a class what its declarations call for. -/
theorem extended_made (hm : m.WellFormed) (hfound : (Carriers.ofModel m).outcome = .ok found)
    (hrun : (run context m).outcome = .ok report) (hc : c ∈ m.classes) (hplain : ¬c.isEnum) :
    Extended context m found report c
      (made context.settings (carriersOf m) (takesLocal context) (carriedBy? m c) c) where
  default := hasConstructors_made _ List.mem_cons_self
  constructors type form htype hform := by
    refine hasConstructors_made (valueConstructor context.settings form) (.tail _ ?_)
    rw [carriedBy?, found_eq_of_ok hfound, htype]
    exact List.mem_map_of_mem (mem_withCompanion_iff.mpr hform)
  setters n hn property type form hsetter hform := by
    obtain ⟨param, hparams, hproperty, htype⟩ := (setsCarrier_iff hm hfound).mp hsetter
    have hcomplete := complete_of_mem context.settings (carriersOf m) (takesLocal context)
      (carriedBy? m c) hn
    exact hcomplete.1 param property type hparams hproperty htype form
      (mem_withCompanion_iff.mpr hform)
  getters n hn property type name hgetter hnames := by
    obtain rfl := namesValueGetter_iff.mp hnames
    obtain ⟨hparams, hproperty, htype⟩ := (getsCarrier_iff hm hfound).mp hgetter
    by_cases htaken : c.hasMethod (valueGetterName property type) []
    · exact .inl ⟨htaken, collision_reported hrun hc hplain hn hparams hproperty htype htaken⟩
    · have hoffered : ∀ x ∈ gettersOf context.settings (takesLocal context) n property type,
          (made context.settings (carriersOf m) (takesLocal context) (carriedBy? m c) c).hasMethod
            x.name x.signature :=
        fun x hx => hasMethod_made_of_mem_gettersOf hn hparams hproperty htype htaken hx
      right
      constructor
      · have hfirst := hoffered _ (mem_gettersOf_iff.mpr (.inl rfl))
        rwa [valueGetter_name, valueGetter_signature] at hfirst
      · intro hactive hcompanion
        obtain ⟨companion, hcompanion⟩ := Option.isSome_iff_exists.mp hcompanion
        have hlocal := hoffered _ (mem_gettersOf_iff.mpr
          (.inr ⟨hactive, companion, hcompanion, rfl⟩))
        rwa [valueGetter_name, valueGetter_signature, isPrimitive_companion hcompanion] at hlocal
  newConstructors := by
    refine ⟨_, rfl, fun k hk => ⟨?_, callsForConstructor_of_mem hfound (mem_of_mem_newcomers hk)⟩⟩
    rw [BeanClass.hasConstructor_iff]
    exact not_mem_of_mem_newcomers hk
  newMethods := by
    refine ⟨_, methods_made, fun x hx =>
      ⟨?_, callsForMethod_of_mem hm hfound (mem_of_mem_newcomers hx)⟩⟩
    have hfresh : x.key ∉ c.methods.map Method.key := not_mem_of_mem_newcomers hx
    rwa [← BeanClass.hasMethod_iff] at hfresh
  rest := rfl

end

/-- The pass succeeds on every accepted model. It changes nothing but classes that are no
enumerations, and of each of those it makes what its declarations call for: nothing of that is
missing, unless its name is taken, and nothing else is there. -/
theorem run_extends (context : PassContext) (hvalid : m.validate = .ok ()) :
    ∃ found report, (Carriers.ofModel m).outcome = .ok found ∧
      (run context m).outcome = .ok report ∧
      (run context m).model = { m with classes := (run context m).model.classes } ∧
      List.Forall₂
        (fun c d => if c.isEnum then d = c else Extended context m found report c d)
        m.classes (run context m).model.classes := by
  have hm := CodeModel.wellFormed_of_validate hvalid
  obtain ⟨found, hfound⟩ := failure?_eq_none.mp (succeeds_ofModel m)
  obtain ⟨report, hrun⟩ := succeeds_run context m
  refine ⟨found, report, hfound, hrun, ?_, ?_⟩
  · rw [run_model]
  · rw [run_model, List.forall₂_map_right_iff, List.forall₂_same]
    intro c hc
    rw [madeOf]
    split
    case isTrue => rfl
    case isFalse hplain => exact extended_made hm hfound hrun hc hplain

/-- A class that carries a truth value. -/
def switchCarrier : BeanClass :=
  { name := "shop.Switch", fields := [{ name := "value", type := .primitive .boolean }] }

/-- A holder of objects that carry a number can be given and asked for the number, and one of
objects that carry a truth value for the truth value. -/
theorem holders_extended :
    let context : PassContext := { settings := {}, active := [option] }
    let switchHolder : BeanClass := { holderOf "shop.Switch" with name := "shop.SwitchHolder" }
    let m : CodeModel :=
      { classes := [numberCarrier, switchCarrier, holderOf "shop.Number", switchHolder] }
    m.validate = .ok () ∧ (∃ report, (run context m).outcome = .ok report) ∧
      (∃ d ∈ (run context m).model.classes, d.name = "shop.Holder" ∧
        d.hasMethod "setItem" [.primitive .int] ∧ d.hasMethod "getItemValue" [.primitive .int]) ∧
      ∃ d ∈ (run context m).model.classes, d.name = "shop.SwitchHolder" ∧
        d.hasMethod "setItem" [.primitive .boolean] ∧
        d.hasMethod "isItemValue" [.primitive .boolean] := by
  intro context switchHolder m
  have hvalid : m.validate = .ok () := rfl
  obtain ⟨found, report, -, hrun, -, hclasses⟩ := run_extends context hvalid
  -- a class with the methods of a holder gets the two methods for the value
  have hheld : ∀ c ∈ m.classes, ∀ carrier type name, ¬c.isEnum →
      c.methods = (holderOf carrier).methods → NamesCarrier m found (.ofName carrier) type →
        NamesValueGetter "Item" type name → ¬c.hasMethod name [] → type.isPrimitive →
          ∃ d ∈ (run context m).model.classes, d.name = c.name ∧ d.hasMethod "setItem" [type] ∧
            d.hasMethod name [type] := by
    intro c hc carrier type name hplain hmethods hcarrier hname hfree hprimitive
    obtain ⟨d, hd, hd'⟩ := exists_of_forall₂ hclasses.flip hc
    change if c.isEnum then d = c else Extended context m found report c d at hd'
    have hextended : Extended context m found report c d := by rwa [if_neg hplain] at hd'
    refine ⟨d, hd, by rw [hextended.rest], ?_, ?_⟩
    · exact hextended.setters _ (by rw [hmethods]; exact .tail _ (.head _)) "Item" type type
        ⟨rfl, by decide, _, rfl, hcarrier⟩ (.inl rfl)
    · rcases hextended.getters _ (by rw [hmethods]; exact .head _) "Item" type name
        ⟨rfl, by decide, rfl, hcarrier⟩ hname with ⟨htaken, -⟩ | ⟨hgetter, -⟩
      · exact absurd htaken hfree
      · simpa [hprimitive] using hgetter
  refine ⟨hvalid, ⟨report, hrun⟩, ?number, ?switch⟩
  case number =>
    exact hheld (holderOf "shop.Number") (.tail _ (.tail _ List.mem_cons_self)) "shop.Number"
      (.primitive .int) "getItemValue" (by decide) rfl
      ⟨numberCarrier, List.mem_cons_self, by decide, ⟨[], rfl⟩, rfl⟩
      (.inr ⟨by decide, by decide⟩) (by decide) rfl
  case switch =>
    exact hheld switchHolder (.tail _ (.tail _ (.tail _ List.mem_cons_self))) "shop.Switch"
      (.primitive .boolean) "isItemValue" (by decide) rfl
      ⟨switchCarrier, .tail _ List.mem_cons_self, by decide, ⟨[], rfl⟩, rfl⟩
      (.inl ⟨rfl, by decide⟩) (by decide) rfl

end ValueAccessors

end BeanSynthesis
