import BeanSynthesis.Proofs.Carrying.Calls
import BeanSynthesis.Proofs.Edits.Lists
import BeanSynthesis.Proofs.Growth.Runs
import BeanSynthesis.Proofs.Scoping.Synthesized

/-!
# Accessors that companion members call

The members for a local companion call accessors that another pass makes, one pair for each instance
field with a date or time. What a class carries, however, may also come from a static field, from an
enumeration or from a class outside the model, and then nobody makes the accessors. After a run of
both passes a call finds its accessor if and only if some class on the way up had it before, has
such an instance field, or receives it as the setter for a value.
-/

namespace BeanSynthesis

variable {settings : Settings} {context : PassContext} {options : List String} {m n : CodeModel}
  {found : Carriers} {b c d : BeanClass} {t : TypeExpr} {name : String} {types : List TypeExpr}
  {pass : Pass}

/-! ## Classes above a type -/

/-- A class of the model that the type names, or one of its superclasses in the model, is such. -/
def CodeModel.SomeAbove (m : CodeModel) (t : TypeExpr) (P : BeanClass → Prop) : Prop :=
  ∃ c ∈ m.classes, (∃ args, t = .named c.name args) ∧
    ∃ b ∈ m.classes, b.name ∈ c.name :: m.ancestorNames c ∧ P b

private theorem exists_mem_iff_of_forall₂ {α β : Type} {p : α → Prop} {q : β → Prop} {xs : List α}
    {ys : List β} (h : List.Forall₂ (fun x y => p x ↔ q y) xs ys) :
    (∃ x ∈ xs, p x) ↔ ∃ y ∈ ys, q y := by
  induction h with
  | nil => simp
  | cons hxy _ ih => simp only [List.exists_mem_cons_iff, hxy, ih]

/-- What holds above a type in a grown model is what held there before. -/
theorem CodeModel.Grows.someAbove_iff {P Q : BeanClass → Prop} (h : m.Grows settings options n)
    (hPQ : List.Forall₂ (fun c d => P c ↔ Q d) m.classes n.classes) :
    m.SomeAbove t P ↔ n.SomeAbove t Q := by
  refine exists_mem_iff_of_forall₂ (h.classes.imp fun c d hcd => ?_)
  rw [h.ancestorNames_eq hcd, hcd.name]
  refine and_congr_right fun _ => exists_mem_iff_of_forall₂ (List.Forall₂.mp ?_ h.classes hPQ)
  intro a b hab hP
  rw [hab.name, hP]

/-! ## Names -/

/-- Texts that start differently are different. -/
theorem append_ne_of_head {start other : String} {first : Char}
    (hstart : start.toList.head? = some first) (hother : other.toList.head? ≠ some first)
    (rest : String) : start ++ rest ≠ other := by
  rintro rfl
  exact hother (by simp [String.toList_append, hstart])

private theorem append_ne_of_last {ending other : String} {last : Char}
    (hending : ending.toList.getLast? = some last) (hother : other.toList.getLast? ≠ some last)
    (start : String) : start ++ ending ≠ other := by
  rintro rfl
  exact hother (by simp [String.toList_append, List.getLast?_append, hending])

private theorem not_isViewKey_of_name (hget : name ≠ "getValueLocal") (hset : name ≠ "setValue") :
    ¬IsViewKey name types := by
  rintro (⟨hname, -⟩ | ⟨hname, -⟩)
  · exact hget hname
  · exact hset hname

private theorem not_isViewKey_of_last {start ending : String} {last : Char}
    (hending : ending.toList.getLast? = some last)
    (hget : "getValueLocal".toList.getLast? ≠ some last)
    (hset : "setValue".toList.getLast? ≠ some last) : ¬IsViewKey (start ++ ending) types :=
  not_isViewKey_of_name (append_ne_of_last hending hget start)
    (append_ne_of_last hending hset start)

private theorem not_isViewKey_of_reserved (h : name ∈ reservedNames) : ¬IsViewKey name types := by
  rintro (⟨rfl, -⟩ | ⟨rfl, -⟩)
  · exact absurd h (by decide)
  · exact absurd h (by decide)

/-! ## What provides an accessor -/

private theorem BeanClass.hasMethod_of_append {added : List Method}
    (h : d.methods = c.methods ++ added) :
    d.hasMethod name types ↔ c.hasMethod name types ∨ ∃ x ∈ added, x.key = (name, types) := by
  rw [BeanClass.hasMethod_iff, BeanClass.hasMethod_iff, h, List.map_append, List.mem_append,
    List.mem_map (l := added)]

/-- An edited class has the methods that it had and those that it was offered. -/
theorem ClassEdit.hasMethod_apply_iff {e : ClassEdit} :
    (e.apply c).hasMethod name types ↔
      c.hasMethod name types ∨ ∃ x ∈ e.methods, x.key = (name, types) := by
  constructor
  · intro h
    rcases (BeanClass.hasMethod_of_append (apply_methods e c)).mp h with hold | ⟨x, hx, hkey⟩
    · exact .inl hold
    · exact .inr ⟨x, mem_of_mem_newcomers hx, hkey⟩
  · rintro (hold | ⟨x, hx, hkey⟩)
    · exact hasMethod_apply_of_hasMethod hold
    · obtain ⟨rfl, rfl⟩ := Prod.mk.inj hkey
      exact hasMethod_apply hx

/-- An instance field of the class has a local view, and the accessor belongs to it. -/
def HasLocalView (c : BeanClass) (name : String) (types : List TypeExpr) : Prop :=
  ∃ f ∈ c.fields, f.isStatic = false ∧ ∃ companion, localCompanion? f.type = some companion ∧
    (name = Naming.getterName f.type f.name ++ "Local" ∧ types = [] ∨
      name = Naming.setterName f.name ∧ types = [companion.type])

/-- The class has a setter for a carrier, and the accessor is the setter for the value. -/
def ReceivesSetter (context : PassContext) (m : CodeModel) (found : Carriers) (c : BeanClass)
    (name : String) (types : List TypeExpr) : Prop :=
  ∃ x ∈ c.methods, ∃ property type form, ValueAccessors.SetsCarrier m found x property type ∧
    ValueAccessors.ValueForm context type form ∧ name = x.name ∧ types = [form]

/-- The class has the accessor, or is no enumeration and receives it. -/
def Provides (context : PassContext) (m : CodeModel) (found : Carriers) (name : String)
    (types : List TypeExpr) (c : BeanClass) : Prop :=
  c.hasMethod name types ∨ ¬c.isEnum ∧ (HasLocalView c name types ∨
    ReceivesSetter context m found ((LocalAccessors.edit context.settings c).apply c) name types)

/-! ### Local views -/

namespace LocalAccessors

private theorem exists_mem_fieldMethods_iff {f : InstanceField} :
    (∃ x ∈ fieldMethods settings f, x.key = (name, types)) ↔
      ∃ companion, localCompanion? f.type = some companion ∧
        (name = Naming.getterName f.type f.name ++ "Local" ∧ types = [] ∨
          name = Naming.setterName f.name ∧ types = [companion.type]) := by
  unfold fieldMethods
  cases hcompanion : localCompanion? f.type with
  | none => simp
  | some companion =>
    have hgetter : (getter settings f companion).key =
        (Naming.getterName f.type f.name ++ "Local", []) := rfl
    have hsetter : (setter settings f companion).key =
        (Naming.setterName f.name, [companion.type]) := rfl
    simp [hgetter, hsetter, eq_comm]

/-- The pass offers the accessors of the local views of instance fields. -/
theorem exists_mem_edit_iff {fields : List InstanceField}
    (hfields : c.instanceFields.outcome = .ok fields) :
    (∃ x ∈ (edit settings c).methods, x.key = (name, types)) ↔ HasLocalView c name types := by
  have hinstances : c.instances = fields := Step.getD_of_ok hfields
  have hoffered : (∃ x ∈ (edit settings c).methods, x.key = (name, types)) ↔
      ∃ f ∈ fields, ∃ x ∈ fieldMethods settings f, x.key = (name, types) := by
    unfold edit
    rw [hinstances]
    constructor
    · rintro ⟨x, hx, hkey⟩
      obtain ⟨y, hy, rfl⟩ := List.mem_map.mp hx
      obtain ⟨f, hf, hy⟩ := List.mem_flatMap.mp hy
      exact ⟨f, hf, y, hy, hkey⟩
    · rintro ⟨f, hf, y, hy, hkey⟩
      exact ⟨_, List.mem_map_of_mem (List.mem_flatMap.mpr ⟨f, hf, hy⟩), hkey⟩
  have hnone := BeanClass.forall_instanceFields hfields (P := fun field type =>
    ¬∃ companion, localCompanion? type = some companion ∧
      (name = Naming.getterName type field ++ "Local" ∧ types = [] ∨
        name = Naming.setterName field ∧ types = [companion.type]))
  rw [hoffered]
  simp only [exists_mem_fieldMethods_iff]
  rw [← not_iff_not]
  simpa only [HasLocalView, not_exists, not_and] using hnone

end LocalAccessors

/-! ### Setters for values -/

namespace ValueAccessors

/-- The getters for carried values are no accessors of a local view of the field `value`. -/
theorem not_isViewKey_getter {property : String} (hproperty : property ≠ "") (type : TypeExpr) :
    ¬IsViewKey (valueGetterName property type) types ∧
      ¬IsViewKey (valueGetterName property type ++ "Local") types := by
  have hset : ∀ rest, valueGetterName property type ++ rest ≠ "setValue" := by
    intro rest
    unfold valueGetterName
    rw [String.append_assoc, String.append_assoc]
    split
    · exact append_ne_of_head rfl (by decide) _
    · exact append_ne_of_head rfl (by decide) _
  have hget : valueGetterName property type ++ "Local" ≠ "getValueLocal" := by
    intro heq
    have hlist := congrArg String.toList heq
    unfold valueGetterName at hlist
    split at hlist
    · simp [String.toList_append] at hlist
    · have hnone : property.toList ++ "ValueLocal".toList = "ValueLocal".toList := by
        simpa [String.toList_append] using hlist
      exact hproperty (String.toList_eq_nil_iff.mp (List.append_left_eq_self.mp hnone))
  constructor
  · refine not_isViewKey_of_name (valueGetterName_ne property "get" type) ?_
    simpa using hset ""
  · exact not_isViewKey_of_name hget (hset "Local")

/-- Of the accessors of local views, the pass offers those that go with a setter for a carrier. -/
theorem exists_mem_edit_iff (hm : m.WellFormed) (hfound : (Carriers.ofModel m).outcome = .ok found)
    (hview : IsViewKey name types) :
    (∃ x ∈ (edit context m c).methods, x.key = (name, types)) ↔
      ReceivesSetter context m found c name types := by
  constructor
  · rintro ⟨x, hx, hkey⟩
    obtain ⟨rfl, rfl⟩ := Prod.mk.inj hkey
    rcases callsForMethod_of_mem hm hfound hx with
      ⟨y, hy, property, type, form, hsets, hform, hname, htypes⟩ |
      ⟨y, -, property, type, getter, hgets, hgetter, -, ⟨hname, -⟩ | ⟨-, -, hname, -⟩⟩
    · exact ⟨y, hy, property, type, form, hsets, hform, hname, htypes⟩
    · rw [hname, namesValueGetter_iff.mp hgetter] at hview
      exact absurd hview (not_isViewKey_getter hgets.property_ne type).1
    · rw [hname, namesValueGetter_iff.mp hgetter] at hview
      exact absurd hview (not_isViewKey_getter hgets.property_ne type).2
  · rintro ⟨y, hy, property, type, form, hsets, hform, rfl, rfl⟩
    obtain ⟨param, hparams, hproperty, hcarried⟩ := (setsCarrier_iff hm hfound).mp hsets
    refine ⟨valueSetter context.settings y.name property param.type form, ?_, rfl⟩
    refine List.mem_append_left _ (List.mem_flatMap.mpr ⟨y, hy, ?_⟩)
    rw [settersFor_eq hparams hproperty hcarried]
    exact List.mem_map_of_mem (mem_withCompanion_iff.mpr hform)

/-- In a grown model the same methods are setters for carriers. -/
theorem setsCarrier_iff_of_grows {x : Method} {property : String} {type : TypeExpr}
    (h : m.Grows settings options n) (hm : m.WellFormed)
    (hfound : (Carriers.ofModel m).outcome = .ok found) :
    SetsCarrier n found x property type ↔ SetsCarrier m found x property type := by
  rw [setsCarrier_iff hm hfound, ← carriersOf_eq h]
  exact setsCarrier_iff (h.wellFormed hm) ((Carriers.ofModel_eq h).trans hfound)

end ValueAccessors

/-! ### Other passes -/

namespace ListAccessors

private theorem not_isViewKey_setter {f : InstanceField} (hlist : f.type.isErasure "List") :
    ¬IsViewKey (setter settings f).name (setter settings f).signature := by
  rintro (⟨-, hnone⟩ | ⟨-, type, companion, hcompanion, htypes⟩)
  · cases hnone
  · have htype : f.type = companion.type := List.singleton_inj.mp htypes
    rw [htype] at hlist
    unfold localCompanion? at hcompanion
    split at hcompanion
    · split at hcompanion <;> cases hcompanion <;> exact absurd hlist (by decide)
    · cases hcompanion

/-- What the pass makes for the getter of a list is no accessor of a local view. -/
theorem not_isViewKey_companion {g : ListGetter} {draft : Draft}
    (h : draft ∈ companionDrafts settings g) :
    ¬IsViewKey draft.method.name draft.method.signature := by
  have hmethod : draft.method ∈ companions settings g ++ g.countNames.map (g.count settings) := by
    rw [companions, ← methods_companionDrafts]
    exact List.mem_map_of_mem h
  rcases List.mem_append.mp hmethod with hfixed | hcount
  · simp only [companions, List.mem_cons, List.not_mem_nil, or_false] at hfixed
    rcases hfixed with heq | heq | heq | heq
    · rw [heq]
      exact not_isViewKey_of_last rfl (by decide) (by decide)
    · rw [heq]
      exact not_isViewKey_of_last rfl (by decide) (by decide)
    · rw [heq]
      exact not_isViewKey_of_last rfl (by decide) (by decide)
    · rw [heq]
      exact not_isViewKey_of_name (append_ne_of_head rfl (by decide) _)
        (append_ne_of_head rfl (by decide) _)
  · obtain ⟨count, hname, heq⟩ := List.mem_map.mp hcount
    rw [← heq]
    rcases List.mem_pair.mp hname with rfl | rfl
    · exact not_isViewKey_of_last rfl (by decide) (by decide)
    · exact not_isViewKey_of_last rfl (by decide) (by decide)

end ListAccessors

/-- A pass other than the two for local views and for carried values makes no accessor of a local
view. -/
theorem Pass.not_isViewKey_draft {fields : List InstanceField} {draft : Draft}
    (hlocal : pass ≠ .localAccessors) (h : draft ∈ pass.drafts settings m c fields) :
    ¬IsViewKey draft.method.name draft.method.signature := by
  cases pass with
  | localAccessors => exact absurd rfl hlocal
  | listAccessors =>
    rcases List.mem_append.mp h with hsetter | hcompanion
    · obtain ⟨f, hf, rfl⟩ := List.mem_map.mp hsetter
      exact ListAccessors.not_isViewKey_setter (List.mem_filter.mp hf).2
    · obtain ⟨g, -, hg⟩ := List.mem_flatMap.mp hcompanion
      exact ListAccessors.not_isViewKey_companion hg
  | equality =>
    rcases List.mem_pair.mp h with rfl | rfl
    · exact not_isViewKey_of_reserved (show "equals" ∈ reservedNames by decide)
    · exact not_isViewKey_of_reserved (show "hashCode" ∈ reservedNames by decide)
  | description =>
    obtain rfl := List.mem_singleton.mp h
    exact not_isViewKey_of_reserved (show "toString" ∈ reservedNames by decide)
  | copying =>
    rcases List.mem_pair.mp h with rfl | rfl
    · exact not_isViewKey_of_reserved (show "cloneTo" ∈ reservedNames by decide)
    · exact not_isViewKey_of_reserved (show "clone" ∈ reservedNames by decide)
  | _ => cases h

/-- Such a pass leaves it open whether a class has an accessor of a local view. -/
theorem Pass.run_hasMethod_view (context : PassContext) (m : CodeModel)
    (hlocal : pass ≠ .localAccessors) (hvalue : pass ≠ .valueAccessors)
    (hview : IsViewKey name types) :
    List.Forall₂ (fun c d => c.hasMethod name types ↔ d.hasMethod name types) m.classes
      (pass.run context m).model.classes := by
  have hsame : ∀ {c d : BeanClass}, d.methods = c.methods →
      (c.hasMethod name types ↔ d.hasMethod name types) := by
    intro c d h
    rw [BeanClass.hasMethod, BeanClass.hasMethod, h]
  by_cases hdrafting : pass ∈ Pass.drafting
  · refine (Pass.run_draws context m hdrafting).imp fun c d h => ?_
    rcases h with h | ⟨fields, -, added, hadded, hdrafts⟩
    · exact hsame h
    · have hnone : ¬∃ x ∈ added, x.key = (name, types) := by
        rintro ⟨x, hx, hkey⟩
        obtain ⟨draft, hdraft, rfl⟩ := hdrafts x hx
        obtain ⟨rfl, rfl⟩ := Prod.mk.inj hkey
        exact Pass.not_isViewKey_draft hlocal hdraft hview
      rw [BeanClass.hasMethod_of_append hadded, or_iff_left hnone]
  · have hother : pass ∉ Pass.addingMethods := by
      simp only [Pass.drafting, Pass.addingMethods, List.mem_cons, List.not_mem_nil] at hdrafting ⊢
      tauto
    exact (Pass.run_methods_eq context m hother).imp fun _ _ => hsame

/-- The same holds of a run of such passes, also if an error ends it. -/
theorem EngineRun.runPasses_hasMethod_view {passes : List Pass} (context : PassContext)
    (m : CodeModel) (report : RunReport) (hlocal : .localAccessors ∉ passes)
    (hvalue : .valueAccessors ∉ passes) (hview : IsViewKey name types) :
    List.Forall₂ (fun c d => c.hasMethod name types ↔ d.hasMethod name types) m.classes
      (runPasses context m report passes).model.classes := by
  induction passes generalizing m report with
  | nil => exact List.forall₂_same.mpr fun _ _ => Iff.rfl
  | cons pass rest ih =>
    rw [List.mem_cons, not_or] at hlocal hvalue
    have hpass := Pass.run_hasMethod_view context m (Ne.symm hlocal.1) (Ne.symm hvalue.1) hview
    simp only [runPasses]
    split
    · exact hpass
    · exact forall₂_trans hpass (ih _ _ hlocal.2 hvalue.2) Iff.trans

/-! ## Runs -/

/-- Members have been added to a class, and those that the pass for carried values has made satisfy
these properties. -/
structure AddsForValues (K : Constructor → Prop) (M : Method → Prop) (c d : BeanClass) : Prop where
  constructors : ∃ added, d.constructors = c.constructors ++ added ∧
    ∀ k ∈ added, k.origin = .synthesized ValueAccessors.option → K k
  methods : ∃ added, d.methods = c.methods ++ added ∧
    ∀ x ∈ added, x.origin = .synthesized ValueAccessors.option → M x

namespace AddsForValues

variable {K L : Constructor → Prop} {M N : Method → Prop}

private theorem trans (hbc : AddsForValues K M b c) (hcd : AddsForValues K M c d) :
    AddsForValues K M b d := by
  obtain ⟨⟨ks, hks, hK⟩, xs, hxs, hM⟩ := hbc
  obtain ⟨⟨ks', hks', hK'⟩, xs', hxs', hM'⟩ := hcd
  constructor
  · refine ⟨ks ++ ks', by rw [hks', hks, List.append_assoc], fun k hk => ?_⟩
    rcases List.mem_append.mp hk with hk | hk
    · exact hK k hk
    · exact hK' k hk
  · refine ⟨xs ++ xs', by rw [hxs', hxs, List.append_assoc], fun x hx => ?_⟩
    rcases List.mem_append.mp hx with hx | hx
    · exact hM x hx
    · exact hM' x hx

private theorem imp (h : AddsForValues K M c d) (hK : ∀ k, K k → L k) (hM : ∀ x, M x → N x) :
    AddsForValues L N c d := by
  obtain ⟨⟨ks, hks, hks'⟩, xs, hxs, hxs'⟩ := h
  exact ⟨⟨ks, hks, fun k hk horigin => hK k (hks' k hk horigin)⟩,
    xs, hxs, fun x hx horigin => hM x (hxs' x hx horigin)⟩

/-- Other passes make no such members. -/
theorem of_grows (h : c.Grows settings options d) (hnot : ValueAccessors.option ∉ options) :
    AddsForValues K M c d := by
  constructor
  · obtain ⟨added, hadded, hmade, -⟩ := h.constructors
    refine ⟨added, hadded, fun k hk horigin => ?_⟩
    obtain ⟨o, ho, hk', -⟩ := hmade k hk
    obtain rfl := Origin.synthesized.inj (horigin.symm.trans hk')
    exact absurd ho hnot
  · obtain ⟨added, hadded, hmade, -⟩ := h.methods
    refine ⟨added, hadded, fun x hx horigin => ?_⟩
    obtain ⟨o, ho, hx', -⟩ := hmade x hx
    obtain rfl := Origin.synthesized.inj (horigin.symm.trans hx')
    exact absurd ho hnot

/-- An edit adds what it offers. -/
theorem of_edit (e : ClassEdit) (c : BeanClass) :
    AddsForValues (· ∈ e.constructors) (· ∈ e.methods) c (e.apply c) :=
  ⟨⟨_, ClassEdit.apply_constructors e c, fun _ hk _ => mem_of_mem_newcomers hk⟩,
    _, ClassEdit.apply_methods e c, fun _ hx _ => mem_of_mem_newcomers hx⟩

end AddsForValues

/-- Passes are selected for valid models alone. -/
theorem CodeModel.validate_of_plan {selected : List String} {passes : List Pass}
    (hplan : m.plan selected = .ok passes) : m.validate = .ok () := by
  unfold plan at hplan
  split at hplan
  case h_1 => cases hplan
  case h_2 hvalid => exact hvalid

/-- Of a plan with both passes, these come first. -/
theorem CodeModel.plan_eq_cons {selected : List String} {passes : List Pass}
    (hplan : m.plan selected = .ok passes) (hlocal : .localAccessors ∈ passes)
    (hvalue : .valueAccessors ∈ passes) :
    ∃ rest, passes = .localAccessors :: .valueAccessors :: rest ∧ .localAccessors ∉ rest ∧
      .valueAccessors ∉ rest := by
  unfold plan at hplan
  split at hplan
  case h_1 => cases hplan
  case h_2 =>
    unfold Pass.select at hplan
    dsimp only at hplan
    split at hplan
    case h_1 => cases hplan
    case h_2 =>
      obtain rfl := Except.ok.inj hplan
      let wanted (pass : Pass) : Bool := (selected.map Pass.optionOf).contains pass.option
      have hfirst : wanted .localAccessors := (List.mem_filter.mp hlocal).2
      have hsecond : wanted .valueAccessors := (List.mem_filter.mp hvalue).2
      refine ⟨(Pass.all.drop 2).filter wanted, ?_, ?_, ?_⟩
      · change Pass.all.filter wanted = _
        rw [Pass.all, List.filter_cons_of_pos hfirst, List.filter_cons_of_pos hsecond]
        rfl
      · exact fun hmem => absurd (List.mem_filter.mp hmem).1 (by decide)
      · exact fun hmem => absurd (List.mem_filter.mp hmem).1 (by decide)

/-- Where the pass for local views has succeeded, every instance field belongs to a property. -/
theorem LocalAccessors.exists_instanceFields {report : PassReport}
    (hrun : (Pass.localAccessors.run context m).outcome = .ok report) (hc : c ∈ m.classes)
    (hplain : ¬c.isEnum) : ∃ fields, c.instanceFields.outcome = .ok fields := by
  obtain ⟨tally, hsweep⟩ : ∃ tally,
      (sweep (exceptEnums (onClass context.settings)) m.classes).outcome = .ok tally := by
    change Except.map _ (sweep (exceptEnums (onClass context.settings)) m.classes).outcome = _
      at hrun
    cases hsweep : (sweep (exceptEnums (onClass context.settings)) m.classes).outcome with
    | error e => simp [hsweep, Except.map] at hrun
    | ok tally => exact ⟨tally, rfl⟩
  obtain ⟨⟨after, tally'⟩, hclass, -⟩ := ValueAccessors.skipped_sweep hsweep hc
  rw [exceptEnums, if_neg hplain] at hclass
  obtain ⟨fields, hfields, -⟩ := onClass_receives hclass
  exact ⟨fields, hfields⟩

/-- After both passes a class has an accessor of a local view if and only if it provides it. -/
theorem hasMethod_madeOf_iff {report : PassReport} (hm : m.WellFormed)
    (hfound : (Carriers.ofModel m).outcome = .ok found)
    (hrun : (Pass.localAccessors.run context m).outcome = .ok report) (hc : c ∈ m.classes)
    (hview : IsViewKey name types) :
    Provides context m found name types c ↔
      (ValueAccessors.madeOf context (Pass.localAccessors.edited context m)
        ((Pass.localAccessors.editOf context m c).apply c)).hasMethod name types := by
  have hgrows := Pass.grows_edited hrun
  rw [Pass.editOf_apply rfl]
  by_cases henum : c.isEnum
  · rw [if_pos henum, ValueAccessors.madeOf, if_pos henum]
    simp [Provides, henum]
  · obtain ⟨fields, hfields⟩ := LocalAccessors.exists_instanceFields hrun hc henum
    let e := (LocalAccessors.edit context.settings c).apply c
    have hmade : ValueAccessors.madeOf context (Pass.localAccessors.edited context m) e =
        (ValueAccessors.edit context (Pass.localAccessors.edited context m) e).apply e :=
      if_neg henum
    have hsets : ReceivesSetter context (Pass.localAccessors.edited context m) found e name types ↔
        ReceivesSetter context m found e name types := by
      simp only [ReceivesSetter, ValueAccessors.setsCarrier_iff_of_grows hgrows hm hfound]
    have hlocal : e.hasMethod name types ↔ c.hasMethod name types ∨ HasLocalView c name types := by
      rw [ClassEdit.hasMethod_apply_iff, LocalAccessors.exists_mem_edit_iff hfields]
    have hvalue :
        (∃ x ∈ (ValueAccessors.edit context (Pass.localAccessors.edited context m) e).methods,
          x.key = (name, types)) ↔ _ :=
      ValueAccessors.exists_mem_edit_iff (hgrows.wellFormed hm)
        ((Carriers.ofModel_eq hgrows).trans hfound) hview
    rw [if_neg henum]
    change _ ↔ (ValueAccessors.madeOf context _ e).hasMethod name types
    rw [hmade, ClassEdit.hasMethod_apply_iff, hvalue, hsets, hlocal, or_assoc, Provides,
      and_iff_right henum]

/-- In a grown model the same types name carriers. -/
theorem ValueAccessors.namesCarrier_iff_of_grows {type : TypeExpr} (h : m.Grows settings options n)
    (hm : m.WellFormed) (hfound : (Carriers.ofModel m).outcome = .ok found) :
    NamesCarrier n found t type ↔ NamesCarrier m found t type := by
  rw [← carried?_eq_some_iff hm hfound, ← carriersOf_eq h]
  exact (carried?_eq_some_iff (h.wellFormed hm) ((Carriers.ofModel_eq h).trans hfound)).symm

private theorem ValueAccessors.CallsView.of_grows {calls : List MethodCall}
    (h : m.Grows settings options n)
    (hm : m.WellFormed) (hfound : (Carriers.ofModel m).outcome = .ok found)
    (hcalls : CallsView n found calls) : CallsView m found calls := by
  obtain ⟨t, carried, name, types, hcarrier, hview, hmem⟩ := hcalls
  exact ⟨t, carried, name, types, (namesCarrier_iff_of_grows h hm hfound).mp hcarrier, hview, hmem⟩

/-- Of what the two passes add to a class, the members for local companions call accessors of the
local view of a carried value. -/
theorem addsForValues_madeOf {report : PassReport} (hm : m.WellFormed)
    (hfound : (Carriers.ofModel m).outcome = .ok found)
    (hrun : (Pass.localAccessors.run context m).outcome = .ok report) (hc : c ∈ m.classes) :
    AddsForValues
      (fun k => TakesCompanion k.key → ValueAccessors.CallsView m found (k.calls c.asType))
      (fun x => ValueAccessors.IsForCompanion x →
        ValueAccessors.CallsView m found (x.calls c.asType)) c
      (ValueAccessors.madeOf context (Pass.localAccessors.edited context m)
        ((Pass.localAccessors.editOf context m c).apply c)) := by
  have hgrows := Pass.grows_edited hrun
  have hfound' := (Carriers.ofModel_eq hgrows).trans hfound
  let e := (Pass.localAccessors.editOf context m c).apply c
  have he : e ∈ (Pass.localAccessors.edited context m).classes := List.mem_map_of_mem hc
  refine (AddsForValues.of_grows (Pass.grows_editOf hrun hc) (by decide)).trans ?_
  change AddsForValues _ _ e (ValueAccessors.madeOf context _ e)
  by_cases henum : e.isEnum
  · rw [ValueAccessors.madeOf, if_pos henum]
    have hsame : e.Grows context.settings [] e := .refl e
    exact AddsForValues.of_grows hsame List.not_mem_nil
  · rw [ValueAccessors.madeOf, if_neg henum]
    refine (AddsForValues.of_edit (ValueAccessors.edit context _ e) e).imp ?_ ?_
    · intro k hk htakes
      have hcalls := ValueAccessors.constructor_callsView hfound' he henum hk htakes
      exact hcalls.of_grows hgrows hm hfound
    · intro x hx hfor
      have hcalls := ValueAccessors.method_callsView (hgrows.wellFormed hm) hfound' hx hfor
      exact hcalls.of_grows hgrows hm hfound

/-! ### Whole runs -/

private theorem EngineRun.runPasses_cons_model {report : RunReport} {passReport : PassReport}
    {rest : List Pass} (h : (pass.run context m).outcome = .ok passReport) :
    (runPasses context m report (pass :: rest)).model =
      (runPasses context (pass.run context m).model (report.add passReport) rest).model := by
  simp only [runPasses, h]

/-- Where the pass for local views succeeds, the run goes on from what both passes have made. -/
theorem EngineRun.exists_runPasses_model {passReport : PassReport}
    (hrun : (Pass.localAccessors.run context m).outcome = .ok passReport) (report : RunReport)
    (rest : List Pass) :
    ∃ (made : CodeModel) (between : RunReport),
      made.classes = m.classes.map (fun c =>
        ValueAccessors.madeOf context (Pass.localAccessors.edited context m)
          ((Pass.localAccessors.editOf context m c).apply c)) ∧
      (runPasses context m report (.localAccessors :: .valueAccessors :: rest)).model =
        (runPasses context made between rest).model := by
  have hfirst : (Pass.localAccessors.run context m).model = Pass.localAccessors.edited context m :=
    (Pass.run_performed hrun).model
  obtain ⟨second, hsecond⟩ : ∃ second,
      (Pass.valueAccessors.run context (Pass.localAccessors.run context m).model).outcome =
        .ok second :=
    ValueAccessors.succeeds_run context _
  refine ⟨_, _, ?_, (runPasses_cons_model hrun).trans (runPasses_cons_model hsecond)⟩
  rw [hfirst]
  change (ValueAccessors.run context (Pass.localAccessors.edited context m)).model.classes = _
  rw [ValueAccessors.run_model]
  exact List.map_map

/-- What holds of a member with these calls. If it is one for a local companion, it calls an
accessor of the local view of a carried value on a carrier. Every such accessor that it calls is
declared after the run if and only if a class on the way up provides it. -/
structure CallsProvided (context : PassContext) (m : CodeModel) (found : Carriers)
    (after : CodeModel) (forView : Prop) (calls : List MethodCall) : Prop where
  callsView : forView → ValueAccessors.CallsView m found calls
  declared : ∀ t name types, ⟨some t, name, types.map some⟩ ∈ calls → IsViewKey name types →
    (after.SomeAbove t (·.hasMethod name types) ↔
      m.SomeAbove t (Provides context m found name types))

/-- In a run of both passes every member for a local companion calls an accessor of the local view
of a carried value, and the accessor is there in the end if and only if the class or one of its
superclasses in the model had it, has an instance field with such a view or receives it as a setter
for a value. -/
theorem view_calls_declared_iff (settings : Settings) {selected : List String}
    {passes : List Pass} (hplan : m.plan selected = .ok passes)
    (hlocal : .localAccessors ∈ passes) (hvalue : .valueAccessors ∈ passes) :
    let context : PassContext := { settings, active := passes.map Pass.option }
    let after := (synthesize settings m selected).model
    ∃ found, (Carriers.ofModel m).outcome = .ok found ∧
      List.Forall₂
        (fun c d => AddsForValues
          (fun k => CallsProvided context m found after (TakesCompanion k.key) (k.calls c.asType))
          (fun x => CallsProvided context m found after (ValueAccessors.IsForCompanion x)
            (x.calls c.asType)) c d)
        m.classes after.classes := by
  intro context after
  have hm := CodeModel.wellFormed_of_validate (CodeModel.validate_of_plan hplan)
  obtain ⟨found, hfound⟩ := failure?_eq_none.mp (ValueAccessors.succeeds_ofModel m)
  obtain ⟨rest, rfl, hlocal', hvalue'⟩ := CodeModel.plan_eq_cons hplan hlocal hvalue
  have hafter : after = _ := synthesize_model hplan
  refine ⟨found, hfound, ?_⟩
  cases hfirst : (Pass.localAccessors.run context m).outcome with
  | error e =>
    have hmodel : after = (Pass.localAccessors.run context m).model := by
      rw [hafter]
      simp only [EngineRun.runPasses, context] at hfirst ⊢
      rw [hfirst]
    rw [hmodel]
    exact (Pass.localAccessors.run_grows context m).classes.imp fun c d hcd =>
      AddsForValues.of_grows hcd (by decide)
  | ok report =>
    obtain ⟨made, between, hmade, hmodel⟩ :=
      EngineRun.exists_runPasses_model hfirst {} rest
    rw [← hafter] at hmodel
    have hdeclared : ∀ t name types, IsViewKey name types →
        (after.SomeAbove t (·.hasMethod name types) ↔
          m.SomeAbove t (Provides context m found name types)) := by
      intro t name types hview
      have hrest := EngineRun.runPasses_hasMethod_view context made between hlocal' hvalue' hview
      rw [← hmodel, hmade, List.forall₂_map_left_iff] at hrest
      have hprovided : List.Forall₂ (fun c d => Provides context m found name types c ↔
          d.hasMethod name types) m.classes after.classes :=
        ((List.forall₂_and_left _ _).mpr
          ⟨fun c hc => hasMethod_madeOf_iff hm hfound hfirst hc hview, hrest⟩).imp
            fun c d h => h.1.trans h.2
      exact ((synthesize_grows settings m selected).someAbove_iff hprovided).symm
    have hnot : ValueAccessors.option ∉ rest.map Pass.option := by
      intro hmem
      obtain ⟨pass, hpass, hoption⟩ := List.mem_map.mp hmem
      have hsame : some pass = some Pass.valueAccessors := by
        rw [← pass.ofOption?_option, ← Pass.valueAccessors.ofOption?_option, hoption]
        rfl
      exact hvalue' (Option.some.inj hsame ▸ hpass)
    have hrest := (EngineRun.runPasses_grows context rest made between).classes
    rw [← hmodel, hmade, List.forall₂_map_left_iff] at hrest
    refine ((List.forall₂_and_left _ _).mpr ⟨fun c hc => addsForValues_madeOf hm hfound hfirst hc,
      hrest⟩).imp fun c d h => ?_
    refine (h.1.trans (.of_grows h.2 hnot)).imp ?_ ?_
    · exact fun k hk => ⟨hk, fun t name types _ => hdeclared t name types⟩
    · exact fun x hx => ⟨hx, fun t name types _ => hdeclared t name types⟩

/-- A class that carries a date and time in a field of its own. -/
def stamp : BeanClass :=
  { name := "shop.Stamp"
    fields := [{ name := "value", type := .ofName "java.time.OffsetDateTime" }]
    properties := [{ name := "value", publicName := "Value", kind := .value none }] }

/-- A class that carries one for all of its objects. -/
def epoch : BeanClass :=
  { name := "shop.Epoch"
    fields := [{ name := "value", type := .ofName "java.time.OffsetDateTime", isStatic := true }] }

/-- Both classes get a constructor for the local view. That of the one with an instance field finds
the setter that it calls, the other one finds none. -/
theorem epoch_calls_undeclared :
    let m : CodeModel := { classes := [stamp, epoch] }
    let selected := [LocalAccessors.option, ValueAccessors.option]
    let after := (synthesize {} m selected).model
    let view := TypeExpr.ofName "java.time.LocalDateTime"
    m.plan selected = .ok [.localAccessors, .valueAccessors] ∧
      Pass.localAccessors ∈ [Pass.localAccessors, .valueAccessors] ∧
      Pass.valueAccessors ∈ [Pass.localAccessors, .valueAccessors] ∧
      (∀ x ∈ m.classes.zip after.classes, ∃ k ∈ x.2.constructors, k.key = [view] ∧
        ⟨some x.1.asType, "setValue", [some view]⟩ ∈ k.calls x.1.asType) ∧
      after.SomeAbove stamp.asType (·.hasMethod "setValue" [view]) ∧
      ¬after.SomeAbove epoch.asType (·.hasMethod "setValue" [view]) := by
  intro m selected after view
  have hplan : m.plan selected = .ok [.localAccessors, .valueAccessors] :=
    CodeModel.plan_map_option rfl [.localAccessors, .valueAccessors]
  have hlocal : Pass.localAccessors ∈ [Pass.localAccessors, .valueAccessors] := by decide
  have hvalue : Pass.valueAccessors ∈ [Pass.localAccessors, .valueAccessors] := by decide
  have hmade : ∀ x ∈ m.classes.zip after.classes, x.1.constructors = [] ∧
      (∀ k ∈ x.2.constructors, k.origin = .synthesized ValueAccessors.option) ∧
      ∃ k ∈ x.2.constructors, k.key = [view] ∧
        ⟨some x.1.asType, "setValue", [some view]⟩ ∈ k.calls x.1.asType := by
    decide +kernel
  have hview : IsViewKey "setValue" [view] :=
    .inr ⟨rfl, .ofName "java.time.OffsetDateTime", _, rfl, rfl⟩
  obtain ⟨found, -, hclasses⟩ := view_calls_declared_iff {} hplan hlocal hvalue
  have hdeclared : ∀ c ∈ m.classes, (after.SomeAbove c.asType (·.hasMethod "setValue" [view]) ↔
      m.SomeAbove c.asType (Provides ⟨{}, selected⟩ m found "setValue" [view])) := by
    intro c hc
    rw [← List.map_fst_zip hclasses.length_eq.le] at hc
    obtain ⟨⟨c, d⟩, hpair, rfl⟩ := List.mem_map.mp hc
    obtain ⟨hnone, horigin, k, hk, -, hcall⟩ := hmade _ hpair
    obtain ⟨added, hadded, hprovided⟩ := (List.forall₂_zip hclasses hpair).constructors
    rw [hnone, List.nil_append] at hadded
    subst hadded
    exact (hprovided k hk (horigin k hk)).declared _ _ [view] hcall hview
  refine ⟨hplan, hlocal, hvalue, fun x hx => (hmade x hx).2.2, ?_, ?_⟩
  · rw [hdeclared stamp List.mem_cons_self]
    refine ⟨stamp, List.mem_cons_self, ⟨[], rfl⟩, stamp, List.mem_cons_self, List.mem_cons_self, ?_⟩
    exact .inr ⟨by decide, .inl ⟨_, List.mem_cons_self, rfl, _, rfl, .inr ⟨by decide, rfl⟩⟩⟩
  · rw [hdeclared epoch (.tail _ List.mem_cons_self)]
    rintro ⟨c, hc, ⟨args, hargs⟩, b, hb, habove, hprovides⟩
    have hnames : ∀ c ∈ m.classes, "shop.Epoch" = c.name → ∀ b ∈ m.classes,
        b.name ∈ c.name :: m.ancestorNames c → b.name = "shop.Epoch" := by
      decide
    have hname := hnames c hc (TypeExpr.named.inj hargs).1 b hb habove
    rcases List.mem_pair.mp hb with rfl | rfl
    · exact absurd hname (by decide)
    · rcases hprovides with hmethod | ⟨-, ⟨f, hf, hinstance, -⟩ | ⟨x, hx, -⟩⟩
      · exact absurd hmethod (by decide)
      · obtain rfl := List.mem_singleton.mp hf
        cases hinstance
      · cases hx

end BeanSynthesis
