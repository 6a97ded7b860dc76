import BeanSynthesis.Proofs.Copying.Made
import BeanSynthesis.Proofs.Edits.Passes
import BeanSynthesis.Proofs.Equality.Made
import BeanSynthesis.Proofs.Growth.Names

/-!
# What passes offer

Passes that make accessors offer methods of other names than the passes that compare, describe and
copy objects, and each of these has names of its own. What a pass offers to a class stays the same
while the model grows, except that two of the passes for accessors look at the methods of the class.
-/

namespace BeanSynthesis

variable {settings : Settings} {context : PassContext} {options : List String} {m n : CodeModel}
  {c d : BeanClass} {pass other : Pass} {x : Method}

/-! ## Names -/

/-- The passes that make accessors. -/
def Pass.accessorPasses : List Pass := [.localAccessors, .valueAccessors, .listAccessors]

private theorem ListAccessors.queue_names (getters : List ListGetter) {queued : List Method}
    (hqueued : ∀ x ∈ queued, x.name ∉ reservedNames) :
    ∀ x ∈ getters.foldl (queue settings c) queued, x.name ∉ reservedNames := by
  obtain ⟨plan, hplan, hmethods⟩ := foldlM_planGetter_eq settings c getters { methods := queued }
  rw [← hmethods]
  exact foldlM_planGetter_names hqueued hplan

private theorem ListAccessors.edit_names (h : x ∈ (edit settings c).methods) :
    x.name ∉ reservedNames := by
  obtain ⟨made, hmade, rfl⟩ := List.mem_map.mp h
  have hsetters : ∀ n ∈ setters settings c, n.name ∉ reservedNames := by
    intro n hn
    obtain ⟨f, -, rfl⟩ := List.mem_map.mp hn
    exact (IsAccessorName.append (by decide) _).not_mem
  exact queue_names (getters c) hsetters made hmade

private theorem ValueAccessors.edit_names (h : x ∈ (edit context m c).methods) :
    IsAccessorName x.name := by
  rcases List.mem_append.mp h with h | h
  · obtain ⟨n, -, hn⟩ := List.mem_flatMap.mp h
    exact settersFor_names n x hn
  · obtain ⟨n, -, hget⟩ := exists_of_mem_untaken h
    exact gettersFor_names hget

/-- Accessors have names of their own, and so has what each other pass offers. -/
theorem Pass.offer_names (h : x ∈ (pass.offer context m c).methods) :
    pass ∈ accessorPasses ∧ x.name ∉ reservedNames ∨ x.name ∈ pass.owned := by
  cases pass with
  | localAccessors =>
    obtain ⟨made, hmade, rfl⟩ := List.mem_map.mp h
    obtain ⟨f, -, hf⟩ := List.mem_flatMap.mp hmade
    have hname : IsAccessorName made.name := LocalAccessors.fieldMethods_names hf
    exact .inl ⟨by decide, hname.not_mem⟩
  | valueAccessors => exact .inl ⟨by decide, (ValueAccessors.edit_names h).not_mem⟩
  | listAccessors => exact .inl ⟨by decide, ListAccessors.edit_names h⟩
  | equality =>
    rcases List.mem_pair.mp h with rfl | rfl
    · exact .inr List.mem_cons_self
    · exact .inr (.tail _ List.mem_cons_self)
  | description =>
    change x ∈ Description.methods context.settings m c at h
    unfold Description.methods at h
    split at h
    · cases h
    · obtain rfl := List.mem_singleton.mp h
      exact .inr List.mem_cons_self
  | copying =>
    rcases List.mem_pair.mp h with rfl | rfl
    · exact .inr List.mem_cons_self
    · exact .inr (.tail _ List.mem_cons_self)
  | _ => cases h

/-- Different passes offer different methods, unless both make accessors. -/
theorem Pass.offer_disjoint {y : Method} (hne : pass ≠ other)
    (haccess : ¬(pass ∈ accessorPasses ∧ other ∈ accessorPasses))
    (hx : x ∈ (pass.offer context m c).methods) (hy : y ∈ (other.offer context m c).methods) :
    x.name ≠ y.name := by
  intro hname
  rcases offer_names hx with ⟨hpass, hfree⟩ | howned
  · rcases offer_names hy with ⟨hother, -⟩ | howned'
    · exact haccess ⟨hpass, hother⟩
    · rw [hname] at hfree
      exact hfree (other.owned_reserved _ howned')
  · rcases offer_names hy with ⟨-, hfree⟩ | howned'
    · rw [← hname] at hfree
      exact hfree (pass.owned_reserved _ howned)
    · rw [hname] at howned
      exact owned_disjoint hne.symm _ howned howned'

/-! ## Offers to a grown class -/

/-- Whether what a pass offers to a class hangs on the methods of the class. -/
def Pass.readsMethods : Pass → Bool
  | valueAccessors => true
  | listAccessors => true
  | _ => false

/-- A grown class keeps the fields that its accessors are made for. -/
theorem BeanClass.Grows.instances_eq (h : c.Grows settings options d) :
    d.instances = c.instances := by
  rw [instances, Step.getD, h.instanceFields_eq, instances, Step.getD]

private theorem Interfaces.isTarget_eq (h : m.Grows settings options n)
    (hcd : c.Grows settings options d) :
    isTarget n d = isTarget m c := by
  unfold isTarget
  rw [hcd.isEnum_eq]
  congr 1
  cases hc : m.parentOf c with
  | root => rw [hcd.parentOf_eq_root n hc]
  | generated parent =>
    obtain ⟨grown, hgrown, -⟩ := h.parentOf_eq_generated hcd hc
    rw [hgrown]
  | external parent => rw [h.parentOf_eq_external hcd hc]

/-- Names that are no accessors stand for no property. -/
theorem Naming.propertyPart?_eq_none {name accessor : String}
    (haccessor : accessor ∈ ["get", "is", "set", "add"]) (hname : name ∈ reservedNames) :
    propertyPart? name accessor = none := by
  cases h : propertyPart? name accessor with
  | none => rfl
  | some property => exact absurd hname (isAccessor_of_propertyPart? haccessor h).not_mem

namespace ListAccessors

private theorem listGetter?_eq_none (h : x.name ∈ reservedNames) : listGetter? x = none := by
  unfold listGetter?
  rw [Naming.propertyPart?_eq_none (by decide) h]
  split
  · rfl
  · rfl

/-- The methods that compare, describe and copy make no difference to the accessors of lists. -/
theorem edit_eq_of_adds (hcd : c.Grows settings options d) (hadds : c.Adds (· ∈ reservedNames) d) :
    edit settings d = edit settings c := by
  have hsetters : setters settings d = setters settings c := by
    rw [setters, hcd.instances_eq, setters]
  have hgetters : getters d = getters c := by
    obtain ⟨added, hadded, hnames⟩ := hadds
    have hnone : added.filterMap listGetter? = [] :=
      List.filterMap_eq_nil_iff.mpr fun x hx => listGetter?_eq_none (hnames x hx)
    rw [getters, hadded, List.filterMap_append, hnone, List.append_nil, getters]
  have hqueue : queue settings d = queue settings c := by
    have hfree : ∀ (g : ListGetter) (queued : List Method),
        g.freeCountName? d queued = g.freeCountName? c queued := by
      intro g queued
      have hfirst : ("get" ++ g.property ++ "Count") ∉ reservedNames :=
        ((IsAccessorName.append (by decide) _).append_right _).not_mem
      have hsecond : ("get" ++ g.property ++ "ListCount") ∉ reservedNames :=
        ((IsAccessorName.append (by decide) _).append_right _).not_mem
      simp only [ListGetter.freeCountName?, ListGetter.countNames, List.find?_cons, List.find?_nil,
        BeanClass.hasMethodWithoutParams, hadds.hasMethod_eq hfirst, hadds.hasMethod_eq hsecond]
    funext queued g
    simp only [queue, hfree]
  rw [edit, hsetters, hgetters, hqueue, edit]

end ListAccessors

namespace ValueAccessors

variable {carriers : Dict TypeExpr} {withLocal : Bool}

private theorem settersFor_of_reserved (h : x.name ∈ reservedNames) :
    settersFor settings carriers withLocal x = [] := by
  unfold settersFor
  rw [Naming.propertyPart?_eq_none (by decide) h]
  split
  case h_1 hsome => cases hsome
  case h_2 => rfl

private theorem gettersFor_of_reserved (h : x.name ∈ reservedNames) :
    gettersFor settings carriers withLocal c x = [] := by
  unfold gettersFor
  rw [Naming.propertyPart?_eq_none (by decide) h]
  split
  case h_1 hsome => cases hsome
  case h_2 => rfl

private theorem setters_eq_of_adds (h : c.Adds (· ∈ reservedNames) d) :
    setters settings carriers withLocal d = setters settings carriers withLocal c := by
  obtain ⟨added, hadded, hnames⟩ := h
  have hnone : added.flatMap (settersFor settings carriers withLocal) = [] :=
    List.flatMap_eq_nil_iff.mpr fun x hx => settersFor_of_reserved (hnames x hx)
  rw [setters, hadded, List.flatMap_append, hnone, List.append_nil, setters]

private theorem getters_eq_of_adds (h : c.Adds (· ∈ reservedNames) d) :
    getters settings carriers withLocal d = getters settings carriers withLocal c := by
  have hsame : ∀ property type, d.hasMethodWithoutParams (valueGetterName property type) =
      c.hasMethodWithoutParams (valueGetterName property type) := fun property type =>
    h.hasMethod_eq (valueGetterName_isAccessor property type).not_mem
  obtain ⟨added, hadded, hnames⟩ := h
  have hnone : added.flatMap (gettersFor settings carriers withLocal c) = [] :=
    List.flatMap_eq_nil_iff.mpr fun x hx => gettersFor_of_reserved (hnames x hx)
  rw [getters, gettersFor_congr hsame, hadded, List.flatMap_append, hnone, List.append_nil, getters]

private theorem found_eq (h : m.Grows settings options n) : found n = found m := by
  rw [found, Step.getD, Carriers.ofModel_eq h, found, Step.getD]

/-- What a class carries is not changed by growth. -/
theorem carriedBy?_eq (h : m.Grows settings options n) (hcd : c.Grows settings options d) :
    carriedBy? n d = carriedBy? m c := by
  rw [carriedBy?, found_eq h, Carriers.valueType?_eq h hcd, carriedBy?]

/-- A grown model has the same carriers. -/
theorem carriersOf_eq (h : m.Grows settings options n) : carriersOf n = carriersOf m := by
  have hcarried : carriedBy? n = Carriers.valueType? n (found m) := by
    funext c
    rw [carriedBy?, found_eq h]
  rw [carriersOf, hcarried, carriedTypes_eq h]
  rfl

private theorem edit_eq_of_adds (h : m.Grows settings options n) (hcd : c.Grows settings options d)
    (hadds : c.Adds (· ∈ reservedNames) d) : edit context n d = edit context m c := by
  rw [edit, carriersOf_eq h, carriedBy?_eq h hcd, editWith, setters_eq_of_adds hadds,
    getters_eq_of_adds hadds, edit, editWith]

end ValueAccessors

/-- What a pass offers to a class stays the same while the model grows. If it hangs on the methods
of the class, only such methods may have been added as compare, describe and copy. -/
theorem Pass.offer_eq (h : m.Grows context.settings options n)
    (hcd : c.Grows context.settings options d)
    (hadds : pass.readsMethods → c.Adds (· ∈ reservedNames) d) :
    pass.offer context n d = pass.offer context m c := by
  cases pass with
  | localAccessors =>
    change LocalAccessors.edit _ d = LocalAccessors.edit _ c
    rw [LocalAccessors.edit, hcd.instances_eq, LocalAccessors.edit]
  | valueAccessors => exact ValueAccessors.edit_eq_of_adds h hcd (hadds rfl)
  | listAccessors => exact ListAccessors.edit_eq_of_adds hcd (hadds rfl)
  | equality =>
    change Equality.edit _ n d = Equality.edit _ m c
    rw [Equality.edit, Equality.equalsMethod_eq_of_grows h hcd,
      Equality.hashCodeMethod_eq_of_grows h hcd, hcd.instances_eq, Equality.edit]
  | description =>
    change Description.edit _ n d = Description.edit _ m c
    rw [Description.edit, Description.methods, h.lineageOf_eq hcd, hcd.instances_eq,
      Description.edit,
      Description.methods]
  | copying =>
    change Copying.edit _ n d = Copying.edit _ m c
    rw [Copying.edit, Copying.cloneToMethod_eq_of_grows h hcd, Copying.cloneMethod_eq_of_grows hcd,
      hcd.instances_eq, h.lineageOf_eq hcd, Copying.edit]
  | constraints dialect =>
    change ({ fields := Constraints.editFields _ dialect n d } : ClassEdit) =
      { fields := Constraints.editFields _ dialect m c }
    rw [Constraints.editFields, Constraints.constrainAll_eq_of_grows h, Constraints.constraining,
      hcd.properties]
    rfl
  | interfaces =>
    change ({ interfaces := Interfaces.editInterfaces _ n d } : ClassEdit) =
      { interfaces := Interfaces.editInterfaces _ m c }
    have hedit : Interfaces.editInterfaces context.settings n d =
        Interfaces.editInterfaces context.settings m c := by
      funext xs
      rw [Interfaces.editInterfaces, Interfaces.isTarget_eq h hcd, hcd.isEnum_eq,
        Interfaces.editInterfaces]
    rw [hedit]
  | _ => rfl

private theorem Pass.editOf_eq (h : m.Grows context.settings options n)
    (hcd : c.Grows context.settings options d)
    (hadds : pass.readsMethods → c.Adds (· ∈ reservedNames) d) :
    pass.editOf context n d = pass.editOf context m c := by
  rw [editOf, hcd.isEnum_eq, offer_eq h hcd hadds, editOf]

private theorem Pass.editPackages_eq (h : m.Grows context.settings options n) :
    pass.editPackages context.settings n = pass.editPackages context.settings m := by
  cases pass with
  | nullMarker =>
    change NullMarker.edit _ (NullMarker.packages n) = NullMarker.edit _ (NullMarker.packages m)
    rw [NullMarker.packages_eq h]
  | _ => rfl

/-! ## One pass after another -/

namespace Pass

variable {report : PassReport}

/-- What a pass makes of a model is growth. -/
theorem grows_edited (h : (pass.run context m).outcome = .ok report) :
    m.Grows context.settings [pass.option] (pass.edited context m) := by
  rw [← (run_performed h).model]
  exact pass.run_grows context m

/-- A pass that succeeds on a model succeeds on a grown one. -/
theorem run_ok_of_grows (h : m.Grows context.settings options n)
    (hok : (pass.run context m).outcome = .ok report) :
    ∃ again, (pass.run context n).outcome = .ok again := by
  have hnone : failure? (pass.run context m).outcome = none := failure?_eq_none.mpr ⟨report, hok⟩
  rw [failure?_run] at hnone
  rw [← failure?_eq_none, failure?_run, h.objectionTo?_eq, hnone]

/-- What a pass makes of a class is growth. -/
theorem grows_editOf (h : (pass.run context m).outcome = .ok report) (hc : c ∈ m.classes) :
    c.Grows context.settings [pass.option] ((pass.editOf context m c).apply c) := by
  have hclasses := (grows_edited h).classes
  exact List.forall₂_same.mp (List.forall₂_map_right_iff.mp hclasses) c hc

/-- A pass that makes no accessors adds only what compares, describes and copies. -/
theorem adds_editOf (haccess : pass ∉ accessorPasses) (m : CodeModel) (c : BeanClass) :
    c.Adds (· ∈ reservedNames) ((pass.editOf context m c).apply c) := by
  refine ⟨_, ClassEdit.apply_methods _ c, fun x hx => ?_⟩
  have hoffered := mem_of_mem_newcomers hx
  unfold editOf at hoffered
  split at hoffered
  · cases hoffered
  · rcases offer_names hoffered with ⟨hpass, -⟩ | howned
    · exact absurd hpass haccess
    · exact pass.owned_reserved _ howned

/-- After a pass, another one does what it would have done before. -/
theorem edited_edited (h : (pass.run context m).outcome = .ok report)
    (haccess : other.readsMethods → pass ∉ accessorPasses) :
    other.edited context (pass.edited context m) = { m with
      classes := m.classes.map fun c =>
        (other.editOf context m c).apply ((pass.editOf context m c).apply c)
      objectFactories := m.objectFactories.map fun c =>
        other.editFactory context.settings (pass.editFactory context.settings c)
      packages := other.editPackages context.settings m
        (pass.editPackages context.settings m m.packages) } := by
  have hgrows := grows_edited h
  have hclasses : (pass.edited context m).classes.map
      (fun c => (other.editOf context (pass.edited context m) c).apply c) =
      m.classes.map fun c =>
        (other.editOf context m c).apply ((pass.editOf context m c).apply c) := by
    rw [edited, List.map_map]
    apply List.map_congr_left
    intro c hc
    have hadds : other.readsMethods →
        c.Adds (· ∈ reservedNames) ((pass.editOf context m c).apply c) :=
      fun hreads => adds_editOf (haccess hreads) m c
    rw [Function.comp_apply, ← edited, editOf_eq hgrows (grows_editOf h hc) hadds]
  rw [edited, hclasses, editPackages_eq hgrows]
  simp only [edited, List.map_map]
  rfl

end Pass

end BeanSynthesis
