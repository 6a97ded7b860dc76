import BeanSynthesis.Proofs.Growth.Passes

/-!
# The names of what passes add

The methods that compare, describe and copy objects are added by the passes for it, and by no other.
Whatever else is added to a class is an accessor.
-/

namespace BeanSynthesis

namespace BeanClass

variable {Q R : String → Prop} {c d e : BeanClass} {name : String} {signature : List TypeExpr}

/-- Methods are added, and only such as have names of this kind. -/
def Adds (Q : String → Prop) (c d : BeanClass) : Prop :=
  ∃ added, d.methods = c.methods ++ added ∧ ∀ n ∈ added, Q n.name

namespace Adds

private theorem of_methods_eq (h : d.methods = c.methods) : c.Adds Q d := ⟨[], by simp [h]⟩

/-- A class may gain nothing. -/
theorem refl (c : BeanClass) : c.Adds Q c := of_methods_eq rfl

/-- What is gained twice is gained. -/
theorem trans (hcd : c.Adds Q d) (hde : d.Adds Q e) : c.Adds Q e := by
  obtain ⟨first, hfirst, hnames⟩ := hcd
  obtain ⟨second, hsecond, hnames'⟩ := hde
  refine ⟨first ++ second, by rw [hsecond, hfirst, List.append_assoc], ?_⟩
  rw [List.forall_mem_append]
  exact ⟨hnames, hnames'⟩

/-- More names allow no less to be gained. -/
theorem mono (h : c.Adds Q d) (hQR : ∀ name, Q name → R name) : c.Adds R d := by
  obtain ⟨added, hadded, hnames⟩ := h
  exact ⟨added, hadded, fun n hn => hQR _ (hnames n hn)⟩

private theorem addMethods {ms : List Method} {changed : Changed} (hnames : ∀ n ∈ ms, Q n.name)
    (h : (c.addMethods ms).outcome = .ok changed) : c.Adds Q changed.1 := by
  obtain ⟨methods, tally, hadd, added, rfl, hmade, -⟩ := addMethods_outcome hnames c
  obtain rfl := Except.ok.inj (hadd.symm.trans h)
  exact ⟨added, rfl, hmade⟩

private theorem noted {tally : Tally} (h : c.Adds Q d) (note : String) :
    c.Adds Q (Changed.noted (d, tally) note).1 := by
  obtain ⟨added, hadded, hnames⟩ := h
  exact ⟨added, (Changed.noted_methods _ _).trans hadded, hnames⟩

private theorem of_receives {settings : Settings} {option : String} {ms : List Method}
    (hnames : ∀ n ∈ ms, Q n.name) (h : c.Receives settings option ms d) : c.Adds Q d := by
  obtain ⟨added, tally, tally', hadd, rfl⟩ := h
  exact (addMethods hnames hadd).noted _

/-- The methods of other names stay the same. -/
theorem filter_methods (h : c.Adds Q d) (hname : ¬Q name) :
    d.methods.filter (·.name == name) = c.methods.filter (·.name == name) := by
  obtain ⟨added, hadded, hnames⟩ := h
  have hnone : added.filter (·.name == name) = [] := by
    refine List.filter_eq_nil_iff.mpr fun n hn heq => hname ?_
    rw [← beq_iff_eq.mp heq]
    exact hnames n hn
  rw [hadded, List.filter_append, hnone, List.append_nil]

/-- Methods of other names are neither added nor lost. -/
theorem hasMethod_eq (h : c.Adds Q d) (hname : ¬Q name) :
    d.hasMethod name signature = c.hasMethod name signature := by
  have hfilter := h.filter_methods hname
  have hany : ∀ e : BeanClass, e.hasMethod name signature =
      (e.methods.filter (·.name == name)).any (·.hasSignature signature) := by
    intro e
    simp [hasMethod, List.any_filter]
  rw [hany, hany, hfilter]

end Adds

end BeanClass

/-! ## Names -/

/-- Methods of these names are added by the passes for comparing, describing and copying alone. -/
def reservedNames : List String := ["equals", "hashCode", "toString", "cloneTo", "clone"]

/-- The name starts like that of an accessor. -/
def IsAccessorName (name : String) : Prop :=
  ∃ start ∈ ["get", "is", "set", "add"], start.toList <+: name.toList

/-- What starts as accessors do is the name of one. -/
theorem IsAccessorName.append {start : String} (hstart : start ∈ ["get", "is", "set", "add"])
    (rest : String) : IsAccessorName (start ++ rest) :=
  ⟨start, hstart, by simp⟩

/-- The name of an accessor may go on in any way. -/
theorem IsAccessorName.append_right {name : String} (h : IsAccessorName name) (rest : String) :
    IsAccessorName (name ++ rest) := by
  obtain ⟨start, hstart, hprefix⟩ := h
  exact ⟨start, hstart, by simpa using hprefix.trans (List.prefix_append _ _)⟩

/-- No accessor is called like a method that compares, describes or copies. -/
theorem IsAccessorName.not_mem {name : String} (h : IsAccessorName name) :
    name ∉ reservedNames := by
  have hnone : ∀ name ∈ reservedNames, ∀ start ∈ ["get", "is", "set", "add"],
      ¬start.toList <+: name.toList := by decide
  intro hname
  obtain ⟨start, hstart, hprefix⟩ := h
  exact hnone name hname start hstart hprefix

/-- `hashCode` starts with `has`, but not all that starts so is the test of a list. -/
theorem append_entries_not_mem (start : String) : start ++ "Entries" ∉ reservedNames := by
  have hnone : ∀ name ∈ reservedNames, ¬"Entries".toList <:+ name.toList := by decide
  exact fun hname => hnone _ hname (by simp)

/-- The names of what the passes for comparing, describing and copying add. -/
def Pass.owned : Pass → List String
  | .equality => ["equals", "hashCode"]
  | .description => ["toString"]
  | .copying => ["cloneTo", "clone"]
  | _ => []

/-- What a pass may call the methods that it adds. -/
def Pass.Names (pass : Pass) (name : String) : Prop :=
  name ∈ pass.owned ∨ name ∉ reservedNames

/-- The names that a pass keeps for itself are reserved. -/
theorem Pass.owned_reserved (pass : Pass) : ∀ name ∈ pass.owned, name ∈ reservedNames := by
  cases pass <;> simp [owned, reservedNames]

/-- No two passes keep one name for themselves. -/
theorem Pass.owned_disjoint {pass owner : Pass} (h : pass ≠ owner) :
    ∀ name ∈ owner.owned, name ∉ pass.owned := by
  cases owner <;> cases pass <;> first | exact absurd rfl h | simp [owned]

/-- A pass adds nothing under the names that another one owns. -/
theorem Pass.not_names_of_ne {pass owner : Pass} (h : pass ≠ owner) {name : String}
    (hname : name ∈ owner.owned) : ¬pass.Names name := by
  simp [Names, owned_disjoint h name hname, owner.owned_reserved name hname]

variable {settings : Settings} {m : CodeModel} {c after : BeanClass} {tally : Tally}

/-- Getters are called as accessors are. -/
theorem Naming.getterName_isAccessor (t : TypeExpr) (name : String) :
    IsAccessorName (Naming.getterName t name) := by
  unfold getterName
  split
  · exact .append (by decide) _
  · exact .append (by decide) _

/-- A name of which a property is left behind the start of accessors is one of an accessor. -/
theorem Naming.isAccessor_of_propertyPart? {name accessor property : String}
    (haccessor : accessor ∈ ["get", "is", "set", "add"])
    (h : Naming.propertyPart? name accessor = some property) : IsAccessorName name := by
  refine ⟨accessor, haccessor, ?_⟩
  unfold propertyPart? at h
  split at h
  · cases h
  · cases h
  case h_3 rest _ hrest => exact ⟨rest, (Text.eq_append_of_afterStart? hrest).symm⟩

/-! ## Passes -/

/-- A sweep that leaves enumerations alone adds methods as its treatment does. -/
theorem forall₂_sweep_adds {Q : String → Prop} {f : BeanClass → Step Changed}
    (hstep : ∀ c after tally, (f c).outcome = .ok (after, tally) → c.Adds Q after)
    (classes : List BeanClass) :
    List.Forall₂ (BeanClass.Adds Q) classes (sweep (exceptEnums f) classes).classes := by
  refine forall₂_sweep BeanClass.Adds.refl (fun c after tally h => ?_) classes
  rcases exceptEnums_eq_ok h with rfl | ⟨-, hok⟩
  · exact .refl _
  · exact hstep c after tally hok

/-- The accessors of a field are called as such. -/
theorem LocalAccessors.fieldMethods_names {f : InstanceField} {n : Method}
    (h : n ∈ fieldMethods settings f) : IsAccessorName n.name := by
  unfold fieldMethods at h
  split at h
  · rcases List.mem_pair.mp h with rfl | rfl
    · exact (Naming.getterName_isAccessor _ _).append_right _
    · exact .append (by decide) _
  · cases h

private theorem LocalAccessors.onClass_adds
    (h : (LocalAccessors.onClass settings c).outcome = .ok (after, tally)) :
    c.Adds IsAccessorName after := by
  obtain ⟨fields, -, hreceives⟩ := onClass_receives h
  refine .of_receives (fun n hn => ?_) hreceives
  obtain ⟨made, hmade, rfl⟩ := List.mem_map.mp hn
  obtain ⟨f, -, hf⟩ := List.mem_flatMap.mp hmade
  have hname : IsAccessorName made.name := fieldMethods_names hf
  exact hname

namespace ListAccessors

private theorem planGetter_names {plan plan' : Plan} {g : ListGetter}
    (hplan : ∀ n ∈ plan.methods, n.name ∉ reservedNames)
    (h : (planGetter settings c plan g).outcome = .ok plan') :
    ∀ n ∈ plan'.methods, n.name ∉ reservedNames := by
  have hnames : ∀ n ∈ plan.methods ++ [g.hasEntries, g.hasNoEntries], n.name ∉ reservedNames := by
    simp only [List.forall_mem_append, List.forall_mem_cons]
    exact ⟨hplan, append_entries_not_mem _, append_entries_not_mem _, List.forall_mem_nil _⟩
  have hothers : ∀ n ∈ [g.atIndex settings, g.add settings], n.name ∉ reservedNames := by
    simp only [List.forall_mem_cons]
    exact ⟨((IsAccessorName.append (by decide) _).append_right _).not_mem,
      (IsAccessorName.append (by decide) _).not_mem, List.forall_mem_nil _⟩
  unfold planGetter at h
  dsimp only at h
  split at h
  case h_1 name hname =>
    obtain rfl := Except.ok.inj h
    have hcount : name ∉ reservedNames := by
      have hmem := List.mem_of_find?_eq_some hname
      rcases List.mem_pair.mp hmem with rfl | rfl
      · exact ((IsAccessorName.append (by decide) _).append_right _).not_mem
      · exact ((IsAccessorName.append (by decide) _).append_right _).not_mem
    simp only [List.forall_mem_append, List.forall_mem_singleton] at hnames ⊢
    exact ⟨⟨hnames, hcount⟩, hothers⟩
  case h_2 _ =>
    obtain ⟨-, -, h⟩ := Step.bind_eq_ok.mp h
    obtain rfl := Except.ok.inj h
    rw [List.forall_mem_append]
    exact ⟨hnames, hothers⟩

/-- The companions of list getters have no reserved names. -/
theorem foldlM_planGetter_names {getters : List ListGetter} {plan plan' : Plan}
    (hplan : ∀ n ∈ plan.methods, n.name ∉ reservedNames)
    (h : (getters.foldlM (planGetter settings c) plan).outcome = .ok plan') :
    ∀ n ∈ plan'.methods, n.name ∉ reservedNames := by
  induction getters generalizing plan with
  | nil =>
    obtain rfl := Except.ok.inj h
    exact hplan
  | cons g rest ih =>
    obtain ⟨next, hnext, h⟩ := Step.bind_eq_ok.mp h
    exact ih (planGetter_names hplan hnext) h

private theorem onClass_adds (h : (ListAccessors.onClass settings c).outcome = .ok (after, tally)) :
    c.Adds (· ∉ reservedNames) after := by
  obtain ⟨fields, plan, -, hplan, hreceives⟩ := onClass_receives h
  have hsetters : ∀ n ∈ (fields.filter (·.type.isErasure "List")).map (setter settings),
      n.name ∉ reservedNames := by
    intro n hn
    obtain ⟨f, -, rfl⟩ := List.mem_map.mp hn
    exact (IsAccessorName.append (by decide) _).not_mem
  refine .of_receives (fun n hn => ?_) hreceives
  obtain ⟨made, hmade, rfl⟩ := List.mem_map.mp hn
  exact foldlM_planGetter_names hsetters hplan made hmade

end ListAccessors

private theorem Description.onClass_adds
    (h : (Description.onClass settings m c).outcome = .ok (after, tally)) :
    c.Adds (· = "toString") after := by
  obtain ⟨fields, -, ⟨-, rfl⟩ | hreceives⟩ := onClass_receives h
  · exact .refl _
  · exact .of_receives (List.forall_mem_singleton.mpr rfl) hreceives

private theorem Equality.onClass_adds
    (h : (Equality.onClass settings m c).outcome = .ok (after, tally)) :
    c.Adds (· ∈ ["equals", "hashCode"]) after := by
  obtain ⟨fields, -, hreceives⟩ := onClass_receives h
  refine .of_receives (fun n hn => ?_) hreceives
  rcases List.mem_pair.mp hn with rfl | rfl
  · exact List.mem_cons_self
  · exact .tail _ List.mem_cons_self

/-- The interface of cloning is no method. -/
theorem Copying.methods_withInterface (interface : ClassRef) (lineage : Lineage) :
    (withInterface interface lineage c).methods = c.methods := by
  unfold withInterface
  split <;> rfl

private theorem Copying.onClass_adds
    (h : (Copying.onClass settings m c).outcome = .ok (after, tally)) :
    c.Adds (· ∈ ["cloneTo", "clone"]) after := by
  obtain ⟨fields, -, hreceives⟩ := onClass_receives h
  refine (BeanClass.Adds.of_methods_eq (methods_withInterface _ _)).trans
    (.of_receives (fun n hn => ?_) hreceives)
  rcases List.mem_pair.mp hn with rfl | rfl
  · exact List.mem_cons_self
  · exact .tail _ List.mem_cons_self

namespace ValueAccessors

variable {carriers : Dict TypeExpr} {withLocal : Bool}

private theorem addDefaultConstructor_adds
    (h : (addDefaultConstructor settings c).outcome = .ok (after, tally)) :
    c.Adds IsAccessorName after := by
  obtain rfl | ⟨-, counted, rfl⟩ := addDefaultConstructor_cases h
  · exact .refl _
  · exact BeanClass.Adds.noted (.of_methods_eq rfl) _

private theorem addValueConstructors_adds {valueType? : BeanClass → Option TypeExpr}
    (h : (addValueConstructors settings withLocal valueType? c).outcome = .ok (after, tally)) :
    c.Adds IsAccessorName after := by
  obtain rfl | ⟨type, -, rfl⟩ := addValueConstructors_cases h
  · exact .refl _
  · refine BeanClass.Adds.noted (.of_methods_eq ?_) _
    have hmade : ∀ k ∈ (withCompanion withLocal type).map (valueConstructor settings), True :=
      fun _ _ => trivial
    obtain ⟨constructors, hfst, -⟩ := BeanClass.addConstructors_fst hmade c
    rw [hfst]

/-- Setters for values are called as accessors are. -/
theorem settersFor_names (n : Method) :
    ∀ x ∈ settersFor settings carriers withLocal n, IsAccessorName x.name := by
  intro x hx
  obtain ⟨param, property, type, -, hproperty, -, t, -, rfl⟩ := exists_of_mem_settersFor hx
  exact Naming.isAccessor_of_propertyPart? (by decide) hproperty

private theorem addSetters_adds
    (h : (addSetters settings carriers withLocal c).outcome = .ok (after, tally)) :
    c.Adds IsAccessorName after := by
  refine .of_receives (fun x hx => ?_) (addSetters_receives h)
  obtain ⟨n, -, hx⟩ := List.mem_flatMap.mp hx
  exact settersFor_names n x hx

/-- Getters for values are called as accessors are. -/
theorem valueGetterName_isAccessor (property : String) (type : TypeExpr) :
    IsAccessorName (valueGetterName property type) := by
  unfold valueGetterName
  split
  · exact (IsAccessorName.append (by decide) _).append_right _
  · exact (IsAccessorName.append (by decide) _).append_right _

/-- A getter for a value has the name it is given. -/
theorem valueGetter_name (name getter : String) (carrier type : TypeExpr) (read : String) :
    (valueGetter settings name getter carrier type read).name = name := by
  unfold valueGetter
  split <;> rfl

/-- The getters that are added for values are called as accessors are. -/
theorem gettersFor_names {n x : Method}
    (hx : .ok x ∈ gettersFor settings carriers withLocal c n) : IsAccessorName x.name := by
  obtain ⟨property, type, -, ⟨read, rfl⟩ | ⟨companion, -, rfl⟩⟩ := exists_of_mem_gettersFor hx
  · rw [valueGetter_name]
    exact valueGetterName_isAccessor _ _
  · rw [valueGetter_name]
    exact (valueGetterName_isAccessor _ _).append_right _

private theorem addGetters_adds
    (h : (addGetters settings carriers withLocal c).outcome = .ok (after, tally)) :
    c.Adds IsAccessorName after := by
  refine .of_receives (fun x hx => ?_) (addGetters_receives h)
  obtain ⟨n, -, hget⟩ := exists_of_mem_untaken hx
  exact gettersFor_names hget

private theorem run_adds (context : PassContext) (m : CodeModel) :
    List.Forall₂ (BeanClass.Adds IsAccessorName) m.classes (run context m).model.classes := by
  have hfirst : List.Forall₂ (BeanClass.Adds IsAccessorName) m.classes
      (sweep (exceptEnums (addDefaultConstructor context.settings)) m.classes).classes :=
    forall₂_sweep_adds (fun _ _ _ => addDefaultConstructor_adds) _
  unfold run
  dsimp only
  split
  · exact hfirst
  · refine forall₂_trans (forall₂_trans (forall₂_trans hfirst
      (forall₂_sweep_adds ?_ _) .trans)
      (forall₂_sweep_adds ?_ _) .trans)
      (forall₂_sweep_adds ?_ _) .trans
    · exact fun _ _ _ => addValueConstructors_adds
    · exact fun _ _ _ => addSetters_adds
    · exact fun _ _ _ => addGetters_adds

end ValueAccessors

/-! ## Passes that add no methods -/

private theorem Constraints.onClass_methods {dialect : ValidationDialect}
    (h : (onClass settings dialect m c).outcome = .ok (after, tally)) :
    after.methods = c.methods := by
  obtain ⟨counted, happly⟩ := onClass_applies h
  refine applyProperties_keeps (P := fun d => d.methods = c.methods)
    (fun p _ d after tally hd hone => ?_) rfl happly
  obtain rfl | ⟨f, g, added, -, -, rfl⟩ := applyProperty_cases hone
  · exact hd
  · exact hd

private theorem Interfaces.onClass_methods {interfaces : List String}
    (h : (onClass m interfaces c).outcome = .ok (after, tally)) : after.methods = c.methods := by
  obtain ⟨added, -, rfl⟩ := onClass_interfaces h
  rfl

private theorem PrivateFields.onClass_methods (h : (onClass c).outcome = .ok (after, tally)) :
    after.methods = c.methods := by
  obtain ⟨fields, -, rfl⟩ := onClass_fields h
  rfl

private theorem StyleMarker.onClass_methods {marker : String}
    (h : (onClass marker c).outcome = .ok (after, tally)) : after.methods = c.methods := by
  obtain ⟨added, -, rfl⟩ := onClass_outcome h
  rfl

/-- Marking packages leaves the classes alone. -/
theorem NullMarker.markAll_classes {names : List String} {m' : CodeModel}
    (h : (markAll settings m names).outcome = .ok (m', tally)) : m'.classes = m.classes := by
  refine markAll_keeps (P := fun n => n.classes = m.classes) (fun n name hn => ?_) rfl h
  unfold CodeModel.updatePackage
  split
  · exact hn
  · exact hn

/-- A sweep that leaves enumerations alone leaves methods alone if its treatment does. -/
theorem forall₂_sweep_methods_eq {f : BeanClass → Step Changed}
    (hstep : ∀ c after tally, (f c).outcome = .ok (after, tally) → after.methods = c.methods)
    (classes : List BeanClass) :
    List.Forall₂ (fun c d => d.methods = c.methods) classes
      (sweep (exceptEnums f) classes).classes := by
  refine forall₂_sweep (R := fun c d => d.methods = c.methods) (fun _ => rfl)
    (fun c after tally h => ?_) classes
  rcases exceptEnums_eq_ok h with rfl | ⟨-, hok⟩
  · rfl
  · exact hstep c after tally hok

/-- The passes that add methods. -/
def Pass.addingMethods : List Pass :=
  [.localAccessors, .valueAccessors, .listAccessors, .equality, .description, .copying]

/-- The other passes leave all methods as they are. -/
theorem Pass.run_methods_eq {pass : Pass} (context : PassContext) (m : CodeModel)
    (hpass : pass ∉ addingMethods) :
    List.Forall₂ (fun c d => d.methods = c.methods) m.classes
      (pass.run context m).model.classes := by
  have hsame : List.Forall₂ (fun c d : BeanClass => d.methods = c.methods) m.classes m.classes :=
    forall₂_refl_of (R := fun c d => d.methods = c.methods) (fun _ => rfl) m.classes
  cases pass with
  | constraints dialect =>
    exact forall₂_sweep_methods_eq (fun _ _ _ => Constraints.onClass_methods) _
  | interfaces =>
    change List.Forall₂ _ _ (Interfaces.run context m).model.classes
    unfold Interfaces.run
    dsimp only
    split
    · exact hsame
    · exact forall₂_sweep (R := fun c d => d.methods = c.methods) (fun _ => rfl)
        (fun _ _ _ => Interfaces.onClass_methods) m.classes
  | privateFields => exact forall₂_sweep_methods_eq (fun _ _ _ => PrivateFields.onClass_methods) _
  | factoryDocs => exact hsame
  | styleMarker =>
    exact forall₂_sweep (R := fun c d => d.methods = c.methods) (fun _ => rfl)
      (fun _ _ _ => StyleMarker.onClass_methods) m.classes
  | nullMarker =>
    change List.Forall₂ _ _ (NullMarker.run context m).model.classes
    unfold NullMarker.run
    dsimp only
    split
    case h_1 changed tally hmark =>
      rw [NullMarker.markAll_classes hmark]
      exact hsame
    case h_2 => exact hsame
  | _ => exact absurd (by decide) hpass

/-- Whatever a pass adds to a class has a name of its own kind. -/
theorem Pass.run_adds (pass : Pass) (context : PassContext) (m : CodeModel) :
    List.Forall₂ (BeanClass.Adds pass.Names) m.classes (pass.run context m).model.classes := by
  by_cases hpass : pass ∈ addingMethods
  case neg => exact (run_methods_eq context m hpass).imp fun _ _ => .of_methods_eq
  cases pass with
  | localAccessors =>
    exact forall₂_sweep_adds (fun _ _ _ h => (LocalAccessors.onClass_adds h).mono fun _ hname =>
      .inr hname.not_mem) _
  | valueAccessors =>
    exact (ValueAccessors.run_adds context m).imp fun _ _ h =>
      h.mono fun _ hname => .inr hname.not_mem
  | listAccessors =>
    exact forall₂_sweep_adds (fun _ _ _ h => (ListAccessors.onClass_adds h).mono fun _ => .inr) _
  | equality =>
    exact forall₂_sweep_adds (fun _ _ _ h => (Equality.onClass_adds h).mono fun _ => .inl) _
  | description =>
    refine forall₂_sweep_adds (fun _ _ _ h => (Description.onClass_adds h).mono ?_) _
    rintro _ rfl
    exact .inl List.mem_cons_self
  | copying =>
    exact forall₂_sweep_adds (fun _ _ _ h => (Copying.onClass_adds h).mono fun _ => .inl) _
  | _ => simp [addingMethods] at hpass

end BeanSynthesis
