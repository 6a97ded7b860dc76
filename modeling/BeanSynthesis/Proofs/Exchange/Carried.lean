import BeanSynthesis.Proofs.Exchange.Treatment
import BeanSynthesis.Proofs.Inheritance

/-!
# Carried values in portable models

The types that classes carry are those of fields, declared or external, so in a portable model they
are well-formed. What is added for access to them is portable.
-/

namespace BeanSynthesis

variable {settings : Settings} {m : CodeModel} {c after : BeanClass} {tally : Tally}

/-! ## What classes carry -/

/-- All values under names are well-formed types. -/
def Dict.WellFormed (types : Dict TypeExpr) : Prop :=
  ∀ name t, types.get? name = some t → t.WellFormed

namespace Dict.WellFormed

variable {types : Dict TypeExpr}

private theorem empty : Dict.WellFormed ∅ := by
  rintro name t ⟨⟩

private theorem insert (h : types.WellFormed) (name : String) {type : TypeExpr}
    (htype : type.WellFormed) :
    (types.insert name type).WellFormed := by
  intro other t ht
  rw [Dict.get?_insert] at ht
  split at ht
  · obtain rfl := Option.some.inj ht
    exact htype
  · exact h other t ht

end Dict.WellFormed

namespace Carriers

private theorem scan_wellFormed {carriers found : Carriers} {name : String} (hm : m.Portable)
    (hcarriers : carriers.types.WellFormed) (h : (scan m carriers name).outcome = .ok found) :
    found.types.WellFormed := by
  unfold scan at h
  dsimp only at h
  split at h
  case h_1 c hc =>
    split at h
    case h_1 f hf =>
      obtain rfl := Except.ok.inj h
      have hfield := (hm.classes c (CodeModel.mem_of_class? hc)).fields f
        (List.mem_of_find?_eq_some hf)
      exact hcarriers.insert name hfield.type
    case h_2 =>
      obtain rfl := Except.ok.inj h
      exact hcarriers
  case h_2 =>
    split at h
    case h_1 external hexternal =>
      have hmem : (name, external) ∈ m.external.entries :=
        (Dict.find?_eq_some_iff_mem m.external.increasing).1 hexternal
      have hfields : external.Exchangeable := hm.external (name, external) hmem
      split at h
      case h_1 type htype =>
        obtain ⟨-, -, h⟩ := Step.bind_eq_ok.mp h
        obtain rfl := Except.ok.inj h
        have hmem := (Dict.find?_eq_some_iff_mem external.fields.increasing).1 htype
        exact hcarriers.insert name (hfields (valueField, type) hmem)
      case h_2 =>
        obtain rfl := Except.ok.inj h
        exact hcarriers
    case h_2 =>
      obtain ⟨-, -, h⟩ := Step.bind_eq_ok.mp h
      obtain rfl := Except.ok.inj h
      exact hcarriers

private theorem withCoreComponents_wellFormed {types : Dict TypeExpr} (h : types.WellFormed) :
    (withCoreComponents types).WellFormed := by
  have hcore : ∀ component ∈ coreComponents, component.2.WellFormed := by
    simp only [coreComponents, List.forall_mem_cons, TypeExpr.wellFormed_ofName]
    exact ⟨by decide, ⟨rfl, trivial⟩, by decide, by decide, by decide, by decide, by decide,
      by decide, by decide, List.forall_mem_nil _⟩
  unfold withCoreComponents
  generalize coreComponents = components at hcore
  induction components generalizing types with
  | nil => exact h
  | cons component rest ih =>
    obtain ⟨hfirst, hothers⟩ := List.forall_mem_cons.1 hcore
    rw [List.foldl_cons]
    refine ih ?_ hothers
    dsimp only
    split
    · exact h
    · exact h.insert _ hfirst

private theorem types_of_ofModel {found : Carriers} (h : (ofModel m).outcome = .ok found) :
    ∃ scanned, (m.classes.foldlM (scanAncestors m) {}).outcome = .ok scanned ∧
      found.types = withCoreComponents scanned.types := by
  obtain ⟨scanned, hscanned, h⟩ := Step.bind_eq_ok.mp h
  rw [Step.outcome_pure, Except.ok.injEq] at h
  exact ⟨scanned, hscanned, by rw [← h]⟩

/-- The types that a scan of a portable model finds are well-formed. -/
theorem ofModel_wellFormed {found : Carriers} (hm : m.Portable)
    (h : (ofModel m).outcome = .ok found) : found.types.WellFormed := by
  obtain ⟨scanned, hscanned, htypes⟩ := types_of_ofModel h
  have hancestors : ∀ (c : BeanClass) (carriers next : Carriers), carriers.types.WellFormed →
      (scanAncestors m carriers c).outcome = .ok next → next.types.WellFormed :=
    fun c carriers next hcarriers hnext =>
      Step.foldlM_keeps (P := fun carriers : Carriers => carriers.types.WellFormed)
        (fun name _ carriers next hcarriers hnext => scan_wellFormed hm hcarriers hnext)
        hcarriers hnext
  have hscan : scanned.types.WellFormed :=
    Step.foldlM_keeps (P := fun carriers : Carriers => carriers.types.WellFormed)
      (fun c _ => hancestors c) Dict.WellFormed.empty hscanned
  rw [htypes]
  exact withCoreComponents_wellFormed hscan

private theorem valueType?_wellFormed {found : Carriers} {type : TypeExpr}
    (hfound : found.types.WellFormed) (hc : c.Portable) (h : valueType? m found c = some type) :
    type.WellFormed := by
  unfold valueType? at h
  split at h
  case h_1 f hf =>
    obtain rfl := Option.some.inj h
    exact (hc.fields f (List.mem_of_find?_eq_some hf)).type
  case h_2 =>
    obtain ⟨name, -, hname⟩ := List.exists_of_findSome?_eq_some h
    exact hfound name type hname

end Carriers

/-! ## Access to carried values -/

namespace ValueAccessors

variable {carriers : Dict TypeExpr} {withLocal : Bool} {valueType? : BeanClass → Option TypeExpr}

private theorem carriedTypes_wellFormed {classes : List BeanClass}
    (h : ∀ c ∈ classes, ∀ type, valueType? c = some type → type.WellFormed) :
    (carriedTypes valueType? classes).WellFormed := by
  unfold carriedTypes
  generalize hnone : (∅ : Dict TypeExpr) = types
  have htypes : types.WellFormed := hnone ▸ Dict.WellFormed.empty
  clear hnone
  induction classes generalizing types with
  | nil => exact htypes
  | cons c rest ih =>
    obtain ⟨hfirst, hothers⟩ := List.forall_mem_cons.1 h
    rw [List.foldl_cons]
    refine ih hothers _ ?_
    split
    · exact htypes
    · split
      case h_1 type htype => exact htypes.insert c.name (hfirst type htype)
      case h_2 => exact htypes

private theorem carried?_wellFormed {t type : TypeExpr} (hcarriers : carriers.WellFormed)
    (h : carried? carriers t = some type) : type.WellFormed := by
  cases t with
  | named name args => exact hcarriers name type h
  | _ => cases h

private theorem addDefaultConstructor_portable (hc : c.Portable)
    (h : (addDefaultConstructor settings c).outcome = .ok (after, tally)) : after.Portable := by
  obtain rfl | ⟨-, counted, rfl⟩ := addDefaultConstructor_cases h
  · exact hc
  · have hadded : ({ c with
        constructors := c.constructors ++ [defaultConstructor settings] } : BeanClass).Portable :=
      { hc with
        constructors := List.forall_mem_append.2 ⟨hc.constructors,
          List.forall_mem_singleton.2 defaultConstructor_portable⟩ }
    exact hadded.noted _

variable (hsettings : settings.WellNamed)

include hsettings

private theorem addValueConstructors_portable (hc : c.Portable)
    (hvalue : ∀ type, valueType? c = some type → type.WellFormed)
    (h : (addValueConstructors settings withLocal valueType? c).outcome = .ok (after, tally)) :
    after.Portable := by
  obtain rfl | ⟨type, htype, rfl⟩ := addValueConstructors_cases h
  · exact hc
  · refine BeanClass.Portable.noted (hc.addConstructors fun k hk => ?_) _
    obtain ⟨t, ht, rfl⟩ := List.mem_map.mp hk
    exact valueConstructor_portable hsettings
      (withCompanion_wellFormed withLocal (hvalue type htype) t ht)

private theorem addSetters_portable (hcarriers : carriers.WellFormed) (hc : c.Portable)
    (h : (addSetters settings carriers withLocal c).outcome = .ok (after, tally)) :
    after.Portable := by
  refine hc.receives (fun x hx _ => ?_) (addSetters_receives h)
  obtain ⟨n, hn, hx⟩ := List.mem_flatMap.mp hx
  obtain ⟨param, property, type, hparams, -, htype, t, ht, rfl⟩ := exists_of_mem_settersFor hx
  have hparam := ((hc.methods n hn).params param (hparams ▸ List.mem_singleton_self param)).type
  exact valueSetter_portable hsettings _ _ hparam
    (withCompanion_wellFormed withLocal (carried?_wellFormed hcarriers htype) t ht)

private theorem addGetters_portable (hcarriers : carriers.WellFormed) (hc : c.Portable)
    (h : (addGetters settings carriers withLocal c).outcome = .ok (after, tally)) :
    after.Portable := by
  refine hc.receives (fun x hx _ => ?_) (addGetters_receives h)
  obtain ⟨n, hn, hget⟩ := exists_of_mem_untaken hx
  have hcarrier := (hc.methods n hn).returnType
  obtain ⟨property, type, htype, ⟨read, rfl⟩ | ⟨companion, hcompanion, rfl⟩⟩ :=
    exists_of_mem_gettersFor hget
  · exact valueGetter_portable hsettings _ _ _ hcarrier (carried?_wellFormed hcarriers htype)
  · exact valueGetter_portable hsettings _ _ _ hcarrier
      (LocalCompanion.type_wellFormed hcompanion)

end ValueAccessors

/-- With accessors for values a model can still be exchanged. -/
theorem ValueAccessors.run_portable {context : PassContext} (hsettings : context.settings.WellNamed)
    (hm : m.Portable) : (run context m).model.Portable := by
  have hfirst : ∀ c ∈ (sweep (exceptEnums (addDefaultConstructor context.settings))
      m.classes).classes, c.Portable :=
    portable_sweep_of_always (fun _ _ _ => addDefaultConstructor_portable) hm.classes
  unfold run
  dsimp only
  split
  · exact { hm with classes := hfirst }
  case h_2 found hfound =>
    have hm' : CodeModel.Portable { m with classes := (sweep
        (exceptEnums (addDefaultConstructor context.settings)) m.classes).classes } :=
      { hm with classes := hfirst }
    have htypes := Carriers.ofModel_wellFormed hm' hfound
    refine { hm with
      classes := portable_sweep_of_always ?_ (portable_sweep_of_always ?_
        (portable_sweep_of_always ?_ hfirst)) }
    · exact fun c after tally => addGetters_portable hsettings (carriedTypes_wellFormed
        fun d hd type => Carriers.valueType?_wellFormed htypes (hfirst d hd))
    · exact fun c after tally => addSetters_portable hsettings (carriedTypes_wellFormed
        fun d hd type => Carriers.valueType?_wellFormed htypes (hfirst d hd))
    · exact fun c after tally hc => addValueConstructors_portable hsettings hc
        fun type => Carriers.valueType?_wellFormed htypes hc

end BeanSynthesis
