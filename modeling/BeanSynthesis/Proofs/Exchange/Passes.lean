import BeanSynthesis.Proofs.Exchange.Carried
import BeanSynthesis.Proofs.Exchange.Constraints
import BeanSynthesis.Proofs.Growth.Passes

/-!
# Passes over portable models

A pass leaves a portable model portable, also when an error ends it, if it suits the classes.
-/

namespace BeanSynthesis

variable {settings : Settings} {m : CodeModel} {c after : BeanClass} {tally : Tally}

/-! ## Passes that add no members -/

/-- A field whose visibility alone may have changed can still be exchanged. -/
theorem Field.Published.exchangeable {f g : Field} (h : f.Published g) (hf : f.Exchangeable) :
    g.Exchangeable := by
  rw [h]
  exact ⟨hf.type, hf.annotations⟩

private theorem Interfaces.run_portable {context : PassContext}
    (hsettings : context.settings.WellNamed)
    (hm : m.Portable) : (run context m).model.Portable := by
  unfold run
  dsimp only
  split
  · exact hm
  · refine { hm with
      classes := forall_mem_sweep (fun _ hc => hc) (fun c after tally hc h => ?_) hm.classes }
    obtain ⟨added, hsome, rfl⟩ := onClass_interfaces h
    have hadded : ∀ i ∈ added.map ClassRef.ofName, i.WellFormed := by
      intro i hi
      obtain ⟨name, hname, rfl⟩ := List.mem_map.mp hi
      exact ClassRef.wellFormed_ofName.2 (hsettings.interfaces name (hsome hname))
    exact { hc with interfaces := List.forall_mem_append.2 ⟨hc.interfaces, hadded⟩ }

private theorem PrivateFields.onClass_portable (hc : c.Portable)
    (h : (onClass c).outcome = .ok (after, tally)) : after.Portable := by
  obtain ⟨fields, hpublished, rfl⟩ := onClass_fields h
  have hfields : ∀ g ∈ fields, g.Exchangeable := fun g hg => by
    obtain ⟨f, hf, hfg⟩ := exists_of_forall₂ hpublished hg
    exact hfg.exchangeable (hc.fields f hf)
  exact { hc with fields := hfields }

private theorem StyleMarker.onClass_portable {marker : String}
    (hmarker : TypeExpr.IsClassName marker)
    (hc : c.Portable) (h : (onClass marker c).outcome = .ok (after, tally)) : after.Portable := by
  obtain ⟨added, hsome, rfl⟩ := onClass_outcome h
  have hadded : ∀ a ∈ added, a.Exchangeable := fun a ha => exchangeable_marks hmarker a (hsome ha)
  exact { hc with annotations := List.forall_mem_append.2 ⟨hc.annotations, hadded⟩ }

/-! ## Object factories and packages -/

/-- Documentation and final parameters make no difference to whether a method is portable. -/
theorem Method.Documented.portable {m n : Method} (h : m.Documented n) (hm : m.Portable) :
    n.Portable := by
  have hparams : ∀ p ∈ n.params, p.Exchangeable := by
    rcases h.params with hsame | ⟨p, rest, hold, hnew⟩
    · rw [hsame]
      exact hm.params
    · have hp := hm.params
      rw [hold, List.forall_mem_cons] at hp
      rw [hnew, List.forall_mem_cons]
      exact ⟨⟨hp.1.type, hp.1.annotations⟩, hp.2⟩
  rw [h.rest]
  exact { hm with params := hparams }

private theorem FactoryDocs.run_portable (context : PassContext) (hm : m.Portable) :
    (run context m).model.Portable := by
  refine { hm with
    objectFactories := forall_mem_sweep (fun _ hc => hc) (fun c after tally hc h => ?_)
      hm.objectFactories }
  obtain ⟨documented, hdocument, h⟩ := Step.bind_eq_ok.mp h
  obtain rfl := congrArg Prod.fst (Except.ok.inj h)
  exact { hc with
    fields := fun g hg => by
      obtain ⟨f, hf, hfg⟩ := exists_of_forall₂ (publishNames_published c.fields) hg
      exact hfg.exchangeable (hc.fields f hf)
    methods := fun n hn => by
      obtain ⟨old, hold, hdoc⟩ := exists_of_forall₂ (documentMethods_documented hdocument) hn
      exact hdoc.portable (hc.methods old hold) }

namespace NullMarker

variable (hsettings : settings.WellNamed)

include hsettings

private theorem mark_exchangeable {p : Package} (hp : p.Exchangeable) :
    (mark settings p).Exchangeable :=
  List.forall_mem_append.2 ⟨hp, hsettings.marks (by simp [RuntimeClasses.names])⟩

private theorem updatePackage_portable (hm : m.Portable) (name : String) :
    (m.updatePackage name (mark settings)).Portable := by
  have hgo : ∀ packages : List Package, (∀ p ∈ packages, p.Exchangeable) →
      ∀ p ∈ CodeModel.updatePackage.go name (mark settings) packages, p.Exchangeable := by
    intro packages hpackages
    induction packages with
    | nil => exact hpackages
    | cons p rest ih =>
      obtain ⟨hp, hothers⟩ := List.forall_mem_cons.1 hpackages
      unfold CodeModel.updatePackage.go
      split
      · exact List.forall_mem_cons.2 ⟨mark_exchangeable hsettings hp, hothers⟩
      · exact List.forall_mem_cons.2 ⟨hp, ih hothers⟩
  unfold CodeModel.updatePackage
  split
  · exact { hm with packages := hgo m.packages hm.packages }
  · exact { hm with
      packages := List.forall_mem_append.2 ⟨hm.packages, List.forall_mem_singleton.2
        (mark_exchangeable hsettings (List.forall_mem_nil _))⟩ }

private theorem markAll_portable {names : List String} {m' : CodeModel} (hm : m.Portable)
    (h : (markAll settings m names).outcome = .ok (m', tally)) : m'.Portable :=
  markAll_keeps (P := CodeModel.Portable)
    (fun _ name hn => updatePackage_portable hsettings hn name) hm h

end NullMarker

/-! ## All passes -/

/-- A pass leaves a portable model portable if it suits all classes that are no enumerations. -/
theorem Pass.run_portable (pass : Pass) {context : PassContext}
    (hsettings : context.settings.WellNamed) (hm : m.Portable)
    (hsuits : ∀ c ∈ m.classes, c.isEnum = false →
      pass.SuitsClass context.settings.runtime m c) : (pass.run context m).model.Portable := by
  cases pass with
  | localAccessors =>
    exact { hm with
      classes := portable_sweep_of_always
        (fun _ _ _ => LocalAccessors.onClass_portable hsettings) hm.classes }
  | valueAccessors => exact ValueAccessors.run_portable hsettings hm
  | listAccessors =>
    exact { hm with
      classes := portable_sweep_of_always
        (fun _ _ _ => ListAccessors.onClass_portable hsettings) hm.classes }
  | equality =>
    exact { hm with
      classes := portable_sweep
        (fun _ _ _ => Equality.onClass_portable hsettings) hm.classes hsuits }
  | description =>
    exact { hm with
      classes := portable_sweep
        (fun _ _ _ => Description.onClass_portable hsettings) hm.classes hsuits }
  | copying =>
    exact { hm with
      classes := portable_sweep
        (fun _ _ _ => Copying.onClass_portable hsettings) hm.classes hsuits }
  | constraints dialect =>
    exact { hm with
      classes := portable_sweep_of_always
        (fun _ _ _ => Constraints.onClass_portable hsettings) hm.classes }
  | interfaces => exact Interfaces.run_portable hsettings hm
  | privateFields =>
    exact { hm with
      classes := portable_sweep_of_always
        (fun _ _ _ => PrivateFields.onClass_portable) hm.classes }
  | factoryDocs => exact FactoryDocs.run_portable context hm
  | styleMarker =>
    have hmarker : TypeExpr.IsClassName context.settings.runtime.codingStyleguideUnaware :=
      hsettings.runtime _ (by simp [RuntimeClasses.names])
    exact { hm with
      classes := forall_mem_sweep (fun _ hc => hc)
        (fun _ _ _ => StyleMarker.onClass_portable hmarker) hm.classes
      objectFactories := forall_mem_sweep (fun _ hc => hc)
        (fun _ _ _ => StyleMarker.onClass_portable hmarker) hm.objectFactories }
  | nullMarker =>
    change (NullMarker.run context m).model.Portable
    unfold NullMarker.run
    dsimp only
    split
    case h_1 changed tally hmark => exact NullMarker.markAll_portable hsettings hm hmark
    case h_2 => exact hm

end BeanSynthesis
