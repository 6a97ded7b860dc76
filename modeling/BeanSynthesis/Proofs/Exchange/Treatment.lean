import BeanSynthesis.Proofs.Exchange.Accessors
import BeanSynthesis.Proofs.Exchange.ObjectMethods
import BeanSynthesis.Proofs.Execution.Objects
import BeanSynthesis.Proofs.Growth.Passes

/-!
# Treatment of portable classes

A portable class stays portable with what the passes for comparing, describing and copying, for
lists and for local views add to it, provided that the pass suits the class. The first three suit a
class only if what they write of its name and of the number of its fields can be exchanged.
-/

namespace BeanSynthesis

open TypeExpr (IsClassName)

variable {settings : Settings} {m : CodeModel} {c after : BeanClass} {tally : Tally}

/-! ## Sweeps and additions -/

/-- What every step of a loop keeps holds after the loop. -/
theorem Step.foldlM_keeps {α β : Type} {P : β → Prop} {f : β → α → Step β} {xs : List α} {b b' : β}
    (hstep : ∀ x ∈ xs, ∀ b b', P b → (f b x).outcome = .ok b' → P b') (hb : P b)
    (h : (xs.foldlM f b).outcome = .ok b') : P b' := by
  induction xs generalizing b with
  | nil =>
    obtain rfl := Except.ok.inj h
    exact hb
  | cons x rest ih =>
    obtain ⟨next, hnext, h⟩ := Step.bind_eq_ok.mp h
    obtain ⟨hfirst, hothers⟩ := List.forall_mem_cons.1 hstep
    exact ih hothers (hfirst b next hb hnext) h

/-- What holds of all classes before a sweep gives what holds after it, whether or not an error
ended the sweep. -/
theorem forall_mem_sweep {P Q : BeanClass → Prop} {f : BeanClass → Step Changed}
    (hsame : ∀ c, P c → Q c)
    (hstep : ∀ c after tally, P c → (f c).outcome = .ok (after, tally) → Q after)
    {classes : List BeanClass} (h : ∀ c ∈ classes, P c) : ∀ d ∈ (sweep f classes).classes, Q d := by
  have hall : List.Forall₂ (fun c d => P c → Q d) classes (sweep f classes).classes :=
    forall₂_sweep hsame (fun c after tally hok hc => hstep c after tally hc hok) classes
  intro d hd
  obtain ⟨c, hc, hcd⟩ := exists_of_forall₂ hall hd
  exact hcd (h c hc)

/-- A sweep that leaves enumerations alone leaves classes portable if its treatment does. -/
theorem portable_sweep {Ready : BeanClass → Prop} {f : BeanClass → Step Changed}
    (hstep : ∀ c after tally, Ready c → c.Portable → (f c).outcome = .ok (after, tally) →
      after.Portable)
    {classes : List BeanClass} (h : ∀ c ∈ classes, c.Portable)
    (hready : ∀ c ∈ classes, c.isEnum = false → Ready c) :
    ∀ d ∈ (sweep (exceptEnums f) classes).classes, d.Portable := by
  refine forall_mem_sweep (P := fun c => c.Portable ∧ (c.isEnum = false → Ready c))
    (fun c hc => hc.1) (fun c after tally hc hok => ?_) fun c hc => ⟨h c hc, hready c hc⟩
  rcases exceptEnums_eq_ok hok with rfl | ⟨hplain, hok⟩
  · exact hc.1
  · exact hstep c after tally (hc.2 (Bool.eq_false_iff.2 hplain)) hc.1 hok

/-- A sweep keeps classes exchangeable if its treatment always does. -/
theorem portable_sweep_of_always {f : BeanClass → Step Changed}
    (hstep : ∀ c after tally, c.Portable → (f c).outcome = .ok (after, tally) → after.Portable)
    {classes : List BeanClass} (h : ∀ c ∈ classes, c.Portable) :
    ∀ d ∈ (sweep (exceptEnums f) classes).classes, d.Portable :=
  have hready : ∀ c ∈ classes, c.isEnum = false → True := fun _ _ _ => trivial
  portable_sweep (fun c after tally _ => hstep c after tally) h hready

namespace BeanClass.Portable

/-- A note does not keep a class from being exchanged. -/
theorem noted (h : after.Portable) (note : String) :
    (Changed.noted (after, tally) note).1.Portable := by
  unfold Changed.noted
  split
  · unfold addNote
    split
    · exact h
    · exact { h with }
  · exact h

/-- A class stays portable with portable methods. Those that it has already are not added. -/
theorem addMethods {ms : List Method} {changed : Changed} (h : c.Portable)
    (hms : ∀ n ∈ ms, c.hasMethod n.name (n.params.map (·.type)) = false → n.Portable)
    (hadd : (c.addMethods ms).outcome = .ok changed) : changed.1.Portable := by
  obtain ⟨methods, tally, hok, added, rfl, hmade, hfresh, -⟩ := addMethods_outcome hms c
  obtain rfl := Except.ok.inj (hok.symm.trans hadd)
  have hadded : ∀ n ∈ added, n.Portable := fun n hn =>
    hmade n hn (hasMethod_eq_false_iff.2 fun old hold => hfresh old hold n hn)
  exact { h with methods := List.forall_mem_append.2 ⟨h.methods, hadded⟩ }

/-- A class that receives methods can still be exchanged, if those that are new can. -/
theorem receives {option : String} {ms : List Method} (h : c.Portable)
    (hms : ∀ n ∈ ms, c.hasMethod n.name (n.params.map (·.type)) = false → n.Portable)
    (hreceives : c.Receives settings option ms after) : after.Portable := by
  obtain ⟨added, tally, tally', hadd, rfl⟩ := hreceives
  have hadded : added.Portable := h.addMethods hms hadd
  exact hadded.noted _

/-- With constructors that can be exchanged a class still can. -/
theorem addConstructors {ks : List Constructor} (h : c.Portable) (hks : ∀ k ∈ ks, k.Portable) :
    (c.addConstructors ks).1.Portable := by
  obtain ⟨constructors, hadd, added, rfl, hmade, -⟩ := addConstructors_fst hks c
  rw [hadd]
  exact { h with constructors := List.forall_mem_append.2 ⟨h.constructors, hmade⟩ }

private theorem instanceFields (h : c.Portable) {fields : List InstanceField}
    (hfields : c.instanceFields.outcome = .ok fields) : ∀ f ∈ fields, f.type.WellFormed :=
  (forall_instanceFields (P := fun _ t => t.WellFormed) hfields).2
    fun f hf _ => (h.fields f hf).type

end BeanClass.Portable

/-! ## Methods of objects -/

/-- Whether what a pass adds to a class with these instance fields is portable. -/
def Pass.Suits (runtime : RuntimeClasses) (m : CodeModel) (c : BeanClass)
    (fields : List InstanceField) : Pass → Prop
  | .equality =>
    (c.hasMethod "equals" [.ofName objectClass] ∨ fields = [] ∨ IsClassName c.name) ∧
      (c.hasMethod "hashCode" [] ∨
        (Block.toJson (Equality.hashCodeBody runtime m fields (m.lineageOf c))).depth ≤ bodyLevels)
  | .description =>
    c.hasMethod "toString" [] ∨ fields.length ≤ Description.maxFields (m.lineageOf c)
  | .copying => IsClassName c.name
  | _ => True

/-- The pass suits a class, whatever its instance fields are. -/
def Pass.SuitsClass (pass : Pass) (runtime : RuntimeClasses) (m : CodeModel) (c : BeanClass) :
    Prop :=
  ∀ fields, c.instanceFields.outcome = .ok fields → pass.Suits runtime m c fields

section ObjectMethods

variable (hsettings : settings.WellNamed)

include hsettings

/-- With `equals` and `hashCode` a class of few fields can still be exchanged. -/
theorem Equality.onClass_portable (hsuits : Pass.equality.SuitsClass settings.runtime m c)
    (hc : c.Portable) (h : (onClass settings m c).outcome = .ok (after, tally)) :
    after.Portable := by
  obtain ⟨fields, hfields, hreceives⟩ := onClass_receives h
  obtain ⟨hequals, hhash⟩ := hsuits fields hfields
  refine hc.receives (fun n hn hnone => ?_) hreceives
  rcases List.mem_pair.mp hn with rfl | rfl
  · have hnone : c.hasMethod "equals" [.ofName objectClass] = false := hnone
    rw [hnone] at hequals
    exact Method.portable_stamp.2
      ((equalsMethod_portable_iff hsettings).2 (hequals.resolve_left Bool.false_ne_true))
  · have hnone : c.hasMethod "hashCode" [] = false := hnone
    rw [hnone] at hhash
    exact Method.portable_stamp.2
      ((hashCodeMethod_portable_iff hsettings).2 (hhash.resolve_left Bool.false_ne_true))

/-- With `toString` a class of few fields can still be exchanged. -/
theorem Description.onClass_portable (hsuits : Pass.description.SuitsClass settings.runtime m c)
    (hc : c.Portable) (h : (onClass settings m c).outcome = .ok (after, tally)) :
    after.Portable := by
  obtain ⟨fields, hfields, ⟨-, rfl⟩ | hreceives⟩ := onClass_receives h
  · exact hc
  · have hsuits : c.hasMethod "toString" [] ∨ fields.length ≤ maxFields (m.lineageOf c) :=
      hsuits fields hfields
    refine hc.receives (fun n hn hnone => ?_) hreceives
    obtain rfl := List.mem_singleton.mp hn
    have hnone : c.hasMethod "toString" [] = false := hnone
    rw [hnone] at hsuits
    exact Method.portable_stamp.2
      ((toStringMethod_portable_iff hsettings).2 (hsuits.resolve_left Bool.false_ne_true))

private theorem Copying.withInterface_portable (hc : c.Portable) (lineage : Lineage) :
    (withInterface (.ofName settings.runtime.cloneableInterface) lineage c).Portable := by
  unfold withInterface
  split
  · have hinterface : IsClassName settings.runtime.cloneableInterface :=
      hsettings.runtime _ (by simp [RuntimeClasses.names])
    exact { hc with
      interfaces := List.forall_mem_append.2 ⟨hc.interfaces,
        List.forall_mem_singleton.2 (ClassRef.wellFormed_ofName.2 hinterface)⟩ }
  · exact hc

/-- With the methods of cloning a class whose fields are called properly can still be exchanged. -/
theorem Copying.onClass_portable (hsuits : Pass.copying.SuitsClass settings.runtime m c)
    (hc : c.Portable) (h : (onClass settings m c).outcome = .ok (after, tally)) :
    after.Portable := by
  obtain ⟨fields, hfields, hreceives⟩ := onClass_receives h
  have hname : IsClassName c.name := hsuits fields hfields
  refine (withInterface_portable hsettings hc _).receives (fun n hn _ => ?_) hreceives
  rcases List.mem_pair.mp hn with rfl | rfl
  · exact Method.portable_stamp.2
      ((cloneToMethod_portable_iff hsettings (hc.instanceFields hfields)).2 hname)
  · exact Method.portable_stamp.2 ((cloneMethod_portable_iff hsettings).2 hname)

end ObjectMethods

/-! ## Accessors -/

section Accessors

variable (hsettings : settings.WellNamed)

include hsettings

/-- With the accessors of its fields a class can still be exchanged. -/
theorem LocalAccessors.onClass_portable (hc : c.Portable)
    (h : (onClass settings c).outcome = .ok (after, tally)) : after.Portable := by
  obtain ⟨fields, hfields, hreceives⟩ := onClass_receives h
  refine hc.receives (fun n hn _ => ?_) hreceives
  obtain ⟨made, hmade, rfl⟩ := List.mem_map.mp hn
  obtain ⟨f, hf, hmade⟩ := List.mem_flatMap.mp hmade
  exact Method.portable_stamp.2
    (fieldMethods_portable hsettings (hc.instanceFields hfields f hf) made hmade)

namespace ListAccessors

private theorem planGetter_portable {plan plan' : Plan} {g : ListGetter} (hg : g.element.WellFormed)
    (hplan : ∀ n ∈ plan.methods, n.Portable)
    (h : (planGetter settings c plan g).outcome = .ok plan') : ∀ n ∈ plan'.methods, n.Portable := by
  have hqueued : ∀ n ∈ plan.methods ++ [g.hasEntries, g.hasNoEntries], n.Portable := by
    simp only [List.forall_mem_append, List.forall_mem_cons]
    exact ⟨hplan, hasEntries_portable, hasNoEntries_portable, List.forall_mem_nil _⟩
  have hothers : ∀ n ∈ [g.atIndex settings, g.add settings], n.Portable := by
    simp only [List.forall_mem_cons]
    exact ⟨atIndex_portable hsettings hg, add_portable hsettings hg, List.forall_mem_nil _⟩
  unfold planGetter at h
  dsimp only at h
  split at h
  case h_1 name _ =>
    obtain rfl := Except.ok.inj h
    exact List.forall_mem_append.2 ⟨List.forall_mem_append.2
      ⟨hqueued, List.forall_mem_singleton.2 (count_portable hsettings name)⟩, hothers⟩
  case h_2 =>
    obtain ⟨-, -, h⟩ := Step.bind_eq_ok.mp h
    obtain rfl := Except.ok.inj h
    exact List.forall_mem_append.2 ⟨hqueued, hothers⟩

/-- With the companions of its list getters a class can still be exchanged. -/
theorem onClass_portable (hc : c.Portable)
    (h : (onClass settings c).outcome = .ok (after, tally)) : after.Portable := by
  obtain ⟨fields, plan, hfields, hplan, hreceives⟩ := onClass_receives h
  have hsetters : ∀ n ∈ (fields.filter (·.type.isErasure "List")).map (setter settings),
      n.Portable := by
    intro n hn
    obtain ⟨f, hf, rfl⟩ := List.mem_map.mp hn
    exact setter_portable hsettings (hc.instanceFields hfields f (List.mem_of_mem_filter hf))
  have hgetters : ∀ g ∈ c.methods.filterMap listGetter?, g.element.WellFormed := by
    intro g hg
    obtain ⟨n, hn, hgetter⟩ := List.mem_filterMap.mp hg
    exact element_wellFormed (hc.methods n hn) hgetter
  have hplanned : ∀ n ∈ plan.methods, n.Portable := Step.foldlM_keeps
    (P := fun plan : Plan => ∀ n ∈ plan.methods, n.Portable)
    (fun g hg plan plan' hplan => planGetter_portable hsettings (hgetters g hg) hplan)
    hsetters hplan
  refine hc.receives (fun n hn _ => ?_) hreceives
  obtain ⟨made, hmade, rfl⟩ := List.mem_map.mp hn
  exact Method.portable_stamp.2 (hplanned made hmade)

end ListAccessors

end Accessors

end BeanSynthesis
