import BeanSynthesis.Proofs.Edits.Offers
import BeanSynthesis.Proofs.Growth.Runs

/-!
# What a run adds

Every member that a run adds to a class was offered to it by one of the passes. The offer was made
to the class as it was then, which had grown from the class before the run, and with what was added
the model grew on until the end. So what holds of all such offers holds of all that the run adds.
-/

namespace BeanSynthesis

variable {context : PassContext} {options : List String} {m before now after : CodeModel}
  {b c d e : BeanClass} {pass : Pass}

/-- A class has received members, and they have these properties. -/
structure BeanClass.Gains (K : Constructor → Prop) (M : Method → Prop) (c d : BeanClass) :
    Prop where
  constructors : ∃ added, d.constructors = c.constructors ++ added ∧ ∀ k ∈ added, K k
  methods : ∃ added, d.methods = c.methods ++ added ∧ ∀ x ∈ added, M x

namespace BeanClass.Gains

variable {K : Constructor → Prop} {M : Method → Prop}

/-- A class may gain nothing. -/
@[refl] theorem refl (c : BeanClass) : c.Gains K M c :=
  ⟨⟨[], by simp⟩, [], by simp⟩

/-- What is gained has the properties that follow from those it has. -/
theorem imp {K' : Constructor → Prop} {M' : Method → Prop} (h : c.Gains K M d)
    (hK : ∀ k, K k → K' k) (hM : ∀ x, M x → M' x) : c.Gains K' M' d := by
  obtain ⟨⟨ks, hks, hks'⟩, xs, hxs, hxs'⟩ := h
  exact ⟨⟨ks, hks, fun k hk => hK k (hks' k hk)⟩, xs, hxs, fun x hx => hM x (hxs' x hx)⟩

/-- What is gained twice is gained. -/
theorem trans (hbc : b.Gains K M c) (hcd : c.Gains K M d) : b.Gains K M d := by
  obtain ⟨⟨ks, hks, hK⟩, xs, hxs, hM⟩ := hbc
  obtain ⟨⟨ks', hks', hK'⟩, xs', hxs', hM'⟩ := hcd
  constructor
  · exact ⟨ks ++ ks', by rw [hks', hks, List.append_assoc], List.forall_mem_append.mpr ⟨hK, hK'⟩⟩
  · exact ⟨xs ++ xs', by rw [hxs', hxs, List.append_assoc], List.forall_mem_append.mpr ⟨hM, hM'⟩⟩

/-- An edit adds what it offers. -/
theorem of_edit {e : ClassEdit} (hK : ∀ k ∈ e.constructors, K k) (hM : ∀ x ∈ e.methods, M x) :
    c.Gains K M (e.apply c) :=
  ⟨⟨_, ClassEdit.apply_constructors e c, fun k hk => hK k (mem_of_mem_newcomers hk)⟩,
    _, ClassEdit.apply_methods e c, fun x hx => hM x (mem_of_mem_newcomers hx)⟩

end BeanClass.Gains

/-- A pass of a run makes its offer to a class that is no enumeration. -/
structure Pass.Offers (pass : Pass) (context : PassContext) (options : List String)
    (before now after : CodeModel) (c e : BeanClass) : Prop where
  grown : before.Grows context.settings options now
  grows : (pass.edited context now).Grows context.settings options after
  declared : c ∈ before.classes
  mem : e ∈ now.classes
  grownClass : c.Grows context.settings options e
  plain : ¬e.isEnum

/-- A pass makes its offer to a class that is no enumeration, and no member to any other. -/
theorem Pass.editOf_eq_offer_or (pass : Pass) (context : PassContext) (m : CodeModel)
    (c : BeanClass) : ¬c.isEnum ∧ pass.editOf context m c = pass.offer context m c ∨
      (pass.editOf context m c).constructors = [] ∧ (pass.editOf context m c).methods = [] := by
  by_cases henum : c.isEnum
  · right
    cases pass <;> simp [editOf, henum, treatsEnums, offer]
  · left
    simp [editOf, henum]

namespace EngineRun

variable {passes : List Pass} {report₀ report : RunReport} {K : BeanClass → Constructor → Prop}
  {M : BeanClass → Method → Prop}

/-- What holds of all offers of the passes that are left holds of all that they add. -/
theorem runPasses_gains (hoptions : ∀ pass ∈ passes, pass.option ∈ options)
    (hoffers : ∀ pass ∈ passes, ∀ now c e, pass.Offers context options before now after c e →
      (∀ k ∈ (pass.offer context now e).constructors, K c k) ∧
        ∀ x ∈ (pass.offer context now e).methods, M c x)
    (hrun : (runPasses context now report₀ passes).outcome = .ok report)
    (hafter : (runPasses context now report₀ passes).model = after)
    (hgrown : before.Grows context.settings options now) :
    List.Forall₂ (fun e d => ∀ c ∈ before.classes, c.Grows context.settings options e →
      e.Gains (K c) (M c) d) now.classes after.classes := by
  induction passes generalizing now report₀ with
  | nil =>
    obtain rfl : now = after := hafter
    exact forall₂_refl_of (R := fun e d => ∀ c ∈ before.classes,
      c.Grows context.settings options e → e.Gains (K c) (M c) d) (fun e _ _ _ => .refl e) _
  | cons pass rest ih =>
    obtain ⟨hoption, hoptions'⟩ := List.forall_mem_cons.mp hoptions
    obtain ⟨hoffer, hoffers'⟩ := List.forall_mem_cons.mp hoffers
    obtain ⟨passReport, report₁, hpass, hrest, hmodel⟩ := runPasses_cons hrun
    have hedited : (pass.run context now).model = pass.edited context now :=
      (Pass.run_performed hpass).model
    have hstep : ∀ {c d : BeanClass}, c.Grows context.settings [pass.option] d →
        c.Grows context.settings options d :=
      fun h => h.mono fun o ho => List.mem_singleton.mp ho ▸ hoption
    rw [hmodel, hedited] at hafter
    rw [hedited] at hrest
    have hgrows : (pass.edited context now).Grows context.settings options after := by
      rw [← hafter]
      refine (runPasses_grows context rest _ report₁).mono fun o ho => ?_
      obtain ⟨other, hother, rfl⟩ := List.mem_map.mp ho
      exact hoptions' other hother
    have hgrown' : before.Grows context.settings options (pass.edited context now) :=
      hgrown.trans ((Pass.grows_edited hpass).mono fun o ho => List.mem_singleton.mp ho ▸ hoption)
    have hlater := ih hoptions' hoffers' hrest hafter hgrown'
    rw [Pass.edited, List.forall₂_map_left_iff] at hlater
    refine ((List.forall₂_and_left _ _).mpr ⟨fun e he => he, hlater⟩).imp ?_
    rintro e d ⟨he, hed⟩ c hc hce
    refine .trans ?_ (hed c hc (hce.trans (hstep (Pass.grows_editOf hpass he))))
    rcases pass.editOf_eq_offer_or context now e with ⟨hplain, heq⟩ | ⟨hks, hxs⟩
    · obtain ⟨hK, hM⟩ := hoffer now c e
        { grown := hgrown, grows := hgrows, declared := hc, mem := he, grownClass := hce,
          plain := hplain }
      rw [heq]
      exact .of_edit hK hM
    · exact .of_edit (by simp [hks]) (by simp [hxs])

end EngineRun

/-- Two relations along the same lists hold together along them. -/
theorem forall₂_both {α β : Type} {R S : α → β → Prop} {xs : List α} {ys : List β}
    (h : List.Forall₂ R xs ys) (h' : List.Forall₂ S xs ys) :
    List.Forall₂ (fun x y => R x y ∧ S x y) xs ys := by
  induction h with
  | nil => exact .nil
  | cons hxy _ ih =>
    cases h' with
    | cons hxy' hrest => exact .cons ⟨hxy, hxy'⟩ (ih hrest)

/-- What holds of all offers of the selected passes holds of all that a successful run adds. -/
theorem synthesize_gains {settings : Settings} {selected : List String} {passes : List Pass}
    {report : RunReport} {K : BeanClass → Constructor → Prop} {M : BeanClass → Method → Prop}
    (hplan : m.plan selected = .ok passes)
    (hok : (synthesize settings m selected).outcome = .ok report)
    (hoffers : ∀ pass ∈ passes, ∀ now c e,
      pass.Offers { settings, active := passes.map Pass.option } (passes.map Pass.option) m now
          (synthesize settings m selected).model c e →
        (∀ k ∈ (pass.offer { settings, active := passes.map Pass.option } now e).constructors,
          K c k) ∧
          ∀ x ∈ (pass.offer { settings, active := passes.map Pass.option } now e).methods, M c x) :
    List.Forall₂ (fun c d => c.Grows settings (passes.map Pass.option) d ∧ c.Gains (K c) (M c) d)
      m.classes (synthesize settings m selected).model.classes := by
  rw [synthesize_outcome hplan] at hok
  have hmodel : (synthesize settings m selected).model = _ := synthesize_model hplan
  have hgrows :=
    EngineRun.runPasses_grows { settings, active := passes.map Pass.option } passes m {}
  rw [← hmodel] at hgrows
  have hgains := EngineRun.runPasses_gains (fun _ => List.mem_map_of_mem) hoffers hok
    hmodel.symm (.refl m)
  refine forall₂_both hgrows.classes
    (((List.forall₂_and_left _ _).mpr ⟨fun c hc => hc, hgains⟩).imp ?_)
  rintro c d ⟨hc, hcd⟩
  exact hcd c hc (.refl c)

end BeanSynthesis
