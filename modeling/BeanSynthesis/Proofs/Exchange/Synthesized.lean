import BeanSynthesis.Proofs.Copying.Made
import BeanSynthesis.Proofs.Equality.Made
import BeanSynthesis.Proofs.Exchange.Passes
import BeanSynthesis.Proofs.Problems
import BeanSynthesis.Proofs.Validation

/-!
# Exchange of synthesized models

A model that was read from a text can be written and read again after a run, if and only if the
passes of the run suit its classes. Runs with passes for comparing, describing and copying can give
it methods that no reader accepts or that are read as different ones.
-/

namespace BeanSynthesis

open TypeExpr (IsClassName)

variable {settings : Settings} {options : List String} {runtime : RuntimeClasses}
  {m n : CodeModel} {c d : BeanClass} {pass other : Pass} {context : PassContext}
  {fields : List InstanceField} {ms : List Method} {tally : Tally}

/-! ## Suitability and growth -/

private theorem Equality.hashCodeBody_eq_of_grows (h : m.Grows settings options n)
    (hcd : c.Grows settings options d) :
    hashCodeBody runtime n fields (n.lineageOf d) =
      hashCodeBody runtime m fields (m.lineageOf c) :=
  Option.some.inj (congrArg Method.body (hashCodeMethod_eq_of_grows h hcd runtime fields))

/-- A pass that suits a class suits others of the same name, lineage and hash code that have at
least the methods of it that the pass makes. -/
theorem Pass.Suits.of_hasMethod (hname : d.name = c.name) (hlineage : n.lineageOf d = m.lineageOf c)
    (hbody : Equality.hashCodeBody runtime n fields (n.lineageOf d) =
      Equality.hashCodeBody runtime m fields (m.lineageOf c))
    (hmethods : ∀ name ∈ pass.owned, ∀ signature, c.hasMethod name signature →
      d.hasMethod name signature)
    (h : pass.Suits runtime m c fields) : pass.Suits runtime n d fields := by
  cases pass with
  | equality =>
    obtain ⟨hequals, hhash⟩ := h
    constructor
    · rw [hname]
      exact hequals.imp_left (hmethods _ List.mem_cons_self _)
    · rw [hbody]
      exact hhash.imp_left (hmethods _ (.tail _ List.mem_cons_self) _)
  | description =>
    have hsuits : c.hasMethod "toString" [] ∨
        fields.length ≤ Description.maxFields (m.lineageOf c) := h
    rw [← hlineage] at hsuits
    exact hsuits.imp_left (hmethods _ List.mem_cons_self _)
  | copying =>
    have hsuits : IsClassName c.name := h
    rw [← hname] at hsuits
    exact hsuits
  | _ => trivial

/-- A pass that suits a class suits it when it has grown. -/
theorem Pass.SuitsClass.of_grows (h : m.Grows settings options n)
    (hcd : c.Grows settings options d) (hsuits : pass.SuitsClass runtime m c) :
    pass.SuitsClass runtime n d := fun fields hfields =>
  .of_hasMethod hcd.name (h.lineageOf_eq hcd) (Equality.hashCodeBody_eq_of_grows h hcd)
    (fun _ _ _ => hcd.hasMethod) (hsuits fields (hcd.instanceFields_eq.symm.trans hfields))

/-- What other passes do to a class does not make a pass suit it. -/
theorem Pass.SuitsClass.of_treats (hne : other ≠ pass) (h : other.Treats context m c d)
    (hsuits : pass.SuitsClass runtime (other.run context m).model d) :
    pass.SuitsClass runtime m c := fun fields hfields => by
  have hgrows := other.run_grows context m
  have hmethods : ∀ name ∈ pass.owned, ∀ signature, d.hasMethod name signature →
      c.hasMethod name signature := fun name hname signature hd =>
    (h.adds.hasMethod_eq (Pass.not_names_of_ne hne hname)).symm.trans hd
  exact .of_hasMethod h.grows.name.symm (hgrows.lineageOf_eq h.grows).symm
    (Equality.hashCodeBody_eq_of_grows hgrows h.grows).symm hmethods
    (hsuits fields (h.grows.instanceFields_eq.trans hfields))

/-! ## Portable results of passes -/

/-- Methods that were missing are portable if the class that received them is. -/
theorem BeanClass.Receives.portable {option : String} (h : c.Receives settings option ms d)
    (hms : ms.Pairwise fun a b => ¬a.Clashes b) (hportable : ∀ k ∈ d.methods, k.Portable)
    {k : Method} (hk : k ∈ ms) (hnone : c.hasMethod k.name k.signature = false) : k.Portable :=
  hportable k (List.mem_of_find?_eq_some (h.method? hms hk hnone))

private theorem BeanClass.wellFormed_of_hasMethod {name : String} {signature : List TypeExpr}
    (hportable : ∀ k ∈ c.methods, k.Portable) (h : c.hasMethod name signature) :
    ∀ t ∈ signature, t.WellFormed := by
  obtain ⟨k, hk, hanswers⟩ := List.any_eq_true.1 h
  have hsignature : k.params.map (·.type) = signature :=
    beq_iff_eq.1 (Bool.and_eq_true_iff.1 hanswers).2
  rw [← hsignature, List.forall_mem_map]
  exact fun p hp => ((hportable k hk).params p hp).type

private theorem Equality.suitsClass_of_onClass (hsettings : settings.WellNamed)
    (h : (onClass settings m c).outcome = .ok (d, tally))
    (hportable : ∀ k ∈ d.methods, k.Portable) : Pass.equality.SuitsClass settings.runtime m c := by
  intro fields hfields
  obtain ⟨fields', hfields', hreceives⟩ := onClass_receives h
  obtain rfl : fields' = fields := Except.ok.inj (hfields'.symm.trans hfields)
  constructor
  · cases hnone : c.hasMethod "equals" [.ofName objectClass] with
    | true => exact .inl rfl
    | false =>
      have hequals := hreceives.portable (not_clashes _ _ _) hportable List.mem_cons_self hnone
      exact .inr ((equalsMethod_portable_iff hsettings).1 (Method.portable_stamp.1 hequals))
  · cases hnone : c.hasMethod "hashCode" [] with
    | true => exact .inl rfl
    | false =>
      have hhash := hreceives.portable (not_clashes _ _ _) hportable
        (.tail _ List.mem_cons_self) hnone
      exact .inr ((hashCodeMethod_portable_iff hsettings).1 (Method.portable_stamp.1 hhash))

private theorem Description.suitsClass_of_onClass (hsettings : settings.WellNamed)
    (h : (onClass settings m c).outcome = .ok (d, tally))
    (hportable : ∀ k ∈ d.methods, k.Portable) :
    Pass.description.SuitsClass settings.runtime m c := by
  intro fields hfields
  obtain ⟨fields', hfields', hreceives⟩ := onClass_receives h
  obtain rfl : fields' = fields := Except.ok.inj (hfields'.symm.trans hfields)
  rcases hreceives with ⟨rfl, -⟩ | hreceives
  · exact .inr (Nat.zero_le _)
  · cases hnone : c.hasMethod "toString" [] with
    | true => exact .inl hnone
    | false =>
      have htoString := hreceives.portable (List.pairwise_singleton _ _) hportable
        List.mem_cons_self hnone
      exact .inr ((toStringMethod_portable_iff hsettings).1 (Method.portable_stamp.1 htoString))

private theorem Copying.suitsClass_of_onClass (h : (onClass settings m c).outcome = .ok (d, tally))
    (hportable : ∀ k ∈ d.methods, k.Portable) :
    Pass.copying.SuitsClass settings.runtime m c := by
  intro fields hfields
  obtain ⟨fields', -, hreceives⟩ := onClass_receives h
  generalize withInterface (.ofName settings.runtime.cloneableInterface) (m.lineageOf c) c = before
    at hreceives
  -- Whether it was there before or is new, `cloneTo` has a parameter of the type of the class.
  have htype : ∀ t ∈ [c.asType], t.WellFormed := by
    cases hnone : before.hasMethod "cloneTo" [c.asType] with
    | true =>
      obtain ⟨added, tally, tally', hadd, rfl⟩ := hreceives
      obtain ⟨_, hadded⟩ := BeanClass.methods_prefix_addMethods hadd
      rw [Changed.noted_methods, ← hadded, List.forall_mem_append] at hportable
      exact BeanClass.wellFormed_of_hasMethod hportable.1 hnone
    | false =>
      have hmade := hreceives.portable (not_clashes _ _ _) hportable List.mem_cons_self hnone
      exact List.forall_mem_singleton.2 (hmade.params _ List.mem_cons_self).type
  exact TypeExpr.wellFormed_ofName.1 (List.forall_mem_singleton.1 htype)

/-- A pass suits every class that has none but portable methods after it. -/
theorem Pass.Treats.suitsClass (hsettings : context.settings.WellNamed)
    (h : pass.Treats context m c d) (hplain : ¬c.isEnum) (hportable : ∀ k ∈ d.methods, k.Portable) :
    pass.SuitsClass context.settings.runtime m c := by
  obtain ⟨report, hrun⟩ := h.succeeds
  cases pass with
  | equality =>
    obtain ⟨tally, htreated⟩ := Equality.onClass_of_run h.wellFormed hrun h.before h.after
      h.grows.name hplain
    exact Equality.suitsClass_of_onClass hsettings htreated hportable
  | description =>
    rcases CodeModel.treated_of_run h.wellFormed hrun (fun _ _ _ hplain htreated =>
      (Description.onClass_grows hplain htreated).name) h.before h.after h.grows.name with
      ⟨-, henum⟩ | ⟨-, tally, htreated⟩
    · exact absurd henum hplain
    · exact Description.suitsClass_of_onClass hsettings htreated hportable
  | copying =>
    rcases CodeModel.treated_of_run h.wellFormed hrun (fun _ _ _ hplain htreated =>
      (Copying.onClass_grows hplain htreated).name) h.before h.after h.grows.name with
      ⟨-, henum⟩ | ⟨-, tally, htreated⟩
    · exact absurd henum hplain
    · exact Copying.suitsClass_of_onClass htreated hportable
  | _ => exact fun _ _ => trivial

/-! ## Runs -/

namespace EngineRun

variable {passes : List Pass} {report₀ report : RunReport}

/-- Passes that suit the classes leave a portable model portable. -/
theorem runPasses_portable (hsettings : context.settings.WellNamed) (hm : m.Portable)
    (hsuits : ∀ pass ∈ passes, ∀ c ∈ m.classes, c.isEnum = false →
      pass.SuitsClass context.settings.runtime m c) :
    (runPasses context m report₀ passes).model.Portable := by
  induction passes generalizing m report₀ with
  | nil => exact hm
  | cons pass rest ih =>
    obtain ⟨hfirst, hothers⟩ := List.forall_mem_cons.1 hsuits
    have hpass := pass.run_portable hsettings hm hfirst
    simp only [runPasses]
    split
    · exact hpass
    · refine ih hpass fun other hother d hd hplain => ?_
      have hgrows := pass.run_grows context m
      obtain ⟨c, hc, hcd⟩ := exists_of_forall₂ hgrows.classes hd
      exact (hothers other hother c hc (hcd.isEnum_eq.symm.trans hplain)).of_grows hgrows hcd

/-- If the model is portable after a run, then the passes of the run suit its classes. -/
theorem suitsClass_of_runPasses (hsettings : context.settings.WellNamed) (hm : m.WellFormed)
    (hrun : (runPasses context m report₀ passes).outcome = .ok report)
    (hportable : (runPasses context m report₀ passes).model.Portable) (hpass : pass ∈ passes)
    (hc : c ∈ m.classes) (hplain : c.isEnum = false) :
    pass.SuitsClass context.settings.runtime m c := by
  by_contra hnot
  obtain ⟨d, hd, hcd⟩ :=
    exists_of_forall₂ (runPasses_grows context passes m report₀).classes.flip hc
  have hunportable : ∃ k ∈ d.methods, ¬k.Portable := by
    refine runPasses_gives pass
      (fun m c => c.isEnum = false ∧ ¬pass.SuitsClass context.settings.runtime m c)
      (fun _ d => ∃ k ∈ d.methods, ¬k.Portable) ?_ ?_ ?_ hm hpass hrun hc hd hcd.name ⟨hplain, hnot⟩
    · rintro other m c d hne htreats ⟨hplain, hnot⟩
      exact ⟨htreats.grows.isEnum_eq.trans hplain,
        fun hsuits => hnot (hsuits.of_treats hne htreats)⟩
    · rintro m c d htreats ⟨hplain, hnot⟩
      by_contra hnone
      have hall : ∀ k ∈ d.methods, k.Portable := by simpa using hnone
      exact hnot (htreats.suitsClass hsettings (Bool.eq_false_iff.1 hplain) hall)
    · rintro other m c d htreats ⟨k, hk, hunportable⟩
      obtain ⟨added, hadded, -⟩ := htreats.grows.methods
      exact ⟨k, hadded ▸ List.mem_append_left _ hk, hunportable⟩
  obtain ⟨k, hk, hunportable⟩ := hunportable
  exact hunportable ((hportable.classes d hd).methods k hk)

end EngineRun

section Synthesis

variable {selected : List Pass} {report : RunReport}

/-- A run leaves a portable model portable if and only if its passes suit the classes. -/
theorem synthesize_portable_iff (hsettings : settings.WellNamed) (hm : m.WellFormed)
    (hportable : m.Portable) (hplan : m.plan options = .ok selected)
    (hrun : (synthesize settings m options).outcome = .ok report) :
    (synthesize settings m options).model.Portable ↔
      ∀ pass ∈ selected, ∀ c ∈ m.classes, c.isEnum = false →
        pass.SuitsClass settings.runtime m c := by
  rw [synthesize_outcome hplan] at hrun
  rw [synthesize_model hplan]
  constructor
  · intro hafter pass hpass c hc hplain
    exact EngineRun.suitsClass_of_runPasses hsettings hm hrun hafter hpass hc hplain
  · intro hsuits
    exact EngineRun.runPasses_portable hsettings hportable hsuits

/-- A model that was read from a text, and over which passes have run with success, is read from its
new text as the same model, if and only if the passes suit its classes: copying needs a class whose
name can be read as that of a class, and so does `equals` if there are fields; `hashCode` and
`toString` need room for one level of nesting for each field. -/
theorem CodeModel.ofText_toText_synthesized_iff {text : String} (hread : ofText text = .ok m)
    (hplan : m.plan options = .ok selected)
    (hrun : (synthesize {} m options).outcome = .ok report) :
    ofText (synthesize {} m options).model.toText = .ok (synthesize {} m options).model ↔
      ∀ pass ∈ selected, ∀ c ∈ m.classes, c.isEnum = false →
        pass.SuitsClass ({} : Settings).runtime m c := by
  obtain ⟨hvalid, hportable⟩ := portable_of_ofText hread
  have hm := wellFormed_of_validate hvalid
  have hafter := (synthesize_grows {} m options).wellFormed hm
  rw [ofText_toText_iff_portable, and_iff_right hafter.validate]
  exact synthesize_portable_iff Settings.wellNamed_default hm hportable hplan hrun

end Synthesis

/-! ## How many fields are too many -/

/-- Every pass suits classes that are called as classes may be and do not have too many fields. -/
theorem Pass.suits_of_few (pass : Pass) (hname : IsClassName c.name) (hfew : fields.length ≤ 113) :
    pass.Suits ({} : Settings).runtime m c fields := by
  cases pass with
  | equality =>
    have hdepth : (Block.toJson (Equality.hashCodeBody ({} : Settings).runtime m fields
        (m.lineageOf c))).depth ≤ fields.length + 9 :=
      Equality.depth_hashCodeBody_le Settings.wellNamed_default
    exact ⟨.inr (.inr hname), .inr (hdepth.trans (Nat.add_le_add_right hfew 9))⟩
  | description =>
    have hmax : 113 ≤ Description.maxFields (m.lineageOf c) := by
      cases m.lineageOf c <;> decide
    exact .inr (hfew.trans hmax)
  | copying => exact hname
  | _ => trivial

/-- A model whose classes are called as classes may be and do not have too many fields can be
exchanged after every run, also after one that an error has ended. -/
theorem CodeModel.ofText_toText_synthesized_of_few {text : String} (hread : ofText text = .ok m)
    (hsmall : ∀ c ∈ m.classes, c.isEnum = false → IsClassName c.name ∧ c.fields.length ≤ 113)
    (options : List String) :
    ofText (synthesize {} m options).model.toText = .ok (synthesize {} m options).model := by
  obtain ⟨hvalid, hportable⟩ := portable_of_ofText hread
  have hm := wellFormed_of_validate hvalid
  have hafter := (synthesize_grows {} m options).wellFormed hm
  refine ofText_toText_iff_portable.2 ⟨hafter.validate, ?_⟩
  cases hplan : m.plan options with
  | error e =>
    unfold synthesize
    rw [hplan]
    exact hportable
  | ok selected =>
    rw [synthesize_model hplan]
    refine EngineRun.runPasses_portable Settings.wellNamed_default hportable
      fun pass _ c hc hplain fields hfields => ?_
    obtain ⟨hname, hfew⟩ := hsmall c hc hplain
    refine pass.suits_of_few hname (le_trans ?_ hfew)
    rw [← List.length_map (fun f : InstanceField => (f.name, f.type)),
      BeanClass.instanceFields_map hfields, List.length_map]
    exact List.length_filter_le _ _

/-- No text holds a `hashCode` or a `toString` of that many fields. -/
theorem Pass.not_suits_of_many (hmany : 116 < fields.length) :
    (c.hasMethod "hashCode" [] = false → ¬Pass.equality.Suits runtime m c fields) ∧
      (c.hasMethod "toString" [] = false → ¬Pass.description.Suits runtime m c fields) := by
  constructor
  · rintro hnone ⟨-, hhash⟩
    have hfields : fields ≠ [] := List.ne_nil_of_length_pos (Nat.zero_lt_of_lt hmany)
    have hdepth : fields.length + 6 ≤
        (Block.toJson (Equality.hashCodeBody runtime m fields (m.lineageOf c))).depth :=
      Equality.le_depth_hashCodeBody runtime hfields
    have hroom := hhash.resolve_left (by simp [hnone])
    rw [bodyLevels] at hroom
    omega
  · intro hnone hsuits
    have hfew : fields.length ≤ Description.maxFields (m.lineageOf c) :=
      Or.resolve_left hsuits (by simp [hnone])
    have hmax : Description.maxFields (m.lineageOf c) ≤ 116 := by
      cases m.lineageOf c <;> decide
    omega

/-! ### A long form -/

/-- Instance fields are found among fields that have properties. -/
theorem BeanClass.instanceFieldsAmong_of_properties {declared : List Field}
    (h : ∀ f ∈ declared, ∃ p ∈ c.properties, p.name = f.name) :
    ∃ fields, (c.instanceFieldsAmong declared).outcome = .ok fields := by
  induction declared with
  | nil => exact ⟨[], rfl⟩
  | cons f rest ih =>
    obtain ⟨⟨p, hp, hname⟩, hothers⟩ := List.forall_mem_cons.1 h
    obtain ⟨others, hrest⟩ := ih hothers
    obtain ⟨found, hfound⟩ : ∃ found, c.property? f.name = some found :=
      Option.isSome_iff_exists.1 (List.find?_isSome.2 ⟨p, hp, beq_iff_eq.2 hname⟩)
    unfold instanceFieldsAmong accessorName?
    rw [hfound]
    split
    · exact ⟨others, Step.bind_eq_ok.2 ⟨(), rfl, hrest⟩⟩
    · exact ⟨_, Step.bind_eq_ok.2 ⟨others, hrest, rfl⟩⟩

/-- A class with an integer for each of so many attributes. -/
def formOf (entries : Nat) : BeanClass where
  name := "shop.Form"
  fields := (List.range entries).map fun i =>
    { name := "entry" ++ Nat.repr i, type := .primitive .int }
  properties := (List.range entries).map fun i =>
    { name := "entry" ++ Nat.repr i, publicName := "Entry" ++ Nat.repr i, kind := .attr true none }

private theorem portable_formOf (entries : Nat) : (formOf entries).Portable where
  parent := by simp [formOf]
  interfaces := List.forall_mem_nil _
  annotations := List.forall_mem_nil _
  fields := List.forall_mem_map.2 fun _ _ => ⟨trivial, List.forall_mem_nil _⟩
  properties := List.forall_mem_map.2 fun _ _ => trivial
  constructors := List.forall_mem_nil _
  methods := List.forall_mem_nil _

private theorem instanceFields_formOf (entries : Nat) :
    ∃ fields, (formOf entries).instanceFields.outcome = .ok fields ∧ fields.length = entries := by
  obtain ⟨fields, hfields⟩ : ∃ fields, (formOf entries).instanceFields.outcome = .ok fields :=
    BeanClass.instanceFieldsAmong_of_properties (List.forall_mem_map.2 fun _ hi =>
      ⟨_, List.mem_map_of_mem hi, rfl⟩)
  refine ⟨fields, hfields, ?_⟩
  rw [← List.length_map (fun f : InstanceField => (f.name, f.type)),
    BeanClass.instanceFields_map hfields, List.length_map, List.filter_eq_self.2]
  · simp [formOf]
  · exact List.forall_mem_map.2 fun _ _ => rfl

/-- A form with 117 fields can be exchanged, but not any more once it has a description. -/
theorem formOf_not_exchanged :
    let m : CodeModel := { classes := [formOf 117] }
    let run := synthesize {} m ["Xph-tostring"]
    CodeModel.ofText m.toText = .ok m ∧ m.plan ["Xph-tostring"] = .ok [.description] ∧
      (∃ report, run.outcome = .ok report) ∧ CodeModel.ofText run.model.toText ≠ .ok run.model := by
  intro m run
  obtain ⟨fields, hfields, hlength⟩ := instanceFields_formOf 117
  have hportable : m.Portable := {
    classes := List.forall_mem_singleton.2 (portable_formOf 117)
    objectFactories := List.forall_mem_nil _
    packages := List.forall_mem_nil _
    external := List.forall_mem_nil _ }
  have hread : CodeModel.ofText m.toText = .ok m :=
    CodeModel.ofText_toText_iff_portable.2 ⟨rfl, hportable⟩
  have hplan : m.plan ["Xph-tostring"] = .ok [.description] := rfl
  have hrun : ∃ report, run.outcome = .ok report := by
    rw [← failure?_eq_none, failure?_synthesize, hplan]
    simp [m, Pass.objectionTo?, Pass.objection?, hfields]
  obtain ⟨report, hreport⟩ := hrun
  refine ⟨hread, hplan, ⟨report, hreport⟩, fun hafter => ?_⟩
  have hsuits := (CodeModel.ofText_toText_synthesized_iff hread hplan hreport).1 hafter
    .description List.mem_cons_self (formOf 117) List.mem_cons_self rfl fields hfields
  exact (Pass.not_suits_of_many (by omega)).2 rfl hsuits

end BeanSynthesis
