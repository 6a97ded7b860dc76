import BeanSynthesis.Proofs.Growth.Names
import BeanSynthesis.Proofs.Scoping.PassDrafts

/-!
# Synthesized bodies and the names in scope

What the passes for comparing, describing and copying, for lists and for local views add to a class
are methods with drafts. So for each of them it is known when its body reads as it is meant: when
no field that it mentions has the name of a parameter or local variable in scope there.
-/

namespace BeanSynthesis

namespace BeanClass

variable {settings : Settings} {option : String} {drafts : List Draft} {c d : BeanClass}

/-- Methods are added, and only such as have one of these drafts. -/
def Draws (settings : Settings) (option : String) (drafts : List Draft) (c d : BeanClass) : Prop :=
  ∃ added, d.methods = c.methods ++ added ∧
    ∀ n ∈ added, ∃ draft ∈ drafts, n = draft.method.stamp settings option

namespace Draws

private theorem of_methods_eq (h : d.methods = c.methods) : c.Draws settings option drafts d :=
  ⟨[], by simp [h]⟩

/-- It is the methods before that count. -/
theorem of_before {e : BeanClass} (hmethods : e.methods = c.methods)
    (h : e.Draws settings option drafts d) : c.Draws settings option drafts d := by
  obtain ⟨added, hadded, hmade⟩ := h
  exact ⟨added, by rw [hadded, hmethods], hmade⟩

private theorem addMethods {ms : List Method} {changed : Changed}
    (hdrafts : ∀ n ∈ ms, ∃ draft ∈ drafts, n = draft.method.stamp settings option)
    (h : (c.addMethods ms).outcome = .ok changed) : c.Draws settings option drafts changed.1 := by
  obtain ⟨methods, tally, hadd, added, rfl, hmade, -⟩ := addMethods_outcome hdrafts c
  have hchanged : changed = ({ c with methods := c.methods ++ added }, tally) :=
    (Except.ok.inj (hadd.symm.trans h)).symm
  rw [hchanged]
  exact ⟨added, rfl, hmade⟩

private theorem of_receives {ms : List Method}
    (hdrafts : ∀ n ∈ ms, ∃ draft ∈ drafts, n = draft.method.stamp settings option)
    (h : c.Receives settings option ms d) : c.Draws settings option drafts d := by
  obtain ⟨added, tally, tally', hadd, rfl⟩ := h
  obtain ⟨new, hnew, hmade⟩ := addMethods hdrafts hadd
  exact ⟨new, (Changed.noted_methods _ _).trans hnew, hmade⟩

end Draws

end BeanClass

/-! ## Passes -/

variable {settings : Settings} {m : CodeModel} {c after : BeanClass} {tally : Tally}

/-- The drafts of what a pass may add to a class with these instance fields. -/
def Pass.drafts (settings : Settings) (m : CodeModel) (c : BeanClass)
    (fields : List InstanceField) : Pass → List Draft
  | .equality =>
    [Equality.equalsDraft settings.runtime m c fields (m.lineageOf c),
      Equality.hashCodeDraft settings.runtime m fields (m.lineageOf c)]
  | .description => [Description.toStringDraft settings.runtime fields (m.lineageOf c)]
  | .copying =>
    [Copying.cloneToDraft settings.runtime m c fields (m.lineageOf c),
      Copying.cloneDraft settings.runtime c]
  | .listAccessors =>
    (fields.filter (·.type.isErasure "List")).map (ListAccessors.setterDraft settings) ++
      (c.methods.filterMap ListAccessors.listGetter?).flatMap
        (ListAccessors.companionDrafts settings)
  | .localAccessors => fields.flatMap (LocalAccessors.fieldDrafts settings)
  | _ => []

/-- What a pass adds to a class has drafts over the instance fields of the class. -/
def Pass.DrawsFor (pass : Pass) (settings : Settings) (m : CodeModel) (c after : BeanClass) :
    Prop :=
  ∃ fields, c.instanceFields.outcome = .ok fields ∧
    c.Draws settings pass.option (pass.drafts settings m c fields) after

private theorem Equality.onClass_draws
    (h : (Equality.onClass settings m c).outcome = .ok (after, tally)) :
    Pass.equality.DrawsFor settings m c after := by
  obtain ⟨fields, hfields, hreceives⟩ := onClass_receives h
  refine ⟨fields, hfields, .of_receives (fun n hn => ?_) hreceives⟩
  rcases List.mem_pair.mp hn with rfl | rfl
  · exact ⟨_, List.mem_cons_self, rfl⟩
  · exact ⟨_, .tail _ List.mem_cons_self, rfl⟩

private theorem Description.onClass_draws
    (h : (Description.onClass settings m c).outcome = .ok (after, tally)) :
    Pass.description.DrawsFor settings m c after := by
  obtain ⟨fields, hfields, ⟨-, rfl⟩ | hreceives⟩ := onClass_receives h
  · exact ⟨fields, hfields, .of_methods_eq rfl⟩
  · exact ⟨fields, hfields, .of_receives
      (List.forall_mem_singleton.mpr ⟨_, List.mem_cons_self, rfl⟩) hreceives⟩

private theorem Copying.onClass_draws
    (h : (Copying.onClass settings m c).outcome = .ok (after, tally)) :
    Pass.copying.DrawsFor settings m c after := by
  obtain ⟨fields, hfields, hreceives⟩ := onClass_receives h
  refine ⟨fields, hfields, .of_before (methods_withInterface _ _)
    (.of_receives (fun n hn => ?_) hreceives)⟩
  rcases List.mem_pair.mp hn with rfl | rfl
  · exact ⟨_, List.mem_cons_self, rfl⟩
  · exact ⟨_, .tail _ List.mem_cons_self, rfl⟩

private theorem LocalAccessors.onClass_draws
    (h : (LocalAccessors.onClass settings c).outcome = .ok (after, tally)) :
    Pass.localAccessors.DrawsFor settings m c after := by
  obtain ⟨fields, hfields, hreceives⟩ := onClass_receives h
  refine ⟨fields, hfields, .of_receives (fun n hn => ?_) hreceives⟩
  obtain ⟨made, hmade, rfl⟩ := List.mem_map.mp hn
  obtain ⟨f, hf, hmade⟩ := List.mem_flatMap.mp hmade
  rw [← methods_fieldDrafts] at hmade
  obtain ⟨draft, hdraft, rfl⟩ := List.mem_map.mp hmade
  exact ⟨draft, List.mem_flatMap.mpr ⟨f, hf, hdraft⟩, rfl⟩

namespace ListAccessors

/-- A plan is extended by methods that are drafted as companions of the getter. -/
theorem planGetter_drafts {drafts : List Draft} {plan plan' : Plan} {g : ListGetter}
    (hg : ∀ draft ∈ companionDrafts settings g, draft ∈ drafts)
    (hplan : ∀ n ∈ plan.methods, ∃ draft ∈ drafts, n = draft.method)
    (h : (planGetter settings c plan g).outcome = .ok plan') :
    ∀ n ∈ plan'.methods, ∃ draft ∈ drafts, n = draft.method := by
  have hcompanion : ∀ n ∈ [g.hasEntries, g.hasNoEntries, g.atIndex settings, g.add settings] ++
      g.countNames.map (g.count settings), ∃ draft ∈ drafts, n = draft.method := by
    intro n hn
    rw [← methods_companionDrafts] at hn
    obtain ⟨draft, hdraft, rfl⟩ := List.mem_map.mp hn
    exact ⟨draft, hg draft hdraft, rfl⟩
  obtain ⟨hothers, hcounts⟩ := List.forall_mem_append.mp hcompanion
  have hqueued : ∀ n ∈ plan.methods ++ [g.hasEntries, g.hasNoEntries],
      ∃ draft ∈ drafts, n = draft.method :=
    List.forall_mem_append.mpr ⟨hplan, fun n hn => hothers n (List.mem_append_left _ hn)⟩
  have hlast : ∀ n ∈ [g.atIndex settings, g.add settings], ∃ draft ∈ drafts, n = draft.method :=
    fun n hn => hothers n (List.mem_append_right [g.hasEntries, g.hasNoEntries] hn)
  unfold planGetter at h
  dsimp only at h
  split at h
  case h_1 name hname =>
    obtain rfl := Except.ok.inj h
    have hfree : ∃ draft ∈ drafts, g.count settings name = draft.method :=
      hcounts _ (List.mem_map_of_mem (List.mem_of_find?_eq_some hname))
    have hcount : ∀ n ∈ [g.count settings name], ∃ draft ∈ drafts, n = draft.method :=
      List.forall_mem_singleton.mpr hfree
    exact List.forall_mem_append.mpr ⟨List.forall_mem_append.mpr ⟨hqueued, hcount⟩, hlast⟩
  case h_2 _ =>
    obtain ⟨-, -, h⟩ := Step.bind_eq_ok.mp h
    obtain rfl := Except.ok.inj h
    exact List.forall_mem_append.mpr ⟨hqueued, hlast⟩

private theorem foldlM_planGetter_drafts {drafts : List Draft} {getters : List ListGetter}
    {plan plan' : Plan}
    (hgetters : ∀ g ∈ getters, ∀ draft ∈ companionDrafts settings g, draft ∈ drafts)
    (hplan : ∀ n ∈ plan.methods, ∃ draft ∈ drafts, n = draft.method)
    (h : (getters.foldlM (planGetter settings c) plan).outcome = .ok plan') :
    ∀ n ∈ plan'.methods, ∃ draft ∈ drafts, n = draft.method := by
  induction getters generalizing plan with
  | nil =>
    obtain rfl := Except.ok.inj h
    exact hplan
  | cons g rest ih =>
    obtain ⟨next, hnext, h⟩ := Step.bind_eq_ok.mp h
    have hfirst := planGetter_drafts (hgetters g List.mem_cons_self) hplan hnext
    exact ih (fun other hother => hgetters other (List.mem_cons_of_mem _ hother)) hfirst h

private theorem onClass_draws
    (h : (ListAccessors.onClass settings c).outcome = .ok (after, tally)) :
    Pass.listAccessors.DrawsFor settings m c after := by
  obtain ⟨fields, plan, hfields, hplan, hreceives⟩ := onClass_receives h
  have hsetters : ∀ n ∈ (fields.filter (·.type.isErasure "List")).map (setter settings),
      ∃ draft ∈ Pass.listAccessors.drafts settings m c fields, n = draft.method := by
    intro n hn
    obtain ⟨f, hf, rfl⟩ := List.mem_map.mp hn
    exact ⟨setterDraft settings f, List.mem_append_left _ (List.mem_map_of_mem hf), rfl⟩
  have hgetters : ∀ g ∈ c.methods.filterMap listGetter?,
      ∀ draft ∈ companionDrafts settings g,
        draft ∈ Pass.listAccessors.drafts settings m c fields :=
    fun g hg draft hdraft => List.mem_append_right _ (List.mem_flatMap.mpr ⟨g, hg, hdraft⟩)
  have hplanned := foldlM_planGetter_drafts hgetters hsetters hplan
  refine ⟨fields, hfields, .of_receives (fun n hn => ?_) hreceives⟩
  obtain ⟨made, hmade, rfl⟩ := List.mem_map.mp hn
  obtain ⟨draft, hdraft, rfl⟩ := hplanned made hmade
  exact ⟨draft, hdraft, rfl⟩

end ListAccessors

/-- The passes that add methods with drafts alone. -/
def Pass.drafting : List Pass :=
  [.equality, .description, .copying, .listAccessors, .localAccessors]

/-- A sweep that leaves enumerations alone adds methods with drafts if its treatment does. -/
theorem forall₂_sweep_draws {pass : Pass} {f : BeanClass → Step Changed}
    (hstep : ∀ c after tally, (f c).outcome = .ok (after, tally) →
      pass.DrawsFor settings m c after) (classes : List BeanClass) :
    List.Forall₂ (fun c after => after.methods = c.methods ∨ pass.DrawsFor settings m c after)
      classes (sweep (exceptEnums f) classes).classes := by
  refine forall₂_sweep (fun c => .inl rfl) (fun c after tally h => ?_) classes
  rcases exceptEnums_eq_ok h with rfl | ⟨-, hok⟩
  · exact .inl rfl
  · exact .inr (hstep c after tally hok)

/-- A pass adds methods to a class only as it drafts them for the class. -/
theorem Pass.run_draws (context : PassContext) (m : CodeModel) {pass : Pass}
    (hpass : pass ∈ Pass.drafting) :
    List.Forall₂
      (fun c after => after.methods = c.methods ∨ pass.DrawsFor context.settings m c after)
      m.classes (pass.run context m).model.classes := by
  simp only [drafting, List.mem_cons, List.not_mem_nil, or_false] at hpass
  rcases hpass with rfl | rfl | rfl | rfl | rfl
  · exact forall₂_sweep_draws (fun _ _ _ => Equality.onClass_draws) _
  · exact forall₂_sweep_draws (fun _ _ _ => Description.onClass_draws) _
  · exact forall₂_sweep_draws (fun _ _ _ => Copying.onClass_draws) _
  · exact forall₂_sweep_draws (fun _ _ _ => ListAccessors.onClass_draws) _
  · exact forall₂_sweep_draws (fun _ _ _ => LocalAccessors.onClass_draws) _

/-- Every method that one of these passes adds to a class has a draft over the instance fields of
the class, and its body reads as it is meant if and only if no field that it mentions has the name
of a parameter or local variable in scope there. -/
theorem Pass.reads_as_meant_iff (context : PassContext) (m : CodeModel) {pass : Pass}
    (hpass : pass ∈ Pass.drafting) :
    List.Forall₂
      (fun c after => ∃ added, after.methods = c.methods ++ added ∧ ∀ n ∈ added,
        ∃ fields, c.instanceFields.outcome = .ok fields ∧
          ∃ draft ∈ pass.drafts context.settings m c fields,
            n = draft.method.stamp context.settings pass.option ∧
              (n.reading = draft.meant ↔ ∀ f ∈ draft.mentioned, f.name ∉ draft.scope))
      m.classes (pass.run context m).model.classes := by
  refine (Pass.run_draws context m hpass).imp fun c after h => ?_
  rcases h with hsame | ⟨fields, hfields, added, hadded, hdrafts⟩
  · exact ⟨[], by simp [hsame], by simp⟩
  · refine ⟨added, hadded, fun n hn => ⟨fields, hfields, ?_⟩⟩
    obtain ⟨draft, hdraft, hstamp⟩ := hdrafts n hn
    have hreading : n.reading = draft.method.reading := by
      rw [hstamp]
      rfl
    refine ⟨draft, hdraft, hstamp, ?_⟩
    rw [hreading]
    exact draft.reading_eq_meant_iff

/-- A class whose field has the name of the parameter of `equals`. -/
def namedLikeParam : BeanClass :=
  { name := "shop.Order"
    fields := [{ name := "o", type := .ofName "java.lang.String" }]
    properties := [{ name := "o", publicName := "O", kind := .attr false none }] }

/-- The comparison of the field reads the parameter. -/
theorem namedLikeParam_misread : Pass.equality ∈ Pass.drafting ∧
    ∃ after ∈ (Pass.equality.run ⟨{}, []⟩ { classes := [namedLikeParam] }).model.classes,
      ∃ equals ∈ after.methods, ∃ fields draft, namedLikeParam.instanceFields.outcome = .ok fields ∧
        draft ∈ Pass.equality.drafts {} { classes := [namedLikeParam] } namedLikeParam fields ∧
          equals = draft.method.stamp {} Pass.equality.option ∧ equals.reading ≠ draft.meant := by
  have hpass : Pass.equality ∈ Pass.drafting := by decide
  have hreads := Pass.reads_as_meant_iff ⟨{}, []⟩ { classes := [namedLikeParam] } hpass
  refine ⟨hpass, ?_⟩
  obtain ⟨after, hafter, equals, others, hmethods, hname⟩ : ∃ after,
      (Pass.equality.run ⟨{}, []⟩ { classes := [namedLikeParam] }).model.classes = [after] ∧
        ∃ equals others, after.methods = equals :: others ∧ equals.name = "equals" :=
    ⟨_, rfl, _, _, rfl, rfl⟩
  rw [hafter] at hreads ⊢
  obtain ⟨added, hadded, hdrafts⟩ := (List.forall₂_cons.mp hreads).1
  have hnone : namedLikeParam.methods = [] := rfl
  have hmem : equals ∈ added := by
    rw [hnone, List.nil_append, hmethods] at hadded
    exact hadded ▸ List.mem_cons_self
  obtain ⟨fields, hfields, draft, hdraft, hstamp, hiff⟩ := hdrafts equals hmem
  have hfield : fields = [⟨"o", .ofName "java.lang.String", "O"⟩] :=
    (Except.ok.inj hfields).symm
  refine ⟨after, List.mem_cons_self, equals, by simp [hmethods], fields, draft, hfields, hdraft,
    hstamp, fun hread => ?_⟩
  have hfree := hiff.mp hread
  rcases List.mem_pair.mp hdraft with rfl | rfl
  · have hmentioned : ⟨"o", .ofName "java.lang.String", "O"⟩ ∈ fields := by simp [hfield]
    exact hfree _ hmentioned (.tail _ List.mem_cons_self)
  · rw [hstamp] at hname
    have hother : ("hashCode" : String) = "equals" := hname
    exact absurd hother (by decide)

end BeanSynthesis
