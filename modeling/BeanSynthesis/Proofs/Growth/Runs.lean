import BeanSynthesis.Proofs.Growth.Names
import BeanSynthesis.Proofs.Inheritance

/-!
# Growth through runs

A run lets the model grow as its passes do, one after the other and up to the first error. What it
adds is marked by the options of the passes that were selected, and by no other.
-/

namespace BeanSynthesis

/-- What the passes of a list have done so far, also when one of them has failed. -/
theorem EngineRun.runPasses_grows (context : PassContext) (passes : List Pass) (m : CodeModel)
    (report : RunReport) :
    m.Grows context.settings (passes.map Pass.option)
      (runPasses context m report passes).model := by
  induction passes generalizing m report with
  | nil => exact .refl m
  | cons pass rest ih =>
    have hpass : m.Grows context.settings ((pass :: rest).map Pass.option)
        (pass.run context m).model :=
      (pass.run_grows context m).mono fun o ho => by
        rw [List.mem_singleton.mp ho]
        exact List.mem_map_of_mem List.mem_cons_self
    simp only [runPasses]
    split
    · exact hpass
    case h_2 passReport _ =>
      have hrest := ih (pass.run context m).model (report.add passReport)
      exact hpass.trans (hrest.mono fun o ho => List.mem_cons_of_mem _ ho)

section

variable {settings : Settings} {m : CodeModel} {options : List String} {selected : List Pass}

/-- Once the passes are selected, the model is the one that they leave. -/
theorem synthesize_model (hplan : m.plan options = .ok selected) :
    (synthesize settings m options).model = (EngineRun.runPasses
      { settings, active := selected.map Pass.option } m {} selected).model := by
  unfold synthesize
  rw [hplan]
  rfl

/-- Once the passes are selected, the outcome is theirs. -/
theorem synthesize_outcome (hplan : m.plan options = .ok selected) :
    (synthesize settings m options).outcome = (EngineRun.runPasses
      { settings, active := selected.map Pass.option } m {} selected).outcome := by
  unfold synthesize
  rw [hplan]
  rfl

/-- Only a run that can be planned succeeds. -/
theorem exists_plan_of_ok {report : RunReport}
    (hok : (synthesize settings m options).outcome = .ok report) :
    ∃ passes, m.plan options = .ok passes := by
  unfold synthesize at hok
  split at hok
  · cases hok
  case h_2 passes hplan => exact ⟨passes, hplan⟩

end

/-- The options of the passes that take part in a run, none if the run cannot be planned. -/
def CodeModel.selectedOptions (m : CodeModel) (options : List String) : List String :=
  match m.plan options with
  | .error _ => []
  | .ok selected => selected.map Pass.option

/-- A run adds members that the selected passes mark, and neither loses nor replaces what was
declared, whether it succeeds or an error ends it. -/
theorem synthesize_grows (settings : Settings) (m : CodeModel) (options : List String) :
    m.Grows settings (m.selectedOptions options) (synthesize settings m options).model := by
  unfold synthesize CodeModel.selectedOptions
  cases m.plan options with
  | error e => exact .refl m
  | ok selected =>
    exact EngineRun.runPasses_grows { settings, active := selected.map Pass.option } selected m {}

/-! ## What a pass gives to classes

Other passes may run before and after a pass. What it gives to a class is still there at the end, if
no pass takes it away, and if those before it leave the class as the pass needs it.
-/

/-- A pass succeeds, and makes the one class of the other. -/
structure Pass.Treats (pass : Pass) (context : PassContext) (m : CodeModel) (c d : BeanClass) :
    Prop where
  wellFormed : m.WellFormed
  succeeds : ∃ report, (pass.run context m).outcome = .ok report
  before : c ∈ m.classes
  after : d ∈ (pass.run context m).model.classes
  grows : c.Grows context.settings [pass.option] d
  adds : c.Adds pass.Names d

private theorem Pass.exists_treats {pass : Pass} {context : PassContext} {m : CodeModel}
    {c : BeanClass}
    {report : PassReport} (hm : m.WellFormed) (hrun : (pass.run context m).outcome = .ok report)
    (hc : c ∈ m.classes) : ∃ d, pass.Treats context m c d := by
  have hgrows := (pass.run_grows context m).classes
  have hadds := pass.run_adds context m
  obtain ⟨i, hi, rfl⟩ := List.getElem_of_mem hc
  have hlt : i < (pass.run context m).model.classes.length := hgrows.length_eq ▸ hi
  exact ⟨_, {
    wellFormed := hm
    succeeds := ⟨report, hrun⟩
    before := hc
    after := List.getElem_mem hlt
    grows := (List.forall₂_iff_get.mp hgrows).2 i hi hlt
    adds := (List.forall₂_iff_get.mp hadds).2 i hi hlt }⟩

namespace EngineRun

variable {context : PassContext} {pass : Pass} {passes : List Pass} {m : CodeModel}
  {c d : BeanClass} {report₀ report : RunReport}

/-- A run succeeds if its first pass does and the others do after it. -/
theorem runPasses_cons (h : (runPasses context m report₀ (pass :: passes)).outcome = .ok report) :
    ∃ passReport report₁, (pass.run context m).outcome = .ok passReport ∧
      (runPasses context (pass.run context m).model report₁ passes).outcome = .ok report ∧
      (runPasses context m report₀ (pass :: passes)).model =
        (runPasses context (pass.run context m).model report₁ passes).model := by
  simp only [runPasses] at h ⊢
  split at h
  · cases h
  case h_2 passReport hpass => exact ⟨passReport, report₀.add passReport, hpass, h, rfl⟩

/-- What no pass takes away from a class, the class has after every run. -/
theorem runPasses_keeps {After : CodeModel → BeanClass → Prop}
    (hkeeps : ∀ {other : Pass} {m c d}, other.Treats context m c d → After m c →
      After (other.run context m).model d)
    (hm : m.WellFormed) (hrun : (runPasses context m report₀ passes).outcome = .ok report)
    (hc : c ∈ m.classes) (hd : d ∈ (runPasses context m report₀ passes).model.classes)
    (hname : d.name = c.name) (h : After m c) :
    After (runPasses context m report₀ passes).model d := by
  induction passes generalizing m c report₀ with
  | nil =>
    obtain rfl := hm.eq_of_name hd hc hname
    exact h
  | cons first rest ih =>
    obtain ⟨passReport, report₁, hfirst, hrest, hmodel⟩ := runPasses_cons hrun
    obtain ⟨e, htreats⟩ := Pass.exists_treats hm hfirst hc
    rw [hmodel] at hd ⊢
    exact ih ((first.run_grows context m).wellFormed hm) hrest htreats.after hd
      (hname.trans htreats.grows.name.symm) (hkeeps htreats h)

/-- What a pass gives to a class, and no pass takes away, the class has after every run with the
pass. Passes that come before it must leave the class as the pass needs it. -/
theorem runPasses_gives (pass : Pass) (Before After : CodeModel → BeanClass → Prop)
    (hbefore : ∀ {other : Pass} {m c d}, other ≠ pass → other.Treats context m c d → Before m c →
      Before (other.run context m).model d)
    (hgives : ∀ {m c d}, pass.Treats context m c d → Before m c →
      After (pass.run context m).model d)
    (hkeeps : ∀ {other : Pass} {m c d}, other.Treats context m c d → After m c →
      After (other.run context m).model d)
    (hm : m.WellFormed) (hpass : pass ∈ passes)
    (hrun : (runPasses context m report₀ passes).outcome = .ok report)
    (hc : c ∈ m.classes) (hd : d ∈ (runPasses context m report₀ passes).model.classes)
    (hname : d.name = c.name) (h : Before m c) :
    After (runPasses context m report₀ passes).model d := by
  induction passes generalizing m c report₀ with
  | nil => cases hpass
  | cons first rest ih =>
    obtain ⟨passReport, report₁, hfirst, hrest, hmodel⟩ := runPasses_cons hrun
    obtain ⟨e, htreats⟩ := Pass.exists_treats hm hfirst hc
    have hm₁ := (first.run_grows context m).wellFormed hm
    have hname₁ := hname.trans htreats.grows.name.symm
    rw [hmodel] at hd ⊢
    by_cases hsame : first = pass
    · subst hsame
      exact runPasses_keeps hkeeps hm₁ hrest htreats.after hd hname₁ (hgives htreats h)
    · have hlater : pass ∈ rest := (List.mem_cons.mp hpass).resolve_left fun h => hsame h.symm
      exact ih hm₁ hlater hrest htreats.after hd hname₁ (hbefore hsame htreats h)

end EngineRun

end BeanSynthesis
