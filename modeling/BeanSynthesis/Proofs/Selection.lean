import BeanSynthesis.Proofs.Constraining.Numerals
import BeanSynthesis.Proofs.Edits.Passes
import BeanSynthesis.Proofs.Problems

/-!
# Selecting passes

Options say which passes run, and nothing else. A text names a pass by its option, with dashes in
front of it and white space around both. Two lists of texts that name the same passes lead to the
same run, in which each of these passes runs once and in the order of all passes; a text that
names none ends the run before it begins.
-/

namespace BeanSynthesis

namespace Pass

/-! ## Texts that name a pass -/

/-- The text is the option of the pass, after any number of dashes and with white space around. -/
def NamedBy (pass : Pass) (text : String) : Prop :=
  ∃ (front back : List Char) (dashes : Nat),
    text.toList = front ++ (List.replicate dashes '-' ++ pass.option.toList) ++ back ∧
      (∀ c ∈ front, Text.isBlank c) ∧ ∀ c ∈ back, Text.isBlank c

/-- One of the texts names the pass. -/
def NamedIn (pass : Pass) (options : List String) : Prop := ∃ text ∈ options, pass.NamedBy text

/-- Every text names some pass. -/
def AllKnown (options : List String) : Prop := ∀ text ∈ options, ∃ pass : Pass, pass.NamedBy text

private theorem mem_all (pass : Pass) : pass ∈ all := by
  cases pass with
  | constraints dialect => cases dialect <;> decide
  | _ => decide

-- An option is a literal, and by definition `String.ofList` of its characters. They are read off it
-- here, since evaluation would go through the bytes of its encoding.
private theorem option_plain (pass : Pass) : pass.option.toList.isEmpty = false ∧
    (pass.option.toList.all fun c => !Text.isBlank c) = true ∧
      pass.option.toList.dropWhile (· = '-') = pass.option.toList := by
  have hplain {cs : List Char} (h : cs.isEmpty = false ∧
      (cs.all fun c => !Text.isBlank c) = true ∧ cs.dropWhile (· = '-') = cs) :
      (String.ofList cs).toList.isEmpty = false ∧
        ((String.ofList cs).toList.all fun c => !Text.isBlank c) = true ∧
          (String.ofList cs).toList.dropWhile (· = '-') = (String.ofList cs).toList := by
    rwa [String.toList_ofList]
  cases pass with
  | constraints dialect => cases dialect <;> exact hplain ⟨rfl, rfl, rfl⟩
  | _ => exact hplain ⟨rfl, rfl, rfl⟩

private theorem option_not_blank (pass : Pass) :
    ∀ c ∈ pass.option.toList, Text.isBlank c = false := by
  simpa using pass.option_plain.2.1

/-- An option does not begin with a dash itself. -/
theorem option_dropWhile (pass : Pass) :
    pass.option.toList.dropWhile (· = '-') = pass.option.toList :=
  pass.option_plain.2.2

private theorem option_ne_nil (pass : Pass) : pass.option.toList ≠ [] :=
  List.isEmpty_eq_false_iff.mp pass.option_plain.1

/-- What is left of a text without white space and dashes is an option exactly if the text names the
pass of that option. -/
theorem optionOf_eq_option_iff {pass : Pass} {text : String} :
    optionOf text = pass.option ↔ pass.NamedBy text := by
  have hmiddle : ∀ dashes, ∀ c ∈ List.replicate dashes '-' ++ pass.option.toList,
      Text.isBlank c = false := by
    intro dashes c hc
    rcases List.mem_append.mp hc with hc | hc
    · rw [List.eq_of_mem_replicate hc]
      decide
    · exact pass.option_not_blank c hc
  have hne : ∀ dashes, List.replicate dashes '-' ++ pass.option.toList ≠ [] := fun dashes h =>
    pass.option_ne_nil (List.append_eq_nil_iff.mp h).2
  constructor
  · intro h
    have hdrop : (Text.trimChars text.toList).dropWhile (· = '-') = pass.option.toList := by
      simpa [optionOf] using congrArg String.toList h
    obtain ⟨dashes, hdashes⟩ : ∃ dashes,
        (Text.trimChars text.toList).takeWhile (· = '-') = List.replicate dashes '-' := by
      refine ⟨_, List.eq_replicate_of_mem fun c hc => ?_⟩
      simpa using List.all_eq_true.mp List.all_takeWhile c hc
    have htrim : Text.trimChars text.toList =
        List.replicate dashes '-' ++ pass.option.toList := by
      rw [← hdashes, ← hdrop, List.takeWhile_append_dropWhile]
    obtain ⟨front, back, htext, hblank⟩ :=
      (Text.trimChars_eq_iff (hmiddle dashes) (hne dashes)).mp htrim
    exact ⟨front, back, dashes, htext, hblank⟩
  · rintro ⟨front, back, dashes, htext, hblank⟩
    have htrim : Text.trimChars text.toList = List.replicate dashes '-' ++ pass.option.toList :=
      (Text.trimChars_eq_iff (hmiddle dashes) (hne dashes)).mpr ⟨front, back, htext, hblank⟩
    have hdrop : (Text.trimChars text.toList).dropWhile (· = '-') = pass.option.toList := by
      rw [htrim, List.dropWhile_append_of_pos (by simp), pass.option_dropWhile]
    rw [optionOf, hdrop, String.ofList_toList]

instance (pass : Pass) (text : String) : Decidable (pass.NamedBy text) :=
  decidable_of_iff _ optionOf_eq_option_iff

instance (pass : Pass) (options : List String) : Decidable (pass.NamedIn options) :=
  inferInstanceAs (Decidable (∃ text ∈ options, pass.NamedBy text))

instance {P : Pass → Prop} [DecidablePred P] : Decidable (∀ pass, P pass) :=
  decidable_of_iff (∀ pass ∈ all, P pass)
    ⟨fun h pass => h pass pass.mem_all, fun h pass _ => h pass⟩

instance (options : List String) : Decidable (AllKnown options) :=
  decidable_of_iff (∀ text ∈ options, ∃ pass ∈ all, pass.NamedBy text)
    ⟨fun h text htext => (h text htext).imp fun _ hpass => hpass.2,
      fun h text htext => (h text htext).imp fun pass hpass => ⟨pass.mem_all, hpass⟩⟩

private theorem ofOption?_eq_none_iff {text : String} :
    (ofOption? (optionOf text)).isNone ↔ ∀ pass : Pass, ¬pass.NamedBy text := by
  simp only [← optionOf_eq_option_iff, ofOption?, Option.isNone_iff_eq_none, List.find?_eq_none,
    beq_iff_eq]
  exact ⟨fun h pass heq => h pass pass.mem_all heq.symm, fun h pass _ heq => h pass heq.symm⟩

private theorem find?_unknown_eq_none {options : List String} (h : AllKnown options) :
    (options.map optionOf).find? (fun name => (ofOption? name).isNone) = none := by
  rw [List.find?_eq_none, List.forall_mem_map]
  intro text htext hnone
  obtain ⟨pass, hpass⟩ := h text htext
  exact ofOption?_eq_none_iff.mp hnone pass hpass

section Named

variable {options : List String} {passes : List Pass}

/-- Texts are known if they name the passes of a list one by one. -/
theorem allKnown_of_named (h : options.map optionOf = passes.map option) : AllKnown options := by
  intro text htext
  have hname : optionOf text ∈ passes.map option := h ▸ List.mem_map_of_mem htext
  obtain ⟨pass, -, hpass⟩ := List.mem_map.mp hname
  exact ⟨pass, optionOf_eq_option_iff.mp hpass.symm⟩

private theorem namedIn_iff_of_named {pass : Pass} (h : options.map optionOf = passes.map option) :
    pass.NamedIn options ↔ pass ∈ passes := by
  rw [← List.mem_map_of_injective option_injective, ← h, List.mem_map]
  exact exists_congr fun text => and_congr_right fun _ => optionOf_eq_option_iff.symm

end Named

/-! ## Selections -/

/-- Known texts select the passes that they name, from the list of all passes. -/
theorem select_of_known {options : List String} (h : AllKnown options) :
    select options = .ok (all.filter fun pass => pass.NamedIn options) := by
  have hwanted : ∀ pass ∈ all, (options.map optionOf).contains pass.option =
      decide (pass.NamedIn options) := by
    intro pass _
    rw [← List.elem_eq_contains, List.elem_eq_mem]
    refine decide_eq_decide.mpr ?_
    rw [List.mem_map]
    exact exists_congr fun text => and_congr_right fun _ => optionOf_eq_option_iff
  unfold select
  simp only [find?_unknown_eq_none h]
  rw [List.filter_congr hwanted]

/-- The first text that names no pass is the one complained about. -/
theorem select_of_unknown {before after : List String} {text : String} (hbefore : AllKnown before)
    (htext : ∀ pass : Pass, ¬pass.NamedBy text) :
    select (before ++ text :: after) = .error (.unknownPass (optionOf text)) := by
  have hunknown : (ofOption? (optionOf text)).isNone := ofOption?_eq_none_iff.mpr htext
  have hfirst : ((before ++ text :: after).map optionOf).find?
      (fun name => (ofOption? name).isNone) = some (optionOf text) := by
    rw [List.map_append, List.find?_append, find?_unknown_eq_none hbefore, Option.none_or,
      List.map_cons, List.find?_cons, hunknown]
  unfold select
  simp only [hfirst]

end Pass

/-! ## Runs in turn -/

/-- Passes run one after the other, each on the model that those before it have made, until there is
none left or one fails. -/
inductive RunsInTurn (context : PassContext) :
    CodeModel → List Pass → Except SynthError (List PassReport) → CodeModel → Prop
  | nil (m : CodeModel) : RunsInTurn context m [] (.ok []) m
  | cons {m n : CodeModel} {pass : Pass} {rest : List Pass} {report : PassReport}
      {others : Except SynthError (List PassReport)} :
      (pass.run context m).outcome = .ok report → report.option = pass.option →
      RunsInTurn context (pass.run context m).model rest others n →
      RunsInTurn context m (pass :: rest) (others.map (report :: ·)) n
  | fail {m : CodeModel} {pass : Pass} {rest : List Pass} {e : SynthError} :
      (pass.run context m).outcome = .error e →
      RunsInTurn context m (pass :: rest) (.error e) (pass.run context m).model

/-- A run is one of its passes in turn, whose reports come after those that were there before. -/
theorem EngineRun.runPasses_inTurn (context : PassContext) (m : CodeModel) (report : RunReport)
    (passes : List Pass) :
    ∃ reports, RunsInTurn context m passes reports (runPasses context m report passes).model ∧
      (runPasses context m report passes).outcome.map (·.passes) =
        reports.map (report.passes ++ ·) := by
  induction passes generalizing m report with
  | nil => exact ⟨.ok [], .nil m, by simp [runPasses, Except.map]⟩
  | cons pass rest ih =>
    cases hrun : (pass.run context m).outcome with
    | error e =>
      have hfail : RunsInTurn context m (pass :: rest) (.error e) (pass.run context m).model :=
        .fail hrun
      exact ⟨.error e, by simpa [runPasses, hrun] using hfail,
        by simp [runPasses, hrun, Except.map]⟩
    | ok passReport =>
      obtain ⟨others, hturn, houtcome⟩ := ih (pass.run context m).model (report.add passReport)
      refine ⟨others.map (passReport :: ·), ?_, ?_⟩
      · simpa [runPasses, hrun] using RunsInTurn.cons hrun (Pass.run_performed hrun).option hturn
      · simp only [runPasses, hrun, houtcome]
        cases others with
        | error e => rfl
        | ok reports => simp [Except.map, RunReport.add]

/-! ## Sessions -/

namespace Session

variable {s : Session} {options options' : List String}

private theorem synthesize_eq_of_plan (h : s.model.plan options = s.model.plan options') :
    s.synthesize options = s.synthesize options' := by
  unfold synthesize activeIn BeanSynthesis.synthesize
  rw [h]

/-- A run that cannot be planned answers why and changes nothing. -/
theorem synthesize_of_plan_error {e : SynthError} (h : s.model.plan options = .error e) :
    s.synthesize options = (.error e, [], s) := by
  unfold synthesize activeIn BeanSynthesis.synthesize
  rw [h]
  rfl

/-- A run that can be planned is one of the planned passes in turn. -/
theorem synthesize_inTurn {selected : List Pass} (h : s.model.plan options = .ok selected) :
    (s.synthesize options).2.2.active = selected.map Pass.option ∧
      RunsInTurn ⟨s.settings, selected.map Pass.option⟩ s.model selected
        ((s.synthesize options).1.map (·.passes)) (s.synthesize options).2.2.model := by
  obtain ⟨reports, hturn, houtcome⟩ :=
    EngineRun.runPasses_inTurn ⟨s.settings, selected.map Pass.option⟩ s.model {} selected
  have hreports : (s.synthesize options).1.map (·.passes) = reports := by
    change (BeanSynthesis.synthesize s.settings s.model options).outcome.map _ = _
    rw [synthesize_outcome h, houtcome]
    cases reports <;> rfl
  refine ⟨?_, ?_⟩
  · change s.activeIn options = _
    unfold activeIn
    rw [h]
  · rw [hreports]
    change RunsInTurn _ _ _ _ (BeanSynthesis.synthesize s.settings s.model options).model
    rw [synthesize_model h]
    exact hturn

/-- A run depends on the set of passes that the texts name. Where all texts are known, these passes
run in turn, once each and in the order of all passes, and they are the active ones. At the first
text that is not known the run ends, and the session stays as it was. -/
theorem synthesize_of_names (s : Session) (hvalid : s.model.validate = .ok ()) :
    (∀ options options', Pass.AllKnown options → Pass.AllKnown options' →
      (∀ pass : Pass, pass.NamedIn options ↔ pass.NamedIn options') →
        s.synthesize options = s.synthesize options') ∧
    (∀ options, Pass.AllKnown options → ∃ selected : List Pass, selected.Sublist Pass.all ∧
      (∀ pass, pass ∈ selected ↔ pass.NamedIn options) ∧
        (s.synthesize options).2.2.active = selected.map Pass.option ∧
          RunsInTurn ⟨s.settings, selected.map Pass.option⟩ s.model selected
            ((s.synthesize options).1.map (·.passes)) (s.synthesize options).2.2.model) ∧
    ∀ before text after, Pass.AllKnown before → (∀ pass : Pass, ¬pass.NamedBy text) →
      s.synthesize (before ++ text :: after) =
        (.error (.unknownPass (Pass.optionOf text)), [], s) := by
  have hplan : ∀ options, s.model.plan options = Pass.select options :=
    CodeModel.plan_of_valid hvalid
  refine ⟨fun options options' hknown hknown' hsame => ?_, fun options hknown => ?_,
    fun before text after hbefore htext => ?_⟩
  · refine synthesize_eq_of_plan ?_
    rw [hplan, hplan, Pass.select_of_known hknown, Pass.select_of_known hknown']
    simp only [hsame]
  · have hselect := (hplan options).trans (Pass.select_of_known hknown)
    exact ⟨_, List.filter_sublist, fun pass => by simp [pass.mem_all], synthesize_inTurn hselect⟩
  · exact synthesize_of_plan_error
      ((hplan _).trans (Pass.select_of_unknown hbefore htext))

/-- Two passes, named in either order, with dashes, white space and one of them twice, and then
beside a text that names none. -/
theorem synthesize_of_names_order :
    let s : Session := { model := { classes := [{ name := "shop.Order" }] }, settings := {} }
    let tidy := ["Xph-equalshashcode", "Xph-tostring"]
    let untidy := [" --Xph-tostring", "-Xph-equalshashcode\n", "Xph-tostring"]
    s.model.validate = .ok () ∧ Pass.AllKnown tidy ∧ Pass.AllKnown untidy ∧
      (∀ pass : Pass, pass.NamedIn tidy ↔ pass.NamedIn untidy) ∧
        s.synthesize tidy = s.synthesize untidy ∧
          s.synthesize (untidy ++ [" -Xph-string ", "Xph-csu"]) =
            (.error (.unknownPass "Xph-string"), [], s) := by
  intro s tidy untidy
  have hvalid : s.model.validate = .ok () := rfl
  have htidy : tidy.map Pass.optionOf = [Pass.equality, .description].map Pass.option := by
    decide +kernel
  have huntidy : untidy.map Pass.optionOf =
      [Pass.description, .equality, .description].map Pass.option := by
    decide +kernel
  have hsame (pass : Pass) : pass.NamedIn tidy ↔ pass.NamedIn untidy := by
    rw [Pass.namedIn_iff_of_named htidy, Pass.namedIn_iff_of_named huntidy]
    simp only [List.mem_cons, List.not_mem_nil]
    tauto
  have hname : Pass.optionOf " -Xph-string " = "Xph-string" := by decide +kernel
  have hunknown : ∀ pass : Pass, ¬pass.NamedBy " -Xph-string " :=
    Pass.ofOption?_eq_none_iff.mp (hname ▸ by decide +kernel)
  obtain ⟨hequal, -, hfirst⟩ := synthesize_of_names s hvalid
  have hknown := Pass.allKnown_of_named htidy
  have hknown' := Pass.allKnown_of_named huntidy
  exact ⟨hvalid, hknown, hknown', hsame, hequal tidy untidy hknown hknown' hsame,
    hname ▸ hfirst untidy " -Xph-string " ["Xph-csu"] hknown' hunknown⟩

end Session

end BeanSynthesis
