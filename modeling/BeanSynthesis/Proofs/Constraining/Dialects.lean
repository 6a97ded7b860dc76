import BeanSynthesis.Proofs.Constraining.Findings
import BeanSynthesis.Proofs.Edits.Touches

/-!
# Two dialects of constraints

The dialects ask for the same annotations, except that one of them marks an exclusive bound with a
parameter of its own. Whether an annotation is added hangs on its class and on the classes of those
before it, so runs in the two dialects stay in step: they fail alike, count alike, and what they
make differs in that parameter only. A run in one dialect leaves nothing to add for the other.
-/

namespace BeanSynthesis

/-! ## The parameter of one dialect -/

/-- The annotation without the parameter that says whether a bound is inclusive. -/
def Annotation.withoutInclusive (a : Annotation) : Annotation :=
  { a with params := a.params.filter (·.1 ≠ "inclusive") }

/-- The second list, with each entry changed that stands beside one of the first list. -/
def alignWith {α : Type} (f : α → α → α) : List α → List α → List α
  | x :: xs, y :: ys => f x y :: alignWith f xs ys
  | _, ys => ys

/-- The field after, without the parameter in the annotations that it has received. -/
def Field.withoutInclusive (before after : Field) : Field :=
  { after with annotations := after.annotations.take before.annotations.length ++
      (after.annotations.drop before.annotations.length).map Annotation.withoutInclusive }

/-- The class after, without the parameter in the annotations that its fields have received. -/
def BeanClass.withoutInclusive (before after : BeanClass) : BeanClass :=
  { after with fields := alignWith Field.withoutInclusive before.fields after.fields }

/-- The model after, without the parameter in the annotations that fields have received. -/
def CodeModel.withoutInclusive (before after : CodeModel) : CodeModel :=
  { after with classes := alignWith BeanClass.withoutInclusive before.classes after.classes }

section

variable {α : Type} {f : α → α → α}

private theorem alignWith_map (g : α → α) (xs : List α) :
    alignWith f xs (xs.map g) = xs.map fun x => f x (g x) := by
  induction xs with
  | nil => rfl
  | cons x rest ih => rw [List.map_cons, alignWith, ih, List.map_cons]

private theorem alignWith_append {xs ys : List α} (h : xs.length = ys.length) (xs' ys' : List α) :
    alignWith f (xs ++ xs') (ys ++ ys') = alignWith f xs ys ++ alignWith f xs' ys' := by
  induction xs generalizing ys with
  | nil =>
    obtain rfl := List.length_eq_zero_iff.mp h.symm
    rfl
  | cons x rest ih =>
    cases ys with
    | nil => cases h
    | cons y others =>
      simp only [List.cons_append, alignWith, ih (Nat.succ.inj h)]

private theorem alignWith_self (h : ∀ x, f x x = x) (xs : List α) : alignWith f xs xs = xs := by
  induction xs with
  | nil => rfl
  | cons x rest ih => rw [alignWith, h, ih]

end

private theorem Field.withoutInclusive_self (f : Field) : f.withoutInclusive f = f := by
  simp [withoutInclusive]

private theorem BeanClass.withoutInclusive_self (c : BeanClass) : c.withoutInclusive c = c := by
  rw [withoutInclusive, alignWith_self Field.withoutInclusive_self]

/-- Sweeps that count alike for each class have the same outcome. -/
theorem sweep_outcome_congr {f g : BeanClass → Step Changed} {classes : List BeanClass}
    (h : ∀ c ∈ classes, (f c).outcome.map (·.2) = (g c).outcome.map (·.2)) :
    (sweep f classes).outcome = (sweep g classes).outcome := by
  induction classes with
  | nil => rfl
  | cons c rest ih =>
    obtain ⟨hc, hrest⟩ := List.forall_mem_cons.mp h
    cases hf : (f c).outcome with
    | error e =>
      cases hg : (g c).outcome with
      | error e' =>
        rw [hf, hg] at hc
        rw [sweep_cons_of_error hf, sweep_cons_of_error hg, Except.error.inj hc]
      | ok changed => simp [hf, hg, Except.map] at hc
    | ok changed =>
      cases hg : (g c).outcome with
      | error e' => simp [hf, hg, Except.map] at hc
      | ok changed' =>
        rw [hf, hg] at hc
        have htally : changed.2 = changed'.2 := Except.ok.inj hc
        rw [sweep_cons_of_ok hf, sweep_cons_of_ok hg]
        dsimp only
        rw [htally, ih hrest]

namespace Constraints

variable {v : ValidationSettings} {settings : Settings} {dialect : ValidationDialect}
  {context : PassContext} {m n : CodeModel} {c after : BeanClass} {f : Field} {p : Property}
  {tally : Tally}

/-! ## What is asked for -/

/-- The finding without the parameter that says whether a bound is inclusive. -/
def Finding.withoutInclusive : Finding → Finding
  | .constraint mark => .constraint mark.withoutInclusive
  | .sentinel facet literal => .sentinel facet literal

private theorem mark?_withoutInclusive (finding : Finding) :
    finding.withoutInclusive.mark? = finding.mark?.map Annotation.withoutInclusive := by
  cases finding <;> rfl

private theorem withoutInclusive_lengthFindings (v : ValidationSettings) (t : TypeExpr)
    (s : SimpleType) :
    (lengthFindings v t s).map Finding.withoutInclusive = lengthFindings v t s := by
  unfold lengthFindings
  dsimp only
  split
  · cases s.intFacet? "minLength" <;> cases s.intFacet? "maxLength" <;> rfl
  · rfl

private theorem withoutInclusive_patternFindings (v : ValidationSettings) (s : SimpleType) :
    (patternFindings v s).map Finding.withoutInclusive = patternFindings v s := by
  unfold patternFindings
  split
  · split <;> rfl
  · rfl

private theorem withoutInclusive_boundFindings (v : ValidationSettings) (s : SimpleType)
    (facet constraint : String) (exclusive : Bool) :
    (boundFindings v .jsr349 s facet constraint exclusive).map Finding.withoutInclusive =
      boundFindings v .jsr303 s facet constraint exclusive := by
  unfold boundFindings
  split
  · rfl
  · split
    · rfl
    · cases exclusive <;> rfl

private theorem withoutInclusive_digitFindings (v : ValidationSettings) (s : SimpleType) :
    (digitFindings v s).map Finding.withoutInclusive = digitFindings v s := by
  unfold digitFindings
  split
  · rfl
  · split <;> rfl

private theorem withoutInclusive_facetFindings (v : ValidationSettings) (m : CodeModel)
    (t : TypeExpr)
    (s : SimpleType) : (facetFindings v .jsr349 m t s).map Finding.withoutInclusive =
      facetFindings v .jsr303 m t s := by
  unfold facetFindings rangeFindings
  simp only [List.map_append, withoutInclusive_lengthFindings, withoutInclusive_patternFindings,
    withoutInclusive_digitFindings]
  split
  · simp only [List.map_append, withoutInclusive_boundFindings]
  · rfl

private theorem withoutInclusive_requiredFindings (v : ValidationSettings) (required : Bool) :
    (requiredFindings v required).map Finding.withoutInclusive = requiredFindings v required := by
  unfold requiredFindings
  split <;> rfl

private theorem withoutInclusive_occurrenceFindings (v : ValidationSettings) (minOccurs : Nat)
    (maxOccurs : MaxOccurs) :
    (occurrenceFindings v minOccurs maxOccurs).map Finding.withoutInclusive =
      occurrenceFindings v minOccurs maxOccurs := by
  unfold occurrenceFindings
  split
  · rfl
  · split <;> rfl
  · split <;> rfl

private theorem withoutInclusive_particulars (v : ValidationSettings) (m : CodeModel) (t : TypeExpr)
    (kind : PropertyKind) :
    (particulars v m t kind).map Finding.withoutInclusive = particulars v m t kind := by
  have hnested : ∀ nested : Bool,
      (if nested then [Finding.constraint (.ofName v.valid)] else []).map Finding.withoutInclusive =
        if nested then [Finding.constraint (.ofName v.valid)] else [] := by
    intro nested
    cases nested <;> rfl
  cases kind with
  | element minOccurs maxOccurs required term =>
    simp only [particulars, List.map_append, withoutInclusive_requiredFindings,
      withoutInclusive_occurrenceFindings, hnested]
  | attr required s => exact withoutInclusive_requiredFindings v required
  | value s => rfl
  | reference => rfl

/-- The dialects find the same, up to the parameter of one of them. -/
theorem withoutInclusive_findings (v : ValidationSettings) (m : CodeModel) (t : TypeExpr)
    (kind : PropertyKind) : (findings v .jsr349 m t kind).map Finding.withoutInclusive =
      findings v .jsr303 m t kind := by
  rw [findings_split, findings_split, List.map_append, withoutInclusive_particulars,
    List.map_flatMap]
  simp only [withoutInclusive_facetFindings]

private theorem withoutInclusive_marks (v : ValidationSettings) (m : CodeModel) (p : Property)
    (t : TypeExpr) :
    (marks v .jsr349 m p t).map Annotation.withoutInclusive = marks v .jsr303 m p t := by
  have hmark : Finding.mark? ∘ Finding.withoutInclusive =
      fun finding => finding.mark?.map Annotation.withoutInclusive :=
    funext mark?_withoutInclusive
  rw [marks, marks, ← withoutInclusive_findings, List.filterMap_map, hmark, List.map_filterMap]

private theorem withoutInclusive_demanded (v : ValidationSettings) (m : CodeModel)
    (properties : List Property) (f : Field) :
    (demanded v .jsr349 m properties f).map Annotation.withoutInclusive =
      demanded v .jsr303 m properties f := by
  simp only [demanded, List.map_flatMap, withoutInclusive_marks]

/-! ## What is added -/

private theorem markField_withoutInclusive (as : List Annotation) (f : Field) :
    markField (as.map Annotation.withoutInclusive) f = f.withoutInclusive (markField as f) := by
  have hnew : newMarks f (as.map Annotation.withoutInclusive) =
      (newMarks f as).map Annotation.withoutInclusive :=
    newcomers_map fun _ => rfl
  simp [markField, Field.withoutInclusive, hnew]

private theorem markFirsts_withoutInclusive (demand : Field → List Annotation) (seen : List String)
    (fields : List Field) :
    markFirsts (fun f => (demand f).map Annotation.withoutInclusive) seen fields =
      alignWith Field.withoutInclusive fields (markFirsts demand seen fields) := by
  induction fields generalizing seen with
  | nil => rfl
  | cons f rest ih =>
    rw [markFirsts, markFirsts, alignWith, ih]
    split
    · rw [Field.withoutInclusive_self]
    · rw [markField_withoutInclusive]

private theorem withoutInclusive_constrained (settings : Settings) (m : CodeModel) (c : BeanClass) :
    c.withoutInclusive (constrained settings .jsr349 m c) = constrained settings .jsr303 m c := by
  unfold constrained
  split
  · exact c.withoutInclusive_self
  · simp only [BeanClass.withoutInclusive, ← markFirsts_withoutInclusive,
      withoutInclusive_demanded]

/-- Both dialects make the same model, up to the parameter of one of them. -/
theorem withoutInclusive_run (context : PassContext) (m : CodeModel) :
    m.withoutInclusive (run .jsr349 context m).model = (run .jsr303 context m).model := by
  -- The classes before the first failure differ in the parameter, those after it are the same.
  have hsplit : ∀ treated rest : List BeanClass,
      alignWith BeanClass.withoutInclusive (treated ++ rest)
          (treated.map (constrained context.settings .jsr349 m) ++ rest) =
        treated.map (constrained context.settings .jsr303 m) ++ rest := by
    intro treated rest
    rw [alignWith_append (by rw [List.length_map]), alignWith_map,
      alignWith_self BeanClass.withoutInclusive_self]
    simp only [withoutInclusive_constrained]
  have hclasses := hsplit (m.classes.takeWhile isTreatable) (m.classes.dropWhile isTreatable)
  rw [List.takeWhile_append_dropWhile] at hclasses
  simp only [run_classes, CodeModel.withoutInclusive, hclasses]

/-! ## What is counted -/

private theorem annotationCount_withoutInclusive (before after : List Field) :
    annotationCount (alignWith Field.withoutInclusive before after) = annotationCount after := by
  induction before generalizing after with
  | nil => rfl
  | cons f rest ih =>
    cases after with
    | nil => rfl
    | cons g others =>
      have hcount := ih others
      have hlength : (f.withoutInclusive g).annotations.length = g.annotations.length := by
        simp only [Field.withoutInclusive, List.length_append, List.length_take, List.length_map,
          List.length_drop]
        omega
      simp only [annotationCount] at hcount
      simp only [alignWith, annotationCount, List.map_cons, List.sum_cons, hcount, hlength]

/-- What is reported of a property that cannot be expressed. -/
def skips (c : BeanClass) (p : Property) : List SkipReason :=
  if (c.field? p.name).isSome then
    (unsupported? p.kind).toList.map fun description => .unsupported c.name p.name description
  else []

private theorem applyProperty_tally
    (h : (applyProperty v dialect m c p).outcome = .ok (after, tally)) :
    tally.classesTouched = 0 ∧ tally.skipped = skips c p := by
  unfold applyProperty at h
  unfold skips
  cases hf : c.field? p.name with
  | none =>
    rw [hf] at h
    obtain rfl := congrArg Prod.snd (Except.ok.inj h)
    exact ⟨rfl, rfl⟩
  | some f =>
    rw [hf] at h
    obtain ⟨changed, -, h⟩ := Step.bind_eq_ok.mp h
    cases hkind : unsupported? p.kind with
    | none =>
      simp only [hkind] at h
      obtain rfl := congrArg Prod.snd (Except.ok.inj h)
      exact ⟨rfl, rfl⟩
    | some description =>
      simp only [hkind] at h
      obtain ⟨-, -, h⟩ := Step.bind_eq_ok.mp h
      obtain rfl := congrArg Prod.snd (Except.ok.inj h)
      exact ⟨rfl, rfl⟩

private theorem skips_constrain (c : BeanClass) (p : Property) :
    skips { c with fields := constrain v dialect m c.fields p } = skips c := by
  funext q
  have hgrows : List.Forall₂ Field.Grows c.fields (constrain v dialect m c.fields p) :=
    constrain_grows c.fields p
  have hrel := Field.Grows.find?_rel hgrows q.name
  unfold skips BeanClass.field?
  dsimp only
  generalize c.fields.find? _ = before, (constrain v dialect m c.fields p).find? _ = after at hrel ⊢
  cases hrel with
  | none => rfl
  | some hf => rfl

private theorem applyProperties_tally {properties : List Property}
    (h : (applyProperties v dialect m c properties).outcome = .ok (after, tally)) :
    tally.classesTouched = 0 ∧ tally.skipped = properties.flatMap (skips c) := by
  induction properties generalizing c after tally with
  | nil =>
    obtain rfl := congrArg Prod.snd (Except.ok.inj h)
    exact ⟨rfl, rfl⟩
  | cons p rest ih =>
    obtain ⟨⟨next, first⟩, hfirst, h⟩ := Step.bind_eq_ok.mp h
    obtain ⟨⟨last, others⟩, hothers, h⟩ := Step.bind_eq_ok.mp h
    obtain rfl := congrArg Prod.snd (Except.ok.inj h)
    obtain ⟨tally, hnext, -⟩ := applyProperty_eq v dialect m c p
    obtain rfl : _ = next := congrArg Prod.fst (Except.ok.inj (hnext.symm.trans hfirst))
    obtain ⟨hnone, hskipped⟩ := applyProperty_tally hfirst
    obtain ⟨hnone', hskipped'⟩ := ih hothers
    rw [skips_constrain] at hskipped'
    constructor
    · change first.classesTouched + others.classesTouched = 0
      rw [hnone, hnone']
    · change first.skipped ++ others.skipped = _
      rw [hskipped, hskipped', List.flatMap_cons]

private theorem onClass_tally (h : (onClass settings dialect m c).outcome = .ok (after, tally)) :
    tally.classesTouched = min 1 tally.membersAdded ∧
      tally.skipped = (constraining c).flatMap (skips c) := by
  unfold onClass at h
  dsimp only at h
  split at h
  · cases h
  · obtain ⟨⟨changed, added⟩, happly, h⟩ := Step.bind_eq_ok.mp h
    obtain ⟨-, -, h⟩ := Step.bind_eq_ok.mp h
    obtain rfl := congrArg Prod.snd (Except.ok.inj h)
    obtain ⟨hnone, hskipped⟩ := applyProperties_tally happly
    rw [Tally.membersAdded_touchIf]
    unfold Tally.touchIf
    split
    case isTrue hsome =>
      have hpositive : 0 < added.membersAdded := of_decide_eq_true hsome
      constructor
      · change added.classesTouched + 1 = min 1 added.membersAdded
        omega
      · exact (List.append_nil _).trans hskipped
    case isFalse hzero =>
      have hnothing : ¬0 < added.membersAdded := fun hpositive => hzero (decide_eq_true hpositive)
      constructor
      · change added.classesTouched + 0 = min 1 added.membersAdded
        omega
      · exact (List.append_nil _).trans hskipped

private theorem onClass_touches : Touches (onClass settings dialect m) :=
  fun _ _ _ h => (onClass_tally h).1

/-- How many annotations the fields of a class receive. -/
def gained (settings : Settings) (dialect : ValidationDialect) (m : CodeModel) (c : BeanClass) :
    Nat :=
  annotationCount (constrained settings dialect m c).fields - annotationCount c.fields

private theorem gained_dialects (settings : Settings) (m : CodeModel) (c : BeanClass) :
    gained settings .jsr349 m c = gained settings .jsr303 m c := by
  rw [gained, gained, ← withoutInclusive_constrained, BeanClass.withoutInclusive]
  dsimp only
  rw [annotationCount_withoutInclusive]

/-- What is counted for a class. -/
theorem exceptEnums_onClass_tally
    (h : (exceptEnums (onClass settings dialect m) c).outcome = .ok (after, tally)) :
    tally = {
      classesTouched := min 1 (gained settings dialect m c)
      membersAdded := gained settings dialect m c
      skipped := if c.isEnum then [] else (constraining c).flatMap (skips c) } := by
  have hadded : tally.membersAdded = gained settings dialect m c :=
    (exceptEnums_onClass_makes c after tally h).2
  have htouched := onClass_touches.exceptEnums c after tally h
  have hskipped : tally.skipped =
      if c.isEnum then [] else (constraining c).flatMap (skips c) := by
    unfold exceptEnums at h
    split at h
    case isTrue henum =>
      obtain rfl := congrArg Prod.snd (Except.ok.inj h)
      rw [if_pos henum]
    case isFalse hplain =>
      rw [if_neg hplain]
      exact (onClass_tally h).2
  rw [← hadded, ← htouched, ← hskipped]

private theorem exceptEnums_onClass_dialects (settings : Settings) (m : CodeModel) (c : BeanClass) :
    (exceptEnums (onClass settings .jsr303 m) c).outcome.map (·.2) =
      (exceptEnums (onClass settings .jsr349 m) c).outcome.map (·.2) := by
  have hfailure : failure? (exceptEnums (onClass settings .jsr303 m) c).outcome =
      failure? (exceptEnums (onClass settings .jsr349 m) c).outcome := by
    simp only [failure?_exceptEnums, failure?_onClass]
  cases h : (exceptEnums (onClass settings .jsr303 m) c).outcome with
  | error e =>
    rw [h] at hfailure
    rw [failure?_eq_some.mp hfailure.symm]
  | ok first =>
    rw [h] at hfailure
    obtain ⟨second, h'⟩ := failure?_eq_none.mp hfailure.symm
    have htally : first.2 = second.2 := by
      rw [exceptEnums_onClass_tally h, exceptEnums_onClass_tally h', gained_dialects]
    rw [h']
    exact congrArg Except.ok htally

/-- Both dialects fail alike and count alike. -/
theorem run_tally (context : PassContext) (m : CodeModel) :
    (run .jsr303 context m).outcome.map (·.tally) =
      (run .jsr349 context m).outcome.map (·.tally) := by
  have hsweep := sweep_outcome_congr fun c (_ : c ∈ m.classes) =>
    exceptEnums_onClass_dialects context.settings m c
  have htally : ∀ dialect, (run dialect context m).outcome.map (·.tally) =
      (sweep (exceptEnums (onClass context.settings dialect m)) m.classes).outcome := by
    intro dialect
    unfold run PassRun.ofSweep
    dsimp only
    cases (sweep (exceptEnums (onClass context.settings dialect m)) m.classes).outcome <;> rfl
  rw [htally, htally, hsweep]

/-! ## One dialect after the other -/

/-- What one dialect asks for is there when what the other one asks for is. -/
theorem meets_dialects {fields : List Field} (h : Meets v .jsr303 m fields p) :
    Meets v .jsr349 m fields p := by
  intro f hf a ha
  have hmem : a.withoutInclusive ∈ marks v .jsr303 m p f.type := by
    rw [← withoutInclusive_marks]
    exact List.mem_map_of_mem ha
  have hclass := h f hf a.withoutInclusive hmem
  exact hclass

/-- What one dialect has made of a class is left as it is by the other one. -/
theorem constrained_idle (hgrows : m.Grows settings [option .jsr303] n) (c : BeanClass) :
    constrained settings .jsr349 n (constrained settings .jsr303 m c) =
      constrained settings .jsr303 m c := by
  by_cases henum : c.isEnum
  · simp only [constrained, if_pos henum]
  · have hidle : constrainAll settings.validation .jsr349 n (constraining c)
          (constrainAll settings.validation .jsr303 m (constraining c) c.fields) =
        constrainAll settings.validation .jsr303 m (constraining c) c.fields := by
      rw [constrainAll_eq_of_grows hgrows]
      exact constrainAll_eq_self_iff.mpr fun p hp => meets_dialects (meets_constrainAll hp _)
    rw [constrained_plain henum]
    refine Eq.trans (constrained_plain ?_) (congrArg (fun fields => { c with fields }) hidle)
    exact henum

/-- A run that succeeds counts what the classes receive. -/
theorem run_counts {report : PassReport} (hok : (run dialect context m).outcome = .ok report) :
    report.tally.membersAdded = (m.classes.map (gained context.settings dialect m)).sum ∧
      report.tally.classesTouched =
        (m.classes.map fun c => min 1 (gained context.settings dialect m c)).sum := by
  unfold run PassRun.ofSweep at hok
  dsimp only at hok
  cases hsweep : (sweep (exceptEnums (onClass context.settings dialect m)) m.classes).outcome with
  | error e => simp [hsweep, Except.map] at hok
  | ok tally =>
    obtain rfl : _ = report := by simpa [hsweep, Except.map] using hok
    exact ⟨(exceptEnums_onClass_makes.sweep hsweep).2,
      exceptEnums_onClass_makes.sweep_touches onClass_touches.exceptEnums hsweep⟩

/-- A run that succeeds and adds nothing. -/
structure Idle (m : CodeModel) (run : PassRun) : Prop where
  model : run.model = m
  counts : ∃ report, run.outcome = .ok report ∧ report.tally.membersAdded = 0 ∧
    report.tally.classesTouched = 0

/-- A run in one dialect leaves nothing to add for the other one. -/
theorem run_idle {report : PassReport} (hok : (run .jsr303 context m).outcome = .ok report) :
    Idle (run .jsr303 context m).model (run .jsr349 context (run .jsr303 context m).model) := by
  have hgrows : m.Grows context.settings [option .jsr303] (run .jsr303 context m).model :=
    (Pass.constraints .jsr303).run_grows context m
  -- The second run cannot fail either: what the pass misses is not changed by the first one.
  have hobjection : (Pass.constraints .jsr303).objectionTo? context.settings m = none := by
    rw [← Pass.failure?_run]
    exact failure?_eq_none.mpr ⟨report, hok⟩
  obtain ⟨again, hagain⟩ : ∃ again,
      (run .jsr349 context (run .jsr303 context m).model).outcome = .ok again := by
    refine failure?_eq_none.mp ?_
    change failure? ((Pass.constraints .jsr349).run context _).outcome = none
    rw [Pass.failure?_run, hgrows.objectionTo?_eq]
    exact hobjection
  have hidle : ∀ c ∈ (run .jsr303 context m).model.classes,
      constrained context.settings .jsr349 (run .jsr303 context m).model c = c := by
    intro c hc
    obtain ⟨b, -, rfl⟩ := List.mem_map.mp (congrArg CodeModel.classes (run_of_ok hok) ▸ hc)
    exact constrained_idle hgrows b
  have hnone : ∀ c ∈ (run .jsr303 context m).model.classes,
      gained context.settings .jsr349 (run .jsr303 context m).model c = 0 := by
    intro c hc
    rw [gained, hidle c hc, Nat.sub_self]
  obtain ⟨hadded, htouched⟩ := run_counts hagain
  refine ⟨?_, again, hagain, ?_, ?_⟩
  · rw [run_of_ok hagain, map_eq_self_iff.mpr hidle]
  · rw [hadded, List.map_congr_left hnone]
    simp
  · rw [htouched, List.map_congr_left fun c hc => congrArg (min 1) (hnone c hc)]
    simp

/-- Options that name both dialects, and nothing else, however often and in whatever order. -/
def NamesBoth (options : List String) : Prop :=
  ∀ name, name ∈ options.map Pass.optionOf ↔ name = option .jsr303 ∨ name = option .jsr349

private theorem NamesBoth.select_eq {options : List String} (h : NamesBoth options) :
    Pass.select options = .ok [.constraints .jsr303, .constraints .jsr349] := by
  have hknown : (options.map Pass.optionOf).find? (fun name => (Pass.ofOption? name).isNone) =
      none := by
    rw [List.find?_eq_none]
    intro name hname
    rcases (h name).mp hname with rfl | rfl
    · decide
    · decide
  have hwanted : ∀ pass : Pass, (options.map Pass.optionOf).contains pass.option =
      decide (pass.option = option .jsr303 ∨ pass.option = option .jsr349) := by
    intro pass
    rw [← List.elem_eq_contains, List.elem_eq_mem]
    exact decide_eq_decide.mpr (h pass.option)
  unfold Pass.select
  simp only [hknown, hwanted]
  rfl

/-- Runs in the two dialects that have done the same, up to the parameter of one of them. -/
structure InStep (m : CodeModel) (first second : PassRun) : Prop where
  succeeds_iff : (∃ report, first.outcome = .ok report) ↔ ∃ report, second.outcome = .ok report
  /-- The same classes, members and omissions are counted, or the same error ends both. -/
  tally : first.outcome.map (·.tally) = second.outcome.map (·.tally)
  model : m.withoutInclusive second.model = first.model

private theorem run_inStep (context : PassContext) (m : CodeModel) :
    InStep m (run .jsr303 context m) (run .jsr349 context m) where
  succeeds_iff := by
    rw [← failure?_eq_none, ← failure?_eq_none, ← failure?_map _ PassReport.tally, run_tally,
      failure?_map]
  tally := run_tally context m
  model := withoutInclusive_run context m

/-- A run with both dialects is a run with the first one. -/
theorem runPasses_both (context : PassContext) (m : CodeModel) (report : RunReport) :
    (EngineRun.runPasses context m report [.constraints .jsr303, .constraints .jsr349]).model =
      (run .jsr303 context m).model := by
  unfold EngineRun.runPasses
  dsimp only
  split
  · rfl
  case h_2 first hfirst =>
    have hidle : Idle (run .jsr303 context m).model
      (run .jsr349 context (run .jsr303 context m).model) := run_idle hfirst
    unfold EngineRun.runPasses
    dsimp only
    split
    · exact hidle.model
    · exact hidle.model

/-- The two dialects differ in the parameter for exclusive bounds only: runs over a model succeed or
fail alike, count alike, and make the same model up to this parameter. What one has made leaves
nothing to add for the other, so that the two together do what the first one does. -/
theorem dialects_differ_in_inclusive (hvalid : m.validate = .ok ()) (context : PassContext) :
    InStep m (run .jsr303 context m) (run .jsr349 context m) ∧
      (∀ report, (run .jsr303 context m).outcome = .ok report →
        Idle (run .jsr303 context m).model
          (run .jsr349 context (run .jsr303 context m).model)) ∧
      ∀ options, NamesBoth options →
        (synthesize context.settings m options).model = (run .jsr303 context m).model ∧
          ((∃ report, (synthesize context.settings m options).outcome = .ok report) ↔
            ∃ report, (run .jsr303 context m).outcome = .ok report) := by
  refine ⟨run_inStep context m, fun report hok => run_idle hok, fun options hboth => ?_⟩
  have hplan : m.plan options = .ok [.constraints .jsr303, .constraints .jsr349] := by
    rw [CodeModel.plan_of_valid hvalid, hboth.select_eq]
  constructor
  · rw [synthesize_model hplan, runPasses_both]
    rfl
  · rw [← failure?_eq_none, ← failure?_eq_none, failure?_synthesize, hplan]
    have hfirst := (Pass.constraints .jsr303).failure?_run context m
    have hsecond : (Pass.constraints .jsr349).objectionTo? context.settings m =
      (Pass.constraints .jsr303).objectionTo? context.settings m := rfl
    change _ ↔ failure? ((Pass.constraints .jsr303).run context m).outcome = none
    rw [hfirst]
    simp [hsecond]

/-- A class with a bound that is exclusive and a construct that cannot be expressed. -/
def parcel : CodeModel where
  classes := [{
    name := "shop.Parcel"
    fields := [
      { name := "weight", type := .named "java.math.BigDecimal" [] },
      { name := "label", type := .named "java.lang.String" [] }]
    properties := [
      { name := "weight", publicName := "Weight"
        kind := .attr true (some (({} : SimpleType).withFacet "maxExclusive" "30")) },
      { name := "label", publicName := "Label"
        kind := .element 0 .one false (.unsupported "wildcard") }] }]

/-- A parcel with an exclusive bound, and with a construct that cannot be expressed, is treated
alike in both dialects up to the flag of the bound; with both selected the first one decides. -/
theorem parcel_differs_in_inclusive :
    let context : PassContext := { settings := {}, active := [] }
    let first := run .jsr303 context parcel
    let both := synthesize {} parcel ["-Xph-bean-validation11", "Xph-bean-validation10"]
    parcel.validate = .ok () ∧ (∃ report, first.outcome = .ok report) ∧
      InStep parcel first (run .jsr349 context parcel) ∧
      Idle first.model (run .jsr349 context first.model) ∧ both.model = first.model := by
  intro context first both
  have hvalid : parcel.validate = .ok () := by decide +kernel
  have hok : ∃ report, first.outcome = .ok report := by
    rw [← failure?_eq_none]
    decide +kernel
  have hoptions : ["-Xph-bean-validation11", "Xph-bean-validation10"].map Pass.optionOf =
      [option .jsr349, option .jsr303] := by decide +kernel
  have hboth : NamesBoth ["-Xph-bean-validation11", "Xph-bean-validation10"] := by
    intro name
    rw [hoptions, List.mem_pair, or_comm]
  obtain ⟨hstep, hidle, hselect⟩ := dialects_differ_in_inclusive hvalid context
  obtain ⟨report, hreport⟩ := hok
  exact ⟨hvalid, ⟨report, hreport⟩, hstep, hidle report hreport, (hselect _ hboth).1⟩

end Constraints

end BeanSynthesis
