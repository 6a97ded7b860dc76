import BeanSynthesis.Proofs.Edits.Touches
import BeanSynthesis.Proofs.Exchange.Codec

/-!
# What reports tell

A report tells whether its pass has changed the model, except for what the pass writes silently. And
it tells how many classes have received members, unless a class has received some from several of
the treatments that make up the pass for carried values.
-/

namespace BeanSynthesis

variable {context : PassContext} {m : CodeModel} {c : BeanClass} {pass : Pass} {report : PassReport}

/-! ## Whether anything has changed -/

/-- A pass that succeeds leaves the model as it is if and only if it reports no member as added and
does nothing silently. -/
theorem Pass.run_unchanged_iff (h : (pass.run context m).outcome = .ok report) :
    (pass.run context m).model = m ↔
      report.tally.membersAdded = 0 ∧ ¬pass.WritesSilently context.settings m := by
  have hperformed := Pass.run_performed h
  rw [hperformed.model]
  exact hperformed.unchanged_iff

/-- A class with both methods for copies, but without the interface of cloneable objects. -/
def copiedOrder : BeanClass :=
  { name := "shop.Order"
    methods := [
      { name := "cloneTo", returnType := .void
        params := [{ name := "ret", type := .ofName "shop.Order" }], body := some [] },
      { name := "clone", returnType := .ofName "shop.Order", body := some [] }] }

/-- An object factory that says what it returns, and that may assign to its parameter. -/
def orderFactory : BeanClass :=
  { name := "shop.ObjectFactory"
    methods := [
      { name := "createOrder"
        returnType := .named "javax.xml.bind.JAXBElement" [.ofName "shop.Order"]
        params := [{ name := "value", type := .ofName "shop.Order" }]
        javadoc.returns := some "The created JAXBElement and never <code>null</code>."
        body := some [] }] }

/-- The report of a run over a class with the methods of cloning, but not the interface, says that
nothing was changed. -/
theorem copiedOrder_changed_silently :
    let context : PassContext := { settings := {}, active := [] }
    let orders : CodeModel := { classes := [copiedOrder] }
    let factories : CodeModel := { objectFactories := [orderFactory] }
    (∃ report, (Pass.copying.run context orders).outcome = .ok report ∧
      report.tally.membersAdded = 0 ∧ (Pass.copying.run context orders).model ≠ orders) ∧
    ∃ report, (Pass.factoryDocs.run context factories).outcome = .ok report ∧
      report.tally.membersAdded = 0 ∧
        (Pass.factoryDocs.run context factories).model ≠ factories := by
  intro context orders factories
  have hlacks : Pass.copying.WritesSilently context.settings orders :=
    ⟨copiedOrder, by simp [orders], by decide, by decide, by decide⟩
  have hlacks' : Pass.factoryDocs.WritesSilently context.settings factories :=
    ⟨orderFactory, by simp [factories], _, List.mem_singleton.mpr rfl, by decide, by decide,
      by decide, _, List.mem_singleton.mpr rfl, by decide⟩
  have hcount : (Pass.copying.run context orders).outcome.map (·.tally.membersAdded) = .ok 0 := by
    decide +kernel
  have hcount' : (Pass.factoryDocs.run context factories).outcome.map (·.tally.membersAdded) =
      .ok 0 := by decide +kernel
  obtain ⟨report, hok, hnone⟩ := Json.map_eq_ok.mp hcount
  obtain ⟨report', hok', hnone'⟩ := Json.map_eq_ok.mp hcount'
  constructor
  · exact ⟨report, hok, hnone, fun hsame => ((Pass.run_unchanged_iff hok).mp hsame).2 hlacks⟩
  · exact ⟨report', hok', hnone', fun hsame => ((Pass.run_unchanged_iff hok').mp hsame).2 hlacks'⟩

/-! ## How many classes have received members -/

/-- A class has more methods or more constructors than before. -/
def BeanClass.isExtendedTo (c d : BeanClass) : Bool :=
  c.methods.length < d.methods.length || c.constructors.length < d.constructors.length

/-- How many classes have more methods or more constructors than before. -/
def extendedClasses (before after : List BeanClass) : Nat :=
  (before.zip after).countP fun (c, d) => c.isExtendedTo d

private theorem extendedClasses_map (classes : List BeanClass) (g : BeanClass → BeanClass) :
    extendedClasses classes (classes.map g) = classes.countP fun c => c.isExtendedTo (g c) := by
  unfold extendedClasses
  induction classes with
  | nil => rfl
  | cons c rest ih => rw [List.map_cons, List.zip_cons_cons, List.countP_cons, List.countP_cons, ih]

private theorem ClassEdit.isExtendedTo_apply (e : ClassEdit) (c : BeanClass) :
    c.isExtendedTo (e.apply c) = decide (0 < e.count c) := by
  rw [BeanClass.isExtendedTo, apply_methods, apply_constructors, List.length_append,
    List.length_append, ← Bool.decide_or, count]
  exact decide_eq_decide.mpr (by omega)

/-- Numbers sum up to how many of them are positive if and only if none is greater than one. -/
theorem sum_eq_countP_pos_iff {α : Type} (f : α → Nat) (xs : List α) :
    (xs.map f).sum = xs.countP (fun x => 0 < f x) ↔ ∀ x ∈ xs, f x ≤ 1 := by
  have hle : ∀ ys : List α, ys.countP (fun x => 0 < f x) ≤ (ys.map f).sum := by
    intro ys
    induction ys with
    | nil => exact Nat.le_refl 0
    | cons y rest ih =>
      rw [List.countP_cons, List.map_cons, List.sum_cons]
      split
      case isTrue hpos => simp only [decide_eq_true_eq] at hpos; omega
      case isFalse => omega
  induction xs with
  | nil => simp
  | cons x rest ih =>
    have hrest := hle rest
    rw [List.map_cons, List.sum_cons, List.countP_cons, List.forall_mem_cons]
    refine Iff.trans ?_ (and_congr_right fun _ => ih)
    split
    case isTrue hpos => simp only [decide_eq_true_eq] at hpos; omega
    case isFalse hnone => simp only [decide_eq_true_eq] at hnone; omega

namespace Pass

/-- The passes that add methods and constructors. -/
def memberPasses : List Pass := accessorPasses ++ [equality, description, copying]

/-- What the treatments of a class by a pass do, one after the other. -/
def parts (pass : Pass) (context : PassContext) (m : CodeModel) (c : BeanClass) : List ClassEdit :=
  match pass with
  | valueAccessors => ValueAccessors.parts context m c
  | _ => [pass.offer context m c]

/-- How many of the treatments of a class add something to it. -/
def touches (pass : Pass) (context : PassContext) (m : CodeModel) (c : BeanClass) : Nat :=
  if c.isEnum then 0 else (pass.parts context m c).countP fun e => 0 < e.count c

private theorem touches_singleton {e : ClassEdit} (c : BeanClass) :
    [e].countP (fun e => 0 < e.count c) = min 1 (e.count c) := by
  rw [List.countP_singleton]
  split
  case isTrue hpos => simp only [decide_eq_true_eq] at hpos; omega
  case isFalse hnone => simp only [decide_eq_true_eq] at hnone; omega

private theorem touched_ofSweep {f : BeanClass → Step Changed} {g : BeanClass → BeanClass}
    (h : Makes f g fun c => (pass.offer context m c).count c) (htouches : Touches f)
    (hparts : ∀ c, pass.parts context m c = [pass.offer context m c])
    (hok : (PassRun.ofSweep pass.option m (exceptEnums f)).outcome = .ok report) :
    report.tally.classesTouched = (m.classes.map (pass.touches context m)).sum := by
  unfold PassRun.ofSweep at hok
  dsimp only at hok
  cases hsweep : (sweep (exceptEnums f) m.classes).outcome with
  | error e => simp [hsweep, Except.map] at hok
  | ok tally =>
    obtain rfl : _ = report := by simpa [hsweep, Except.map] using hok
    dsimp only
    rw [h.exceptEnums.sweep_touches htouches.exceptEnums hsweep]
    congr 2
    funext c
    unfold touches
    by_cases henum : c.isEnum
    · simp [henum]
    · simp only [henum, hparts, touches_singleton, Bool.false_eq_true, if_false]

/-- A pass counts a class once for each treatment that adds something to it. -/
theorem classesTouched_eq (hpass : pass ∈ memberPasses)
    (h : (pass.run context m).outcome = .ok report) :
    report.tally.classesTouched = (m.classes.map (pass.touches context m)).sum := by
  cases pass with
  | localAccessors =>
    exact touched_ofSweep LocalAccessors.onClass_makes LocalAccessors.onClass_touches
      (fun _ => rfl) h
  | valueAccessors =>
    obtain ⟨tally, hok, hcount⟩ := ValueAccessors.run_touches context m
    obtain rfl := Except.ok.inj (hok.symm.trans h)
    exact hcount
  | listAccessors =>
    exact touched_ofSweep ListAccessors.onClass_makes ListAccessors.onClass_touches
      (fun _ => rfl) h
  | equality =>
    exact touched_ofSweep Equality.onClass_makes Equality.onClass_touches (fun _ => rfl) h
  | description =>
    exact touched_ofSweep Description.onClass_makes Description.onClass_touches (fun _ => rfl) h
  | copying => exact touched_ofSweep Copying.onClass_makes Copying.onClass_touches (fun _ => rfl) h
  | _ => simp [memberPasses, accessorPasses] at hpass

/-- A class receives members if and only if one of its treatments adds something. -/
theorem isExtendedTo_editOf (hpass : pass ∈ memberPasses) (c : BeanClass) :
    c.isExtendedTo ((pass.editOf context m c).apply c) =
      decide (0 < pass.touches context m c) := by
  have henums : ∀ pass ∈ memberPasses, pass.treatsEnums = false := by decide
  rw [ClassEdit.isExtendedTo_apply]
  refine decide_eq_decide.mpr ?_
  unfold touches editOf
  by_cases henum : c.isEnum
  · simp [henum, henums pass hpass, ClassEdit.count, BeanClass.newMethods,
      BeanClass.newConstructors, newcomers]
  · simp only [henum, Bool.false_and, Bool.false_eq_true, if_false]
    cases pass with
    | valueAccessors =>
      change 0 < (ValueAccessors.edit context m c).count c ↔
        0 < (ValueAccessors.parts context m c).countP fun e => 0 < e.count c
      rw [ValueAccessors.edit_count, ValueAccessors.countP_parts]
      simp only [ValueAccessors.parts, List.map_cons, List.map_nil, List.sum_cons, List.sum_nil]
      omega
    | _ =>
      simp only [parts, touches_singleton]
      omega

/-- The classes that a pass counts are those that have received members if and only if no class has
received some from several treatments, which only the pass for carried values has. -/
theorem classesTouched_eq_extended_iff (hpass : pass ∈ memberPasses)
    (h : (pass.run context m).outcome = .ok report) :
    report.tally.classesTouched = extendedClasses m.classes (pass.run context m).model.classes ↔
      (pass = valueAccessors → ∀ c ∈ m.classes, ¬c.isEnum →
        ((ValueAccessors.parts context m c).countP fun e => 0 < e.count c) ≤ 1) := by
  have hmodel : (pass.run context m).model.classes =
      m.classes.map fun c => (pass.editOf context m c).apply c :=
    congrArg CodeModel.classes (run_performed h).model
  simp only [hmodel, extendedClasses_map, isExtendedTo_editOf hpass]
  rw [classesTouched_eq hpass h, sum_eq_countP_pos_iff]
  constructor
  · rintro hall rfl c hc hplain
    have htouches := hall c hc
    rw [touches, if_neg hplain] at htouches
    exact htouches
  · intro hall c hc
    unfold touches
    by_cases henum : c.isEnum
    · simp [henum]
    · rw [if_neg henum]
      by_cases hvalues : pass = valueAccessors
      · subst hvalues
        exact hall rfl c hc henum
      · have hparts : pass.parts context m c = [pass.offer context m c] := by
          unfold parts
          split
          · exact absurd rfl hvalues
          · rfl
        rw [hparts, touches_singleton]
        exact Nat.min_le_left 1 _

end Pass

/-- A class that carries an amount of money. -/
def moneyAmount : BeanClass :=
  { name := "shop.Amount"
    fields := [{ name := "value", type := .ofName "java.math.BigDecimal" }] }

/-- The class receives a constructor without parameters and one for its value, each from a treatment
of its own, so the pass counts more classes than there are. -/
theorem moneyAmount_touched_twice :
    let context : PassContext := { settings := {}, active := [] }
    let m : CodeModel := { classes := [moneyAmount] }
    let run := Pass.valueAccessors.run context m
    ∃ report, run.outcome = .ok report ∧
      report.tally.classesTouched ≠ extendedClasses m.classes run.model.classes ∧
        m.classes.length < report.tally.classesTouched := by
  intro context m run
  have hcount : run.outcome.map (·.tally.classesTouched) = .ok 2 := by decide +kernel
  have hparts : ((ValueAccessors.parts context m moneyAmount).countP fun e =>
    0 < e.count moneyAmount) = 2 := by decide +kernel
  obtain ⟨report, hok, htouched⟩ := Json.map_eq_ok.mp hcount
  refine ⟨report, hok, fun heq => ?_, by rw [htouched]; decide⟩
  have hone := (Pass.classesTouched_eq_extended_iff (by decide) hok).mp heq rfl moneyAmount
    (by simp [m]) (by decide)
  omega

end BeanSynthesis
