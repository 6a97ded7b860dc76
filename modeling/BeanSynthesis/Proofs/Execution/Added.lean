import BeanSynthesis.Proofs.Execution.Objects
import BeanSynthesis.Proofs.Growth.Treatment

/-!
# Finding what has been added

A method that a pass adds to a class which had none like it is the one that calls reach, and it
stays so however the class grows.
-/

namespace BeanSynthesis

namespace BeanClass

variable {c d : BeanClass} {n : Method} {ms : List Method} {tally : Tally} {name : String}
  {signature : List TypeExpr}

/-- A class has no method of a key if and only if none is found under it. -/
theorem method?_eq_none_iff :
    c.method? name signature = none ↔ c.hasMethod name signature = false := by
  simp [method?, hasMethod, Method.answers, List.find?_eq_none]

/-- What is found under a key is a method of that key. -/
theorem hasMethod_of_method? (hn : c.method? name signature = some n) :
    c.hasMethod name signature := by
  by_contra hnone
  rw [method?_eq_none_iff.mpr (Bool.eq_false_iff.mpr hnone)] at hn
  cases hn

/-- A method that is found is found in a class with more methods. -/
theorem method?_of_prefix (h : c.methods <+: d.methods) (hn : c.method? name signature = some n) :
    d.method? name signature = some n := by
  obtain ⟨added, hadded⟩ := h
  unfold method? at hn ⊢
  rw [← hadded, List.find?_append, hn, Option.some_or]

/-- A class that grows keeps the first method of every key. -/
theorem method?_of_grows {settings : Settings} {options : List String}
    (h : c.Grows settings options d) (hn : c.method? name signature = some n) :
    d.method? name signature = some n := by
  obtain ⟨added, hadded, -⟩ := h.methods
  exact method?_of_prefix ⟨added, hadded.symm⟩ hn

/-- A class that grows keeps its methods. -/
theorem Grows.hasMethod {settings : Settings} {options : List String}
    (h : c.Grows settings options d) (hc : c.hasMethod name signature) :
    d.hasMethod name signature := by
  obtain ⟨added, hadded, -⟩ := h.methods
  unfold BeanClass.hasMethod at hc ⊢
  rw [hadded, List.any_append, hc, Bool.true_or]

/-- Methods are added behind those that a class has had. -/
theorem methods_prefix_addMethods (h : (c.addMethods ms).outcome = .ok (d, tally)) :
    c.methods <+: d.methods := by
  have hmade : ∀ n ∈ ms, True := fun _ _ => trivial
  obtain ⟨methods, tally', hok, added, hadded, -⟩ := addMethods_outcome hmade c
  obtain rfl := congrArg Prod.fst (Except.ok.inj (hok.symm.trans h))
  exact ⟨added, hadded.symm⟩

private theorem method?_append (hn : c.hasMethod n.name n.signature = false) :
    { c with methods := c.methods ++ [n] }.method? n.name n.signature = some n := by
  have hnone := method?_eq_none_iff.mpr hn
  unfold method? at hnone ⊢
  rw [List.find?_append, hnone]
  simp [Method.answers, Method.hasSignature, haveTypes, Method.signature]

/-- Adding several methods is adding the first, unless there is one like it, and then the others. -/
theorem addMethods_cons {first : Method} {rest : List Method}
    (h : (c.addMethods (first :: rest)).outcome = .ok (d, tally)) :
    ∃ tally', ((if c.hasMethod first.name first.signature then c
      else { c with methods := c.methods ++ [first] }).addMethods rest).outcome =
        .ok (d, tally') := by
  obtain ⟨⟨c', _⟩, hfirst, h⟩ := Step.bind_eq_ok.mp h
  obtain ⟨⟨d', tally'⟩, hothers, h⟩ := Step.bind_eq_ok.mp h
  obtain rfl := congrArg Prod.fst (Except.ok.inj h)
  obtain ⟨_, hadd⟩ := c.addMethod_outcome first
  obtain rfl := congrArg Prod.fst (Except.ok.inj (hadd.symm.trans hfirst))
  exact ⟨tally', hothers⟩

/-- Of methods that do not clash, each is found after they have been added, unless the class had one
like it before. -/
theorem method?_addMethods (h : (c.addMethods ms).outcome = .ok (d, tally))
    (hms : ms.Pairwise fun a b => ¬a.Clashes b) (hmem : n ∈ ms)
    (hn : c.hasMethod n.name n.signature = false) : d.method? n.name n.signature = some n := by
  induction ms generalizing c tally with
  | nil => cases hmem
  | cons first rest ih =>
    obtain ⟨_, hothers⟩ := addMethods_cons h
    rw [List.pairwise_cons] at hms
    rcases List.mem_cons.mp hmem with rfl | hrest
    · refine method?_of_prefix (methods_prefix_addMethods hothers) ?_
      rw [if_neg (by simpa using hn)]
      exact method?_append hn
    · refine ih hothers hms.2 hrest ?_
      split
      · exact hn
      · have hclash := hms.1 n hrest
        simp only [Method.Clashes, not_and] at hclash
        simp only [hasMethod, List.any_append] at hn ⊢
        rw [hn]
        simpa [Method.hasSignature, haveTypes, Method.signature] using hclash

/-- A method that a class receives is found under its key, unless the class has had one of that
key. -/
theorem Receives.method? {settings : Settings} {option : String}
    (h : c.Receives settings option ms d) (hms : ms.Pairwise fun a b => ¬a.Clashes b)
    (hmem : n ∈ ms) (hn : c.hasMethod n.name n.signature = false) :
    d.method? n.name n.signature = some n := by
  obtain ⟨added, tally, tally', hadd, rfl⟩ := h
  unfold BeanClass.method?
  rw [Changed.noted_methods]
  exact method?_addMethods hadd hms hmem hn

/-- Methods that clash neither with each other nor with those before are all added. -/
theorem methods_addMethods (h : (c.addMethods ms).outcome = .ok (d, tally))
    (hms : ms.Pairwise fun a b => ¬a.Clashes b)
    (hfresh : ∀ n ∈ ms, c.hasMethod n.name n.signature = false) : d.methods = c.methods ++ ms := by
  induction ms generalizing c tally with
  | nil =>
    obtain rfl := congrArg Prod.fst (Except.ok.inj h)
    simp
  | cons first rest ih =>
    obtain ⟨_, hothers⟩ := addMethods_cons h
    rw [List.forall_mem_cons] at hfresh
    rw [List.pairwise_cons] at hms
    rw [if_neg (by simpa using hfresh.1)] at hothers
    refine (ih hothers hms.2 fun n hn => ?_).trans (by simp)
    have hclash := hms.1 n hn
    have hold := hfresh.2 n hn
    simp only [Method.Clashes, not_and] at hclash
    simp only [hasMethod, List.any_append] at hold ⊢
    rw [hold]
    simpa [Method.hasSignature, haveTypes, Method.signature] using hclash

/-- Methods that are there already are not added again. -/
theorem methods_addMethods_of_hasMethod (h : (c.addMethods ms).outcome = .ok (d, tally))
    (hall : ∀ n ∈ ms, c.hasMethod n.name n.signature) : d.methods = c.methods := by
  induction ms generalizing tally with
  | nil =>
    obtain rfl := congrArg Prod.fst (Except.ok.inj h)
    rfl
  | cons first rest ih =>
    obtain ⟨_, hothers⟩ := addMethods_cons h
    rw [List.forall_mem_cons] at hall
    rw [if_pos hall.1] at hothers
    exact ih hothers hall.2

end BeanClass

/-- A class keeps the names of its instance fields when it grows. -/
theorem BeanClass.Grows.freeOf {settings : Settings} {options : List String} {c d : BeanClass}
    {names : List String} (h : c.Grows settings options d) (hfree : c.FreeOf names) :
    d.FreeOf names := by
  intro f hf hstatic
  obtain ⟨f', hf', hfield⟩ := exists_of_forall₂ h.fields hf
  rw [hfield.name]
  exact hfree f' hf' (hfield.isStatic.symm.trans hstatic)

/-- What a successful pass over the classes of a model does to each of them, where it keeps their
names. -/
theorem CodeModel.treated_of_run {option : String} {m : CodeModel} (hm : m.WellFormed)
    {f : BeanClass → Step Changed} {report : PassReport}
    (hrun : (PassRun.ofSweep option m (exceptEnums f)).outcome = .ok report)
    (hkeeps : ∀ c d tally, ¬c.isEnum → (f c).outcome = .ok (d, tally) → d.name = c.name)
    {c d : BeanClass} (hc : c ∈ m.classes)
    (hd : d ∈ (PassRun.ofSweep option m (exceptEnums f)).model.classes) (hname : d.name = c.name) :
    d = c ∧ c.isEnum ∨ ¬c.isEnum ∧ ∃ tally, (f c).outcome = .ok (d, tally) := by
  obtain ⟨tally, hok⟩ : ∃ tally, (sweep (exceptEnums f) m.classes).outcome = .ok tally := by
    cases hs : (sweep (exceptEnums f) m.classes).outcome with
    | error e => simp [PassRun.ofSweep, hs, Except.map] at hrun
    | ok tally => exact ⟨tally, rfl⟩
  have hall := forall₂_sweep_of_ok hok
  obtain ⟨i, hi, rfl⟩ := List.getElem_of_mem hd
  have hlength := hall.length_eq
  have hlt : i < m.classes.length := hlength ▸ hi
  obtain ⟨tally, htreated⟩ := List.forall₂_iff_get.mp hall |>.2 i hlt hi
  change (exceptEnums f m.classes[i]).outcome = .ok (_, tally) at htreated
  unfold exceptEnums at htreated
  split at htreated
  case isTrue henum =>
    have hsame := congrArg Prod.fst (Except.ok.inj htreated)
    obtain rfl := hm.eq_of_name (List.getElem_mem _) hc ((congrArg (·.name) hsame).trans hname)
    exact .inl ⟨hsame.symm, henum⟩
  case isFalse hplain =>
    obtain rfl := hm.eq_of_name (List.getElem_mem _) hc
      ((hkeeps _ _ _ hplain htreated).symm.trans hname)
    exact .inr ⟨hplain, tally, htreated⟩

end BeanSynthesis
