import BeanSynthesis.Proofs.Growth.Basic

/-!
# Growth through the treatment of classes

A pass treats one class after the other, and most of what it does to a class is adding members.
Both keep the growth relation, also when an error ends the sweep.
-/

namespace BeanSynthesis

namespace Step

variable {α β : Type}

/-- A sequence of two steps succeeds if both of them do. -/
theorem bind_eq_ok {s : Step α} {f : α → Step β} {b : β} :
    (s >>= f).outcome = .ok b ↔ ∃ a, s.outcome = .ok a ∧ (f a).outcome = .ok b := by
  rw [outcome_bind]
  cases s.outcome with
  | error e => simp [Bind.bind, Except.bind]
  | ok a => simp [Bind.bind, Except.bind]

@[simp] private theorem outcome_log (level : LogLevel) (message : String) :
    (log level message).outcome = .ok () := rfl

/-- To log something, whatever the condition, always succeeds. -/
@[simp] theorem outcome_logIf (condition : Bool) (level : LogLevel) (message : String) :
    (logIf condition level message).outcome = .ok () := by
  cases condition <;> rfl

/-- To ask for an external class always succeeds. -/
@[simp] theorem outcome_ask (name : Option String) : (ask name).outcome = .ok () := by
  cases name <;> rfl

@[simp] private theorem outcome_fail (e : SynthError) : (fail e : Step α).outcome = .error e := rfl

end Step

/-- A failure at the first class ends a sweep and leaves all classes as they are. -/
theorem sweep_cons_of_error {f : BeanClass → Step Changed} {c : BeanClass} {e : SynthError}
    (h : (f c).outcome = .error e) (rest : List BeanClass) :
    sweep f (c :: rest) =
      { classes := c :: rest, outcome := .error e, events := (f c).events } := by
  simp only [sweep, h]

/-- A success at the first class is followed by the sweep over the others. -/
theorem sweep_cons_of_ok {f : BeanClass → Step Changed} {c : BeanClass} {changed : Changed}
    (h : (f c).outcome = .ok changed) (rest : List BeanClass) :
    sweep f (c :: rest) =
      { classes := changed.1 :: (sweep f rest).classes
        outcome := (sweep f rest).outcome.map (changed.2 ++ ·)
        events := (f c).events ++ (sweep f rest).events } := by
  simp only [sweep, h]

/-- What holds between each class and its treatment, and between a class and itself, holds after a
sweep, whether or not an error ended it. -/
theorem forall₂_sweep {R : BeanClass → BeanClass → Prop} {f : BeanClass → Step Changed}
    (hrefl : ∀ c, R c c)
    (hstep : ∀ c after tally, (f c).outcome = .ok (after, tally) → R c after)
    (classes : List BeanClass) : List.Forall₂ R classes (sweep f classes).classes := by
  induction classes with
  | nil => exact .nil
  | cons c rest ih =>
    cases h : (f c).outcome with
    | error e =>
      rw [sweep_cons_of_error h]
      exact forall₂_refl_of hrefl (c :: rest)
    | ok changed =>
      rw [sweep_cons_of_ok h]
      exact .cons (hstep c _ _ h) ih

/-- A sweep that succeeds has treated every class. -/
theorem forall₂_sweep_of_ok {f : BeanClass → Step Changed} {classes : List BeanClass}
    {tally : Tally} (h : (sweep f classes).outcome = .ok tally) :
    List.Forall₂ (fun c after => ∃ tally, (f c).outcome = .ok (after, tally)) classes
      (sweep f classes).classes := by
  induction classes generalizing tally with
  | nil => exact .nil
  | cons c rest ih =>
    cases hc : (f c).outcome with
    | error e =>
      rw [sweep_cons_of_error hc] at h
      cases h
    | ok changed =>
      rw [sweep_cons_of_ok hc] at h ⊢
      cases hrest : (sweep f rest).outcome with
      | error e => simp [hrest, Except.map] at h
      | ok others => exact .cons ⟨changed.2, hc⟩ (ih hrest)

namespace BeanClass

/-- A class has no method of a key if and only if none of its methods clashes with one of that
key. -/
theorem hasMethod_eq_false_iff {c : BeanClass} {m : Method} :
    c.hasMethod m.name (m.params.map (·.type)) = false ↔ ∀ n ∈ c.methods, ¬n.Clashes m := by
  simp [hasMethod, Method.hasSignature, haveTypes, Method.Clashes]

/-- A class has no constructor of a signature if and only if none of its constructors clashes with
one of that signature. -/
theorem hasConstructor_eq_false_iff {c : BeanClass} {k : Constructor} :
    c.hasConstructor (k.params.map (·.type)) = false ↔ ∀ d ∈ c.constructors, ¬d.Clashes k := by
  simp [hasConstructor, Constructor.hasSignature, haveTypes, Constructor.Clashes]

/-- Adding a method succeeds, and puts it at the end if there was none like it. -/
theorem addMethod_outcome (c : BeanClass) (m : Method) :
    ∃ tally, (c.addMethod m).outcome =
      .ok (if c.hasMethod m.name (m.params.map (·.type)) then c
        else { c with methods := c.methods ++ [m] }, tally) := by
  unfold addMethod
  split
  · exact ⟨_, rfl⟩
  · exact ⟨_, rfl⟩

/-- Adding methods succeeds, and changes nothing in the class but its methods. -/
theorem addMethods_outcome {made : Method → Prop} {ms : List Method} (hmade : ∀ m ∈ ms, made m)
    (c : BeanClass) :
    ∃ methods tally, (c.addMethods ms).outcome = .ok ({ c with methods }, tally) ∧
      Continues made Method.Clashes c.methods methods := by
  induction ms generalizing c with
  | nil => exact ⟨c.methods, {}, rfl, .refl _⟩
  | cons m rest ih =>
    obtain ⟨first, hfirst⟩ := c.addMethod_outcome m
    have hrest : ∀ n ∈ rest, made n := fun n hn => hmade n (List.mem_cons_of_mem _ hn)
    by_cases hclash : c.hasMethod m.name (m.params.map (·.type))
    · rw [if_pos hclash] at hfirst
      obtain ⟨methods, others, hothers, hcont⟩ := ih hrest c
      refine ⟨methods, first ++ others, ?_, hcont⟩
      exact Step.bind_eq_ok.mpr ⟨_, hfirst, Step.bind_eq_ok.mpr ⟨_, hothers, rfl⟩⟩
    · rw [if_neg hclash] at hfirst
      obtain ⟨methods, others, hothers, hcont⟩ := ih hrest { c with methods := c.methods ++ [m] }
      refine ⟨methods, first ++ others, ?_, .trans (.snoc (hmade m List.mem_cons_self) ?_) hcont⟩
      · exact Step.bind_eq_ok.mpr ⟨_, hfirst, Step.bind_eq_ok.mpr ⟨_, hothers, rfl⟩⟩
      · exact hasMethod_eq_false_iff.mp (by simpa using hclash)

/-- Adding constructors changes nothing in the class but its constructors. -/
theorem addConstructors_fst {made : Constructor → Prop} {ks : List Constructor}
    (hmade : ∀ k ∈ ks, made k) (c : BeanClass) :
    ∃ constructors, (c.addConstructors ks).1 = { c with constructors } ∧
      Continues made Constructor.Clashes c.constructors constructors := by
  induction ks generalizing c with
  | nil => exact ⟨c.constructors, rfl, .refl _⟩
  | cons k rest ih =>
    have hrest : ∀ d ∈ rest, made d := fun d hd => hmade d (List.mem_cons_of_mem _ hd)
    by_cases hclash : c.hasConstructor (k.params.map (·.type))
    · obtain ⟨constructors, hothers, hcont⟩ := ih hrest c
      refine ⟨constructors, ?_, hcont⟩
      simpa [addConstructors, addConstructor, hclash] using hothers
    · obtain ⟨constructors, hothers, hcont⟩ :=
        ih hrest { c with constructors := c.constructors ++ [k] }
      refine ⟨constructors, ?_, .trans (.snoc (hmade k List.mem_cons_self) ?_) hcont⟩
      · simpa [addConstructors, addConstructor, hclash] using hothers
      · exact hasConstructor_eq_false_iff.mp (by simpa using hclash)

end BeanClass

/-- A note leaves the methods as they are. -/
theorem Changed.noted_methods (changed : Changed) (note : String) :
    (changed.noted note).1.methods = changed.1.methods := by
  unfold Changed.noted
  split
  · unfold BeanClass.addNote
    split <;> rfl
  · rfl

/-- The methods that the class does not have yet are added to it, and then perhaps a note. -/
def BeanClass.Receives (settings : Settings) (option : String) (ms : List Method)
    (c after : BeanClass) : Prop :=
  ∃ added tally tally', (c.addMethods ms).outcome = .ok (added, tally) ∧
    after = (Changed.noted (added, tally') (settings.classNote option)).1

/-- A stamped method bears the mark of its pass. -/
theorem Method.stamp_madeBy (m : Method) (settings : Settings) (option : String) :
    (m.stamp settings option).MadeBy settings [option] :=
  ⟨option, by simp, rfl, by simp [Method.stamp]⟩

/-- Stamped methods bear the mark of their pass. -/
theorem Method.madeBy_of_mem_map_stamp {settings : Settings} {option : String} {ms : List Method} :
    ∀ m ∈ ms.map (·.stamp settings option), m.MadeBy settings [option] := by
  intro m hm
  obtain ⟨n, -, rfl⟩ := List.mem_map.mp hm
  exact n.stamp_madeBy settings option

/-- A stamped constructor bears the mark of its pass. -/
theorem Constructor.stamp_madeBy (k : Constructor) (settings : Settings) (option : String) :
    (k.stamp settings option).MadeBy settings [option] :=
  ⟨option, by simp, rfl, by simp [Constructor.stamp]⟩

namespace BeanClass.Grows

variable {settings : Settings} {options : List String} {c d : BeanClass}

private theorem addNote (h : c.Grows settings options d) (hplain : ¬c.isEnum) (note : String) :
    c.Grows settings options (d.addNote note) := by
  unfold BeanClass.addNote
  split
  · exact h
  · exact { h with
      javadoc := h.javadoc.trans (List.prefix_append _ _)
      enumeration := fun henum => absurd henum hplain }

/-- A note about its change is growth of the class as well. -/
theorem noted (h : c.Grows settings options d) (hplain : ¬c.isEnum) (tally : Tally)
    (note : String) : c.Grows settings options (Changed.noted (d, tally) note).1 := by
  unfold Changed.noted
  split
  · exact h.addNote hplain note
  · exact h

private theorem withMethods {methods : List Method} (hplain : ¬c.isEnum)
    (h : Continues (Method.MadeBy settings options) Method.Clashes c.methods methods) :
    c.Grows settings options { c with methods } :=
  let same : c.Grows settings options c := .refl c
  { same with methods := h, enumeration := fun henum => absurd henum hplain }

/-- A class grows by constructors. -/
theorem withConstructors {constructors : List Constructor} (hplain : ¬c.isEnum)
    (h : Continues (Constructor.MadeBy settings options) Constructor.Clashes c.constructors
      constructors) :
    c.Grows settings options { c with constructors } :=
  let same : c.Grows settings options c := .refl c
  { same with constructors := h, enumeration := fun henum => absurd henum hplain }

/-- A class grows with its fields. -/
theorem withFields {fields : List Field} (hplain : ¬c.isEnum)
    (h : List.Forall₂ Field.Grows c.fields fields) :
    c.Grows settings options { c with fields } :=
  let same : c.Grows settings options c := .refl c
  { same with fields := h, enumeration := fun henum => absurd henum hplain }

/-- Every class may receive interfaces. -/
theorem withInterfaces (added : List ClassRef) :
    c.Grows settings options { c with interfaces := c.interfaces ++ added } :=
  let same : c.Grows settings options c := .refl c
  { same with interfaces := List.prefix_append _ _, enumeration := fun _ => rfl }

/-- Every class may receive annotations. -/
theorem withAnnotations (added : List Annotation) :
    c.Grows settings options { c with annotations := c.annotations ++ added } :=
  let same : c.Grows settings options c := .refl c
  { same with annotations := List.prefix_append _ _, enumeration := fun _ => rfl }

/-- A class that is no enumeration grows by methods that are marked. -/
theorem addMethods {ms : List Method} {changed : Changed} (hplain : ¬c.isEnum)
    (hmade : ∀ m ∈ ms, m.MadeBy settings options) (h : (c.addMethods ms).outcome = .ok changed) :
    c.Grows settings options changed.1 := by
  obtain ⟨methods, tally, hok, hcont⟩ := BeanClass.addMethods_outcome hmade c
  obtain rfl : _ = changed := Except.ok.inj (hok.symm.trans h)
  exact withMethods hplain hcont

/-- What receives methods of a pass has grown. -/
theorem of_receives {option : String} {ms : List Method} (hplain : ¬c.isEnum)
    (hmade : ∀ m ∈ ms, m.MadeBy settings [option]) (h : c.Receives settings option ms d) :
    c.Grows settings [option] d := by
  obtain ⟨added, tally, tally', hadd, rfl⟩ := h
  exact (addMethods hplain hmade hadd).noted hplain tally' _

end BeanClass.Grows

/-- The treatment of an enumeration that is left alone, or of a class that is none. -/
theorem exceptEnums_eq_ok {f : BeanClass → Step Changed} {c after : BeanClass} {tally : Tally}
    (h : (exceptEnums f c).outcome = .ok (after, tally)) :
    after = c ∨ ¬c.isEnum ∧ (f c).outcome = .ok (after, tally) := by
  unfold exceptEnums at h
  split at h
  case isTrue _ =>
    rw [Step.outcome_pure, Except.ok.injEq, Prod.mk.injEq] at h
    exact .inl h.1.symm
  case isFalse hplain => exact .inr ⟨hplain, h⟩

/-- A sweep that leaves enumerations alone lets classes grow if its treatment does. -/
theorem forall₂_sweep_exceptEnums {settings : Settings} {options : List String}
    {f : BeanClass → Step Changed}
    (hstep : ∀ c after tally, ¬c.isEnum → (f c).outcome = .ok (after, tally) →
      c.Grows settings options after) (classes : List BeanClass) :
    List.Forall₂ (BeanClass.Grows settings options) classes
      (sweep (exceptEnums f) classes).classes := by
  refine forall₂_sweep BeanClass.Grows.refl (fun c after tally h => ?_) classes
  rcases exceptEnums_eq_ok h with rfl | ⟨hplain, hok⟩
  · exact .refl _
  · exact hstep c after tally hplain hok

namespace CodeModel.Grows

variable {settings : Settings} {options : List String} {m : CodeModel}

/-- A model grows with its classes. -/
theorem withClasses {classes : List BeanClass}
    (h : List.Forall₂ (BeanClass.Grows settings options) m.classes classes) :
    m.Grows settings options { m with classes } :=
  let same : m.Grows settings options m := .refl m
  { same with classes := h }

/-- A model grows with its factories. -/
theorem withFactories {objectFactories : List BeanClass}
    (h : List.Forall₂ BeanClass.FactoryGrows m.objectFactories objectFactories) :
    m.Grows settings options { m with objectFactories } :=
  let same : m.Grows settings options m := .refl m
  { same with objectFactories := h }

/-- A model grows with its packages. -/
theorem withPackages {packages : List Package} (h : PackagesGrow m.packages packages) :
    m.Grows settings options { m with packages } :=
  let same : m.Grows settings options m := .refl m
  { same with packages := h }

end CodeModel.Grows

end BeanSynthesis
