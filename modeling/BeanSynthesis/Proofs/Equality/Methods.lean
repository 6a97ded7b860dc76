import BeanSynthesis.Proofs.Equality.Fields

/-!
# What `equals` and `hashCode` do

The two methods of a class, followed down a hierarchy to the class that starts it. That class makes
sure that the other object is of the same class, and so every class below it may look at the fields
of the other object as its own.
-/

namespace BeanSynthesis.Equality

/-- The class has the method `equals` that the pass makes. -/
def HasEquals (settings : Settings) (m : CodeModel) (c : BeanClass) : Prop :=
  ∃ fields, c.instanceFields.outcome = .ok fields ∧
    c.method? "equals" [.ofName objectClass] =
      some ((equalsMethod settings.runtime m c fields (m.lineageOf c)).stamp settings option)

/-- The class has the method `hashCode` that the pass makes. -/
def HasHashCode (settings : Settings) (m : CodeModel) (c : BeanClass) : Prop :=
  ∃ fields, c.instanceFields.outcome = .ok fields ∧
    c.method? "hashCode" [] =
      some ((hashCodeMethod settings.runtime m fields (m.lineageOf c)).stamp settings option)

/-- All instance fields that a class declares have related values in two objects. -/
def FieldsRelated (p : Program) (runtime : RuntimeClasses) (h : Heap) (x y : Value)
    (c : BeanClass) : Prop :=
  ∀ f ∈ c.fields, f.isStatic = false →
    p.Related runtime h f.type (c.declaredType f.name) (h.valueAt x (c.name, f.name))
      (h.valueAt y (c.name, f.name))

variable {p : Program} {settings : Settings} {runtime : RuntimeClasses} {h : Heap}
  {c d parent : BeanClass} {x y : Value} {slots slots' : Slots} {fields : List InstanceField}
  {className : String}

/-! ## Comparing -/

/-- The local variables of `equals` while it compares fields. -/
def comparingLocals (c : BeanClass) (y : Value) : List Local :=
  [⟨"rhs", c.asType, y⟩, ⟨"o", .ofName objectClass, y⟩]

private theorem tests_field (hm : p.model.WellFormed) (hc : c ∈ p.model.classes)
    (hp : p.ComparesLawfully runtime h) (hfields : c.instanceFields.outcome = .ok fields)
    (hfree : c.FreeOf ["o", "rhs"]) (hx : h.object? x = some (d.name, slots))
    (hy : h.object? y = some (d.name, slots')) {f : InstanceField} (hf : f ∈ fields) :
    ∃ b, p.Tests ⟨x, c, comparingLocals c y⟩ h (fieldEquals runtime p.model f) b ∧
      (b = true ↔ p.Related runtime h f.type (c.declaredType f.name)
        (h.valueAt x (c.name, f.name)) (h.valueAt y (c.name, f.name))) := by
  obtain ⟨g, hg⟩ := BeanClass.instanceField?_of_mem hfields hf
  have hname := hfree.not_mem hfields hf
  simp only [List.mem_cons, List.not_mem_nil, or_false, not_or] at hname
  have hlocal : Frame.local? ⟨x, c, comparingLocals c y⟩ f.name = none := by
    simp [Frame.local?, comparingLocals, Ne.symm hname.1, Ne.symm hname.2]
  exact tests_fieldEquals hp f (Program.evals_field hm hc hlocal hg hx)
    (Program.evals_field_of hm hc (.ident rfl) hg hy)

/-- The comparisons of fields, one after the other, and then the result that all are equal. -/
theorem runs_comparisons (hm : p.model.WellFormed) (hc : c ∈ p.model.classes)
    (hp : p.ComparesLawfully runtime h) (hfields : c.instanceFields.outcome = .ok fields)
    (hfree : c.FreeOf ["o", "rhs"]) (hx : h.object? x = some (d.name, slots))
    (hy : h.object? y = some (d.name, slots')) (some_of : List InstanceField)
    (hsub : ∀ f ∈ some_of, f ∈ fields) :
    ∃ b, p.Runs x c (comparingLocals c y) h
        ((some_of.map fun f => .giveIf (.not (fieldEquals runtime p.model f)) (.boolLit false)) ++
          [.give (.boolLit true)]) (.done (.bool b)) h ∧
      (b = true ↔ ∀ f ∈ some_of, p.Related runtime h f.type (c.declaredType f.name)
        (h.valueAt x (c.name, f.name)) (h.valueAt y (c.name, f.name))) := by
  induction some_of with
  | nil => exact ⟨true, .cons_done (.give .bool), by simp⟩
  | cons f rest ih =>
    obtain ⟨b, htest, hb⟩ := tests_field hm hc hp hfields hfree hx hy (hsub f List.mem_cons_self)
    obtain ⟨b', hrest, hb'⟩ := ih fun f hf => hsub f (List.mem_cons_of_mem _ hf)
    refine ⟨b && b', .giveIf htest.not (fun hfalse => ?_) (fun htrue => ?_), ?_⟩
    · obtain rfl : b = true := by simpa using hfalse
      exact hrest
    · obtain rfl : b = false := by simpa using htrue
      exact ⟨rfl, rfl⟩
    · rw [Bool.and_eq_true, hb, hb', List.forall_mem_cons]

/-- What `equals` does with an object of the same class. -/
theorem runs_compareFields (hm : p.model.WellFormed) (hc : c ∈ p.model.classes)
    (hp : p.ComparesLawfully runtime h) (hfields : c.instanceFields.outcome = .ok fields)
    (hfree : c.FreeOf ["o", "rhs"]) (hd : d ∈ p.model.classes) (hcd : c ∈ p.model.line d)
    (hx : h.object? x = some (d.name, slots)) (hy : h.object? y = some (d.name, slots')) :
    ∃ b, p.Runs x c [⟨"o", .ofName objectClass, y⟩] h
        (compareFields runtime p.model c fields ++ [.give (.boolLit true)]) (.done (.bool b)) h ∧
      (b = true ↔ FieldsRelated p runtime h x y c) := by
  have hiff : (∀ f ∈ fields, p.Related runtime h f.type (c.declaredType f.name)
      (h.valueAt x (c.name, f.name)) (h.valueAt y (c.name, f.name))) ↔
      FieldsRelated p runtime h x y c :=
    BeanClass.forall_instanceFields (P := fun name type => p.Related runtime h type
      (c.declaredType name) (h.valueAt x (c.name, name)) (h.valueAt y (c.name, name))) hfields
  rw [← hiff]
  unfold compareFields
  split
  case isTrue hempty =>
    obtain rfl := List.isEmpty_iff.mp hempty
    exact ⟨true, .cons_done (.give .bool), by simp⟩
  case isFalse _ =>
    obtain ⟨b, hruns, hb⟩ := runs_comparisons hm hc hp hfields hfree hx hy fields fun _ hf => hf
    refine ⟨b, .cons (.declFinal (.cast (.ident rfl) ?_)) hruns, hb⟩
    exact Program.admits_of_mem_line hm hd hy hcd

/-- What the body of `equals` sees when it starts. -/
abbrev equalsFrame (x : Value) (c : BeanClass) (y : Value) : Frame :=
  ⟨x, c, [⟨"o", .ofName objectClass, y⟩]⟩

/-! ## Refusing -/

/-- The class that starts a hierarchy tells whether the other object is `null` or of another
class. -/
theorem tests_otherClass (c : BeanClass) (hx : h.object? x = some (className, slots))
    (hy : h.IsObjectOrNull y) :
    ∃ b, p.Tests (equalsFrame x c y) h ((Expr.ident "o").isNull.or (.not ((Expr.call "getClass"
        []).invoke "equals" [(Expr.ident "o").invoke "getClass" []]))) b ∧
      (b = false ↔ p.className? h y = some className) := by
  have ho : p.Evals (equalsFrame x c y) h (.ident "o") ⟨y, some (.ofName objectClass)⟩ h :=
    .ident rfl
  rcases hy with rfl | ⟨otherName, slots', hy⟩
  · refine ⟨true, .or (c := false) (.isNull ho) nofun, ?_⟩
    simp [Program.className?, Value.platformClass?]
  · have hmine : p.Evals (equalsFrame x c y) h (.call "getClass" []) ⟨.classOf className, none⟩ h :=
      .call .nil (.of_eq fun calls =>
        Program.invoke_getClass calls (Program.className?_of_object hx))
    have htheirs : p.Evals (equalsFrame x c y) h ((Expr.ident "o").invoke "getClass" [])
        ⟨.classOf otherName, none⟩ h :=
      .invoke ho .nil (.of_eq fun calls =>
        Program.invoke_getClass calls (Program.className?_of_object hy))
    have hsame : p.Tests (equalsFrame x c y) h ((Expr.call "getClass" []).invoke "equals"
        [(Expr.ident "o").invoke "getClass" []]) (Value.classOf otherName == .classOf className) :=
      ⟨none, .invoke hmine (.one htheirs) (.of_eq fun calls =>
        Program.invoke_equals_classOf calls none)⟩
    refine ⟨_, .or (.isNull ho) fun _ => hsame.not, ?_⟩
    rw [Program.className?_of_object hy]
    simp [Program.ne_null_of_object hy]

/-- What `equals` of a superclass does when it is called with the parameter. -/
theorem evals_super_equals {n : Method} (hparent : p.model.parentOf c = .generated parent)
    (hn : parent.method? "equals" [.ofName objectClass] = some n) {t : Typed}
    (hcall : p.Yields (fun calls => p.dispatch calls (p.model.line parent) x "equals"
      [.ofName objectClass] [⟨y, some (.ofName objectClass)⟩] h) (t, h)) :
    p.Evals (equalsFrame x c y) h
      (Expr.superRef.invoke "equals" [.ident "o"]) t h := by
  have ho : p.Evals (equalsFrame x c y) h (.ident "o") ⟨y, some (.ofName objectClass)⟩ h :=
    .ident rfl
  refine .invokeSuper (.one ho) ?_
  have hsignature : p.signatureFor? (signaturesIn (p.model.line parent) "equals")
      [⟨y, some (.ofName objectClass)⟩] = some [.ofName objectClass] :=
    Program.signatureFor?_of_mem (Program.mem_signaturesIn_line _ hn) rfl
  have hinvoke : ∀ calls, p.invokeSuper calls (equalsFrame x c y) "equals"
      [⟨y, some (.ofName objectClass)⟩] h =
        p.dispatch calls (p.model.line parent) x "equals" [.ofName objectClass]
          [⟨y, some (.ofName objectClass)⟩] h :=
    fun calls => Program.invokeSuper_of_signature calls hparent hsignature
  simpa only [hinvoke] using hcall

/-! ## The method `equals` -/

/-- The classes of a hierarchy in which `equals` means what the pass intends. -/
def Comparable (settings : Settings) (m : CodeModel) (c : BeanClass) : Prop :=
  HasEquals settings m c ∧ c.FreeOf ["o", "rhs"]

/-- Two objects are equal if they have the same class and related fields, from one class of their
line upward. -/
def EqualFrom (p : Program) (runtime : RuntimeClasses) (h : Heap) (d : BeanClass) (x y : Value)
    (line : List BeanClass) : Prop :=
  p.className? h y = some d.name ∧ ∀ e ∈ line, FieldsRelated p runtime h x y e

private theorem equalFrom_self (hp : p.ComparesLawfully runtime h)
    (hx : h.object? x = some (d.name, slots)) (line : List BeanClass) :
    EqualFrom p runtime h d x x line :=
  ⟨Program.className?_of_object hx, fun _ _ _ _ _ => hp.related_refl _⟩

/-- The statements of `equals` after the one that recognizes the object itself, in which `refused`
tells whether the other object is refused. -/
theorem runs_equals (hm : p.model.WellFormed) (hc : c ∈ p.model.classes)
    (hp : p.ComparesLawfully runtime h) (hfields : c.instanceFields.outcome = .ok fields)
    (hfree : c.FreeOf ["o", "rhs"]) (hd : d ∈ p.model.classes) (hcd : c ∈ p.model.line d)
    (hx : h.object? x = some (d.name, slots)) (hy : h.IsObjectOrNull y) (lineage : Lineage)
    {above : List BeanClass} {refusal : Expr} {refused : Bool}
    (hrefusal : refuseOther lineage = .giveIf refusal (.boolLit false))
    (htest : p.Tests (equalsFrame x c y) h refusal refused)
    (hrefused : refused = false ↔ EqualFrom p runtime h d x y above) :
    ∃ b, p.Runs x c [⟨"o", .ofName objectClass, y⟩] h
        ([.giveIf ((Expr.ident "o").eq .thisRef) (.boolLit true), refuseOther lineage] ++
          compareFields runtime p.model c fields ++ [.give (.boolLit true)]) (.done (.bool b)) h ∧
      (b = true ↔ EqualFrom p runtime h d x y (c :: above)) := by
  have hself : p.Tests (equalsFrame x c y) h ((Expr.ident "o").eq .thisRef)
      (y == x) :=
    Program.Tests.eq (t := ⟨y, some (.ofName objectClass)⟩) (u := ⟨x, some c.asType⟩)
      (.ident rfl) .this
  rw [hrefusal]
  by_cases hyx : y = x
  · refine ⟨true, .giveIf hself (fun hne => ?_) fun _ => ⟨rfl, rfl⟩, ?_⟩
    · simp [hyx] at hne
    · subst hyx
      exact iff_of_true rfl (equalFrom_self hp hx _)
  · cases refused with
    | true =>
      refine ⟨false, .giveIf hself (fun _ => ?_) (fun heq => absurd (by simpa using heq) hyx), ?_⟩
      · exact .giveIf htest nofun fun _ => ⟨rfl, rfl⟩
      · refine iff_of_false nofun fun heq => ?_
        exact Bool.true_eq_false_eq_False (hrefused.mpr ⟨heq.1, fun e he =>
          heq.2 e (List.mem_cons_of_mem _ he)⟩)
    | false =>
      obtain ⟨hclass, habove⟩ := hrefused.mp rfl
      have hyobject : ∃ slots', h.object? y = some (d.name, slots') := by
        rcases hy with rfl | ⟨name, slots', hy⟩
        · simp [Program.className?, Value.platformClass?] at hclass
        · rw [Program.className?_of_object hy, Option.some.injEq] at hclass
          exact ⟨slots', hclass ▸ hy⟩
      obtain ⟨slots', hyobject⟩ := hyobject
      obtain ⟨b, hruns, hb⟩ := runs_compareFields hm hc hp hfields hfree hd hcd hx hyobject
      refine ⟨b, .giveIf hself (fun _ => ?_) (fun heq => absurd (by simpa using heq) hyx), ?_⟩
      · exact .giveIf htest (fun _ => hruns) nofun
      · rw [hb]
        unfold EqualFrom
        rw [List.forall_mem_cons]
        exact ⟨fun hrelated => ⟨hclass, hrelated, habove⟩, fun heq => heq.2.1⟩

/-- A call of `equals` gives what the body gives. -/
theorem yields_equals_of_runs {v : Value} (type : Option TypeExpr)
    (hn : c.method? "equals" [.ofName objectClass] =
      some ((equalsMethod settings.runtime p.model c fields (p.model.lineageOf c)).stamp settings
        option))
    (hruns : p.Runs x c [⟨"o", .ofName objectClass, y⟩] h
      (equalsBody settings.runtime p.model c fields (p.model.lineageOf c)) (.done v) h) :
    p.Yields (fun calls => p.dispatch calls (p.model.line c) x "equals" [.ofName objectClass]
      [⟨y, type⟩] h) (⟨v, some (.primitive .boolean)⟩, h) := by
  have hmethod := Program.methodIn?_line p.model hn
  have hbind : bindParams ((equalsMethod settings.runtime p.model c fields
      (p.model.lineageOf c)).stamp settings option).params [⟨y, type⟩] =
        some [⟨"o", .ofName objectClass, y⟩] := rfl
  exact .dispatch hmethod rfl hbind hruns

/-- What `equals` does, from one class of the line of an object upward. -/
theorem yields_equals (hm : p.model.WellFormed) (hp : p.ComparesLawfully settings.runtime h)
    (hc : p.model.Rooted (Comparable settings p.model) c) (hd : d ∈ p.model.classes)
    (hsub : ∀ e ∈ p.model.line c, e ∈ p.model.line d) (hx : h.object? x = some (d.name, slots))
    (hy : h.IsObjectOrNull y) (type : Option TypeExpr) :
    ∃ b, p.Yields (fun calls => p.dispatch calls (p.model.line c) x "equals"
        [.ofName objectClass] [⟨y, type⟩] h) (⟨.bool b, some (.primitive .boolean)⟩, h) ∧
      (b = true ↔ EqualFrom p settings.runtime h d x y (p.model.line c)) := by
  induction hc generalizing type with
  | @root c hc hcomparable hroot =>
    obtain ⟨⟨fields, hfields, hn⟩, hfree⟩ := hcomparable
    have hlineage : p.model.lineageOf c = .root := by simp [CodeModel.lineageOf, hroot]
    have hline : p.model.line c = [c] := CodeModel.line_of_not_generated (by simp [hroot])
    obtain ⟨refused, htest, hrefused⟩ := tests_otherClass (p := p) c hx hy
    have habove : refused = false ↔ EqualFrom p settings.runtime h d x y [] := by
      simp [hrefused, EqualFrom]
    obtain ⟨b, hruns, hb⟩ := runs_equals hm hc hp hfields hfree hd
      (hsub c (p.model.mem_line_self c)) hx hy .root rfl htest habove
    refine ⟨b, yields_equals_of_runs type hn ?_, by rw [hline, hb]⟩
    rw [hlineage]
    exact hruns
  | @derived c parent hc hcomparable hparent hrest ih =>
    obtain ⟨⟨fields, hfields, hn⟩, hfree⟩ := hcomparable
    have hlineage : p.model.lineageOf c = .derived := by simp [CodeModel.lineageOf, hparent]
    have hline := hm.line_of_generated hc hparent
    obtain ⟨b', hsuper, hb'⟩ := ih (fun e he => hsub e (by rw [hline]; exact .tail _ he))
      (some (.ofName objectClass))
    obtain ⟨⟨_, _, hn'⟩, -⟩ := hrest.holds
    have heval := evals_super_equals hparent hn' hsuper
    by_cases hempty : fields.isEmpty
    · refine ⟨b', yields_equals_of_runs type hn ?_, ?_⟩
      · rw [hlineage, equalsBody, if_pos (by simp [hempty])]
        exact .cons_done (.give heval)
      · have hnone : FieldsRelated p settings.runtime h x y c := by
          obtain rfl := List.isEmpty_iff.mp hempty
          refine (BeanClass.forall_instanceFields (P := fun name type =>
            p.Related settings.runtime h type (c.declaredType name) (h.valueAt x (c.name, name))
              (h.valueAt y (c.name, name))) hfields).mp ?_
          simp
        rw [hb', hline]
        unfold EqualFrom
        rw [List.forall_mem_cons]
        exact ⟨fun heq => ⟨heq.1, hnone, heq.2⟩, fun heq => ⟨heq.1, heq.2.2⟩⟩
    · have htest : p.Tests (equalsFrame x c y) h
          (.not (Expr.superRef.invoke "equals" [.ident "o"])) !b' :=
        Program.Tests.not ⟨_, heval⟩
      obtain ⟨b, hruns, hb⟩ := runs_equals hm hc hp hfields hfree hd
        (hsub c (p.model.mem_line_self c)) hx hy .derived rfl htest
        (by rw [← hb']; simp)
      refine ⟨b, yields_equals_of_runs type hn ?_, by rw [hline, hb]⟩
      rw [hlineage, equalsBody, if_neg (by simp [hempty])]
      exact hruns

/-! ## The method `hashCode` -/

/-- A generator that has taken in the same for two objects takes in their related fields alike. -/
theorem generatedAlike_foldl (hm : p.model.WellFormed) (hc : c ∈ p.model.classes)
    (hp : p.ComparesLawfully runtime h) (hh : p.HashesLawfully runtime h)
    (hfields : c.instanceFields.outcome = .ok fields) (hx : h.object? x = some (d.name, slots))
    (hy : h.object? y = some (d.name, slots')) (hrelated : FieldsRelated p runtime h x y c)
    {start : Expr} (hstart : GeneratedAlike p runtime h ⟨x, c, []⟩ ⟨y, c, []⟩ start) :
    GeneratedAlike p runtime h ⟨x, c, []⟩ ⟨y, c, []⟩ (fields.foldl
      (fun generator f => generator.invoke "append" [fieldHash runtime p.model f]) start) := by
  have hall : ∀ f ∈ fields,
      HashedAlike p runtime h ⟨x, c, []⟩ ⟨y, c, []⟩ (fieldHash runtime p.model f) := by
    intro f hf
    obtain ⟨g, hg⟩ := BeanClass.instanceField?_of_mem hfields hf
    have hvw := (BeanClass.forall_instanceFields (P := fun name type => p.Related runtime h type
      (c.declaredType name) (h.valueAt x (c.name, name)) (h.valueAt y (c.name, name)))
      hfields).mpr hrelated f hf
    exact hashedAlike_fieldHash hp hh f hvw (Program.evals_field hm hc rfl hg hx)
      (Program.evals_field hm hc rfl hg hy)
  clear hfields
  induction fields generalizing start with
  | nil => exact hstart
  | cons f rest ih =>
    rw [List.forall_mem_cons] at hall
    exact ih (hstart.append hh hall.1) hall.2

/-- A call of `hashCode` gives what the body gives. -/
theorem yields_hashCode_of_runs {v : Value}
    (hn : c.method? "hashCode" [] =
      some ((hashCodeMethod settings.runtime p.model fields (p.model.lineageOf c)).stamp settings
        option))
    (hruns : p.Runs x c [] h
      (hashCodeBody settings.runtime p.model fields (p.model.lineageOf c)) (.done v) h) :
    p.Yields (fun calls => p.dispatch calls (p.model.line c) x "hashCode" [] [] h)
      (⟨v, some (.primitive .int)⟩, h) := by
  have hmethod := Program.methodIn?_line p.model hn
  have hbind : bindParams ((hashCodeMethod settings.runtime p.model fields
      (p.model.lineageOf c)).stamp settings option).params [] = some [] := rfl
  exact .dispatch hmethod rfl hbind hruns

/-- What `hashCode` does, from one class of the line of an object upward: it ends, and gives the
same for two objects with related fields. -/
theorem yields_hashCode (hm : p.model.WellFormed) (hp : p.ComparesLawfully settings.runtime h)
    (hh : p.HashesLawfully settings.runtime h)
    (hc : p.model.Rooted (HasHashCode settings p.model) c)
    (hx : h.object? x = some (d.name, slots)) (hy : h.object? y = some (d.name, slots'))
    (hrelated : ∀ e ∈ p.model.line c, FieldsRelated p settings.runtime h x y e) :
    ∃ i,
      p.Yields (fun calls => p.dispatch calls (p.model.line c) x "hashCode" [] [] h)
        (⟨.int i, some (.primitive .int)⟩, h) ∧
      p.Yields (fun calls => p.dispatch calls (p.model.line c) y "hashCode" [] [] h)
        (⟨.int i, some (.primitive .int)⟩, h) := by
  induction hc with
  | @root c hc hhash hroot =>
    obtain ⟨fields, hfields, hn⟩ := hhash
    have hlineage : p.model.lineageOf c = .root := by simp [CodeModel.lineageOf, hroot]
    have hstart : GeneratedAlike p settings.runtime h ⟨x, c, []⟩ ⟨y, c, []⟩
        (hashStart settings.runtime .root) := by
      obtain ⟨g, hg⟩ := hh.start d.name (some c.asType)
      have hgx := hg x (Program.className?_of_object hx)
      have hgy := hg y (Program.className?_of_object hy)
      exact ⟨g, _, .start hgx, .newObject (.one .this) (.of_eq hgx),
        .newObject (.one .this) (.of_eq hgy)⟩
    obtain ⟨i, hi, hi'⟩ := (generatedAlike_foldl hm hc hp hh hfields hx hy
      (hrelated c (p.model.mem_line_self c)) hstart).getHashCode hh
    refine ⟨i, yields_hashCode_of_runs hn ?_, yields_hashCode_of_runs hn ?_⟩
    · rw [hlineage]
      exact .cons_done (.give hi)
    · rw [hlineage]
      exact .cons_done (.give hi')
  | @derived c parent hc hhash hparent hrest ih =>
    obtain ⟨fields, hfields, hn⟩ := hhash
    have hlineage : p.model.lineageOf c = .derived := by simp [CodeModel.lineageOf, hparent]
    have hline := hm.line_of_generated hc hparent
    obtain ⟨i, hi, hi'⟩ := ih fun e he => hrelated e (by rw [hline]; exact .tail _ he)
    have hsuper : p.Evals ⟨x, c, []⟩ h (Expr.superRef.invoke "hashCode" []) _ h :=
      .super_without_args hparent hi
    have hsuper' : p.Evals ⟨y, c, []⟩ h (Expr.superRef.invoke "hashCode" []) _ h :=
      .super_without_args hparent hi'
    by_cases hempty : fields.isEmpty
    · refine ⟨i, yields_hashCode_of_runs hn ?_, yields_hashCode_of_runs hn ?_⟩
      · rw [hlineage, hashCodeBody, if_pos (by simp [hempty])]
        exact .cons_done (.give hsuper)
      · rw [hlineage, hashCodeBody, if_pos (by simp [hempty])]
        exact .cons_done (.give hsuper')
    · have hstart : GeneratedAlike p settings.runtime h ⟨x, c, []⟩ ⟨y, c, []⟩
          (hashStart settings.runtime .derived) := by
        obtain ⟨g, hg⟩ := hh.derived i
        exact ⟨g, none, .derived hg, .static (.one hsuper) hg, .static (.one hsuper') hg⟩
      obtain ⟨j, hj, hj'⟩ := (generatedAlike_foldl hm hc hp hh hfields hx hy
        (hrelated c (p.model.mem_line_self c)) hstart).getHashCode hh
      refine ⟨j, yields_hashCode_of_runs hn ?_, yields_hashCode_of_runs hn ?_⟩
      · rw [hlineage, hashCodeBody, if_neg (by simp [hempty])]
        exact .cons_done (.give hj)
      · rw [hlineage, hashCodeBody, if_neg (by simp [hempty])]
        exact .cons_done (.give hj')

end BeanSynthesis.Equality
