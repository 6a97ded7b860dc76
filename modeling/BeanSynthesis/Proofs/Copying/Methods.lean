import BeanSynthesis.Proofs.Copying.Fields

/-!
# What `cloneTo` and `clone` do

The method `cloneTo` of a class copies the fields that the class declares to another object, after
that of the superclass has copied its own. It changes no cell but that of the object it copies to.
The method `clone` copies to a new object, and so it changes no cell at all.
-/

namespace BeanSynthesis.Copying

variable {settings : Settings} {p : Program} {P : BeanClass → Prop} {base h h' h'' : Heap}
  {c d parent : BeanClass} {fields : List InstanceField} {x v w : Value}
  {slots slots' before after later : Slots} {t : TypeExpr} {r : Nat}

/-- Of all cells only that of the target changes, and of its fields only those of a set. -/
structure Overwrites (d : BeanClass) (r : Nat) (S : Slot → Prop) (h h' : Heap)
    (before after : Slots) : Prop where
  keeps : h.Keeps (· ≠ r) h'
  cell : h'[r]? = some (.object d.name after)
  frame : ∀ slot, ¬S slot → after.get slot = before.get slot

private theorem Overwrites.trans {S T : Slot → Prop} (hfirst : Overwrites d r S h h' before after)
    (hsecond : Overwrites d r T h' h'' after later) :
    Overwrites d r (fun slot => S slot ∨ T slot) h h'' before later where
  keeps := hfirst.keeps.trans hsecond.keeps
  cell := hsecond.cell
  frame slot hslot := by
    rw [not_or] at hslot
    rw [hsecond.frame slot hslot.2, hfirst.frame slot hslot.1]

/-! ## The fields of a class -/

/-- The statements that copy fields, one after the other. -/
theorem runs_copyFields (hs : Copies settings p base c d fields x slots)
    (hvalues : ∀ f ∈ fields, CopiesField settings p P base f.type (slots.get (c.name, f.name)))
    {rest : List InstanceField} (hsub : ∀ f ∈ rest, f ∈ fields)
    (hnames : (rest.map (·.name)).Nodup) (hbase : base.Extends h) (hr : base.length ≤ r)
    (hcell : h[r]? = some (.object d.name before)) :
    ∃ h' after, p.Runs x c [target c r] h (rest.map (copyField settings.runtime p.model))
        (.next [target c r]) h' ∧
      Overwrites d r (fun slot => ∃ f ∈ rest, slot = (c.name, f.name)) h h' before after ∧
      ∀ f ∈ rest, Lasting base h.length h' fun k => Copied p settings.runtime P base k .field f.type
        (slots.get (c.name, f.name)) (after.get (c.name, f.name)) := by
  induction rest generalizing h before with
  | nil => exact ⟨h, before, .nil, ⟨.refl h, hcell, fun _ _ => rfl⟩, by simp⟩
  | cons f rest ih =>
    rw [List.forall_mem_cons] at hsub
    rw [List.map_cons, List.nodup_cons] at hnames
    obtain ⟨w, h₁, hexecs, hkeeps, hcell₁, hcopied⟩ :=
      hvalues f hsub.1 c d fields x slots f h r before hs hsub.1 rfl rfl hbase hr hcell
    have hfirst : Overwrites d r (· = (c.name, f.name)) h h₁ before
        (before.set (c.name, f.name) w) :=
      ⟨hkeeps, hcell₁, fun slot hslot => by rw [Slots.get_set, if_neg hslot]⟩
    obtain ⟨h₂, after, hruns, hothers, hall⟩ := ih hsub.2 hnames.2
      (extends_of_keeps hbase hr hkeeps) hcell₁
    have hlt := (List.getElem?_eq_some_iff.mp hcell).1
    have hfresh : ¬∃ g ∈ rest, (c.name, f.name) = (c.name, g.name) := by
      rintro ⟨g, hg, heq⟩
      exact hnames.1 (List.mem_map.mpr ⟨g, hg, (Prod.mk.inj heq).2.symm⟩)
    have hboth := hfirst.trans hothers
    refine ⟨h₂, after, .cons hexecs hruns, ⟨hboth.keeps, hboth.cell, fun slot hslot => ?_⟩, ?_⟩
    · refine hboth.frame slot fun hmem => hslot ?_
      simpa [List.exists_mem_cons_iff] using hmem
    · rw [List.forall_mem_cons]
      refine ⟨?_, fun g hg => (hall g hg).later (.refl _) hkeeps.length_le⟩
      rw [hothers.frame _ hfresh, Slots.get_set, if_pos rfl]
      exact Lasting.of_keeps hcopied hr hlt hothers.keeps

/-- A class copies all instance fields that it declares. -/
theorem runs_copyClass (hs : Copies settings p base c d fields x slots)
    (hvalues : ∀ f ∈ c.fields, f.isStatic = false →
      CopiesField settings p P base f.type (slots.get (c.name, f.name)))
    (hbase : base.Extends h) (hr : base.length ≤ r)
    (hcell : h[r]? = some (.object d.name before)) :
    ∃ h' after, p.Runs x c [target c r] h (fields.map (copyField settings.runtime p.model))
        (.next [target c r]) h' ∧
      Overwrites d r (·.1 = c.name) h h' before after ∧
      ∀ f ∈ c.fields, f.isStatic = false → Lasting base h.length h' fun k =>
        Copied p settings.runtime P base k .field f.type (slots.get (c.name, f.name))
          (after.get (c.name, f.name)) := by
  have hnames : (fields.map (·.name)).Nodup := by
    have hmap := congrArg (List.map Prod.fst) (BeanClass.instanceFields_map hs.fields)
    rw [List.map_map, List.map_map] at hmap
    exact hmap ▸ hs.named.once
  obtain ⟨h', after, hruns, hwrites, hall⟩ := runs_copyFields hs
    ((BeanClass.forall_instanceFields (P := fun name type =>
      CopiesField settings p P base type (slots.get (c.name, name))) hs.fields).mpr hvalues)
    (fun _ hf => hf) hnames hbase hr hcell
  refine ⟨h', after, hruns, ⟨hwrites.keeps, hwrites.cell, fun slot hslot => ?_⟩, ?_⟩
  · refine hwrites.frame slot ?_
    rintro ⟨f, -, rfl⟩
    exact hslot rfl
  · exact (BeanClass.forall_instanceFields (P := fun name type => Lasting base h.length h' fun k =>
      Copied p settings.runtime P base k .field type (slots.get (c.name, name))
        (after.get (c.name, name))) hs.fields).mp hall

/-! ## Which `cloneTo` is meant -/

/-- The line of a superclass is not longer. -/
theorem length_line_le {m : CodeModel} {Q : BeanClass → Prop} (hm : m.WellFormed)
    (hc : m.Rooted Q c) (hd : d ∈ m.line c) : (m.line d).length ≤ (m.line c).length := by
  induction hc with
  | @root c hc _ hroot =>
    rw [CodeModel.line_of_not_generated (by simp [hroot]), List.mem_singleton] at hd
    rw [hd]
  | @derived c parent hc _ hparent _ ih =>
    have hline := hm.line_of_generated hc hparent
    rw [hline, List.mem_cons] at hd
    rcases hd with rfl | hd
    · exact Nat.le_refl _
    · rw [hline]
      exact Nat.le_succ_of_le (ih hd)

/-- No class is one of its own superclasses. -/
theorem not_mem_line {m : CodeModel} {Q : BeanClass → Prop} (hm : m.WellFormed)
    (hc : c ∈ m.classes) (hparent : m.parentOf c = .generated parent) (hrest : m.Rooted Q parent) :
    c ∉ m.line parent := by
  intro hmem
  have hle := length_line_le hm hrest hmem
  rw [hm.line_of_generated hc hparent, List.length_cons] at hle
  omega

/-- All methods of a hierarchy that are called `cloneTo` are those of the pass. -/
theorem signaturesIn_cloneTo (hm : p.model.WellFormed)
    (hc : p.model.Rooted (Copyable settings p.model) c) :
    signaturesIn (p.model.line c) "cloneTo" = (p.model.line c).map fun e => [e.asType] := by
  have hall : ∀ e ∈ p.model.line c,
      (e.methods.filter (·.name == "cloneTo")).map Method.signature = [[e.asType]] := by
    intro e he
    obtain ⟨⟨fields, -, -, -, hsignatures⟩, -⟩ := (hc.of_mem_line hm he).holds
    exact hsignatures
  unfold signaturesIn
  generalize p.model.line c = line at hall
  induction line with
  | nil => rfl
  | cons e rest ih =>
    rw [List.forall_mem_cons] at hall
    rw [List.flatMap_cons, hall.1, ih hall.2]
    rfl

/-- A call with an object of a class means the `cloneTo` of its superclass, if it is looked up from
there. -/
theorem signatureFor?_super (hm : p.model.WellFormed) (hc : c ∈ p.model.classes)
    (hparent : p.model.parentOf c = .generated parent)
    (hrest : p.model.Rooted (Copyable settings p.model) parent) :
    p.signatureFor? (signaturesIn (p.model.line parent) "cloneTo") [⟨v, some c.asType⟩] =
      some [parent.asType] := by
  have hexact : ((p.model.line parent).map fun e => [e.asType]).find?
      (fun signature => signature.map some == [some c.asType]) = none := by
    rw [List.find?_eq_none]
    intro signature hsignature
    obtain ⟨e, he, rfl⟩ := List.mem_map.mp hsignature
    have hne : e.name ≠ c.name := fun hname =>
      not_mem_line hm hc hparent hrest (hm.eq_of_name (hrest.of_mem_line hm he).mem hc hname ▸ he)
    simpa [BeanClass.asType, TypeExpr.ofName] using hne
  have haccepts : ∀ e ∈ p.model.line parent, ∀ d ∈ p.model.classes, p.model.line parent ⊆
      p.model.line d → p.model.acceptsAll [e.asType] [some d.asType] = true := by
    intro e he d hd hsub
    have hany : (p.model.line d).any (fun a => e.asType == a.asType) = true :=
      List.any_eq_true.mpr ⟨e, hsub he, by simp⟩
    simp [CodeModel.acceptsAll, CodeModel.accepts, Program.lineOfType_asType hm hd, hany]
  have hfitting : ((p.model.line parent).map fun e => [e.asType]).filter
      (p.model.acceptsAll · [some c.asType]) = (p.model.line parent).map fun e => [e.asType] := by
    refine List.filter_eq_self.mpr fun signature hsignature => ?_
    obtain ⟨e, he, rfl⟩ := List.mem_map.mp hsignature
    refine haccepts e he c hc ?_
    rw [hm.line_of_generated hc hparent]
    exact List.subset_cons_self _ _
  have hbest : ((p.model.line parent).map fun e => [e.asType]).all
      (p.model.acceptsAll · ([parent.asType].map some)) = true := by
    refine List.all_eq_true.mpr fun signature hsignature => ?_
    obtain ⟨e, he, rfl⟩ := List.mem_map.mp hsignature
    exact haccepts e he parent hrest.mem (List.Subset.refl _)
  simp only [Program.signatureFor?, List.isEmpty_cons, Bool.false_eq_true, if_false, List.map_cons,
    List.map_nil, signaturesIn_cloneTo hm hrest, CodeModel.mostSpecific?, hexact, hfitting]
  obtain ⟨above, hline⟩ := p.model.line_eq_cons parent
  rw [hline] at hbest ⊢
  exact List.find?_cons_of_pos (by simpa using hbest)

/-! ## The method `cloneTo` -/

/-- A call of `cloneTo` does what the body does. -/
theorem yields_cloneTo_of_runs (type : Option TypeExpr)
    (hn : c.method? "cloneTo" [c.asType] = some ((cloneToMethod settings.runtime p.model c fields
      (p.model.lineageOf c)).stamp settings option))
    (hruns : p.Runs x c [target c r] h
      (cloneToBody settings.runtime p.model fields (p.model.lineageOf c)) (.next [target c r]) h') :
    p.Yields (fun calls => p.dispatch calls (p.model.line c) x "cloneTo" [c.asType]
      [⟨.ref r, type⟩] h) (⟨.null, some .void⟩, h') := by
  have hmethod := Program.methodIn?_line p.model hn
  have hbind : bindParams ((cloneToMethod settings.runtime p.model c fields
      (p.model.lineageOf c)).stamp settings option).params [⟨.ref r, type⟩] =
        some [target c r] := rfl
  exact .dispatch hmethod rfl hbind hruns

/-- What `cloneTo` does, from one class of the line of an object upward. -/
theorem yields_cloneTo (hm : p.model.WellFormed) (hd : Clonable settings p d)
    (hx : base.object? x = some (d.name, slots))
    (hvalues : ∀ e ∈ p.model.line d, ∀ f ∈ e.fields, f.isStatic = false →
      CopiesField settings p P base f.type (slots.get (e.name, f.name)))
    (hc : p.model.Rooted (Copyable settings p.model) c)
    (hsub : ∀ e ∈ p.model.line c, e ∈ p.model.line d) (hbase : base.Extends h)
    (hr : base.length ≤ r) (hcell : h[r]? = some (.object d.name before)) (type : Option TypeExpr) :
    ∃ h' after, p.Yields (fun calls => p.dispatch calls (p.model.line c) x "cloneTo" [c.asType]
        [⟨.ref r, type⟩] h) (⟨.null, some .void⟩, h') ∧
      Overwrites d r (fun slot => ∃ e ∈ p.model.line c, slot.1 = e.name) h h' before after ∧
      ∀ e ∈ p.model.line c, ∀ f ∈ e.fields, f.isStatic = false →
        Lasting base h.length h' fun k => Copied p settings.runtime P base k .field f.type
          (slots.get (e.name, f.name)) (after.get (e.name, f.name)) := by
  induction hc generalizing h before type with
  | @root c hc hcopyable hroot =>
    obtain ⟨⟨fields, hfields, hn, -, -⟩, hnamed⟩ := hcopyable
    have hlineage : p.model.lineageOf c = .root := by simp [CodeModel.lineageOf, hroot]
    have hline : p.model.line c = [c] := CodeModel.line_of_not_generated (by simp [hroot])
    have hs : Copies settings p base c d fields x slots :=
      ⟨hm, hc, hnamed, hfields, hsub c (p.model.mem_line_self c), hd, hx⟩
    obtain ⟨h', after, hruns, hwrites, hall⟩ :=
      runs_copyClass hs (hvalues c hs.line) hbase hr hcell
    refine ⟨h', after, yields_cloneTo_of_runs type hn ?_, ?_, ?_⟩
    · rw [hlineage]
      exact hruns
    · simpa [hline] using hwrites
    · simpa [hline] using hall
  | @derived c parent hc hcopyable hparent hrest ih =>
    obtain ⟨⟨fields, hfields, hn, -, -⟩, hnamed⟩ := hcopyable
    have hlineage : p.model.lineageOf c = .derived := by simp [CodeModel.lineageOf, hparent]
    have hline := hm.line_of_generated hc hparent
    have hs : Copies settings p base c d fields x slots :=
      ⟨hm, hc, hnamed, hfields, hsub c (p.model.mem_line_self c), hd, hx⟩
    obtain ⟨h₁, middle, hsuper, habove, hall⟩ := ih
      (fun e he => hsub e (by rw [hline]; exact .tail _ he)) hbase hcell (some c.asType)
    obtain ⟨h₂, after, hruns, hown, hfieldsCopied⟩ := runs_copyClass hs (hvalues c hs.line)
      (extends_of_keeps hbase hr habove.keeps) hr habove.cell
    have hlt := (List.getElem?_eq_some_iff.mp hcell).1
    have hret : p.Evals ⟨x, c, [target c r]⟩ h (.ident "ret") ⟨.ref r, some c.asType⟩ h :=
      .ident rfl
    have hinvoke : ∀ calls, p.invokeSuper calls ⟨x, c, [target c r]⟩ "cloneTo"
        [⟨.ref r, some c.asType⟩] h =
          p.dispatch calls (p.model.line parent) x "cloneTo" [parent.asType]
            [⟨.ref r, some c.asType⟩] h :=
      fun calls => Program.invokeSuper_of_signature calls hparent
        (signatureFor?_super hm hc hparent hrest)
    have hcall : p.Evals ⟨x, c, [target c r]⟩ h (Expr.superRef.invoke "cloneTo" [.ident "ret"])
        ⟨.null, some .void⟩ h₁ :=
      .invokeSuper (.one hret) (by simpa only [hinvoke] using hsuper)
    have hboth := habove.trans hown
    refine ⟨h₂, after, yields_cloneTo_of_runs type hn ?_,
      ⟨hboth.keeps, hboth.cell, fun slot hslot => hboth.frame slot fun hmem => hslot ?_⟩, ?_⟩
    · rw [hlineage]
      exact .cons (.expr hcall) hruns
    · simpa [hline, or_comm] using hmem
    · rw [hline, List.forall_mem_cons]
      refine ⟨fun f hf hstatic =>
        (hfieldsCopied f hf hstatic).later (.refl _) habove.keeps.length_le,
        fun e he f hf hstatic => ?_⟩
      -- The class does not write the fields that its superclasses have copied.
      have hne : e.name ≠ c.name := fun hname => not_mem_line hm hc hparent hrest
        (hm.eq_of_name (hrest.of_mem_line hm he).mem hc hname ▸ he)
      rw [hown.frame _ hne]
      exact Lasting.of_keeps (hall e he f hf hstatic) hr hlt hown.keeps

/-! ## The method `clone` -/

/-- What `clone` does for an object of a generated class. -/
theorem copiesByClone_object {place : Place} (hm : p.model.WellFormed)
    (hway : p.model.way place t = .cloned) (hd : d ∈ p.model.classes) (hP : P d)
    (hclonable : Clonable settings p d) (hv : base.object? v = some (d.name, slots))
    (hvalues : ∀ e ∈ p.model.line d, ∀ f ∈ e.fields, f.isStatic = false →
      CopiesField settings p P base f.type (slots.get (e.name, f.name))) :
    CopiesByClone p settings.runtime P base place t v := by
  intro h declared hbase
  have hv' := object?_of_extends hbase hv
  have hlineNamed := hm.lineNamed_name hd
  obtain ⟨⟨fields, -, hcloneTo, hclone, -⟩, -⟩ := hclonable.rooted.holds
  obtain ⟨h₁, r, created, hnew, hextends, hr, hcell⟩ := hclonable.constructs h
  have hbase₁ := hbase.trans hextends
  have hlt := hbase.length_le
  obtain ⟨h₂, after, hcopies, hwrites, hall⟩ := yields_cloneTo hm hclonable hv hvalues
    hclonable.rooted (fun _ he => he) hbase₁ (Nat.le_trans hlt hr) hcell (some d.asType)
  have hsignature : p.signatureFor? (p.signaturesOf d.asType "cloneTo")
      [⟨.ref r, some d.asType⟩] = some [d.asType] :=
    Program.signatureFor?_of_mem
      (Program.mem_signaturesOf_asType hm hd (Program.mem_signaturesIn_line _ hcloneTo)) rfl
  have hret : ∀ {k : Heap}, p.Evals ⟨v, d, [target d r]⟩ k (.ident "ret")
      ⟨.ref r, some d.asType⟩ k := .ident rfl
  have hinvoke : ∀ calls, p.invoke calls ⟨v, some d.asType⟩ "cloneTo"
      [⟨.ref r, some d.asType⟩] h₁ =
        p.dispatch calls (p.model.line d) v "cloneTo" [d.asType] [⟨.ref r, some d.asType⟩] h₁ := by
    intro calls
    rw [Program.invoke_of_signature calls (object?_of_extends hbase₁ hv) (by decide) hsignature,
      hlineNamed]
  have hcall : p.Evals ⟨v, d, [target d r]⟩ h₁ (.call "cloneTo" [.ident "ret"])
      ⟨.null, some .void⟩ h₂ :=
    .call (.one hret) (by simpa only [Frame.this, hinvoke] using hcopies)
  have hruns : p.Runs v d [] h (cloneBody d) (.done (.ref r)) h₂ :=
    .cons (.declFinal (.newObject .nil hnew)) (.cons (.expr hcall) (.cons_done (.give hret)))
  refine ⟨.ref r, some d.asType, h₂, ?_,
    extends_of_keeps hextends hr hwrites.keeps, fun k hk => ?_⟩
  · have hmethod := Program.methodIn?_line p.model hclone
    have hbody : ((cloneMethod settings.runtime d).stamp settings option).body =
        some (cloneBody d) := by
      simp [cloneMethod, Method.stamp, hclonable.concrete]
    have hsend : ∀ calls, p.invoke calls ⟨v, declared⟩ "clone" [] h =
        p.dispatch calls (p.model.line d) v "clone" [] [] h := by
      intro calls
      rw [Program.invoke_without_args (t := ⟨v, declared⟩) calls hv' (by decide), hlineNamed]
    simp only [hsend]
    exact .dispatch hmethod hbody rfl hruns
  · refine .object hway hd hP hv (Nat.le_trans hlt hr) (hk.get_of_some (.inr hr) hwrites.cell)
      fun e he f hf hstatic => ?_
    exact (hall e he f hf hstatic).later (.refl _) hextends.length_le k hk

/-! ## Whole graphs -/

/-- What copying a value means at the place where it stands. -/
def CopiesAt (settings : Settings) (p : Program) (P : BeanClass → Prop) (base : Heap) (t : TypeExpr)
    (v : Value) : Place → Prop
  | .whole => CopiesByClone p settings.runtime P base .whole t v
  | .field => CopiesField settings p P base t v
  | .item => CopiesValue p settings.runtime P base .item t v

private theorem copiesAt_of_value {place : Place} (hplace : place ≠ .whole)
    (hway : p.model.way place t = (p.model.category t).way)
    (hv : CopiesValue p settings.runtime P base place t v) :
    CopiesAt settings p P base t v place := by
  cases place with
  | whole => exact absurd rfl hplace
  | item => exact hv
  | field =>
    have hne := (p.model.category t).way_ne
    have hlist : ¬t.isErasure "List" := fun h =>
      hne.1 (hway ▸ CodeModel.way_eq_items_iff.mpr ⟨rfl, h⟩)
    have hmap : ¬t.isErasure "Map" := fun h =>
      hne.2 (hway ▸ CodeModel.way_eq_map_iff.mpr ⟨rfl, hlist, h⟩)
    exact copiesField_of_value hlist hmap hv

private theorem copiesAt_of_clone {place : Place} (hway : p.model.way place t = .cloned)
    (hv : CopiesByClone p settings.runtime P base place t v) :
    CopiesAt settings p P base t v place := by
  by_cases hplace : place = .whole
  · subst hplace
    exact hv
  · have hcategory : p.model.way place t = (p.model.category t).way :=
      CodeModel.way_eq_category hplace (by simp [hway]) (by simp [hway])
    exact copiesAt_of_value hplace hcategory (copiesValue_cloned (hcategory ▸ hway) hv)

/-- Whatever a graph is made of is copied the way that its type and its place ask for. The induction
is on the graph; the methods of an object are followed for the fields of its own, and what these
refer to is copied by the induction. -/
theorem copiesAt_of_conforms {place : Place} (hm : p.model.WellFormed)
    (hhelps : p.HelpsToCopy settings.runtime) (hP : ∀ d, P d → Clonable settings p d)
    (hclosed : base.Closed (· < base.length))
    (hv : Conforms p.model P p.outside.belongs base place t v)
    (hwithin : v.Within (· < base.length)) : CopiesAt settings p P base t v place := by
  induction hv with
  | shared hway =>
    obtain ⟨hplace, hcategory⟩ := CodeModel.category_of_way hway nofun nofun nofun
    exact copiesAt_of_value hplace (hway.trans hcategory.symm) (copiesValue_shared hway hcategory)
  | @null place t hshared hwrapped hplace =>
    by_cases hitems : p.model.way place t = .items
    · obtain ⟨rfl, hlist⟩ := CodeModel.way_eq_items_iff.mp hitems
      exact copiesField_null (.inl hlist)
    · by_cases hmap : p.model.way place t = .map
      · obtain ⟨rfl, -, hmap⟩ := CodeModel.way_eq_map_iff.mp hmap
        exact copiesField_null (.inr hmap)
      · have hway := CodeModel.way_eq_category hplace hitems hmap
        exact copiesAt_of_value hplace hway
          (copiesValue_null hhelps hplace (hway ▸ hshared) (hway ▸ hwrapped))
  | array hway hcell =>
    obtain ⟨hplace, hcategory⟩ := CodeModel.category_of_way hway nofun nofun nofun
    exact copiesAt_of_value hplace (hway.trans hcategory.symm)
      (copiesValue_array hhelps hway hcategory hcell)
  | wrapped hway hforeign =>
    obtain ⟨hplace, hcategory⟩ := CodeModel.category_of_way hway nofun nofun nofun
    exact copiesAt_of_value hplace (hway.trans hcategory.symm)
      (copiesValue_wrapped hhelps hway hcategory hforeign)
  | external hway hcell hbelongs =>
    obtain ⟨hplace, hcategory⟩ := CodeModel.category_of_way hway nofun nofun nofun
    exact copiesAt_of_value hplace (hway.trans hcategory.symm)
      (copiesValue_external hhelps hway hcategory hcell hbelongs)
  | items hway hcell hwrapped _ ih =>
    obtain ⟨rfl, hlist⟩ := CodeModel.way_eq_items_iff.mp hway
    exact copiesField_list hlist hwrapped hcell fun v hv =>
      ih v hv (hclosed _ _ hwithin hcell v hv)
  | map hway hcell =>
    obtain ⟨rfl, hlist, hmap⟩ := CodeModel.way_eq_map_iff.mp hway
    exact copiesField_map hmap hlist hcell
  | outside hway hcell hobject =>
    exact copiesAt_of_clone hway (copiesByClone_outside hhelps hway hcell hobject)
  | object hway hd hPd hv _ ih =>
    exact copiesAt_of_clone hway (copiesByClone_object hm hway hd hPd (hP _ hPd) hv
      fun e he f hf hstatic => ih e he f hf hstatic (hclosed.get hwithin hv _))

/-- The method `clone` of an object makes a copy of its graph, and changes nothing else. -/
theorem clone_copies {className : String} (hm : p.model.WellFormed)
    (hhelps : p.HelpsToCopy settings.runtime) (hP : ∀ d, P d → Clonable settings p d)
    (hclosed : base.Closed (· < base.length)) (hv : base.object? v = some (className, slots))
    (hgraph : Conforms p.model P p.outside.belongs base .whole t v) :
    ∃ w k, p.CloneGives base v w k ∧ base.Extends k ∧
      Copied p settings.runtime P base k .whole t v w := by
  have hwithin : v.Within (· < base.length) := by
    obtain ⟨a, rfl, hcell⟩ := Heap.object?_eq_some.mp hv
    exact (List.getElem?_eq_some_iff.mp hcell).1
  have hclones : CopiesByClone p settings.runtime P base .whole t v :=
    copiesAt_of_conforms hm hhelps hP hclosed hgraph hwithin
  obtain ⟨w, type, k, hyields, hextends, hlasting⟩ := hclones base none (.refl base)
  have hsend : ∀ calls, p.send calls v "clone" [] [] base =
      p.invoke calls ⟨v, none⟩ "clone" [] base := by
    intro calls
    rw [Program.send_of_object calls hv,
      Program.invoke_without_args (t := ⟨v, none⟩) calls hv (by decide)]
  exact ⟨w, k, ⟨type, by simpa only [hsend] using hyields⟩, hextends, hlasting k (.refl k)⟩

end BeanSynthesis.Copying
