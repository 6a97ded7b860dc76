import BeanSynthesis.Proofs.Copying.Values

/-!
# Copies of fields

The statement that copies a field of an object sets the field of the target to a copy. It changes no
cell but that of the target; lists and maps are new cells.
-/

namespace BeanSynthesis

/-- The call `x.clone()` ends with this result, and this is the heap after it. -/
def Program.CloneGives (p : Program) (h : Heap) (x y : Value) (k : Heap) : Prop :=
  ∃ type, p.Yields (fun calls => p.send calls x "clone" [] [] h) (⟨y, type⟩, k)

/-- A new object of a class is created without changing anything that was there before. -/
def Program.Constructs (p : Program) (className : String) : Prop :=
  ∀ h, ∃ h' r slots,
    p.Yields (fun calls => p.construct calls (.ofName className) [] h)
        (⟨.ref r, some (.ofName className)⟩, h') ∧
      h.Extends h' ∧ h.length ≤ r ∧ h'[r]? = some (.object className slots)

/-- The getters of the list fields that the classes of a line declare return the lists, for the
objects of a class. -/
def Program.GetsLists (p : Program) (className : String) (line : List BeanClass) : Prop :=
  ∀ h x slots e fields f, h.object? x = some (className, slots) → e ∈ line →
    e.instanceFields.outcome = .ok fields → f ∈ fields → f.type.isErasure "List" = true →
    slots.get (e.name, f.name) ≠ .null →
    ∃ type, p.Yields (fun calls => p.invoke calls ⟨x, some e.asType⟩
      (Naming.getterName f.type f.accessor) [] h) (⟨slots.get (e.name, f.name), type⟩, h)

namespace Copying

/-- The class has the two methods that the pass makes, and no other one is called `cloneTo`. -/
def HasCopying (settings : Settings) (m : CodeModel) (c : BeanClass) : Prop :=
  ∃ fields, c.instanceFields.outcome = .ok fields ∧
    c.method? "cloneTo" [c.asType] =
      some ((cloneToMethod settings.runtime m c fields (m.lineageOf c)).stamp settings option) ∧
    c.method? "clone" [] = some ((cloneMethod settings.runtime c).stamp settings option) ∧
    (c.methods.filter (·.name == "cloneTo")).map Method.signature = [[c.asType]]

/-- A class whose instance fields go by different names, none of which a local variable of `cloneTo`
would hide, and whose properties have names. -/
structure WellNamed (c : BeanClass) : Prop where
  once : ((c.fields.filter (!·.isStatic)).map (·.name)).Nodup
  free : c.FreeOf ["ret"]
  named : ∀ property ∈ c.properties, property.publicName ≠ ""

/-- The classes of a hierarchy in which `cloneTo` and `clone` mean what the pass intends. -/
def Copyable (settings : Settings) (m : CodeModel) (c : BeanClass) : Prop :=
  HasCopying settings m c ∧ WellNamed c

/-- A class the objects of which can be cloned. -/
structure Clonable (settings : Settings) (p : Program) (d : BeanClass) : Prop where
  rooted : p.model.Rooted (Copyable settings p.model) d
  concrete : d.isAbstract = false
  constructs : p.Constructs d.name
  getsLists : p.GetsLists d.name (p.model.line d)

/-- The code of the class `c` copies an object `x` of the class `d`. -/
structure Copies (settings : Settings) (p : Program) (base : Heap) (c d : BeanClass)
    (fields : List InstanceField) (x : Value) (slots : Slots) : Prop where
  wellFormed : p.model.WellFormed
  owner : c ∈ p.model.classes
  named : WellNamed c
  fields : c.instanceFields.outcome = .ok fields
  line : c ∈ p.model.line d
  clonable : Clonable settings p d
  self : base.object? x = some (d.name, slots)

/-- The local variable of `cloneTo`. -/
def target (c : BeanClass) (r : Nat) : Local := ⟨"ret", c.asType, .ref r⟩

section

variable (settings : Settings) (p : Program) (P : BeanClass → Prop) (base : Heap) (t : TypeExpr)
  (v : Value)

/-- Wherever a field of this type has this value, the statement that copies the field sets that of
the target to a copy, and changes no other cell. -/
def CopiesField : Prop :=
  ∀ c d fields x slots f h r slots', Copies settings p base c d fields x slots → f ∈ fields →
    f.type = t → slots.get (c.name, f.name) = v → base.Extends h → base.length ≤ r →
    h[r]? = some (.object d.name slots') →
    ∃ w h', p.Execs x c [target c r] h (copyField settings.runtime p.model f)
        (.next [target c r]) h' ∧
      h.Keeps (· ≠ r) h' ∧ h'[r]? = some (.object d.name (slots'.set (c.name, f.name) w)) ∧
      Lasting base h.length h' fun k => Copied p settings.runtime P base k .field t v w

end

variable {settings : Settings} {p : Program} {P : BeanClass → Prop} {base h h' : Heap}
  {c d : BeanClass} {fields : List InstanceField} {x v w : Value} {slots slots' : Slots}
  {f : InstanceField} {t : TypeExpr} {r : Nat} {locals : List Local} {e : Expr}

/-! ## Fields -/

/-- What has been an object is one after more cells are there. -/
theorem object?_of_extends {className : String} (hbase : base.Extends h)
    (hx : base.object? x = some (className, slots)) : h.object? x = some (className, slots) := by
  obtain ⟨a, rfl, hcell⟩ := Heap.object?_eq_some.mp hx
  exact Heap.object?_eq_some.mpr ⟨a, rfl, hbase.get_of_some trivial hcell⟩

/-- The value of the field that is copied. -/
theorem evals_name (hs : Copies settings p base c d fields x slots) (hf : f ∈ fields)
    (hbase : base.Extends h) : p.Evals ⟨x, c, [target c r]⟩ h (.ident f.name)
      ⟨slots.get (c.name, f.name), c.declaredType f.name⟩ h := by
  obtain ⟨g, hg⟩ := BeanClass.instanceField?_of_mem hs.fields hf
  have hx := object?_of_extends hbase hs.self
  have hname : "ret" ≠ f.name := by
    have hfree := hs.named.free.not_mem hs.fields hf
    simpa [eq_comm] using hfree
  have hlocal : Frame.local? ⟨x, c, [target c r]⟩ f.name = none := by
    simp [Frame.local?, target, hname]
  rw [← Heap.valueAt_of_object hx]
  exact Program.evals_field hs.wellFormed hs.owner hlocal hg hx

/-- Sets the field of the target. -/
theorem execs_assignTarget (hs : Copies settings p base c d fields x slots) (hf : f ∈ fields)
    (hret : Frame.local? ⟨x, c, locals⟩ "ret" = some (target c r)) {type : Option TypeExpr}
    (he : p.Evals ⟨x, c, locals⟩ h e ⟨w, type⟩ h')
    (hcell : h'[r]? = some (.object d.name slots')) :
    p.Execs x c locals h (.assign (targetField f) e) (.next locals)
      (h'.set r (.object d.name (slots'.set (c.name, f.name) w))) := by
  obtain ⟨g, hg⟩ := BeanClass.instanceField?_of_mem hs.fields hf
  have htarget : p.Evals ⟨x, c, locals⟩ h (.ident "ret") ⟨.ref r, some c.asType⟩ h :=
    .ident (by simp [Program.readName, hret, target])
  refine .assignField htarget he ?_
  exact Program.writeField_of_asType hs.wellFormed hs.owner hg hcell w

/-- Setting the field of the target after new cells have been added. -/
theorem keeps_set_of_extends (hextends : h.Extends h') (cell : Cell) :
    h.Keeps (· ≠ r) (h'.set r cell) :=
  (hextends.mono fun _ _ _ => trivial).trans (Heap.keeps_set h' r cell)

private theorem getElem?_set_of_some {cell cell' : Cell} (hcell : h[r]? = some cell) :
    (h.set r cell')[r]? = some cell' := by
  rw [List.getElem?_set_self (List.getElem?_eq_some_iff.mp hcell).1]

/-- A property that lasts still holds when the target has changed. -/
theorem Lasting.of_keeps {start : Nat} {Q : Heap → Prop} (hQ : Lasting base start h Q)
    (hr : base.length ≤ r) (hlt : r < start) (hk : h.Keeps (· ≠ r) h') :
    Lasting base start h' Q := by
  refine hQ.later (hk.mono fun a _ ha => ?_) (Nat.le_refl _)
  omega

/-- A field that is neither a list nor a map is copied as its value is. -/
theorem copiesField_of_value (hlist : ¬t.isErasure "List") (hmap : ¬t.isErasure "Map")
    (hv : CopiesValue p settings.runtime P base .field t v) :
    CopiesField settings p P base t v := by
  rintro c d fields x slots f h r slots' hs hf rfl rfl hbase hr hcell
  obtain ⟨w, type, h', he, hextends, hcopied⟩ := hv h _ _ _ hbase (evals_name (r := r) hs hf hbase)
  have hcell' := hextends.get_of_some trivial hcell
  refine ⟨w, _, ?_, keeps_set_of_extends hextends _, getElem?_set_of_some hcell', ?_⟩
  · unfold copyField
    rw [if_neg hlist, if_neg hmap]
    exact execs_assignTarget hs hf rfl he hcell'
  · exact Lasting.of_keeps hcopied hr (List.getElem?_eq_some_iff.mp hcell).1 (Heap.keeps_set _ _ _)

/-- A field that is null becomes null in the target. -/
theorem execs_unlessNull_of_null (hs : Copies settings p base c d fields x slots) (hf : f ∈ fields)
    (hnull : slots.get (c.name, f.name) = .null) (hbase : base.Extends h)
    (hcell : h[r]? = some (.object d.name slots')) (copy : Block) :
    p.Execs x c [target c r] h (unlessNull f copy) (.next [target c r])
      (h.set r (.object d.name (slots'.set (c.name, f.name) .null))) := by
  have he := evals_name (r := r) hs hf hbase
  rw [hnull] at he
  exact .ifElse (.isNull he) (.cons (execs_assignTarget hs hf rfl .null hcell) .nil)

/-- A list or map that is null stays null. -/
theorem copiesField_null (hfield : t.isErasure "List" ∨ t.isErasure "Map") :
    CopiesField settings p P base t .null := by
  rintro c d fields x slots f h r slots' hs hf rfl hnull hbase hr hcell
  have hexecs := execs_unlessNull_of_null hs hf hnull hbase hcell
  refine ⟨.null, _, ?_, Heap.keeps_set _ _ _, getElem?_set_of_some hcell,
    fun k _ => .null nofun⟩
  unfold copyField
  split
  · exact hexecs _
  · rw [if_pos (by simp_all)]
    exact hexecs _

/-- A field that is not null is copied by the block for it. -/
theorem execs_unlessNull (inner : List Local)
    (hs : Copies settings p base c d fields x slots) (hf : f ∈ fields)
    (hne : slots.get (c.name, f.name) ≠ .null) (hbase : base.Extends h) {copy : Block}
    (hcopy : p.Runs x c [target c r] h copy (.next (inner ++ [target c r])) h') :
    p.Execs x c [target c r] h (unlessNull f copy) (.next [target c r]) h' := by
  have htest := Program.Tests.isNull (evals_name (r := r) hs hf hbase)
  rw [beq_false_of_ne hne] at htest
  have hexecs : p.Execs x c [target c r] h (unlessNull f copy)
      ((Flow.next (inner ++ [target c r])).leave 1) h' := .ifElse htest hcopy
  simpa [Flow.leave] using hexecs

/-- A field with a map gets a new map. -/
theorem copiesField_map (hmap : t.isErasure "Map") (hlist : ¬t.isErasure "List") {a : Nat}
    {entries : List (Value × Value)} (hentries : base[a]? = some (.map entries)) :
    CopiesField settings p P base t (.ref a) := by
  rintro c d fields x slots f h r slots' hs hf rfl hv hbase hr hcell
  have he := evals_name (r := r) hs hf hbase
  rw [hv] at he
  have hnew : p.Evals ⟨x, c, [target c r]⟩ h
      (.newObject (.named "java.util.HashMap" (typeArgs f.type)) [.ident f.name])
      ⟨.ref h.length, some (.named "java.util.HashMap" (typeArgs f.type))⟩ (h ++ [.map entries]) :=
    .newObject (.one he) (.of_eq fun calls =>
      Program.construct_hashMap calls _ (hbase.get_of_some trivial hentries) _)
  have hextends := Heap.extends_append h [.map entries]
  have hcell' := hextends.get_of_some trivial hcell
  have hlt := (List.getElem?_eq_some_iff.mp hcell).1
  refine ⟨.ref h.length, _, ?_, keeps_set_of_extends hextends _, getElem?_set_of_some hcell', ?_⟩
  · unfold copyField
    rw [if_neg hlist, if_pos hmap]
    exact execs_unlessNull [] hs hf (by simp [hv]) hbase
      (.cons (execs_assignTarget hs hf rfl hnew hcell') .nil)
  · have hcopy : Lasting base h.length (h ++ [.map entries]) fun k =>
        k[h.length]? = some (.map entries) :=
      .of_cell (.inr (Nat.le_refl _)) List.getElem?_concat_length
    refine (Lasting.of_keeps hcopy hr hlt (Heap.keeps_set _ _ _)).mono fun k hk => ?_
    exact .map (.inl (by simp [CodeModel.way, hlist, hmap])) hentries hbase.length_le hk

/-! ## Lists -/

private theorem accessor_of_mem {declared : List Field} {fields : List InstanceField}
    (h : (c.instanceFieldsAmong declared).outcome = .ok fields) (hf : f ∈ fields) :
    c.accessorName? f.name = some f.accessor := by
  obtain ⟨g, -, hgf⟩ := exists_of_forall₂ (BeanClass.accesses_instanceFieldsAmong h) hf
  exact hgf.2.2

/-- Accessors have names where properties do. -/
theorem accessor_ne_empty_of_mem {declared : List Field} {fields : List InstanceField}
    (h : (c.instanceFieldsAmong declared).outcome = .ok fields) (hf : f ∈ fields)
    (hnamed : ∀ property ∈ c.properties, property.publicName ≠ "") : f.accessor ≠ "" := by
  have haccessor := accessor_of_mem h hf
  unfold BeanClass.accessorName? at haccessor
  split at haccessor
  case h_1 property hproperty =>
    rw [← Option.some.inj haccessor]
    exact hnamed property (List.mem_of_find?_eq_some hproperty)
  case h_2 =>
    split at haccessor
    case isTrue hother =>
      rw [← Option.some.inj haccessor, beq_iff_eq.mp hother]
      decide
    · cases haccessor

private theorem Copies.accessor_ne_empty (hs : Copies settings p base c d fields x slots)
    (hf : f ∈ fields) : f.accessor ≠ "" :=
  accessor_ne_empty_of_mem hs.fields hf hs.named.named

/-- The local variable that holds the new list. -/
def newList (f : InstanceField) (b : Nat) : Local :=
  ⟨listLocal f, .listOf f.type.elementOrObject, .ref b⟩

/-- No local list is called like the copy. -/
theorem listLocal_ne_ret (h : f.accessor ≠ "") : listLocal f ≠ "ret" := by
  intro heq
  have hlist := congrArg String.toList heq
  simp [listLocal, String.toList_append] at hlist
  exact h (by simpa using hlist)

private theorem listLocal_ne_item (f : InstanceField) : listLocal f ≠ "aItem" := by
  intro heq
  have hlist := congrArg String.toList heq
  simp [listLocal, String.toList_append] at hlist

/-- A heap that has grown out of the base still has when a cell outside the base changes. -/
theorem extends_of_keeps (hbase : base.Extends h) {b : Nat} (hb : base.length ≤ b)
    (hk : h.Keeps (· ≠ b) h') : base.Extends h' where
  length_le := Nat.le_trans hbase.length_le hk.length_le
  get_eq a _ ha := by
    have hlt := hbase.length_le
    rw [hk.get_eq a (by omega) (by omega), hbase.get_eq a trivial ha]

/-- The loop over a list adds a copy of each item to the new list. -/
theorem loops_add {b : Nat} {items done : List Value}
    (hvalues : ∀ v ∈ items,
      CopiesValue p settings.runtime P base .item f.type.elementOrObject v)
    (hbase : base.Extends h) (hb : base.length ≤ b) (hcell : h[b]? = some (.list done)) :
    ∃ copies h', p.Loops x c [newList f b, target c r] f.type.elementOrObject "aItem"
        [.expr ((Expr.ident (listLocal f)).invoke "add"
          [copyOf settings.runtime p.model f.type.elementOrObject (.ident "aItem")])] items h h' ∧
      h.Keeps (· ≠ b) h' ∧ h'[b]? = some (.list (done ++ copies)) ∧
      List.Forall₂ (fun v w => Lasting base h.length h' fun k =>
        Copied p settings.runtime P base k .item f.type.elementOrObject v w) items copies := by
  induction items generalizing h done with
  | nil => exact ⟨[], h, .nil, .refl h, by simpa using hcell, .nil⟩
  | cons v rest ih =>
    rw [List.forall_mem_cons] at hvalues
    have hlt := (List.getElem?_eq_some_iff.mp hcell).1
    let frame : Frame :=
      ⟨x, c, ⟨"aItem", f.type.elementOrObject, v⟩ :: [newList f b, target c r]⟩
    have hitem : p.Evals frame h (.ident "aItem") ⟨v, some f.type.elementOrObject⟩ h := .ident rfl
    have hlist : p.Evals frame h (.ident (listLocal f))
        ⟨.ref b, some (.listOf f.type.elementOrObject)⟩ h :=
      .ident (by simp [frame, Program.readName, Frame.local?, newList,
        (listLocal_ne_item f).symm])
    obtain ⟨w, type, h₁, hcopy, hextends, hcopied⟩ := hvalues.1 h frame _ _ hbase hitem
    have hcell₁ := hextends.get_of_some trivial hcell
    have hadd : p.Evals frame h ((Expr.ident (listLocal f)).invoke "add"
        [copyOf settings.runtime p.model f.type.elementOrObject (.ident "aItem")])
        ⟨.bool true, none⟩ (h₁.set b (.list (done ++ [w]))) :=
      .invoke hlist (.one hcopy) (.of_eq fun calls => Program.invoke_list_add calls hcell₁ _)
    have hset : h.Keeps (· ≠ b) (h₁.set b (.list (done ++ [w]))) := keeps_set_of_extends hextends _
    obtain ⟨copies, h₂, hloop, hkeeps, hcell₂, hall⟩ := ih hvalues.2
      (extends_of_keeps hbase hb hset) (getElem?_set_of_some hcell₁)
    refine ⟨w :: copies, h₂, .cons (.cons (.expr hadd) .nil) hloop, hset.trans hkeeps, ?_, ?_⟩
    · simpa using hcell₂
    · refine .cons ?_ (hall.imp fun v w hcopied => hcopied.later (.refl _) hset.length_le)
      exact Lasting.of_keeps hcopied hb hlt ((Heap.keeps_set _ _ _).trans hkeeps)

/-- Copies of items stay what they are, and so a list of them is a copy. -/
theorem copied_items {items copies : List Value} {k : Heap} {a b : Nat}
    (hway : p.model.way .field t = .items)
    (hwrapped : t.elementOrObject.isErasure "JAXBElement" →
      p.model.category t.elementOrObject = .wrappedUnionElement)
    (hitems : base[a]? = some (.list items)) (hb : base.length ≤ b)
    (hcell : k[b]? = some (.list copies))
    (hall : List.Forall₂
      (fun v w => Copied p settings.runtime P base k .item t.elementOrObject v w) items copies) :
    Copied p settings.runtime P base k .field t (.ref a) (.ref b) := by
  refine .items hway hwrapped hitems hb hcell hall.length_eq fun i v w hv hw => ?_
  obtain ⟨hi, rfl⟩ := List.getElem?_eq_some_iff.mp hv
  obtain ⟨hi', rfl⟩ := List.getElem?_eq_some_iff.mp hw
  exact (List.forall₂_iff_get.mp hall).2 i hi hi'

/-- A field with a list gets a new list of copied items, if the items are copied. -/
theorem copiesField_list (hlist : t.isErasure "List")
    (hwrapped : t.elementOrObject.isErasure "JAXBElement" →
      p.model.category t.elementOrObject = .wrappedUnionElement) {a : Nat} {items : List Value}
    (hitems : base[a]? = some (.list items))
    (hvalues : ∀ v ∈ items, CopiesValue p settings.runtime P base .item t.elementOrObject v) :
    CopiesField settings p P base t (.ref a) := by
  rintro c d fields x slots f h r slots' hs hf rfl hv hbase hr hcell
  have hextends := Heap.extends_append h [.list []]
  have hnew : p.Evals ⟨x, c, [target c r]⟩ h
      (.newObject (.named "java.util.ArrayList" [f.type.elementOrObject]) [])
      ⟨.ref h.length, _⟩ (h ++ [.list []]) :=
    .newObject .nil (.of_eq fun calls => Program.construct_arrayList calls _ h)
  have hbase₁ := hbase.trans hextends
  have hlt := (List.getElem?_eq_some_iff.mp hcell).1
  obtain ⟨type, hgetter⟩ := hs.clonable.getsLists (h ++ [.list []]) x slots c fields f
    (object?_of_extends hbase₁ hs.self) hs.line hs.fields hf hlist (by simp [hv])
  rw [hv] at hgetter
  have hiterable : Program.itemsOf? (.ref a) (h ++ [.list []]) = some items := by
    simp [Program.itemsOf?, hbase₁.get_of_some trivial hitems]
  obtain ⟨copies, h₂, hloop, hkeeps, hcopies, hall⟩ := loops_add (x := x) (c := c) (r := r)
    hvalues hbase₁ hbase.length_le List.getElem?_concat_length
  have hcell₂ : h₂[r]? = some (.object d.name slots') :=
    hkeeps.get_of_some (Nat.ne_of_lt hlt) (hextends.get_of_some trivial hcell)
  have hret : Frame.local? ⟨x, c, [newList f h.length, target c r]⟩ "ret" = some (target c r) := by
    simp [Frame.local?, newList, target, listLocal_ne_ret (hs.accessor_ne_empty hf)]
  have hextends₂ := extends_of_keeps hextends (Nat.le_refl _) hkeeps
  refine ⟨.ref h.length, _, ?_, keeps_set_of_extends hextends₂ _, getElem?_set_of_some hcell₂,
    fun k hk => ?_⟩
  · unfold copyField copyList
    rw [if_pos hlist]
    have hlocal : p.Evals ⟨x, c, [newList f h.length, target c r]⟩ h₂ (.ident (listLocal f))
        ⟨.ref h.length, some (.listOf f.type.elementOrObject)⟩ h₂ :=
      .ident (by simp [Program.readName, Frame.local?, newList])
    refine execs_unlessNull [newList f h.length] hs hf (by simp [hv]) hbase ?_
    exact .cons (.declFinal hnew) (.cons (.forEach (.call .nil hgetter) hiterable hloop)
      (.cons (execs_assignTarget hs hf hret hlocal hcell₂) .nil))
  · have hset := Heap.keeps_set h₂ r (.object d.name (slots'.set (c.name, f.name) (.ref h.length)))
    have hnewList : Lasting base h.length h₂ fun k => k[h.length]? = some (.list copies) :=
      .of_cell (.inr (Nat.le_refl _)) hcopies
    refine copied_items (by simp [CodeModel.way, hlist]) hwrapped hitems hbase.length_le
      (Lasting.of_keeps hnewList hr hlt hset k hk) (hall.imp fun v w hcopied => ?_)
    exact Lasting.of_keeps (hcopied.later (.refl _) hextends.length_le) hr hlt hset k hk

end Copying

end BeanSynthesis
