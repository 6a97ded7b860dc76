import BeanSynthesis.Proofs.Carrying.Calls
import BeanSynthesis.Proofs.Copying.Sharing
import BeanSynthesis.Proofs.Edits.Gains
import BeanSynthesis.Proofs.Kinds

/-!
# Lists and maps in lists

A list or a map in a field is copied as such. Where it is an item of a list it is told by its
category alone, and that knows neither of the two: its own method `clone` is called, unless values
of the category are shared. If that call is answered with a list of the same items, the items are
not copied, which is right only where they may be shared or are null.
-/

namespace BeanSynthesis

/-- The type erases to a list or to a map. -/
def TypeExpr.IsContainer (t : TypeExpr) : Prop := t.isErasure "List" ∨ t.isErasure "Map"

/-- A call of `clone` on what the text says to be a list or a map. -/
def MethodCall.ClonesContainer (call : MethodCall) : Prop :=
  call.name = "clone" ∧ ∃ t, call.receiver = some t ∧ t.IsContainer

namespace CodeModel

variable {m : CodeModel} {t : TypeExpr}

/-- As far as its category tells, a list is cloned by its own method. -/
theorem way_of_list (h : t.isErasure "List") : (m.category t).way = .cloned := by
  rcases m.category_of_isErasure_list h with hcategory | hcollection
  · rw [hcategory]
    rfl
  · cases hcategory : m.category t <;> simp_all [TypeCategory.isCollection, TypeCategory.way]

private theorem not_isShareable_of_list (h : t.isErasure "List") : ¬(m.category t).isShareable := by
  rw [← TypeCategory.way_eq_shared, way_of_list h]
  nofun

/-- A list or a map is shared where its category says so, and is cloned elsewhere. -/
theorem way_of_isContainer (h : t.IsContainer) :
    (m.category t).way = if (m.category t).isShareable then .shared else .cloned := by
  rcases h with hlist | hmap
  · rw [way_of_list hlist, if_neg (not_isShareable_of_list hlist)]
  · rcases category_of_map hmap with hcategory | hcategory <;> rw [hcategory] <;> rfl

/-- Lists and maps are treated differently as items and in fields, and other types alike. -/
theorem way_item_eq_field_iff : m.way .item t = m.way .field t ↔ ¬t.IsContainer := by
  obtain ⟨hitems, hmap⟩ := (m.category t).way_ne
  unfold way TypeExpr.IsContainer
  by_cases hlist : t.isErasure "List"
  · simp [hlist, hitems]
  · by_cases hmapped : t.isErasure "Map"
    · simp [hlist, hmapped, hmap]
    · simp [hlist, hmapped]

end CodeModel

namespace Copying

/-! ## The text -/

section

variable {runtime : RuntimeClasses} {m : CodeModel} {t self : TypeExpr} {scope : TypeScope}
  {name : String} {f : InstanceField}

/-- The copy of a variable calls one method at most, and that is `clone` of the variable. -/
theorem callsIn_copyOf (runtime : RuntimeClasses) (m : CodeModel) (t self : TypeExpr)
    (scope : TypeScope) (name : String) :
    (copyOf runtime m t (.ident name)).callsIn self scope =
      if (m.category t).way = .external ∨ (m.category t).way = .cloned then
        [⟨scope.lookup name, "clone", []⟩]
      else [] := by
  have hne := (m.category t).way_ne
  rw [copyOf_eq]
  cases hway : (m.category t).way with
  | items => exact absurd hway hne.1
  | map => exact absurd hway hne.2
  | shared => rfl
  | array => rfl
  | wrapped => rfl
  | external => rfl
  | cloned => rfl

/-- The copy of a variable clones a list or a map if its type is one that is not shared. -/
theorem clonesContainer_copyOf (hname : scope.lookup name = some t) :
    (∃ call ∈ (copyOf runtime m t (.ident name)).callsIn self scope, call.ClonesContainer) ↔
      t.IsContainer ∧ ¬(m.category t).isShareable := by
  rw [callsIn_copyOf, hname]
  constructor
  · rintro ⟨call, hcall, -, u, hreceiver, hcontainer⟩
    split at hcall
    case isTrue hway =>
      obtain rfl := List.mem_singleton.mp hcall
      obtain rfl := Option.some.inj hreceiver
      refine ⟨hcontainer, fun hshareable => ?_⟩
      rw [TypeCategory.way_eq_shared.mpr hshareable] at hway
      simp at hway
    case isFalse => cases hcall
  · rintro ⟨hcontainer, hshareable⟩
    have hway : (m.category t).way = .cloned := by
      rw [CodeModel.way_of_isContainer hcontainer, if_neg hshareable]
    rw [if_pos (.inr hway)]
    exact ⟨_, List.mem_singleton.mpr rfl, rfl, t, rfl, hcontainer⟩

/-- The copy of a list calls the getter of the field, and for each item what copies the item and
`add`. -/
theorem callsIn_copyList (runtime : RuntimeClasses) (m : CodeModel) (f : InstanceField)
    (self : TypeExpr) (scope : TypeScope) :
    let element := f.type.elementOrObject
    let inner := ("aItem", element) :: (listLocal f, .listOf element) :: scope
    (copyList runtime m f).callsIn self scope =
      ⟨some self, Naming.getterName f.type f.accessor, []⟩ ::
        ((copyOf runtime m element (.ident "aItem")).callsIn self inner ++
          [⟨inner.lookup (listLocal f), "add",
            [(copyOf runtime m element (.ident "aItem")).typeIn self inner]⟩]) := by
  simp [copyList, unlessNull, Expr.isNull, Expr.eq, targetField, Stmt.declFinal, Stmt.callsIn,
    Stmt.blockCallsIn, Stmt.declaresTyped, Expr.callsIn, Expr.listCallsIn, Expr.optionCallsIn,
    Expr.typeIn]

/-- The copy of a map calls no methods. -/
theorem callsIn_copyMap (f : InstanceField) (self : TypeExpr) (scope : TypeScope) :
    (copyMap f).callsIn self scope = [] :=
  rfl

/-- The copy of a field clones a list or a map if and only if the field is a list and its items are
lists or maps that are not shared. -/
theorem clonesContainer_copyField (runtime : RuntimeClasses) (m : CodeModel) (f : InstanceField)
    (self : TypeExpr) (scope : TypeScope) :
    (∃ call ∈ (copyField runtime m f).callsIn self ((f.name, f.type) :: scope),
        call.ClonesContainer) ↔
      f.type.isErasure "List" ∧ f.type.elementOrObject.IsContainer ∧
        ¬(m.category f.type.elementOrObject).isShareable := by
  have hgetter : Naming.getterName f.type f.accessor ≠ "clone" := fun heq =>
    (Naming.getterName_isAccessor f.type f.accessor).not_mem (heq ▸ by decide)
  unfold copyField
  split
  case isTrue hlist =>
    rw [callsIn_copyList]
    simp only [List.mem_cons, List.mem_append, List.not_mem_nil, or_false, or_and_right, exists_or,
      exists_eq_left, clonesContainer_copyOf List.lookup_cons_self]
    simp [MethodCall.ClonesContainer, hgetter, hlist]
  case isFalse hlist =>
    split
    case isTrue hmap => simp [callsIn_copyMap, hlist]
    case isFalse hmap =>
      have hcopy : (∃ call ∈ (copyOf runtime m f.type (.ident f.name)).callsIn self
          ((f.name, f.type) :: scope), call.ClonesContainer) ↔
            f.type.IsContainer ∧ ¬(m.category f.type).isShareable :=
        clonesContainer_copyOf List.lookup_cons_self
      refine hcopy.trans ?_
      simp [hlist, hmap, TypeExpr.IsContainer]

end

/-! ## The values -/

section

variable {runtime : RuntimeClasses} {p : Program} {P : BeanClass → Prop} {base h k : Heap}
  {place : Place} {t : TypeExpr} {v w : Value} {frame : Frame} {e : Expr} {a : Nat} {cell : Cell}
  {items : List Value} {entries : List (Value × Value)} {declared : Option TypeExpr}

/-- A list or a map that the text clones is copied with the same content, if its method `clone`
answers. -/
theorem evals_copyOf_cloned (hway : (p.model.category t).way = .cloned) (hcell : h[a]? = some cell)
    (hcontainer : (∃ items, cell = .list items) ∨ ∃ entries, cell = .map entries)
    (he : p.Evals frame h e ⟨.ref a, declared⟩ h) :
    p.Evals frame h (copyOf runtime p.model t e) ⟨.ref h.length, none⟩ (h ++ [cell]) := by
  have hanswer : p.invokeOutside (.ref a) "clone" [] h =
      some (⟨.ref h.length, none⟩, h ++ [cell]) := by
    rcases hcontainer with ⟨items, rfl⟩ | ⟨entries, rfl⟩
    · simp [Program.invokeOutside, hcell]
    · simp [Program.invokeOutside, hcell]
  have hobject : ∀ name slots, cell ≠ .object name slots := by
    rintro name slots rfl
    rcases hcontainer with ⟨items, h⟩ | ⟨entries, h⟩
    · cases h
    · cases h
  rw [copyOf_eq, hway]
  refine evals_nullOr he Value.noConfusion (.invoke he .nil (.of_eq fun calls => ?_))
  rw [Program.invoke_of_cell calls hcell hobject declared (by decide), hanswer]

/-- What the expression gives is the copy. -/
theorem CopiesValue.copied (hcopies : CopiesValue p runtime P base place t v)
    (he : p.Evals frame base e ⟨v, declared⟩ base) {w : Typed}
    (hcopy : p.Evals frame base (copyOf runtime p.model t e) w k) :
    Copied p runtime P base k place t v w.value := by
  obtain ⟨u, type, k', heval, -, hlasting⟩ := hcopies base frame e declared (.refl base) he
  obtain ⟨rfl, rfl⟩ := Prod.mk.inj (hcopy.unique heval)
  exact hlasting _ (.refl _)

/-- A cell of the base is not one of those that are added later. -/
theorem not_length_le_of_cell (hcell : base[a]? = some cell) : ¬base.length ≤ a :=
  Nat.not_le.mpr (List.getElem?_eq_some_iff.mp hcell).1

/-- Only what is null or shared is its own copy. All other copies are new cells. -/
theorem null_or_shared_of_copied (hfresh : p.CopiesFresh runtime)
    (h : Copied p runtime P base k place t v v) : v = .null ∨ p.model.way place t = .shared := by
  cases h with
  | shared hway => exact .inr hway
  | null _ => exact .inl rfl
  | array _ hcell hb => exact absurd hb (not_length_le_of_cell hcell)
  | list _ hcell hb => exact absurd hb (not_length_le_of_cell hcell)
  | map _ hcell hb => exact absurd hb (not_length_le_of_cell hcell)
  | items _ _ hcell hb => exact absurd hb (not_length_le_of_cell hcell)
  | object _ _ _ hobject hb =>
    obtain ⟨a, heq, hcell⟩ := Heap.object?_eq_some.mp hobject
    obtain rfl := Value.ref.inj heq
    exact absurd hb (not_length_le_of_cell hcell)
  | wrapped _ hforeign hcall hbase =>
    rcases hforeign with hnull | ⟨a, className, parts, rfl, hcell⟩
    · exact .inl hnull
    · have hforeign : base.IsForeignOrNull (.ref a) := .inr ⟨a, className, parts, rfl, hcell⟩
      have hnew := (hfresh.wrapped _ _ _ _ (hforeign.of_extends hbase) hcall).2 a rfl
      exact absurd (Nat.le_trans hbase.length_le hnew) (not_length_le_of_cell hcell)
  | external _ hcell hcall hbase =>
    have hnew := (hfresh.clone _ _ _ _ _ _ (hbase.get_of_some trivial hcell) hcall).2 _ rfl
    exact absurd (Nat.le_trans hbase.length_le hnew) (not_length_le_of_cell hcell)

/-- An item that is null is copied like a field that is. -/
theorem copiesValue_null_item (ht : t.IsContainer) :
    CopiesValue p runtime P base .field t .null := by
  intro h frame e declared hbase he
  have hway := CodeModel.way_of_isContainer (m := p.model) ht
  have hcopy : ∃ type, p.Evals frame h (copyOf runtime p.model t e) ⟨.null, type⟩ h := by
    rw [copyOf_eq]
    split at hway
    · rw [hway]
      exact ⟨declared, he⟩
    · rw [hway]
      exact ⟨none, evals_nullOr_of_null he⟩
  obtain ⟨type, hcopy⟩ := hcopy
  exact ⟨.null, type, h, hcopy, .refl h, fun k _ => .null nofun⟩

/-- The frame of a loop over a list of such items. -/
def itemFrame (t : TypeExpr) (v : Value) : Frame := ⟨.null, { name := "" }, [⟨"aItem", t, v⟩]⟩

private theorem evals_item (p : Program) (h : Heap) (t : TypeExpr) (v : Value) :
    p.Evals (itemFrame t v) h (.ident "aItem") ⟨v, some t⟩ h :=
  .ident rfl

/-- The copy of a list or a map is right wherever a new cell of the same content is a copy. -/
theorem copiesValue_of_cell (hway : (p.model.category t).way = .cloned)
    (hcell : base[a]? = some cell)
    (hcontainer : (∃ items, cell = .list items) ∨ ∃ entries, cell = .map entries)
    (hcopied : ∀ k b, base.length ≤ b → k[b]? = some cell →
      Copied p runtime P base k place t (.ref a) (.ref b)) :
    CopiesValue p runtime P base place t (.ref a) := by
  intro h frame e declared hbase he
  have hnew : Lasting base h.length (h ++ [cell]) fun k => k[h.length]? = some cell :=
    .of_cell (.inr (Nat.le_refl _)) List.getElem?_concat_length
  exact ⟨.ref h.length, none, h ++ [cell],
    evals_copyOf_cloned hway (hbase.get_of_some trivial hcell) hcontainer he,
    Heap.extends_append h _, hnew.mono fun k hk => hcopied k _ hbase.length_le hk⟩

/-- An item that is a list is copied like a field with that list if and only if its own items may
all stay what they are. -/
theorem copiesValue_list_item_iff (hfresh : p.CopiesFresh runtime) (hlist : t.isErasure "List")
    (hwrapped : t.elementOrObject.isErasure "JAXBElement" →
      p.model.category t.elementOrObject = .wrappedUnionElement)
    (hcell : base[a]? = some (.list items)) :
    CopiesValue p runtime P base .field t (.ref a) ↔
      ∀ v ∈ items, v = .null ∨ (p.model.category t.elementOrObject).isShareable := by
  have hway : (p.model.category t).way = .cloned := CodeModel.way_of_list hlist
  have hfield : p.model.way .field t = .items := CodeModel.way_eq_items_iff.mpr ⟨rfl, hlist⟩
  constructor
  · intro hcopies v hv
    have hcopy := hcopies.copied (evals_item p base t _)
      (evals_copyOf_cloned hway hcell (.inl ⟨items, rfl⟩) (evals_item p base t _))
    obtain ⟨items', hitems', -, hall⟩ :=
      hcopy.exists_items hfield (Program.itemsOf?_eq_some.mpr ⟨a, rfl, .inl hcell⟩)
    obtain rfl : items = items' := by
      simpa [Program.itemsOf?] using hitems'
    obtain ⟨i, hi⟩ := List.mem_iff_getElem?.mp hv
    exact (null_or_shared_of_copied hfresh (hall i v v hi hi)).imp_right
      TypeCategory.way_eq_shared.mp
  · intro hall
    refine copiesValue_of_cell hway hcell (.inl ⟨items, rfl⟩) fun k b hb hk =>
      .items hfield hwrapped hcell hb hk rfl ?_
    intro i v w hv hw
    obtain rfl := Option.some.inj (hv.symm.trans hw)
    rcases hall v (List.mem_of_getElem? hv) with rfl | hshared
    · exact .null (by decide)
    · exact .shared (TypeCategory.way_eq_shared.mpr hshared)

/-- An item that is a map is copied like a field with that map unless it is shared. -/
theorem copiesValue_map_item_iff (hfresh : p.CopiesFresh runtime) (hlist : ¬t.isErasure "List")
    (hmap : t.isErasure "Map") (hcell : base[a]? = some (.map entries)) :
    CopiesValue p runtime P base .field t (.ref a) ↔ ¬(p.model.category t).isShareable := by
  have hfield : p.model.way .field t = .map := CodeModel.way_eq_map_iff.mpr ⟨rfl, hlist, hmap⟩
  have hway := CodeModel.way_of_isContainer (m := p.model) (.inr hmap)
  constructor
  · intro hcopies hshareable
    rw [if_pos hshareable] at hway
    have hsame : p.Evals (itemFrame t (.ref a)) base (copyOf runtime p.model t (.ident "aItem"))
        ⟨.ref a, some t⟩ base := by
      rw [copyOf_eq, hway]
      exact evals_item p base t _
    rcases null_or_shared_of_copied hfresh (hcopies.copied (evals_item p base t _) hsame) with h | h
    · cases h
    · simp [hfield] at h
  · intro hshareable
    rw [if_neg hshareable] at hway
    exact copiesValue_of_cell hway hcell (.inr ⟨entries, rfl⟩) fun k b hb hk =>
      .map (.inl hfield) hcell hb hk

end

/-! ## Runs -/

/-- No other pass offers a method that is called `cloneTo`. -/
theorem body_of_offer {context : PassContext} {m : CodeModel} {c : BeanClass} {pass : Pass}
    {x : Method} (hx : x ∈ (pass.offer context m c).methods) (hname : x.name = "cloneTo") :
    x.body = some (cloneToBody context.settings.runtime m c.instances (m.lineageOf c)) := by
  have howned : x.name ∈ Pass.copying.owned := by simp [hname, Pass.owned]
  have hpass : pass = .copying := by
    by_contra hne
    rcases Pass.offer_names hx with ⟨-, hfree⟩ | hother
    · exact hfree (Pass.copying.owned_reserved _ howned)
    · exact Pass.owned_disjoint hne _ howned hother
  subst hpass
  rcases List.mem_pair.mp hx with rfl | rfl
  · rfl
  · exact absurd (show "clone" = "cloneTo" from hname) (by decide)

/-- What is offered to a grown class is what is offered to the class. -/
theorem cloneToBody_eq_of_grows {settings : Settings} {options : List String} {m n : CodeModel}
    {c d : BeanClass} (h : m.Grows settings options n) (hcd : c.Grows settings options d)
    (runtime : RuntimeClasses) :
    cloneToBody runtime n d.instances (n.lineageOf d) =
      cloneToBody runtime m c.instances (m.lineageOf c) := by
  have hmethod := cloneToMethod_eq_of_grows h hcd runtime c.instances
  rw [hcd.instances_eq]
  exact Option.some.inj (congrArg Method.body hmethod)

/-- After a run with the pass, every class that is no enumeration has the method, unless it is an
older one of the same signature that the class has. -/
theorem runPasses_hasCloneTo {context : PassContext} {m : CodeModel} {passes : List Pass}
    {report₀ report : RunReport} (hpass : .copying ∈ passes)
    (hrun : (EngineRun.runPasses context m report₀ passes).outcome = .ok report) :
    List.Forall₂ (fun c d => ¬c.isEnum → d.hasMethod "cloneTo" [c.asType]) m.classes
      (EngineRun.runPasses context m report₀ passes).model.classes := by
  induction passes generalizing m report₀ with
  | nil => cases hpass
  | cons pass rest ih =>
    obtain ⟨passReport, report₁, hfirst, hrest, hmodel⟩ := EngineRun.runPasses_cons hrun
    rw [(Pass.run_performed hfirst).model] at hrest hmodel
    rw [hmodel]
    rcases List.mem_cons.mp hpass with rfl | hlater
    · have hgrows :=
        (EngineRun.runPasses_grows context rest (Pass.copying.edited context m) report₁).classes
      rw [Pass.edited, List.forall₂_map_left_iff] at hgrows
      refine hgrows.imp fun c d hcd hplain => hcd.hasMethod ?_
      have hoffered : (cloneToMethod context.settings.runtime m c c.instances
          (m.lineageOf c)).stamp context.settings option ∈
            (Pass.copying.editOf context m c).methods := by
        rw [Pass.editOf, if_neg (by simp [hplain])]
        exact List.mem_cons_self
      exact ClassEdit.hasMethod_apply hoffered
    · have hothers := ih hlater hrest
      rw [Pass.edited, List.forall₂_map_left_iff] at hothers
      exact hothers

/-- What `cloneTo` does about lists and maps that are items of lists, in all classes after any run.
Every class that is no enumeration has the method after a run with the pass, and what is added under
this name has the body that the pass makes. It calls `clone` on lists and maps for exactly those
fields the items of which are lists or maps that are not shared, and so it treats them otherwise
than in fields. Where these calls are answered, null stays null and a map is copied as in a field,
but a list keeps its items, which is a copy as in a field only where they are null or may be
shared. -/
theorem synthesize_copies_nested {settings : Settings} {m : CodeModel} {selected : List String}
    {passes : List Pass} {report : RunReport} (hplan : m.plan selected = .ok passes)
    (hok : (synthesize settings m selected).outcome = .ok report) :
    (.copying ∈ passes → List.Forall₂ (fun c d => ¬c.isEnum → d.hasMethod "cloneTo" [c.asType])
      m.classes (synthesize settings m selected).model.classes) ∧
    List.Forall₂ (fun c d => ∃ added, d.methods = c.methods ++ added ∧
        ∀ x ∈ added, x.name = "cloneTo" →
          x.body = some (cloneToBody settings.runtime m c.instances (m.lineageOf c)))
      m.classes (synthesize settings m selected).model.classes ∧
    (∀ f self scope,
      (∃ call ∈ (copyField settings.runtime m f).callsIn self ((f.name, f.type) :: scope),
          call.ClonesContainer) ↔
        f.type.isErasure "List" ∧ f.type.elementOrObject.IsContainer ∧
          ¬(m.category f.type.elementOrObject).isShareable) ∧
    (∀ t, m.way .item t = m.way .field t ↔ ¬t.IsContainer) ∧
    ∀ (p : Program) P base (t : TypeExpr), p.model = (synthesize settings m selected).model →
      p.CopiesFresh settings.runtime →
      (t.IsContainer → CopiesValue p settings.runtime P base .field t .null) ∧
      (∀ a items, t.isErasure "List" →
        (t.elementOrObject.isErasure "JAXBElement" →
          m.category t.elementOrObject = .wrappedUnionElement) →
        base[a]? = some (.list items) →
        (CopiesValue p settings.runtime P base .field t (.ref a) ↔
          ∀ v ∈ items, v = .null ∨ (m.category t.elementOrObject).isShareable)) ∧
      ∀ a entries, ¬t.isErasure "List" → t.isErasure "Map" → base[a]? = some (.map entries) →
        (CopiesValue p settings.runtime P base .field t (.ref a) ↔
          ¬(m.category t).isShareable) := by
  have hgains := synthesize_gains (K := fun _ _ => True)
    (M := fun c x => x.name = "cloneTo" →
      x.body = some (cloneToBody settings.runtime m c.instances (m.lineageOf c)))
    hplan hok fun pass _ now c e hoffers => ⟨fun _ _ => trivial, fun x hx hname => by
      rw [body_of_offer hx hname, cloneToBody_eq_of_grows hoffers.grown hoffers.grownClass]⟩
  have hreceived : .copying ∈ passes → List.Forall₂ (fun c d => ¬c.isEnum →
      d.hasMethod "cloneTo" [c.asType]) m.classes
        (synthesize settings m selected).model.classes := by
    intro hpass
    rw [synthesize_model hplan]
    rw [synthesize_outcome hplan] at hok
    exact runPasses_hasCloneTo hpass hok
  refine ⟨hreceived, hgains.imp fun c d h => h.2.methods,
    clonesContainer_copyField settings.runtime m,
    fun t => CodeModel.way_item_eq_field_iff, fun p P base t hmodel hfresh => ?_⟩
  have hgrows : m.Grows settings (passes.map Pass.option) p.model := by
    rw [hmodel, synthesize_model hplan]
    exact EngineRun.runPasses_grows { settings, active := passes.map Pass.option } passes m {}
  simp only [← hgrows.category_eq]
  exact ⟨copiesValue_null_item,
    fun a items hlist hwrapped hcell => copiesValue_list_item_iff hfresh hlist hwrapped hcell,
    fun a entries hlist hmap hcell => copiesValue_map_item_iff hfresh hlist hmap hcell⟩

/-- A class with lists of lists of lists. -/
def cube : BeanClass where
  name := "shop.Cube"
  fields := [{ name := "layers",
               type := .listOf (.listOf (.listOf (.ofName "java.lang.String"))) }]
  properties := [{ name := "layers", publicName := "Layers", kind := .reference }]

/-- Layers are cloned, and what is in a layer is in its copy. -/
theorem layers_cloned :
    let m : CodeModel := { classes := [cube] }
    let run := synthesize {} m [option]
    let p : Program := ⟨run.model, .byOutline fun _ _ => false⟩
    let layer : TypeExpr := .listOf (.listOf (.ofName "java.lang.String"))
    (∃ report, run.outcome = .ok report) ∧
      (∃ d ∈ run.model.classes, ∃ x ∈ d.methods, ∃ s, x.name = "cloneTo" ∧ x.body = some [s] ∧
        ∃ call ∈ s.callsIn cube.asType [("layers", .listOf layer)], call.ClonesContainer) ∧
      ¬CopiesValue p {} (fun _ => True) [.list [], .list [.ref 0]] .field layer (.ref 1) := by
  intro m run p layer
  have hplan : m.plan [option] = .ok [.copying] := CodeModel.plan_map_option rfl [.copying]
  have hok : ∃ report, run.outcome = .ok report := ⟨_, rfl⟩
  obtain ⟨report, hreport⟩ := hok
  obtain ⟨hreceived, hmade, hcalls, -, hvalues⟩ := synthesize_copies_nested hplan hreport
  obtain ⟨-, hlists, -⟩ := hvalues p (fun _ => True) [.list [], .list [.ref 0]] layer rfl
    byOutline_copiesFresh
  have hshareable : ¬(m.category layer.elementOrObject).isShareable :=
    CodeModel.not_isShareable_of_list rfl
  refine ⟨⟨report, hreport⟩, ?_, fun hcopies => ?_⟩
  · obtain ⟨d, hd, hhas, added, hmethods, hbody⟩ :=
      exists_of_forall₂ (forall₂_both (hreceived List.mem_cons_self) hmade).flip
        (show cube ∈ m.classes from List.mem_cons_self)
    obtain ⟨x, hx, hkey⟩ := List.mem_map.mp (BeanClass.hasMethod_iff.mp (hhas (by decide)))
    have hname : x.name = "cloneTo" := congrArg Prod.fst hkey
    have hadded : x ∈ added := by
      rw [hmethods] at hx
      exact (List.mem_append.mp hx).resolve_left List.not_mem_nil
    refine ⟨d, hd, x, hx, _, hname, hbody x hadded hname, ?_⟩
    exact (hcalls ⟨"layers", .listOf layer, "Layers"⟩ cube.asType []).mpr
      ⟨rfl, .inl rfl, CodeModel.not_isShareable_of_list rfl⟩
  · rcases (hlists 1 [.ref 0] rfl nofun rfl).mp hcopies _ (List.mem_singleton.mpr rfl) with h | h
    · cases h
    · exact hshareable h

end Copying

end BeanSynthesis
