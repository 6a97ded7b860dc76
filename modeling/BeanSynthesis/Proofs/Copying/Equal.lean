import BeanSynthesis.Proofs.Copying.Content
import BeanSynthesis.Proofs.Copying.Made

/-!
# Copies equal their originals

Copying and comparing are made by two passes, each with its own way of going through the fields of a
class. They fit together: what `clone` gives equals the object that was cloned.
-/

namespace BeanSynthesis

namespace Copying

variable {settings : Settings} {runtime : RuntimeClasses} {p : Program} {P : BeanClass → Prop}
  {base h k : Heap} {place : Place} {t : TypeExpr} {v w x y : Value} {c d : BeanClass}
  {slots : Slots}

/-- What it means that a copy equals its original, at the place where the two stand. -/
def EqualAt (p : Program) (runtime : RuntimeClasses) (base k : Heap) (t : TypeExpr) (v w : Value) :
    Place → Prop
  | .whole => ∀ className slots, base.object? v = some (className, slots) → p.EqualsGives k w v true
  | .field => ∀ declared, p.Related runtime k t declared w v
  | .item =>
    if p.model.category t = .wrappedUnionElement then
      ∀ type, (runtime.wrapped type).Relates p.outside k w v
    else ∀ type, (runtime.plain type).Relates p.outside k w v

/-- Where values of a field are not compared as collections or wrapped elements, the plain
comparison decides. -/
theorem comparison_eq_plain {m : CodeModel} (hcollection : ¬(m.category t).isCollection)
    (hwrapped : m.category t ≠ .wrappedUnionElement) (declared : Option TypeExpr) :
    runtime.comparison m t declared = runtime.plain declared := by
  unfold RuntimeClasses.comparison
  cases hcategory : m.category t <;> simp_all [TypeCategory.isCollection]

private theorem related_of_comparison {declared : Option TypeExpr}
    (hgeneric : p.model.category t ≠ .genericObject)
    (hrelates : (runtime.comparison p.model t declared).Relates p.outside h v w) :
    p.Related runtime h t declared v w := by
  unfold Program.Related
  rwa [if_neg fun hnodes => hgeneric hnodes.1]

/-- Which ways go with the plain comparison. -/
theorem category_of_plain_way {m : CodeModel} (hplace : place ≠ .whole)
    (hshared : m.way place t ≠ .shared) (hwrapped : m.way place t ≠ .wrapped)
    (hitems : m.way place t ≠ .items) :
    (place = .field → ¬(m.category t).isCollection) ∧ m.category t ≠ .wrappedUnionElement ∧
      m.category t ≠ .genericObject := by
  have hcollection : place = .field → ¬(m.category t).isCollection := by
    rintro rfl h
    exact hitems (CodeModel.way_eq_items_iff.mpr ⟨rfl, CodeModel.isErasure_of_isCollection h⟩)
  refine ⟨hcollection, ?_⟩
  by_cases hmap : m.way place t = .map
  · obtain ⟨-, -, herasure⟩ := CodeModel.way_eq_map_iff.mp hmap
    rcases CodeModel.category_of_map (m := m) herasure with hcategory | hcategory
    · simp [hcategory]
    · simp [hcategory]
  · have hway := CodeModel.way_eq_category hplace hitems hmap
    rw [hway] at hshared hwrapped
    exact ⟨fun h => hwrapped (by rw [h]; rfl), fun h => hshared (by rw [h]; rfl)⟩

/-- A value that is no generated object equals its copy if the plain comparison says so. -/
theorem equalAt_of_plain (hobject : place = .whole → ∀ className slots,
      base.object? v ≠ some (className, slots)) (hshared : p.model.way place t ≠ .shared)
    (hwrapped : p.model.way place t ≠ .wrapped) (hitems : p.model.way place t ≠ .items)
    (hplain : ∀ type, (runtime.plain type).Relates p.outside k w v) :
    EqualAt p runtime base k t v w place := by
  by_cases hplace : place = .whole
  · subst hplace
    exact fun className slots hv => absurd hv (hobject rfl className slots)
  · obtain ⟨hcollection, hcategory, hgeneric⟩ :=
      category_of_plain_way hplace hshared hwrapped hitems
    cases place with
    | whole => exact absurd rfl hplace
    | field =>
      intro declared
      refine related_of_comparison hgeneric ?_
      rw [comparison_eq_plain (hcollection rfl) hcategory]
      exact hplain declared
    | item =>
      unfold EqualAt
      rw [if_neg hcategory]
      exact hplain

private theorem object?_of_cell {a : Nat} {cell : Cell} (hcell : h[a]? = some cell)
    (hobject : ∀ name slots, cell ≠ .object name slots) (className : String) (slots : Slots) :
    h.object? (.ref a) ≠ some (className, slots) := by
  intro h
  obtain ⟨b, hb, hcell'⟩ := Heap.object?_eq_some.mp h
  obtain rfl := Value.ref.inj hb
  exact hobject className slots (Option.some.inj (hcell.symm.trans hcell'))

private theorem equalAt_self (hcompares : p.ComparesLawfully runtime k) (hplace : place ≠ .whole)
    (v : Value) : EqualAt p runtime base k t v v place := by
  cases place with
  | whole => exact absurd rfl hplace
  | field => exact fun declared => hcompares.related_refl v
  | item =>
    by_cases hcategory : p.model.category t = .wrappedUnionElement
    · unfold EqualAt
      rw [if_pos hcategory]
      exact fun type => (hcompares.wrapped type).refl v
    · unfold EqualAt
      rw [if_neg hcategory]
      exact fun type => (hcompares.plain type).refl v

/-- Lists are equal when their items are, in the sense that the type of the items asks for. -/
theorem relates_lists (hcompares : p.ComparesLawfully runtime k)
    (hcontent : p.ComparesContent runtime k) {a b : Nat} {items items' : List Value}
    (hlist : t.isErasure "List")
    (hwrapped : t.elementOrObject.isErasure "JAXBElement" →
      p.model.category t.elementOrObject = .wrappedUnionElement)
    (hcell : k[a]? = some (.list items)) (hcell' : k[b]? = some (.list items'))
    (hshared : p.model.category t.elementOrObject = .genericObject → items = items')
    (hall : List.Forall₂ (fun v w => EqualAt p runtime base k t.elementOrObject v w .item) items
      items') (declared : Option TypeExpr) :
    (runtime.comparison p.model t declared).Relates p.outside k (.ref b) (.ref a) := by
  rcases CodeModel.category_of_list (m := p.model) hlist with hobject | ⟨hcategory, helement⟩ |
    ⟨hcategory, helement⟩
  · obtain rfl := hshared (CodeModel.category_of_isObject hobject)
    have hplain : List.Forall₂ (fun v w => ∀ type, (runtime.plain type).Relates p.outside k v w)
        items items := List.forall₂_same.mpr fun v _ type => (hcompares.plain type).refl v
    unfold RuntimeClasses.comparison
    split
    · exact hcontent.wrappedLists _ b a items items hcell' hcell
        (List.forall₂_same.mpr fun v _ type => (hcompares.wrapped type).refl v)
    · exact hcontent.anyLists _ b a items hcell' hcell
    · exact (hcontent.lists _ b a items items hcell' hcell hplain).2
    case h_4 hcategory =>
      rcases CodeModel.category_of_isErasure_list (m := p.model) hlist with h | h
      · simp [hcategory] at h
      · simp [hcategory, TypeCategory.isCollection] at h
    · exact (hcontent.lists _ b a items items hcell' hcell hplain).1
  · have hitems := hall.imp fun v w hvw => by
      unfold EqualAt at hvw
      rwa [if_pos (hwrapped helement)] at hvw
    unfold RuntimeClasses.comparison
    rw [hcategory]
    exact hcontent.wrappedLists _ b a items' items hcell' hcell hitems.flip
  · have hitems := hall.imp fun v w hvw => by
      unfold EqualAt at hvw
      rwa [if_neg fun h => helement (CodeModel.isErasure_of_wrapped h)] at hvw
    unfold RuntimeClasses.comparison
    rw [hcategory]
    exact (hcontent.lists _ b a items' items hcell' hcell hitems.flip).2

/-- An object equals the copy of its fields. -/
theorem equalsGives_of_fields (hm : p.model.WellFormed) (hbase : base.Extends k)
    (hcompares : p.ComparesLawfully settings.runtime k)
    (hd : p.model.Rooted (Equality.Comparable settings p.model) d)
    (hv : base.object? v = some (d.name, slots)) {b : Nat} {slots' : Slots}
    (hcell : k[b]? = some (.object d.name slots'))
    (hfields : ∀ e ∈ p.model.line d, ∀ f ∈ e.fields, f.isStatic = false → ∀ declared,
      p.Related settings.runtime k f.type declared (slots'.get (e.name, f.name))
        (slots.get (e.name, f.name))) : p.EqualsGives k (.ref b) v true := by
  have hv' := object?_of_extends hbase hv
  have hw : k.object? (.ref b) = some (d.name, slots') := Heap.object?_eq_some.mpr ⟨b, rfl, hcell⟩
  obtain ⟨equal, hequal, hiff⟩ :=
    Equality.equalsGives hm hcompares hd hw (.inr ⟨d.name, slots, hv'⟩)
  have htrue : equal = true := by
    refine hiff.mpr ⟨Program.className?_of_object hv', fun e he f hf hstatic => ?_⟩
    rw [Heap.valueAt_of_object hw, Heap.valueAt_of_object hv']
    exact hfields e he f hf hstatic _
  exact htrue ▸ hequal

/-- A wrapped value equals what its helper makes of it, in the sense that both a field and an item
ask for. -/
theorem equalAt_of_wrapped (hwrapped : p.model.category t = .wrappedUnionElement)
    (hplace : place ≠ .whole)
    (hrelates : ∀ type, (settings.runtime.wrapped type).Relates p.outside k w v) :
    EqualAt p settings.runtime base k t v w place := by
  cases place with
  | whole => exact absurd rfl hplace
  | field =>
    intro declared
    refine related_of_comparison (by simp [hwrapped]) ?_
    unfold RuntimeClasses.comparison
    rw [hwrapped]
    exact hrelates declared
  | item =>
    unfold EqualAt
    rw [if_pos hwrapped]
    exact hrelates

/-- A list equals the list of the copies of its items, if they equal them. -/
theorem equalAt_of_items (hcompares : p.ComparesLawfully settings.runtime k)
    (hcontent : p.ComparesContent settings.runtime k) {a b : Nat} {items items' : List Value}
    (hway : p.model.way place t = .items)
    (hwrapped : t.elementOrObject.isErasure "JAXBElement" →
      p.model.category t.elementOrObject = .wrappedUnionElement)
    (hcell : k[a]? = some (.list items)) (hcell' : k[b]? = some (.list items'))
    (hshared : p.model.category t.elementOrObject = .genericObject → items = items')
    (hall : List.Forall₂ (fun v w =>
      EqualAt p settings.runtime base k t.elementOrObject v w .item) items items') :
    EqualAt p settings.runtime base k t (.ref a) (.ref b) place := by
  obtain ⟨rfl, hlist⟩ := CodeModel.way_eq_items_iff.mp hway
  intro declared
  refine related_of_comparison ?_
    (relates_lists hcompares hcontent hlist hwrapped hcell hcell' hshared hall declared)
  rcases CodeModel.category_of_isErasure_list (m := p.model) hlist with h | h
  · simp [h]
  · exact fun hgeneric => by simp [hgeneric, TypeCategory.isCollection] at h

/-- Copies equal their originals. The induction is on how the copy was made. -/
theorem equalAt_of_copied (hm : p.model.WellFormed) (hbase : base.Extends k)
    (hclosed : base.Closed (· < base.length))
    (hcompares : p.ComparesLawfully settings.runtime k)
    (hcontent : p.ComparesContent settings.runtime k) (hcopies : p.CopiesEqual settings.runtime)
    (hP : ∀ d, P d → p.model.Rooted (Equality.Comparable settings p.model) d)
    (h : Copied p settings.runtime P base k place t v w) :
    EqualAt p settings.runtime base k t v w place := by
  have hstays : ∀ {h : Heap}, base.Extends h → h.Closed (· < base.length) := fun hbefore =>
    hclosed.of_keeps (hbefore.mono fun _ _ _ => trivial) fun _ ha => ha
  induction h with
  | shared hway =>
    obtain ⟨hplace, -⟩ := CodeModel.category_of_way hway nofun nofun nofun
    exact equalAt_self hcompares hplace _
  | null hplace => exact equalAt_self hcompares hplace _
  | @array place t a b items hway hcell _ hcopy =>
    refine equalAt_of_plain (fun _ => object?_of_cell hcell nofun) ?_ ?_ ?_ fun type =>
      hcontent.arrays type b a items hcopy (hbase.get_of_some trivial hcell)
    all_goals rcases hway with h | h <;> simp [h]
  | @list place t a b items hway hcell _ hcopy =>
    refine equalAt_of_plain (fun _ => object?_of_cell hcell nofun) (by simp [hway])
      (by simp [hway]) (by simp [hway]) fun type => ?_
    refine (hcontent.lists type b a items items hcopy (hbase.get_of_some trivial hcell) ?_).1
    exact List.forall₂_same.mpr fun v _ type => (hcompares.plain type).refl v
  | @map place t a b entries hway hcell _ hcopy =>
    refine equalAt_of_plain (fun _ => object?_of_cell hcell nofun) ?_ ?_ ?_ fun type =>
      hcontent.maps type b a entries hcopy (hbase.get_of_some trivial hcell)
    all_goals rcases hway with h | h <;> simp [h]
  | @wrapped place t v w type h h' hway hv hcall hbefore hafter =>
    obtain ⟨hplace, hcategory⟩ :=
      CodeModel.category_of_way hway (by decide) (by decide) (by decide)
    have hwrapped : p.model.category t = .wrappedUnionElement := by
      cases hkind : p.model.category t <;> simp_all [TypeCategory.way]
    have hrelates := hcopies.wrapped _ _ _ _ (hv.of_extends hbefore) hcall _ (hstays hbefore)
      hv.within _ hafter
    exact equalAt_of_wrapped hwrapped hplace hrelates
  | @external place t a w className parts h h' hway hcell hcall hbefore hafter =>
    have hlt := (List.getElem?_eq_some_iff.mp hcell).1
    refine equalAt_of_plain (fun _ => object?_of_cell hcell (by simp)) ?_ ?_ ?_
      (hcopies.clone a h className parts w h' (hbefore.get_of_some trivial hcell) hcall _
        (hstays hbefore) hlt _ hafter)
    all_goals rcases hway with h | h <;> simp [h]
  | @items place t a b items items' hway hwrapped hcell _ hcopy hlength hcopied ih =>
    have hall : List.Forall₂ (fun v w =>
        EqualAt p settings.runtime base k t.elementOrObject v w .item) items items' := by
      refine List.forall₂_iff_get.mpr ⟨hlength, fun i hi hi' => ?_⟩
      exact ih i _ _ (List.getElem?_eq_getElem hi) (List.getElem?_eq_getElem hi')
    have hshared : p.model.category t.elementOrObject = .genericObject → items = items' := by
      intro hgeneric
      have hway : p.model.way .item t.elementOrObject = .shared := by
        simp [CodeModel.way, hgeneric, TypeCategory.way]
      refine List.ext_getElem hlength fun i hi hi' => ?_
      exact Copied.eq_of_shared hway
        (hcopied i _ _ (List.getElem?_eq_getElem hi) (List.getElem?_eq_getElem hi'))
    exact equalAt_of_items hcompares hcontent hway hwrapped
      (hbase.get_of_some trivial hcell) hcopy hshared hall
  | @object place t v b d slots slots' hway hd hPd hv _ hcopy _ ih =>
    have hequal := equalsGives_of_fields hm hbase hcompares (hP d hPd) hv hcopy ih
    by_cases hplace : place = .whole
    · subst hplace
      exact fun _ _ _ => hequal
    · refine equalAt_of_plain (fun h => absurd h hplace) (by simp [hway]) (by simp [hway])
        (by simp [hway]) fun type => ?_
      exact hcontent.objects type _ _ _ _ _ (Heap.object?_eq_some.mpr ⟨b, rfl, hcopy⟩)
        (object?_of_extends hbase hv) hequal

/-! ## Both passes -/

/-- A class for which both passes are responsible. -/
structure EligibleForBoth (c : BeanClass) : Prop where
  copying : Eligible c
  equality : Equality.AwaitsEquals c

/-- The copy of a whole object is an object of its class. -/
theorem className?_of_copied {className : String} {runtime : RuntimeClasses}
    (hv : base.object? v = some (className, slots))
    (h : Copied p runtime P base k .whole t v w) : p.className? k w = some className := by
  cases h with
  | shared hway => cases hway
  | null hplace => exact absurd rfl hplace
  | array _ hcell => exact absurd hv (object?_of_cell hcell nofun className slots)
  | list _ hcell => exact absurd hv (object?_of_cell hcell nofun className slots)
  | map _ hcell => exact absurd hv (object?_of_cell hcell nofun className slots)
  | wrapped hway => cases hway
  | external _ hcell => exact absurd hv (object?_of_cell hcell nofun className slots)
  | items hway => cases hway
  | object _ _ _ hobject _ hcopy =>
    obtain ⟨rfl, -⟩ := Prod.mk.inj (Option.some.inj (hobject.symm.trans hv))
    exact Program.className?_of_object (Heap.object?_eq_some.mpr ⟨_, rfl, hcopy⟩)

/-- What `clone` gives equals the object that it is called on. This holds after any run with both
passes, for objects with finite graphs of whatever values the types of the fields allow. -/
theorem clone_equals {m : CodeModel} {context : PassContext} {passes : List Pass}
    {report₀ report : RunReport} {className : String} (hvalid : m.validate = .ok ())
    (hequality : .equality ∈ passes) (hcopying : .copying ∈ passes)
    (hrun : (EngineRun.runPasses context m report₀ passes).outcome = .ok report)
    (hmodel : p.model = (EngineRun.runPasses context m report₀ passes).model)
    (hhelps : p.HelpsToCopy context.settings.runtime)
    (hcopies : p.CopiesEqual context.settings.runtime)
    (hcompares : ∀ k, p.ComparesLawfully context.settings.runtime k)
    (hcontent : ∀ k, p.ComparesContent context.settings.runtime k)
    (hclosed : h.Closed (· < h.length)) (hx : h.object? x = some (className, slots))
    (hgraph : Conforms m (Suitable p m EligibleForBoth) p.outside.belongs h .whole t x) :
    ∃ y k, p.CloneGives h x y k ∧ h.Extends k ∧ p.className? k y = some className ∧
      p.EqualsGives k y x true := by
  have hm := CodeModel.wellFormed_of_validate hvalid
  have hgrows := EngineRun.runPasses_grows context passes m report₀
  rw [← hmodel] at hgrows
  have hm' := hgrows.wellFormed hm
  have hcomparable : ∀ c d, c ∈ m.classes → d ∈ p.model.classes →
      c.Grows context.settings (passes.map Pass.option) d → EligibleForBoth c →
        Equality.Comparable context.settings p.model d := by
    intro c d hc hd hcd hboth
    rw [hmodel] at hd ⊢
    exact Equality.comparable_of_runPasses hm hequality hrun hc hd hcd.name hboth.equality
  have hconforms : Conforms p.model (fun d => Clonable context.settings p d ∧
      p.model.Rooted (Equality.Comparable context.settings p.model) d) p.outside.belongs h .whole t
      x :=
    hgraph.of_grows hgrows hm (fun c hc => hc.rooted.mono fun _ _ => trivial)
      fun c d hd hcd hc => ⟨clonable_of_suitable hm hcopying hrun hmodel hgrows
        (fun _ hboth => hboth.copying) hd hcd hc, hgrows.rooted hcomparable hc.rooted hd hcd⟩
  obtain ⟨y, k, hclone, hextends, hcopied⟩ :=
    clone_copies hm' hhelps (fun d hd => hd.1) hclosed hx hconforms
  refine ⟨y, k, hclone, hextends, className?_of_copied hx hcopied, ?_⟩
  exact equalAt_of_copied hm' hextends hclosed (hcompares k) (hcontent k) hcopies
    (fun d hd => hd.2) hcopied className slots hx

/-! ## A model of orders -/

open Equality (labelled order orders orderHeap)

/-- A run of both passes over the model of orders. -/
def runOrders : EngineRun := .runPasses ⟨{}, []⟩ orders {} [.equality, .copying]

/-- The model of orders after the run. -/
def orderProgram : Program := ⟨runOrders.model, .byOutline fun _ _ => false⟩

/-- The classes of the model after the run are plain beans. -/
theorem orderProgram_lines : ∃ grown base : BeanClass,
    orderProgram.model.lineNamed "shop.Order" = [grown, base] ∧
      orderProgram.model.lineNamed "shop.Labelled" = [base] ∧ grown.constructors = [] ∧
      base.constructors = [] ∧ grown.instanceFields.outcome = .ok [
        ⟨"items", .listOf (.ofName "shop.Labelled"), "Items"⟩,
        ⟨"seal", .array (.primitive .byte), "Seal"⟩] ∧
      base.instanceFields.outcome = .ok [⟨"label", .ofName "java.lang.String", "Label"⟩] ∧
      ∃ n, grown.method? "getItems" [] = some n ∧ n.params = [] ∧
        n.body = some [.give (.ident "items")] :=
  ⟨_, _, rfl, rfl, rfl, rfl, rfl, rfl, _, rfl, rfl, rfl⟩

private theorem labelled_rooted : orders.Rooted EligibleForBoth labelled :=
  .root (by simp [orders]) ⟨⟨by decide, by decide, by decide, by decide, by decide⟩,
    ⟨by decide, rfl, by decide⟩⟩ rfl

private theorem order_rooted : orders.Rooted EligibleForBoth order :=
  .derived (by simp [orders]) ⟨⟨by decide, by decide, by decide, by decide, by decide⟩,
    ⟨by decide, rfl, by decide⟩⟩ rfl labelled_rooted

private theorem orders_suitable : Suitable orderProgram orders EligibleForBoth labelled ∧
    Suitable orderProgram orders EligibleForBoth order := by
  have hm : orders.WellFormed := CodeModel.wellFormed_of_validate rfl
  have hgrows := EngineRun.runPasses_grows ⟨{}, []⟩ [.equality, .copying] orders {}
  obtain ⟨grown, base, hline, hbaseLine, hnone, hbaseNone, hfields, hbaseFields, n, hn, hparams,
    hbody⟩ := orderProgram_lines
  have hbase : ∀ line fields f, base.instanceFields.outcome = .ok fields → f ∈ fields →
      f.type.isErasure "List" = true →
        Naming.getterName f.type f.accessor ≠ "getClass" ∧ ∃ n,
          methodIn? line (Naming.getterName f.type f.accessor) [] = some (base, n) ∧
            n.params = [] ∧ n.body = some [.give (.ident f.name)] := by
    intro line fields f hfields' hf hlist
    obtain rfl := Except.ok.inj (hbaseFields.symm.trans hfields')
    obtain rfl := List.mem_singleton.mp hf
    cases hlist
  refine ⟨suitable_of_plain hm hgrows labelled_rooted rfl (by decide) (by decide) ?_ ?_,
    suitable_of_plain hm hgrows order_rooted rfl (by decide) (by decide) ?_ ?_⟩
  · change ∀ e ∈ orderProgram.model.lineNamed "shop.Labelled", e.constructors = []
    simp [hbaseLine, hbaseNone]
  · change Program.HasListGetters (orderProgram.model.lineNamed "shop.Labelled")
    intro e he fields f
    rw [hbaseLine] at he
    obtain rfl := List.mem_singleton.mp he
    exact hbase _ fields f
  · change ∀ e ∈ orderProgram.model.lineNamed "shop.Order", e.constructors = []
    simp [hline, hnone, hbaseNone]
  · change Program.HasListGetters (orderProgram.model.lineNamed "shop.Order")
    intro e he fields f
    rw [hline] at he
    rcases List.mem_pair.mp he with rfl | rfl
    · intro hfields' hf hlist
      obtain rfl := Except.ok.inj (hfields.symm.trans hfields')
      rcases List.mem_pair.mp hf with rfl | rfl
      · have hgetter : Naming.getterName (.listOf (.ofName "shop.Labelled")) "Items" = "getItems" :=
          by decide
        refine ⟨by decide, n, ?_, hparams, hbody⟩
        rw [hline]
        simp [methodIn?, hgetter, hn]
      · cases hlist
    · exact hbase _ fields f

private theorem orderHeap_closed : orderHeap.Closed (· < orderHeap.length) := by
  intro a cell ha hcell
  have hall : ∀ cell ∈ orderHeap, ∀ v ∈ cell.parts, v.Within (· < 4) := by
    simp [orderHeap, Cell.parts, Value.Within]
  exact hall cell (List.mem_of_getElem? hcell)

private theorem order_conforms :
    Conforms orders (Suitable orderProgram orders EligibleForBoth) (fun _ _ => false) orderHeap
      .whole order.asType (.ref 3) := by
  obtain ⟨hlabelled, horder⟩ := orders_suitable
  have hlabel : ∀ slots : Slots, ∀ e ∈ orders.line labelled, ∀ f ∈ e.fields, f.isStatic = false →
      Conforms orders (Suitable orderProgram orders EligibleForBoth) (fun _ _ => false) orderHeap
        .field f.type (slots.get (e.name, f.name)) := by
    intro slots e he f hf _
    obtain rfl := List.mem_singleton.mp he
    obtain rfl := List.mem_singleton.mp hf
    exact .shared rfl
  have hthing :
      Conforms orders (Suitable orderProgram orders EligibleForBoth) (fun _ _ => false) orderHeap
        .item (.ofName "shop.Labelled") (.ref 0) :=
    .object rfl hlabelled.rooted.mem hlabelled rfl (hlabel _)
  refine .object rfl horder.rooted.mem horder rfl fun e he => ?_
  have hline : orders.line order = order :: orders.line labelled := rfl
  rw [hline] at he
  rcases List.mem_cons.mp he with rfl | he
  · intro f hf _
    rcases List.mem_pair.mp hf with rfl | rfl
    · refine .items rfl rfl (by decide) fun v hv => ?_
      rw [List.mem_singleton.mp hv]
      exact hthing
    · exact .array rfl rfl
  · exact hlabel _ e he

/-- A nested order is copied to a new one of its class that is equal to it. -/
theorem clone_equals_order : orders.validate = .ok () ∧ ∃ y k,
    orderProgram.CloneGives orderHeap (.ref 3) y k ∧ orderHeap.Extends k ∧
      orderProgram.className? k y = some "shop.Order" ∧
      orderProgram.EqualsGives k y (.ref 3) true := by
  have hvalid : orders.validate = .ok () := rfl
  obtain ⟨report, hrun⟩ : ∃ report, runOrders.outcome = .ok report := ⟨_, rfl⟩
  exact ⟨hvalid, clone_equals hvalid (by decide) (by decide) hrun rfl Outside.byOutline_helps
    Outside.byOutline_copiesEqual (fun _ => Outside.byOutline_compares)
    (fun _ => Outside.byOutline_comparesContent) orderHeap_closed rfl order_conforms⟩

end Copying

end BeanSynthesis
