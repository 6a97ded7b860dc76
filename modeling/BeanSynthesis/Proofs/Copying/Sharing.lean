import BeanSynthesis.Proofs.Copying.Content
import BeanSynthesis.Proofs.Copying.Made

/-!
# What a copy shares with its original

A change to the original shows in the copy where both reach the same mutable cell. This cannot
happen below fields, lists and maps, which are copied for themselves. It happens where an array or a
list is copied by its own method `clone`, which takes over the items as they are.
-/

namespace BeanSynthesis

/-- The type of the items of an array or a list. -/
def TypeExpr.itemType (t : TypeExpr) : TypeExpr :=
  match t.upperBound with
  | .array element => element
  | bound => bound.elementOrObject

/-- The cell can be changed by those who hold a reference to it. Of the classes outside the model
only that of calendars is known to have such objects. -/
def CodeModel.IsMutable (m : CodeModel) : Cell → Prop
  | .object className _ => ∃ c ∈ m.classes, c.name = className ∧ ¬c.isEnum
  | .array _ => True
  | .list _ => True
  | .map _ => True
  | .foreign className _ => simpleName className = externallyCloneableName

section

variable (m : CodeModel) (h : Heap)

/-- A value of a type reaches a mutable cell, through fields and through items of arrays and lists.
Primitive and immutable values, enumerations and objects of unknown class may be shared, and so
nothing counts that is reached through them. The entries of maps do not count either. -/
inductive Reaches : TypeExpr → Value → Nat → Prop where
  | self {t : TypeExpr} {a : Nat} {cell : Cell} :
      h[a]? = some cell → m.IsMutable cell → Reaches t (.ref a) a
  | field {t : TypeExpr} {v : Value} {a : Nat} {d e : BeanClass} {f : Field} {slots : Slots} :
      h.object? v = some (d.name, slots) → d ∈ m.classes → e ∈ m.line d → f ∈ e.fields →
      f.isStatic = false → ¬(m.category f.type).isShareable →
      Reaches f.type (slots.get (e.name, f.name)) a → Reaches t v a
  | item {t : TypeExpr} {v u : Value} {a : Nat} {items : List Value} :
      Program.itemsOf? v h = some items → u ∈ items → ¬(m.category t.itemType).isShareable →
      Reaches t.itemType u a → Reaches t v a

/-- The copy of an array or a list of this type holds the items themselves. -/
def CodeModel.SharesItems (place : Place) (t : TypeExpr) : Prop :=
  m.way place t = .cloned ∨
    m.way place t = .items ∧ (m.category t.elementOrObject).isShareable

/-- A value reaches a mutable cell through an array or a list the copy of which holds the items
themselves. -/
inductive Leaked : Place → TypeExpr → Value → Nat → Prop where
  | field {place : Place} {t : TypeExpr} {v : Value} {a : Nat} {d e : BeanClass} {f : Field}
      {slots : Slots} :
      m.way place t = .cloned → h.object? v = some (d.name, slots) → d ∈ m.classes →
      e ∈ m.line d → f ∈ e.fields → f.isStatic = false → ¬(m.category f.type).isShareable →
      Leaked .field f.type (slots.get (e.name, f.name)) a → Leaked place t v a
  | item {place : Place} {t : TypeExpr} {v u : Value} {a : Nat} {items : List Value} :
      m.way place t = .items → Program.itemsOf? v h = some items → u ∈ items →
      Leaked .item t.elementOrObject u a → Leaked place t v a
  | shared {place : Place} {t : TypeExpr} {v u : Value} {a : Nat} {items : List Value} :
      m.SharesItems place t → Program.itemsOf? v h = some items → u ∈ items →
      ¬(m.category t.itemType).isShareable → Reaches m h t.itemType u a → Leaked place t v a

end

/-- What is relied on when code outside the model copies: the copy is a new object, which is no
array and of no class of the model, or null. -/
structure Program.CopiesFresh (p : Program) (runtime : RuntimeClasses) : Prop where
  wrapped : ∀ t h w h', h.IsForeignOrNull t.value →
    p.outside.static runtime.jaxbHelper "getClonedJAXBElement" [t] h = some (w, h') →
    h'.IsForeignOrNull w ∧ ∀ a, w = .ref a → h.length ≤ a
  clone : ∀ a h className parts w h', h[a]? = some (.foreign className parts) →
    p.outside.invoke (.ref a) "clone" [] h = some (w, h') →
    h'.IsForeignOrNull w ∧ ∀ a, w = .ref a → h.length ≤ a

/-! ## What is reached -/

section

variable {m : CodeModel} {base h k : Heap} {t : TypeExpr} {v : Value} {a : Nat} {items : List Value}

/-- What has items is a list or an array. -/
theorem Program.itemsOf?_eq_some : Program.itemsOf? v h = some items ↔
    ∃ a, v = .ref a ∧ (h[a]? = some (.list items) ∨ h[a]? = some (.array items)) := by
  unfold Program.itemsOf?
  split
  · split <;> simp_all
  · simp_all

private theorem Program.itemsOf?_of_extends (hk : h.Extends k)
    (hv : Program.itemsOf? v h = some items) :
    Program.itemsOf? v k = some items := by
  obtain ⟨a, rfl, hcell⟩ := itemsOf?_eq_some.mp hv
  exact itemsOf?_eq_some.mpr ⟨a, rfl, hcell.imp (hk.get_of_some trivial) (hk.get_of_some trivial)⟩

private theorem Program.within_of_itemsOf? (hv : Program.itemsOf? v h = some items) :
    v.Within (· < h.length) := by
  obtain ⟨a, rfl, hcell⟩ := itemsOf?_eq_some.mp hv
  rcases hcell with hcell | hcell
  · exact (List.getElem?_eq_some_iff.mp hcell).1
  · exact (List.getElem?_eq_some_iff.mp hcell).1

/-- Objects hold no items. -/
theorem Program.itemsOf?_ne_of_object {className : String} {slots : Slots}
    (hv : h.object? v = some (className, slots)) : Program.itemsOf? v h ≠ some items := by
  obtain ⟨a, rfl, hcell⟩ := Heap.object?_eq_some.mp hv
  simp [itemsOf?, hcell]

/-- The items of a closed set lead nowhere else. -/
theorem Heap.Closed.itemsOf? {S : Nat → Prop} (hclosed : h.Closed S) (hv : v.Within S)
    (hitems : Program.itemsOf? v h = some items) : ∀ u ∈ items, u.Within S := by
  obtain ⟨a, rfl, hcell⟩ := Program.itemsOf?_eq_some.mp hitems
  rcases hcell with hcell | hcell
  · exact hclosed a _ hv hcell
  · exact hclosed a _ hv hcell

namespace Reaches

private theorem lt_length (hv : Reaches m h t v a) : a < h.length := by
  induction hv with
  | self hcell _ => exact (List.getElem?_eq_some_iff.mp hcell).1
  | field _ _ _ _ _ _ _ ih => exact ih
  | item _ _ _ _ ih => exact ih

/-- What is reached is still reached when cells have been added. -/
theorem of_extends (hk : h.Extends k) (hv : Reaches m h t v a) : Reaches m k t v a := by
  induction hv with
  | self hcell hmutable => exact .self (hk.get_of_some trivial hcell) hmutable
  | field hobject hd he hf hstatic hshareable _ ih =>
    exact .field (Copying.object?_of_extends hk hobject) hd he hf hstatic hshareable ih
  | item hitems hu hshareable _ ih =>
    exact .item (Program.itemsOf?_of_extends hk hitems) hu hshareable ih

/-- What a value of the base reaches later, it has reached before. -/
theorem of_later (hclosed : base.Closed (· < base.length)) (hk : base.Extends k)
    (hwithin : v.Within (· < base.length)) (hv : Reaches m k t v a) : Reaches m base t v a := by
  have hbefore : ∀ {a cell}, a < base.length → k[a]? = some cell → base[a]? = some cell := by
    intro a cell ha hcell
    rwa [hk.get_eq a trivial ha] at hcell
  induction hv with
  | self hcell hmutable => exact .self (hbefore hwithin hcell) hmutable
  | field hobject hd he hf hstatic hshareable _ ih =>
    obtain ⟨a, rfl, hcell⟩ := Heap.object?_eq_some.mp hobject
    have hobject := Heap.object?_eq_some.mpr ⟨a, rfl, hbefore hwithin hcell⟩
    exact .field hobject hd he hf hstatic hshareable (ih (hclosed.get hwithin hobject _))
  | @item t v u _ items hitems hu hshareable _ ih =>
    obtain ⟨a, rfl, hcell⟩ := Program.itemsOf?_eq_some.mp hitems
    have hitems := Program.itemsOf?_eq_some.mpr
      ⟨a, rfl, hcell.imp (hbefore hwithin) (hbefore hwithin)⟩
    exact .item hitems hu hshareable (ih (hclosed.itemsOf? hwithin hitems u hu))

/-- A cell that is neither an object nor holds items reaches nothing but itself. -/
theorem eq_of_leaf {b : Nat} (hobject : h.object? (.ref b) = none)
    (hitems : Program.itemsOf? (.ref b) h = none) (hv : Reaches m h t (.ref b) a) : a = b := by
  cases hv with
  | self _ _ => rfl
  | field hfound => simp [hobject] at hfound
  | item hfound => simp [hitems] at hfound

private theorem not_null (hv : Reaches m h t .null a) : False := by
  cases hv with
  | field hfound => cases hfound
  | item hfound => cases hfound

end Reaches

end

/-! ## Types of items -/

namespace CodeModel

variable {m : CodeModel} {place : Place} {t : TypeExpr}

/-- The items of an array that the helper copies may be shared. -/
theorem isShareable_itemType_of_array (h : m.way place t = .array) :
    (m.category t.itemType).isShareable := by
  have hnamed : ∀ name args, m.category (.named name args) ≠ .arrayOfImmutable := by
    intro name args hcategory
    have hlist := isCollection_listCategory args
    rw [category_named] at hcategory
    unfold classVerdict at hcategory
    grind [TypeCategory.isCollection]
  have harray : ∀ element, m.category (.array element) = .arrayOfImmutable →
      (m.category element).isShareable := by
    intro element hcategory
    rw [category_array] at hcategory
    by_contra hshareable
    simp [hshareable] at hcategory
  have hcategory : m.category t = .arrayOfImmutable := by
    obtain ⟨-, hway⟩ := category_of_way h (by decide) (by decide) (by decide)
    cases hcategory : m.category t <;> simp_all [TypeCategory.way]
  cases t with
  | named name args => exact absurd hcategory (hnamed name args)
  | array element => exact harray element hcategory
  | bounded bound =>
    rw [category_bounded] at hcategory
    split at hcategory
    · cases hcategory
    · cases bound with
      | named name args => exact absurd hcategory (hnamed name args)
      | array element => exact harray element hcategory
      | bounded bound => simp_all [TypeExpr.isBounded]
      | _ => cases hcategory
  | _ => cases hcategory

/-- The items of a list have the type that the copying goes by, or are shared. -/
theorem itemType_eq_of_items (h : m.way place t = .items)
    (hshareable : ¬(m.category t.elementOrObject).isShareable) :
    t.itemType = t.elementOrObject := by
  obtain ⟨-, hlist⟩ := way_eq_items_iff.mp h
  cases t with
  | named name args => rfl
  | bounded bound =>
    have hobject : (TypeExpr.bounded bound).elementOrObject.isObject := rfl
    rw [category_of_isObject hobject] at hshareable
    exact absurd rfl hshareable
  | _ => cases hlist

private theorem way_ne_shared (h : ¬(m.category t).isShareable) : m.way place t ≠ .shared := by
  intro hway
  obtain ⟨-, hcategory⟩ := category_of_way hway nofun nofun nofun
  exact h (TypeCategory.way_eq_shared.mp hcategory)

end CodeModel

/-! ## Copies of what is reached -/

namespace Copied

variable {runtime : RuntimeClasses} {p : Program} {P : BeanClass → Prop} {base k : Heap}
  {place : Place} {t : TypeExpr} {v w : Value} {items : List Value}

/-- The copy of a list that a field holds is a list of copies. -/
theorem exists_items (hway : p.model.way place t = .items)
    (hitems : Program.itemsOf? v base = some items)
    (h : Copied p runtime P base k place t v w) :
    ∃ items', Program.itemsOf? w k = some items' ∧ items.length = items'.length ∧
      ∀ (i : Nat) u u', items[i]? = some u → items'[i]? = some u' →
        Copied p runtime P base k .item t.elementOrObject u u' := by
  cases h with
  | shared h => simp [h] at hway
  | null _ => cases hitems
  | array h => rcases h with h | h <;> simp [h] at hway
  | list h => simp [h] at hway
  | map h => rcases h with h | h <;> simp [h] at hway
  | wrapped h => simp [h] at hway
  | external h => rcases h with h | h <;> simp [h] at hway
  | @items _ _ a b old new _ _ hcell _ hcopy hlength hcopied =>
    obtain rfl : old = items := by simpa [Program.itemsOf?, hcell] using hitems
    exact ⟨new, by simp [Program.itemsOf?, hcopy], hlength, hcopied⟩
  | object h => simp [h] at hway

/-- Items that may be shared are the same in the copy of their list. -/
theorem eq_of_shared_items {items' : List Value}
    (helement : (p.model.category t.elementOrObject).isShareable)
    (hlength : items.length = items'.length)
    (hall : ∀ (i : Nat) u u', items[i]? = some u → items'[i]? = some u' →
      Copied p runtime P base k .item t.elementOrObject u u') : items' = items := by
  have hway : p.model.way .item t.elementOrObject = .shared :=
    TypeCategory.way_eq_shared.mpr helement
  refine List.ext_getElem hlength.symm fun i hi' hi => ?_
  have hcopy := hall i _ _ (List.getElem?_eq_getElem hi) (List.getElem?_eq_getElem hi')
  exact (hcopy.eq_of_shared hway).symm

/-- The copy that an array or a list makes of itself has the same items. -/
theorem itemsOf?_of_cloned (hway : p.model.way place t = .cloned)
    (hitems : Program.itemsOf? v base = some items)
    (h : Copied p runtime P base k place t v w) : Program.itemsOf? w k = some items := by
  cases h with
  | shared h => simp [h] at hway
  | null _ => cases hitems
  | array _ hcell _ hcopy =>
    simp only [Program.itemsOf?, hcell, hcopy] at hitems ⊢
    exact hitems
  | list _ hcell _ hcopy =>
    simp only [Program.itemsOf?, hcell, hcopy] at hitems ⊢
    exact hitems
  | map _ hcell => simp [Program.itemsOf?, hcell] at hitems
  | wrapped h => simp [h] at hway
  | external _ hcell => simp [Program.itemsOf?, hcell] at hitems
  | items h => simp [h] at hway
  | object _ _ _ hobject =>
    obtain ⟨a, rfl, hcell⟩ := Heap.object?_eq_some.mp hobject
    simp [Program.itemsOf?, hcell] at hitems

/-- The copy of an object has copies of its fields. -/
theorem exists_fields {d : BeanClass} {slots : Slots} (hm : p.model.WellFormed)
    (hd : d ∈ p.model.classes) (hobject : base.object? v = some (d.name, slots))
    (hway : p.model.way place t = .cloned) (h : Copied p runtime P base k place t v w) :
    ∃ slots', k.object? w = some (d.name, slots') ∧
      ∀ e ∈ p.model.line d, ∀ f ∈ e.fields, f.isStatic = false →
        Copied p runtime P base k .field f.type (slots.get (e.name, f.name))
          (slots'.get (e.name, f.name)) := by
  cases h with
  | shared h => simp [h] at hway
  | null _ => cases hobject
  | array _ hcell => simp [Heap.object?, hcell] at hobject
  | list _ hcell => simp [Heap.object?, hcell] at hobject
  | map _ hcell => simp [Heap.object?, hcell] at hobject
  | wrapped h => simp [h] at hway
  | external _ hcell => simp [Heap.object?, hcell] at hobject
  | items h => simp [h] at hway
  | @object _ _ _ b d' _ slots' _ hd' _ hobject' _ hcopy hfields =>
    obtain ⟨hname, rfl⟩ := Prod.mk.inj (Option.some.inj (hobject'.symm.trans hobject))
    obtain rfl := hm.eq_of_name hd' hd hname
    exact ⟨slots', Heap.object?_eq_some.mpr ⟨b, rfl, hcopy⟩, hfields⟩

end Copied

namespace Leaked

variable {runtime : RuntimeClasses} {p : Program} {P : BeanClass → Prop} {m : CodeModel}
  {base k : Heap} {place : Place} {t : TypeExpr} {v w : Value} {a : Nat}

/-- What has leaked was not shared as a whole. -/
theorem way_ne_shared (hv : Leaked m base place t v a) : m.way place t ≠ .shared := by
  cases hv with
  | field hway => simp [hway]
  | item hway => simp [hway]
  | shared hway => rcases hway with hway | ⟨hway, -⟩ <;> simp [hway]

private theorem itemType_eq {u : Value} (hway : m.way place t = .items)
    (hu : Leaked m base .item t.elementOrObject u a) :
    t.itemType = t.elementOrObject ∧ ¬(m.category t.itemType).isShareable := by
  have hshareable : ¬(m.category t.elementOrObject).isShareable := fun h =>
    hu.way_ne_shared (TypeCategory.way_eq_shared.mpr h)
  have heq := CodeModel.itemType_eq_of_items hway hshareable
  exact ⟨heq, by rwa [heq]⟩

/-- The original reaches what has leaked. -/
theorem reaches (hv : Leaked m base place t v a) : Reaches m base t v a := by
  induction hv with
  | field _ hobject hd he hf hstatic hshareable _ ih =>
    exact .field hobject hd he hf hstatic hshareable ih
  | item hway hitems hu hleaked ih =>
    obtain ⟨heq, hshareable⟩ := hleaked.itemType_eq hway
    exact .item hitems hu hshareable (heq ▸ ih)
  | shared _ hitems hu hshareable hreaches => exact .item hitems hu hshareable hreaches

/-- The copy reaches what has leaked. -/
theorem copy_reaches (hm : p.model.WellFormed) (hbase : base.Extends k)
    (hv : Leaked p.model base place t v a) (hcopied : Copied p runtime P base k place t v w) :
    Reaches p.model k t w a := by
  induction hv generalizing w with
  | field hway hobject hd he hf hstatic hshareable _ ih =>
    obtain ⟨slots', hcopy, hfields⟩ := hcopied.exists_fields hm hd hobject hway
    exact .field hcopy hd he hf hstatic hshareable (ih (hfields _ he _ hf hstatic))
  | item hway hitems hu hleaked ih =>
    obtain ⟨heq, hshareable⟩ := hleaked.itemType_eq hway
    obtain ⟨items', hitems', hlength, hall⟩ := hcopied.exists_items hway hitems
    obtain ⟨i, hi, rfl⟩ := List.getElem_of_mem hu
    have hi' : i < items'.length := hlength ▸ hi
    have hcopy := hall i _ _ (List.getElem?_eq_getElem hi) (List.getElem?_eq_getElem hi')
    exact .item hitems' (List.getElem_mem hi') hshareable (heq ▸ ih hcopy)
  | @shared place t v u a items hway hitems hu hshareable hreaches =>
    have hsame : Program.itemsOf? w k = some items := by
      rcases hway with hway | ⟨hway, helement⟩
      · exact hcopied.itemsOf?_of_cloned hway hitems
      · obtain ⟨items', hitems', hlength, hall⟩ := hcopied.exists_items hway hitems
        rw [hitems', Copied.eq_of_shared_items helement hlength hall]
    exact .item hsame hu hshareable (hreaches.of_extends hbase)

end Leaked

section

variable {settings : Settings} {p : Program} {P : BeanClass → Prop} {base k : Heap}
  {place : Place} {t : TypeExpr} {v w : Value} {a : Nat}

/-- What other code has copied reaches nothing that was there before. -/
theorem length_le_of_foreign {h h' : Heap} (hbefore : base.Extends h)
    (hafter : h'.Keeps (fun a => a < base.length ∨ h.length ≤ a) k)
    (hfresh : h'.IsForeignOrNull w ∧ ∀ a, w = .ref a → h.length ≤ a)
    (hreaches : Reaches p.model k t w a) : base.length ≤ a := by
  obtain ⟨rfl | ⟨b, className, parts, rfl, hcell⟩, hnew⟩ := hfresh
  · exact absurd hreaches Reaches.not_null
  · have hb := hnew b rfl
    have hcell' := hafter.get_of_some (.inr hb) hcell
    rw [hreaches.eq_of_leaf (by simp [Heap.object?, hcell']) (by simp [Program.itemsOf?, hcell'])]
    exact Nat.le_trans hbefore.length_le hb

/-- A new array or list whose items are those of the base reaches, apart from itself, what they
reach. -/
theorem new_or_reached {b : Nat} {items : List Value} (hclosed : base.Closed (· < base.length))
    (hbase : base.Extends k) (hb : base.length ≤ b)
    (hitems : Program.itemsOf? v base = some items)
    (hcopy : Program.itemsOf? (.ref b) k = some items)
    (hreaches : Reaches p.model k t (.ref b) a) :
    base.length ≤ a ∨ ∃ u ∈ items, ¬(p.model.category t.itemType).isShareable ∧
      Reaches p.model base t.itemType u a := by
  cases hreaches with
  | self _ _ => exact .inl hb
  | field hobject => exact absurd hcopy (Program.itemsOf?_ne_of_object hobject)
  | item hfound hu hshareable hreaches =>
    obtain rfl := Option.some.inj (hfound.symm.trans hcopy)
    have hwithin := hclosed.itemsOf? (Program.within_of_itemsOf? hitems) hitems
    exact .inr ⟨_, hu, hshareable, hreaches.of_later hclosed hbase (hwithin _ hu)⟩

/-- A new array or list that shares the items of the original reaches, apart from itself, what has
leaked through them. -/
theorem new_or_shared {b : Nat} {items : List Value} (hclosed : base.Closed (· < base.length))
    (hbase : base.Extends k) (hb : base.length ≤ b) (hshares : p.model.SharesItems place t)
    (hitems : Program.itemsOf? v base = some items)
    (hcopy : Program.itemsOf? (.ref b) k = some items)
    (hreaches : Reaches p.model k t (.ref b) a) :
    base.length ≤ a ∨ Leaked p.model base place t v a :=
  (new_or_reached hclosed hbase hb hitems hcopy hreaches).imp_right
    fun ⟨_, hu, hshareable, hreaches⟩ => .shared hshares hitems hu hshareable hreaches

/-- A copy reaches new cells, and what has leaked. The induction is on how the copy was made. -/
theorem Copied.new_or_leaked (hm : p.model.WellFormed) (hbase : base.Extends k)
    (hclosed : base.Closed (· < base.length)) (hfresh : p.CopiesFresh settings.runtime)
    (hcopied : Copied p settings.runtime P base k place t v w)
    (hshared : p.model.way place t ≠ .shared) (hreaches : Reaches p.model k t w a) :
    base.length ≤ a ∨ Leaked p.model base place t v a := by
  induction hcopied generalizing a with
  | shared hway => exact absurd hway hshared
  | null _ => exact absurd hreaches Reaches.not_null
  | @array place t b c items hway hcell hc hcopy =>
    have hitems : Program.itemsOf? (.ref b) base = some items := by
      simp [Program.itemsOf?, hcell]
    have hcopied : Program.itemsOf? (.ref c) k = some items := by simp [Program.itemsOf?, hcopy]
    rcases hway with hway | hway
    · -- What an array of immutable values holds can be shared, so nothing leaks through it.
      rcases new_or_reached hclosed hbase hc hitems hcopied hreaches with hnew | ⟨_, _, h, _⟩
      · exact .inl hnew
      · exact absurd (CodeModel.isShareable_itemType_of_array hway) h
    · exact new_or_shared hclosed hbase hc (.inl hway) hitems hcopied hreaches
  | @list place t b c items hway hcell hc hcopy =>
    have hitems : Program.itemsOf? (.ref b) base = some items := by
      simp [Program.itemsOf?, hcell]
    have hcopied : Program.itemsOf? (.ref c) k = some items := by simp [Program.itemsOf?, hcopy]
    exact new_or_shared hclosed hbase hc (.inl hway) hitems hcopied hreaches
  | map _ _ hc hcopy =>
    rw [hreaches.eq_of_leaf (by simp [Heap.object?, hcopy]) (by simp [Program.itemsOf?, hcopy])]
    exact .inl hc
  | wrapped _ hforeign hcall hbefore hafter =>
    exact .inl (length_le_of_foreign hbefore hafter
      (hfresh.wrapped _ _ _ _ (hforeign.of_extends hbefore) hcall) hreaches)
  | external _ hcell hcall hbefore hafter =>
    exact .inl (length_le_of_foreign hbefore hafter
      (hfresh.clone _ _ _ _ _ _ (hbefore.get_of_some trivial hcell) hcall) hreaches)
  | @items place t b c items items' hway _ hcell hc hcopy hlength hall ih =>
    have hitems : Program.itemsOf? (.ref b) base = some items := by
      simp [Program.itemsOf?, hcell]
    have hcopy : Program.itemsOf? (.ref c) k = some items' := by
      simp [Program.itemsOf?, hcopy]
    by_cases helement : (p.model.category t.elementOrObject).isShareable
    · obtain rfl := Copied.eq_of_shared_items helement hlength hall
      exact new_or_shared hclosed hbase hc (.inr ⟨hway, helement⟩) hitems hcopy hreaches
    · cases hreaches with
      | self _ _ => exact .inl hc
      | field hobject => exact absurd hcopy (Program.itemsOf?_ne_of_object hobject)
      | @item _ _ u _ found hfound hu hshareable hreaches =>
        obtain rfl := Option.some.inj (hcopy.symm.trans hfound)
        obtain ⟨i, hi', rfl⟩ := List.getElem_of_mem hu
        have hi : i < items.length := hlength ▸ hi'
        rw [CodeModel.itemType_eq_of_items hway helement] at hreaches
        rcases ih i _ _ (List.getElem?_eq_getElem hi) (List.getElem?_eq_getElem hi')
          (CodeModel.way_ne_shared helement) hreaches with hnew | hleaked
        · exact .inl hnew
        · exact .inr (.item hway hitems (List.getElem_mem hi) hleaked)
  | @object place t v b d slots slots' hway hd _ hobject hb hcopy _ ih =>
    cases hreaches with
    | self _ _ => exact .inl hb
    | @field _ _ _ d' e f slots'' hfound hd' he hf hstatic hshareable hreaches =>
      have hcopied := Heap.object?_eq_some.mpr ⟨b, rfl, hcopy⟩
      obtain ⟨hname, rfl⟩ := Prod.mk.inj (Option.some.inj (hfound.symm.trans hcopied))
      obtain rfl := hm.eq_of_name hd' hd hname
      rcases ih e he f hf hstatic (CodeModel.way_ne_shared hshareable) hreaches with
        hnew | hleaked
      · exact .inl hnew
      · exact .inr (.field hway hobject hd he hf hstatic hshareable hleaked)
    | item hfound => simp [Program.itemsOf?, hcopy] at hfound

end

namespace Copying

variable {p : Program} {m : CodeModel} {h : Heap} {t : TypeExpr} {x : Value} {context : PassContext}
  {passes : List Pass} {report₀ report : RunReport} {className : String} {slots : Slots}

/-- What an object and its copy both reach is exactly what has leaked: what arrays and lists hold
that are copied by their own method `clone`, or whose items are taken for objects of unknown
class. -/
theorem reached_by_both_iff (hvalid : m.validate = .ok ()) (hcopying : .copying ∈ passes)
    (hrun : (EngineRun.runPasses context m report₀ passes).outcome = .ok report)
    (hmodel : p.model = (EngineRun.runPasses context m report₀ passes).model)
    (hhelps : p.HelpsToCopy context.settings.runtime)
    (hfresh : p.CopiesFresh context.settings.runtime) (hclosed : h.Closed (· < h.length))
    (hx : h.object? x = some (className, slots))
    (hgraph : Conforms m (Suitable p m Eligible) p.outside.belongs h .whole t x) :
    ∃ y k, p.CloneGives h x y k ∧ h.Extends k ∧ ∀ a,
      (Reaches p.model k t x a ∧ Reaches p.model k t y a) ↔ Leaked p.model h .whole t x a := by
  have hm := CodeModel.wellFormed_of_validate hvalid
  have hgrows := EngineRun.runPasses_grows context passes m report₀
  rw [← hmodel] at hgrows
  have hm' := hgrows.wellFormed hm
  have hconforms : Conforms p.model (Clonable context.settings p) p.outside.belongs h .whole t x :=
    hgraph.of_grows hgrows hm (fun c hc => hc.rooted.mono fun _ _ => trivial)
      fun c d hd hcd hc => clonable_of_suitable hm hcopying hrun hmodel hgrows (fun _ hc => hc) hd
        hcd hc
  obtain ⟨y, k, hclone, hextends, hcopied⟩ :=
    clone_copies hm' hhelps (fun _ hd => hd) hclosed hx hconforms
  refine ⟨y, k, hclone, hextends, fun a => ⟨fun ⟨horiginal, hcopy⟩ => ?_, fun hleaked => ?_⟩⟩
  · have hwithin : x.Within (· < h.length) := by
      obtain ⟨a, rfl, hcell⟩ := Heap.object?_eq_some.mp hx
      exact (List.getElem?_eq_some_iff.mp hcell).1
    have hlt := (horiginal.of_later hclosed hextends hwithin).lt_length
    have hnot : ¬h.length ≤ a := by omega
    exact (hcopied.new_or_leaked hm' hextends hclosed hfresh nofun hcopy).resolve_left hnot
  · exact ⟨hleaked.reaches.of_extends hextends, hleaked.copy_reaches hm' hextends hcopied⟩

/-! ## A model of grids -/

private theorem copyForeign_fresh {v : Value} (hv : h.IsForeignOrNull v) :
    (copyForeign v h).2.IsForeignOrNull (copyForeign v h).1 ∧
      ∀ a, (copyForeign v h).1 = .ref a → h.length ≤ a := by
  rcases hv with rfl | ⟨b, className, parts, rfl, hcell⟩
  · exact ⟨.inl rfl, nofun⟩
  · simp only [copyForeign, hcell]
    refine ⟨.inr ⟨_, _, _, rfl, List.getElem?_concat_length⟩, fun a ha => ?_⟩
    rw [← Value.ref.inj ha]

/-- What helpers that go by outlines copy is new. -/
theorem byOutline_copiesFresh {belongs : String → TypeExpr → Bool} {runtime : RuntimeClasses} :
    Program.CopiesFresh ⟨m, .byOutline belongs⟩ runtime where
  wrapped t h w h' hv hcall := by
    obtain ⟨rfl, rfl⟩ := Prod.mk.inj (Option.some.inj hcall)
    exact copyForeign_fresh hv
  clone a h className parts w h' hcell hcall := by
    obtain ⟨rfl, rfl⟩ := Prod.mk.inj (Option.some.inj hcall)
    exact copyForeign_fresh (.inr ⟨a, className, parts, rfl, hcell⟩)

/-- A class of grids, the rows of which are arrays of bytes. -/
def grid : BeanClass where
  name := "shop.Grid"
  fields := [{ name := "cells", type := .array (.array (.primitive .byte)) }]
  properties := [{ name := "cells", publicName := "Cells", kind := .attr false none }]

/-- A model of grids. -/
def grids : CodeModel where
  classes := [grid]

/-- A grid of one row. -/
def gridHeap : Heap := [
  .array [.int 1],
  .array [.ref 0],
  .object "shop.Grid" [(("shop.Grid", "cells"), .ref 1)]]

/-- A run of the pass over the model of grids. -/
def runGrids : EngineRun := .runPasses ⟨{}, []⟩ grids {} [.copying]

/-- The model of grids after the run. -/
def gridProgram : Program := ⟨runGrids.model, .byOutline fun _ _ => false⟩

private theorem grid_suitable : Suitable gridProgram grids Eligible grid := by
  have hm : grids.WellFormed := CodeModel.wellFormed_of_validate rfl
  have hgrows := EngineRun.runPasses_grows ⟨{}, []⟩ [.copying] grids {}
  have hrooted : grids.Rooted Eligible grid :=
    .root (by simp [grids]) ⟨by decide, by decide, by decide, by decide, by decide⟩ rfl
  obtain ⟨grown, hline, hnone, hfields⟩ : ∃ grown : BeanClass,
      gridProgram.model.lineNamed "shop.Grid" = [grown] ∧ grown.constructors = [] ∧
        grown.instanceFields.outcome =
          .ok [⟨"cells", .array (.array (.primitive .byte)), "Cells"⟩] := ⟨_, rfl, rfl, rfl⟩
  refine suitable_of_plain hm hgrows hrooted rfl (by decide) (by decide) ?_ ?_
  · change ∀ e ∈ gridProgram.model.lineNamed "shop.Grid", e.constructors = []
    simp [hline, hnone]
  · change Program.HasListGetters (gridProgram.model.lineNamed "shop.Grid")
    intro e he fields f hfields' hf hlist
    rw [hline] at he
    obtain rfl := List.mem_singleton.mp he
    obtain rfl := Except.ok.inj (hfields.symm.trans hfields')
    obtain rfl := List.mem_singleton.mp hf
    cases hlist

private theorem gridHeap_closed : gridHeap.Closed (· < gridHeap.length) := by
  intro a cell ha hcell
  have hall : ∀ cell ∈ gridHeap, ∀ v ∈ cell.parts, v.Within (· < 3) := by
    simp [gridHeap, Cell.parts, Value.Within]
  exact hall cell (List.mem_of_getElem? hcell)

private theorem grid_conforms :
    Conforms grids (Suitable gridProgram grids Eligible) (fun _ _ => false)
    gridHeap .whole grid.asType (.ref 2) := by
  refine .object rfl grid_suitable.rooted.mem grid_suitable rfl fun e he f hf _ => ?_
  obtain rfl := List.mem_singleton.mp he
  obtain rfl := List.mem_singleton.mp hf
  exact .outside rfl rfl nofun

/-- A grid and its copy both reach the row. -/
theorem row_reached_by_both : grids.validate = .ok () ∧ ∃ y k,
    gridProgram.CloneGives gridHeap (.ref 2) y k ∧
      Reaches gridProgram.model k grid.asType (.ref 2) 0 ∧
      Reaches gridProgram.model k grid.asType y 0 := by
  have hvalid : grids.validate = .ok () := rfl
  obtain ⟨report, hrun⟩ : ∃ report, runGrids.outcome = .ok report := ⟨_, rfl⟩
  obtain ⟨y, k, hclone, -, hiff⟩ := reached_by_both_iff hvalid (by decide) hrun rfl
    Outside.byOutline_helps byOutline_copiesFresh gridHeap_closed rfl grid_conforms
  obtain ⟨grown, hmem, hline, hname, hfields⟩ : ∃ grown : BeanClass,
      grown ∈ gridProgram.model.classes ∧ grown ∈ gridProgram.model.line grown ∧
        grown.name = "shop.Grid" ∧ grown.fields = grid.fields :=
    ⟨_, List.mem_singleton.mpr rfl, List.mem_singleton.mpr rfl, rfl, rfl⟩
  have hrow : Leaked gridProgram.model gridHeap .field (.array (.array (.primitive .byte)))
      (.ref 1) 0 :=
    .shared (.inl rfl) rfl (List.mem_singleton.mpr rfl) (by decide) (.self rfl trivial)
  have hobject : gridHeap.object? (.ref 2) =
      some (grown.name, [(("shop.Grid", "cells"), .ref 1)]) := by
    rw [hname]
    rfl
  have hfield : { name := "cells", type := .array (.array (.primitive .byte)) } ∈ grown.fields := by
    rw [hfields]
    exact List.mem_singleton.mpr rfl
  have hleaked : Leaked gridProgram.model gridHeap .whole grid.asType (.ref 2) 0 := by
    refine .field rfl hobject hmem hline hfield rfl (by decide) ?_
    rw [hname]
    exact hrow
  obtain ⟨horiginal, hcopy⟩ := (hiff 0).mpr hleaked
  exact ⟨hvalid, y, k, hclone, horiginal, hcopy⟩

end Copying

end BeanSynthesis
