import BeanSynthesis.Proofs.Copying.Ways
import BeanSynthesis.Proofs.Execution.Objects

/-!
# Object graphs and their copies

A graph of objects fits the types of the fields if every value in it can be copied the way that its
type and its place ask for. The copy is a graph over new cells, which refers to the cells of the
original only where a value is shared.
-/

namespace BeanSynthesis

/-! ## References -/

/-- What a cell is made of. -/
def Cell.parts : Cell → List Value
  | object _ slots => slots.map (·.2)
  | array items => items
  | list items => items
  | map entries => entries.flatMap fun entry => [entry.1, entry.2]
  | foreign _ parts => parts

/-- A reference leads to an address of a set. -/
def Value.Within (S : Nat → Prop) : Value → Prop
  | ref a => S a
  | _ => True

namespace Heap

/-- No cell of the set refers to one outside it. -/
def Closed (S : Nat → Prop) (h : Heap) : Prop :=
  ∀ a cell, S a → h[a]? = some cell → ∀ v ∈ cell.parts, v.Within S

/-- A value is `null` or an object of a class outside the model. -/
def IsForeignOrNull (h : Heap) (v : Value) : Prop :=
  v = .null ∨ ∃ a className parts, v = .ref a ∧ h[a]? = some (.foreign className parts)

variable {S : Nat → Prop} {h k : Heap} {v : Value} {a : Nat} {className : String} {slots : Slots}

/-- The fields of an object of a closed set lead nowhere else. -/
theorem Closed.get (hclosed : h.Closed S) (hv : v.Within S)
    (hobject : h.object? v = some (className, slots)) (slot : Slot) :
    (slots.get slot).Within S := by
  obtain ⟨a, rfl, hcell⟩ := object?_eq_some.mp hobject
  unfold Slots.get
  cases hlookup : List.lookup slot slots with
  | none => trivial
  | some w =>
    have hmem : (slot, w) ∈ slots := by
      obtain ⟨before, after, heq, -⟩ := List.lookup_eq_some_iff.mp hlookup
      simp [heq]
    exact hclosed a _ hv hcell w (List.mem_map_of_mem (f := (·.2)) hmem)

/-- What comes from outside, or is null, stands in the heap. -/
theorem IsForeignOrNull.within (hv : h.IsForeignOrNull v) : v.Within (· < h.length) := by
  rcases hv with rfl | ⟨a, className, parts, rfl, hcell⟩
  · trivial
  · exact (List.getElem?_eq_some_iff.mp hcell).1

/-- What comes from outside, or is null, does so after more cells are there. -/
theorem IsForeignOrNull.of_extends (hk : h.Extends k) (hv : h.IsForeignOrNull v) :
    k.IsForeignOrNull v := by
  rcases hv with rfl | ⟨a, className, parts, rfl, hcell⟩
  · exact .inl rfl
  · exact .inr ⟨a, className, parts, rfl, hk.get_of_some trivial hcell⟩

/-- A set stays closed in a heap that keeps its cells. -/
theorem Closed.of_keeps (hclosed : h.Closed S) (hk : h.Keeps S k)
    (hlt : ∀ a, S a → a < h.length) : k.Closed S := by
  intro a cell ha hcell
  rw [hk.get_eq a ha (hlt a ha)] at hcell
  exact hclosed a cell ha hcell

end Heap

/-- The heap has a property, also after changes that concern neither the cells of a base nor those
from some address on. -/
def Lasting (base : Heap) (start : Nat) (h : Heap) (P : Heap → Prop) : Prop :=
  ∀ k, h.Keeps (fun a => a < base.length ∨ start ≤ a) k → P k

namespace Lasting

variable {base h k : Heap} {start start' : Nat} {P Q : Heap → Prop}

/-- What follows from what lasts is lasting. -/
theorem mono (hP : Lasting base start h P) (hsub : ∀ k, P k → Q k) : Lasting base start h Q :=
  fun k hk => hsub k (hP k hk)

/-- A lasting property holds in later heaps, and lasts there. -/
theorem later (hP : Lasting base start h P)
    (hk : h.Keeps (fun a => a < base.length ∨ start ≤ a) k) (hstart : start' ≤ start) :
    Lasting base start' k P := by
  intro l hl
  refine hP l (hk.trans (hl.mono fun a _ ha => ?_))
  omega

/-- A cell that is not to be changed keeps what it holds. -/
theorem of_cell {a : Nat} {cell : Cell} (ha : a < base.length ∨ start ≤ a)
    (hcell : h[a]? = some cell) : Lasting base start h fun k => k[a]? = some cell :=
  fun _ hk => hk.get_of_some ha hcell

end Lasting

/-! ## Graphs -/

section

variable (m : CodeModel) (P : BeanClass → Prop) (belongs : String → TypeExpr → Bool) (h : Heap)

/-- A value can be copied the way its type and its place ask for, and so can everything that is
copied with it. The derivation is finite, so what is copied has no cycles. The objects of generated
classes have classes that satisfy `P`, whatever the type of the field says, and a list of wrapped
elements has elements of that type. -/
inductive Conforms : Place → TypeExpr → Value → Prop where
  | shared {place : Place} {t : TypeExpr} {v : Value} :
      m.way place t = .shared → Conforms place t v
  | null {place : Place} {t : TypeExpr} :
      m.way place t ≠ .shared → m.way place t ≠ .wrapped → place ≠ .whole →
      Conforms place t .null
  | array {place : Place} {t : TypeExpr} {a : Nat} {items : List Value} :
      m.way place t = .array → h[a]? = some (.array items) → Conforms place t (.ref a)
  | wrapped {place : Place} {t : TypeExpr} {v : Value} :
      m.way place t = .wrapped → h.IsForeignOrNull v → Conforms place t v
  | external {place : Place} {t : TypeExpr} {a : Nat} {className : String} {parts : List Value} :
      m.way place t = .external → h[a]? = some (.foreign className parts) →
      belongs className t = true → Conforms place t (.ref a)
  | items {place : Place} {t : TypeExpr} {a : Nat} {items : List Value} :
      m.way place t = .items → h[a]? = some (.list items) →
      (t.elementOrObject.isErasure "JAXBElement" →
        m.category t.elementOrObject = .wrappedUnionElement) →
      (∀ v ∈ items, Conforms .item t.elementOrObject v) → Conforms place t (.ref a)
  | map {place : Place} {t : TypeExpr} {a : Nat} {entries : List (Value × Value)} :
      m.way place t = .map → h[a]? = some (.map entries) → Conforms place t (.ref a)
  /-- A value of the platform or of other code, which has a method `clone` of its own. -/
  | outside {place : Place} {t : TypeExpr} {a : Nat} {cell : Cell} :
      m.way place t = .cloned → h[a]? = some cell → (∀ name slots, cell ≠ .object name slots) →
      Conforms place t (.ref a)
  | object {place : Place} {t : TypeExpr} {v : Value} {d : BeanClass} {slots : Slots} :
      m.way place t = .cloned → d ∈ m.classes → P d → h.object? v = some (d.name, slots) →
      (∀ e ∈ m.line d, ∀ f ∈ e.fields, f.isStatic = false →
        Conforms .field f.type (slots.get (e.name, f.name))) → Conforms place t v

end

section

variable (p : Program) (runtime : RuntimeClasses) (P : BeanClass → Prop) (base k : Heap)

/-- A value of the base and its copy. Between the call that other code answered and the present
neither the cells of the base nor those that are new since have changed. -/
inductive Copied : Place → TypeExpr → Value → Value → Prop where
  | shared {place : Place} {t : TypeExpr} {v : Value} :
      p.model.way place t = .shared → Copied place t v v
  | null {place : Place} {t : TypeExpr} : place ≠ .whole → Copied place t .null .null
  | array {place : Place} {t : TypeExpr} {a b : Nat} {items : List Value} :
      p.model.way place t = .array ∨ p.model.way place t = .cloned →
      base[a]? = some (.array items) → base.length ≤ b → k[b]? = some (.array items) →
      Copied place t (.ref a) (.ref b)
  | list {place : Place} {t : TypeExpr} {a b : Nat} {items : List Value} :
      p.model.way place t = .cloned →
      base[a]? = some (.list items) → base.length ≤ b → k[b]? = some (.list items) →
      Copied place t (.ref a) (.ref b)
  | map {place : Place} {t : TypeExpr} {a b : Nat} {entries : List (Value × Value)} :
      p.model.way place t = .map ∨ p.model.way place t = .cloned →
      base[a]? = some (.map entries) → base.length ≤ b → k[b]? = some (.map entries) →
      Copied place t (.ref a) (.ref b)
  | wrapped {place : Place} {t : TypeExpr} {v w : Value} {type : Option TypeExpr} {h h' : Heap} :
      p.model.way place t = .wrapped → base.IsForeignOrNull v →
      p.outside.static runtime.jaxbHelper "getClonedJAXBElement" [⟨v, type⟩] h = some (w, h') →
      base.Extends h → h'.Keeps (fun a => a < base.length ∨ h.length ≤ a) k → Copied place t v w
  | external {place : Place} {t : TypeExpr} {a : Nat} {w : Value} {className : String}
      {parts : List Value} {h h' : Heap} :
      p.model.way place t = .external ∨ p.model.way place t = .cloned →
      base[a]? = some (.foreign className parts) →
      p.outside.invoke (.ref a) "clone" [] h = some (w, h') →
      base.Extends h → h'.Keeps (fun a => a < base.length ∨ h.length ≤ a) k →
      Copied place t (.ref a) w
  | items {place : Place} {t : TypeExpr} {a b : Nat} {items items' : List Value} :
      p.model.way place t = .items →
      (t.elementOrObject.isErasure "JAXBElement" →
        p.model.category t.elementOrObject = .wrappedUnionElement) →
      base[a]? = some (.list items) → base.length ≤ b → k[b]? = some (.list items') →
      items.length = items'.length →
      (∀ (i : Nat) v w, items[i]? = some v → items'[i]? = some w →
        Copied .item t.elementOrObject v w) →
      Copied place t (.ref a) (.ref b)
  | object {place : Place} {t : TypeExpr} {v : Value} {b : Nat} {d : BeanClass}
      {slots slots' : Slots} :
      p.model.way place t = .cloned → d ∈ p.model.classes → P d →
      base.object? v = some (d.name, slots) → base.length ≤ b →
      k[b]? = some (.object d.name slots') →
      (∀ e ∈ p.model.line d, ∀ f ∈ e.fields, f.isStatic = false →
        Copied .field f.type (slots.get (e.name, f.name)) (slots'.get (e.name, f.name))) →
      Copied place t v (.ref b)

end

/-- What is shared is its own copy. -/
theorem Copied.eq_of_shared {p : Program} {runtime : RuntimeClasses} {P : BeanClass → Prop}
    {base k : Heap} {place : Place} {t : TypeExpr} {v w : Value}
    (hway : p.model.way place t = .shared) (h : Copied p runtime P base k place t v w) : v = w := by
  cases h with
  | shared _ => rfl
  | null _ => rfl
  | array h => rcases h with h | h <;> simp [h] at hway
  | map h => rcases h with h | h <;> simp [h] at hway
  | external h => rcases h with h | h <;> simp [h] at hway
  | list h => simp [h] at hway
  | wrapped h => simp [h] at hway
  | items h => simp [h] at hway
  | object h => simp [h] at hway

/-- What holds of the name and the type of every instance field holds in grown classes. -/
theorem forall_fields_of_grows {settings : Settings} {options : List String}
    {before after : List BeanClass} {Q : String → String → TypeExpr → Prop}
    (h : List.Forall₂ (BeanClass.Grows settings options) before after)
    (hQ : ∀ e ∈ before, ∀ f ∈ e.fields, f.isStatic = false → Q e.name f.name f.type) :
    ∀ e ∈ after, ∀ f ∈ e.fields, f.isStatic = false → Q e.name f.name f.type := by
  intro e he f hf hstatic
  obtain ⟨e', he', hgrows⟩ := exists_of_forall₂ h he
  obtain ⟨f', hf', hfield⟩ := exists_of_forall₂ hgrows.fields hf
  rw [hgrows.name, hfield.name, hfield.type]
  exact hQ e' he' f' hf' (hfield.isStatic.symm.trans hstatic)

/-- A graph that fits a model fits the model when it has grown. -/
theorem Conforms.of_grows {settings : Settings} {options : List String} {m n : CodeModel}
    {P Q : BeanClass → Prop} {belongs : String → TypeExpr → Bool} {h : Heap} {place : Place}
    {t : TypeExpr} {v : Value} (hgrows : m.Grows settings options n) (hm : m.WellFormed)
    (hrooted : ∀ c, P c → m.Rooted (fun _ => True) c)
    (hPQ : ∀ c d, d ∈ n.classes → c.Grows settings options d → P c → Q d)
    (hv : Conforms m P belongs h place t v) : Conforms n Q belongs h place t v := by
  induction hv with
  | shared hway => exact .shared (by rwa [hgrows.way_eq])
  | null hshared hwrapped hplace =>
    exact .null (by rwa [hgrows.way_eq]) (by rwa [hgrows.way_eq]) hplace
  | array hway hcell => exact .array (by rwa [hgrows.way_eq]) hcell
  | wrapped hway hforeign => exact .wrapped (by rwa [hgrows.way_eq]) hforeign
  | external hway hcell hbelongs => exact .external (by rwa [hgrows.way_eq]) hcell hbelongs
  | items hway hcell hwrapped _ ih =>
    exact .items (by rwa [hgrows.way_eq]) hcell (by rwa [hgrows.category_eq]) ih
  | map hway hcell => exact .map (by rwa [hgrows.way_eq]) hcell
  | outside hway hcell hobject => exact .outside (by rwa [hgrows.way_eq]) hcell hobject
  | @object place t v c slots hway hc hP hv _ ih =>
    obtain ⟨d, hd, hcd⟩ := hgrows.exists_of_mem_before hc
    have hline := hgrows.line_rel hm (hrooted c hP) hd hcd
    refine .object (by rwa [hgrows.way_eq]) hd (hPQ c d hd hcd hP) (hcd.name ▸ hv) ?_
    exact forall_fields_of_grows (Q := fun className name type =>
      Conforms n Q belongs h .field type (slots.get (className, name))) hline ih

end BeanSynthesis
