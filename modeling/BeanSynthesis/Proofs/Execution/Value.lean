import BeanSynthesis.TypeExpr.Basic

/-!
# Values and heaps

What synthesized bodies compute with. An object is a cell of a heap, and so is an array, a list, a
map, or an object of a class outside the model. Cells are added at the end and never removed, so
the length of a heap is the first address that is free.
-/

namespace BeanSynthesis

/-- What a variable or a field can hold. -/
inductive Value where
  | null
  | bool (b : Bool)
  | int (i : Int)
  | text (s : String)
  /-- The class of this name, as an object. -/
  | classOf (name : String)
  /-- A reference to a cell. -/
  | ref (address : Nat)
  /-- A value of code outside the model, of which only the identity is known. -/
  | token (id : Nat)
deriving DecidableEq, Repr, Inhabited

/-- A field, by the class that declares it and its name. -/
abbrev Slot := String × String

/-- The values of fields. The first entry of a slot counts. -/
abbrev Slots := List (Slot × Value)

namespace Slots

/-- The value of a field, null if it has not been set. -/
def get (slots : Slots) (slot : Slot) : Value := (List.lookup slot slots).getD .null

/-- Sets a field. -/
def set (slots : Slots) (slot : Slot) (v : Value) : Slots := (slot, v) :: slots

/-- A slot holds what it was set to last. -/
theorem get_set (slots : Slots) (slot other : Slot) (v : Value) :
    (slots.set slot v).get other = if other = slot then v else slots.get other := by
  by_cases h : other = slot
  · simp [get, set, h]
  · have hne : (other == slot) = false := beq_false_of_ne h
    simp [get, set, List.lookup_cons, hne, h]

end Slots

/-- What stands at an address. -/
inductive Cell where
  /-- An object of a generated class. -/
  | object (className : String) (slots : Slots)
  | array (items : List Value)
  | list (items : List Value)
  | map (entries : List (Value × Value))
  /-- An object of a class outside the model, with what it is made of. -/
  | foreign (className : String) (parts : List Value)
deriving DecidableEq, Repr, Inhabited

/-- All cells, by address. -/
abbrev Heap := List Cell

/-- A value together with its static type, where that is known. -/
structure Typed where
  value : Value
  type : Option TypeExpr := none
deriving DecidableEq, Repr, Inhabited

/-- Names of platform classes whose objects are values of their own kind. -/
def Value.platformClass? : Value → Option String
  | bool _ => some "java.lang.Boolean"
  | int _ => some "java.lang.Integer"
  | text _ => some "java.lang.String"
  | classOf _ => some "java.lang.Class"
  | _ => none

/-- The name of the class of which a cell is an object; an array has none. -/
def Cell.className? : Cell → Option String
  | object className _ => some className
  | array _ => none
  | list _ => some "java.util.ArrayList"
  | map _ => some "java.util.HashMap"
  | foreign className _ => some className

namespace Heap

/-- The class and the fields of a generated object. -/
def object? (h : Heap) : Value → Option (String × Slots)
  | .ref a =>
    match h[a]? with
    | some (.object className slots) => some (className, slots)
    | _ => none
  | _ => none

/-- An object is a reference to a cell of an object. -/
theorem object?_eq_some {h : Heap} {v : Value} {className : String} {slots : Slots} :
    h.object? v = some (className, slots) ↔
      ∃ a, v = .ref a ∧ h[a]? = some (.object className slots) := by
  unfold object?
  split
  · split
    · simp_all
    · simp_all
  · simp_all

/-- A value is `null` or a generated object. -/
def IsObjectOrNull (h : Heap) (v : Value) : Prop :=
  v = .null ∨ ∃ className slots, h.object? v = some (className, slots)

/-- The value of a field of an object. -/
def valueAt (h : Heap) (v : Value) (slot : Slot) : Value :=
  match h.object? v with
  | some (_, slots) => slots.get slot
  | none => .null

/-- A slot of an object holds what its cell says. -/
theorem valueAt_of_object {h : Heap} {v : Value} {className : String} {slots : Slots}
    (hv : h.object? v = some (className, slots)) (slot : Slot) :
    h.valueAt v slot = slots.get slot := by
  simp [valueAt, hv]

/-- A later heap that has the cells of an earlier one, unchanged wherever `S` holds. -/
structure Keeps (S : Nat → Prop) (h k : Heap) : Prop where
  length_le : h.length ≤ k.length
  get_eq : ∀ a, S a → a < h.length → k[a]? = h[a]?

/-- A later heap that differs from an earlier one in new cells alone. -/
abbrev Extends (h k : Heap) : Prop := Keeps (fun _ => True) h k

namespace Keeps

variable {S T : Nat → Prop} {h k l : Heap}

/-- Nothing changes in a heap that stays as it is. -/
@[refl] theorem refl (h : Heap) : Keeps S h h := ⟨Nat.le_refl _, fun _ _ _ => rfl⟩

/-- What is kept twice is kept. -/
theorem trans (hhk : Keeps S h k) (hkl : Keeps S k l) : Keeps S h l where
  length_le := Nat.le_trans hhk.length_le hkl.length_le
  get_eq a ha hlt := by
    rw [hkl.get_eq a ha (Nat.lt_of_lt_of_le hlt hhk.length_le), hhk.get_eq a ha hlt]

/-- Fewer cells are kept if more of them are. -/
theorem mono (hhk : Keeps S h k) (hsub : ∀ a, a < h.length → T a → S a) : Keeps T h k where
  length_le := hhk.length_le
  get_eq a ha hlt := hhk.get_eq a (hsub a hlt ha) hlt

/-- A cell that is kept is found again. -/
theorem get_of_some (hhk : Keeps S h k) {a : Nat} {cell : Cell} (ha : S a)
    (hcell : h[a]? = some cell) : k[a]? = some cell := by
  rw [hhk.get_eq a ha (List.getElem?_eq_some_iff.mp hcell).1, hcell]

end Keeps

/-- A heap grows by cells behind its own. -/
theorem extends_append (h : Heap) (cells : List Cell) : Extends h (h ++ cells) where
  length_le := by simp
  get_eq _ _ hlt := List.getElem?_append_left hlt

/-- Changing one cell keeps all others. -/
theorem keeps_set (h : Heap) (a : Nat) (cell : Cell) : Keeps (· ≠ a) h (h.set a cell) where
  length_le := by simp
  get_eq _ hne _ := List.getElem?_set_ne (Ne.symm hne)

end Heap

end BeanSynthesis
