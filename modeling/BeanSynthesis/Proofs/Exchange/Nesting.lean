import BeanSynthesis.Json.Decode
import BeanSynthesis.Proofs.Exchange.JsonText

/-!
# How deep values nest

The levels of arrays and objects in a value. A plain value may be taken in whole wherever there is
room for its levels, since nothing else can be wrong with it.
-/

namespace BeanSynthesis.Json

mutual

/-- How many levels of arrays and objects a value nests. -/
def depth : Json → Nat
  | array items => itemsDepth items + 1
  | object members => membersDepth members + 1
  | _ => 0

/-- The greatest depth of items. -/
def itemsDepth : List Json → Nat
  | [] => 0
  | item :: items => max item.depth (itemsDepth items)

/-- The greatest depth of the values of members. -/
def membersDepth : List (Option String × Json) → Nat
  | [] => 0
  | (_, value) :: members => max value.depth (membersDepth members)

end

@[simp] private theorem depth_null : null.depth = 0 := rfl

/-- A truth value does not nest. -/
@[simp] theorem depth_bool (b : Bool) : (bool b).depth = 0 := rfl

/-- A text does not nest. -/
@[simp] theorem depth_str (s : String) : (str s).depth = 0 := rfl

@[simp] private theorem depth_int (n : Int) : (int n).depth = 0 := rfl

@[simp] private theorem depth_nat (n : Nat) : (nat n).depth = 0 := rfl

/-- A text is not null. -/
theorem str_ne_null (s : String) : str s ≠ null := nofun

private theorem itemsDepth_le {items : List Json} {room : Nat} :
    itemsDepth items ≤ room ↔ ∀ item ∈ items, item.depth ≤ room := by
  induction items with
  | nil => simp [itemsDepth]
  | cons item items ih => rw [itemsDepth, Nat.max_le, ih, List.forall_mem_cons]

/-- An array fits if there is room for one level and for its items below it. -/
@[simp] theorem depth_array_le_succ {items : List Json} {room : Nat} :
    (array items).depth ≤ room + 1 ↔ ∀ item ∈ items, item.depth ≤ room := by
  rw [depth, Nat.add_le_add_iff_right, itemsDepth_le]

/-- An object fits if there is room for one level and for its values below it. -/
@[simp] theorem depth_obj_le_succ {members : List (String × Json)} {room : Nat} :
    (obj members).depth ≤ room + 1 ↔ ∀ member ∈ members, member.2.depth ≤ room := by
  rw [obj, depth, Nat.add_le_add_iff_right]
  induction members with
  | nil => simp [membersDepth]
  | cons member members ih =>
    rw [List.map_cons, membersDepth, Nat.max_le, ih, List.forall_mem_cons]

/-- An array nests. -/
theorem depth_array_pos (items : List Json) : 0 < (array items).depth := Nat.succ_pos _

/-- An object nests. -/
theorem depth_obj_pos (members : List (String × Json)) : 0 < (obj members).depth := Nat.succ_pos _

/-! ## Plain values -/

/-- Null has no number. -/
@[simp] theorem plain_null : null.Plain := trivial

/-- A truth value has no number. -/
@[simp] theorem plain_bool (b : Bool) : (bool b).Plain := trivial

/-- A text has no number. -/
@[simp] theorem plain_str (s : String) : (str s).Plain := rfl

/-- A number is in range if its size has 64 bits. -/
@[simp] theorem plain_int {n : Int} : (int n).Plain ↔ n.natAbs < 18446744073709551616 := Iff.rfl

/-- A natural number is in range if it has 64 bits. -/
@[simp] theorem plain_nat {n : Nat} : (nat n).Plain ↔ n < 18446744073709551616 := Iff.rfl

/-- The numbers of an array are those of its items. -/
@[simp] theorem plain_array {items : List Json} :
    (array items).Plain ↔ ∀ item ∈ items, item.Plain := by
  rw [Plain]
  induction items with
  | nil => simp [AllPlain]
  | cons item items ih => simp [AllPlain, ih]

/-- The numbers of an object are those of its members. -/
@[simp] theorem plain_obj {members : List (String × Json)} :
    (obj members).Plain ↔ ∀ member ∈ members, member.2.Plain := by
  rw [obj, Plain]
  induction members with
  | nil => simp [AllMembersPlain]
  | cons member members ih => simp [AllMembersPlain, ih]

private theorem two_pow_le_sub {a b c : Nat} (hab : a ≤ b) (hbc : b < c) :
    Nat.pow 2 a ≤ Nat.pow 2 c - Nat.pow 2 b := by
  have htwice : Nat.pow 2 b + Nat.pow 2 b ≤ Nat.pow 2 c := calc
    Nat.pow 2 b + Nat.pow 2 b = Nat.pow 2 (b + 1) := (Nat.mul_two _).symm
    _ ≤ Nat.pow 2 c := Nat.pow_le_pow_right (by decide) hbc
  exact Nat.le_trans (Nat.pow_le_pow_right (by decide) hab) (Nat.le_sub_of_add_le htwice)

/-- No whole number of 64 bits is beyond the range of doubles. -/
theorem isFinite_integer (negative : Bool) {magnitude : Nat}
    (h : magnitude < 18446744073709551616) : (NumberLit.integer negative magnitude).isFinite := by
  have hlimit : Nat.pow 2 64 ≤ Double.limit := by
    -- The exponents are made variables, so that nothing computes the powers.
    rw [Double.limit]
    generalize hb : 970 = b
    generalize hc : 1024 = c
    exact two_pow_le_sub (by omega) (by omega)
  rw [NumberLit.isFinite, decide_eq_true_iff]
  generalize Double.limit = limit at hlimit ⊢
  exact Nat.lt_of_lt_of_le h hlimit

mutual

/-- Where there is room for a plain value it is sound. -/
theorem isSound_of_plain (value : Json) {room : Nat} (h : value.Plain)
    (hroom : value.depth ≤ room) :
    value.isSound room := by
  cases value with
  | null => rfl
  | bool b => rfl
  | number literal =>
    cases literal with
    | integer negative magnitude =>
      rw [Plain] at h
      rw [isSound]
      exact isFinite_integer negative h
    | decimal significand exponent => simp [Plain] at h
  | string s => simpa only [isSound, Plain] using h
  | array items =>
    rw [depth] at hroom
    rw [Plain] at h
    cases room with
    | zero => omega
    | succ room =>
      rw [isSound]
      exact allSound_of_plain items h (Nat.le_of_succ_le_succ hroom)
  | object members =>
    rw [depth] at hroom
    rw [Plain] at h
    cases room with
    | zero => omega
    | succ room =>
      rw [isSound]
      exact allMembersSound_of_plain members h (Nat.le_of_succ_le_succ hroom)

private theorem allSound_of_plain (items : List Json) {room : Nat} (h : AllPlain items)
    (hroom : itemsDepth items ≤ room) : allSound room items := by
  cases items with
  | nil => rfl
  | cons item items =>
    rw [AllPlain] at h
    rw [itemsDepth, Nat.max_le] at hroom
    rw [allSound, isSound_of_plain item h.1 hroom.1, allSound_of_plain items h.2 hroom.2]
    rfl

private theorem allMembersSound_of_plain (members : List (Option String × Json)) {room : Nat}
    (h : AllMembersPlain members) (hroom : membersDepth members ≤ room) :
    allMembersSound room members := by
  cases members with
  | nil => rfl
  | cons member members =>
    obtain ⟨name, value⟩ := member
    rw [AllMembersPlain] at h
    rw [membersDepth, Nat.max_le] at hroom
    rw [allMembersSound, h.1, isSound_of_plain value h.2.1 hroom.1,
      allMembersSound_of_plain members h.2.2 hroom.2]
    rfl

end

end BeanSynthesis.Json
