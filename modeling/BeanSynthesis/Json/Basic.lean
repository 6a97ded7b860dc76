import BeanSynthesis.Double

/-!
# Data in JSON

A JSON value as it stands in a text: a whole number is told apart from a decimal one, and the
members of an object keep their order and may repeat a name. A string of the text can hold half of a
surrogate pair, which is no character; such a string has no value.
-/

namespace BeanSynthesis

/-- A number as it is read: a whole number or a decimal one, of at most 64 bits either way. -/
inductive NumberLit where
  /-- Digits alone, with an optional minus sign. -/
  | integer (negative : Bool) (magnitude : Nat)
  /-- A number with a fraction or an exponent, or with too many digits:
  `significand * 10 ^ exponent`, without its sign. -/
  | decimal (significand : Nat) (exponent : Int)
deriving DecidableEq, Repr, Inhabited

/-- A JSON value. -/
inductive Json where
  | null
  | bool (value : Bool)
  | number (literal : NumberLit)
  /-- A string; `none` if it holds half of a surrogate pair. -/
  | string (value : Option String)
  | array (items : List Json)
  | object (members : List (Option String × Json))
deriving Repr, Inhabited

namespace Json

/-- A string value. -/
def str (s : String) : Json := string (some s)

/-- An object with members of different names. -/
def obj (members : List (String × Json)) : Json :=
  object (members.map fun (name, value) => (some name, value))

/-- An integer. -/
def int (n : Int) : Json := number (.integer (n < 0) n.natAbs)

/-- A natural number. -/
def nat (n : Nat) : Json := number (.integer false n)

/-- A list of strings. -/
def strs (texts : List String) : Json := array (texts.map str)

/-- An optional value, `null` if it is missing. -/
def option {α : Type} (encode : α → Json) : Option α → Json
  | none => null
  | some a => encode a

end Json

/-- Whether the number is in the range of a double. The significand and the power of ten are rounded
to doubles before they are multiplied; a double has no power of ten beyond the 308th. -/
def NumberLit.isFinite : NumberLit → Bool
  | integer _ magnitude => magnitude < Double.limit
  | decimal significand exponent =>
    if significand = 0 || exponent ≤ 0 then true
    else if exponent > 308 then false
    else
      Double.nearest significand * Double.nearest (Nat.pow 10 exponent.toNat) < Double.limit

namespace Json

mutual

/-- Whether every string of the value is text, every number is in range, and values nest no more
than `room` levels deep. -/
def isSound (room : Nat) : Json → Bool
  | null => true
  | bool _ => true
  | number literal => literal.isFinite
  | string value => value.isSome
  | array items =>
    match room with
    | 0 => false
    | room + 1 => allSound room items
  | object members =>
    match room with
    | 0 => false
    | room + 1 => allMembersSound room members

/-- `isSound` for all items of an array. -/
def allSound (room : Nat) : List Json → Bool
  | [] => true
  | item :: items => isSound room item && allSound room items

/-- `isSound` for all members of an object. -/
def allMembersSound (room : Nat) : List (Option String × Json) → Bool
  | [] => true
  | (name, value) :: members => name.isSome && isSound room value && allMembersSound room members

end

end Json

end BeanSynthesis
