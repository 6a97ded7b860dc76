import BeanSynthesis.Dict
import BeanSynthesis.Json.Basic

/-!
# Taking data out of JSON

A node is a JSON value on its way into the library. It knows how many levels of nesting it may
still open. A record ignores members it does not know, whatever they hold; it may also be an array
of its members in their order. A tagged record has to be taken in whole before its tag is found;
then all of it is checked at once, also the members nobody asks for, and inside it a tag may be
given by its position as well as by its name.
-/

namespace BeanSynthesis.Json

/-- Why a value does not fit. -/
inductive Misfit where
  /-- The text is no JSON value. -/
  | malformed
  | expected (what : String)
  | missing (member : String)
  | repeated (member : String)
  | unknownVariant
  | outOfRange
  | tooDeep
  /-- Somewhere in a value that was taken in whole: broken text, a number out of range, or too
  many levels. -/
  | unsound
  /-- A string that has to be a type is none. -/
  | badType (reason : String)
deriving DecidableEq, Repr

/-- The explanation of a misfit. -/
def Misfit.message : Misfit → String
  | malformed => "malformed JSON text"
  | expected what => "expected " ++ what
  | missing member => "missing member " ++ member
  | repeated member => "repeated member " ++ member
  | unknownVariant => "unknown variant"
  | outOfRange => "number out of range"
  | tooDeep => "too many levels of nesting"
  | unsound => "broken text, number out of range or too many levels"
  | badType reason => "invalid type: " ++ reason

/-- How many levels of arrays and objects a text may nest. -/
def nestingLimit : Nat := 127

/-- A value that is being decoded. -/
structure Node where
  value : Json
  /-- How many levels of arrays and objects may still be opened. -/
  room : Nat
  /-- Whether the value has been taken in whole. -/
  whole : Bool

/-- The result of decoding. -/
abbrev Decoded (α : Type) := Except Misfit α

namespace Node

/-- The node of a whole text. -/
def ofJson (value : Json) : Node := ⟨value, nestingLimit, false⟩

/-- Takes a value in whole. -/
def takeWhole (node : Node) : Decoded Node :=
  if node.whole then .ok node
  else if node.value.isSound node.room then .ok { node with whole := true }
  else .error .unsound

/-- A truth value. -/
def bool (node : Node) : Decoded Bool :=
  match node.value with
  | .bool b => .ok b
  | _ => .error (.expected "a truth value")

/-- A text. -/
def text (node : Node) : Decoded String :=
  match node.value with
  | .string (some s) => .ok s
  | _ => .error (.expected "a text")

/-- An integer from `low` to `high`, written with digits only. Minus zero is no integer. -/
def integer (low high : Int) (node : Node) : Decoded Int :=
  match node.value with
  | .number (.integer true 0) => .error (.expected "an integer")
  | .number (.integer negative magnitude) =>
    let n : Int := if negative then -magnitude else magnitude
    if low ≤ n ∧ n ≤ high then .ok n else .error .outOfRange
  | _ => .error (.expected "an integer")

/-- An integer of 64 bits. -/
def int64 (node : Node) : Decoded Int := node.integer (-9223372036854775808) 9223372036854775807

/-- A natural number of 32 bits. -/
def nat32 (node : Node) : Decoded Nat := (node.integer 0 4294967295).map Int.toNat

/-- The items of an array. -/
def items (node : Node) : Decoded (List Node) :=
  match node.value, node.room with
  | .array _, 0 => .error .tooDeep
  | .array items, room + 1 => .ok (items.map fun item => ⟨item, room, node.whole⟩)
  | _, _ => .error (.expected "an array")

/-- The members of an object, whose names must be text. -/
def members (node : Node) : Decoded (List (String × Node)) :=
  match node.value, node.room with
  | .object _, 0 => .error .tooDeep
  | .object members, room + 1 =>
    members.mapM fun (name, value) =>
      match name with
      | some name => .ok (name, ⟨value, room, node.whole⟩)
      | none => .error (.expected "a text")
  | _, _ => .error (.expected "an object")

/-- A list of values. -/
def list {α : Type} (decode : Node → Decoded α) (node : Node) : Decoded (List α) := do
  (← node.items).mapM decode

/-- A value that may be `null`. -/
def nullable {α : Type} (decode : Node → Decoded α) (node : Node) : Decoded (Option α) :=
  match node.value with
  | .null => .ok none
  | _ => (decode node).map some

/-- A pair of a text and a value, written as an array of two. -/
def pair {α : Type} (decode : Node → Decoded α) (node : Node) : Decoded (String × α) := do
  match ← node.items with
  | [first, second] => return (← first.text, ← decode second)
  | _ => .error (.expected "two items")

/-- A dictionary; of members of one name the last one counts. -/
def dict {α : Type} (decode : Node → Decoded α) (node : Node) : Decoded (Dict α) := do
  let entries ← (← node.members).mapM fun (name, value) =>
    return (name, ← decode value)
  return Dict.ofList entries

end Node

/-- The members of a record that is being decoded. -/
structure Fields where
  members : List (String × Node)
  /-- Whether the record was written as an array of its members. -/
  listed : Bool

namespace Fields

/-- The members that the items of an array are, each under the next name. There may be less items
than names, but not more. -/
def ofItems (names : List String) (items : List Node) : Decoded Fields :=
  if items.length ≤ names.length then .ok ⟨names.zip items, true⟩
  else .error (.expected "fewer items")

/-- The member of this name, which may occur once. -/
def find? (fields : Fields) (name : String) : Decoded (Option Node) :=
  match fields.members.filter (·.1 == name) with
  | [] => .ok none
  | [field] => .ok (some field.2)
  | _ => .error (.repeated name)

/-- A member that must be there. -/
def required {α : Type} (fields : Fields) (name : String) (decode : Node → Decoded α) :
    Decoded α := do
  match ← fields.find? name with
  | some node => decode node
  | none => .error (.missing name)

/-- A member that may be missing and then has a default. -/
def withDefault {α : Type} (fields : Fields) (name : String) (default : α)
    (decode : Node → Decoded α) : Decoded α := do
  match ← fields.find? name with
  | some node => decode node
  | none => return default

/-- A member that may be missing or `null`. -/
def optional {α : Type} (fields : Fields) (name : String) (decode : Node → Decoded α) :
    Decoded (Option α) :=
  fields.withDefault name none (Node.nullable decode)

/-- A member that may be `null`. It may also be missing, but not in an array. -/
def nullable {α : Type} (fields : Fields) (name : String) (decode : Node → Decoded α) :
    Decoded (Option α) :=
  if fields.listed then fields.required name (Node.nullable decode)
  else fields.optional name decode

end Fields

namespace Node

/-- The members of an object. -/
def fields (node : Node) : Decoded Fields := return ⟨← node.members, false⟩

/-- The members of a record with these names, which is an object or an array. -/
def record (names : List String) (node : Node) : Decoded Fields :=
  match node.value with
  | .array _ => do Fields.ofItems names (← node.items)
  | _ => node.fields

/-- A tag: one of `names`, or, where `byPosition` allows it, the position of one of them. -/
def tag (names : List String) (byPosition : Bool) (node : Node) : Decoded String :=
  match node.value with
  | .string (some name) => if name ∈ names then .ok name else .error .unknownVariant
  | .number (.integer false position) =>
    if byPosition then
      match names[position]? with
      | some name => .ok name
      | none => .error .unknownVariant
    else .error (.expected "a tag")
  | _ => .error (.expected "a tag")

/-- The tag and the members of a tagged record. Every tag has its own members. In an array the tag
comes first. -/
def tagged (node : Node) (member : String) (variants : List (String × List String)) :
    Decoded (String × Fields) := do
  let tags := variants.map (·.1)
  let whole ← node.takeWhole
  match whole.value with
  | .array _ =>
    match ← whole.items with
    | [] => .error (.missing member)
    | first :: items => do
      let tag ← first.tag tags node.whole
      let names := (variants.find? (·.1 == tag)).elim [] (·.2)
      return (tag, ← Fields.ofItems names items)
  | _ => do
    let fields ← whole.fields
    return (← fields.required member (Node.tag tags node.whole), fields)

/-- The name and the content of a variant: a name alone, or an object with one member. -/
def variant (node : Node) : Decoded (String × Option Node) :=
  match node.value with
  | .string (some name) => .ok (name, none)
  | _ => do
    match ← node.members with
    | [(name, content)] => return (name, some content)
    | _ => .error (.expected "a variant")

/-- The content of a variant that has none: missing or `null`, or, in a value that was taken in
whole, an empty object. -/
def noContent : Option Node → Decoded Unit
  | none => .ok ()
  | some node =>
    match node.value with
    | .null => .ok ()
    | .object [] => if node.whole then .ok () else .error (.expected "null")
    | _ => .error (.expected "null")

/-- One of several variants without content. -/
def choice {α : Type} (options : List (String × α)) (node : Node) : Decoded α := do
  let (name, content) ← node.variant
  match options.find? (·.1 == name) with
  | some (_, value) => do
    noContent content
    return value
  | none => .error .unknownVariant

end Node

end BeanSynthesis.Json
