import BeanSynthesis.Json.Basic

/-!
# Writing JSON

The written form of a value: two spaces per level, one member or item on a line, and nothing
between the brackets of what is empty. Strings escape quotes, backslashes and controls only.
-/

namespace BeanSynthesis.Json

/-- Two hexadecimal digits. -/
def hexPair (n : Nat) : String :=
  let digits := Nat.toDigits 16 n
  String.ofList (if digits.length < 2 then '0' :: digits else digits)

/-- A character inside a string. -/
def escapeChar (c : Char) : String :=
  if c = '"' then "\\\""
  else if c = '\\' then "\\\\"
  else if c = '\n' then "\\n"
  else if c = '\r' then "\\r"
  else if c = '\t' then "\\t"
  else if c = '\x08' then "\\b"
  else if c = '\x0c' then "\\f"
  else if c.toNat < 0x20 then "\\u00" ++ hexPair c.toNat
  else String.singleton c

/-- A string with its quotes. -/
def printString (s : String) : String :=
  "\"" ++ String.join (s.toList.map escapeChar) ++ "\""

/-- A number; a decimal one is written as its significand and exponent. -/
def printNumber : NumberLit → String
  | .integer negative magnitude => (if negative then "-" else "") ++ Nat.repr magnitude
  | .decimal significand exponent => Nat.repr significand ++ "e" ++ toString exponent

/-- A line break and the indentation of a level. -/
def lineBreak (level : Nat) : String := "\n" ++ String.ofList (List.replicate (2 * level) ' ')

mutual

/-- A value, where the lines of its parts are indented for `level`. -/
def print (level : Nat) : Json → String
  | null => "null"
  | bool true => "true"
  | bool false => "false"
  | number literal => printNumber literal
  | string value => printString (value.getD "")
  | array [] => "[]"
  | array (item :: items) =>
    "[" ++ lineBreak (level + 1) ++ print (level + 1) item ++ printItems (level + 1) items ++
      lineBreak level ++ "]"
  | object [] => "\x7b\x7d"
  | object ((name, value) :: members) =>
    "\x7b" ++ lineBreak (level + 1) ++ printString (name.getD "") ++ ": " ++
      print (level + 1) value ++ printMembers (level + 1) members ++ lineBreak level ++ "\x7d"

/-- The items after the first. -/
def printItems (level : Nat) : List Json → String
  | [] => ""
  | item :: items => "," ++ lineBreak level ++ print level item ++ printItems level items

/-- The members after the first. -/
def printMembers (level : Nat) : List (Option String × Json) → String
  | [] => ""
  | (name, value) :: members =>
    "," ++ lineBreak level ++ printString (name.getD "") ++ ": " ++ print level value ++
      printMembers level members

end

/-- The written form of a value. -/
def pretty (value : Json) : String := value.print 0

end BeanSynthesis.Json
