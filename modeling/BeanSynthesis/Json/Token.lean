import BeanSynthesis.Json.Basic

/-!
# Tokens of JSON

The lexical level of JSON: punctuation, the three words, numbers and strings, with blanks, tabs and
line breaks between them. A string is first cut into pieces; an escape for half of a surrogate
pair is a piece of its own, and two fitting halves make one character.
-/

namespace BeanSynthesis.Json

/-- A lexical unit. -/
inductive Token where
  | openBrace | closeBrace | openBracket | closeBracket | comma | colon
  | null
  | bool (value : Bool)
  | number (literal : NumberLit)
  | string (value : Option String)
deriving Repr

/-- What stands in a string: a character, or half of a surrogate pair. -/
inductive Piece where
  | char (c : Char)
  | half (unit : Nat)
deriving Repr

/-- Whether a code unit is the first half of a pair. -/
def isHighHalf (unit : Nat) : Bool := 0xD800 ≤ unit && unit < 0xDC00

/-- Whether a code unit is the second half of a pair. -/
def isLowHalf (unit : Nat) : Bool := 0xDC00 ≤ unit && unit < 0xE000

/-- The piece that an escaped code unit stands for. -/
def Piece.ofUnit (unit : Nat) : Piece :=
  if isHighHalf unit || isLowHalf unit then .half unit else .char (Char.ofNat unit)

/-- The characters of a string; there are none if a half stands without its partner. -/
def assemble : List Piece → Option (List Char)
  | [] => some []
  | .char c :: rest => (assemble rest).map (c :: ·)
  | .half high :: .half low :: rest =>
    if isHighHalf high && isLowHalf low then
      (assemble rest).map
        (Char.ofNat (0x10000 + (high - 0xD800) * 0x400 + (low - 0xDC00)) :: ·)
    else none
  | .half _ :: _ => none

/-- The value of a hexadecimal digit. -/
def hexDigit? (c : Char) : Option Nat :=
  if '0' ≤ c && c ≤ '9' then some (c.toNat - '0'.toNat)
  else if 'a' ≤ c && c ≤ 'f' then some (c.toNat - 'a'.toNat + 10)
  else if 'A' ≤ c && c ≤ 'F' then some (c.toNat - 'A'.toNat + 10)
  else none

/-- The value of four hexadecimal digits. -/
def hexUnit? (a b c d : Char) : Option Nat := do
  let a ← hexDigit? a
  let b ← hexDigit? b
  let c ← hexDigit? c
  let d ← hexDigit? d
  return ((a * 16 + b) * 16 + c) * 16 + d

/-- The character that a one-letter escape stands for. -/
def shortEscape? : Char → Option Char
  | '"' => some '"'
  | '\\' => some '\\'
  | '/' => some '/'
  | 'b' => some '\x08'
  | 'f' => some '\x0c'
  | 'n' => some '\n'
  | 'r' => some '\r'
  | 't' => some '\t'
  | _ => none

/-- The pieces of a string up to its closing quote, and what follows it. -/
def lexString : List Char → Option (List Piece × List Char)
  | [] => none
  | '"' :: rest => some ([], rest)
  | '\\' :: 'u' :: a :: b :: c :: d :: rest => do
    let unit ← hexUnit? a b c d
    let (pieces, rest) ← lexString rest
    return (.ofUnit unit :: pieces, rest)
  | '\\' :: e :: rest => do
    let c ← shortEscape? e
    let (pieces, rest) ← lexString rest
    return (.char c :: pieces, rest)
  | c :: rest =>
    if c = '\\' || c.toNat < 0x20 then none
    else do
      let (pieces, rest) ← lexString rest
      return (.char c :: pieces, rest)

/-- The number that decimal digits denote. -/
def digitsValue (digits : List Char) : Nat :=
  digits.foldl (fun n d => n * 10 + (d.toNat - '0'.toNat)) 0

/-- The digits at the start of a text, of which there must be one, and what follows them. -/
def lexDigits (s : List Char) : Option (List Char × List Char) :=
  match s.takeWhile Char.isDigit with
  | [] => none
  | digits => some (digits, s.dropWhile Char.isDigit)

/-- The whole part of a number: a zero alone, or digits that do not start with one. -/
def lexWhole : List Char → Option (List Char × List Char)
  | '0' :: rest => some (['0'], rest)
  | s => lexDigits s

/-- The digits of a fraction, if one follows. -/
def lexFraction : List Char → Option (Option (List Char) × List Char)
  | '.' :: rest => (lexDigits rest).map fun (digits, rest) => (some digits, rest)
  | s => some (none, s)

/-- The value of a signed exponent. -/
def lexSignedExponent : List Char → Option (Int × List Char)
  | '-' :: rest => (lexDigits rest).map fun (digits, rest) => (-(digitsValue digits : Int), rest)
  | '+' :: rest => (lexDigits rest).map fun (digits, rest) => ((digitsValue digits : Int), rest)
  | s => (lexDigits s).map fun (digits, rest) => ((digitsValue digits : Int), rest)

/-- The exponent of a number, if one follows. -/
def lexExponent : List Char → Option (Option Int × List Char)
  | 'e' :: rest => (lexSignedExponent rest).map fun (e, rest) => (some e, rest)
  | 'E' :: rest => (lexSignedExponent rest).map fun (e, rest) => (some e, rest)
  | s => some (none, s)

/-- Digits read after the number `n`, as long as the result has at most 64 bits, and the digits that
are left. -/
def takeDigits (n : Nat) : List Char → Nat × List Char
  | [] => (n, [])
  | d :: digits =>
    let next := n * 10 + (d.toNat - '0'.toNat)
    if next < 18446744073709551616 then takeDigits next digits else (n, d :: digits)

/-- A number without its sign, and what follows it. Digits of the whole part that do not fit count
as zeros, those of the fraction not at all. -/
def lexUnsigned (negative : Bool) (s : List Char) : Option (NumberLit × List Char) := do
  let (whole, rest) ← lexWhole s
  let (fraction, rest) ← lexFraction rest
  let (exponent, rest) ← lexExponent rest
  match takeDigits 0 whole, fraction, exponent with
  | (magnitude, []), none, none => return (.integer negative magnitude, rest)
  | (start, zeros), fraction, exponent =>
    let places := fraction.getD []
    let (significand, spare) := takeDigits start places
    let shift : Int := zeros.length + spare.length - places.length
    return (.decimal significand (exponent.getD 0 + shift), rest)

/-- What may stand between tokens. -/
def isSpace (c : Char) : Bool := c = ' ' || c = '\n' || c = '\t' || c = '\r'

/-- The token that starts with `c`, and what follows it; nothing for a space. -/
def lexToken (c : Char) (rest : List Char) : Option (Option Token × List Char) :=
  match c, rest with
  | '\x7b', rest => some (some .openBrace, rest)
  | '\x7d', rest => some (some .closeBrace, rest)
  | '[', rest => some (some .openBracket, rest)
  | ']', rest => some (some .closeBracket, rest)
  | ',', rest => some (some .comma, rest)
  | ':', rest => some (some .colon, rest)
  | 'n', 'u' :: 'l' :: 'l' :: rest => some (some .null, rest)
  | 't', 'r' :: 'u' :: 'e' :: rest => some (some (.bool true), rest)
  | 'f', 'a' :: 'l' :: 's' :: 'e' :: rest => some (some (.bool false), rest)
  | '"', rest => do
    let (pieces, rest) ← lexString rest
    return (some (.string ((assemble pieces).map String.ofList)), rest)
  | '-', rest => do
    let (literal, rest) ← lexUnsigned true rest
    return (some (.number literal), rest)
  | c, rest =>
    if isSpace c then some (none, rest)
    else do
      let (literal, rest) ← lexUnsigned false (c :: rest)
      return (some (.number literal), rest)

/-- All tokens of a text. At most `steps` characters are lexed; a text has no more tokens than
characters. -/
def lexAll (steps : Nat) (s : List Char) (tokens : List Token) : Option (List Token) :=
  match s, steps with
  | [], _ => some tokens.reverse
  | _ :: _, 0 => none
  | c :: rest, steps + 1 =>
    match lexToken c rest with
    | none => none
    | some (none, rest) => lexAll steps rest tokens
    | some (some token, rest) => lexAll steps rest (token :: tokens)

/-- The tokens of a text, if it consists of tokens. -/
def tokens? (text : String) : Option (List Token) :=
  lexAll text.toList.length text.toList []

end BeanSynthesis.Json
