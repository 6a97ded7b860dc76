import BeanSynthesis.Json.Token
import BeanSynthesis.Toml.Basic

/-!
# Numbers, words and dates in TOML

A scalar without quotes is a run of characters up to a delimiter. All of it has to be one of the
two truth values, an integer, a float, or a date or time. A number may be written well and still
have no value: `0x` has no digits, and `1e999` is too large.
-/

namespace BeanSynthesis.Toml

/-- Whether a character ends a scalar without quotes. -/
def isDelimiter (c : Char) : Bool :=
  c ∈ [' ', '\t', '\n', '\r', '#', ',', '[', ']', '\x7b', '\x7d', '=', '"', '\'']

/-- Whether every underscore stands between two digits. `before` says whether a digit, or what
counts as one, stands before the text. -/
def isGrouped (isDigit : Char → Bool) (before : Bool) : List Char → Bool
  | [] => true
  | ['_'] => false
  | '_' :: c :: rest => before && isDigit c && isGrouped isDigit true rest
  | c :: rest => isGrouped isDigit (isDigit c) rest

/-- A text without its underscores. -/
def ungroup (s : List Char) : List Char := s.filter (· != '_')

/-- Whether a character is a digit in a base. -/
def isDigitIn (base : Nat) (c : Char) : Bool := (Json.hexDigit? c).any (· < base)

/-- The value of digits in a base; there has to be a digit. -/
def naturalIn? (base : Nat) (s : List Char) : Option Nat :=
  if s ≠ [] && s.all (isDigitIn base) then
    some (s.foldl (fun n c => n * base + (Json.hexDigit? c).getD 0) 0)
  else none

/-- Whether an integer has at most 128 bits. -/
def fitsWord (n : Int) : Bool := -(Nat.pow 2 127 : Int) ≤ n && n < Nat.pow 2 128

/-- A sign at the start of a text, and what follows it. -/
def takeSign : List Char → Option Char × List Char
  | '-' :: rest => (some '-', rest)
  | '+' :: rest => (some '+', rest)
  | s => (none, s)

/-- Whether a text starts with a zero that other characters follow. -/
def hasNeedlessZero : List Char → Bool
  | '0' :: _ :: _ => true
  | _ => false

/-- An integer with digits in a base. -/
def integerIn? (base : Nat) (digits : List Char) : Option Toml :=
  let isDigit := isDigitIn base
  if digits.all (fun c => c = '_' || isDigit c) && isGrouped isDigit false digits then
    some (.integer (((naturalIn? base (ungroup digits)).map Int.ofNat).filter fitsWord))
  else none

/-- An integer with decimal digits after its sign. Once an underscore follows the first digits, only
what stands beside underscores is looked at before the integer is asked for its value; a sign
counts as a digit there. -/
def decimalInteger? (sign : Option Char) (s : List Char) : Option Toml :=
  let startsWell : Bool :=
    match s.dropWhile Char.isDigit with
    | [] => !s.isEmpty
    | c :: _ => c = '_'
  if startsWell && !hasNeedlessZero s && isGrouped (isDigitIn 16) sign.isSome s then
    let value := (naturalIn? 10 (ungroup s)).map fun n => if sign = some '-' then -(n : Int) else n
    some (.integer (value.filter fitsWord))
  else none

/-- A float with decimal digits after its sign: a whole part, and a fraction or an exponent. -/
def decimalFloat? (sign : Option Char) (s : List Char) : Option Toml := do
  let (whole, rest) ← Json.lexDigits (ungroup s)
  let (fraction, rest) ← Json.lexFraction rest
  let (exponent, rest) ← Json.lexExponent rest
  if rest = [] && isGrouped Char.isDigit sign.isSome s
      && !(s.head? = some '0' && hasNeedlessZero whole) then
    let places := fraction.getD []
    let digits := (whole ++ places).dropWhile (· = '0')
    let shift := exponent.getD 0 - places.length
    return .float (digits = [] || Double.inRange digits.length (Json.digitsValue digits) shift)
  else none

/-- A number. -/
def number? (s : List Char) : Option Toml :=
  match s with
  | '0' :: 'x' :: digits => integerIn? 16 digits
  | '0' :: 'o' :: digits => integerIn? 8 digits
  | '0' :: 'b' :: digits => integerIn? 2 digits
  | s =>
    let (sign, s) := takeSign s
    if s = "inf".toList || s = "nan".toList then some (.float true)
    else if s.any (fun c => c = '.' || c = 'e' || c = 'E') then decimalFloat? sign s
    else decimalInteger? sign s

/-- A number of exactly so many digits at the start of a text, and what follows it. -/
def takeNumber (count : Nat) (s : List Char) : Option (Nat × List Char) :=
  let digits := s.take count
  if digits.length = count && digits.all Char.isDigit then
    some (Json.digitsValue digits, s.drop count)
  else none

/-- What follows a character at the start of a text. -/
def afterChar? (c : Char) : List Char → Option (List Char)
  | [] => none
  | d :: rest => if c = d then some rest else none

/-- The number of days of a month. -/
def daysOfMonth (year month : Nat) : Nat :=
  if month = 2 then
    if year % 4 = 0 && (year % 100 != 0 || year % 400 = 0) then 29 else 28
  else if month ∈ [4, 6, 9, 11] then 30
  else 31

/-- What follows a date at the start of a text. -/
def afterDate? (s : List Char) : Option (List Char) := do
  let (year, s) ← takeNumber 4 s
  let (month, s) ← takeNumber 2 (← afterChar? '-' s)
  let (day, s) ← takeNumber 2 (← afterChar? '-' s)
  if 1 ≤ month && month ≤ 12 && 1 ≤ day && day ≤ daysOfMonth year month then some s else none

/-- What follows the seconds of a time, which may have a fraction. -/
def afterFraction? : List Char → Option (List Char)
  | '.' :: rest =>
    if (rest.takeWhile Char.isDigit).isEmpty then none else some (rest.dropWhile Char.isDigit)
  | s => some s

/-- What follows a time of day at the start of a text. The seconds may be missing. -/
def afterTime? (s : List Char) : Option (List Char) := do
  let (hour, s) ← takeNumber 2 s
  let (minute, s) ← takeNumber 2 (← afterChar? ':' s)
  if hour ≥ 24 || minute ≥ 60 then none
  else
    match s with
    | ':' :: rest => do
      let (second, rest) ← takeNumber 2 rest
      if second > 60 then none else afterFraction? rest
    | s => some s

/-- Whether a text is nothing or the offset of a time. -/
def isOffset (s : List Char) : Bool :=
  let isShift (s : List Char) : Bool :=
    match takeNumber 2 s with
    | some (hour, ':' :: rest) =>
      match takeNumber 2 rest with
      | some (minute, []) => hour < 24 && minute < 60
      | _ => false
    | _ => false
  match s with
  | [] => true
  | ['Z'] => true
  | ['z'] => true
  | '+' :: rest => isShift rest
  | '-' :: rest => isShift rest
  | _ => false

/-- Whether a text is a date, a time of day, or both. -/
def isDateTime (s : List Char) : Bool :=
  match afterDate? s with
  | some [] => true
  | some (c :: rest) =>
    (c = 'T' || c = 't' || c = ' ') &&
      match afterTime? rest with
      | some rest => isOffset rest
      | none => false
  | none =>
    match afterTime? s with
    | some rest => rest.isEmpty
    | none => false

/-- The value of a scalar without quotes. -/
def scalar? (s : List Char) : Option Toml :=
  if s = "true".toList then some (.bool true)
  else if s = "false".toList then some (.bool false)
  else if isDateTime s then some .datetime
  else number? s

/-- The scalar without quotes at the start of a text, and what follows it. A date goes on after a
space if a digit follows. -/
def readScalar (s : List Char) : Option (Toml × List Char) :=
  let run := s.takeWhile fun c => !isDelimiter c
  let rest := s.dropWhile fun c => !isDelimiter c
  match afterDate? run, rest with
  | some [], ' ' :: c :: others =>
    if c.isDigit then
      let time := (c :: others).takeWhile fun c => !isDelimiter c
      (scalar? (run ++ ' ' :: time)).map fun value =>
        (value, (c :: others).dropWhile fun c => !isDelimiter c)
    else (scalar? run).map fun value => (value, rest)
  | _, _ => (scalar? run).map fun value => (value, rest)

end BeanSynthesis.Toml
