import BeanSynthesis.Json.Token
import BeanSynthesis.Toml.Basic

/-!
# Strings in TOML

Strings stand between single or double quotes, or between three of them when they go over several
lines. Escapes count only between double quotes. A line break right after three quotes is not
part of the string.
-/

namespace BeanSynthesis.Toml

/-- Whether a character may stand in a string or a comment: a tab, or anything but a control. -/
def isVisible (c : Char) : Bool := c = '\t' || (0x20 ≤ c.toNat && c.toNat != 0x7f)

/-- The character that a one-letter escape stands for. -/
def shortEscape? : Char → Option Char
  | 'b' => some '\x08'
  | 't' => some '\t'
  | 'n' => some '\n'
  | 'f' => some '\x0c'
  | 'r' => some '\r'
  | 'e' => some '\x1b'
  | '"' => some '"'
  | '\\' => some '\\'
  | _ => none

/-- How many hexadecimal digits follow the letter of an escape by code point. -/
def escapeWidth? : Char → Option Nat
  | 'x' => some 2
  | 'u' => some 4
  | 'U' => some 8
  | _ => none

/-- The character of a code point, if there is one. -/
def charOfCodePoint? (n : Nat) : Option Char :=
  if n < 0xD800 || (0xDFFF < n && n < 0x110000) then some (Char.ofNat n) else none

/-- The character that an escape stands for, given what follows its backslash, and what follows
the escape. -/
def readEscape : List Char → Option (Char × List Char)
  | [] => none
  | c :: rest =>
    match escapeWidth? c with
    | some width => do
      let digits := rest.take width
      if digits.length = width && digits.all fun c => (Json.hexDigit? c).isSome then
        let c ← charOfCodePoint? (digits.foldl (fun n c => n * 16 + (Json.hexDigit? c).getD 0) 0)
        return (c, rest.drop width)
      else none
    | none => (shortEscape? c).map fun c => (c, rest)

/-- Whether a character is a space within a line. -/
def isGap (c : Char) : Bool := c = ' ' || c = '\t'

/-- A text without the spaces at its start. -/
def skipGap (s : List Char) : List Char := s.dropWhile isGap

/-- What follows a line break at the start of a text. -/
def afterBreak? : List Char → Option (List Char)
  | '\n' :: rest => some rest
  | '\r' :: '\n' :: rest => some rest
  | _ => none

/-- A text without the spaces and line breaks at its start. -/
def skipBlank : List Char → List Char
  | [] => []
  | '\r' :: '\n' :: rest => skipBlank rest
  | c :: rest => if isGap c || c = '\n' then skipBlank rest else c :: rest

/-- What follows a backslash that ends a line: spaces, a line break, and all further spaces and
line breaks. -/
def afterLineEnd? (s : List Char) : Option (List Char) := (afterBreak? (skipGap s)).map skipBlank

/-- The string between double quotes on one line, and what follows it. At most `steps` characters
are read. -/
def readBasic (steps : Nat) (s read : List Char) : Option (String × List Char) :=
  match steps, s with
  | _, [] => none
  | 0, _ => none
  | _ + 1, '"' :: rest => some (String.ofList read.reverse, rest)
  | steps + 1, '\\' :: rest =>
    match readEscape rest with
    | some (c, rest) => readBasic steps rest (c :: read)
    | none => none
  | steps + 1, c :: rest => if isVisible c then readBasic steps rest (c :: read) else none

/-- The string between single quotes on one line, and what follows it. -/
def readLiteral : List Char → List Char → Option (String × List Char)
  | [], _ => none
  | '\'' :: rest, read => some (String.ofList read.reverse, rest)
  | c :: rest, read => if isVisible c then readLiteral rest (c :: read) else none

/-- The string that three quotes close: up to two more quotes right before them belong to it. The
text follows the first three of the closing quotes. -/
def closeLines (quote : Char) (s read : List Char) : String × List Char :=
  match s with
  | a :: b :: rest =>
    if a = quote then
      if b = quote then (String.ofList (quote :: quote :: read).reverse, rest)
      else (String.ofList (quote :: read).reverse, b :: rest)
    else (String.ofList read.reverse, a :: b :: rest)
  | [a] =>
    if a = quote then (String.ofList (quote :: read).reverse, [])
    else (String.ofList read.reverse, [a])
  | [] => (String.ofList read.reverse, [])

/-- The string between three quotes, and what follows it. Escapes count if `escapes` says so. At
most `steps` characters are read. -/
def readLines (quote : Char) (escapes : Bool) (steps : Nat) (s read : List Char) :
    Option (String × List Char) :=
  match steps, s with
  | _, [] => none
  | 0, _ => none
  | steps + 1, c :: rest =>
    if c = quote && rest.take 2 = [quote, quote] then some (closeLines quote (rest.drop 2) read)
    else if escapes && c = '\\' then
      match afterLineEnd? rest with
      | some rest => readLines quote escapes steps rest read
      | none =>
        match readEscape rest with
        | some (c, rest) => readLines quote escapes steps rest (c :: read)
        | none => none
    else if c = '\r' then
      match rest with
      | '\n' :: rest => readLines quote escapes steps rest ('\n' :: '\r' :: read)
      | _ => none
    else if isVisible c || c = '\n' then readLines quote escapes steps rest (c :: read)
    else none

/-- A text without a line break at its start. -/
def skipFirstBreak (s : List Char) : List Char := (afterBreak? s).getD s

/-- The string at the start of a text, if a quote stands there, and what follows it. -/
def readString (s : List Char) : Option (String × List Char) :=
  match s with
  | '"' :: '"' :: '"' :: rest => readLines '"' true rest.length (skipFirstBreak rest) []
  | '\'' :: '\'' :: '\'' :: rest => readLines '\'' false rest.length (skipFirstBreak rest) []
  | '"' :: rest => readBasic rest.length rest []
  | '\'' :: rest => readLiteral rest []
  | _ => none

/-- The quoted key at the start of a text, and what follows it. A key stays on one line. -/
def readQuotedKey (s : List Char) : Option (String × List Char) :=
  match s with
  | '"' :: '"' :: '"' :: _ => none
  | '\'' :: '\'' :: '\'' :: _ => none
  | '"' :: rest => readBasic rest.length rest []
  | '\'' :: rest => readLiteral rest []
  | _ => none

end BeanSynthesis.Toml
