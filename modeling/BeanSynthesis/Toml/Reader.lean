import BeanSynthesis.Text.Leading
import BeanSynthesis.Toml.Quoted
import BeanSynthesis.Toml.Scalar

/-!
# Reading TOML

A document is read line by line: a header opens a table, and a key with its value goes into the
table that was opened last. Arrays and tables in braces may go over several lines.
-/

namespace BeanSynthesis.Toml

/-- A text without the comment at its start, if there is one. -/
def skipComment (s : List Char) : List Char :=
  match s with
  | '#' :: rest => rest.dropWhile isVisible
  | s => s

/-- A text without the spaces, line breaks and comments at its start. `inComment` says whether it
starts within a comment. -/
def skipLines (inComment : Bool) : List Char → List Char
  | [] => []
  | '\r' :: '\n' :: rest => skipLines false rest
  | c :: rest =>
    let isSkipped := if inComment then isVisible c else isGap c
    if c = '\n' then skipLines false rest
    else if isSkipped then skipLines inComment rest
    else if !inComment && c = '#' then skipLines true rest
    else c :: rest

/-- Whether a character may stand in a key without quotes. -/
def isBareKeyChar (c : Char) : Bool := c.isAlphanum || c = '_' || c = '-'

/-- One part of a key at the start of a text, and what follows it. -/
def readKeyPart (s : List Char) : Option (String × List Char) :=
  match s with
  | '"' :: _ => readQuotedKey s
  | '\'' :: _ => readQuotedKey s
  | _ =>
    match s.takeWhile isBareKeyChar with
    | [] => none
    | key => some (String.ofList key, s.dropWhile isBareKeyChar)

/-- How many parts a key may have. -/
def keyLimit : Nat := 80

/-- The parts of a key at the start of a text, at most `limit` of them, and what follows it with the
spaces after it. -/
def readKey (limit : Nat) (s : List Char) : Option (List String × List Char) :=
  match limit with
  | 0 => none
  | limit + 1 => do
    let (part, rest) ← readKeyPart (skipGap s)
    match skipGap rest with
    | '.' :: rest => do
      let (parts, rest) ← readKey limit rest
      return (part :: parts, rest)
    | rest => return ([part], rest)

/-- How many levels of arrays and braces may nest. -/
def nestingLimit : Nat := 80

/-- The items of an array after its opening bracket, and what follows the closing one. -/
def readItems (readValue : List Char → Option (Toml × List Char)) (steps : Nat)
    (s : List Char) (items : List Toml) : Option (Toml × List Char) :=
  match steps with
  | 0 => none
  | steps + 1 =>
    match skipLines false s with
    | ']' :: rest => some (.array items.reverse, rest)
    | start => do
      let (item, rest) ← readValue start
      match skipLines false rest with
      | ',' :: rest => readItems readValue steps rest (item :: items)
      | ']' :: rest => return (.array (item :: items).reverse, rest)
      | _ => none

/-- A key, an equals sign and a value at the start of a text: the parts of the key before the last
one, the last one, the value, and what follows. `skip` passes over what may stand beside the
sign. -/
def readKeyValue (readValue : List Char → Option (Toml × List Char))
    (skip : List Char → List Char) (s : List Char) :
    Option (List String × String × Toml × List Char) := do
  let (parts, rest) ← readKey keyLimit s
  let key ← parts.getLast?
  match skip rest with
  | '=' :: rest => do
    let (value, rest) ← readValue (skip rest)
    return (parts.dropLast, key, value, rest)
  | _ => none

/-- The entries of a table in braces after its opening brace, and what follows the closing one. -/
def readEntries (readValue : List Char → Option (Toml × List Char)) (steps : Nat)
    (s : List Char) (made : Toml) : Option (Toml × List Char) :=
  match steps with
  | 0 => none
  | steps + 1 =>
    match skipLines false s with
    | '\x7d' :: rest => some (made, rest)
    | start => do
      let (path, key, value, rest) ← readKeyValue readValue (skipLines false) start
      let made ← made.insertKey path key value
      match skipLines false rest with
      | ',' :: rest => readEntries readValue steps rest made
      | '\x7d' :: rest => return (made, rest)
      | _ => none

/-- The value at the start of a text, which nests at most `levels` deep, and what follows it. -/
def readValue (levels : Nat) (s : List Char) : Option (Toml × List Char) :=
  match s with
  | '"' :: _ => (readString s).map fun (value, rest) => (.string value, rest)
  | '\'' :: _ => (readString s).map fun (value, rest) => (.string value, rest)
  | '[' :: rest =>
    match levels with
    | 0 => none
    | levels + 1 => readItems (readValue levels) s.length rest []
  | '\x7b' :: rest =>
    match levels with
    | 0 => none
    | levels + 1 => readEntries (readValue levels) s.length rest (.table .inlined [])
  | s => readScalar s

/-- What follows the rest of a line, which may hold a comment and nothing else. -/
def afterLine? (s : List Char) : Option (List Char) :=
  match skipComment (skipGap s) with
  | [] => some []
  | rest => afterBreak? rest

/-- A document that is being read. -/
structure Draft where
  root : Toml := .table .opened []
  /-- The header of the table that was opened last. -/
  header : List String := []

/-- The draft after the header of a table. -/
def Draft.open? (d : Draft) (isElement : Bool) (parts : List String) : Option Draft := do
  let key ← parts.getLast?
  let change := if isElement then openElement key else openTable key
  let root ← d.root.update false parts.dropLast change
  return { root, header := parts }

/-- The draft after a key and its value. -/
def Draft.insert? (d : Draft) (path : List String) (key : String) (value : Toml) :
    Option Draft := do
  let root ← d.root.update false d.header fun style entries =>
    (Toml.table style entries).insertKey path key value
  return { d with root }

/-- The draft after the line at the start of a text, and what follows the line. -/
def readLine (d : Draft) (s : List Char) : Option (Draft × List Char) :=
  match skipGap s with
  | [] => some (d, [])
  | '#' :: rest => (afterLine? ('#' :: rest)).map fun rest => (d, rest)
  | '\n' :: rest => some (d, rest)
  | '\r' :: '\n' :: rest => some (d, rest)
  | '[' :: '[' :: rest => do
    let (parts, rest) ← readKey keyLimit rest
    let d ← d.open? true parts
    let rest ← afterLine? (← Text.afterStart? [']', ']'] rest)
    return (d, rest)
  | '[' :: rest => do
    let (parts, rest) ← readKey keyLimit rest
    let d ← d.open? false parts
    let rest ← afterLine? (← Text.afterStart? [']'] rest)
    return (d, rest)
  | start => do
    let (path, key, value, rest) ← readKeyValue (readValue nestingLimit) skipGap start
    let d ← d.insert? path key value
    let rest ← afterLine? rest
    return (d, rest)

/-- The draft after all lines of a text. At most `steps` lines are read. -/
def readDocument (steps : Nat) (d : Draft) (s : List Char) : Option Toml :=
  match s, steps with
  | [], _ => some d.root
  | _, 0 => none
  | s, steps + 1 =>
    match readLine d s with
    | some (d, rest) => readDocument steps d rest
    | none => none

/-- The table that a text holds, if it is a TOML document. A mark of the byte order at its start
does not count. -/
def parse? (text : String) : Option Toml :=
  let s :=
    match text.toList with
    | '\ufeff' :: rest => rest
    | s => s
  readDocument s.length {} s

end BeanSynthesis.Toml
