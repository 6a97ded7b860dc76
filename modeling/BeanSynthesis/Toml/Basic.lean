import BeanSynthesis.Json.Basic

/-!
# Data in TOML

A TOML value, and how a document builds its tables: a table may be opened by a header only once,
a dotted key adds only to tables that dotted keys have made, and what stands in braces is
complete.
-/

namespace BeanSynthesis

/-- How a table came about. -/
inductive TableStyle where
  /-- Written in braces. -/
  | inlined
  /-- Made by a dotted key. -/
  | dotted
  /-- Made by a longer header. -/
  | implied
  /-- Opened by a header of its own. -/
  | opened
deriving DecidableEq, Repr, Inhabited

/-- A TOML value. -/
inductive Toml where
  | string (value : String)
  /-- An integer; `none` if it is written with too many bits or wrong digits. -/
  | integer (value : Option Int)
  /-- A float, and whether it has a value. -/
  | float (inRange : Bool)
  | bool (value : Bool)
  | datetime
  | array (items : List Toml)
  /-- An array of tables with headers of their own. -/
  | tables (elements : List Toml)
  | table (style : TableStyle) (entries : List (String × Toml))
deriving Inhabited

namespace Toml

/-- The value of a key. -/
def lookup (key : String) (entries : List (String × Toml)) : Option Toml :=
  (entries.find? (·.1 == key)).map (·.2)

/-- Replaces the value of a key, or adds the key at the end. -/
def assign (key : String) (value : Toml) : List (String × Toml) → List (String × Toml)
  | [] => [(key, value)]
  | entry :: rest =>
    if entry.1 == key then (key, value) :: rest else entry :: assign key value rest

/-- Whether a path may lead through a table: a header may pass every table but those in braces,
a dotted key only tables that no header has opened. -/
def mayPass (byDottedKey : Bool) : TableStyle → Bool
  | .inlined => false
  | .opened => !byDottedKey
  | .dotted => true
  | .implied => true

/-- Changes the table at the end of a path, making the tables on the way that are missing. In an
array of tables the path goes on in the last one. -/
def updateAt (byDottedKey : Bool) (path : List String)
    (change : TableStyle → List (String × Toml) → Option Toml) (style : TableStyle)
    (entries : List (String × Toml)) : Option Toml :=
  match path with
  | [] => change style entries
  | key :: rest =>
    let put (inner : Toml) : Toml := table style (assign key inner entries)
    match lookup key entries with
    | none =>
      (updateAt byDottedKey rest change (if byDottedKey then .dotted else .implied) []).map put
    | some (table innerStyle inner) =>
      if mayPass byDottedKey innerStyle then
        (updateAt byDottedKey rest change innerStyle inner).map put
      else none
    | some (tables elements) =>
      match elements.getLast? with
      | some (table innerStyle inner) =>
        (updateAt byDottedKey rest change innerStyle inner).map fun last =>
          put (tables (elements.dropLast ++ [last]))
      | _ => none
    | some _ => none

/-- Changes the table at the end of a path of a document. -/
def update (byDottedKey : Bool) (path : List String)
    (change : TableStyle → List (String × Toml) → Option Toml) : Toml → Option Toml
  | table style entries => updateAt byDottedKey path change style entries
  | _ => none

/-- Adds a key to a table that does not have it. The last part of a dotted key goes into a table
that dotted keys have made. -/
def addKey (isDotted : Bool) (key : String) (value : Toml) (style : TableStyle)
    (entries : List (String × Toml)) : Option Toml :=
  if isDotted && style != .dotted then none
  else if (lookup key entries).isSome then none
  else some (table style (entries ++ [(key, value)]))

/-- Adds the value of a key, which may be dotted, to a table. -/
def insertKey (t : Toml) (path : List String) (key : String) (value : Toml) : Option Toml :=
  t.update true path (addKey (!path.isEmpty) key value)

/-- Opens the table of a header in the table before its last part. -/
def openTable (key : String) (style : TableStyle) (entries : List (String × Toml)) : Option Toml :=
  match lookup key entries with
  | none => some (table style (entries ++ [(key, table .opened [])]))
  | some (table .implied inner) => some (table style (assign key (table .opened inner) entries))
  | some _ => none

/-- Opens one more table of an array of tables in the table before the last part of its header. -/
def openElement (key : String) (style : TableStyle) (entries : List (String × Toml)) :
    Option Toml :=
  match lookup key entries with
  | none => some (table style (entries ++ [(key, tables [table .opened []])]))
  | some (tables elements) =>
    some (table style (assign key (tables (elements ++ [table .opened []])) entries))
  | some _ => none

/-- Changes the value of a key of a table. -/
def mapEntry (key : String) (change : Toml → Toml) : Toml → Toml
  | table style entries =>
    table style (entries.map fun (k, value) => (k, if k == key then change value else value))
  | value => value

/-- Keeps the first items of an array. -/
def takeItems (count : Nat) : Toml → Toml
  | array items => array (items.take count)
  | value => value

mutual

/-- The same data in JSON, if every number in it has a value. A date is a record of its own. -/
def toJson? : Toml → Option Json
  | string value => some (.str value)
  | integer value => value.map Json.int
  | float inRange => if inRange then some (.number (.decimal 0 0)) else none
  | bool value => some (.bool value)
  | datetime => some (.obj [("datetime", .null)])
  | array items => (listToJson? items).map .array
  | tables elements => (listToJson? elements).map .array
  | table _ entries => (entriesToJson? entries).map .object

/-- Items in JSON. -/
def listToJson? : List Toml → Option (List Json)
  | [] => some []
  | item :: items => do
    let item ← item.toJson?
    let items ← listToJson? items
    return item :: items

/-- Entries in JSON. -/
def entriesToJson? : List (String × Toml) → Option (List (Option String × Json))
  | [] => some []
  | (key, value) :: entries => do
    let value ← value.toJson?
    let entries ← entriesToJson? entries
    return (some key, value) :: entries

end

end Toml

end BeanSynthesis
