import BeanSynthesis.Json.Decode
import BeanSynthesis.TypeExpr.Printer
import BeanSynthesis.TypeExpr.Reader

/-!
# Types in the exchange format

A type is one string, written as types are written.
-/

namespace BeanSynthesis

namespace TypeExpr

/-- A type as data. -/
def toJson (t : TypeExpr) : Json := .str t.toText

/-- Reads a type from data. -/
def ofNode (node : Json.Node) : Json.Decoded TypeExpr := do
  match parse (← node.text) with
  | .ok t => return t
  | .error e => .error (.badType e.message)

end TypeExpr

namespace ClassRef

/-- A class reference as data. -/
def toJson (c : ClassRef) : Json := .str c.toText

/-- Reads a class reference from data. -/
def ofNode (node : Json.Node) : Json.Decoded ClassRef := do
  match parse (← node.text) with
  | .ok c => return c
  | .error e => .error (.badType e.message)

end ClassRef

/-- A dictionary as data, in the order of its names. -/
def Dict.toJson {α : Type} (encode : α → Json) (d : Dict α) : Json :=
  .obj (d.entries.map fun (name, value) => (name, encode value))

end BeanSynthesis
