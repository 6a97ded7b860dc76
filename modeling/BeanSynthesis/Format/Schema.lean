import BeanSynthesis.Format.Types
import BeanSynthesis.Schema

/-!
# Schema properties in the exchange format

The kind of a property is a tag in the record of the property itself, and the members of the kind
stand beside its names. So the record has to be an object, and all its members but the two names
are taken in whole.
-/

namespace BeanSynthesis

open Json (Node Fields Decoded)

namespace MaxOccurs

/-- An upper bound as data. -/
def toJson : MaxOccurs → Json
  | one => .str "one"
  | bounded count => .obj [("bounded", .nat count)]
  | unbounded => .str "unbounded"

/-- Reads an upper bound from data. -/
def ofNode (node : Node) : Decoded MaxOccurs := do
  match ← node.variant with
  | ("one", content) => do
    Node.noContent content
    return one
  | ("unbounded", content) => do
    Node.noContent content
    return unbounded
  | ("bounded", some content) => return bounded (← content.nat32)
  | _ => .error .unknownVariant

end MaxOccurs

namespace SimpleType

/-- A simple type as data. -/
def toJson (t : SimpleType) : Json :=
  .obj [("name", .option .str t.name), ("facets", t.facets.toJson .str)]

/-- Reads a simple type from data. -/
def ofNode (node : Node) : Decoded SimpleType := do
  let fields ← node.record ["name", "facets"]
  return {
    name := ← fields.optional "name" Node.text
    facets := ← fields.withDefault "facets" ∅ (Node.dict Node.text) }

end SimpleType

namespace ParticleTerm

/-- A term as data. -/
def toJson : ParticleTerm → Json
  | element simpleType =>
    .obj [("term", .str "element"), ("simple_type", .option SimpleType.toJson simpleType)]
  | modelGroup => .obj [("term", .str "model_group")]
  | unsupported description =>
    .obj [("term", .str "unsupported"), ("description", .str description)]

/-- The tags of terms, and the members that come with them. -/
def variants : List (String × List String) :=
  [("element", ["simple_type"]), ("model_group", []), ("unsupported", ["description"])]

/-- Reads a term from data. -/
def ofNode (node : Node) : Decoded ParticleTerm := do
  let (tag, fields) ← node.tagged "term" variants
  match tag with
  | "element" => return element (← fields.optional "simple_type" SimpleType.ofNode)
  | "model_group" => return modelGroup
  | _ => return unsupported (← fields.required "description" Node.text)

end ParticleTerm

namespace PropertyKind

/-- The members of a kind, its tag first. -/
def members : PropertyKind → List (String × Json)
  | element minOccurs maxOccurs required term =>
    [("kind", .str "element"), ("min_occurs", .nat minOccurs), ("max_occurs", maxOccurs.toJson),
      ("required", .bool required), ("term", term.toJson)]
  | attr required simpleType =>
    [("kind", .str "attribute"), ("required", .bool required),
      ("simple_type", .option SimpleType.toJson simpleType)]
  | value simpleType =>
    [("kind", .str "value"), ("simple_type", .option SimpleType.toJson simpleType)]
  | reference => [("kind", .str "reference")]

/-- The tags of kinds. -/
def tags : List String := ["element", "attribute", "value", "reference"]

/-- Reads a kind from the members of a property, which have been taken in whole. -/
def ofFields (fields : Fields) : Decoded PropertyKind := do
  match ← fields.required "kind" (Node.tag tags true) with
  | "element" => do
    let minOccurs ← fields.withDefault "min_occurs" 1 Node.nat32
    let maxOccurs ← fields.withDefault "max_occurs" .one MaxOccurs.ofNode
    let required ← fields.withDefault "required" false Node.bool
    return element minOccurs maxOccurs required (← fields.required "term" ParticleTerm.ofNode)
  | "attribute" => do
    let required ← fields.withDefault "required" false Node.bool
    return attr required (← fields.optional "simple_type" SimpleType.ofNode)
  | "value" => return value (← fields.optional "simple_type" SimpleType.ofNode)
  | _ => return reference

end PropertyKind

namespace Property

/-- A property as data. -/
def toJson (p : Property) : Json :=
  .obj ([("name", .str p.name), ("public_name", .str p.publicName)] ++ p.kind.members)

/-- Reads a property from data. -/
def ofNode (node : Node) : Decoded Property := do
  let fields ← node.fields
  let name ← fields.required "name" Node.text
  let publicName ← fields.required "public_name" Node.text
  let others ← (fields.members.filter fun (member, _) =>
    member != "name" && member != "public_name").mapM fun (member, content) =>
      return (member, ← content.takeWhole)
  return { name, publicName, kind := ← PropertyKind.ofFields ⟨others, false⟩ }

end Property

end BeanSynthesis
