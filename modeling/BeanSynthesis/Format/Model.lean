import BeanSynthesis.Format.Member
import BeanSynthesis.Format.Schema
import BeanSynthesis.Json.Printer
import BeanSynthesis.Json.Reader
import BeanSynthesis.Model.Inheritance

/-!
# Models in the exchange format

Models are exchanged as JSON. All members are written; a missing one has the default that is
written for it. A model that is loaded is also checked for well-formed inheritance.
-/

namespace BeanSynthesis

open Json (Node Fields Decoded)

namespace Visibility

/-- The visibilities by name. -/
def names : List (String × Visibility) := [("private", priv), ("protected", prot), ("public", publ)]

/-- A visibility as data. -/
def toJson (v : Visibility) : Json := .str v.keyword

/-- Reads a visibility from data. -/
def ofNode (node : Node) : Decoded Visibility := node.choice names

end Visibility

namespace Field

/-- A field as data. -/
def toJson (f : Field) : Json :=
  .obj [("name", .str f.name), ("ty", f.type.toJson), ("is_static", .bool f.isStatic),
    ("visibility", f.visibility.toJson), ("annotations", Annotation.listToJson f.annotations)]

/-- Reads a field from data. -/
def ofNode (node : Node) : Decoded Field := do
  let fields ← node.record ["name", "ty", "is_static", "visibility", "annotations"]
  return {
    name := ← fields.required "name" Node.text
    type := ← fields.required "ty" TypeExpr.ofNode
    isStatic := ← fields.withDefault "is_static" false Node.bool
    visibility := ← fields.withDefault "visibility" .prot Visibility.ofNode
    annotations := ← Annotation.listOfFields fields }

end Field

namespace ClassKind

/-- A kind of class as data. -/
def toJson : ClassKind → Json
  | plain => .str "class"
  | enumeration => .str "enum"

/-- Reads a kind of class from data. -/
def ofNode (node : Node) : Decoded ClassKind :=
  node.choice [("class", plain), ("enum", enumeration)]

end ClassKind

namespace BeanClass

/-- A class as data. -/
def toJson (c : BeanClass) : Json :=
  .obj [("name", .str c.name), ("kind", c.kind.toJson),
    ("parent", .option ClassRef.toJson c.parent),
    ("is_abstract", .bool c.isAbstract), ("interfaces", .array (c.interfaces.map ClassRef.toJson)),
    ("annotations", Annotation.listToJson c.annotations),
    ("fields", .array (c.fields.map Field.toJson)),
    ("properties", .array (c.properties.map Property.toJson)),
    ("constructors", .array (c.constructors.map Constructor.toJson)),
    ("methods", .array (c.methods.map Method.toJson)), ("javadoc", .strs c.javadoc),
    ("constants", .strs c.constants)]

/-- Reads a class from data. -/
def ofNode (node : Node) : Decoded BeanClass := do
  let fields ← node.record ["name", "kind", "parent", "is_abstract", "interfaces", "annotations",
    "fields", "properties", "constructors", "methods", "javadoc", "constants"]
  return {
    name := ← fields.required "name" Node.text
    kind := ← fields.withDefault "kind" .plain ClassKind.ofNode
    parent := ← fields.optional "parent" ClassRef.ofNode
    isAbstract := ← fields.withDefault "is_abstract" false Node.bool
    interfaces := ← fields.withDefault "interfaces" [] (Node.list ClassRef.ofNode)
    annotations := ← Annotation.listOfFields fields
    fields := ← fields.withDefault "fields" [] (Node.list Field.ofNode)
    properties := ← fields.withDefault "properties" [] (Node.list Property.ofNode)
    constructors := ← fields.withDefault "constructors" [] (Node.list Constructor.ofNode)
    methods := ← fields.withDefault "methods" [] (Node.list Method.ofNode)
    javadoc := ← fields.withDefault "javadoc" [] (Node.list Node.text)
    constants := ← fields.withDefault "constants" [] (Node.list Node.text) }

end BeanClass

namespace Package

/-- A package as data. -/
def toJson (p : Package) : Json :=
  .obj [("name", .str p.name), ("annotations", Annotation.listToJson p.annotations),
    ("javadoc", .strs p.javadoc)]

/-- Reads a package from data. -/
def ofNode (node : Node) : Decoded Package := do
  let fields ← node.record ["name", "annotations", "javadoc"]
  return {
    name := ← fields.required "name" Node.text
    annotations := ← Annotation.listOfFields fields
    javadoc := ← fields.withDefault "javadoc" [] (Node.list Node.text) }

end Package

namespace ExternalClass

/-- An external class as data. -/
def toJson (c : ExternalClass) : Json :=
  .obj [("name", .str c.name), ("is_enum", .bool c.isEnum), ("is_number", .bool c.isNumber),
    ("superclass", .option .str c.superclass), ("fields", c.fields.toJson TypeExpr.toJson)]

/-- Reads an external class from data. -/
def ofNode (node : Node) : Decoded ExternalClass := do
  let fields ← node.record ["name", "is_enum", "is_number", "superclass", "fields"]
  return {
    name := ← fields.required "name" Node.text
    isEnum := ← fields.withDefault "is_enum" false Node.bool
    isNumber := ← fields.withDefault "is_number" false Node.bool
    superclass := ← fields.optional "superclass" Node.text
    fields := ← fields.withDefault "fields" ∅ (Node.dict TypeExpr.ofNode) }

end ExternalClass

namespace CodeModel

/-- A model as data. -/
def toJson (m : CodeModel) : Json :=
  .obj [("classes", .array (m.classes.map BeanClass.toJson)),
    ("object_factories", .array (m.objectFactories.map BeanClass.toJson)),
    ("packages", .array (m.packages.map Package.toJson)),
    ("external", m.external.toJson ExternalClass.toJson)]

/-- Reads a model from data. -/
def ofNode (node : Node) : Decoded CodeModel := do
  let fields ← node.record ["classes", "object_factories", "packages", "external"]
  return {
    classes := ← fields.withDefault "classes" [] (Node.list BeanClass.ofNode)
    objectFactories := ← fields.withDefault "object_factories" [] (Node.list BeanClass.ofNode)
    packages := ← fields.withDefault "packages" [] (Node.list Package.ofNode)
    external := ← fields.withDefault "external" ∅ (Node.dict ExternalClass.ofNode) }

/-- Reads a model from data and checks its inheritance. -/
def load (node : Node) : Except ModelError CodeModel := do
  match ofNode node with
  | .error misfit => .error (.json misfit.message)
  | .ok model => do
    model.validate
    return model

/-- Reads a model from a text. -/
def ofText (text : String) : Except ModelError CodeModel :=
  match Json.parse? text with
  | none => .error (.json Json.Misfit.malformed.message)
  | some value => load (.ofJson value)

/-- The text of a model. -/
def toText (m : CodeModel) : String := m.toJson.pretty

end CodeModel

end BeanSynthesis
