import BeanSynthesis.Format.Body
import BeanSynthesis.Member

/-!
# Members in the exchange format
-/

namespace BeanSynthesis

open Json (Node Fields Decoded)

/-- A pair of texts as data. -/
def Json.textPair (pair : String × String) : Json := .array [.str pair.1, .str pair.2]

namespace Origin

/-- An origin as data. -/
def toJson : Origin → Json
  | schema => .str "schema"
  | synthesized option => .obj [("synthesized", .str option)]

/-- Reads an origin from data. -/
def ofNode (node : Node) : Decoded Origin := do
  match ← node.variant with
  | ("schema", content) => do
    Node.noContent content
    return schema
  | ("synthesized", some content) => return synthesized (← content.text)
  | _ => .error .unknownVariant

end Origin

namespace Modifiers

/-- Modifiers as data. -/
def toJson (m : Modifiers) : Json :=
  .obj [("is_abstract", .bool m.isAbstract), ("is_static", .bool m.isStatic),
    ("is_private", .bool m.isPrivate)]

/-- Reads modifiers from data. -/
def ofNode (node : Node) : Decoded Modifiers := do
  let fields ← node.record ["is_abstract", "is_static", "is_private"]
  return {
    isAbstract := ← fields.withDefault "is_abstract" false Node.bool
    isStatic := ← fields.withDefault "is_static" false Node.bool
    isPrivate := ← fields.withDefault "is_private" false Node.bool }

end Modifiers

namespace AnnotationValue

/-- A parameter value as data. -/
def toJson : AnnotationValue → Json
  | bool value => .bool value
  | int value => .int value
  | str value => .str value

/-- Reads a parameter value from data: whichever of the three kinds it is. -/
def ofNode (node : Node) : Decoded AnnotationValue := do
  let node ← node.takeWhole
  match node.value with
  | .bool value => return bool value
  | .number _ => return int (← node.int64)
  | _ => return str (← node.text)

end AnnotationValue

namespace Annotation

/-- An annotation as data. -/
def toJson (a : Annotation) : Json :=
  .obj [("class", a.type.toJson),
    ("params", .array (a.params.map fun (name, value) => .array [.str name, value.toJson]))]

/-- Reads an annotation from data. -/
def ofNode (node : Node) : Decoded Annotation := do
  let fields ← node.record ["class", "params"]
  return {
    type := ← fields.required "class" ClassRef.ofNode
    params := ← fields.withDefault "params" [] (Node.list (Node.pair AnnotationValue.ofNode)) }

/-- Annotations as data. -/
def listToJson (annotations : List Annotation) : Json := .array (annotations.map toJson)

/-- Reads the annotations of a record, of which there may be none. -/
def listOfFields (fields : Fields) : Decoded (List Annotation) :=
  fields.withDefault "annotations" [] (Node.list ofNode)

end Annotation

namespace Javadoc

/-- Documentation as data. -/
def toJson (doc : Javadoc) : Json :=
  .obj [("lines", .strs doc.lines), ("params", .array (doc.params.map Json.textPair)),
    ("returns", .option .str doc.returns), ("throws", .array (doc.throws.map Json.textPair))]

/-- Reads documentation from data. -/
def ofNode (node : Node) : Decoded Javadoc := do
  let fields ← node.record ["lines", "params", "returns", "throws"]
  return {
    lines := ← fields.withDefault "lines" [] (Node.list Node.text)
    params := ← fields.withDefault "params" [] (Node.list (Node.pair Node.text))
    returns := ← fields.optional "returns" Node.text
    throws := ← fields.withDefault "throws" [] (Node.list (Node.pair Node.text)) }

end Javadoc

namespace Param

/-- A parameter as data. -/
def toJson (p : Param) : Json :=
  .obj [("name", .str p.name), ("ty", p.type.toJson), ("is_final", .bool p.isFinal),
    ("annotations", Annotation.listToJson p.annotations)]

/-- Reads a parameter from data. -/
def ofNode (node : Node) : Decoded Param := do
  let fields ← node.record ["name", "ty", "is_final", "annotations"]
  return {
    name := ← fields.required "name" Node.text
    type := ← fields.required "ty" TypeExpr.ofNode
    isFinal := ← fields.withDefault "is_final" false Node.bool
    annotations := ← Annotation.listOfFields fields }

end Param

namespace Method

/-- A method as data. -/
def toJson (m : Method) : Json :=
  .obj [("name", .str m.name), ("return_type", m.returnType.toJson),
    ("params", .array (m.params.map Param.toJson)), ("modifiers", m.modifiers.toJson),
    ("annotations", Annotation.listToJson m.annotations),
    ("throws", .array (m.throws.map ClassRef.toJson)), ("javadoc", m.javadoc.toJson),
    ("body", .option Block.toJson m.body), ("origin", m.origin.toJson)]

/-- Reads a method from data. -/
def ofNode (node : Node) : Decoded Method := do
  let fields ← node.record ["name", "return_type", "params", "modifiers", "annotations", "throws",
    "javadoc", "body", "origin"]
  return {
    name := ← fields.required "name" Node.text
    returnType := ← fields.required "return_type" TypeExpr.ofNode
    params := ← fields.withDefault "params" [] (Node.list Param.ofNode)
    modifiers := ← fields.withDefault "modifiers" {} Modifiers.ofNode
    annotations := ← Annotation.listOfFields fields
    throws := ← fields.withDefault "throws" [] (Node.list ClassRef.ofNode)
    javadoc := ← fields.withDefault "javadoc" {} Javadoc.ofNode
    body := ← fields.optional "body" Block.ofNode
    origin := ← fields.withDefault "origin" .schema Origin.ofNode }

end Method

namespace Constructor

/-- A constructor as data. -/
def toJson (c : Constructor) : Json :=
  .obj [("params", .array (c.params.map Param.toJson)), ("javadoc", c.javadoc.toJson),
    ("body", Block.toJson c.body), ("origin", c.origin.toJson)]

/-- Reads a constructor from data. -/
def ofNode (node : Node) : Decoded Constructor := do
  let fields ← node.record ["params", "javadoc", "body", "origin"]
  return {
    params := ← fields.withDefault "params" [] (Node.list Param.ofNode)
    javadoc := ← fields.withDefault "javadoc" {} Javadoc.ofNode
    body := ← fields.withDefault "body" [] Block.ofNode
    origin := ← fields.withDefault "origin" .schema Origin.ofNode }

end Constructor

end BeanSynthesis
