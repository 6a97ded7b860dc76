import BeanSynthesis.Body.Basic
import BeanSynthesis.Format.Types

/-!
# Bodies in the exchange format

Expressions and statements are tagged records. A tagged record within another one stands at least
one level deeper, so the number of levels bounds the recursion.
-/

namespace BeanSynthesis

open Json (Node Fields Decoded)

/-- The operators by name. -/
def BinaryOp.names : List (String × BinaryOp) :=
  [("Eq", .eq), ("Ne", .ne), ("Or", .or), ("And", .and), ("Minus", .minus)]

/-- An operator as data. -/
def BinaryOp.toJson : BinaryOp → Json
  | eq => .str "Eq"
  | ne => .str "Ne"
  | or => .str "Or"
  | and => .str "And"
  | minus => .str "Minus"

namespace Expr

mutual

/-- An expression as data. -/
def toJson : Expr → Json
  | thisRef => .obj [("kind", .str "this")]
  | superRef => .obj [("kind", .str "super")]
  | nullLit => .obj [("kind", .str "null")]
  | boolLit value => .obj [("kind", .str "bool"), ("value", .bool value)]
  | intLit value => .obj [("kind", .str "int"), ("value", .int value)]
  | strLit value => .obj [("kind", .str "str"), ("value", .str value)]
  | ident name => .obj [("kind", .str "name"), ("name", .str name)]
  | field target name =>
    .obj [("kind", .str "field"), ("target", target.toJson), ("name", .str name)]
  | call method args =>
    .obj [("kind", .str "invoke"), ("target", .null), ("method", .str method),
      ("args", .array (listToJson args))]
  | invoke target method args =>
    .obj [("kind", .str "invoke"), ("target", target.toJson), ("method", .str method),
      ("args", .array (listToJson args))]
  | staticCall owner method args =>
    .obj [("kind", .str "static_invoke"), ("class", owner.toJson), ("method", .str method),
      ("args", .array (listToJson args))]
  | staticField owner name =>
    .obj [("kind", .str "static_ref"), ("class", owner.toJson), ("name", .str name)]
  | newObject type args =>
    .obj [("kind", .str "new"), ("ty", type.toJson), ("args", .array (listToJson args))]
  | cast type operand =>
    .obj [("kind", .str "cast"), ("ty", type.toJson), ("expr", operand.toJson)]
  | not operand => .obj [("kind", .str "not"), ("expr", operand.toJson)]
  | binary op lhs rhs =>
    .obj [("kind", .str "binary"), ("op", op.toJson), ("lhs", lhs.toJson), ("rhs", rhs.toJson)]
  | instanceOf operand type =>
    .obj [("kind", .str "instance_of"), ("expr", operand.toJson), ("ty", type.toJson)]
  | cond test yes no =>
    .obj [("kind", .str "cond"), ("cond", test.toJson), ("then", yes.toJson),
      ("otherwise", no.toJson)]

/-- Expressions as data. -/
def listToJson : List Expr → List Json
  | [] => []
  | e :: es => e.toJson :: listToJson es

end

/-- The tags of expressions, and the members that come with them. -/
def variants : List (String × List String) := [
  ("this", []), ("super", []), ("null", []), ("bool", ["value"]), ("int", ["value"]),
  ("str", ["value"]), ("name", ["name"]), ("field", ["target", "name"]),
  ("invoke", ["target", "method", "args"]), ("static_invoke", ["class", "method", "args"]),
  ("static_ref", ["class", "name"]), ("new", ["ty", "args"]), ("cast", ["ty", "expr"]),
  ("not", ["expr"]), ("binary", ["op", "lhs", "rhs"]), ("instance_of", ["expr", "ty"]),
  ("cond", ["cond", "then", "otherwise"])]

/-- Reads an expression that nests at most `levels` deep from data. -/
def ofNode (levels : Nat) (node : Node) : Decoded Expr :=
  match levels with
  | 0 => .error .tooDeep
  | levels + 1 => do
    let (tag, fields) ← node.tagged "kind" variants
    let expr (member : String) : Decoded Expr := fields.required member (ofNode levels)
    let args : Decoded (List Expr) := fields.required "args" (Node.list (ofNode levels))
    match tag with
    | "this" => return thisRef
    | "super" => return superRef
    | "null" => return nullLit
    | "bool" => return boolLit (← fields.required "value" Node.bool)
    | "int" => return intLit (← fields.required "value" Node.int64)
    | "str" => return strLit (← fields.required "value" Node.text)
    | "name" => return ident (← fields.required "name" Node.text)
    | "field" => return field (← expr "target") (← fields.required "name" Node.text)
    | "invoke" => do
      let target ← fields.nullable "target" (ofNode levels)
      let method ← fields.required "method" Node.text
      let args ← args
      match target with
      | none => return call method args
      | some target => return invoke target method args
    | "static_invoke" => do
      let owner ← fields.required "class" ClassRef.ofNode
      let method ← fields.required "method" Node.text
      return staticCall owner method (← args)
    | "static_ref" => do
      let owner ← fields.required "class" ClassRef.ofNode
      return staticField owner (← fields.required "name" Node.text)
    | "new" => do
      let type ← fields.required "ty" TypeExpr.ofNode
      return newObject type (← args)
    | "cast" => do
      let type ← fields.required "ty" TypeExpr.ofNode
      return cast type (← expr "expr")
    | "not" => return not (← expr "expr")
    | "binary" => do
      let op ← fields.required "op" (Node.choice BinaryOp.names)
      return binary op (← expr "lhs") (← expr "rhs")
    | "instance_of" => do
      let operand ← expr "expr"
      return instanceOf operand (← fields.required "ty" TypeExpr.ofNode)
    | _ => return cond (← expr "cond") (← expr "then") (← expr "otherwise")

end Expr

namespace Stmt

mutual

/-- A statement as data. -/
def toJson : Stmt → Json
  | ret value => .obj [("stmt", .str "return"), ("value", .option Expr.toJson value)]
  | expr e => .obj [("stmt", .str "expr"), ("expr", e.toJson)]
  | decl isFinal type name init =>
    .obj [("stmt", .str "decl"), ("is_final", .bool isFinal), ("ty", type.toJson),
      ("name", .str name), ("init", .option Expr.toJson init)]
  | assign target value =>
    .obj [("stmt", .str "assign"), ("target", target.toJson), ("value", value.toJson)]
  | ifThen test body =>
    .obj [("stmt", .str "if"), ("cond", test.toJson), ("then", .array (listToJson body)),
      ("otherwise", .null)]
  | ifElse test body otherwise =>
    .obj [("stmt", .str "if"), ("cond", test.toJson), ("then", .array (listToJson body)),
      ("otherwise", .array (listToJson otherwise))]
  | forEach type name iterable body =>
    .obj [("stmt", .str "for_each"), ("ty", type.toJson), ("var", .str name),
      ("iterable", iterable.toJson), ("body", .array (listToJson body))]

/-- Statements as data. -/
def listToJson : List Stmt → List Json
  | [] => []
  | s :: rest => s.toJson :: listToJson rest

end

/-- The tags of statements, and the members that come with them. -/
def variants : List (String × List String) := [
  ("return", ["value"]), ("expr", ["expr"]), ("decl", ["is_final", "ty", "name", "init"]),
  ("assign", ["target", "value"]), ("if", ["cond", "then", "otherwise"]),
  ("for_each", ["ty", "var", "iterable", "body"])]

/-- Reads a statement that nests at most `levels` deep from data. -/
def ofNode (levels : Nat) (node : Node) : Decoded Stmt :=
  match levels with
  | 0 => .error .tooDeep
  | levels + 1 => do
    let (tag, fields) ← node.tagged "stmt" variants
    let expr (member : String) : Decoded Expr := fields.required member (Expr.ofNode levels)
    match tag with
    | "return" => return ret (← fields.nullable "value" (Expr.ofNode levels))
    | "expr" => return Stmt.expr (← expr "expr")
    | "decl" => do
      let isFinal ← fields.required "is_final" Node.bool
      let type ← fields.required "ty" TypeExpr.ofNode
      let name ← fields.required "name" Node.text
      return decl isFinal type name (← fields.nullable "init" (Expr.ofNode levels))
    | "assign" => return assign (← expr "target") (← expr "value")
    | "if" => do
      let test ← expr "cond"
      let body ← fields.required "then" (Node.list (ofNode levels))
      match ← fields.nullable "otherwise" (Node.list (ofNode levels)) with
      | none => return ifThen test body
      | some otherwise => return ifElse test body otherwise
    | _ => do
      let type ← fields.required "ty" TypeExpr.ofNode
      let name ← fields.required "var" Node.text
      let iterable ← expr "iterable"
      return forEach type name iterable (← fields.required "body" (Node.list (ofNode levels)))

end Stmt

namespace Block

/-- A block as data. -/
def toJson (b : Block) : Json := .array (Stmt.listToJson b)

/-- Reads a block from data. -/
def ofNode (node : Node) : Decoded Block := node.list (Stmt.ofNode Json.nestingLimit)

end Block

end BeanSynthesis
