import BeanSynthesis.Source.Render

/-!
# Source piece by piece

Java text is a sequence of pieces: texts that stand as they are, and class names that are spelled as
a table has them. The pieces do not depend on a table, so they say which names are spelled, and
where. Put together with the spellings of a table they are what is written.
-/

namespace BeanSynthesis

namespace Source

/-- A piece of source. -/
inductive Piece where
  | text (content : String)
  /-- A class, by its name in full. -/
  | name (className : String)

/-- The source of a piece, where `spell` writes the class names. -/
def Piece.source (spell : String → String) : Piece → String
  | .text content => content
  | .name className => spell className

/-- The class that a piece names. -/
def Piece.name? : Piece → Option String
  | .name className => some className
  | .text _ => none

/-- The source that pieces make up. -/
def sourceOf (spell : String → String) (pieces : List Piece) : String :=
  String.join (pieces.map (Piece.source spell))

/-- The class names that are spelled in pieces. -/
def spelledNames (pieces : List Piece) : List String := pieces.filterMap Piece.name?

section

variable {spell : String → String} {pieces : List Piece}

@[simp] private theorem sourceOf_nil : sourceOf spell [] = "" := rfl

/-- A piece of text is itself. -/
@[simp] theorem sourceOf_text {content : String} :
    sourceOf spell (.text content :: pieces) = content ++ sourceOf spell pieces :=
  String.join_cons

/-- A piece for a name is the spelled name. -/
@[simp] theorem sourceOf_name {className : String} :
    sourceOf spell (.name className :: pieces) = spell className ++ sourceOf spell pieces :=
  String.join_cons

/-- Pieces are written one after the other. -/
@[simp] theorem sourceOf_append {more : List Piece} :
    sourceOf spell (pieces ++ more) = sourceOf spell pieces ++ sourceOf spell more := by
  simp [sourceOf, String.join_append]

/-- Pieces for the entries of a list are written one after the other. -/
@[simp] theorem sourceOf_flatMap {α : Type} {xs : List α} {f : α → List Piece} :
    sourceOf spell (xs.flatMap f) = String.join (xs.map fun x => sourceOf spell (f x)) := by
  induction xs with
  | nil => rfl
  | cons x xs ih => simp [ih, String.join_cons]

/-- No pieces spell no names. -/
@[simp] theorem spelledNames_nil : spelledNames [] = [] := rfl

/-- A piece of text spells no name. -/
@[simp] theorem spelledNames_text {content : String} :
    spelledNames (.text content :: pieces) = spelledNames pieces := rfl

@[simp] private theorem spelledNames_name {className : String} :
    spelledNames (.name className :: pieces) = className :: spelledNames pieces := rfl

/-- The names of pieces are those of their parts. -/
@[simp] theorem spelledNames_append {more : List Piece} :
    spelledNames (pieces ++ more) = spelledNames pieces ++ spelledNames more :=
  List.filterMap_append

/-- The names of pieces for the entries of a list are those for each entry. -/
@[simp] theorem spelledNames_flatMap {α : Type} {xs : List α} {f : α → List Piece} :
    spelledNames (xs.flatMap f) = xs.flatMap fun x => spelledNames (f x) := by
  induction xs with
  | nil => rfl
  | cons x xs ih => simp [ih]

end

/-! ## Lines and lists -/

/-- Pieces on a line of their own. -/
def onLine (depth : Nat) (pieces : List Piece) : List Piece :=
  .text (indent depth) :: pieces ++ [.text "\n"]

/-- Pieces with commas between them. -/
def commaPieces : List (List Piece) → List Piece
  | [] => []
  | [pieces] => pieces
  | pieces :: next :: rest => pieces ++ .text ", " :: commaPieces (next :: rest)

/-- Puts the pieces of `e` in parentheses if its level ranks below `least`. -/
def enclosedPieces (e : Expr) (least : Nat) (pieces : List Piece) : List Piece :=
  if (level e).rank < least then .text "(" :: pieces ++ [.text ")"] else pieces

section

variable {spell : String → String}

/-- Pieces on a line are written on a line. -/
@[simp] theorem sourceOf_onLine {depth : Nat} {pieces : List Piece} :
    sourceOf spell (onLine depth pieces) = line depth (sourceOf spell pieces) := by
  simp [onLine, line, String.append_assoc]

/-- Pieces with commas between them are written with commas between them. -/
@[simp] theorem sourceOf_commaPieces {lists : List (List Piece)} :
    sourceOf spell (commaPieces lists) = ", ".intercalate (lists.map (sourceOf spell)) := by
  induction lists using commaPieces.induct with
  | case1 => rfl
  | case2 pieces => simp [commaPieces]
  | case3 pieces next rest ih =>
    simp [commaPieces, ih, String.intercalate_cons_cons, String.append_assoc]

@[simp] private theorem sourceOf_enclosedPieces {e : Expr} {least : Nat} {pieces : List Piece} :
    sourceOf spell (enclosedPieces e least pieces) =
      parenthesized e least (sourceOf spell pieces) := by
  unfold enclosedPieces parenthesized
  split
  · simp [String.append_assoc]
  · rfl

/-- A line spells the names of its pieces. -/
@[simp] theorem spelledNames_onLine {depth : Nat} {pieces : List Piece} :
    spelledNames (onLine depth pieces) = spelledNames pieces := by
  simp [onLine]

/-- Commas spell no names. -/
@[simp] theorem spelledNames_commaPieces {lists : List (List Piece)} :
    spelledNames (commaPieces lists) = lists.flatMap spelledNames := by
  induction lists using commaPieces.induct with
  | case1 => rfl
  | case2 pieces => simp [commaPieces]
  | case3 pieces next rest ih => simp [commaPieces, ih]

/-- Parentheses spell no names. -/
@[simp] theorem spelledNames_enclosedPieces {e : Expr} {least : Nat} {pieces : List Piece} :
    spelledNames (enclosedPieces e least pieces) = spelledNames pieces := by
  unfold enclosedPieces
  split
  · simp
  · rfl

end

end Source

open Source

/-! ## Types and expressions -/

mutual

/-- The pieces of a type. -/
def TypeExpr.pieces : TypeExpr → List Piece
  | .void => [.text "void"]
  | .primitive p => [.text p.keyword]
  | .named name [] => [.name name]
  | .named name (arg :: args) =>
    .name name :: .text "<" :: arg.pieces ++ TypeExpr.restPieces args ++ [.text ">"]
  | .array element => element.pieces ++ [.text "[]"]
  | .unbounded => [.text "?"]
  | .bounded bound => .text "? extends " :: bound.pieces

/-- The pieces of the type arguments after the first. -/
def TypeExpr.restPieces : List TypeExpr → List Piece
  | [] => []
  | arg :: args => .text ", " :: arg.pieces ++ TypeExpr.restPieces args

end

mutual

/-- The pieces of an expression. -/
def Expr.pieces : Expr → List Piece
  | .thisRef => [.text "this"]
  | .superRef => [.text "super"]
  | .nullLit => [.text "null"]
  | .boolLit value => [.text (boolLiteral value)]
  | .intLit value => [.text (intLiteral value)]
  | .strLit value => [.text (stringLiteral value)]
  | .ident name => [.text name]
  | .field target name =>
    enclosedPieces target Level.primary.rank target.pieces ++ [.text ("." ++ name)]
  | .call method args => .text (method ++ "(") :: Expr.argPieces args ++ [.text ")"]
  | .invoke target method args =>
    enclosedPieces target Level.primary.rank target.pieces ++
      .text ("." ++ method ++ "(") :: Expr.argPieces args ++ [.text ")"]
  | .staticCall owner method args =>
    .name owner.name :: .text ("." ++ method ++ "(") :: Expr.argPieces args ++ [.text ")"]
  | .staticField owner name => [.name owner.name, .text ("." ++ name)]
  | .newObject type args =>
    .text "new " :: type.pieces ++ .text "(" :: Expr.argPieces args ++ [.text ")"]
  | .cast type operand =>
    .text "(" :: type.pieces ++ .text ") " ::
      enclosedPieces operand Level.unary.rank operand.pieces
  | .not operand => .text "!" :: enclosedPieces operand Level.unary.rank operand.pieces
  | .binary op lhs rhs =>
    enclosedPieces lhs (opLevel op).rank lhs.pieces ++ .text (" " ++ op.symbol ++ " ") ::
      enclosedPieces rhs ((opLevel op).rank + 1) rhs.pieces
  | .instanceOf operand type =>
    enclosedPieces operand Level.relation.rank operand.pieces ++
      .text " instanceof " :: type.pieces
  | .cond test yes no =>
    enclosedPieces test (Level.cond.rank + 1) test.pieces ++ .text " ? " ::
      enclosedPieces yes (Level.cond.rank + 1) yes.pieces ++ .text " : " ::
      enclosedPieces no Level.cond.rank no.pieces

/-- The pieces of arguments, without the parentheses around them. -/
def Expr.argPieces : List Expr → List Piece
  | [] => []
  | arg :: args => arg.pieces ++ Expr.argRestPieces args

/-- The pieces of the arguments after the first. -/
def Expr.argRestPieces : List Expr → List Piece
  | [] => []
  | arg :: args => .text ", " :: arg.pieces ++ Expr.argRestPieces args

end

mutual

/-- The pieces of a type make up its text. -/
theorem TypeExpr.sourceOf_pieces (spell : String → String) :
    ∀ t : TypeExpr, sourceOf spell t.pieces = t.render spell
  | .void => by simp [TypeExpr.pieces, TypeExpr.render]
  | .primitive p => by simp [TypeExpr.pieces, TypeExpr.render]
  | .named name [] => by simp [TypeExpr.pieces, TypeExpr.render]
  | .named name (arg :: args) => by
    simp [TypeExpr.pieces, TypeExpr.render, sourceOf_pieces spell arg,
      sourceOf_restPieces spell args, String.append_assoc]
  | .array element => by
    simp [TypeExpr.pieces, TypeExpr.render, sourceOf_pieces spell element]
  | .unbounded => by simp [TypeExpr.pieces, TypeExpr.render]
  | .bounded bound => by
    simp [TypeExpr.pieces, TypeExpr.render, sourceOf_pieces spell bound]

private theorem TypeExpr.sourceOf_restPieces (spell : String → String) :
    ∀ ts : List TypeExpr, sourceOf spell (TypeExpr.restPieces ts) = TypeExpr.renderRest spell ts
  | [] => rfl
  | t :: ts => by
    simp [TypeExpr.restPieces, TypeExpr.renderRest, sourceOf_pieces spell t,
      sourceOf_restPieces spell ts, String.append_assoc]

end

mutual

/-- The pieces of an expression make up its text. -/
theorem Expr.sourceOf_pieces (table : NameTable) :
    ∀ e : Expr, sourceOf table.spell e.pieces = table.expr e
  | .thisRef | .superRef | .nullLit | .boolLit _ | .intLit _ | .strLit _ | .ident _ => by
    simp [Expr.pieces, NameTable.expr]
  | .field target name => by
    simp [Expr.pieces, NameTable.expr, sourceOf_pieces table target, String.append_assoc]
  | .call method args => by
    simp [Expr.pieces, NameTable.expr, sourceOf_argPieces table args, String.append_assoc]
  | .invoke target method args => by
    simp [Expr.pieces, NameTable.expr, sourceOf_pieces table target, sourceOf_argPieces table args,
      String.append_assoc]
  | .staticCall owner method args => by
    simp [Expr.pieces, NameTable.expr, sourceOf_argPieces table args, String.append_assoc]
  | .staticField owner name => by
    simp [Expr.pieces, NameTable.expr, String.append_assoc]
  | .newObject type args => by
    simp [Expr.pieces, NameTable.expr, NameTable.type, TypeExpr.sourceOf_pieces,
      sourceOf_argPieces table args, String.append_assoc]
  | .cast type operand => by
    simp [Expr.pieces, NameTable.expr, NameTable.type, TypeExpr.sourceOf_pieces,
      sourceOf_pieces table operand, String.append_assoc]
  | .not operand => by simp [Expr.pieces, NameTable.expr, sourceOf_pieces table operand]
  | .binary op lhs rhs => by
    simp [Expr.pieces, NameTable.expr, sourceOf_pieces table lhs, sourceOf_pieces table rhs,
      String.append_assoc]
  | .instanceOf operand type => by
    simp [Expr.pieces, NameTable.expr, NameTable.type, TypeExpr.sourceOf_pieces,
      sourceOf_pieces table operand, String.append_assoc]
  | .cond test yes no => by
    simp [Expr.pieces, NameTable.expr, sourceOf_pieces table test, sourceOf_pieces table yes,
      sourceOf_pieces table no, String.append_assoc]

private theorem Expr.sourceOf_argPieces (table : NameTable) :
    ∀ es : List Expr, sourceOf table.spell (Expr.argPieces es) = table.argList es
  | [] => rfl
  | e :: es => by
    simp [Expr.argPieces, NameTable.argList, sourceOf_pieces table e,
      sourceOf_argRestPieces table es]

private theorem Expr.sourceOf_argRestPieces (table : NameTable) :
    ∀ es : List Expr, sourceOf table.spell (Expr.argRestPieces es) = table.argRest es
  | [] => rfl
  | e :: es => by
    simp [Expr.argRestPieces, NameTable.argRest, sourceOf_pieces table e,
      sourceOf_argRestPieces table es, String.append_assoc]

end

end BeanSynthesis
