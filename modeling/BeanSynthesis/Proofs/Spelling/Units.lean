import BeanSynthesis.Proofs.Spelling.Pieces
import BeanSynthesis.Proofs.Spelling.Table

/-!
# Compilation units piece by piece

The pieces of statements and members, and the segments of compilation units: runs of pieces, and
documentation comments between them. What is written for a class is what its segments make up with
the spellings of its table, and a package is written with all names in full.
-/

namespace BeanSynthesis

open Source

/-! ## Statements -/

mutual

/-- The pieces of a statement at a nesting depth. -/
def Stmt.pieces (depth : Nat) : Stmt → List Piece
  | .ret (some value) => onLine depth (.text "return " :: value.pieces ++ [.text ";"])
  | .ret none => onLine depth [.text "return;"]
  | .expr e => onLine depth (e.pieces ++ [.text ";"])
  | .decl isFinal type name none =>
    onLine depth (.text (if isFinal then "final " else "") :: type.pieces ++
      [.text (" " ++ name), .text ";"])
  | .decl isFinal type name (some init) =>
    onLine depth (.text (if isFinal then "final " else "") :: type.pieces ++
      .text (" " ++ name) :: .text " = " :: init.pieces ++ [.text ";"])
  | .assign target value =>
    onLine depth (target.pieces ++ .text " = " :: value.pieces ++ [.text ";"])
  | .ifThen test body =>
    onLine depth (.text "if (" :: test.pieces ++ [.text ") \x7b"]) ++
      Stmt.blockPieces (depth + 1) body ++ onLine depth [.text "\x7d"]
  | .ifElse test body otherwise =>
    onLine depth (.text "if (" :: test.pieces ++ [.text ") \x7b"]) ++
      Stmt.blockPieces (depth + 1) body ++ onLine depth [.text "\x7d else \x7b"] ++
      Stmt.blockPieces (depth + 1) otherwise ++ onLine depth [.text "\x7d"]
  | .forEach type name iterable body =>
    onLine depth (.text "for (final " :: type.pieces ++ .text (" " ++ name ++ " : ") ::
      iterable.pieces ++ [.text ") \x7b"]) ++ Stmt.blockPieces (depth + 1) body ++
      onLine depth [.text "\x7d"]

/-- The pieces of a block. -/
def Stmt.blockPieces (depth : Nat) : List Stmt → List Piece
  | [] => []
  | s :: rest => Stmt.pieces depth s ++ Stmt.blockPieces depth rest

end

mutual

/-- The pieces of a statement make up its lines. -/
theorem Stmt.sourceOf_pieces (table : NameTable) :
    ∀ (depth : Nat) (s : Stmt), sourceOf table.spell (s.pieces depth) = table.stmt depth s
  | depth, .ret (some value) => by
    simp [Stmt.pieces, NameTable.stmt, Expr.sourceOf_pieces, String.append_assoc]
  | depth, .ret none => by simp [Stmt.pieces, NameTable.stmt]
  | depth, .expr e => by simp [Stmt.pieces, NameTable.stmt, Expr.sourceOf_pieces]
  | depth, .decl isFinal type name none => by
    simp [Stmt.pieces, NameTable.stmt, NameTable.type, TypeExpr.sourceOf_pieces,
      String.append_assoc]
  | depth, .decl isFinal type name (some init) => by
    simp [Stmt.pieces, NameTable.stmt, NameTable.type, TypeExpr.sourceOf_pieces,
      Expr.sourceOf_pieces, String.append_assoc]
  | depth, .assign target value => by
    simp [Stmt.pieces, NameTable.stmt, Expr.sourceOf_pieces, String.append_assoc]
  | depth, .ifThen test body => by
    simp [Stmt.pieces, NameTable.stmt, Expr.sourceOf_pieces,
      sourceOf_blockPieces table (depth + 1) body, String.append_assoc]
  | depth, .ifElse test body otherwise => by
    simp [Stmt.pieces, NameTable.stmt, Expr.sourceOf_pieces,
      sourceOf_blockPieces table (depth + 1) body,
      sourceOf_blockPieces table (depth + 1) otherwise, String.append_assoc]
  | depth, .forEach type name iterable body => by
    simp [Stmt.pieces, NameTable.stmt, NameTable.type, TypeExpr.sourceOf_pieces,
      Expr.sourceOf_pieces, sourceOf_blockPieces table (depth + 1) body, String.append_assoc]

private theorem Stmt.sourceOf_blockPieces (table : NameTable) :
    ∀ (depth : Nat) (body : List Stmt),
      sourceOf table.spell (Stmt.blockPieces depth body) = table.block depth body
  | _, [] => rfl
  | depth, s :: rest => by
    simp [Stmt.blockPieces, NameTable.block, sourceOf_pieces table depth s,
      sourceOf_blockPieces table depth rest]

end

/-! ## Segments -/

namespace Source

/-- A part of a compilation unit. -/
inductive Segment where
  | code (pieces : List Piece)
  /-- A documentation comment, by what follows the asterisk on each line between its first and its
  last. -/
  | comment (depth : Nat) (rows : List String)

/-- The text of a documentation comment. -/
def commentText (depth : Nat) (rows : List String) : String :=
  line depth "/**" ++ String.join (rows.map fun row => line depth (" *" ++ row)) ++
    line depth " */"

/-- The source of a segment, where `spell` writes the class names. -/
def Segment.source (spell : String → String) : Segment → String
  | .code pieces => sourceOf spell pieces
  | .comment depth rows => commentText depth rows

/-- The class names that are spelled in a segment. -/
def Segment.spelledNames : Segment → List String
  | .code pieces => Source.spelledNames pieces
  | .comment .. => []

/-- The source that segments make up. -/
def unitSource (spell : String → String) (segments : List Segment) : String :=
  String.join (segments.map (Segment.source spell))

section

variable {spell : String → String} {segments : List Segment}

/-- Code spells the names of its pieces. -/
@[simp] theorem Segment.spelledNames_code {pieces : List Piece} :
    Segment.spelledNames (.code pieces) = Source.spelledNames pieces := rfl

@[simp] private theorem unitSource_nil : unitSource spell [] = "" := rfl

@[simp] private theorem unitSource_code {pieces : List Piece} :
    unitSource spell (.code pieces :: segments) =
      sourceOf spell pieces ++ unitSource spell segments :=
  String.join_cons

@[simp] private theorem unitSource_comment {depth : Nat} {rows : List String} :
    unitSource spell (.comment depth rows :: segments) =
      commentText depth rows ++ unitSource spell segments :=
  String.join_cons

@[simp] private theorem unitSource_append {more : List Segment} :
    unitSource spell (segments ++ more) = unitSource spell segments ++ unitSource spell more := by
  simp [unitSource, String.join_append]

@[simp] private theorem unitSource_flatMap {α : Type} {xs : List α} {f : α → List Segment} :
    unitSource spell (xs.flatMap f) = String.join (xs.map fun x => unitSource spell (f x)) := by
  induction xs with
  | nil => rfl
  | cons x xs ih => simp [ih, String.join_cons]

end

/-- The segments of documentation: none if there are no lines. -/
def docSegments (lines : List String) : List Segment :=
  if lines.isEmpty then [] else [.comment 0 (lines.map (" " ++ ·))]

private theorem starRow (text : String) : " *" ++ (" " ++ text) = " * " ++ text := by
  rw [← String.append_assoc]
  rfl

private theorem unitSource_docSegments {spell : String → String} (lines : List String) :
    unitSource spell (docSegments lines) = docComment 0 lines := by
  unfold docSegments docComment
  split
  · rfl
  · simp [commentText, starRow, Function.comp_def]

end Source

/-- The rows of the documentation of a member. -/
def Javadoc.rows (doc : Javadoc) : List String :=
  doc.lines.map (" " ++ ·) ++
    (if !doc.lines.isEmpty && !(docTags doc).isEmpty then [""] else []) ++
    (docTags doc).map (" " ++ ·)

/-- The segments of the documentation of a member. -/
def Javadoc.segments (doc : Javadoc) : List Segment :=
  if doc.lines.isEmpty && (docTags doc).isEmpty then [] else [.comment 1 doc.rows]

private theorem Javadoc.unitSource_segments {spell : String → String} (doc : Javadoc) :
    unitSource spell doc.segments = memberDoc doc := by
  unfold Javadoc.segments memberDoc
  dsimp only
  split
  · rfl
  · have hblank : String.join ((if !doc.lines.isEmpty && !(docTags doc).isEmpty then [""]
        else []).map fun row => line 1 (" *" ++ row)) =
        if !doc.lines.isEmpty && !(docTags doc).isEmpty then line 1 " *" else "" := by
      split <;> rfl
    simp only [unitSource_comment, unitSource_nil, commentText, Javadoc.rows, List.map_append,
      List.map_map, Function.comp_def, String.join_append, hblank, starRow, String.append_assoc,
      String.append_empty]

/-! ## Members -/

/-- The pieces of an annotation. -/
def Annotation.pieces (a : Annotation) : List Piece :=
  [.text "@", .name a.type.name,
    .text (if a.params.isEmpty then ""
      else "(" ++ ", ".intercalate (a.params.map fun (name, value) =>
        name ++ " = " ++ annotationValue value) ++ ")")]

/-- The pieces of annotations on lines of their own. -/
def Annotation.linePieces (depth : Nat) (annotations : List Annotation) : List Piece :=
  annotations.flatMap fun a => onLine depth a.pieces

/-- The pieces of a parameter. -/
def Param.pieces (p : Param) : List Piece :=
  (p.annotations.flatMap fun a => a.pieces ++ [.text " "]) ++
    .text (if p.isFinal then "final " else "") :: p.type.pieces ++ [.text (" " ++ p.name)]

/-- The pieces of a parameter list. -/
def Param.listPieces (params : List Param) : List Piece := commaPieces (params.map Param.pieces)

/-- The pieces of a class reference. -/
def ClassRef.pieces (c : ClassRef) : List Piece := (TypeExpr.ofClass c).pieces

/-- The pieces of a list of class references. -/
def ClassRef.listPieces (refs : List ClassRef) : List Piece :=
  commaPieces (refs.map ClassRef.pieces)

/-- The pieces of a clause of class references after a keyword; without references there is none. -/
def ClassRef.clausePieces (keyword : String) (refs : List ClassRef) : List Piece :=
  if refs.isEmpty then [] else .text keyword :: listPieces refs

/-- The pieces of a field. -/
def Field.pieces (f : Field) : List Piece :=
  Annotation.linePieces 1 f.annotations ++
    onLine 1 (.text (f.visibility.keyword ++ " " ++ (if f.isStatic then "static " else "")) ::
      f.type.pieces ++ [.text (" " ++ f.name ++ ";")])

/-- The segments of a constructor of the class. -/
def Constructor.segments (className : String) (c : Constructor) : List Segment :=
  c.javadoc.segments ++
    [.code (onLine 1 (.text "public " :: .name className :: .text "(" ::
      Param.listPieces c.params ++ [.text ") \x7b"]) ++ Stmt.blockPieces 2 c.body ++
      onLine 1 [.text "\x7d"])]

/-- The pieces of the header of a method. -/
def Method.headerPieces (m : Method) : List Piece :=
  .text ((if m.modifiers.isPrivate then "private " else "public ") ++
    (if m.modifiers.isStatic then "static " else "") ++
    (if m.modifiers.isAbstract || m.body.isNone then "abstract " else "")) ::
      m.returnType.pieces ++ .text (" " ++ m.name ++ "(") :: Param.listPieces m.params ++
      .text ")" :: ClassRef.clausePieces " throws " m.throws

/-- The pieces of a method behind its annotations. -/
def Method.declPieces (m : Method) : List Piece :=
  match m.body with
  | some body =>
    if m.modifiers.isAbstract then onLine 1 (m.headerPieces ++ [.text ";"])
    else onLine 1 (m.headerPieces ++ [.text " \x7b"]) ++ Stmt.blockPieces 2 body ++
      onLine 1 [.text "\x7d"]
  | none => onLine 1 (m.headerPieces ++ [.text ";"])

/-- The segments of a method. -/
def Method.segments (m : Method) : List Segment :=
  m.javadoc.segments ++ [.code ( Annotation.linePieces 1 m.annotations ++ m.declPieces)]

section

variable (table : NameTable)

private theorem Annotation.sourceOf_pieces (a : Annotation) :
    sourceOf table.spell a.pieces = table.annotationText a := by
  simp [NameTable.annotationText, Annotation.pieces, String.append_assoc]

private theorem Annotation.sourceOf_linePieces (depth : Nat) (annotations : List Annotation) :
    sourceOf table.spell (linePieces depth annotations) =
      table.annotationLines depth annotations := by
  simp [linePieces, NameTable.annotationLines, Annotation.sourceOf_pieces]

private theorem Param.sourceOf_listPieces (params : List Param) :
    sourceOf table.spell (listPieces params) = table.params params := by
  simp [listPieces, Param.pieces, NameTable.params, NameTable.type, Annotation.sourceOf_pieces,
    TypeExpr.sourceOf_pieces, Function.comp_def, String.append_assoc]

private theorem ClassRef.sourceOf_pieces (c : ClassRef) :
    sourceOf table.spell c.pieces = table.classRef c :=
  TypeExpr.sourceOf_pieces table.spell (.ofClass c)

private theorem ClassRef.sourceOf_listPieces (refs : List ClassRef) :
    sourceOf table.spell (listPieces refs) = table.classRefs refs := by
  simp [listPieces, NameTable.classRefs, ClassRef.sourceOf_pieces, Function.comp_def]

private theorem ClassRef.sourceOf_clausePieces (keyword : String) (refs : List ClassRef) :
    sourceOf table.spell (clausePieces keyword refs) =
      if refs.isEmpty then "" else keyword ++ table.classRefs refs := by
  unfold clausePieces
  split
  · rfl
  · rw [sourceOf_text, ClassRef.sourceOf_listPieces]

private theorem Field.sourceOf_pieces (f : Field) :
    sourceOf table.spell f.pieces = renderField table f := by
  simp [Field.pieces, renderField, Annotation.sourceOf_linePieces, NameTable.type,
    TypeExpr.sourceOf_pieces, String.append_assoc]

/-- Constructors are called like the class as the table spells it. -/
theorem Constructor.unitSource_segments (className : String) (c : Constructor) :
    unitSource table.spell (c.segments className) =
      renderConstructor table (table.spell className) c := by
  simp [Constructor.segments, renderConstructor, Javadoc.unitSource_segments,
    Param.sourceOf_listPieces, Stmt.sourceOf_blockPieces, String.append_assoc]

private theorem Method.unitSource_segments (m : Method) :
    unitSource table.spell m.segments = renderMethod table m := by
  have hheader : sourceOf table.spell m.headerPieces =
      (if m.modifiers.isPrivate then "private " else "public ") ++
        (if m.modifiers.isStatic then "static " else "") ++
        (if m.modifiers.isAbstract || m.body.isNone then "abstract " else "") ++
        table.type m.returnType ++ " " ++ m.name ++ "(" ++ table.params m.params ++ ")" ++
        (if m.throws.isEmpty then "" else " throws " ++ table.classRefs m.throws) := by
    simp only [Method.headerPieces, sourceOf_text, sourceOf_append, NameTable.type,
      TypeExpr.sourceOf_pieces, ClassRef.sourceOf_clausePieces, Param.sourceOf_listPieces,
      String.append_assoc]
  unfold Method.segments Method.declPieces renderMethod
  cases hbody : m.body with
  | none =>
    rw [hbody] at hheader
    simp [hheader, Javadoc.unitSource_segments, Annotation.sourceOf_linePieces, String.append_assoc]
  | some body =>
    rw [hbody] at hheader
    cases habstract : m.modifiers.isAbstract with
    | true =>
      rw [habstract] at hheader
      simp [hheader, Javadoc.unitSource_segments, Annotation.sourceOf_linePieces,
        String.append_assoc]
    | false =>
      rw [habstract] at hheader
      simp [hheader, Javadoc.unitSource_segments, Annotation.sourceOf_linePieces,
        Stmt.sourceOf_blockPieces, String.append_assoc]

end

/-! ## Units -/

/-- The pieces of the header of a class. -/
def BeanClass.headerPieces (c : BeanClass) : List Piece :=
  (match c.kind with
    | .enumeration => [.text "public enum ", .name c.name]
    | .plain =>
      .text ("public " ++ (if c.isAbstract then "abstract " else "") ++ "class ") ::
        .name c.name ::
          match c.parent with
          | some parent => .text " extends " :: parent.pieces
          | none => []) ++
    ClassRef.clausePieces " implements " c.interfaces ++ [.text " \x7b"]

/-- The segments of a class. -/
def BeanClass.segments (c : BeanClass) : List Segment :=
  .code [.text (if c.packageName = "" then ""
      else line 0 ("package " ++ c.packageName ++ ";") ++ "\n"),
    .text (if (NameTable.ofClass c).imports.isEmpty then ""
      else String.join ((NameTable.ofClass c).imports.map fun name =>
        line 0 ("import " ++ name ++ ";")) ++ "\n")] ::
    docSegments c.javadoc ++
    .code ( Annotation.linePieces 0 c.annotations ++ onLine 0 c.headerPieces ++
      .text (if c.isEnum && !c.constants.isEmpty then
        "\n" ++ line 1 ((",\n" ++ indent 1).intercalate c.constants ++ ";") else "") ::
      c.fields.flatMap fun f => .text "\n" :: f.pieces) ::
    (c.constructors.flatMap fun k => .code [.text "\n"] :: k.segments c.name) ++
    (c.methods.flatMap fun m => .code [.text "\n"] :: m.segments) ++
    [.code (onLine 0 [.text "\x7d"])]

/-- The segments of a package declaration. -/
def Package.segments (p : Package) : List Segment :=
  docSegments p.javadoc ++
    [.code ((p.annotations.flatMap fun a => onLine 0 [.text "@", .name a.type.name]) ++
      onLine 0 [.text ("package " ++ p.name ++ ";")])]

/-- A class is spelled short in its own unit. -/
theorem Source.NameTable.spell_self (c : BeanClass) :
    (NameTable.ofClass c).spell c.name = c.simpleName := by
  have hmem : c.name ∈ (NameTable.ofClass c).shortened :=
    NameTable.mem_shortened_ofNames.2 ⟨by simp [BeanClass.classNames], .inl rfl⟩
  exact if_pos hmem

private theorem BeanClass.sourceOf_headerPieces (c : BeanClass) :
    sourceOf (NameTable.ofClass c).spell c.headerPieces = classHeader (NameTable.ofClass c) c := by
  unfold BeanClass.headerPieces classHeader
  cases c.kind with
  | enumeration =>
    simp [ClassRef.sourceOf_clausePieces, NameTable.spell_self, String.append_assoc]
  | plain =>
    cases c.parent with
    | none => simp [ClassRef.sourceOf_clausePieces, NameTable.spell_self, String.append_assoc]
    | some parent =>
      simp [ClassRef.sourceOf_clausePieces, NameTable.spell_self, ClassRef.sourceOf_pieces,
        String.append_assoc]

/-- The segments of a class make up its source. -/
theorem BeanClass.unitSource_segments (c : BeanClass) :
    unitSource (NameTable.ofClass c).spell c.segments = renderClass c := by
  simp [BeanClass.segments, renderClass, unitSource_docSegments, Annotation.sourceOf_linePieces,
    BeanClass.sourceOf_headerPieces, Field.sourceOf_pieces, Constructor.unitSource_segments,
    Method.unitSource_segments, NameTable.spell_self, String.append_assoc]

/-- The segments of a package declaration make up its source. -/
theorem Package.unitSource_segments (p : Package) :
    unitSource id p.segments = renderPackage p := by
  simp [Package.segments, renderPackage, unitSource_docSegments, String.append_assoc]

end BeanSynthesis
