import BeanSynthesis.Source.Expression

/-!
# Java source of classes and packages

A class is written as one compilation unit: package, imports, documentation, annotations, the
header, and then constants, fields, constructors and methods, each after an empty line. A package
is written as its declaration alone, where annotations cannot be shortened.
-/

namespace BeanSynthesis.Source

/-- The indentation of a nesting depth. -/
def indent (depth : Nat) : String := String.join (List.replicate depth "    ")

/-- A line at a nesting depth. -/
def line (depth : Nat) (text : String) : String := indent depth ++ text ++ "\n"

namespace NameTable

mutual

/-- The lines of a statement. -/
def stmt (table : NameTable) (depth : Nat) : Stmt → String
  | .ret (some value) => line depth ("return " ++ table.expr value ++ ";")
  | .ret none => line depth "return;"
  | .expr e => line depth (table.expr e ++ ";")
  | .decl isFinal type name init =>
    line depth ((if isFinal then "final " else "") ++ table.type type ++ " " ++ name ++
      (match init with
        | some init => " = " ++ table.expr init
        | none => "") ++ ";")
  | .assign target value => line depth (table.expr target ++ " = " ++ table.expr value ++ ";")
  | .ifThen test body =>
    line depth ("if (" ++ table.expr test ++ ") \x7b") ++ block table (depth + 1) body ++
      line depth "\x7d"
  | .ifElse test body otherwise =>
    line depth ("if (" ++ table.expr test ++ ") \x7b") ++ block table (depth + 1) body ++
      line depth "\x7d else \x7b" ++ block table (depth + 1) otherwise ++ line depth "\x7d"
  | .forEach type name iterable body =>
    line depth ("for (final " ++ table.type type ++ " " ++ name ++ " : " ++ table.expr iterable ++
      ") \x7b") ++ block table (depth + 1) body ++ line depth "\x7d"

/-- The lines of a block. -/
def block (table : NameTable) (depth : Nat) : List Stmt → String
  | [] => ""
  | s :: rest => stmt table depth s ++ block table depth rest

end

/-- A parameter list, without the parentheses around it. -/
def params (table : NameTable) (ps : List Param) : String :=
  ", ".intercalate (ps.map fun p =>
    String.join (p.annotations.map fun a => table.annotationText a ++ " ") ++
      (if p.isFinal then "final " else "") ++ table.type p.type ++ " " ++ p.name)

/-- A list of class references. -/
def classRefs (table : NameTable) (refs : List ClassRef) : String :=
  ", ".intercalate (refs.map table.classRef)

/-- Annotations on lines of their own. -/
def annotationLines (table : NameTable) (depth : Nat) (annotations : List Annotation) : String :=
  String.join (annotations.map fun a => line depth (table.annotationText a))

end NameTable

/-- A documentation comment; a text without lines has none. -/
def docComment (depth : Nat) (lines : List String) : String :=
  if lines.isEmpty then ""
  else line depth "/**" ++ String.join (lines.map fun text => line depth (" * " ++ text)) ++
    line depth " */"

/-- The tags of documentation. -/
def docTags (doc : Javadoc) : List String :=
  (doc.params.map fun (name, text) => "@param " ++ name ++ " " ++ text) ++
    (doc.returns.toList.map fun text => "@return " ++ text) ++
    (doc.throws.map fun (name, text) => "@throws " ++ simpleName name ++ " " ++ text)

/-- The documentation comment of a member. An empty line parts the text from the tags. -/
def memberDoc (doc : Javadoc) : String :=
  let tags := docTags doc
  if doc.lines.isEmpty && tags.isEmpty then ""
  else
    line 1 "/**" ++ String.join (doc.lines.map fun text => line 1 (" * " ++ text)) ++
      (if !doc.lines.isEmpty && !tags.isEmpty then line 1 " *" else "") ++
      String.join (tags.map fun tag => line 1 (" * " ++ tag)) ++ line 1 " */"

/-- A field. -/
def renderField (table : NameTable) (f : Field) : String :=
  table.annotationLines 1 f.annotations ++
    line 1 (f.visibility.keyword ++ " " ++ (if f.isStatic then "static " else "") ++
      table.type f.type ++ " " ++ f.name ++ ";")

/-- A constructor of the class with this simple name. -/
def renderConstructor (table : NameTable) (className : String) (c : Constructor) : String :=
  memberDoc c.javadoc ++ line 1 ("public " ++ className ++ "(" ++ table.params c.params ++
    ") \x7b") ++ table.block 2 c.body ++ line 1 "\x7d"

/-- A method. One that is abstract or has no body ends with a semicolon. -/
def renderMethod (table : NameTable) (m : Method) : String :=
  let isAbstract := m.modifiers.isAbstract || m.body.isNone
  let header :=
    (if m.modifiers.isPrivate then "private " else "public ") ++
      (if m.modifiers.isStatic then "static " else "") ++
      (if isAbstract then "abstract " else "") ++
      table.type m.returnType ++ " " ++ m.name ++ "(" ++ table.params m.params ++ ")" ++
      (if m.throws.isEmpty then "" else " throws " ++ table.classRefs m.throws)
  memberDoc m.javadoc ++ table.annotationLines 1 m.annotations ++
    match m.body with
    | some body =>
      if isAbstract then line 1 (header ++ ";")
      else line 1 (header ++ " \x7b") ++ table.block 2 body ++ line 1 "\x7d"
    | none => line 1 (header ++ ";")

/-- The header of a class, up to its opening brace. -/
def classHeader (table : NameTable) (c : BeanClass) : String :=
  (match c.kind with
    | .enumeration => "public enum " ++ c.simpleName
    | .plain =>
      "public " ++ (if c.isAbstract then "abstract " else "") ++ "class " ++ c.simpleName ++
        match c.parent with
        | some parent => " extends " ++ table.classRef parent
        | none => "") ++
    (if c.interfaces.isEmpty then "" else " implements " ++ table.classRefs c.interfaces) ++ " \x7b"

/-- The source of a class. -/
def renderClass (c : BeanClass) : String :=
  let table := NameTable.ofClass c
  (if c.packageName = "" then "" else line 0 ("package " ++ c.packageName ++ ";") ++ "\n") ++
    (if table.imports.isEmpty then ""
      else String.join (table.imports.map fun name => line 0 ("import " ++ name ++ ";")) ++ "\n") ++
    docComment 0 c.javadoc ++ table.annotationLines 0 c.annotations ++
    line 0 (classHeader table c) ++
    (if c.isEnum && !c.constants.isEmpty then
      "\n" ++ line 1 ((",\n" ++ indent 1).intercalate c.constants ++ ";")
    else "") ++
    String.join (c.fields.map fun f => "\n" ++ renderField table f) ++
    String.join (c.constructors.map fun k => "\n" ++ renderConstructor table c.simpleName k) ++
    String.join (c.methods.map fun m => "\n" ++ renderMethod table m) ++ line 0 "\x7d"

/-- The source of a package declaration. -/
def renderPackage (p : Package) : String :=
  docComment 0 p.javadoc ++ String.join (p.annotations.map fun a => line 0 ("@" ++ a.type.name)) ++
    line 0 ("package " ++ p.name ++ ";")

end BeanSynthesis.Source
