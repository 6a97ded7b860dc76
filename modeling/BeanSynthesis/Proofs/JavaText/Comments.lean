import BeanSynthesis.Proofs.JavaText.Escapes
import BeanSynthesis.Proofs.Spelling.Units
import BeanSynthesis.Settings.Basic
import BeanSynthesis.Source.Files

/-!
# Where documentation comments end

A comment ends at the first asterisk with a slash right behind it, after the replacement of Unicode
escapes. Documentation is written as it stands, so the comments of a unit end at the lines that are
written to close them only if none of its texts ends a comment itself or has an escape without its
digits.
-/

namespace BeanSynthesis

namespace Java

/-! ## Comments -/

/-- What follows the end of a comment, behind its opening; `star` says whether an asterisk stands
right before. -/
def commentRest : Bool → List Input → Option (List Input)
  | _, [] => none
  | _, .malformed :: _ => none
  | star, .unit u :: rest =>
    if star ∧ u = unit '/' then some rest else commentRest (u = unit '*') rest

/-- What can stand in a comment. -/
def Harmless (s : List Input) : Prop :=
  .malformed ∉ s ∧ ¬ [.unit (unit '*'), .unit (unit '/')] <:+: s

instance (s : List Input) : Decidable (Harmless s) := inferInstanceAs (Decidable (_ ∧ _))

/-- A text that can stand in a comment. -/
def HarmlessText (text : String) : Prop := Harmless (translate (units text))

instance (text : String) : Decidable (HarmlessText text) := inferInstanceAs (Decidable (Harmless _))

@[simp] private theorem harmless_nil : Harmless [] := by decide

@[simp] private theorem not_harmless_malformed {s : List Input} : ¬ Harmless (.malformed :: s) :=
  fun h => h.1 List.mem_cons_self

/-- Only an asterisk before a slash does harm. -/
@[simp] theorem harmless_unit {u : CodeUnit} {s : List Input} : Harmless (.unit u :: s) ↔
    (u = unit '*' → s.head? ≠ some (.unit (unit '/'))) ∧ Harmless s := by
  have hprefix : [Input.unit (unit '*'), .unit (unit '/')] <+: .unit u :: s ↔
      u = unit '*' ∧ s.head? = some (.unit (unit '/')) := by
    cases s <;> simp [eq_comm]
  unfold Harmless
  rw [List.infix_cons_iff, hprefix]
  simp only [List.mem_cons, reduceCtorEq, false_or]
  rw [not_or, not_and, and_left_comm]

/-- A comment ends at its last two code units if the rest of it is harmless, and only then. -/
theorem commentRest_eq_some_iff (s rest : List Input) :
    commentRest false (s ++ .unit (unit '*') :: .unit (unit '/') :: rest) = some rest ↔
      Harmless s := by
  -- Behind an asterisk what follows must also not start with a slash.
  suffices hstar : ∀ star : Bool,
      commentRest star (s ++ .unit (unit '*') :: .unit (unit '/') :: rest) = some rest ↔
        (star → s.head? ≠ some (.unit (unit '/'))) ∧ Harmless s by
    simpa using hstar false
  have hne : unit '*' ≠ unit '/' := by decide
  induction s with
  | nil =>
    intro star
    simp [commentRest, hne]
  | cons i s ih =>
    intro star
    cases i with
    | malformed => simp [commentRest]
    | unit u =>
      rw [List.cons_append, commentRest]
      split
      case isTrue hend =>
        have hlength : s ++ .unit (unit '*') :: .unit (unit '/') :: rest ≠ rest := by
          intro heq
          have := congrArg List.length heq
          simp only [List.length_append, List.length_cons] at this
          omega
        simp [hend.1, hend.2, hlength]
      case isFalse hgoes =>
        rw [ih]
        simpa using fun _ _ => not_and.1 hgoes

/-- Characters that no escape goes on with. -/
def parting : List Char := [' ', '\n', '-', '<', '*', '/']

private theorem separates_of_mem {c : Char} (hc : c ∈ parting) : Separates (unit c) := by
  have hseparates : ∀ d ∈ parting, unit d ≠ unit '\\' ∧ unit d ≠ unit 'u' ∧
      hexValue? (unit d) = none := by
    simp [parting, hexValue?, unit]
  obtain ⟨hbackslash, hmarker, hdigit⟩ := hseparates c hc
  exact ⟨hbackslash, hmarker, hdigit⟩

/-- Code units that no escape goes on with part what is harmless. -/
theorem harmless_separator {u : CodeUnit} (hu : Separates u) (hstar : u ≠ unit '*')
    (hslash : u ≠ unit '/') (s rest : List CodeUnit) :
    Harmless (translate (s ++ u :: rest)) ↔ Harmless (translate s) ∧ Harmless (translate rest) := by
  rw [translate, translateFrom_separator hu, ← translate, ← translate]
  induction translate s with
  | nil => simp [hstar]
  | cons i t ih =>
    cases i with
    | malformed => simp
    | unit v =>
      have hhead : (t ++ .unit u :: translate rest).head? = some (.unit (unit '/')) ↔
          t.head? = some (.unit (unit '/')) := by
        cases t <;> simp [hslash]
      rw [List.cons_append, harmless_unit, ih, harmless_unit, ne_eq, hhead, and_assoc]

private theorem harmlessText_parted {c : Char} (hc : c ∈ [' ', '\n', '-', '<']) (v w : String) :
    HarmlessText (v ++ (String.singleton c ++ w)) ↔ HarmlessText v ∧ HarmlessText w := by
  have hparting : ∀ d ∈ [' ', '\n', '-', '<'], d ∈ parting ∧ charUnits d = [unit d] ∧
      unit d ≠ unit '*' ∧ unit d ≠ unit '/' := by
    simp [parting, charUnits, unit]
  obtain ⟨hmem, hsingle, hstar, hslash⟩ := hparting c hc
  have hunits : units (v ++ (String.singleton c ++ w)) = units v ++ unit c :: units w := by
    simp [units, hsingle]
  rw [HarmlessText, hunits]
  exact harmless_separator (separates_of_mem hmem) hstar hslash _ _

private theorem harmlessText_space (v w : String) :
    HarmlessText (v ++ (" " ++ w)) ↔ HarmlessText v ∧ HarmlessText w :=
  harmlessText_parted (c := ' ') (by decide) v w

private theorem harmlessText_newline (v w : String) :
    HarmlessText (v ++ ("\n" ++ w)) ↔ HarmlessText v ∧ HarmlessText w :=
  harmlessText_parted (c := '\n') (by decide) v w

private theorem harmlessText_empty : HarmlessText "" := by decide +kernel

private theorem harmlessText_asterisk : HarmlessText "*" := by decide +kernel

private theorem harmlessText_indent (depth : Nat) : HarmlessText (Source.indent depth) := by
  induction depth with
  | zero => exact harmlessText_empty
  | succ depth ih =>
    have hindent : Source.indent (depth + 1) = "   " ++ (" " ++ Source.indent depth) := by
      rw [← String.append_assoc]
      exact String.join_cons
    rw [hindent, harmlessText_space]
    exact ⟨by decide +kernel, ih⟩

/-! ## Written comments -/

open Source (Segment commentText indent line unitSource)

/-- A comment that is written between two texts ends at the line that is written to close it. -/
def EndsAtClosingLine (before : String) (depth : Nat) (rows : List String) (after : String) :
    Prop :=
  ∃ tail, translate (units (before ++ commentText depth rows ++ after)) =
      translate (units (before ++ indent depth)) ++ .unit (unit '/') :: .unit (unit '*') :: tail ∧
    commentRest false tail = some (translate (units ("\n" ++ after)))

/-- What is written between the two ends of a comment. -/
def commentBody (depth : Nat) (rows : List String) : String :=
  "*\n" ++ (String.join (rows.map fun row => line depth (" *" ++ row)) ++ (indent depth ++ " "))

private theorem commentText_eq (depth : Nat) (rows : List String) : commentText depth rows =
    indent depth ++ ("/*" ++ (commentBody depth rows ++ "*/\n")) := by
  have hopening : "/**" = "/*" ++ "*" := rfl
  have hclosing : " */" = " " ++ "*/" := rfl
  simp only [commentText, commentBody, line, hopening, hclosing, String.append_assoc]
  rfl

private theorem harmlessText_commentBody (depth : Nat) (rows : List String) :
    HarmlessText (commentBody depth rows) ↔ ∀ row ∈ rows, HarmlessText ("*" ++ row) := by
  have hopening (text : String) : "*\n" ++ text = "*" ++ ("\n" ++ text) := by
    rw [← String.append_assoc]
    rfl
  have hrow (row text : String) : line depth (" *" ++ row) ++ text =
      indent depth ++ (" " ++ (("*" ++ row) ++ ("\n" ++ text))) := by
    have hspace : " *" = " " ++ "*" := rfl
    simp only [line, hspace, String.append_assoc]
  have hend : indent depth ++ " " = indent depth ++ (" " ++ "") := rfl
  rw [commentBody, hopening, harmlessText_newline, and_iff_right harmlessText_asterisk]
  induction rows with
  | nil => simp [hend, harmlessText_space, harmlessText_indent, harmlessText_empty]
  | cons row rows ih =>
    rw [List.map_cons, String.join_cons, String.append_assoc, hrow, harmlessText_space,
      and_iff_right (harmlessText_indent depth), harmlessText_newline, List.forall_mem_cons]
    exact and_congr_right fun _ => ih

/-- A comment ends where it is written to end if and only if its rows are harmless behind their
asterisks, whatever stands around it. -/
theorem endsAtClosingLine_iff (before : String) (depth : Nat) (rows : List String)
    (after : String) : EndsAtClosingLine before depth rows after ↔
      ∀ row ∈ rows, HarmlessText ("*" ++ row) := by
  have hpart {c : Char} (hc : c ∈ parting) (s rest : List CodeUnit) :
      translate (s ++ unit c :: rest) = translate s ++ .unit (unit c) :: translate rest :=
    translateFrom_separator (separates_of_mem hc) .outside s rest
  have hunits : units (before ++ commentText depth rows ++ after) =
      units (before ++ indent depth) ++ unit '/' :: ([] ++ unit '*' ::
        (units (commentBody depth rows) ++ unit '*' :: ([] ++ unit '/' ::
          units ("\n" ++ after)))) := by
    have hopening : units "/*" = [unit '/', unit '*'] := by decide +kernel
    have hclosing : units "*/\n" = unit '*' :: unit '/' :: units "\n" := by decide +kernel
    simp [commentText_eq, hopening, hclosing]
  have htail : translate (units (before ++ commentText depth rows ++ after)) =
      translate (units (before ++ indent depth)) ++ .unit (unit '/') :: .unit (unit '*') ::
        (translate (units (commentBody depth rows)) ++ .unit (unit '*') :: .unit (unit '/') ::
          translate (units ("\n" ++ after))) := by
    rw [hunits, hpart (by decide), hpart (by decide), hpart (by decide), hpart (by decide)]
    rfl
  rw [← harmlessText_commentBody depth rows, HarmlessText,
    ← commentRest_eq_some_iff _ (translate (units ("\n" ++ after))), EndsAtClosingLine, htail]
  simp

end Java

open Java Source

/-! ## Compilation units -/

/-- What a file is written for. -/
inductive CompilationUnit where
  /-- A class, or an object factory. -/
  | ofClass (c : BeanClass)
  | ofPackage (p : Package)

/-- The texts in the documentation of a member. -/
def Javadoc.texts (doc : Javadoc) : List String :=
  doc.lines ++ (doc.params.flatMap fun (name, text) => [name, text]) ++ doc.returns.toList ++
    doc.throws.flatMap fun (name, text) => [simpleName name, text]

namespace CompilationUnit

/-- The file of a unit. -/
def file : CompilationUnit → SourceFile
  | ofClass c => .ofClass c
  | ofPackage p => .ofPackage p

/-- How class names are spelled in a unit. -/
def spell : CompilationUnit → String → String
  | ofClass c => (NameTable.ofClass c).spell
  | ofPackage _ => id

/-- The segments of a unit. -/
def segments : CompilationUnit → List Segment
  | ofClass c => c.segments
  | ofPackage p => p.segments

/-- The texts in the documentation of a unit. -/
def docTexts : CompilationUnit → List String
  | ofClass c => c.javadoc ++ (c.constructors.flatMap fun k => k.javadoc.texts) ++
    c.methods.flatMap fun m => m.javadoc.texts
  | ofPackage p => p.javadoc

/-- The segments of a unit make up its file. -/
theorem unitSource_segments : ∀ u : CompilationUnit,
    unitSource u.spell u.segments = u.file.text
  | ofClass c => c.unitSource_segments
  | ofPackage p => p.unitSource_segments

end CompilationUnit

/-- The files of a model are those of its classes, object factories and packages as units. -/
theorem CodeModel.sourceFiles_eq (m : CodeModel) : m.sourceFiles =
    ((m.classes ++ m.objectFactories).map CompilationUnit.ofClass ++
      m.packages.map CompilationUnit.ofPackage).map CompilationUnit.file := by
  simp [CodeModel.sourceFiles, CompilationUnit.file, Function.comp_def]

/-- The rows of a comment are harmless behind their asterisks. -/
def Source.Segment.Closed : Segment → Prop
  | .code _ => True
  | .comment _ rows => ∀ row ∈ rows, HarmlessText ("*" ++ row)

@[simp] private theorem Source.Segment.closed_code {pieces : List Piece} :
    (Segment.code pieces).Closed :=
  trivial

private theorem Java.harmlessText_star (text : String) :
    HarmlessText ("*" ++ (" " ++ text)) ↔ HarmlessText text := by
  rw [harmlessText_space, and_iff_right harmlessText_asterisk]

private theorem Source.closed_docSegments (lines : List String) :
    (∀ segment ∈ docSegments lines, segment.Closed) ↔ ∀ text ∈ lines, HarmlessText text := by
  unfold docSegments
  split
  case isTrue hempty => simp [List.isEmpty_iff.1 hempty]
  case isFalse _ => simp [Segment.Closed, harmlessText_star]

/-- The texts of a tag are parted by spaces. -/
theorem Java.harmlessText_docTags (doc : Javadoc) :
    (∀ tag ∈ docTags doc, HarmlessText tag) ↔
      (∀ text ∈ doc.params.flatMap fun (name, text) => [name, text], HarmlessText text) ∧
      (∀ text ∈ doc.returns.toList, HarmlessText text) ∧
      ∀ text ∈ doc.throws.flatMap fun (name, text) => [simpleName name, text],
        HarmlessText text := by
  have hword : ∀ word ∈ ["@param", "@return", "@throws"], HarmlessText word := by decide +kernel
  have htag (word text : String) (hmem : word ∈ ["@param", "@return", "@throws"]) :
      HarmlessText (word ++ " " ++ text) ↔ HarmlessText text := by
    rw [String.append_assoc, harmlessText_space, and_iff_right (hword word hmem)]
  have hpair (word name text : String) (hmem : word ∈ ["@param", "@return", "@throws"]) :
      HarmlessText (word ++ " " ++ name ++ " " ++ text) ↔
        HarmlessText name ∧ HarmlessText text := by
    rw [String.append_assoc, harmlessText_space, htag word name hmem]
  have hparam (name text : String) : HarmlessText ("@param " ++ name ++ " " ++ text) ↔
      HarmlessText name ∧ HarmlessText text := hpair "@param" name text (by simp)
  have hreturn (text : String) : HarmlessText ("@return " ++ text) ↔ HarmlessText text :=
    htag "@return" text (by simp)
  have hthrows (name text : String) : HarmlessText ("@throws " ++ name ++ " " ++ text) ↔
      HarmlessText name ∧ HarmlessText text := hpair "@throws" name text (by simp)
  simp only [docTags, List.forall_mem_append, List.forall_mem_map, List.forall_mem_flatMap,
    List.forall_mem_cons, List.not_mem_nil, false_implies, implies_true, and_true, hparam, hreturn,
    hthrows, and_assoc]

private theorem Javadoc.closed_segments (doc : Javadoc) :
    (∀ segment ∈ doc.segments, segment.Closed) ↔ ∀ text ∈ doc.texts, HarmlessText text := by
  have hblank : HarmlessText ("*" ++ "") := harmlessText_asterisk
  have hrows : (∀ row ∈ doc.rows, HarmlessText ("*" ++ row)) ↔
      (∀ text ∈ doc.lines, HarmlessText text) ∧ ∀ tag ∈ docTags doc, HarmlessText tag := by
    have hparting : ∀ row ∈ if !doc.lines.isEmpty && !(docTags doc).isEmpty then [""] else [],
        HarmlessText ("*" ++ row) := by
      split
      · simpa using hblank
      · simp
    simp only [Javadoc.rows, List.forall_mem_append, List.forall_mem_map, harmlessText_star,
      and_iff_left hparting]
  have htexts : (∀ text ∈ doc.texts, HarmlessText text) ↔
      (∀ text ∈ doc.lines, HarmlessText text) ∧ ∀ tag ∈ docTags doc, HarmlessText tag := by
    rw [harmlessText_docTags]
    simp only [Javadoc.texts, List.forall_mem_append, and_assoc]
  rw [htexts, Javadoc.segments]
  split
  case isTrue hempty =>
    obtain ⟨hlines, htags⟩ := Bool.and_eq_true_iff.1 hempty
    simp [List.isEmpty_iff.1 hlines, List.isEmpty_iff.1 htags]
  case isFalse _ => rw [List.forall_mem_singleton, Segment.Closed, hrows]

/-- Whether all comments of a unit end where they are written to end depends on its documentation
only. -/
theorem CompilationUnit.closed_segments : ∀ u : CompilationUnit,
    (∀ segment ∈ u.segments, segment.Closed) ↔ ∀ text ∈ u.docTexts, HarmlessText text
  | ofClass c => by
    have hconstructor (k : Constructor) : (∀ segment ∈ k.segments c.name, segment.Closed) ↔
        ∀ text ∈ k.javadoc.texts, HarmlessText text := by
      simp only [Constructor.segments, List.forall_mem_append, List.forall_mem_singleton,
        Javadoc.closed_segments, Segment.closed_code, and_true]
    have hmethod (m : Method) : (∀ segment ∈ m.segments, segment.Closed) ↔
        ∀ text ∈ m.javadoc.texts, HarmlessText text := by
      simp only [Method.segments, List.forall_mem_append, List.forall_mem_singleton,
        Javadoc.closed_segments, Segment.closed_code, and_true]
    simp only [segments, docTexts, BeanClass.segments, List.forall_mem_append,
      List.forall_mem_cons, List.forall_mem_flatMap, List.not_mem_nil, false_implies, implies_true,
      closed_docSegments, Segment.closed_code, hconstructor, hmethod, true_and, and_true]
  | ofPackage p => by
    simp only [segments, docTexts, Package.segments, List.forall_mem_append,
      List.forall_mem_singleton, closed_docSegments, Segment.closed_code, and_true]

/-- A file is written segment by segment, and each comment in it ends at the line that is written to
close it if and only if all texts of the documentation are harmless. -/
theorem CompilationUnit.comments_end_iff (u : CompilationUnit) :
    u.file.text = unitSource u.spell u.segments ∧
      ((∀ before depth rows after, u.segments = before ++ .comment depth rows :: after →
        EndsAtClosingLine (unitSource u.spell before) depth rows (unitSource u.spell after)) ↔
      ∀ text ∈ u.docTexts, HarmlessText text) := by
  refine ⟨u.unitSource_segments.symm, ?_⟩
  rw [← u.closed_segments]
  constructor
  · intro hends segment hsegment
    cases segment with
    | code pieces => trivial
    | comment depth rows =>
      obtain ⟨before, after, hsplit⟩ := List.append_of_mem hsegment
      exact (endsAtClosingLine_iff _ _ _ _).1 (hends before depth rows after hsplit)
  · intro hclosed before depth rows after hsplit
    exact (endsAtClosingLine_iff _ _ _ _).2 (hclosed (.comment depth rows) (by simp [hsplit]))

/-- A class whose documentation holds the end of a comment. -/
def closingNote : BeanClass := { name := "shop.Order", javadoc := ["a */ b"] }

/-- The comment of the class ends in its documentation, and what follows there is no comment. -/
theorem closingNote_comment_ends_early :
    (CompilationUnit.ofClass closingNote).file.text =
        "package shop;\n\n/**\n * a */ b\n */\npublic class Order \x7b\n\x7d\n" ∧
      (¬ ∀ before depth rows after,
        closingNote.segments = before ++ .comment depth rows :: after →
          EndsAtClosingLine (unitSource (NameTable.ofClass closingNote).spell before) depth rows
            (unitSource (NameTable.ofClass closingNote).spell after)) ∧
      commentRest false (translate (units "*\n * a */ b\n */\n")) =
        some (translate (units " b\n */\n")) := by
  refine ⟨by decide +kernel, fun hends => ?_, by decide +kernel⟩
  have hharmless := (CompilationUnit.ofClass closingNote).comments_end_iff.2.1 hends
  exact absurd (hharmless "a */ b" (by decide +kernel)) (by decide +kernel)

/-- An escape for the slash ends a comment as well. -/
example : ¬ HarmlessText "a *\\u002f b" := by decide +kernel

/-- What a pass stamps on members, packages and classes is harmless if and only if its option and
the generator name are. -/
theorem Settings.harmlessText_stamps (settings : Settings) (option : String) :
    ∀ stamp ∈ [settings.provenance option, settings.packageNote option, settings.classNote option],
      (HarmlessText stamp ↔ HarmlessText settings.generatorName ∧ HarmlessText option) := by
  have hdash (text : String) : HarmlessText ("-" ++ text) ↔ HarmlessText text := by
    have hparted := harmlessText_parted (c := '-') (by decide) "" text
    rwa [String.empty_append, and_iff_right harmlessText_empty] at hparted
  have hstamp (lead blank : String) (hlead : HarmlessText lead) (hblank : blank = lead ++ " ") :
      HarmlessText (blank ++ settings.generatorName ++ " -" ++ option) ↔
        HarmlessText settings.generatorName ∧ HarmlessText option := by
    have hmark : " -" = " " ++ "-" := rfl
    rw [hblank, hmark, String.append_assoc, String.append_assoc, String.append_assoc,
      String.append_assoc, harmlessText_space, harmlessText_space, hdash, and_iff_right hlead]
  have hnote (text : String) : HarmlessText (text ++ "</p>") ↔ HarmlessText text := by
    have hclosing : HarmlessText "/p>" := by decide +kernel
    exact (harmlessText_parted (c := '<') (by decide) text "/p>").trans (and_iff_left hclosing)
  rw [List.forall_mem_cons, List.forall_mem_cons, List.forall_mem_singleton]
  unfold provenance packageNote classNote
  rw [hnote, hnote]
  exact ⟨hstamp "Created by" _ (by decide +kernel) rfl,
    hstamp "<p>This class was annotated by" _ (by decide +kernel) rfl,
    hstamp "<p>This class contains methods created by" _ (by decide +kernel) rfl⟩

end BeanSynthesis
