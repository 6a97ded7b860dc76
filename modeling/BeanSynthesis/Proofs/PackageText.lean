import BeanSynthesis.Proofs.JavaText.Descent
import BeanSynthesis.Proofs.JavaText.Lexing
import BeanSynthesis.Source.Render

/-!
# Annotations of packages

In the source of a class an annotation stands with all its parameters, and the text of the
annotations tells classes and parameters. In the source of a package the parameters are missing:
the text agrees with what a class would have only if there are none, and it tells nothing but the
classes.
-/

namespace BeanSynthesis

open Source

/-- The table that shortens no name. -/
def Source.NameTable.unshortened : NameTable where
  self := ""
  shortened := []

@[simp] private theorem Source.NameTable.spell_unshortened (name : String) :
    NameTable.unshortened.spell name = name := by
  simp [NameTable.spell, NameTable.unshortened]

namespace Annotation

/-- What an annotation declares: its class, and the values of its parameters. -/
def declared (a : Annotation) : String × List (String × AnnotationValue) := (a.type.name, a.params)

/-- The annotation without its parameters. -/
def bare (a : Annotation) : Annotation := { a with params := [] }

/-- The names in an annotation leave its text readable: that of the class has no parenthesis and no
line break in it, and those of the parameters have no space. -/
structure Readable (a : Annotation) : Prop where
  type : ∀ c ∈ a.type.name.toList, c ≠ '(' ∧ c ≠ '\n'
  params : ∀ p ∈ a.params, ' ' ∉ p.1.toList

private theorem Readable.bare {a : Annotation} (h : a.Readable) : a.bare.Readable := ⟨h.type, nofun⟩

end Annotation

/-! ## Reading values -/

/-- A text is settled up to the first separator. -/
theorem cut_unique (stops : Char → Prop) {xs ys s t : List Char} {c d : Char}
    (hxs : ∀ x ∈ xs, ¬stops x) (hys : ∀ y ∈ ys, ¬stops y) (hc : stops c) (hd : stops d)
    (h : xs ++ c :: s = ys ++ d :: t) : xs = ys ∧ c = d ∧ s = t := by
  induction xs generalizing ys with
  | nil =>
    cases ys with
    | nil => simpa using h
    | cons y ys =>
      obtain ⟨rfl, -⟩ := List.cons.inj h
      exact absurd hc (hys c List.mem_cons_self)
  | cons x xs ih =>
    cases ys with
    | nil =>
      obtain ⟨rfl, -⟩ := List.cons.inj h
      exact absurd hd (hxs x List.mem_cons_self)
    | cons y ys =>
      obtain ⟨rfl, hrest⟩ := List.cons.inj h
      obtain ⟨rfl, hsame⟩ := ih (fun x hx => hxs x (List.mem_cons_of_mem _ hx))
        (fun y hy => hys y (List.mem_cons_of_mem _ hy)) hrest
      exact ⟨rfl, hsame⟩

/-- What ends a parameter. -/
def EndsParam (c : Char) : Prop := c = ',' ∨ c = ')'

private theorem mem_intLiteral {n : Int} {c : Char} (h : c ∈ (intLiteral n).toList) :
    c = '-' ∨ c.isDigit := by
  have hdigit : c ∈ (Nat.repr n.natAbs).toList → c.isDigit := by
    intro hc
    rw [Nat.repr, String.toList_ofList] at hc
    exact Nat.isDigit_of_mem_toDigits (by decide) (by decide) hc
  unfold intLiteral at h
  split at h
  · rw [String.toList_append, List.mem_append] at h
    exact h.imp (by simp) hdigit
  · exact .inr (hdigit h)

private theorem mem_boolLiteral {b : Bool} {c : Char} (h : c ∈ (boolLiteral b).toList) :
    c ∈ "truefalse".toList := by
  cases b with
  | false => exact List.mem_append_right "true".toList h
  | true => exact List.mem_append_left "false".toList h

/-- The text of a value that is no string has neither quotes in it nor what ends a parameter. -/
theorem mem_annotationValue {v : AnnotationValue} (hv : ∀ s, v ≠ .str s) {c : Char}
    (h : c ∈ (annotationValue v).toList) : c ≠ '"' ∧ ¬EndsParam c := by
  cases v with
  | bool b =>
    have hletters : ∀ c ∈ "truefalse".toList, c ≠ '"' ∧ ¬(c = ',' ∨ c = ')') := by simp
    exact hletters c (mem_boolLiteral h)
  | int n =>
    rcases mem_intLiteral h with rfl | hdigit
    · simp [EndsParam]
    · have hne : ∀ d : Char, d.isDigit = false → c ≠ d := by
        rintro d hd rfl
        simp [hd] at hdigit
      exact ⟨hne _ (by decide), not_or.mpr ⟨hne _ (by decide), hne _ (by decide)⟩⟩
  | str s => exact absurd rfl (hv s)

private theorem intLiteral_injective {n k : Int} (h : intLiteral n = intLiteral k) : n = k := by
  have hdigits : ∀ a b : Nat, Nat.repr a ≠ "-" ++ Nat.repr b := by
    intro a b heq
    have hmem : '-' ∈ (Nat.repr a).toList := by simp [heq]
    rw [Nat.repr, String.toList_ofList] at hmem
    have hdigit := Nat.isDigit_of_mem_toDigits (by decide) (by decide) hmem
    simp at hdigit
  unfold intLiteral at h
  split at h
  case isTrue hn =>
    split at h
    case isTrue hk =>
      have habs : n.natAbs = k.natAbs := Nat.repr_injective (String.append_right_inj _ |>.mp h)
      omega
    case isFalse hk => exact absurd h.symm (hdigits _ _)
  case isFalse hn =>
    split at h
    case isTrue hk => exact absurd h (hdigits _ _)
    case isFalse hk =>
      have habs : n.natAbs = k.natAbs := Nat.repr_injective h
      omega

private theorem boolLiteral_injective {b b' : Bool} (h : boolLiteral b = boolLiteral b') :
    b = b' := by
  have hne : boolLiteral true ≠ boolLiteral false := by decide
  cases b with
  | false =>
    cases b' with
    | false => rfl
    | true => exact absurd h.symm hne
  | true =>
    cases b' with
    | false => exact absurd h hne
    | true => rfl

private theorem boolLiteral_ne_intLiteral (b : Bool) (n : Int) : boolLiteral b ≠ intLiteral n := by
  intro h
  obtain ⟨c, hc⟩ : ∃ c, c ∈ (boolLiteral b).toList := by
    cases b with
    | false => exact ⟨'f', by decide⟩
    | true => exact ⟨'t', by decide⟩
  have hletters : ∀ c ∈ "truefalse".toList, c ≠ '-' ∧ ¬c.isDigit := by simp
  obtain ⟨hminus, hdigit⟩ := hletters c (mem_boolLiteral hc)
  rw [h] at hc
  exact (mem_intLiteral hc).elim hminus hdigit

/-- A value that is no string is known by its text. -/
theorem annotationValue_injective {v w : AnnotationValue} (hv : ∀ s, v ≠ .str s)
    (hw : ∀ s, w ≠ .str s) (h : annotationValue v = annotationValue w) : v = w := by
  cases v with
  | str s => exact absurd rfl (hv s)
  | bool b =>
    cases w with
    | str s => exact absurd rfl (hw s)
    | int n => exact absurd h (boolLiteral_ne_intLiteral b n)
    | bool b' => rw [boolLiteral_injective h]
  | int n =>
    cases w with
    | str s => exact absurd rfl (hw s)
    | bool b => exact absurd h.symm (boolLiteral_ne_intLiteral b n)
    | int k => rw [intLiteral_injective h]

/-- No other value begins like a string. -/
theorem not_startsQuote {v : AnnotationValue} (hv : ∀ s, v ≠ .str s) {c : Char} (hc : EndsParam c)
    (s t : List Char) : (annotationValue v).toList ++ c :: s ≠ '"' :: t := by
  intro h
  cases hchars : (annotationValue v).toList with
  | nil =>
    rw [hchars] at h
    obtain ⟨rfl, -⟩ := List.cons.inj h
    simp [EndsParam] at hc
  | cons first more =>
    rw [hchars] at h
    obtain ⟨rfl, -⟩ := List.cons.inj h
    exact (mem_annotationValue hv (hchars ▸ List.mem_cons_self)).1 rfl

private theorem toList_str (text : String) (rest : List Char) :
    (annotationValue (.str text)).toList ++ rest =
      '"' :: (text.toList.flatMap literalChar ++ '"' :: rest) := by
  simp [annotationValue, stringLiteral]

/-- The value of a parameter is settled by its text, up to what ends the parameter. -/
theorem value_unique {v w : AnnotationValue} {c d : Char} {s t : List Char} (hc : EndsParam c)
    (hd : EndsParam d)
    (h : (annotationValue v).toList ++ c :: s = (annotationValue w).toList ++ d :: t) :
    v = w ∧ c = d ∧ s = t := by
  by_cases hv : ∃ text, v = .str text
  · obtain ⟨text, rfl⟩ := hv
    by_cases hw : ∃ text', w = .str text'
    · obtain ⟨text', rfl⟩ := hw
      rw [toList_str, toList_str, List.cons.injEq] at h
      have hread := Java.stringEnd_literal text.toList (c :: s)
      rw [h.2, Java.stringEnd_literal, Option.some.injEq, Prod.mk.injEq, List.cons.injEq] at hread
      obtain ⟨htext, rfl, rfl⟩ := hread
      exact ⟨congrArg _ (String.toList_injective htext.symm), rfl, rfl⟩
    · rw [toList_str] at h
      exact absurd h.symm (not_startsQuote (not_exists.mp hw) hd t _)
  · by_cases hw : ∃ text', w = .str text'
    · obtain ⟨text', rfl⟩ := hw
      rw [toList_str] at h
      exact absurd h (not_startsQuote (not_exists.mp hv) hc s _)
    · obtain ⟨htext, hsame⟩ := cut_unique EndsParam
        (fun x hx => (mem_annotationValue (not_exists.mp hv) hx).2)
        (fun x hx => (mem_annotationValue (not_exists.mp hw) hx).2) hc hd h
      exact ⟨annotationValue_injective (not_exists.mp hv) (not_exists.mp hw)
        (String.toList_injective htext), hsame⟩

/-! ## Reading annotations -/

/-- The characters of a parameter. -/
def paramChars (p : String × AnnotationValue) : List Char :=
  p.1.toList ++ ' ' :: '=' :: ' ' :: (annotationValue p.2).toList

/-- The characters of the parameters after the first, up to the closing parenthesis. -/
def moreParams : List (String × AnnotationValue) → List Char
  | [] => [')']
  | p :: ps => ',' :: ' ' :: (paramChars p ++ moreParams ps)

/-- The characters of the parameters in their parentheses. -/
def allParams : List (String × AnnotationValue) → List Char
  | [] => []
  | p :: ps => '(' :: (paramChars p ++ moreParams ps)

/-- After a parameter stands a comma or a parenthesis. -/
theorem exists_moreParams (ps : List (String × AnnotationValue)) (s : List Char) :
    ∃ c more, EndsParam c ∧ moreParams ps ++ s = c :: more := by
  cases ps with
  | nil => exact ⟨')', s, .inr rfl, rfl⟩
  | cons p ps => exact ⟨',', _, .inl rfl, rfl⟩

/-- A parameter is settled by its text, up to what ends it. -/
theorem param_unique {p q : String × AnnotationValue} {c d : Char} {s t : List Char}
    (hp : ' ' ∉ p.1.toList) (hq : ' ' ∉ q.1.toList) (hc : EndsParam c) (hd : EndsParam d)
    (h : paramChars p ++ c :: s = paramChars q ++ d :: t) : p = q ∧ c :: s = d :: t := by
  simp only [paramChars, List.append_assoc, List.cons_append] at h
  obtain ⟨hname, -, hvalue⟩ := cut_unique (· = ' ') (fun x hx heq => hp (heq ▸ hx))
    (fun x hx heq => hq (heq ▸ hx)) rfl rfl h
  obtain ⟨hsame, rfl, rfl⟩ := value_unique hc hd (List.cons.inj (List.cons.inj hvalue).2).2
  exact ⟨Prod.ext (String.toList_injective hname) hsame, rfl⟩

/-- A parameter and those after it are settled by their text, if those after it are. -/
theorem first_unique {p q : String × AnnotationValue} {ps qs : List (String × AnnotationValue)}
    {s t : List Char} (hp : ' ' ∉ p.1.toList) (hq : ' ' ∉ q.1.toList)
    (hmore : moreParams ps ++ s = moreParams qs ++ t → ps = qs ∧ s = t)
    (h : paramChars p ++ moreParams ps ++ s = paramChars q ++ moreParams qs ++ t) :
    p :: ps = q :: qs ∧ s = t := by
  obtain ⟨c, s', hc, hs⟩ := exists_moreParams ps s
  obtain ⟨d, t', hd, ht⟩ := exists_moreParams qs t
  rw [List.append_assoc, List.append_assoc, hs, ht] at h
  obtain ⟨rfl, hrest⟩ := param_unique hp hq hc hd h
  obtain ⟨rfl, hsame⟩ := hmore (by rw [hs, ht, hrest])
  exact ⟨rfl, hsame⟩

/-- The parameters after the first are settled by their text. -/
theorem moreParams_unique {ps qs : List (String × AnnotationValue)} {s t : List Char}
    (hps : ∀ p ∈ ps, ' ' ∉ p.1.toList) (hqs : ∀ q ∈ qs, ' ' ∉ q.1.toList)
    (h : moreParams ps ++ s = moreParams qs ++ t) : ps = qs ∧ s = t := by
  induction ps generalizing qs with
  | nil =>
    cases qs with
    | nil => simpa [moreParams] using h
    | cons q qs => simp [moreParams] at h
  | cons p ps ih =>
    cases qs with
    | nil => simp [moreParams] at h
    | cons q qs =>
      rw [List.forall_mem_cons] at hps hqs
      exact first_unique hps.1 hqs.1 (ih hps.2 hqs.2) (List.cons.inj (List.cons.inj h).2).2

/-- The parameters are settled by their text, up to the end of the line. -/
theorem allParams_unique {ps qs : List (String × AnnotationValue)} {s t : List Char}
    (hps : ∀ p ∈ ps, ' ' ∉ p.1.toList) (hqs : ∀ q ∈ qs, ' ' ∉ q.1.toList)
    (h : allParams ps ++ '\n' :: s = allParams qs ++ '\n' :: t) : ps = qs ∧ s = t := by
  cases ps with
  | nil =>
    cases qs with
    | nil => simpa [allParams] using h
    | cons q qs => simp [allParams] at h
  | cons p ps =>
    cases qs with
    | nil => simp [allParams] at h
    | cons q qs =>
      rw [List.forall_mem_cons] at hps hqs
      obtain ⟨hsame, hrest⟩ := first_unique hps.1 hqs.1 (moreParams_unique hps.2 hqs.2)
        (List.cons.inj h).2
      exact ⟨hsame, (List.cons.inj hrest).2⟩

/-- The text of a parameter. -/
def paramText (p : String × AnnotationValue) : String := p.1 ++ " = " ++ annotationValue p.2

private theorem toList_paramText (p : String × AnnotationValue) :
    (paramText p).toList = paramChars p := by
  simp [paramText, paramChars]

private theorem toList_params (p : String × AnnotationValue)
    (ps : List (String × AnnotationValue)) :
    (", ".intercalate ((p :: ps).map paramText)).toList ++ [')'] =
      paramChars p ++ moreParams ps := by
  induction ps generalizing p with
  | nil => simp [toList_paramText, moreParams]
  | cons q ps ih =>
    rw [List.map_cons, List.map_cons, String.intercalate_cons_cons, ← List.map_cons,
      String.toList_append, List.append_assoc, ih, String.toList_append, toList_paramText]
    simp [moreParams]

namespace Annotation

/-- The line of an annotation with the full name of its class. -/
def fullLine (a : Annotation) : String := line 0 (NameTable.unshortened.annotationText a)

private theorem annotationText_unshortened (a : Annotation) :
    NameTable.unshortened.annotationText a = "@" ++ a.type.name ++
      if a.params.isEmpty then "" else "(" ++ ", ".intercalate (a.params.map paramText) ++ ")" := by
  rw [NameTable.annotationText, NameTable.spell_unshortened]
  rfl

private theorem toList_fullLine (a : Annotation) (s : List Char) :
    a.fullLine.toList ++ s = '@' :: (a.type.name.toList ++ (allParams a.params ++ '\n' :: s)) := by
  rw [fullLine, annotationText_unshortened]
  cases a.params with
  | nil => simp [line, indent, allParams]
  | cons p ps => simp [line, indent, allParams, ← toList_params]

/-- An annotation is settled by its line. -/
theorem fullLine_unique {a b : Annotation} {s t : List Char} (ha : a.Readable) (hb : b.Readable)
    (h : a.fullLine.toList ++ s = b.fullLine.toList ++ t) : a.declared = b.declared ∧ s = t := by
  -- The name of the class ends where the parameters begin, or the line ends.
  have hstop : ∀ ps u, ∃ c more, (c = '(' ∨ c = '\n') ∧ allParams ps ++ '\n' :: u = c :: more := by
    rintro (- | ⟨p, ps⟩) u
    · exact ⟨'\n', u, .inr rfl, rfl⟩
    · exact ⟨'(', _, .inl rfl, rfl⟩
  obtain ⟨c, s', hc, hs⟩ := hstop a.params s
  obtain ⟨d, t', hd, ht⟩ := hstop b.params t
  rw [toList_fullLine, toList_fullLine, List.cons.injEq, hs, ht] at h
  obtain ⟨hname, rfl, rfl⟩ := cut_unique (fun c => c = '(' ∨ c = '\n')
    (fun x hx => not_or.mpr (ha.type x hx)) (fun x hx => not_or.mpr (hb.type x hx)) hc hd h.2
  obtain ⟨hparams, hsame⟩ := allParams_unique ha.params hb.params (hs.trans ht.symm)
  exact ⟨Prod.ext (String.toList_injective hname) hparams, hsame⟩

/-- Annotations are settled by their lines. -/
theorem fullLines_unique {as bs : List Annotation} (has : ∀ a ∈ as, a.Readable)
    (hbs : ∀ b ∈ bs, b.Readable)
    (h : String.join (as.map fullLine) = String.join (bs.map fullLine)) :
    as.map declared = bs.map declared := by
  have hnil : ∀ (a : Annotation) (as : List Annotation),
      "" ≠ String.join ((a :: as).map fullLine) := by
    intro a as h
    have hchars := congrArg String.toList h
    rw [List.map_cons, String.join_cons, String.toList_append, toList_fullLine] at hchars
    exact List.cons_ne_nil _ _ hchars.symm
  induction as generalizing bs with
  | nil =>
    cases bs with
    | nil => rfl
    | cons b bs => exact absurd h (hnil b bs)
  | cons a as ih =>
    cases bs with
    | nil => exact absurd h.symm (hnil a as)
    | cons b bs =>
      rw [List.forall_mem_cons] at has hbs
      have hchars := congrArg String.toList h
      simp only [List.map_cons, String.join_cons, String.toList_append] at hchars
      obtain ⟨hfirst, hrest⟩ := fullLine_unique has.1 hbs.1 hchars
      rw [List.map_cons, List.map_cons, hfirst, ih has.2 hbs.2 (String.toList_injective hrest)]

/-- The lines depend on nothing but what the annotations declare. -/
theorem fullLines_congr {as bs : List Annotation} (h : as.map declared = bs.map declared) :
    as.map fullLine = bs.map fullLine := by
  have hfactor : fullLine =
      (fun d => fullLine { type := .ofName d.1, params := d.2 }) ∘ declared := rfl
  rw [hfactor, ← List.map_map, h, List.map_map]

/-- Parameters make the line longer. -/
theorem length_fullLine (a : Annotation) :
    a.fullLine.length = a.bare.fullLine.length + (allParams a.params).length := by
  have hlength : ∀ b : Annotation,
      b.fullLine.length = b.type.name.length + (allParams b.params).length + 2 := by
    intro b
    have hchars := congrArg List.length (toList_fullLine b [])
    simp only [List.append_nil, List.length_cons, List.length_append, String.length_toList,
      List.length_nil] at hchars
    omega
  rw [hlength, hlength]
  simp [bare, allParams]
  omega

private theorem length_fullLines (as : List Annotation) :
    (String.join (as.map fullLine)).length =
      (String.join (as.map (fullLine ∘ bare))).length +
        (as.flatMap fun a => allParams a.params).length := by
  induction as with
  | nil => rfl
  | cons a as ih =>
    simp only [List.map_cons, String.join_cons, String.length_append, Function.comp_apply,
      List.flatMap_cons, List.length_append]
    rw [length_fullLine a, ih]
    omega

/-- The lines without parameters are those with them only if there are none. -/
theorem bare_fullLines {as : List Annotation} :
    String.join (as.map (fullLine ∘ bare)) = String.join (as.map fullLine) ↔
      ∀ a ∈ as, a.params = [] := by
  constructor
  · intro h a ha
    have hextra := length_fullLines as
    rw [h, Nat.left_eq_add, List.length_eq_zero_iff, List.flatMap_eq_nil_iff] at hextra
    have hnone := hextra a ha
    cases hparams : a.params with
    | nil => rfl
    | cons p ps => simp [hparams, allParams] at hnone
  · intro h
    refine congrArg _ (List.map_congr_left fun a ha => ?_)
    simp [bare, ← h a ha]

end Annotation

/-! ## The text of a package -/

namespace Package

/-- The package without the parameters of its annotations. -/
def bare (p : Package) : Package := { p with annotations := p.annotations.map Annotation.bare }

end Package

/-- The source of a package whose annotations are written like those of a class, with their full
names. -/
def Source.packageText (p : Package) : String :=
  docComment 0 p.javadoc ++ NameTable.unshortened.annotationLines 0 p.annotations ++
    line 0 ("package " ++ p.name ++ ";")

namespace Package

private theorem renderPackage_eq (p : Package) : renderPackage p = packageText p.bare := by
  simp [renderPackage, packageText, bare, NameTable.annotationLines, Annotation.bare,
    Annotation.annotationText_unshortened, Function.comp_def]

private theorem packageText_inj {p q : Package} (hname : p.name = q.name)
    (hdoc : p.javadoc = q.javadoc) :
    packageText p = packageText q ↔
      String.join (p.annotations.map Annotation.fullLine) =
        String.join (q.annotations.map Annotation.fullLine) := by
  rw [packageText, packageText, hname, hdoc, String.append_left_inj, String.append_right_inj]
  rfl

/-- With the parameters, the text of a package tells what its annotations declare. -/
theorem packageText_unique {p q : Package} (hname : p.name = q.name) (hdoc : p.javadoc = q.javadoc)
    (hp : ∀ a ∈ p.annotations, a.Readable) (hq : ∀ a ∈ q.annotations, a.Readable) :
    packageText p = packageText q ↔
      p.annotations.map Annotation.declared = q.annotations.map Annotation.declared := by
  rw [packageText_inj hname hdoc]
  constructor
  · exact Annotation.fullLines_unique hp hq
  · intro h
    exact congrArg String.join <| Annotation.fullLines_congr h

/-- The source of a package is what it would be with its annotations written like those of a class
exactly if none of them has parameters. It tells the classes of the annotations, in their order, and
nothing else, while the other text tells the parameters too. -/
theorem source_loses_params (p : Package) :
    (renderPackage p = packageText p ↔ ∀ a ∈ p.annotations, a.params = []) ∧
      ∀ q : Package, q.name = p.name → q.javadoc = p.javadoc →
        (∀ a ∈ p.annotations ++ q.annotations, a.Readable) →
        (renderPackage p = renderPackage q ↔
          p.annotations.map (·.type.name) = q.annotations.map (·.type.name)) ∧
        (packageText p = packageText q ↔
          p.annotations.map Annotation.declared = q.annotations.map Annotation.declared) := by
  refine ⟨?_, fun q hname hdoc hreadable => ?_⟩
  · rw [renderPackage_eq, packageText_inj (p := p.bare) (q := p) rfl rfl, bare, List.map_map]
    exact Annotation.bare_fullLines
  · obtain ⟨hp, hq⟩ := List.forall_mem_append.mp hreadable
    refine ⟨?_, packageText_unique hname.symm hdoc.symm hp hq⟩
    have hbare : ∀ r : Package, (∀ a ∈ r.annotations, a.Readable) →
        ∀ a ∈ r.bare.annotations, a.Readable := by
      intro r hr a ha
      obtain ⟨b, hb, rfl⟩ := List.mem_map.mp ha
      exact (hr b hb).bare
    have hnames : ∀ r : Package, r.bare.annotations.map Annotation.declared =
        (r.annotations.map (·.type.name)).map fun name => (name, []) := by
      intro r
      simp [Package.bare, Annotation.declared, Annotation.bare, Function.comp_def]
    rw [renderPackage_eq, renderPackage_eq,
      packageText_unique (p := p.bare) (q := q.bare) hname.symm hdoc.symm (hbare p hp) (hbare q hq),
      hnames, hnames]
    exact List.map_inj_right (fun _ _ h => (Prod.mk.inj h).1)

/-- The annotation of a package with an XML namespace is written without the namespace. -/
theorem namespace_lost :
    let schema : String := "javax.xml.bind.annotation.XmlSchema"
    let p : Package := { name := "shop", annotations :=
      [{ type := .ofName schema, params := [("namespace", .str "urn:shop")] }] }
    let q : Package := { p with annotations := [.ofName schema] }
    renderPackage p ≠ packageText p ∧ renderPackage p = renderPackage q ∧
      packageText p ≠ packageText q ∧
      packageText p = "@" ++ schema ++ "(namespace = \"urn:shop\")\npackage shop;\n" := by
  intro schema p q
  have hschema : ∀ c ∈ schema.toList, c ≠ '(' ∧ c ≠ '\n' := by simp [schema]
  have hreadable : ∀ a ∈ p.annotations ++ q.annotations, a.Readable := by
    intro a ha
    rcases List.mem_pair.mp ha with rfl | rfl
    · exact ⟨hschema, by simp⟩
    · exact ⟨hschema, nofun⟩
  obtain ⟨hsame, htexts⟩ := source_loses_params p
  obtain ⟨hsource, hfull⟩ := htexts q rfl rfl hreadable
  refine ⟨fun h => ?_, hsource.mpr rfl, fun h => ?_, by decide⟩
  · exact absurd (hsame.mp h _ List.mem_cons_self) (by decide)
  · exact absurd (hfull.mp h) (by decide)

end Package

end BeanSynthesis
