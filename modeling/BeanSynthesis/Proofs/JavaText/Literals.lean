import BeanSynthesis.Proofs.JavaText.Escapes
import BeanSynthesis.Proofs.JavaText.Lexing

/-!
# String literals are read back

Java's string literals after the replacement of Unicode escapes: a quote, characters and escape
sequences, and a quote. A written string literal is read as the text it stands for, to its closing
quote and no further, whatever follows: all backslashes in it stand in pairs or before a letter
other than `u` or a quote, so none of them starts a Unicode escape.
-/

namespace BeanSynthesis.Java

/-! ## Reading a string literal -/

/-- The escape sequences of one character and what they stand for. -/
def escapeSequences : List (Char × Char) :=
  [('b', '\x08'), ('s', ' '), ('t', '\t'), ('n', '\n'), ('f', '\x0c'), ('r', '\r'), ('"', '"'),
    ('\'', '\''), ('\\', '\\')]

/-- What a code unit behind a backslash stands for. -/
def escapedUnit? (u : CodeUnit) : Option CodeUnit :=
  (escapeSequences.find? fun sequence => unit sequence.1 == u).map fun sequence => unit sequence.2

/-- The value of an octal digit. -/
def octalValue? (u : CodeUnit) : Option Nat :=
  if unit '0' ≤ u ∧ u ≤ unit '7' then some (u.toNat - '0'.toNat) else none

/-- Where the reading of a string literal stands. -/
inductive StringState where
  | plain
  /-- Behind a backslash. -/
  | escape
  /-- Behind octal digits of this value, which at most so many may follow. -/
  | octal (value more : Nat)
deriving DecidableEq, Repr

/-- A string literal that goes on with a code unit outside escape sequences: its value and what
follows it, where `next` reads on after the code unit. -/
def plainUnit (u : CodeUnit) (rest : List Input)
    (next : StringState → Option (List CodeUnit × List Input)) :
    Option (List CodeUnit × List Input) :=
  if u = unit '"' then some ([], rest)
  else if u = unit '\\' then next .escape
  else if u = unit '\n' ∨ u = unit '\r' then none
  else (next .plain).map fun (value, after) => (u :: value, after)

/-- The value of a string literal behind its opening quote, and what follows its closing one. -/
def stringRest : StringState → List Input → Option (List CodeUnit × List Input)
  | _, [] => none
  | _, .malformed :: _ => none
  | .plain, .unit u :: rest => plainUnit u rest fun state => stringRest state rest
  | .escape, .unit u :: rest =>
    match octalValue? u with
    | some d => stringRest (.octal d (if d ≤ 3 then 2 else 1)) rest
    | none =>
      (escapedUnit? u).bind fun v =>
        (stringRest .plain rest).map fun (value, after) => (v :: value, after)
  | .octal value more, .unit u :: rest =>
    match octalValue? u, more with
    | some d, more + 1 => stringRest (.octal (8 * value + d) more) rest
    | _, _ =>
      (plainUnit u rest fun state => stringRest state rest).map fun (values, after) =>
        (.ofNat value :: values, after)

/-- The value of a string literal and what follows it. -/
def readString? : List Input → Option (List CodeUnit × List Input)
  | .unit u :: rest => if u = unit '"' then stringRest .plain rest else none
  | _ => none

/-- A text block starts here: three quotes, blanks and the end of the line. -/
def OpensTextBlock (input : List Input) : Prop :=
  ∃ (blanks : List CodeUnit) (lineEnd : CodeUnit) (rest : List Input),
    (∀ blank ∈ blanks, blank ∈ [unit ' ', unit '\t', unit '\x0c']) ∧
    lineEnd ∈ [unit '\n', unit '\r'] ∧
    input = .unit (unit '"') :: .unit (unit '"') :: .unit (unit '"') ::
      (blanks.map .unit ++ .unit lineEnd :: rest)

/-! ## Written literals -/

open Source (literalChar stringLiteral)

/-- A character of a string literal is written as itself or as an escape sequence. -/
theorem literalChar_cases (c : Char) :
    (∃ d, literalChar c = ['\\', d] ∧ d ∈ ['"', '\\', 'n', 'r', 't']) ∨
    (literalChar c = [c] ∧ c ∉ ['"', '\\', '\n', '\r']) := by
  unfold literalChar
  split
  case isTrue => exact .inl ⟨'"', rfl, by decide⟩
  split
  case isTrue => exact .inl ⟨'\\', rfl, by decide⟩
  split
  case isTrue => exact .inl ⟨'n', rfl, by decide⟩
  split
  case isTrue => exact .inl ⟨'r', rfl, by decide⟩
  split
  case isTrue => exact .inl ⟨'t', rfl, by decide⟩
  case isFalse hquote hslash hline hreturn htab =>
    refine .inr ⟨rfl, ?_⟩
    simp [hquote, hslash, hline, hreturn]

/-- The code units of a written character. -/
def literalUnits (c : Char) : List CodeUnit := (literalChar c).flatMap charUnits

private theorem literalUnits_of_escape {c d : Char} (h : literalChar c = ['\\', d])
    (hd : d ∈ ['"', '\\', 'n', 'r', 't']) : literalUnits c = [unit '\\', unit d] := by
  have hunits : ∀ e ∈ ['"', '\\', 'n', 'r', 't'], charUnits e = [unit e] := by
    simp [charUnits, unit]
  rw [literalUnits, h]
  simp [hunits d hd, hunits '\\' (by decide)]

private theorem units_stringLiteral (value : String) : units (stringLiteral value) =
    unit '"' :: (value.toList.flatMap literalUnits ++ [unit '"']) := by
  have hquote : charUnits '"' = [unit '"'] := by decide
  simp only [units, stringLiteral, String.toList_ofList, List.flatMap_append,
    List.flatMap_singleton, hquote, List.flatMap_assoc]
  rfl

private theorem literalUnits_of_plain {c : Char} (h : literalChar c = [c]) :
    literalUnits c = charUnits c := by
  rw [literalUnits, h, List.flatMap_singleton]

/-- A written character does not start with a quote. -/
theorem head_literalUnits (c : Char) :
    ∃ first more, literalUnits c = first :: more ∧ first ≠ unit '"' := by
  rcases literalChar_cases c with ⟨d, hchar, hd⟩ | ⟨hchar, hplain⟩
  · exact ⟨_, _, literalUnits_of_escape hchar hd, by decide⟩
  · rw [literalUnits_of_plain hchar]
    cases hunits : charUnits c with
    | nil => exact absurd hunits (charUnits_ne_nil c)
    | cons first more =>
      refine ⟨first, more, rfl, ?_⟩
      rintro rfl
      exact hplain (by simp [eq_of_unit_mem_charUnits (by decide)
        (hunits ▸ List.mem_cons_self : unit '"' ∈ charUnits c)])

/-- No Unicode escape starts in a written character. -/
theorem translateFrom_literalUnits (c : Char) (rest : List CodeUnit) :
    translateFrom .outside (literalUnits c ++ rest) =
      (literalUnits c).map .unit ++ translateFrom .outside rest := by
  rcases literalChar_cases c with ⟨d, hchar, hd⟩ | ⟨hchar, hplain⟩
  · have hmarker : ∀ e ∈ ['"', '\\', 'n', 'r', 't'], unit e ≠ unit 'u' := by simp [unit]
    rw [literalUnits_of_escape hchar hd]
    exact translateFrom_backslash (hmarker d hd) rest
  · refine translateFrom_of_not_mem (fun hmem => ?_) rest
    rw [literalUnits_of_plain hchar] at hmem
    exact hplain (by simp [eq_of_unit_mem_charUnits (by decide) hmem])

/-- No Unicode escape starts in a written literal. -/
theorem translate_stringLiteral (value : String) (rest : List CodeUnit) :
    translate (units (stringLiteral value) ++ rest) =
      (units (stringLiteral value)).map .unit ++ translate rest := by
  -- Between two written characters no escape is open, so they are translated one by one.
  have hchars : ∀ (cs : List Char) (after : List CodeUnit),
      translateFrom .outside (cs.flatMap literalUnits ++ after) =
        (cs.flatMap literalUnits).map .unit ++ translateFrom .outside after := by
    intro cs after
    induction cs with
    | nil => rfl
    | cons c cs ih =>
      rw [List.flatMap_cons, List.append_assoc, translateFrom_literalUnits, ih, List.map_append,
        List.append_assoc]
  have hquote (after : List CodeUnit) : translateFrom .outside (unit '"' :: after) =
      .unit (unit '"') :: translateFrom .outside after :=
    translateFrom_of_not_mem (s := [unit '"']) (by decide) after
  rw [units_stringLiteral, translate, List.cons_append, hquote, List.append_assoc, hchars,
    List.singleton_append, hquote]
  simp [translate]

/-- Code units that are neither quotes nor backslashes nor line breaks are read as they are. -/
theorem stringRest_plain {us : List CodeUnit}
    (h : ∀ d ∈ ['"', '\\', '\n', '\r'], unit d ∉ us) (rest : List Input) :
    stringRest .plain (us.map .unit ++ rest) =
      (stringRest .plain rest).map fun (value, after) => (us ++ value, after) := by
  induction us with
  | nil => simp
  | cons u us ih =>
    have hne : ∀ d ∈ ['"', '\\', '\n', '\r'], u ≠ unit d := fun d hd heq =>
      h d hd (by simp [heq])
    have hus := ih fun d hd hmem => h d hd (List.mem_cons_of_mem u hmem)
    have hstep : plainUnit u (us.map .unit ++ rest)
        (fun state => stringRest state (us.map .unit ++ rest)) =
          (stringRest .plain (us.map .unit ++ rest)).map
            fun (value, after) => (u :: value, after) := by
      simp [plainUnit, hne]
    rw [List.map_cons, List.cons_append, stringRest, hstep, hus, Option.map_map]
    rfl

/-- An escape sequence of one character stands for the same character in a text and in its code
units. -/
theorem escapedUnit?_unit {c d : Char} (h : escaped? c = some d) :
    octalValue? (unit c) = none ∧ escapedUnit? (unit c) = some (unit d) ∧
      charUnits c = [unit c] ∧ charUnits d = [unit d] := by
  have hc : c ∈ escapeSequences.map Prod.fst := by
    refine Decidable.byContradiction fun hnone => ?_
    simp only [escapeSequences, List.map_cons, List.map_nil, List.mem_cons, List.not_mem_nil,
      or_false, not_or] at hnone
    simp [escaped?, hnone] at h
  simp only [escapeSequences, List.map_cons, List.map_nil, List.mem_cons, List.not_mem_nil,
    or_false] at hc
  rcases hc with rfl | rfl | rfl | rfl | rfl | rfl | rfl | rfl | rfl
  all_goals
    obtain rfl := Option.some.inj h
    decide

/-- What is read as a string literal from the characters of a text is read as the same one from its
code units. -/
theorem stringRest_of_stringEnd {s value rest : List Char} (h : stringEnd s = some (value, rest)) :
    ∃ literal, s = literal ++ rest ∧ ∀ after : List Input,
      stringRest .plain ((literal.flatMap charUnits).map .unit ++ after) =
        some (value.flatMap charUnits, after) := by
  have hquote : charUnits '"' = [unit '"'] := by decide
  have hslash : charUnits '\\' = [unit '\\'] := by decide
  have hlow : ∀ d ∈ ['"', '\\', '\n', '\r'], d.toNat < 0xD800 := by simp
  induction s using stringEnd.induct generalizing value rest with
  | case1 => simp [stringEnd] at h
  | case2 rest' =>
    obtain ⟨rfl, rfl⟩ := Prod.mk.inj (Option.some.inj h)
    exact ⟨['"'], rfl, fun after => by simp [hquote, stringRest, plainUnit]⟩
  | case3 => simp [stringEnd] at h
  | case4 c rest' ih =>
    rw [stringEnd, Option.bind_eq_some_iff] at h
    obtain ⟨d, hescaped, h⟩ := h
    obtain ⟨⟨value', rest''⟩, hrest, heq⟩ := Option.map_eq_some_iff.mp h
    obtain ⟨rfl, rfl⟩ := Prod.mk.inj heq
    obtain ⟨literal, rfl, hread⟩ := ih hrest
    obtain ⟨hoctal, hunit, hc, hd⟩ := escapedUnit?_unit hescaped
    have hne : unit '\\' ≠ unit '"' := by decide
    refine ⟨'\\' :: c :: literal, rfl, fun after => ?_⟩
    simp [hslash, hc, hd, stringRest, plainUnit, hne, hoctal, hunit, hread after]
  | case5 c rest' _ _ _ hbreak => simp [stringEnd, hbreak] at h
  | case6 c rest' hc hend hescape hbreak ih =>
    rw [stringEnd, if_neg hbreak] at h
    · obtain ⟨⟨value', rest''⟩, hrest, heq⟩ := Option.map_eq_some_iff.mp h
      obtain ⟨rfl, rfl⟩ := Prod.mk.inj heq
      obtain ⟨literal, rfl, hread⟩ := ih hrest
      have hplain : ∀ d ∈ ['"', '\\', '\n', '\r'], unit d ∉ charUnits c := by
        intro d hd hmem
        obtain rfl := eq_of_unit_mem_charUnits (hlow d hd) hmem
        simp only [List.mem_cons, List.not_mem_nil, or_false] at hd
        rcases hd with rfl | rfl | rfl | rfl
        · exact hc rfl
        · cases hs : literal ++ rest'' with
          | nil => exact hend rfl hs
          | cons next more => exact hescape next more rfl hs
        · exact hbreak rfl
        · exact hbreak rfl
      refine ⟨c :: literal, rfl, fun after => ?_⟩
      rw [List.flatMap_cons, List.map_append, List.append_assoc, stringRest_plain hplain,
        hread after]
      rfl
    all_goals assumption

/-- After the translation of Unicode escapes a written string literal is read as its text and as no
other, and what is left over is what the following text is translated to. -/
theorem stringLiteral_reads_iff (value other : String) (rest : List CodeUnit) :
    readString? (translate (units (stringLiteral value) ++ rest)) =
        some (units other, translate rest) ↔ other = value := by
  have hread : readString? (translate (units (stringLiteral value) ++ rest)) =
      some (units value, translate rest) := by
    obtain ⟨literal, hliteral, hvalue⟩ :=
      stringRest_of_stringEnd (stringEnd_literal value.toList [])
    have htext : (stringLiteral value).toList = '"' :: literal := by
      rw [List.append_nil] at hliteral
      rw [← hliteral]
      simp [stringLiteral]
    have hunits : units (stringLiteral value) = unit '"' :: literal.flatMap charUnits := by
      have hquote : charUnits '"' = [unit '"'] := by decide
      simp [units, htext, hquote]
    rw [translate_stringLiteral, hunits, List.map_cons, List.cons_append, readString?, if_pos rfl,
      hvalue, units]
  rw [hread]
  constructor
  · intro h
    exact (units_injective (Prod.mk.inj (Option.some.inj h)).1).symm
  · rintro rfl
    rfl

/-- A written string literal is the start of a text block only if it is empty and the following text
goes on with a quote, blanks and the end of the line. -/
theorem opensTextBlock_stringLiteral_iff (value : String) (rest : List CodeUnit) :
    OpensTextBlock (translate (units (stringLiteral value) ++ rest)) ↔
      value = "" ∧ OpensTextBlock (.unit (unit '"') :: .unit (unit '"') :: translate rest) := by
  rw [translate_stringLiteral, units_stringLiteral]
  cases hvalue : value.toList with
  | nil =>
    have hempty : value = "" := String.toList_injective (by simpa using hvalue)
    simp [hempty]
  | cons c cs =>
    have hne : value ≠ "" := by
      rintro rfl
      simp at hvalue
    simp only [hne, false_and, iff_false]
    rintro ⟨blanks, lineEnd, after, -, -, heq⟩
    obtain ⟨first, more, hfirst, hquote⟩ := head_literalUnits c
    simp only [List.flatMap_cons, hfirst, List.cons_append, List.map_cons, List.cons.injEq,
      Input.unit.injEq] at heq
    exact hquote heq.2.1

end BeanSynthesis.Java
