import BeanSynthesis.Text.Alphanumeric
import BeanSynthesis.Text.Blank
import BeanSynthesis.Text.Leading
import BeanSynthesis.TypeExpr.Basic

/-!
# Reading types

A type is read from left to right. White space may stand before every token and at the end; the
word `extends` counts as one token together with the one space after it. Every step leaves fewer
characters than it was given, and a failure says which characters were left when it arose, from
which the byte offset in the text follows.
-/

namespace BeanSynthesis

namespace TypeExpr

/-- Why a text is not a type. -/
inductive Fault where
  /-- A type had to start here. -/
  | expectedName
  /-- A type argument had to be followed by another one or by the closing bracket. -/
  | expectedSeparator
  /-- The type is complete but the text goes on. -/
  | trailing
deriving DecidableEq, Repr

/-- A fault together with the characters that were left when it arose. -/
structure Stuck where
  fault : Fault
  rest : List Char
deriving Repr

/-- Characters that are left after a non-empty part of `s` has been read. -/
abbrev Shorter (s : List Char) := { rest : List Char // rest.length < s.length }

/-- The characters of a class name. -/
def isNameChar (c : Char) : Bool :=
  Text.isAlphanumeric c || c = '_' || c = '$' || c = '.'

/-- The word that introduces the bound of a wildcard. -/
def boundToken : List Char := "extends ".toList

/-- Wraps a type into one array for every pair of brackets that follows. -/
def readBrackets (t : TypeExpr) (s : List Char) :
    TypeExpr × { rest : List Char // rest.length ≤ s.length } :=
  match h : Text.skipBlank s with
  | '[' :: ']' :: rest =>
    have hlen : rest.length + 2 ≤ s.length := by
      have := Text.length_skipBlank_le s
      simp only [h, List.length_cons] at this
      omega
    let (t, rest) := readBrackets (array t) rest
    (t, ⟨rest.1, by have := rest.2; omega⟩)
  | rest => (t, ⟨rest, h ▸ Text.length_skipBlank_le s⟩)
termination_by s.length

mutual

/-- Reads one type. -/
def readType (s : List Char) : Except Stuck (TypeExpr × Shorter s) :=
  match h : Text.skipBlank s with
  | '?' :: rest =>
    have hrest : rest.length < s.length := by
      have := Text.length_skipBlank_le s
      simp only [h, List.length_cons] at this
      omega
    match hbound : Text.afterStart? boundToken (Text.skipBlank rest) with
    | some rest' =>
      have hlt : rest'.length < s.length := by
        have := Text.length_of_afterStart? hbound
        have := Text.length_skipBlank_le rest
        omega
      match readType rest' with
      | .ok (bound, rest) => .ok (bounded bound, ⟨rest.1, by have := rest.2; omega⟩)
      | .error stuck => .error stuck
    | none => .ok (unbounded, ⟨rest, hrest⟩)
  | start =>
    match hname : start.takeWhile isNameChar with
    | [] => .error ⟨.expectedName, start⟩
    | first :: others =>
      have hrest : (start.dropWhile isNameChar).length < s.length := by
        have := Text.length_skipBlank_le s
        have hsplit := congrArg List.length (List.takeWhile_append_dropWhile (p := isNameChar)
          (l := start))
        simp only [List.length_append, hname, List.length_cons] at hsplit
        rw [h] at this
        omega
      let name := String.ofList (first :: others)
      if name = "void" then
        let (t, rest) := readBrackets void (start.dropWhile isNameChar)
        .ok (t, ⟨rest.1, by have := rest.2; omega⟩)
      else
        match Primitive.ofKeyword? name with
        | some p =>
          let (t, rest) := readBrackets (primitive p) (start.dropWhile isNameChar)
          .ok (t, ⟨rest.1, by have := rest.2; omega⟩)
        | none =>
          match hopen : Text.skipBlank (start.dropWhile isNameChar) with
          | '<' :: rest =>
            have hlt : rest.length < s.length := by
              have := Text.length_skipBlank_le (start.dropWhile isNameChar)
              simp only [hopen, List.length_cons] at this
              omega
            match readArgs rest with
            | .ok (args, rest) =>
              let (t, rest') := readBrackets (named name args) rest.1
              .ok (t, ⟨rest'.1, by have := rest'.2; have := rest.2; omega⟩)
            | .error stuck => .error stuck
          | rest =>
            let (t, rest') := readBrackets (named name []) rest
            .ok (t, ⟨rest'.1, by
              have := rest'.2
              have := Text.length_skipBlank_le (start.dropWhile isNameChar)
              rw [hopen] at this
              omega⟩)
termination_by (s.length, 0)

/-- Reads type arguments up to and with the closing bracket. -/
def readArgs (s : List Char) : Except Stuck (List TypeExpr × Shorter s) :=
  match readType s with
  | .error stuck => .error stuck
  | .ok (arg, rest) =>
    match h : Text.skipBlank rest.1 with
    | ',' :: rest' =>
      have hlt : rest'.length < s.length := by
        have := Text.length_skipBlank_le rest.1
        have := rest.2
        simp_all only [List.length_cons]
        omega
      match readArgs rest' with
      | .ok (args, rest) => .ok (arg :: args, ⟨rest.1, by have := rest.2; omega⟩)
      | .error stuck => .error stuck
    | '>' :: rest' =>
      .ok ([arg], ⟨rest', by
        have := Text.length_skipBlank_le rest.1
        have := rest.2
        simp_all only [List.length_cons]
        omega⟩)
    | rest => .error ⟨.expectedSeparator, rest⟩
termination_by (s.length, 1)

end

/-- Reads a text that is one type and nothing else. -/
def readAll (s : List Char) : Except Stuck TypeExpr :=
  match readType s with
  | .error stuck => .error stuck
  | .ok (t, rest) =>
    match Text.skipBlank rest.1 with
    | [] => .ok t
    | rest => .error ⟨.trailing, rest⟩

/-- The length of a text in bytes. -/
def byteLength (s : List Char) : Nat := s.foldr (fun c n => c.utf8Size + n) 0

/-- Why a text is refused as a type or as a class type. -/
inductive ReadError where
  | stuck (fault : Fault) (offset : Nat)
  /-- The text is a type, but not a class. -/
  | notAClass
deriving DecidableEq, Repr

/-- What a fault expects. -/
def Fault.message : Fault → String
  | .expectedName => "expected a type name"
  | .expectedSeparator => "expected ',' or '>'"
  | .trailing => "trailing characters"

/-- The reason as it is shown. -/
def ReadError.message : ReadError → String
  | .stuck fault offset => fault.message ++ " at offset " ++ Nat.repr offset
  | .notAClass => "expected a class type"

/-- Reads a type; a failure carries the byte offset at which reading stopped. -/
def parse (text : String) : Except ReadError TypeExpr :=
  match readAll text.toList with
  | .ok t => .ok t
  | .error stuck => .error (.stuck stuck.fault (byteLength text.toList - byteLength stuck.rest))

end TypeExpr

/-- Reads a class type. -/
def ClassRef.parse (text : String) : Except TypeExpr.ReadError ClassRef :=
  match TypeExpr.parse text with
  | .ok t =>
    match t.asClass? with
    | some c => .ok c
    | none => .error .notAClass
  | .error e => .error e

end BeanSynthesis
