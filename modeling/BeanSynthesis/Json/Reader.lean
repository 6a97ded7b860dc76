import BeanSynthesis.Json.Token

/-!
# Reading JSON

The syntax of JSON over tokens: one value, and nothing after it. Values may nest to any depth
here; the reader of a format decides how deep it looks.
-/

namespace BeanSynthesis.Json

/-- Tokens that are left after a non-empty part of `ts` has been read. -/
abbrev FewerTokens (ts : List Token) := { rest : List Token // rest.length < ts.length }

mutual

/-- Reads one value. -/
def readValue (ts : List Token) : Option (Json × FewerTokens ts) :=
  match ts with
  | .null :: rest => some (.null, ⟨rest, Nat.lt_succ_self _⟩)
  | .bool b :: rest => some (.bool b, ⟨rest, Nat.lt_succ_self _⟩)
  | .number n :: rest => some (.number n, ⟨rest, Nat.lt_succ_self _⟩)
  | .string s :: rest => some (.string s, ⟨rest, Nat.lt_succ_self _⟩)
  | .openBracket :: .closeBracket :: rest =>
    some (.array [], ⟨rest, by simp only [List.length_cons]; omega⟩)
  | .openBracket :: rest =>
    match readItems rest with
    | some (items, rest') =>
      some (.array items, ⟨rest'.1, by have := rest'.2; simp only [List.length_cons]; omega⟩)
    | none => none
  | .openBrace :: .closeBrace :: rest =>
    some (.object [], ⟨rest, by simp only [List.length_cons]; omega⟩)
  | .openBrace :: rest =>
    match readMembers rest with
    | some (members, rest') =>
      some (.object members, ⟨rest'.1, by have := rest'.2; simp only [List.length_cons]; omega⟩)
    | none => none
  | _ => none
termination_by (ts.length, 0)

/-- Reads the items of a non-empty array up to and with its closing bracket. -/
def readItems (ts : List Token) : Option (List Json × FewerTokens ts) :=
  match readValue ts with
  | none => none
  | some (item, ⟨.comma :: rest, h⟩) =>
    have hlt : rest.length < ts.length := by simp only [List.length_cons] at h; omega
    match readItems rest with
    | some (items, rest') => some (item :: items, ⟨rest'.1, by have := rest'.2; omega⟩)
    | none => none
  | some (item, ⟨.closeBracket :: rest, h⟩) =>
    some ([item], ⟨rest, by simp only [List.length_cons] at h; omega⟩)
  | some _ => none
termination_by (ts.length, 1)

/-- Reads the members of a non-empty object up to and with its closing brace. -/
def readMembers (ts : List Token) : Option (List (Option String × Json) × FewerTokens ts) :=
  match ts with
  | .string name :: .colon :: rest =>
    match readValue rest with
    | none => none
    | some (value, ⟨.comma :: rest', h⟩) =>
      have hlt : rest'.length < (Token.string name :: .colon :: rest).length := by
        simp only [List.length_cons] at h ⊢; omega
      match readMembers rest' with
      | some (members, rest'') =>
        some ((name, value) :: members, ⟨rest''.1, by have := rest''.2; omega⟩)
      | none => none
    | some (value, ⟨.closeBrace :: rest', h⟩) =>
      some ([(name, value)], ⟨rest', by simp only [List.length_cons] at h ⊢; omega⟩)
    | some _ => none
  | _ => none
termination_by (ts.length, 1)

end

/-- The value that a text holds, if it is one JSON value. -/
def parse? (text : String) : Option Json := do
  let ts ← tokens? text
  match readValue ts with
  | some (value, ⟨[], _⟩) => some value
  | _ => none

end BeanSynthesis.Json
