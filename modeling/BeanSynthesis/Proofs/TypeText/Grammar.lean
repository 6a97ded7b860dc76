import BeanSynthesis.TypeExpr.Printer
import BeanSynthesis.TypeExpr.Reader
import Mathlib.Data.List.DropRight
import Mathlib.Data.List.TakeWhile

/-!
# The grammar of written types

A type is written as a sequence of tokens, each with any white space before it. The word `extends`
is one token together with the one space after it. The printer is one way of doing so: its only
white space stands after a comma and around `extends`.
-/

namespace BeanSynthesis

namespace Text

/-- A character is outside of all ranges that lie apart from one that holds it. -/
theorem inRanges_of_apart {ranges others : List CharRange} {c : Char}
    (h : ranges.all fun r => others.all fun other => r.2.blt other.1 || other.2.blt r.1)
    (hc : inRanges ranges c) : inRanges others c = false := by
  obtain ⟨r, hr, hin⟩ := List.any_eq_true.mp hc
  refine List.any_eq_false.mpr fun other hother => ?_
  have hapart := List.all_eq_true.mp (List.all_eq_true.mp h r hr) other hother
  simp only [Bool.or_eq_true, Nat.blt_eq, Bool.and_eq_true, decide_eq_true_eq] at hin hapart ⊢
  omega

/-- No letter or digit is white space. -/
theorem isAlphanumeric_of_isBlank {c : Char} (h : isBlank c) : isAlphanumeric c = false := by
  unfold isAlphanumeric
  split
  case isTrue hascii =>
    have hall : ∀ n ∈ [9, 10, 11, 12, 13, 32], (Char.ofNat n).isAlphanum = false := by decide
    simp only [isBlank, inRanges, blankRanges, List.any_cons, List.any_nil, Bool.or_false,
      Bool.or_eq_true, Bool.and_eq_true, decide_eq_true_eq] at h
    have hcode := hall c.toNat (by
      simp only [List.mem_cons, List.not_mem_nil, or_false]
      omega)
    rwa [Char.ofNat_toNat] at hcode
  case isFalse _ => exact inRanges_of_apart (by decide +kernel) h

/-- White space in front is skipped. -/
theorem skipBlank_append {blank : List Char} (h : ∀ c ∈ blank, isBlank c) (s : List Char) :
    skipBlank (blank ++ s) = skipBlank s :=
  List.dropWhile_append_of_pos h

/-- Nothing is skipped before anything else. -/
theorem skipBlank_cons_of_not {c : Char} (h : isBlank c = false) (s : List Char) :
    skipBlank (c :: s) = c :: s :=
  List.dropWhile_cons_of_neg (by simp [h])

/-- All is skipped if and only if all is white space. -/
theorem skipBlank_eq_nil {s : List Char} : skipBlank s = [] ↔ ∀ c ∈ s, isBlank c :=
  List.dropWhile_eq_nil_iff

/-- After white space has been skipped there is none. -/
@[simp] theorem skipBlank_skipBlank (s : List Char) : skipBlank (skipBlank s) = skipBlank s :=
  List.dropWhile_idempotent _ _

/-- White space is followed by what is left when it is skipped. -/
theorem exists_blank_append (s : List Char) :
    ∃ blank, (∀ c ∈ blank, isBlank c) ∧ s = blank ++ skipBlank s :=
  ⟨s.takeWhile isBlank, fun _ hc => List.mem_takeWhile_imp hc,
    (List.takeWhile_append_dropWhile).symm⟩

end Text

namespace TypeExpr

/-- A token of a written type. -/
inductive Token where
  | name (text : String)
  | wildcard
  /-- The word before the bound of a wildcard, with one space after it. -/
  | bound
  | opening | comma | closing
  | brackets

/-- The characters of a token. -/
def Token.chars : Token → List Char
  | name text => text.toList
  | wildcard => ['?']
  | bound => boundToken
  | opening => ['<']
  | comma => [',']
  | closing => ['>']
  | brackets => ['[', ']']

mutual

/-- The tokens of a type. -/
def tokens : TypeExpr → List Token
  | void => [.name "void"]
  | primitive p => [.name p.keyword]
  | named name [] => [.name name]
  | named name (arg :: args) =>
    [.name name, .opening] ++ arg.tokens ++ restTokens args ++ [.closing]
  | array element => element.tokens ++ [.brackets]
  | unbounded => [.wildcard]
  | bounded bound => [.wildcard, .bound] ++ bound.tokens

/-- The tokens of the arguments after the first, each after a comma. -/
def restTokens : List TypeExpr → List Token
  | [] => []
  | arg :: args => .comma :: arg.tokens ++ restTokens args

end

/-- A text starts with these tokens, each after any white space, and `rest` is what follows. -/
inductive Spaced : List Token → (s rest : List Char) → Prop
  | nil (rest : List Char) : Spaced [] rest rest
  | cons {blank m rest : List Char} {tokens : List Token} (token : Token)
    (hblank : ∀ c ∈ blank, Text.isBlank c) (h : Spaced tokens m rest) :
    Spaced (token :: tokens) (blank ++ token.chars ++ m) rest

/-- A text is a written form of a type: its tokens, with any white space before them and at the
end. -/
def WrittenAs (t : TypeExpr) (text : String) : Prop :=
  ∃ rest, Spaced t.tokens text.toList rest ∧ ∀ c ∈ rest, Text.isBlank c

/-- A name that reads as that of a class. -/
structure IsClassName (name : String) : Prop where
  ne_empty : name ≠ ""
  nameChars : ∀ c ∈ name.toList, isNameChar c
  ne_void : name ≠ "void"
  not_keyword : ∀ p : Primitive, name ≠ p.keyword

/-- Whether the type is a wildcard. -/
def isWildcard : TypeExpr → Bool
  | unbounded => true
  | bounded _ => true
  | _ => false

mutual

/-- A type that has a written form: its classes are called as classes may be, and no wildcard is
directly the element of an array, where its written form would be taken for something else. -/
def WellFormed : TypeExpr → Prop
  | void => True
  | primitive _ => True
  | named name args => IsClassName name ∧ AllWellFormed args
  | array element => element.isWildcard = false ∧ element.WellFormed
  | unbounded => True
  | bounded bound => bound.WellFormed

/-- All types of a list are well-formed. -/
def AllWellFormed : List TypeExpr → Prop
  | [] => True
  | t :: ts => t.WellFormed ∧ AllWellFormed ts

end

/-! ## Texts with tokens -/

variable {token : Token} {tokens more : List Token} {s m rest : List Char}

/-- The end of a text with two runs of tokens is that of the second run. -/
theorem spaced_append :
    Spaced (tokens ++ more) s rest ↔ ∃ m, Spaced tokens s m ∧ Spaced more m rest := by
  constructor
  · intro h
    induction tokens generalizing s with
    | nil => exact ⟨s, .nil s, h⟩
    | cons token tokens ih =>
      cases h with
      | cons _ hblank h =>
        obtain ⟨m, htokens, hmore⟩ := ih h
        exact ⟨m, .cons token hblank htokens, hmore⟩
  · rintro ⟨m, htokens, hmore⟩
    induction htokens with
    | nil => exact hmore
    | cons token hblank _ ih => exact .cons token hblank (ih hmore)

/-- Tokens stand in characters that do not depend on what follows them. -/
theorem Spaced.exists_front {tokens : List Token} (h : Spaced tokens s rest) :
    ∃ front, s = front ++ rest ∧ ∀ rest', Spaced tokens (front ++ rest') rest' := by
  induction h with
  | nil rest => exact ⟨[], rfl, .nil⟩
  | @cons blank m rest tokens token hblank _ ih =>
    obtain ⟨front, rfl, hfront⟩ := ih
    refine ⟨blank ++ token.chars ++ front, (List.append_assoc ..).symm, fun rest' => ?_⟩
    rw [List.append_assoc]
    exact .cons token hblank (hfront rest')

/-- A token that does not start with white space is what follows the white space. -/
theorem spaced_cons (h : ∀ r, Text.skipBlank (token.chars ++ r) = token.chars ++ r) :
    Spaced (token :: tokens) s rest ↔
      ∃ m, Text.skipBlank s = token.chars ++ m ∧ Spaced tokens m rest := by
  constructor
  · intro hs
    cases hs with
    | @cons blank m _ _ _ hblank htokens =>
      exact ⟨m, by rw [List.append_assoc, Text.skipBlank_append hblank, h], htokens⟩
  · rintro ⟨m, hskip, htokens⟩
    obtain ⟨blank, hblank, hs⟩ := Text.exists_blank_append s
    rw [hs, hskip, ← List.append_assoc]
    exact .cons token hblank htokens

/-- White space is no part of a name. -/
theorem isBlank_of_isNameChar {c : Char} (h : isNameChar c) : Text.isBlank c = false := by
  cases hblank : Text.isBlank c with
  | false => rfl
  | true =>
    simp only [isNameChar, Text.isAlphanumeric_of_isBlank hblank, Bool.false_or, Bool.or_eq_true,
      decide_eq_true_eq] at h
    obtain (rfl | rfl) | rfl := h
    · exact absurd hblank (by decide)
    · exact absurd hblank (by decide)
    · exact absurd hblank (by decide)

/-- A token that is no name starts with a character that is not white space. -/
theorem Token.skipBlank_chars (h : ∀ text, token ≠ .name text) (r : List Char) :
    Text.skipBlank (token.chars ++ r) = token.chars ++ r := by
  cases token with
  | name text => exact absurd rfl (h text)
  | _ => exact Text.skipBlank_cons_of_not (by decide) _

/-- A name starts with a character that is not white space. -/
theorem Token.skipBlank_name {name : String} (hne : name ≠ "")
    (hchars : ∀ c ∈ name.toList, isNameChar c) (r : List Char) :
    Text.skipBlank ((Token.name name).chars ++ r) = (Token.name name).chars ++ r := by
  cases hname : name.toList with
  | nil => exact absurd (String.toList_eq_nil_iff.mp hname) hne
  | cons c cs =>
    have hc : isNameChar c := hchars c (hname ▸ List.mem_cons_self)
    simp only [Token.chars, hname, List.cons_append]
    exact Text.skipBlank_cons_of_not (isBlank_of_isNameChar hc) _

/-! ## Printing -/

/-- A token without white space before it. -/
theorem Spaced.tight (h : Spaced tokens m rest) (token : Token) :
    Spaced (token :: tokens) (token.chars ++ m) rest := by
  have hnone : ∀ c ∈ ([] : List Char), Text.isBlank c := nofun
  exact .cons token hnone h

/-- White space before the first token is white space. -/
theorem Spaced.afterSpace (h : Spaced tokens m rest) (hne : tokens ≠ []) :
    Spaced tokens (' ' :: m) rest := by
  cases h with
  | nil => exact absurd rfl hne
  | @cons blank _ _ _ token hblank h =>
    have hspaces : ∀ c ∈ ' ' :: blank, Text.isBlank c :=
      List.forall_mem_cons.mpr ⟨by decide, hblank⟩
    exact .cons token hspaces h

/-- A type has tokens. -/
theorem tokens_ne_nil (t : TypeExpr) : t.tokens ≠ [] := by
  cases t with
  | named name args => cases args <;> simp [TypeExpr.tokens]
  | _ => simp [TypeExpr.tokens]

mutual

/-- A type is printed as its tokens. -/
theorem spaced_toText (t : TypeExpr) (rest : List Char) :
    Spaced t.tokens ((t.render id).toList ++ rest) rest := by
  match t with
  | void => exact (Spaced.nil rest).tight (.name "void")
  | primitive p => exact (Spaced.nil rest).tight (.name p.keyword)
  | named name [] => exact (Spaced.nil rest).tight (.name name)
  | named name (arg :: args) =>
    have hclose : Spaced [.closing] ('>' :: rest) rest := (Spaced.nil rest).tight .closing
    have hargs := spaced_append.mpr ⟨_, spaced_renderRest args ('>' :: rest), hclose⟩
    have hall := spaced_append.mpr ⟨_, spaced_toText arg _, hargs⟩
    simpa [render, TypeExpr.tokens, Token.chars] using (hall.tight .opening).tight (.name name)
  | array element =>
    have hbrackets : Spaced [.brackets] ('[' :: ']' :: rest) rest :=
      (Spaced.nil rest).tight .brackets
    have hall := spaced_append.mpr ⟨_, spaced_toText element _, hbrackets⟩
    simpa [render, TypeExpr.tokens] using hall
  | unbounded => exact (Spaced.nil rest).tight .wildcard
  | bounded bound =>
    have hbound := ((spaced_toText bound rest).tight .bound).afterSpace (by simp)
    have hstart : "? extends ".toList = '?' :: ' ' :: boundToken := by decide +kernel
    rw [render, String.toList_append, hstart, List.append_assoc]
    exact hbound.tight .wildcard

/-- The arguments after the first are printed as their tokens. -/
theorem spaced_renderRest (args : List TypeExpr) (rest : List Char) :
    Spaced (restTokens args) ((renderRest id args).toList ++ rest) rest := by
  match args with
  | [] => exact .nil rest
  | arg :: args =>
    have hargs := spaced_append.mpr ⟨_, spaced_toText arg _, spaced_renderRest args rest⟩
    have hne : arg.tokens ++ restTokens args ≠ [] := by simp [tokens_ne_nil]
    simpa [renderRest, restTokens, Token.chars] using (hargs.afterSpace hne).tight .comma

end

end TypeExpr

end BeanSynthesis
