import BeanSynthesis.Proofs.JavaText.Tokens
import BeanSynthesis.Source.Literal

/-!
# Cutting a text into tokens

A text is cut piece by piece: what a piece of it is cut into depends on the rest only through the
first character of the rest, which may go on with a word, make a number a floating-point literal or
a sign a longer one.
-/

namespace BeanSynthesis.Java

variable {letters : Letters}

/-! ## Pieces of text -/

variable (letters) in
/-- Before the rest a piece of text is cut into these tokens, unless it is unreadable. -/
def Cuts (text : List Char) (unreadable : Bool) (ts : List Token) (rest : List Char) : Prop :=
  letters.tokens? (text ++ rest) =
    if unreadable then none else (letters.tokens? rest).map (ts ++ ·)

namespace Cuts

variable {s t rest : List Char} {x y : Bool} {ts us : List Token}

/-- An empty piece has no tokens. -/
theorem nil : Cuts letters [] false [] rest := by
  simp [Cuts]

/-- Two pieces in a row have the tokens of both, and are unreadable if one of them is. -/
theorem append (hs : Cuts letters s x ts (t ++ rest)) (ht : Cuts letters t y us rest) :
    Cuts letters (s ++ t) (x || y) (ts ++ us) rest := by
  unfold Cuts at hs ht ⊢
  rw [List.append_assoc, hs, ht]
  cases x
  · cases y
    · simp [Function.comp_def]
    · rfl
  · rfl

/-- A readable piece is cut by itself. -/
theorem before (hs : Cuts letters s false ts (t ++ rest)) (ht : Cuts letters t y us rest) :
    Cuts letters (s ++ t) y (ts ++ us) rest := by
  have hcut := hs.append ht
  rwa [Bool.false_or] at hcut

/-- What follows an unreadable piece does not matter. -/
theorem unreadable (hs : Cuts letters s true ts (t ++ rest)) (us : List Token) :
    Cuts letters (s ++ t) true us rest := by
  unfold Cuts at hs ⊢
  rw [List.append_assoc, hs]
  rfl

/-- A space has no tokens. -/
theorem space : Cuts letters [' '] false [] rest := by
  rw [Cuts, List.singleton_append, Letters.tokens?_cons]
  simp [isSpace]

end Cuts

/-! ## Words, numbers and strings -/

variable (letters) in
/-- No word goes on so. -/
def EndsWord (rest : List Char) : Prop := ∀ c ∈ rest.head?, letters.isPart c = false

private theorem takeWhile_append_of_ends {p : Char → Bool} {s rest : List Char} (hs : ∀ c ∈ s, p c)
    (hrest : ∀ c ∈ rest.head?, p c = false) :
    (s ++ rest).takeWhile p = s ∧ (s ++ rest).dropWhile p = rest := by
  rw [List.takeWhile_append_of_pos hs, List.dropWhile_append_of_pos hs]
  cases rest with
  | nil => simp
  | cons c rest =>
    have hc : p c = false := hrest c rfl
    simp [hc]

private theorem Letters.isSpace_of_isStart {c : Char} (h : letters.isStart c) :
    isSpace c = false := by
  cases hspace : isSpace c with
  | false => rfl
  | true =>
    have hpart := letters.isPart_of_isStart h
    rw [letters.isPart_space hspace] at hpart
    cases hpart

/-- A word is one token, if no letter or digit follows. -/
theorem Cuts.word {s rest : List Char} (hs : letters.IsWord s) (hrest : EndsWord letters rest) :
    Cuts letters s false [.word (String.ofList s)] rest := by
  obtain ⟨first, more, rfl, hfirst, hmore⟩ := hs
  obtain ⟨htake, hdrop⟩ := takeWhile_append_of_ends hmore hrest
  rw [Cuts, List.cons_append, Letters.tokens?_cons,
    if_neg (by simp [letters.isSpace_of_isStart hfirst]), if_pos hfirst, htake, hdrop]
  rfl

private theorem isDigit_bounds {c : Char} (h : c.isDigit) : 48 ≤ c.toNat ∧ c.toNat ≤ 57 := by
  simp only [Char.isDigit, Bool.and_eq_true, decide_eq_true_eq, ge_iff_le,
    UInt32.le_iff_toNat_le] at h
  exact h

/-- A digit goes on with a word but does not start one. -/
theorem Letters.of_isDigit {c : Char} (h : c.isDigit) :
    isSpace c = false ∧ letters.isStart c = false ∧ letters.isPart c = true := by
  obtain ⟨hlow, hhigh⟩ := isDigit_bounds h
  have hfrom : ' ' ≤ c := by
    rw [Char.le_def, UInt32.le_iff_toNat_le]
    exact Nat.le_trans (by decide) hlow
  have hto : c ≤ '~' := by
    rw [Char.le_def, UInt32.le_iff_toNat_le]
    exact Nat.le_trans hhigh (by decide)
  have hne : ∀ d : Char, d.toNat < 48 ∨ 57 < d.toNat → c ≠ d := by
    rintro d hd rfl
    omega
  have halpha : c.isAlpha = false := by
    have hletter : c.isAlpha = (decide (65 ≤ c.toNat ∧ c.toNat ≤ 90) ||
        (decide (97 ≤ c.toNat) && decide (c.toNat ≤ 122))) := rfl
    rw [hletter]
    simp only [Bool.or_eq_false_iff, Bool.and_eq_false_iff, decide_eq_false_iff_not]
    omega
  refine ⟨?_, ?_, ?_⟩
  · simp [isSpace, hne ' ' (by decide), hne '\t' (by decide), hne '\n' (by decide),
      hne '\r' (by decide), hne '\x0c' (by decide)]
  · rw [letters.isStart_ascii hfrom hto]
    simp [halpha, hne '_' (by decide), hne '$' (by decide)]
  · rw [letters.isPart_ascii hfrom hto]
    simp [Char.isAlphanum, h]

/-- Digits are one number; with a dot or a letter after them they are unreadable. -/
theorem cuts_digits {digits rest : List Char} (hne : digits ≠ [])
    (hdigits : ∀ c ∈ digits, c.isDigit) (hrest : ∀ c ∈ rest.head?, c.isDigit = false) :
    Cuts letters digits (rest.head?.any fun next => next = '.' || letters.isPart next)
      [.number (String.ofList digits)] rest := by
  cases digits with
  | nil => exact absurd rfl hne
  | cons first more =>
    obtain ⟨hfirst, hmore⟩ := List.forall_mem_cons.mp hdigits
    obtain ⟨hspace, hstart, -⟩ := @Letters.of_isDigit letters first hfirst
    obtain ⟨htake, hdrop⟩ := takeWhile_append_of_ends hmore hrest
    rw [Cuts, List.cons_append, Letters.tokens?_cons, if_neg (by simp [hspace]),
      if_neg (by simp [hstart]), if_pos hfirst, htake, hdrop]
    rfl

/-- A character of a string literal is read back. -/
theorem stringEnd_literalChar {c : Char} {s value after : List Char}
    (h : stringEnd s = some (value, after)) :
    stringEnd (Source.literalChar c ++ s) = some (c :: value, after) := by
  unfold Source.literalChar
  by_cases hquote : c = '"'
  · subst hquote
    simp [stringEnd, escaped?, h]
  by_cases hslash : c = '\\'
  · subst hslash
    simp [stringEnd, escaped?, h]
  by_cases hline : c = '\n'
  · subst hline
    simp [stringEnd, escaped?, h]
  by_cases hreturn : c = '\r'
  · subst hreturn
    simp [stringEnd, escaped?, h]
  by_cases htab : c = '\t'
  · subst htab
    simp [stringEnd, escaped?, h]
  simp only [hquote, hslash, hline, hreturn, htab, if_false, List.singleton_append]
  rw [stringEnd]
  · simp [hline, hreturn, h]
  all_goals simp_all

/-- The text of a string literal is read to its closing quote. -/
theorem stringEnd_literal (value rest : List Char) :
    stringEnd (value.flatMap Source.literalChar ++ '"' :: rest) = some (value, rest) := by
  induction value with
  | nil => rfl
  | cons c value ih =>
    rw [List.flatMap_cons, List.append_assoc]
    exact stringEnd_literalChar ih

/-- A string literal is one token, if no quote follows. -/
theorem Cuts.string {value : String} {rest : List Char} (hrest : rest.head? ≠ some '"') :
    Cuts letters (Source.stringLiteral value).toList false [.string value] rest := by
  have hspace : isSpace '"' = false := by decide
  have hstart : letters.isStart '"' = false :=
    (letters.isStart_ascii (by decide) (by decide)).trans (by decide)
  have htext : (Source.stringLiteral value).toList ++ rest =
      '"' :: (value.toList.flatMap Source.literalChar ++ '"' :: rest) := by
    simp [Source.stringLiteral]
  have hblock : (value.toList.flatMap Source.literalChar ++ '"' :: rest).take 2 ≠ ['"', '"'] := by
    cases hvalue : value.toList with
    | nil =>
      cases rest with
      | nil => simp
      | cons c rest =>
        have hc : c ≠ '"' := fun h => hrest (h ▸ rfl)
        simp [hc]
    | cons c more =>
      have hfirst : ∃ d ds, Source.literalChar c = d :: ds ∧ d ≠ '"' := by
        unfold Source.literalChar
        split
        · exact ⟨_, _, rfl, by decide⟩
        · repeat' split
          all_goals exact ⟨_, _, rfl, by first | decide | assumption⟩
      obtain ⟨d, ds, hchar, hd⟩ := hfirst
      simp [hchar, hd]
  rw [Cuts, htext, Letters.tokens?_cons, if_neg (by simp [hspace]), if_neg (by simp [hstart]),
    if_neg (by decide), if_pos rfl, if_neg hblock, stringEnd_literal]
  simp

/-! ## Signs -/

/-- The characters that signs start with. -/
def signChars : List Char :=
  ['=', '!', '|', '&', '-', '?', ':', ',', '.', '(', ')', '<', '>', '[', ']']

/-- What starts a sign starts no other token. -/
theorem Letters.of_sign (letters : Letters) {c : Char} (hc : c ∈ signChars) :
    isSpace c = false ∧ letters.isStart c = false ∧ c.isDigit = false ∧ c ≠ '"' := by
  have hascii : ∀ d ∈ signChars, isSpace d = false ∧ ' ' ≤ d ∧ d ≤ '~' ∧
      (d.isAlpha || d == '_' || d == '$') = false ∧ d.isDigit = false ∧ d ≠ '"' := by
    simp [signChars, isSpace]
  obtain ⟨hspace, hfrom, hto, hletter, hdigit, hquote⟩ := hascii c hc
  exact ⟨hspace, (letters.isStart_ascii hfrom hto).trans hletter, hdigit, hquote⟩

/-- A sign is one token. -/
theorem Cuts.sign {c : Char} {s rest : List Char} {token : Token} (hc : c ∈ signChars)
    (hsign : sign (c :: s ++ rest) = some (token, rest)) :
    Cuts letters (c :: s) false [token] rest := by
  obtain ⟨hspace, hstart, hdigit, hquote⟩ := letters.of_sign hc
  rw [Cuts, List.cons_append, Letters.tokens?_cons, if_neg (by simp [hspace]),
    if_neg (by simp [hstart]), if_neg (by simp [hdigit]), if_neg hquote, ← List.cons_append, hsign]
  rfl

/-- A dot is one token, if no digit follows. -/
theorem Cuts.dot {rest : List Char} (hrest : rest.head?.any Char.isDigit = false) :
    Cuts letters ['.'] false [.dot] rest := by
  refine .sign (by decide) ?_
  simp only [List.singleton_append, Java.sign, hrest]
  rfl

/-- An opening angle is one token, if no sign goes on with it. -/
theorem Cuts.openAngle {rest : List Char} (hangle : rest.head? ≠ some '<')
    (hequals : rest.head? ≠ some '=') : Cuts letters ['<'] false [.openAngle] rest := by
  refine .sign (by decide) ?_
  simp [Java.sign, hangle, hequals]

/-- A closing angle is one token, if no equals sign follows. -/
theorem Cuts.closeAngle {rest : List Char} (hequals : rest.head? ≠ some '=') :
    Cuts letters ['>'] false [.closeAngle] rest := by
  refine .sign (by decide) ?_
  simp [Java.sign, hequals]

/-- A mark of negation is one token, if no equals sign follows. -/
theorem Cuts.bang {rest : List Char} (hequals : rest.head? ≠ some '=') :
    Cuts letters ['!'] false [.bang] rest := by
  refine .sign (by decide) ?_
  cases rest with
  | nil => rfl
  | cons c rest =>
    have hc : c ≠ '=' := fun h => hequals (h ▸ rfl)
    simp [Java.sign, hc]

/-- A binary operator is one token, with a space after it. -/
theorem Cuts.operator (op : BinaryOp) (rest : List Char) :
    Cuts letters op.symbol.toList false [.operator op] (' ' :: rest) := by
  cases op <;> exact .sign (by decide) rfl

end BeanSynthesis.Java
