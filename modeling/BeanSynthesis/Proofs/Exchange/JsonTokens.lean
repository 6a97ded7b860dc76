import BeanSynthesis.Json.Printer
import BeanSynthesis.Json.Reader

/-!
# The tokens of written JSON

Values that the library writes hold whole numbers of 64 bits and proper text only; they are called
plain. The text of a plain value is cut into the tokens of the value, whatever its indentation is
and whatever follows it, as long as no number can go on there.
-/

namespace BeanSynthesis.Json

mutual

/-- Whether a value holds text and whole numbers of 64 bits only. -/
def Plain : Json → Prop
  | null => True
  | bool _ => True
  | number (.integer _ magnitude) => magnitude < 18446744073709551616
  | number (.decimal ..) => False
  | string value => value.isSome
  | array items => AllPlain items
  | object members => AllMembersPlain members

/-- `Plain` for all items of an array. -/
def AllPlain : List Json → Prop
  | [] => True
  | item :: items => item.Plain ∧ AllPlain items

/-- `Plain` for all members of an object. -/
def AllMembersPlain : List (Option String × Json) → Prop
  | [] => True
  | (name, value) :: members => name.isSome ∧ value.Plain ∧ AllMembersPlain members

end

/-! ## Cutting a text -/

/-- The tokens are cut from the start of a text, and the rest of it is left. -/
inductive Cut : List Char → List Token → List Char → Prop where
  | done (s : List Char) : Cut s [] s
  | space {c : Char} {s m rest : List Char} {ts : List Token} :
      lexToken c s = some (none, m) → m.length ≤ s.length → Cut m ts rest → Cut (c :: s) ts rest
  | token {c : Char} {s m rest : List Char} {t : Token} {ts : List Token} :
      lexToken c s = some (some t, m) → m.length ≤ s.length → Cut m ts rest →
        Cut (c :: s) (t :: ts) rest

namespace Cut

variable {s m rest : List Char} {ts us : List Token}

/-- What is cut in two goes is cut. -/
theorem trans (hs : Cut s ts m) (hm : Cut m us rest) : Cut s (ts ++ us) rest := by
  induction hs with
  | done _ => exact hm
  | space hlex hlength _ ih => exact .space hlex hlength (ih hm)
  | token hlex hlength _ ih => exact .token hlex hlength (ih hm)

/-- One token at the start. -/
theorem one {c : Char} {t : Token} (hlex : lexToken c s = some (some t, m))
    (hlength : m.length ≤ s.length) : Cut (c :: s) [t] m :=
  .token hlex hlength (.done m)

/-- A text that is cut completely has these tokens: no cut takes a step without a character. -/
theorem lexAll_eq {steps : Nat} {before : List Token} (h : Cut s ts [])
    (hsteps : s.length ≤ steps) : lexAll steps s before = some (before.reverse ++ ts) := by
  generalize hrest : ([] : List Char) = rest at h
  induction h generalizing steps before with
  | done _ =>
    subst hrest
    simp [lexAll]
  | space hlex hlength _ ih =>
    obtain ⟨steps, rfl⟩ : ∃ n, steps = n + 1 :=
      ⟨steps - 1, by rw [List.length_cons] at hsteps; omega⟩
    rw [List.length_cons] at hsteps
    simp only [lexAll, hlex]
    exact ih (by omega) hrest
  | token hlex hlength _ ih =>
    obtain ⟨steps, rfl⟩ : ∃ n, steps = n + 1 :=
      ⟨steps - 1, by rw [List.length_cons] at hsteps; omega⟩
    rw [List.length_cons] at hsteps
    simp only [lexAll, hlex]
    rw [ih (by omega) hrest]
    simp

/-- A text that is cut to its end has these tokens. -/
theorem tokens?_eq {text : String} (h : Cut text.toList ts []) : tokens? text = some ts := by
  rw [tokens?, h.lexAll_eq (Nat.le_refl _), List.reverse_nil, List.nil_append]

end Cut

/-! ## Signs, words and blanks -/

section Signs

variable {rest : List Char}

/-- An opening brace is a token. -/
theorem cut_openBrace : Cut ('\x7b' :: rest) [.openBrace] rest := .one rfl (Nat.le_refl _)

/-- A closing brace is a token. -/
theorem cut_closeBrace : Cut ('\x7d' :: rest) [.closeBrace] rest := .one rfl (Nat.le_refl _)

/-- An opening bracket is a token. -/
theorem cut_openBracket : Cut ('[' :: rest) [.openBracket] rest := .one rfl (Nat.le_refl _)

/-- A closing bracket is a token. -/
theorem cut_closeBracket : Cut (']' :: rest) [.closeBracket] rest := .one rfl (Nat.le_refl _)

/-- A comma is a token. -/
theorem cut_comma : Cut (',' :: rest) [.comma] rest := .one rfl (Nat.le_refl _)

/-- A colon with the blank after it. -/
theorem cut_colon : Cut (':' :: ' ' :: rest) [.colon] rest :=
  .token rfl (Nat.le_refl _) (.space rfl (Nat.le_refl _) (.done rest))

/-- Line breaks with their indentation are no tokens. -/
theorem cut_lineBreak (level : Nat) : Cut ((lineBreak level).toList ++ rest) [] rest := by
  have hblanks : ∀ n, Cut (List.replicate n ' ' ++ rest) [] rest := fun n => by
    induction n with
    | zero => exact .done rest
    | succ n ih => exact .space rfl (Nat.le_refl _) ih
  have htext : (lineBreak level).toList = '\n' :: List.replicate (2 * level) ' ' := by
    simp [lineBreak]
  rw [htext]
  exact .space rfl (Nat.le_refl _) (hblanks _)

/-- The word for null is a token. -/
theorem cut_null : Cut ("null".toList ++ rest) [.null] rest :=
  .one rfl (List.sublist_append_right _ rest).length_le

/-- The word for truth is a token. -/
theorem cut_true : Cut ("true".toList ++ rest) [.bool true] rest :=
  .one rfl (List.sublist_append_right _ rest).length_le

/-- The word for falsehood is a token. -/
theorem cut_false : Cut ("false".toList ++ rest) [.bool false] rest :=
  .one rfl (List.sublist_append_right _ rest).length_le

end Signs

/-! ## Strings -/

private theorem lexString_plain {c : Char} (hquote : c ≠ '"') (hslash : c ≠ '\\')
    (hcontrol : ¬ c.toNat < 0x20) (s : List Char) :
    lexString (c :: s) = (lexString s).map fun found => (.char c :: found.1, found.2) := by
  rw [lexString.eq_def]
  split
  case h_5 c' s' _ _ _ heq =>
    obtain ⟨rfl, rfl⟩ := List.cons.inj heq
    rw [if_neg (by simp [hslash, hcontrol]), Option.map_eq_bind]
    rfl
  all_goals simp_all

/-- A control is written as two hexadecimal digits, which denote it again. -/
theorem hexPair_control : ∀ n < 0x20,
    (hexPair n).toList = [Nat.digitChar (n / 16), Nat.digitChar (n % 16)] ∧
      hexUnit? '0' '0' (Nat.digitChar (n / 16)) (Nat.digitChar (n % 16)) = some n := by
  decide

private theorem ofUnit_control {n : Nat} (h : n < 0x20) :
    Piece.ofUnit n = .char (Char.ofNat n) := by
  have hhalf : isHighHalf n = false ∧ isLowHalf n = false := by
    simp only [isHighHalf, isLowHalf, Bool.and_eq_false_iff, decide_eq_false_iff_not]
    omega
  simp [Piece.ofUnit, hhalf]

private theorem lexString_short {e c : Char} (h : shortEscape? e = some c) (s : List Char) :
    lexString ('\\' :: e :: s) =
      (lexString s).map fun found => (.char c :: found.1, found.2) := by
  have hne : e ≠ 'u' := by
    rintro rfl
    cases h
  rw [lexString.eq_def]
  split
  case h_4 e' s' _ heq =>
    obtain ⟨-, heq⟩ := List.cons.inj heq
    obtain ⟨rfl, rfl⟩ := List.cons.inj heq
    rw [h, Option.map_eq_bind]
    rfl
  case h_5 c' s' _ hshort heq =>
    obtain ⟨rfl, rfl⟩ := List.cons.inj heq
    exact absurd rfl (hshort e s rfl)
  all_goals simp_all

/-- An escaped character is read as itself. -/
theorem lexString_escapeChar (c : Char) (s : List Char) :
    lexString ((escapeChar c).toList ++ s) =
      (lexString s).map fun found => (.char c :: found.1, found.2) := by
  unfold escapeChar
  split
  case isTrue h => subst h; exact lexString_short rfl s
  split
  case isTrue h => subst h; exact lexString_short rfl s
  split
  case isTrue h => subst h; exact lexString_short rfl s
  split
  case isTrue h => subst h; exact lexString_short rfl s
  split
  case isTrue h => subst h; exact lexString_short rfl s
  split
  case isTrue h => subst h; exact lexString_short rfl s
  split
  case isTrue h => subst h; exact lexString_short rfl s
  split
  case isTrue h =>
    obtain ⟨hpair, hunit⟩ := hexPair_control c.toNat h
    have htext : ("\\u00" ++ hexPair c.toNat).toList ++ s =
        '\\' :: 'u' :: '0' :: '0' :: Nat.digitChar (c.toNat / 16) ::
          Nat.digitChar (c.toNat % 16) :: s := by
      rw [String.toList_append, hpair]
      rfl
    rw [htext, lexString, hunit, Option.map_eq_bind]
    simp only [Option.bind_eq_bind, Option.bind_some, ofUnit_control h, Char.ofNat_toNat]
    rfl
  case isFalse hquote hslash _ _ _ _ _ hcontrol =>
    rw [String.toList_singleton, List.singleton_append]
    exact lexString_plain hquote hslash hcontrol s

private theorem lexString_printed (cs rest : List Char) :
    lexString ((String.join (cs.map escapeChar)).toList ++ '"' :: rest) =
      some (cs.map Piece.char, rest) := by
  induction cs with
  | nil => simp [String.join, lexString]
  | cons c cs ih =>
    have htext : (String.join ((c :: cs).map escapeChar)).toList =
        (escapeChar c).toList ++ (String.join (cs.map escapeChar)).toList := by
      simp
    rw [htext, List.append_assoc, lexString_escapeChar, ih]
    rfl

private theorem assemble_chars (cs : List Char) : assemble (cs.map Piece.char) = some cs := by
  induction cs with
  | nil => rfl
  | cons c cs ih => simp [assemble, ih]

/-- A string between its quotes is one token. -/
theorem cut_string (s : String) (rest : List Char) :
    Cut ((printString s).toList ++ rest) [.string (some s)] rest := by
  have htext : (printString s).toList ++ rest =
      '"' :: ((String.join (s.toList.map escapeChar)).toList ++ '"' :: rest) := by
    simp [printString]
  rw [htext]
  refine .one ?_ ?_
  · simp only [lexToken, lexString_printed, Option.bind_eq_bind, Option.bind_some, assemble_chars,
      Option.map_some, String.ofList_toList, Option.pure_def]
  · simp only [List.length_append, List.length_cons]
    omega

/-! ## Numbers -/

/-- After this no number goes on. -/
def EndsValue (rest : List Char) : Prop := ∀ c ∈ rest.head?, c = ',' ∨ c = '\n'

/-- Digits are taken as long as what they denote has 64 bits. -/
theorem takeDigits_eq (digits : List Char) {n : Nat}
    (h : Nat.ofDigitChars 10 digits n < 18446744073709551616) :
    takeDigits n digits = (Nat.ofDigitChars 10 digits n, []) := by
  induction digits generalizing n with
  | nil => rfl
  | cons d digits ih =>
    rw [Nat.ofDigitChars_cons, Nat.mul_comm] at h ⊢
    have hnext : n * 10 + (d.toNat - '0'.toNat) < 18446744073709551616 := by
      rw [Nat.ofDigitChars_eq_ofDigitChars_zero] at h
      have hpow : 1 ≤ 10 ^ digits.length := Nat.one_le_pow _ _ (by decide)
      exact Nat.lt_of_le_of_lt (Nat.le_mul_of_pos_left _ hpow)
        (Nat.lt_of_le_of_lt (Nat.le_add_right _ _) h)
    rw [takeDigits, if_pos hnext, ih h]

/-- No number but zero starts with a zero. -/
theorem toDigits_append_ne {n : Nat} (h : n ≠ 0) (s rest : List Char) :
    Nat.toDigits 10 n ++ s ≠ '0' :: rest := by
  induction n using Nat.strongRecOn generalizing s with
  | ind n ih =>
    by_cases hlt : n < 10
    · rw [Nat.toDigits_of_lt_base hlt, List.singleton_append]
      exact fun heq => h (Nat.digitChar_eq_zero.1 (List.cons.inj heq).1)
    · rw [Nat.toDigits_of_base_le (by decide) (Nat.le_of_not_lt hlt), List.append_assoc]
      exact ih (n / 10) (by omega) (by omega) _

private theorem EndsValue.noDigit {rest : List Char} (h : EndsValue rest) :
    rest.takeWhile Char.isDigit = [] ∧ rest.dropWhile Char.isDigit = rest := by
  cases rest with
  | nil => exact ⟨rfl, rfl⟩
  | cons c rest => rcases h c rfl with rfl | rfl <;> exact ⟨rfl, rfl⟩

/-- The digits of a number are its whole part. -/
theorem lexWhole_toDigits (n : Nat) {rest : List Char} (hrest : EndsValue rest) :
    lexWhole (Nat.toDigits 10 n ++ rest) = some (Nat.toDigits 10 n, rest) := by
  by_cases hzero : n = 0
  · subst hzero
    rfl
  have hdigits : ∀ c ∈ Nat.toDigits 10 n, c.isDigit := fun c hc =>
    Nat.isDigit_of_mem_toDigits (by decide) (by decide) hc
  have hlex : lexDigits (Nat.toDigits 10 n ++ rest) = some (Nat.toDigits 10 n, rest) := by
    obtain ⟨htake, hdrop⟩ := hrest.noDigit
    rw [lexDigits, List.takeWhile_append_of_pos hdigits, List.dropWhile_append_of_pos hdigits,
      htake, hdrop, List.append_nil]
    split
    case h_1 hnil => exact absurd hnil Nat.toDigits_ne_nil
    case h_2 _ => rfl
  rw [lexWhole.eq_def]
  split
  case h_1 heq => exact absurd heq (toDigits_append_ne hzero _ _)
  case h_2 _ => exact hlex

private theorem lexUnsigned_toDigits (negative : Bool) {n : Nat} (h : n < 18446744073709551616)
    {rest : List Char} (hrest : EndsValue rest) :
    lexUnsigned negative (Nat.toDigits 10 n ++ rest) = some (.integer negative n, rest) := by
  have hfraction : lexFraction rest = some (none, rest) := by
    cases rest with
    | nil => rfl
    | cons c rest => rcases hrest c rfl with rfl | rfl <;> rfl
  have hexponent : lexExponent rest = some (none, rest) := by
    cases rest with
    | nil => rfl
    | cons c rest => rcases hrest c rfl with rfl | rfl <;> rfl
  have htake : takeDigits 0 (Nat.toDigits 10 n) = (n, []) := by
    rw [takeDigits_eq _ (by rwa [Nat.ofDigitChars_ten_toDigits]), Nat.ofDigitChars_ten_toDigits]
  simp only [lexUnsigned, lexWhole_toDigits n hrest, hfraction, hexponent, htake,
    Option.bind_eq_bind, Option.bind_some, Option.pure_def]

/-- A digit starts a number. -/
theorem lexToken_digit {c : Char} (h : c.isDigit) (s : List Char) :
    lexToken c s =
      (lexUnsigned false (c :: s)).map fun found => (some (.number found.1), found.2) := by
  have hne : ∀ d : Char, d.isDigit = false → c ≠ d := by
    rintro d hd rfl
    rw [hd] at h
    cases h
  have hspace : isSpace c = false := by
    simp only [isSpace, hne _ (by decide : ' '.isDigit = false),
      hne _ (by decide : '\n'.isDigit = false), hne _ (by decide : '\t'.isDigit = false),
      hne _ (by decide : '\r'.isDigit = false), decide_false, Bool.or_self]
  rw [lexToken.eq_def]
  split
  case h_12 =>
    rw [hspace, Option.map_eq_bind]
    rfl
  all_goals exact absurd rfl (hne _ (by decide))

/-- A number is a token, where no more of it follows. -/
theorem cut_number (negative : Bool) {n : Nat} (h : n < 18446744073709551616)
    {rest : List Char} (hrest : EndsValue rest) :
    Cut ((printNumber (.integer negative n)).toList ++ rest) [.number (.integer negative n)]
      rest := by
  have hlex := lexUnsigned_toDigits negative h hrest
  cases negative with
  | true =>
    have htext : (printNumber (.integer true n)).toList ++ rest =
        '-' :: (Nat.toDigits 10 n ++ rest) := by
      simp [printNumber, Nat.repr]
    rw [htext]
    refine .one ?_ (List.sublist_append_right _ rest).length_le
    simp only [lexToken, hlex, Option.bind_eq_bind, Option.bind_some, Option.pure_def]
  | false =>
    have htext : (printNumber (.integer false n)).toList ++ rest = Nat.toDigits 10 n ++ rest := by
      simp [printNumber, Nat.repr]
    rw [htext]
    cases hdigits : Nat.toDigits 10 n with
    | nil => exact absurd hdigits Nat.toDigits_ne_nil
    | cons c digits =>
      have hc : c.isDigit := Nat.isDigit_of_mem_toDigits (b := 10) (n := n) (by decide) (by decide)
        (by simp [hdigits])
      refine .one ?_ (List.sublist_append_right _ rest).length_le
      rw [hdigits, List.cons_append] at hlex
      simp [lexToken_digit hc, hlex]

end BeanSynthesis.Json
