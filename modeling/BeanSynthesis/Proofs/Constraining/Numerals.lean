import Mathlib.Data.Nat.Digits.Defs
import BeanSynthesis.Proofs.TypeText.Grammar
import BeanSynthesis.Schema

/-!
# Numerals in facets

A facet has a number if its literal is a numeral, white space around it aside, and what the numeral
denotes is a 32-bit integer. A numeral is an optional sign before one or more digits of ASCII; zeros
in front are as good as any other digits, and so is a sign before zero.
-/

namespace BeanSynthesis

/-- One or more decimal digits of ASCII. -/
def IsDigits (digits : List Char) : Prop := digits ≠ [] ∧ ∀ d ∈ digits, d.isDigit

instance (digits : List Char) : Decidable (IsDigits digits) := inferInstanceAs (Decidable (_ ∧ _))

/-- The number that digits denote, the highest one first. -/
def digitsValue (digits : List Char) : Nat :=
  Nat.ofDigits 10 (digits.reverse.map fun d => d.toNat - '0'.toNat)

/-- A numeral, and the number that it denotes. -/
inductive IsNumeral : List Char → Int → Prop
  | unsigned {digits : List Char} (h : IsDigits digits) : IsNumeral digits (digitsValue digits)
  | plus {digits : List Char} (h : IsDigits digits) : IsNumeral ('+' :: digits) (digitsValue digits)
  | minus {digits : List Char} (h : IsDigits digits) :
      IsNumeral ('-' :: digits) (-digitsValue digits)

/-- A literal is a numeral with white space around it, and denotes a number. -/
def Denotes (literal : String) (n : Int) : Prop :=
  ∃ front numeral back, literal.toList = front ++ numeral ++ back ∧
    (∀ c ∈ front, Text.isBlank c) ∧ (∀ c ∈ back, Text.isBlank c) ∧ IsNumeral numeral n

/-! ## White space around a text -/

namespace Text

variable {s middle : List Char}

private theorem isBlank_of_between {c : Char} (hlow : 32 < c.toNat) (hhigh : c.toNat < 133) :
    isBlank c = false := by
  simp only [isBlank, inRanges, blankRanges, List.any_cons, List.any_nil, Bool.or_false,
    Bool.or_eq_false_iff, Bool.and_eq_false_iff, decide_eq_false_iff_not]
  omega

private theorem skipBlank_append_of_not (hmiddle : ∀ c ∈ middle, isBlank c = false)
    (hne : middle ≠ [])
    (rest : List Char) : skipBlank (middle ++ rest) = middle ++ rest := by
  obtain ⟨c, others, rfl⟩ := List.exists_cons_of_ne_nil hne
  exact skipBlank_cons_of_not (hmiddle c List.mem_cons_self) _

/-- A text without white space in it is what stays of another one exactly if there is only white
space around it. -/
theorem trimChars_eq_iff (hmiddle : ∀ c ∈ middle, isBlank c = false) (hne : middle ≠ []) :
    trimChars s = middle ↔ ∃ front back, s = front ++ middle ++ back ∧
      (∀ c ∈ front, isBlank c) ∧ ∀ c ∈ back, isBlank c := by
  constructor
  · intro h
    obtain ⟨front, hfront, hs⟩ := exists_blank_append s
    obtain ⟨back, hback, hrest⟩ := exists_blank_append (skipBlank s).reverse
    refine ⟨front, back.reverse, ?_, hfront, fun c hc => hback c (List.mem_reverse.mp hc)⟩
    have hmid : skipBlank (skipBlank s).reverse = middle.reverse := by
      rw [← h, trimChars, List.reverse_reverse]
    have hafter : skipBlank s = middle ++ back.reverse := by
      rw [hmid] at hrest
      simpa using congrArg List.reverse hrest
    rw [List.append_assoc, ← hafter, ← hs]
  · rintro ⟨front, back, rfl, hfront, hback⟩
    have hafter : skipBlank (front ++ middle ++ back) = middle ++ back := by
      rw [List.append_assoc, skipBlank_append hfront, skipBlank_append_of_not hmiddle hne]
    have hreverse : skipBlank (middle ++ back).reverse = middle.reverse := by
      have hreversed : ∀ c ∈ middle.reverse, isBlank c = false := fun c hc =>
        hmiddle c (List.mem_reverse.mp hc)
      have hlast := skipBlank_append_of_not hreversed (by simpa using hne) []
      rw [List.append_nil] at hlast
      rw [List.reverse_append, skipBlank_append fun c hc => hback c (List.mem_reverse.mp hc), hlast]
    rw [trimChars, hafter, hreverse, List.reverse_reverse]

end Text

/-! ## Numerals -/

private theorem isBlank_of_isDigit {d : Char} (h : d.isDigit) : Text.isBlank d = false := by
  have hcode : 48 ≤ d.toNat ∧ d.toNat ≤ 57 := Char.isDigit_iff_toNat.mp h
  exact Text.isBlank_of_between (by omega) (by omega)

private theorem IsDigits.head_ne {digits : List Char} (h : IsDigits digits) :
    (∀ rest, digits ≠ '+' :: rest) ∧ ∀ rest, digits ≠ '-' :: rest := by
  constructor <;> rintro rest rfl <;> exact absurd (h.2 _ List.mem_cons_self) (by decide)

private theorem IsNumeral.isBlank_of_mem {numeral : List Char} {n : Int} (h : IsNumeral numeral n) :
    ∀ c ∈ numeral, Text.isBlank c = false := by
  cases h with
  | unsigned h => exact fun c hc => isBlank_of_isDigit (h.2 c hc)
  | plus h => exact List.forall_mem_cons.mpr ⟨by decide, fun c hc => isBlank_of_isDigit (h.2 c hc)⟩
  | minus h => exact List.forall_mem_cons.mpr ⟨by decide, fun c hc => isBlank_of_isDigit (h.2 c hc)⟩

private theorem IsNumeral.ne_nil {numeral : List Char} {n : Int} (h : IsNumeral numeral n) :
    numeral ≠ [] := by
  cases h with
  | unsigned h => exact h.1
  | plus h => exact List.cons_ne_nil _ _
  | minus h => exact List.cons_ne_nil _ _

/-- Digits read from the highest one on give their number. -/
theorem foldl_digits (digits : List Char) :
    digits.foldl (fun n d => n * 10 + (d.toNat - '0'.toNat)) 0 = digitsValue digits := by
  rw [digitsValue, Nat.ofDigits_eq_foldr, List.foldr_map, List.foldr_reverse]
  congr 1
  funext n d
  simp only [Nat.cast_id]
  omega

private theorem readDigits_eq (digits : List Char) : (if digits ≠ [] && digits.all Char.isDigit then
    some (digits.foldl (fun n d => n * 10 + (d.toNat - '0'.toNat)) 0) else none) =
      if IsDigits digits then some (digitsValue digits) else none := by
  rw [foldl_digits]
  exact if_congr (by simp [IsDigits]) rfl rfl

private theorem decimalValue?_plus (digits : List Char) : decimalValue? ('+' :: digits) =
    if IsDigits digits then some (digitsValue digits : Int) else none := by
  simp only [decimalValue?, readDigits_eq]
  split <;> rfl

private theorem decimalValue?_minus (digits : List Char) : decimalValue? ('-' :: digits) =
    if IsDigits digits then some (-(digitsValue digits : Int)) else none := by
  simp only [decimalValue?, readDigits_eq]
  split <;> rfl

private theorem decimalValue?_unsigned {s : List Char} (hplus : ∀ digits, s ≠ '+' :: digits)
    (hminus : ∀ digits, s ≠ '-' :: digits) : decimalValue? s =
      if IsDigits s then some (digitsValue s : Int) else none := by
  unfold decimalValue?
  simp only [readDigits_eq]
  split <;> rfl

/-- The numbers that are read are those that numerals denote. -/
theorem decimalValue?_eq_some_iff (s : List Char) (n : Int) :
    decimalValue? s = some n ↔ IsNumeral s n := by
  constructor
  · intro h
    by_cases hplus : ∃ digits, s = '+' :: digits
    · obtain ⟨digits, rfl⟩ := hplus
      rw [decimalValue?_plus, Option.ite_none_right_eq_some] at h
      obtain ⟨hdigits, ⟨⟩⟩ := h
      exact .plus hdigits
    · by_cases hminus : ∃ digits, s = '-' :: digits
      · obtain ⟨digits, rfl⟩ := hminus
        rw [decimalValue?_minus, Option.ite_none_right_eq_some] at h
        obtain ⟨hdigits, ⟨⟩⟩ := h
        exact .minus hdigits
      · rw [decimalValue?_unsigned (not_exists.mp hplus) (not_exists.mp hminus),
          Option.ite_none_right_eq_some] at h
        obtain ⟨hdigits, ⟨⟩⟩ := h
        exact .unsigned hdigits
  · intro h
    cases h with
    | unsigned h => rw [decimalValue?_unsigned h.head_ne.1 h.head_ne.2, if_pos h]
    | plus h => rw [decimalValue?_plus, if_pos h]
    | minus h => rw [decimalValue?_minus, if_pos h]

private theorem trimChars_isNumeral_iff (literal : String) (n : Int) :
    IsNumeral (Text.trimChars literal.toList) n ↔ Denotes literal n := by
  constructor
  · intro h
    obtain ⟨front, back, hliteral, hfront, hback⟩ :=
      (Text.trimChars_eq_iff h.isBlank_of_mem h.ne_nil).mp rfl
    exact ⟨front, _, back, hliteral, hfront, hback, h⟩
  · rintro ⟨front, numeral, back, hliteral, hfront, hback, h⟩
    have htrim := (Text.trimChars_eq_iff h.isBlank_of_mem h.ne_nil).mpr
      ⟨front, back, hliteral, hfront, hback⟩
    exact htrim ▸ h

/-- A number has 32 bits if it is between the powers of two. -/
theorem fitsInt32_iff (n : Int) : fitsInt32 n ↔ -2 ^ 31 ≤ n ∧ n < 2 ^ 31 := by
  simp only [fitsInt32, Bool.and_eq_true, decide_eq_true_eq]
  omega

/-- A facet has a number exactly if its literal denotes it and it is a 32-bit integer. -/
theorem SimpleType.intFacet?_eq_some_iff (s : SimpleType) (facet : String) (n : Int) :
    s.intFacet? facet = some n ↔ ∃ literal, s.facet? facet = some literal ∧ Denotes literal n ∧
      -2 ^ 31 ≤ n ∧ n < 2 ^ 31 := by
  simp only [intFacet?, Option.bind_eq_some_iff, int32Value?, Option.filter_eq_some_iff,
    decimalValue?_eq_some_iff, trimChars_isNumeral_iff, fitsInt32_iff]

end BeanSynthesis
