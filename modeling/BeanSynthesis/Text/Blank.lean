/-!
# Ranges of characters and white space

A character class is listed as ranges of code points, first and last included. White space is what
Unicode calls so: tabs and line breaks, the space, and the spaces of other widths and scripts. A
zero-width space is not one of them.
-/

namespace BeanSynthesis.Text

/-- The first and the last code point of a run of characters. -/
abbrev CharRange := Nat × Nat

/-- Whether one of the ranges holds the character. -/
def inRanges (ranges : List CharRange) (c : Char) : Bool :=
  ranges.any fun (first, last) => first ≤ c.toNat && c.toNat ≤ last

/-- The code points with the white space property. -/
def blankRanges : List CharRange :=
  [(9, 13), (32, 32), (133, 133), (160, 160), (5760, 5760), (8192, 8202), (8232, 8233),
    (8239, 8239), (8287, 8287), (12288, 12288)]

/-- White space in the sense of Unicode. -/
def isBlank (c : Char) : Bool := inRanges blankRanges c

/-- The characters after any leading white space. -/
def skipBlank (s : List Char) : List Char := s.dropWhile isBlank

/-- A list of characters without the white space at both ends. -/
def trimChars (s : List Char) : List Char :=
  (skipBlank (skipBlank s).reverse).reverse

/-- A string without the white space at both ends. -/
def trim (s : String) : String := String.ofList (trimChars s.toList)

/-- Without its leading white space a text is no longer. -/
theorem length_skipBlank_le (s : List Char) : (skipBlank s).length ≤ s.length :=
  (List.dropWhile_sublist isBlank).length_le

end BeanSynthesis.Text
