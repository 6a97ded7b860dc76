import BeanSynthesis.Source.Literal

/-!
# Code units and Unicode escapes

Java reads a source as UTF-16 code units and first replaces Unicode escapes: a backslash, one or
more `u` and four hexadecimal digits. A backslash starts an escape only if an even number of
backslashes stands right before it, and what an escape stands for starts no other. An escape without
its four digits is an error, which is kept here as such, where it stands.
-/

namespace BeanSynthesis.Java

/-- A UTF-16 code unit. -/
abbrev CodeUnit := UInt16

/-- The code unit of a character of the basic plane. -/
def unit (c : Char) : CodeUnit := .ofNat c.toNat

/-- The code units of a character; beyond the basic plane it has two surrogates. -/
def charUnits (c : Char) : List CodeUnit :=
  if c.toNat < 0x10000 then [unit c]
  else [.ofNat (0xD800 + (c.toNat - 0x10000) / 0x400),
    .ofNat (0xDC00 + (c.toNat - 0x10000) % 0x400)]

/-- The code units of a text. -/
def units (text : String) : List CodeUnit := text.toList.flatMap charUnits

/-- What a source consists of after its escapes are replaced. -/
inductive Input where
  | unit (value : CodeUnit)
  /-- An escape that lacks some of its digits. -/
  | malformed
deriving DecidableEq, Repr

/-- The value of a hexadecimal digit. -/
def hexValue? (u : CodeUnit) : Option Nat :=
  if unit '0' ≤ u ∧ u ≤ unit '9' then some (u.toNat - '0'.toNat)
  else if unit 'a' ≤ u ∧ u ≤ unit 'f' then some (u.toNat - 'a'.toNat + 10)
  else if unit 'A' ≤ u ∧ u ≤ unit 'F' then some (u.toNat - 'A'.toNat + 10)
  else none

/-- What is open of an escape. -/
inductive Escape where
  /-- No escape is open, and the number of backslashes right before is even. -/
  | outside
  /-- A backslash that may start an escape. -/
  | backslash
  /-- A backslash and at least one `u`. -/
  | markers
  /-- Also some of the four digits, with their value. -/
  | digits (count value : Nat)
deriving DecidableEq, Repr

namespace Escape

/-- Goes on with a code unit where no escape is open. -/
def start (u : CodeUnit) : List Input × Escape :=
  if u = Java.unit '\\' then ([], backslash) else ([.unit u], outside)

/-- Goes on with a code unit where a digit is expected. -/
def digit (count value : Nat) (u : CodeUnit) : List Input × Escape :=
  match hexValue? u with
  | some d =>
    if count = 3 then ([.unit (.ofNat (16 * value + d))], outside)
    else ([], digits (count + 1) (16 * value + d))
  | none => (.malformed :: (start u).1, (start u).2)

/-- Goes on with a code unit: what is read by that, and what is open then. -/
def step : Escape → CodeUnit → List Input × Escape
  | outside, u => start u
  | backslash, u =>
    if u = Java.unit 'u' then ([], markers) else ([.unit (Java.unit '\\'), .unit u], outside)
  | markers, u => if u = Java.unit 'u' then ([], markers) else digit 0 0 u
  | digits count value, u => digit count value u

/-- What is read if nothing follows. -/
def pending : Escape → List Input
  | outside => []
  | backslash => [.unit (Java.unit '\\')]
  | _ => [.malformed]

end Escape

/-- What a source is read as, after what is open. -/
def translateFrom : Escape → List CodeUnit → List Input
  | state, [] => state.pending
  | state, u :: rest => (state.step u).1 ++ translateFrom (state.step u).2 rest

/-- What a source is read as. -/
def translate (source : List CodeUnit) : List Input := translateFrom .outside source

/-! ## Code units of characters -/

/-- A character is one code unit that is no surrogate, or a high surrogate and a low one. -/
theorem charUnits_cases (c : Char) :
    (∃ u : CodeUnit, charUnits c = [u] ∧ u.toNat = c.toNat ∧
      (u.toNat < 0xD800 ∨ 0xDFFF < u.toNat)) ∨
    ∃ high low : CodeUnit, charUnits c = [high, low] ∧ 0xD800 ≤ high.toNat ∧ high.toNat ≤ 0xDBFF ∧
      0xDC00 ≤ low.toNat ∧ low.toNat ≤ 0xDFFF ∧
      c.toNat = 0x10000 + (high.toNat - 0xD800) * 0x400 + (low.toNat - 0xDC00) := by
  have hvalid : c.toNat < 0xD800 ∨ 0xDFFF < c.toNat ∧ c.toNat < 0x110000 := c.valid
  by_cases hplane : c.toNat < 0x10000
  · refine .inl ⟨unit c, if_pos hplane, ?_⟩
    have hunit : (unit c).toNat = c.toNat := by
      rw [unit, UInt16.toNat_ofNat']
      omega
    omega
  · refine .inr ⟨_, _, if_neg hplane, ?_⟩
    simp only [UInt16.toNat_ofNat']
    omega

/-- The code units of texts begin with those of the same character, or one of them is empty. -/
theorem charUnits_append_inj {c d : Char} {s t : List CodeUnit}
    (h : charUnits c ++ s = charUnits d ++ t) : c = d ∧ s = t := by
  rcases charUnits_cases c with ⟨u, hu, hc, hplain⟩ |
      ⟨high, low, hu, hhigh, hhigh', hlow, hlow', hc⟩ <;>
    rcases charUnits_cases d with ⟨v, hv, hd, hplain'⟩ |
      ⟨high', low', hv, hhigh₁, hhigh₁', hlow₁, hlow₁', hd⟩ <;>
    simp only [hu, hv, List.cons_append, List.nil_append, List.cons.injEq] at h
  · obtain ⟨rfl, rfl⟩ := h
    exact ⟨Char.toNat_inj.1 (hc.symm.trans hd), rfl⟩
  · obtain ⟨rfl, -⟩ := h
    omega
  · obtain ⟨rfl, -⟩ := h
    omega
  · obtain ⟨rfl, rfl, rfl⟩ := h
    exact ⟨Char.toNat_inj.1 (hc.trans hd.symm), rfl⟩

/-- A character has code units. -/
theorem charUnits_ne_nil (c : Char) : charUnits c ≠ [] := by
  rcases charUnits_cases c with ⟨u, hu, -⟩ | ⟨high, low, hu, -⟩ <;> simp [hu]

/-- A text is known by its code units. -/
theorem units_injective {v w : String} (h : units v = units w) : v = w := by
  suffices hchars : ∀ cs ds : List Char, cs.flatMap charUnits = ds.flatMap charUnits → cs = ds from
    String.toList_injective (hchars _ _ h)
  intro cs
  induction cs with
  | nil =>
    intro ds hds
    cases ds with
    | nil => rfl
    | cons d ds =>
      have hempty : charUnits d ++ ds.flatMap charUnits = [] := hds.symm
      exact absurd (List.append_eq_nil_iff.1 hempty).1 (charUnits_ne_nil d)
  | cons c cs ih =>
    intro ds hds
    cases ds with
    | nil =>
      have hempty : charUnits c ++ cs.flatMap charUnits = [] := hds
      exact absurd (List.append_eq_nil_iff.1 hempty).1 (charUnits_ne_nil c)
    | cons d ds =>
      obtain ⟨rfl, hrest⟩ := charUnits_append_inj hds
      rw [ih ds hrest]

/-- A character of the basic plane is a code unit of no other character. -/
theorem eq_of_unit_mem_charUnits {c d : Char} (hd : d.toNat < 0xD800) (h : unit d ∈ charUnits c) :
    c = d := by
  have hunit : (unit d).toNat = d.toNat := by
    rw [unit, UInt16.toNat_ofNat']
    omega
  rcases charUnits_cases c with ⟨u, hu, hc, -⟩ | ⟨high, low, hu, hhigh, -, hlow, -, -⟩
  · rw [hu, List.mem_singleton] at h
    exact Char.toNat_inj.1 (by rw [← hc, ← h, hunit])
  · rw [hu] at h
    simp only [List.mem_cons, List.not_mem_nil, or_false] at h
    rcases h with rfl | rfl <;> omega

/-- The code units of two texts in a row are theirs in a row. -/
@[simp] theorem units_append (v w : String) : units (v ++ w) = units v ++ units w := by
  simp [units]

/-! ## Sources without escapes -/

/-- Without backslashes there are no escapes. -/
theorem translateFrom_of_not_mem {s : List CodeUnit} (h : unit '\\' ∉ s) (rest : List CodeUnit) :
    translateFrom .outside (s ++ rest) = s.map .unit ++ translateFrom .outside rest := by
  induction s with
  | nil => rfl
  | cons u s ih =>
    rw [List.mem_cons, not_or] at h
    obtain ⟨hu, hs⟩ := h
    have hstart : Escape.start u = ([.unit u], .outside) := if_neg fun heq => hu heq.symm
    rw [List.cons_append, translateFrom, Escape.step, hstart, ih hs]
    rfl

/-- A backslash before what is no `u` is no escape; if it is a backslash, both stand for
themselves. -/
theorem translateFrom_backslash {u : CodeUnit} (h : u ≠ unit 'u') (rest : List CodeUnit) :
    translateFrom .outside (unit '\\' :: u :: rest) =
      .unit (unit '\\') :: .unit u :: translateFrom .outside rest := by
  simp [translateFrom, Escape.step, Escape.start, h]

/-! ## Where escapes end -/

/-- A code unit that no escape goes on with. -/
structure Separates (u : CodeUnit) : Prop where
  ne_backslash : u ≠ unit '\\'
  ne_marker : u ≠ unit 'u'
  no_digit : hexValue? u = none

/-- A separating code unit ends what is open, and what follows it is read by itself. -/
theorem translateFrom_separator {u : CodeUnit} (hu : Separates u) (state : Escape)
    (s rest : List CodeUnit) : translateFrom state (s ++ u :: rest) =
      translateFrom state s ++ .unit u :: translateFrom .outside rest := by
  induction s generalizing state with
  | nil =>
    have hstart : Escape.start u = ([.unit u], .outside) := if_neg hu.ne_backslash
    cases state <;>
      simp [translateFrom, Escape.step, Escape.digit, Escape.pending, hstart, hu.ne_marker,
        hu.no_digit]
  | cons v s ih => simp [translateFrom, ih]

end BeanSynthesis.Java
