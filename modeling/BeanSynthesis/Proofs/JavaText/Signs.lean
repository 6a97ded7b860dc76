import BeanSynthesis.Proofs.JavaText.Written

/-!
# Expressions with signs

A negative integer literal is written with a sign, which is a token of its own. Without negative
literals the tokens are those of the written form.
-/

namespace BeanSynthesis

/-- Whether the expression is a negative integer literal. -/
def Expr.isNegative : Expr → Bool
  | .intLit value => value < 0
  | _ => false

namespace Source

open Java

/-- The tokens of an integer literal. -/
def signedNumber (value : Int) : List Token :=
  if value < 0 then [.operator .minus, .number (Nat.repr value.natAbs)]
  else [.number (Nat.repr value.natAbs)]

namespace NameTable

mutual

/-- The tokens of a written expression, with the signs of negative literals. -/
def signed (table : NameTable) : Expr → List Token
  | .thisRef => [.word "this"]
  | .superRef => [.word "super"]
  | .nullLit => [.word "null"]
  | .boolLit value => [.word (boolLiteral value)]
  | .intLit value => signedNumber value
  | .strLit value => [.string value]
  | .ident name => [.word name]
  | .field target name =>
    enclosed target Level.primary.rank (signed table target) ++ [.dot, .word name]
  | .call method args => .word method :: inParens (signedList table args)
  | .invoke target method args =>
    enclosed target Level.primary.rank (signed table target) ++
      .dot :: .word method :: inParens (signedList table args)
  | .staticCall owner method args =>
    dotted (dotParts (table.spell owner.name)) ++
      .dot :: .word method :: inParens (signedList table args)
  | .staticField owner name => dotted (dotParts (table.spell owner.name)) ++ [.dot, .word name]
  | .newObject type args =>
    .word "new" :: type.written table.spell ++ inParens (signedList table args)
  | .cast type operand =>
    .openParen :: type.written table.spell ++
      .closeParen :: enclosed operand Level.unary.rank (signed table operand)
  | .not operand => .bang :: enclosed operand Level.unary.rank (signed table operand)
  | .binary op lhs rhs =>
    enclosed lhs (opLevel op).rank (signed table lhs) ++
      .operator op :: enclosed rhs ((opLevel op).rank + 1) (signed table rhs)
  | .instanceOf operand type =>
    enclosed operand Level.relation.rank (signed table operand) ++
      .word "instanceof" :: type.written table.spell
  | .cond test yes no =>
    enclosed test (Level.cond.rank + 1) (signed table test) ++
      .question :: enclosed yes (Level.cond.rank + 1) (signed table yes) ++
      .colon :: enclosed no Level.cond.rank (signed table no)

/-- The tokens of each expression of a list. -/
def signedList (table : NameTable) : List Expr → List (List Token)
  | [] => []
  | e :: es => signed table e :: signedList table es

end

end NameTable

end Source

namespace Java.Letters

open Source

variable (letters : Letters)

mutual

/-- All names are identifiers, new objects are of class types and no type is itself a wildcard;
integers may be negative. -/
def SignedNames : Expr → Prop
  | .thisRef | .superRef | .nullLit | .boolLit _ | .intLit _ | .strLit _ => True
  | .ident name => letters.IsName name
  | .field target name => SignedNames target ∧ letters.IsName name
  | .call method args => letters.IsName method ∧ SignedNamesAll args
  | .invoke target method args => SignedNames target ∧ letters.IsName method ∧ SignedNamesAll args
  | .staticCall owner method args =>
    letters.IsDotted owner.name ∧ letters.IsName method ∧ SignedNamesAll args
  | .staticField owner name => letters.IsDotted owner.name ∧ letters.IsName name
  | .newObject type args =>
    (∃ c : ClassRef, type = .ofClass c) ∧ letters.NamesType type ∧ SignedNamesAll args
  | .cast type operand => type.isWildcard = false ∧ letters.NamesType type ∧ SignedNames operand
  | .not operand => SignedNames operand
  | .binary _ lhs rhs => SignedNames lhs ∧ SignedNames rhs
  | .instanceOf operand type =>
    type.isWildcard = false ∧ letters.NamesType type ∧ SignedNames operand
  | .cond test yes no => SignedNames test ∧ SignedNames yes ∧ SignedNames no

/-- The same for all expressions of a list. -/
def SignedNamesAll : List Expr → Prop
  | [] => True
  | e :: es => SignedNames e ∧ SignedNamesAll es

end

end Java.Letters

namespace Java

open Source

variable {letters : Letters}

private theorem signedNumber_of_nonneg {value : Int} (h : 0 ≤ value) :
    signedNumber value = [.number (Nat.repr value.natAbs)] :=
  if_neg (by omega)

mutual

/-- Without negative integers there are no signs. -/
theorem signed_eq_written (table : NameTable) :
    ∀ e : Expr, letters.Names e → letters.SignedNames e ∧ table.signed e = table.written e
  | .thisRef, _ | .superRef, _ | .nullLit, _ | .boolLit _, _ | .strLit _, _ => ⟨trivial, rfl⟩
  | .intLit _, h => ⟨trivial, signedNumber_of_nonneg h⟩
  | .ident _, h => ⟨h, rfl⟩
  | .field target _, h => by
    obtain ⟨hnames, htarget⟩ := signed_eq_written table target h.1
    exact ⟨⟨hnames, h.2⟩, by rw [NameTable.signed, NameTable.written, htarget]⟩
  | .call _ args, h => by
    obtain ⟨hnames, hargs⟩ := signedList_eq_writtenList table args h.2
    exact ⟨⟨h.1, hnames⟩, by rw [NameTable.signed, NameTable.written, hargs]⟩
  | .invoke target _ args, h => by
    obtain ⟨hnames, htarget⟩ := signed_eq_written table target h.1
    obtain ⟨hlist, hargs⟩ := signedList_eq_writtenList table args h.2.2
    exact ⟨⟨hnames, h.2.1, hlist⟩, by rw [NameTable.signed, NameTable.written, htarget, hargs]⟩
  | .staticCall _ _ args, h => by
    obtain ⟨hlist, hargs⟩ := signedList_eq_writtenList table args h.2.2
    exact ⟨⟨h.1, h.2.1, hlist⟩, by rw [NameTable.signed, NameTable.written, hargs]⟩
  | .staticField _ _, h => ⟨h, rfl⟩
  | .newObject _ args, h => by
    obtain ⟨hlist, hargs⟩ := signedList_eq_writtenList table args h.2.2
    exact ⟨⟨h.1, h.2.1, hlist⟩, by rw [NameTable.signed, NameTable.written, hargs]⟩
  | .cast _ operand, h => by
    obtain ⟨hnames, hoperand⟩ := signed_eq_written table operand h.2.2
    exact ⟨⟨h.1, h.2.1, hnames⟩, by rw [NameTable.signed, NameTable.written, hoperand]⟩
  | .not operand, h => by
    obtain ⟨hnames, hoperand⟩ := signed_eq_written table operand h
    exact ⟨hnames, by rw [NameTable.signed, NameTable.written, hoperand]⟩
  | .binary _ lhs rhs, h => by
    obtain ⟨hleft, hlhs⟩ := signed_eq_written table lhs h.1
    obtain ⟨hright, hrhs⟩ := signed_eq_written table rhs h.2
    exact ⟨⟨hleft, hright⟩, by rw [NameTable.signed, NameTable.written, hlhs, hrhs]⟩
  | .instanceOf operand _, h => by
    obtain ⟨hnames, hoperand⟩ := signed_eq_written table operand h.2.2
    exact ⟨⟨h.1, h.2.1, hnames⟩, by rw [NameTable.signed, NameTable.written, hoperand]⟩
  | .cond test yes no, h => by
    obtain ⟨hfirst, htest⟩ := signed_eq_written table test h.1
    obtain ⟨hsecond, hyes⟩ := signed_eq_written table yes h.2.1
    obtain ⟨hthird, hno⟩ := signed_eq_written table no h.2.2
    exact ⟨⟨hfirst, hsecond, hthird⟩,
      by rw [NameTable.signed, NameTable.written, htest, hyes, hno]⟩

private theorem signedList_eq_writtenList (table : NameTable) :
    ∀ es : List Expr, letters.NamesAll es →
    letters.SignedNamesAll es ∧ table.signedList es = table.writtenList es
  | [], _ => ⟨trivial, rfl⟩
  | e :: es, h => by
    obtain ⟨hfirst, he⟩ := signed_eq_written table e h.1
    obtain ⟨hrest, hes⟩ := signedList_eq_writtenList table es h.2
    exact ⟨⟨hfirst, hrest⟩, by rw [NameTable.signedList, NameTable.writtenList, he, hes]⟩

end

end Java

end BeanSynthesis
