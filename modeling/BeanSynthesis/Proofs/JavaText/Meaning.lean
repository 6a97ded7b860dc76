import BeanSynthesis.Proofs.JavaText.Written

/-!
# Written tokens stand for the plain form

The tokens of a written expression stand for its plain form, unless one of its types has a wildcard
as the element of an array. Such a type is never read.
-/

namespace BeanSynthesis.Java

open Source (Level opLevel level enclosed NameTable)

variable {letters : Letters}

/-! ## Types -/

private theorem TypeExpr.listWritten_eq_map (spell : String → String) (ts : List TypeExpr) :
    TypeExpr.listWritten spell ts = ts.map (·.written spell) := by
  induction ts with
  | nil => rfl
  | cons t ts ih => rw [TypeExpr.listWritten, ih, List.map_cons]

private theorem TypeExpr.listSpelled_eq_map (spell : String → String) (ts : List TypeExpr) :
    TypeExpr.listSpelled spell ts = ts.map (·.spelled spell) := by
  induction ts with
  | nil => rfl
  | cons t ts ih => rw [TypeExpr.listSpelled, ih, List.map_cons]

mutual

/-- The tokens of a type stand for it. -/
theorem readsType_written {spell : String → String}
    (hspell : ∀ {name}, letters.IsDotted name → letters.IsDotted (spell name)) :
    ∀ t : TypeExpr, letters.NamesType t → t.hasWildcardElement = false →
      ReadsType letters (t.written spell) (t.spelled spell)
  | .void, _, _ => .void
  | .primitive p, _, _ => .primitive p
  | .named name [], hnames, _ => by
    have hread := ReadsType.named (dotParts_ne_nil (spell name)) (hspell hnames.1)
    rwa [intercalate_dotParts] at hread
  | .named name (arg :: args), hnames, helements => by
    have hargs := readsTypes_written hspell (arg :: args) hnames.2 helements
    have hread := ReadsType.generic (dotParts_ne_nil (spell name)) (hspell hnames.1)
      (by simp) hargs
    rw [intercalate_dotParts] at hread
    simpa [TypeExpr.written, TypeExpr.spelled, TypeExpr.listSpelled, TypeExpr.listWritten_eq_map,
      TypeExpr.listSpelled_eq_map, Function.comp_def] using hread
  | .array element, hnames, helements => by
    have hparts : element.isWildcard = false ∧ element.hasWildcardElement = false := by
      simpa [TypeExpr.hasWildcardElement] using helements
    exact .array (readsType_written hspell element hnames hparts.2) (by simp [hparts.1])
  | .unbounded, _, _ => .unbounded
  | .bounded bound, hnames, helements =>
    .bounded (readsType_written hspell bound hnames helements)

private theorem readsTypes_written {spell : String → String}
    (hspell : ∀ {name}, letters.IsDotted name → letters.IsDotted (spell name)) :
    ∀ ts : List TypeExpr, letters.NamesTypes ts → TypeExpr.anyWildcardElement ts = false →
      ∀ pair ∈ ts.map fun t => (t.written spell, t.spelled spell), ReadsType letters pair.1 pair.2
  | [], _, _ => by simp
  | t :: ts, hnames, helements => by
    have hparts : t.hasWildcardElement = false ∧ TypeExpr.anyWildcardElement ts = false := by
      simpa [TypeExpr.anyWildcardElement] using helements
    rw [List.map_cons, List.forall_mem_cons]
    exact ⟨readsType_written hspell t hnames.1 hparts.1,
      readsTypes_written hspell ts hnames.2 hparts.2⟩

end

/-- No type that is read has a wildcard as the element of an array. -/
theorem ReadsType.hasWildcardElement {ts : List Token} {t : TypeExpr} (h : ReadsType letters ts t) :
    t.hasWildcardElement = false := by
  induction h with
  | void => rfl
  | primitive p => rfl
  | named _ _ => rfl
  | @generic parts args _ _ _ _ ih =>
    clear * - ih
    induction args with
    | nil => rfl
    | cons arg args ihargs =>
      obtain ⟨harg, hargs⟩ := List.forall_mem_cons.mp ih
      have hrest := ihargs hargs
      simpa [TypeExpr.hasWildcardElement, TypeExpr.anyWildcardElement, harg] using hrest
  | array _ hwildcard ih => simp [TypeExpr.hasWildcardElement, hwildcard, ih]
  | unbounded => rfl
  | bounded _ ih => exact ih

/-! ## Levels -/

/-- What passes from each level to the one that binds less tightly passes to all of those. -/
theorem loosen_of_tighter {P : Level → Prop}
    (hstep : ∀ {level tighter : Level}, level.rank + 1 = tighter.rank → P tighter → P level)
    {level looser : Level} (hle : looser.rank ≤ level.rank) (h : P level) : P looser := by
  obtain ⟨n, hn⟩ := Nat.exists_eq_add_of_le hle
  induction n generalizing looser with
  | zero =>
    obtain rfl : level = looser := by cases level <;> cases looser <;> first | rfl | cases hn
    exact h
  | succ n ih =>
    obtain ⟨next, hnext⟩ : ∃ next : Level, looser.rank + 1 = next.rank := by
      cases looser with
      | cond => exact ⟨.or, rfl⟩
      | or => exact ⟨.and, rfl⟩
      | and => exact ⟨.equality, rfl⟩
      | equality => exact ⟨.relation, rfl⟩
      | relation => exact ⟨.additive, rfl⟩
      | additive => exact ⟨.unary, rfl⟩
      | unary => exact ⟨.primary, rfl⟩
      | primary =>
        have hmax : level.rank ≤ 7 := by cases level <;> decide
        have hprimary : Level.primary.rank = 7 := rfl
        omega
    exact hstep hnext (ih (by omega) (by omega))

/-- What is read at a level is read where one that binds less tightly is expected. -/
theorem Reads.loosen {level looser : Level} {ts : List Token} {e : Expr}
    (h : Reads letters level ts e) (hle : looser.rank ≤ level.rank) : Reads letters looser ts e :=
  loosen_of_tighter (P := (Reads letters · ts e)) Reads.tighter hle h

/-- With parentheses where they are needed an expression may stand at a level. -/
theorem Reads.enclosed {e plain : Expr} {ts : List Token} (h : Reads letters (level e) ts plain)
    (least : Level) : Reads letters least (enclosed e least.rank ts) plain := by
  unfold Source.enclosed
  split
  case isTrue _ =>
    have hparen : Reads letters .primary (.openParen :: ts ++ [.closeParen]) plain :=
      .paren (h.loosen (Nat.zero_le _))
    exact hparen.loosen (by cases least <;> decide)
  case isFalse hrank => exact h.loosen (Nat.le_of_not_lt hrank)

/-! ## Expressions -/

private theorem Reads.chain {ts : List Token} {e : Expr} {parts : List String}
    (h : Reads letters .primary ts e) (hparts : ∀ part ∈ parts, letters.IsName part) :
    Reads letters .primary (ts ++ parts.flatMap fun part => [Token.dot, .word part])
      (parts.foldl .field e) := by
  induction parts generalizing ts e with
  | nil => simpa using h
  | cons part parts ih =>
    obtain ⟨hpart, hrest⟩ := List.forall_mem_cons.mp hparts
    simpa using ih (h.field hpart) hrest

/-- A dotted name reads as a chain of field accesses. -/
theorem reads_chain {name : String} (h : letters.IsDotted name) :
    Reads letters .primary (dotted (dotParts name)) (chain name) := by
  have hne := dotParts_ne_nil name
  unfold Letters.IsDotted at h
  unfold Java.chain
  cases hparts : dotParts name with
  | nil => exact absurd hparts hne
  | cons first rest =>
    rw [hparts] at h
    obtain ⟨hfirst, hrest⟩ := List.forall_mem_cons.mp h
    have hatom : Reads letters .primary [.word first] (.ident first) := .atom (.name hfirst)
    exact hatom.chain hrest

private theorem writtenList_eq_map (table : NameTable) (es : List Expr) :
    table.writtenList es = es.map table.written := by
  induction es with
  | nil => rfl
  | cons e es ih => rw [NameTable.writtenList, ih, List.map_cons]

private theorem plainList_eq_map (table : NameTable) (es : List Expr) :
    table.plainList es = es.map table.plain := by
  induction es with
  | nil => rfl
  | cons e es ih => rw [NameTable.plainList, ih, List.map_cons]

/-- The pairs of tokens and plain forms of arguments. -/
def argPairs (table : NameTable) (es : List Expr) : List (List Token × Expr) :=
  es.map fun e => (table.written e, table.plain e)

private theorem argPairs_tokens (table : NameTable) (es : List Expr) :
    (argPairs table es).map (·.1) = table.writtenList es := by
  simp [argPairs, writtenList_eq_map]

private theorem argPairs_plain (table : NameTable) (es : List Expr) :
    (argPairs table es).map (·.2) = table.plainList es := by
  simp [argPairs, plainList_eq_map]

/-- The right operand of an operator stands at a level that is unary or looser. -/
theorem exists_tighter (op : BinaryOp) : ∃ tighter : Level,
    (opLevel op).rank + 1 = tighter.rank ∧ tighter.rank ≤ Level.unary.rank := by
  cases op with
  | or => exact ⟨.and, rfl, by decide⟩
  | and => exact ⟨.equality, rfl, by decide⟩
  | eq => exact ⟨.relation, rfl, by decide⟩
  | ne => exact ⟨.relation, rfl, by decide⟩
  | minus => exact ⟨.unary, rfl, by decide⟩

mutual

/-- The tokens of a written expression stand for its plain form at its level. -/
theorem reads_written (table : NameTable) : ∀ e : Expr, letters.Names e →
    e.hasWildcardElement = false → Reads letters (level e) (table.written e) (table.plain e)
  | .thisRef, _, _ => .atom (.keyword rfl)
  | .superRef, _, _ => .atom (.keyword rfl)
  | .nullLit, _, _ => .atom (.keyword rfl)
  | .boolLit value, _, _ => by
    cases value
    · exact .atom (.keyword rfl)
    · exact .atom (.keyword rfl)
  | .intLit value, hnames, _ => by
    have hvalue : (value.natAbs : Int) = value := Int.natAbs_of_nonneg hnames
    have hread : Reads letters .primary [.number (Nat.repr value.natAbs)]
        (.intLit value.natAbs) := .atom (.number value.natAbs)
    rwa [hvalue] at hread
  | .strLit value, _, _ => .atom (.string value)
  | .ident _, hnames, _ => .atom (.name hnames)
  | .field target _, hnames, helements =>
    .field ((reads_written table target hnames.1 helements).enclosed .primary) hnames.2
  | .call method args, hnames, helements => by
    have hargs := reads_writtenList table args hnames.2 helements
    have hread := Reads.call hnames.1 hargs
    rwa [argPairs_tokens, argPairs_plain] at hread
  | .invoke target method args, hnames, helements => by
    have hparts := Expr.elements_invoke.1 helements
    have htarget := (reads_written table target hnames.1 hparts.1).enclosed .primary
    have hread := htarget.invoke hnames.2.1 (reads_writtenList table args hnames.2.2 hparts.2)
    rwa [argPairs_tokens, argPairs_plain] at hread
  | .staticCall owner method args, hnames, helements => by
    have howner := reads_chain (Letters.IsDotted.spell letters hnames.1 table)
    have hread := howner.invoke hnames.2.1 (reads_writtenList table args hnames.2.2 helements)
    rwa [argPairs_tokens, argPairs_plain] at hread
  | .staticField owner _, hnames, _ =>
    (reads_chain (Letters.IsDotted.spell letters hnames.1 table)).field hnames.2
  | .newObject type args, hnames, helements => by
    obtain ⟨⟨c, rfl⟩, htype, hargs⟩ := hnames
    have hparts := Expr.elements_newObject.1 helements
    have hread := Reads.newObject (readsType_written (Letters.IsDotted.spell letters · table)
      (.ofClass c) htype hparts.1) (reads_writtenList table args hargs hparts.2)
    rwa [argPairs_tokens, argPairs_plain] at hread
  | .cast type operand, hnames, helements => by
    have hparts := Expr.elements_cast.1 helements
    exact .cast
      (readsType_written (Letters.IsDotted.spell letters · table) type hnames.2.1 hparts.1)
      (by simp [hnames.1]) ((reads_written table operand hnames.2.2 hparts.2).enclosed .unary)
  | .not operand, hnames, helements =>
    .not ((reads_written table operand hnames helements).enclosed .unary)
  | .binary op lhs rhs, hnames, helements => by
    have hparts := Expr.elements_binary.1 helements
    have hlhs := (reads_written table lhs hnames.1 hparts.1).enclosed (opLevel op)
    obtain ⟨tighter, htighter, -⟩ := exists_tighter op
    have hrhs := (reads_written table rhs hnames.2 hparts.2).enclosed tighter
    rw [← htighter] at hrhs
    exact .binary htighter hlhs hrhs
  | .instanceOf operand type, hnames, helements => by
    have hparts := Expr.elements_instanceOf.1 helements
    exact .instanceOf ((reads_written table operand hnames.2.2 hparts.2).enclosed .relation)
      (readsType_written (Letters.IsDotted.spell letters · table) type hnames.2.1 hparts.1)
      (by simp [hnames.1])
  | .cond test yes no, hnames, helements => by
    have hparts := Expr.elements_cond.1 helements
    have htest := (reads_written table test hnames.1 hparts.1).enclosed .or
    have hyes := (reads_written table yes hnames.2.1 hparts.2.1).enclosed .or
    have hno := (reads_written table no hnames.2.2 hparts.2.2).enclosed .cond
    exact .cond htest (hyes.loosen (Nat.zero_le _)) hno

private theorem reads_writtenList (table : NameTable) : ∀ es : List Expr, letters.NamesAll es →
    (Expr.listTypes es).any (·.hasWildcardElement) = false →
      ∀ pair ∈ argPairs table es, Reads letters .cond pair.1 pair.2
  | [], _, _ => by simp [argPairs]
  | e :: es, hnames, helements => by
    have hparts := Expr.elements_listTypes.1 helements
    have hfirst : Reads letters .cond (table.written e) (table.plain e) :=
      (reads_written table e hnames.1 hparts.1).loosen (Nat.zero_le _)
    have hrest := reads_writtenList table es hnames.2 hparts.2
    have hpairs : argPairs table (e :: es) =
        (table.written e, table.plain e) :: argPairs table es := rfl
    rw [hpairs, List.forall_mem_cons]
    exact ⟨hfirst, hrest⟩

end

/-! ## Types that are not read -/

private theorem listTypes_eq_flatMap (es : List Expr) :
    Expr.listTypes es = es.flatMap Expr.types := by
  induction es with
  | nil => rfl
  | cons e es ih => rw [Expr.listTypes, ih, List.flatMap_cons]

private theorem IsAtom.types {token : Token} {e : Expr} (h : IsAtom letters token e) :
    e.types = [] := by
  cases h with
  | keyword hword =>
    unfold keywordExpr? at hword
    split at hword <;> cases hword <;> rfl
  | _ => rfl

/-- An expression that is read has no wildcard as the element of an array. -/
theorem Reads.hasWildcardElement {level : Level} {ts : List Token} {e : Expr}
    (h : Reads letters level ts e) : e.hasWildcardElement = false := by
  have hargs : ∀ {args : List (List Token × Expr)},
      (∀ arg ∈ args, arg.2.hasWildcardElement = false) →
        (Expr.listTypes (args.map (·.2))).any (·.hasWildcardElement) = false := by
    intro args hall
    rw [listTypes_eq_flatMap, List.any_flatMap, List.any_eq_false]
    intro e he
    obtain ⟨arg, harg, rfl⟩ := List.mem_map.mp he
    have harg := hall arg harg
    simpa [Expr.hasWildcardElement] using harg
  induction h with
  | atom hatom => simp [Expr.hasWildcardElement, hatom.types]
  | paren _ ih => exact ih
  | field _ _ ih => exact ih
  | call _ _ ih => exact hargs ih
  | invoke _ _ _ ih ihargs => exact Expr.elements_invoke.2 ⟨ih, hargs ihargs⟩
  | newObject htype _ ih => exact Expr.elements_newObject.2 ⟨htype.hasWildcardElement, hargs ih⟩
  | not _ ih => exact ih
  | cast htype _ _ ih => exact Expr.elements_cast.2 ⟨htype.hasWildcardElement, ih⟩
  | binary _ _ _ ihlhs ihrhs => exact Expr.elements_binary.2 ⟨ihlhs, ihrhs⟩
  | instanceOf _ htype _ ih => exact Expr.elements_instanceOf.2 ⟨htype.hasWildcardElement, ih⟩
  | cond _ _ _ ihtest ihyes ihno => exact Expr.elements_cond.2 ⟨ihtest, ihyes, ihno⟩
  | tighter _ _ ih => exact ih

mutual

private theorem hasWildcardElement_spelled (spell : String → String) :
    ∀ t : TypeExpr, (t.spelled spell).hasWildcardElement = t.hasWildcardElement
  | .void => rfl
  | .primitive _ => rfl
  | .named _ args => anyWildcardElement_spelled spell args
  | .array element => by
    simp [TypeExpr.spelled, TypeExpr.hasWildcardElement, hasWildcardElement_spelled spell element]
  | .unbounded => rfl
  | .bounded bound => hasWildcardElement_spelled spell bound

private theorem anyWildcardElement_spelled (spell : String → String) : ∀ ts : List TypeExpr,
    TypeExpr.anyWildcardElement (TypeExpr.listSpelled spell ts) = TypeExpr.anyWildcardElement ts
  | [] => rfl
  | t :: ts => by
    simp [TypeExpr.listSpelled, TypeExpr.anyWildcardElement, hasWildcardElement_spelled spell t,
      anyWildcardElement_spelled spell ts]

end

private theorem types_chain (name : String) : (chain name).types = [] := by
  have hfold : ∀ (parts : List String) (e : Expr), e.types = [] →
      (parts.foldl Expr.field e).types = [] := by
    intro parts
    induction parts with
    | nil => exact fun _ he => he
    | cons part parts ih => exact fun e he => ih (.field e part) he
  unfold chain
  split
  · rfl
  · exact hfold _ _ rfl

mutual

/-- The plain form has the types of the expression, spelled as the table has them. -/
theorem types_plain (table : NameTable) :
    ∀ e : Expr, (table.plain e).types = e.types.map (·.spelled table.spell)
  | .thisRef | .superRef | .nullLit | .boolLit _ | .intLit _ | .strLit _ | .ident _ => rfl
  | .field target _ => types_plain table target
  | .call _ args => types_plainList table args
  | .invoke target _ args => by
    simp [NameTable.plain, Expr.types, types_plain table target, types_plainList table args]
  | .staticCall owner _ args => by
    simp [NameTable.plain, Expr.types, types_chain, types_plainList table args]
  | .staticField owner _ => types_chain _
  | .newObject _ args => by simp [NameTable.plain, Expr.types, types_plainList table args]
  | .cast _ operand => by simp [NameTable.plain, Expr.types, types_plain table operand]
  | .not operand => types_plain table operand
  | .binary _ lhs rhs => by
    simp [NameTable.plain, Expr.types, types_plain table lhs, types_plain table rhs]
  | .instanceOf operand _ => by simp [NameTable.plain, Expr.types, types_plain table operand]
  | .cond test yes no => by
    simp [NameTable.plain, Expr.types, types_plain table test, types_plain table yes,
      types_plain table no]

private theorem types_plainList (table : NameTable) : ∀ es : List Expr,
    Expr.listTypes (table.plainList es) = (Expr.listTypes es).map (·.spelled table.spell)
  | [] => rfl
  | e :: es => by
    simp [NameTable.plainList, Expr.listTypes, types_plain table e, types_plainList table es]

end

/-- The plain form has the same wildcards as elements of arrays. -/
theorem hasWildcardElement_plain (table : NameTable) (e : Expr) :
    (table.plain e).hasWildcardElement = e.hasWildcardElement := by
  simp [Expr.hasWildcardElement, types_plain, List.any_map, Function.comp_def,
    hasWildcardElement_spelled]

end BeanSynthesis.Java
