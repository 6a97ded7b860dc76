import BeanSynthesis.Proofs.JavaText.Phrases
import BeanSynthesis.Proofs.JavaText.ReadBack

/-!
# Operands without parentheses

Members are selected from primaries, and casts and `!` stand before what is unary. An operand there
is written with parentheses if its level is too low, and an integer literal counts as a primary
whatever its value is. So the operands are what their places demand unless a member of an integer
literal is selected or a negative one is cast to a type that is not primitive.
-/

namespace BeanSynthesis

/-! ## Places of operands -/

/-- A place in an expression that demands a primary or a unary operand. -/
inductive OperandPlace where
  /-- A member is selected from the operand. -/
  | target (operand : Expr)
  | castOperand (type : TypeExpr) (operand : Expr)
  | notOperand (operand : Expr)

namespace OperandPlace

/-- The operand at the place. -/
def operand : OperandPlace → Expr
  | target e => e
  | castOperand _ e => e
  | notOperand e => e

/-- The type at the place. -/
def type? : OperandPlace → Option TypeExpr
  | castOperand t _ => some t
  | _ => none

/-- The operand is an integer literal that had to be in parentheses. -/
def misplacesNumber : OperandPlace → Bool
  | target e => e.isNumber
  | castOperand t e => e.isNegative && !t.isPrimitive
  | notOperand _ => false

end OperandPlace

mutual

/-- The places of operands in an expression. -/
def Expr.operandPlaces : Expr → List OperandPlace
  | .thisRef | .superRef | .nullLit | .boolLit _ | .intLit _ | .strLit _ | .ident _ => []
  | .field target _ => .target target :: target.operandPlaces
  | .call _ args => Expr.listOperandPlaces args
  | .invoke target _ args => .target target :: target.operandPlaces ++ Expr.listOperandPlaces args
  | .staticCall _ _ args => Expr.listOperandPlaces args
  | .staticField _ _ => []
  | .newObject _ args => Expr.listOperandPlaces args
  | .cast type operand => .castOperand type operand :: operand.operandPlaces
  | .not operand => .notOperand operand :: operand.operandPlaces
  | .binary _ lhs rhs => lhs.operandPlaces ++ rhs.operandPlaces
  | .instanceOf operand _ => operand.operandPlaces
  | .cond test yes no => test.operandPlaces ++ yes.operandPlaces ++ no.operandPlaces

/-- The places of operands in a list of expressions. -/
def Expr.listOperandPlaces : List Expr → List OperandPlace
  | [] => []
  | e :: es => e.operandPlaces ++ Expr.listOperandPlaces es

end

namespace Java

open Source (Level opLevel level parenthesized enclosed signedNumber NameTable)

variable {letters : Letters}

/-- The text of an operand where the level is demanded. -/
def operandText (table : NameTable) (least : Level) (e : Expr) : String :=
  parenthesized e least.rank (table.expr e)

variable (letters) in
/-- The operand is what its place demands. In a cast and behind `!` it cannot be read as the right
operand of a minus. -/
def Stands (table : NameTable) : OperandPlace → Prop
  | .target e => ∃ ts, (∀ rest, Cuts letters (operandText table .primary e).toList false ts
      ('.' :: rest)) ∧ IsPhrase letters .primary ts
  | .castOperand t e => ∃ vs us, letters.tokens? (table.type t).toList = some vs ∧
      letters.tokens? (operandText table .unary e).toList = some us ∧
      IsPhrase letters .unary us ∧
      IsPhrase letters .unary (.openParen :: vs ++ .closeParen :: us) ∧
      ¬ IsDifference letters (.openParen :: vs ++ .closeParen :: us)
  | .notOperand e => ∃ us, letters.tokens? (operandText table .unary e).toList = some us ∧
      IsPhrase letters .unary us ∧ ¬ IsDifference letters (.bang :: us)

variable (letters) in
/-- The names at the place are identifiers, and no wildcard is an element of an array. -/
structure Named (place : OperandPlace) : Prop where
  names : letters.SignedNames place.operand
  elements : place.operand.hasWildcardElement = false
  type : ∀ t ∈ place.type?,
    t.isWildcard = false ∧ letters.NamesType t ∧ t.hasWildcardElement = false

variable (letters) in
/-- The places are named, and so are those in their operands. -/
def Within (places all : List OperandPlace) : Prop :=
  ∀ place ∈ places, Named letters place ∧ place.operand.operandPlaces ⊆ all

namespace Within

variable {places more all : List OperandPlace}

private theorem mono (h : Within letters places more) (hsub : more ⊆ all) :
    Within letters places all :=
  fun place hplace => (h place hplace).imp_right fun hwithin => List.Subset.trans hwithin hsub

private theorem append (hleft : Within letters places places) (hright : Within letters more more) :
    Within letters (places ++ more) (places ++ more) :=
  List.forall_mem_append.2 ⟨hleft.mono (List.subset_append_left _ _),
    hright.mono (List.subset_append_right _ _)⟩

private theorem cons {place : OperandPlace} (hplace : Named letters place)
    (h : Within letters place.operand.operandPlaces place.operand.operandPlaces) :
    Within letters (place :: place.operand.operandPlaces)
      (place :: place.operand.operandPlaces) :=
  List.forall_mem_cons.2 ⟨⟨hplace, List.subset_cons_self _ _⟩, h.mono (List.subset_cons_self _ _)⟩

end Within

mutual

private theorem within_operandPlaces :
    ∀ e : Expr, letters.SignedNames e → e.hasWildcardElement = false →
    Within letters e.operandPlaces e.operandPlaces
  | .thisRef, _, _ | .superRef, _, _ | .nullLit, _, _ | .boolLit _, _, _ | .intLit _, _, _
  | .strLit _, _, _ | .ident _, _, _ | .staticField _ _, _, _ => nofun
  | .field target _, hnames, helements =>
    .cons ⟨hnames.1, helements, nofun⟩ (within_operandPlaces target hnames.1 helements)
  | .call _ args, hnames, helements => within_listOperandPlaces args hnames.2 helements
  | .invoke target _ args, hnames, helements => by
    have hparts := Expr.elements_invoke.1 helements
    exact .append (.cons ⟨hnames.1, hparts.1, nofun⟩
      (within_operandPlaces target hnames.1 hparts.1))
      (within_listOperandPlaces args hnames.2.2 hparts.2)
  | .staticCall _ _ args, hnames, helements => within_listOperandPlaces args hnames.2.2 helements
  | .newObject type args, hnames, helements => by
    have hparts := Expr.elements_newObject.1 helements
    exact within_listOperandPlaces args hnames.2.2 hparts.2
  | .cast type operand, hnames, helements => by
    have hparts := Expr.elements_cast.1 helements
    refine .cons ⟨hnames.2.2, hparts.2, ?_⟩ (within_operandPlaces operand hnames.2.2 hparts.2)
    intro t ht
    obtain rfl : type = t := Option.some.inj ht
    exact ⟨hnames.1, hnames.2.1, hparts.1⟩
  | .not operand, hnames, helements =>
    .cons ⟨hnames, helements, nofun⟩ (within_operandPlaces operand hnames helements)
  | .binary _ lhs rhs, hnames, helements => by
    have hparts := Expr.elements_binary.1 helements
    exact .append (within_operandPlaces lhs hnames.1 hparts.1)
      (within_operandPlaces rhs hnames.2 hparts.2)
  | .instanceOf operand type, hnames, helements => by
    have hparts := Expr.elements_instanceOf.1 helements
    exact within_operandPlaces operand hnames.2.2 hparts.2
  | .cond test yes no, hnames, helements => by
    have hparts := Expr.elements_cond.1 helements
    exact .append (.append (within_operandPlaces test hnames.1 hparts.1)
      (within_operandPlaces yes hnames.2.1 hparts.2.1))
      (within_operandPlaces no hnames.2.2 hparts.2.2)

private theorem within_listOperandPlaces : ∀ es : List Expr, letters.SignedNamesAll es →
    (Expr.listTypes es).any (·.hasWildcardElement) = false →
      Within letters (Expr.listOperandPlaces es) (Expr.listOperandPlaces es)
  | [], _, _ => nofun
  | e :: es, hnames, helements => by
    have hparts := Expr.elements_listTypes.1 helements
    exact .append (within_operandPlaces e hnames.1 hparts.1)
      (within_listOperandPlaces es hnames.2 hparts.2)

end

/-! ## Written expressions are phrases -/

private theorem IsPhrase.loosen {level looser : Level} {ts : List Token}
    (h : IsPhrase letters level ts)
    (hle : looser.rank ≤ level.rank) : IsPhrase letters looser ts :=
  loosen_of_tighter (P := (IsPhrase letters · ts)) IsPhrase.tighter hle h

/-- What is read without signs is a phrase. -/
theorem Reads.isPhrase {level : Level} {ts : List Token} {e : Expr}
    (h : Reads letters level ts e) : IsPhrase letters level ts := by
  have hargs : ∀ {args : List (List Token × Expr)},
      (∀ arg ∈ args, IsPhrase letters .cond arg.1) →
        ∀ ts ∈ args.map (·.1), IsPhrase letters .cond ts := by
    intro args hall ts hts
    obtain ⟨arg, harg, rfl⟩ := List.mem_map.1 hts
    exact hall arg harg
  induction h with
  | atom hatom => exact .atom hatom
  | paren _ ih => exact .paren ih
  | field _ hname ih => exact .field ih hname
  | call hmethod _ ih => exact .call hmethod (hargs ih)
  | invoke _ hmethod _ ih ihargs => exact .invoke ih hmethod (hargs ihargs)
  | newObject htype _ ih => exact .newObject htype (hargs ih)
  | not _ ih => exact .not ih
  | cast htype hwildcard h ih =>
    refine .cast htype hwildcard (fun hsign => ?_) ih
    obtain ⟨first, rest, rfl, hstarts⟩ := h.starts
    obtain rfl : first = .operator .minus := Option.some.inj hsign
    cases hstarts with
    | atom hatom => cases hatom
  | binary htighter _ _ ihlhs ihrhs => exact .binary htighter ihlhs ihrhs
  | instanceOf _ htype hwildcard ih => exact .instanceOf ih htype hwildcard
  | cond _ _ _ ihtest ihyes ihno => exact .cond ihtest ihyes ihno
  | tighter hrank _ ih => exact .tighter hrank ih

/-- The level of an expression with the sign that a negative literal has. -/
def signedLevel (e : Expr) : Level := if e.isNegative then .unary else level e

private theorem signedLevel_eq {e : Expr} (h : e.isNumber = false) : signedLevel e = level e := by
  cases e <;> first | rfl | cases h

/-- With parentheses where they are needed an expression may stand at a level, except a number where
a primary is demanded. -/
theorem IsPhrase.enclosed {e : Expr} {ts : List Token} (h : IsPhrase letters (signedLevel e) ts)
    (least : Level) (hleast : least.rank ≤ Level.unary.rank ∨ e.isNumber = false) :
    IsPhrase letters least (Source.enclosed e least.rank ts) := by
  unfold Source.enclosed
  split
  case isTrue _ =>
    have hparen : IsPhrase letters .primary (.openParen :: ts ++ [.closeParen]) :=
      .paren (h.loosen (Nat.zero_le _))
    exact hparen.loosen (by cases least <;> decide)
  case isFalse hrank =>
    refine h.loosen ?_
    rcases hleast with hunary | hnumber
    · unfold signedLevel
      split
      · exact hunary
      · exact Nat.le_of_not_lt hrank
    · rw [signedLevel_eq hnumber]
      exact Nat.le_of_not_lt hrank

private theorem IsPhrase.head_ne_minus {ts : List Token} (h : IsPhrase letters .primary ts) :
    ts.head? ≠ some (.operator .minus) := by
  intro hhead
  obtain ⟨rest, rfl⟩ := List.head?_eq_some_iff.1 hhead
  cases (h.due_of_minus (by decide) (List.nil_append _).symm rfl).1

/-- Only a negative literal puts a sign at the start of a unary operand. -/
theorem isNegative_of_head {table : NameTable} {e : Expr}
    (h : IsPhrase letters (signedLevel e) (table.signed e))
    (hhead : (enclosed e Level.unary.rank (table.signed e)).head? = some (.operator .minus)) :
    e.isNegative = true := by
  unfold enclosed at hhead
  split at hhead
  case isTrue _ => cases hhead
  case isFalse hrank =>
    by_contra hsign
    rw [signedLevel, if_neg hsign] at h
    cases hlevel : level e with
    | unary =>
      cases e with
      | cast type operand => cases hhead
      | not operand => cases hhead
      | binary op lhs rhs => cases op <;> cases hlevel
      | _ => cases hlevel
    | primary =>
      rw [hlevel] at h
      exact h.head_ne_minus hhead
    | _ =>
      rw [hlevel] at hrank
      exact hrank (by decide)

private theorem spelled_primitive {spell : String → String} {t : TypeExpr}
    (h : t.isPrimitive = true) :
    ∃ p, t.spelled spell = .primitive p := by
  cases t with
  | primitive p => exact ⟨p, rfl⟩
  | _ => cases h

/-- A cast of a phrase is a phrase, unless it casts a sign to a type that is not primitive. -/
theorem isPhrase_cast {table : NameTable} {type : TypeExpr} {operand : Expr}
    (hplace : Named letters (.castOperand type operand))
    (hsign : (OperandPlace.castOperand type operand).misplacesNumber = false)
    (h : IsPhrase letters (signedLevel operand) (table.signed operand)) :
    IsPhrase letters .unary (.openParen :: type.written table.spell ++
      .closeParen :: enclosed operand Level.unary.rank (table.signed operand)) := by
  obtain ⟨hwildcard, hnames, helements⟩ := hplace.type type rfl
  refine .cast (readsType_written (Letters.IsDotted.spell letters · table) type hnames helements)
    (by simp [hwildcard]) (fun hhead => ?_) (h.enclosed .unary (.inl (Nat.le_refl _)))
  have hnegative := isNegative_of_head h hhead
  simp only [OperandPlace.misplacesNumber, hnegative, Bool.true_and, Bool.not_eq_false'] at hsign
  exact spelled_primitive hsign

mutual

/-- The tokens of an expression are a phrase of its level, if no number is misplaced in it. -/
theorem isPhrase_signed (table : NameTable) : ∀ e : Expr, letters.SignedNames e →
    e.hasWildcardElement = false →
    (∀ place ∈ e.operandPlaces, place.misplacesNumber = false) →
      IsPhrase letters (signedLevel e) (table.signed e)
  | .thisRef, _, _, _ => .atom (.keyword rfl)
  | .superRef, _, _, _ => .atom (.keyword rfl)
  | .nullLit, _, _, _ => .atom (.keyword rfl)
  | .boolLit value, _, _, _ => by
    cases value
    · exact .atom (.keyword rfl)
    · exact .atom (.keyword rfl)
  | .intLit value, _, _, _ => by
    have hnumber : IsPhrase letters .primary [.number (Nat.repr value.natAbs)] :=
      .atom (.number value.natAbs)
    have hcases : value < 0 ∨ ¬ value < 0 := em _
    rcases hcases with hnegative | hnonneg
    · simp only [signedLevel, Expr.isNegative, NameTable.signed, signedNumber, hnegative,
        decide_true, if_true]
      exact .negate (hnumber.loosen (by decide))
    · simp only [signedLevel, Expr.isNegative, NameTable.signed, signedNumber, hnonneg,
        decide_false, if_false]
      exact hnumber
  | .strLit value, _, _, _ => .atom (.string value)
  | .ident _, hnames, _, _ => .atom (.name hnames)
  | .field target _, hnames, helements, hplaces => by
    obtain ⟨hnumber, hinner⟩ := List.forall_mem_cons.1 hplaces
    exact .field ((isPhrase_signed table target hnames.1 helements hinner).enclosed .primary
      (.inr hnumber)) hnames.2
  | .call method args, hnames, helements, hplaces =>
    .call hnames.1 (isPhrase_signedList table args hnames.2 helements hplaces)
  | .invoke target method args, hnames, helements, hplaces => by
    have hparts := Expr.elements_invoke.1 helements
    obtain ⟨htarget, hargs⟩ := List.forall_mem_append.1 hplaces
    obtain ⟨hnumber, hinner⟩ := List.forall_mem_cons.1 htarget
    exact .invoke ((isPhrase_signed table target hnames.1 hparts.1 hinner).enclosed .primary
      (.inr hnumber)) hnames.2.1 (isPhrase_signedList table args hnames.2.2 hparts.2 hargs)
  | .staticCall owner method args, hnames, helements, hplaces =>
    .invoke (reads_chain (Letters.IsDotted.spell letters hnames.1 table)).isPhrase hnames.2.1
      (isPhrase_signedList table args hnames.2.2 helements hplaces)
  | .staticField owner _, hnames, _, _ =>
    .field (reads_chain (Letters.IsDotted.spell letters hnames.1 table)).isPhrase hnames.2
  | .newObject type args, hnames, helements, hplaces => by
    obtain ⟨⟨c, rfl⟩, htype, hargs⟩ := hnames
    have hparts := Expr.elements_newObject.1 helements
    exact .newObject (readsType_written (Letters.IsDotted.spell letters · table)
      (.ofClass c) htype hparts.1) (isPhrase_signedList table args hargs hparts.2 hplaces)
  | .cast type operand, hnames, helements, hplaces => by
    -- The place of the cast itself tells that its type is named and holds no wildcard.
    obtain ⟨hsign, hinner⟩ := List.forall_mem_cons.1 hplaces
    have hplace := (within_operandPlaces (.cast type operand) hnames helements _
      List.mem_cons_self).1
    exact isPhrase_cast hplace hsign
      (isPhrase_signed table operand hnames.2.2 hplace.elements hinner)
  | .not operand, hnames, helements, hplaces => by
    obtain ⟨-, hinner⟩ := List.forall_mem_cons.1 hplaces
    exact .not ((isPhrase_signed table operand hnames helements hinner).enclosed .unary
      (.inl (Nat.le_refl _)))
  | .binary op lhs rhs, hnames, helements, hplaces => by
    have hparts := Expr.elements_binary.1 helements
    obtain ⟨hleft, hright⟩ := List.forall_mem_append.1 hplaces
    obtain ⟨tighter, htighter, hunary⟩ := exists_tighter op
    have hlhs := (isPhrase_signed table lhs hnames.1 hparts.1 hleft).enclosed (opLevel op)
      (.inl (by omega))
    have hrhs := (isPhrase_signed table rhs hnames.2 hparts.2 hright).enclosed tighter (.inl hunary)
    rw [← htighter] at hrhs
    have hlevel : signedLevel (.binary op lhs rhs) = opLevel op := rfl
    rw [hlevel]
    exact .binary htighter hlhs hrhs
  | .instanceOf operand type, hnames, helements, hplaces => by
    have hparts := Expr.elements_instanceOf.1 helements
    exact .instanceOf ((isPhrase_signed table operand hnames.2.2 hparts.2 hplaces).enclosed
      .relation (.inl (by decide)))
      (readsType_written (Letters.IsDotted.spell letters · table) type hnames.2.1 hparts.1)
      (by simp [hnames.1])
  | .cond test yes no, hnames, helements, hplaces => by
    have hparts := Expr.elements_cond.1 helements
    obtain ⟨hfirst, hthird⟩ := List.forall_mem_append.1 hplaces
    obtain ⟨hfirst, hsecond⟩ := List.forall_mem_append.1 hfirst
    have htest := (isPhrase_signed table test hnames.1 hparts.1 hfirst).enclosed .or
      (.inl (by decide))
    have hyes := (isPhrase_signed table yes hnames.2.1 hparts.2.1 hsecond).enclosed .or
      (.inl (by decide))
    have hno := (isPhrase_signed table no hnames.2.2 hparts.2.2 hthird).enclosed .cond
      (.inl (by decide))
    exact .cond htest (hyes.loosen (Nat.zero_le _)) hno

private theorem isPhrase_signedList (table : NameTable) :
    ∀ es : List Expr, letters.SignedNamesAll es →
    (Expr.listTypes es).any (·.hasWildcardElement) = false →
    (∀ place ∈ Expr.listOperandPlaces es, place.misplacesNumber = false) →
      ∀ ts ∈ table.signedList es, IsPhrase letters .cond ts
  | [], _, _, _ => nofun
  | e :: es, hnames, helements, hplaces => by
    have hparts := Expr.elements_listTypes.1 helements
    obtain ⟨hfirst, hrest⟩ := List.forall_mem_append.1 hplaces
    refine List.forall_mem_cons.2 ⟨?_, isPhrase_signedList table es hnames.2 hparts.2 hrest⟩
    exact (isPhrase_signed table e hnames.1 hparts.1 hfirst).loosen (Nat.zero_le _)

end

/-! ## Texts of operands -/

mutual

/-- If no number is misplaced, no member of one is selected. -/
theorem selectsNumber_eq_false : ∀ e : Expr,
    (∀ place ∈ e.operandPlaces, place.misplacesNumber = false) → e.selectsNumber = false
  | .thisRef, _ | .superRef, _ | .nullLit, _ | .boolLit _, _ | .intLit _, _ | .strLit _, _
  | .ident _, _ | .staticField _ _, _ => rfl
  | .field target _, h => by
    obtain ⟨hnumber, hinner⟩ := List.forall_mem_cons.1 h
    have hnumber : target.isNumber = false := hnumber
    simp [Expr.selectsNumber, hnumber, selectsNumber_eq_false target hinner]
  | .call _ args, h => anySelectsNumber_eq_false args h
  | .invoke target _ args, h => by
    obtain ⟨htarget, hargs⟩ := List.forall_mem_append.1 h
    obtain ⟨hnumber, hinner⟩ := List.forall_mem_cons.1 htarget
    have hnumber : target.isNumber = false := hnumber
    simp [Expr.selectsNumber, hnumber, selectsNumber_eq_false target hinner,
      anySelectsNumber_eq_false args hargs]
  | .staticCall _ _ args, h => anySelectsNumber_eq_false args h
  | .newObject _ args, h => anySelectsNumber_eq_false args h
  | .cast _ operand, h => selectsNumber_eq_false operand (List.forall_mem_cons.1 h).2
  | .not operand, h => selectsNumber_eq_false operand (List.forall_mem_cons.1 h).2
  | .binary _ lhs rhs, h => by
    obtain ⟨hleft, hright⟩ := List.forall_mem_append.1 h
    simp [Expr.selectsNumber, selectsNumber_eq_false lhs hleft, selectsNumber_eq_false rhs hright]
  | .instanceOf operand _, h => selectsNumber_eq_false operand h
  | .cond test yes no, h => by
    obtain ⟨hfirst, hthird⟩ := List.forall_mem_append.1 h
    obtain ⟨hfirst, hsecond⟩ := List.forall_mem_append.1 hfirst
    simp [Expr.selectsNumber, selectsNumber_eq_false test hfirst,
      selectsNumber_eq_false yes hsecond, selectsNumber_eq_false no hthird]

private theorem anySelectsNumber_eq_false : ∀ es : List Expr,
    (∀ place ∈ Expr.listOperandPlaces es, place.misplacesNumber = false) →
      Expr.anySelectsNumber es = false
  | [], _ => rfl
  | e :: es, h => by
    obtain ⟨hfirst, hrest⟩ := List.forall_mem_append.1 h
    simp [Expr.anySelectsNumber, selectsNumber_eq_false e hfirst,
      anySelectsNumber_eq_false es hrest]

end

private theorem cuts_operandText {table : NameTable} {least : Level} {e : Expr} {rest : List Char}
    (hnames : letters.SignedNames e) (hrest : Delimits letters rest)
    (hdot : rest.head? = some '.' → least.rank = Level.primary.rank ∧ e.isNumber = false) :
    Cuts letters (operandText table least e).toList e.selectsNumber
      (enclosed e least.rank (table.signed e)) rest :=
  cuts_operand (cuts_expr table e hnames) hrest hdot

private theorem tokens_operandText {table : NameTable} {least : Level} {e : Expr}
    (hnames : letters.SignedNames e) (hselects : e.selectsNumber = false) :
    letters.tokens? (operandText table least e).toList =
      some (enclosed e least.rank (table.signed e)) := by
  have hcut := @cuts_operandText letters table least e [] hnames .nil (by simp)
  simpa [Cuts, hselects, Letters.tokens?_nil] using hcut

private theorem tokens_type {table : NameTable} {t : TypeExpr} (hnames : letters.NamesType t) :
    letters.tokens? (table.type t).toList = some (t.written table.spell) := by
  have hcut := cuts_type (Letters.IsDotted.spell letters · table) t hnames Delimits.nil
  simpa [Cuts, NameTable.type, Letters.tokens?_nil] using hcut

/-- An operand is what its place demands if no number is misplaced there or in it. -/
theorem stands_of_placed {table : NameTable} {place : OperandPlace} (hplace : Named letters place)
    (hhere : place.misplacesNumber = false)
    (hinner : ∀ inner ∈ place.operand.operandPlaces, inner.misplacesNumber = false) :
    Stands letters table place := by
  have hselects := selectsNumber_eq_false place.operand hinner
  have hphrase := isPhrase_signed table place.operand hplace.names hplace.elements hinner
  cases place with
  | target e =>
    refine ⟨_, fun rest => ?_, hphrase.enclosed .primary (.inr hhere)⟩
    rw [← hselects]
    exact cuts_operandText hplace.names (.cons '.' (by decide)) fun _ => ⟨rfl, hhere⟩
  | castOperand t e =>
    have hcast := isPhrase_cast hplace hhere hphrase
    obtain ⟨-, htype, -⟩ := hplace.type t rfl
    exact ⟨_, _, tokens_type htype, tokens_operandText hplace.names hselects,
      hphrase.enclosed .unary (.inl (Nat.le_refl _)), hcast, hcast.not_isDifference⟩
  | notOperand e =>
    have hoperand := hphrase.enclosed .unary (.inl (Nat.le_refl _))
    exact ⟨_, tokens_operandText hplace.names hselects, hoperand, hoperand.not.not_isDifference⟩

/-- Digits before a dot are no operand. -/
theorem not_stands_number (table : NameTable) (value : Int) :
    ¬ Stands letters table (.target (.intLit value)) := by
  rintro ⟨ts, hcuts, -⟩
  have hends : EndsWord letters ['.', 'x'] := (Delimits.cons '.' (by decide)).endsWord
  have hmember : letters.tokens? ['.', 'x'] = some [.dot, .word "x"] := by
    have hcut : Cuts letters (['.'] ++ "x".toList) false ([.dot] ++ [.word "x"]) [] :=
      .before (.dot (by decide)) (.keyword "x" (by decide) (by decide) Delimits.nil.endsWord)
    simpa [Cuts, Letters.tokens?_nil] using hcut
  have hunreadable : letters.tokens? ((Source.intLiteral value).toList ++ ['.', 'x']) = none := by
    simpa [Cuts] using @cuts_intLiteral letters _ value hends
  have hreadable : letters.tokens? ((Source.intLiteral value).toList ++ ['.', 'x']) =
      some (ts ++ [.dot, .word "x"]) := by
    have hcut := hcuts ['x']
    rwa [Cuts, hmember] at hcut
  rw [hreadable] at hunreadable
  cases hunreadable

/-- A misplaced number is not what its place demands. -/
theorem not_stands_of_misplaced {table : NameTable} {place : OperandPlace}
    (hplace : Named letters place) (h : place.misplacesNumber = true) :
    ¬ Stands letters table place := by
  cases place with
  | target e =>
    cases e with
    | intLit value => exact not_stands_number table value
    | _ => cases h
  | castOperand t e =>
    cases e with
    | intLit value =>
      rintro ⟨vs, us, hvs, hus, -, hcast, -⟩
      obtain ⟨hnegative, hprimitive⟩ : value < 0 ∧ t.isPrimitive = false := by
        simpa [OperandPlace.misplacesNumber, Expr.isNegative] using h
      obtain ⟨-, hnames, helements⟩ := hplace.type t rfl
      obtain rfl := Option.some.inj ((tokens_type hnames).symm.trans hvs)
      obtain rfl := Option.some.inj ((tokens_operandText hplace.names rfl).symm.trans hus)
      have htokens : enclosed (.intLit value) Level.unary.rank (table.signed (.intLit value)) =
          [.operator .minus, .number (Nat.repr value.natAbs)] := if_pos hnegative
      have htype := readsType_written (Letters.IsDotted.spell letters · table) t hnames helements
      rw [OperandPlace.operand, htokens] at hcast
      obtain ⟨p, hp⟩ := hcast.primitive_of_sign htype
      cases t with
      | primitive q => cases hprimitive
      | _ => cases hp
    | _ => cases h
  | notOperand e => cases h

/-- All operands of an expression are what their places demand if and only if no integer literal is
selected from and no negative one is cast to a type that is not primitive. -/
theorem operandPlaces_stand_iff (letters : Letters) (table : NameTable) (e : Expr)
    (hnames : letters.SignedNames e) (helements : e.hasWildcardElement = false) :
    (∀ place ∈ e.operandPlaces, Stands letters table place) ↔
      ∀ place ∈ e.operandPlaces, place.misplacesNumber = false := by
  have hwithin := within_operandPlaces e hnames helements
  constructor
  · intro hstand place hplace
    by_contra hmisplaced
    rw [Bool.not_eq_false] at hmisplaced
    exact not_stands_of_misplaced (hwithin place hplace).1 hmisplaced (hstand place hplace)
  · intro hplaces place hplace
    obtain ⟨hnamed, hinner⟩ := hwithin place hplace
    exact stands_of_placed hnamed (hplaces place hplace) fun inner h => hplaces inner (hinner h)

/-- The cast of the number minus one to a class. -/
def signedCast : Expr := .cast (.ofName "org.w3c.dom.Node") (.intLit (-1))

/-- The cast of the number minus one to a primitive type. -/
def primitiveCast : Expr := .cast (.primitive .int) (.intLit (-1))

/-- The cast to a class reads as a difference, the cast to a primitive type stays one. -/
theorem signedCast_misread : Letters.ascii.SignedNames signedCast ∧
    signedCast.hasWildcardElement = false ∧ nodeTable.expr signedCast = "(Node) -1" ∧
    (¬ ∀ place ∈ signedCast.operandPlaces, Stands .ascii nodeTable place) ∧
    (∃ ts, Letters.ascii.tokens? "(Node) -1".toList = some ts ∧ IsDifference .ascii ts) ∧
    Letters.ascii.SignedNames primitiveCast ∧ primitiveCast.hasWildcardElement = false ∧
    nodeTable.expr primitiveCast = "(int) -1" ∧
    ∀ place ∈ primitiveCast.operandPlaces, Stands .ascii nodeTable place := by
  have hdotted : Letters.ascii.IsDotted "org.w3c.dom.Node" := by decide +kernel
  have hnode : Letters.ascii.IsName "Node" := by decide +kernel
  have hnames : Letters.ascii.SignedNames signedCast := ⟨rfl, ⟨hdotted, trivial⟩, trivial⟩
  have hprimitive : Letters.ascii.SignedNames primitiveCast := ⟨rfl, trivial, trivial⟩
  have htext : nodeTable.expr signedCast = "(Node) -1" := by decide +kernel
  have htokens : Letters.ascii.tokens? "(Node) -1".toList = some
      ([.openParen, .word "Node", .closeParen] ++ .operator .minus :: [.number (Nat.repr 1)]) := by
    rw [← htext]
    exact (@tokens_operandText _ nodeTable .cond _ hnames rfl).trans (by decide +kernel)
  refine ⟨hnames, rfl, htext, fun hstand => ?_, ⟨_, htokens, _, _, rfl, ?_, ?_⟩, hprimitive, rfl,
    by decide +kernel, ?_⟩
  · have hplaces := (operandPlaces_stand_iff .ascii nodeTable signedCast hnames rfl).1 hstand
    exact absurd (hplaces _ List.mem_cons_self) (by decide)
  · have hparen : IsPhrase .ascii .primary (.openParen :: [.word "Node"] ++ [.closeParen]) :=
      .paren (IsPhrase.loosen (.atom (.name hnode)) (by decide))
    exact hparen.loosen (by decide)
  · have hnumber : IsPhrase .ascii .primary [.number (Nat.repr 1)] := .atom (.number 1)
    exact hnumber.loosen (by decide)
  · exact (operandPlaces_stand_iff .ascii nodeTable primitiveCast hprimitive rfl).2 (by decide)

end Java

end BeanSynthesis
