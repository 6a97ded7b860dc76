import BeanSynthesis.Proofs.JavaText.Lexing
import BeanSynthesis.Proofs.JavaText.Meaning
import BeanSynthesis.Proofs.JavaText.Signs
import BeanSynthesis.Proofs.JavaText.Unambiguous

/-!
# Reading written expressions back

The text of an expression is cut into the tokens of its written form, with one exception: where a
member of an integer literal is selected, the dot after the digits makes the text a floating-point
literal. So a written expression is read back as its plain form, and as nothing else, unless such a
member is selected or a type has a wildcard as the element of an array.
-/

namespace BeanSynthesis

/-- Whether the expression is an integer literal. -/
def Expr.isNumber : Expr → Bool
  | .intLit _ => true
  | _ => false

mutual

/-- Somewhere a member of an integer literal is selected. -/
@[simp] def Expr.selectsNumber : Expr → Bool
  | .thisRef | .superRef | .nullLit | .boolLit _ | .intLit _ | .strLit _ | .ident _ => false
  | .field target _ => target.isNumber || target.selectsNumber
  | .call _ args => Expr.anySelectsNumber args
  | .invoke target _ args => target.isNumber || target.selectsNumber || Expr.anySelectsNumber args
  | .staticCall _ _ args => Expr.anySelectsNumber args
  | .staticField _ _ => false
  | .newObject _ args => Expr.anySelectsNumber args
  | .cast _ operand => operand.selectsNumber
  | .not operand => operand.selectsNumber
  | .binary _ lhs rhs => lhs.selectsNumber || rhs.selectsNumber
  | .instanceOf operand _ => operand.selectsNumber
  | .cond test yes no => test.selectsNumber || yes.selectsNumber || no.selectsNumber

/-- The same for one of the expressions. -/
@[simp] def Expr.anySelectsNumber : List Expr → Bool
  | [] => false
  | e :: es => e.selectsNumber || Expr.anySelectsNumber es

end

namespace Java

open Source (Level opLevel level parenthesized enclosed signedNumber NameTable)

variable {letters : Letters} {rest : List Char}

/-! ## Where a type or an expression ends -/

variable (letters) in
/-- Neither a word nor a string literal nor a sign goes on so. -/
structure Delimits (rest : List Char) : Prop where
  endsWord : EndsWord letters rest
  noQuote : rest.head? ≠ some '"'
  noEquals : rest.head? ≠ some '='

/-- A type or an expression may end the text. -/
theorem Delimits.nil : Delimits letters [] where
  endsWord := by simp [EndsWord]
  noQuote := by simp
  noEquals := by simp

/-- A type or an expression may be followed by a space, a dot, a comma, or a bracket of some
kind. -/
theorem Delimits.cons (c : Char) (hc : c ∈ [' ', '.', ',', '(', ')', '<', '>', '[']) :
    Delimits letters (c :: rest) := by
  have hascii : ∀ d ∈ [' ', '.', ',', '(', ')', '<', '>', '['],
      ' ' ≤ d ∧ d ≤ '~' ∧ (d.isAlphanum || d == '_' || d == '$') = false ∧ d ≠ '"' ∧ d ≠ '=' := by
    simp
  obtain ⟨hfrom, hto, hpart, hquote, hequals⟩ := hascii c hc
  exact
    { endsWord := by simp [EndsWord, letters.isPart_ascii hfrom hto, hpart]
      noQuote := by simp [hquote]
      noEquals := by simp [hequals] }

/-! ## Names -/

private theorem Letters.isWord_of_lower (s : List Char) (hne : s ≠ []) (hs : s.all Char.isLower) :
    letters.IsWord s := by
  have hletter : ∀ c : Char, c.isLower → letters.isStart c := by
    intro c hc
    have hbounds : 'a' ≤ c ∧ c ≤ 'z' := by
      have hlower : c.isLower = (decide ('a' ≤ c) && decide (c ≤ 'z')) := rfl
      simpa only [hlower, Bool.and_eq_true, decide_eq_true_eq] using hc
    rw [letters.isStart_ascii (Char.le_trans (by decide) hbounds.1)
      (Char.le_trans hbounds.2 (by decide))]
    have halpha : c.isAlpha = (c.isUpper || c.isLower) := rfl
    rw [halpha, hc]
    simp
  rw [List.all_eq_true] at hs
  cases s with
  | nil => exact absurd rfl hne
  | cons first more =>
    obtain ⟨hfirst, hmore⟩ := List.forall_mem_cons.mp hs
    exact ⟨first, more, rfl, hletter first hfirst, fun c hc =>
      letters.isPart_of_isStart (hletter c (hmore c hc))⟩

/-- A word in lower case is one token. -/
theorem Cuts.keyword (word : String) (hne : word.toList ≠ [])
    (hword : word.toList.all Char.isLower) (hrest : EndsWord letters rest) :
    Cuts letters word.toList false [.word word] rest := by
  have hcut := Cuts.word (Letters.isWord_of_lower word.toList hne hword) hrest
  rwa [String.ofList_toList] at hcut

private theorem Cuts.name {name : String} (hname : letters.IsName name)
    (hrest : EndsWord letters rest) :
    Cuts letters name.toList false [.word name] rest := by
  have hcut := Cuts.word hname.1 hrest
  rwa [String.ofList_toList] at hcut

/-- The selection of a member is a dot and a name. -/
theorem Cuts.member {name : String} (hname : letters.IsName name) (hrest : EndsWord letters rest) :
    Cuts letters ('.' :: name.toList) false [.dot, .word name] rest := by
  have hdigit : (name.toList ++ rest).head?.any Char.isDigit = false := by
    obtain ⟨first, more, htext, hfirst, -⟩ := hname.1
    rw [htext]
    by_contra hdigit
    have hstart := (@Letters.of_isDigit letters first (by simpa using hdigit)).2.1
    rw [hfirst] at hstart
    cases hstart
  exact (Cuts.dot hdigit).append (.name hname hrest)

/-- A dotted name starts with its first part. -/
theorem toList_eq_dotParts (name : String) : ∃ first parts, dotParts name = first :: parts ∧
    name.toList = first.toList ++ parts.flatMap fun part => '.' :: part.toList := by
  have hjoin : ∀ (parts : List String) (first : String),
      (".".intercalate (first :: parts)).toList =
        first.toList ++ parts.flatMap fun part => '.' :: part.toList := by
    intro parts
    induction parts with
    | nil => simp
    | cons second parts ih =>
      intro first
      simp [String.intercalate_cons_cons, ih second]
  have hname := intercalate_dotParts name
  cases hparts : dotParts name with
  | nil => exact absurd hparts (dotParts_ne_nil name)
  | cons first parts =>
    rw [hparts] at hname
    exact ⟨first, parts, rfl, by rw [← hjoin, hname]⟩

private theorem cuts_dotted {name : String} (hname : letters.IsDotted name)
    (hrest : EndsWord letters rest) :
    Cuts letters name.toList false (dotted (dotParts name)) rest := by
  have hmore : ∀ parts : List String, (∀ part ∈ parts, letters.IsName part) →
      EndsWord letters ((parts.flatMap fun part => '.' :: part.toList) ++ rest) ∧
        Cuts letters (parts.flatMap fun part => '.' :: part.toList) false
          (parts.flatMap fun part => [.dot, .word part]) rest := by
    intro parts hparts
    induction parts with
    | nil => exact ⟨hrest, .nil⟩
    | cons part parts ih =>
      obtain ⟨hpart, hparts⟩ := List.forall_mem_cons.mp hparts
      obtain ⟨hends, hcut⟩ := ih hparts
      exact ⟨(Delimits.cons '.' (by decide)).endsWord, (Cuts.member hpart hends).append hcut⟩
  obtain ⟨first, parts, hparts, htext⟩ := toList_eq_dotParts name
  unfold Letters.IsDotted at hname
  rw [hparts] at hname ⊢
  obtain ⟨hfirst, hrestNames⟩ := List.forall_mem_cons.mp hname
  obtain ⟨hends, hcut⟩ := hmore parts hrestNames
  rw [htext]
  exact (Cuts.name hfirst hends).append hcut

/-- A word does not start with a character that starts no word. -/
theorem Letters.IsWord.head_ne {s : List Char} {c : Char} (hs : letters.IsWord s)
    (hc : letters.isStart c = false) : (s ++ rest).head? ≠ some c := by
  obtain ⟨first, more, rfl, hfirst, -⟩ := hs
  intro hhead
  obtain rfl : first = c := by simpa using hhead
  rw [hfirst] at hc
  cases hc

private theorem Letters.IsDotted.head_ne {name : String} {c : Char} (hname : letters.IsDotted name)
    (hc : letters.isStart c = false) : (name.toList ++ rest).head? ≠ some c := by
  obtain ⟨first, parts, hparts, htext⟩ := toList_eq_dotParts name
  have hfirst : letters.IsName first := hname first (by simp [hparts])
  rw [htext, List.append_assoc]
  exact hfirst.1.head_ne hc

/-! ## Types -/

section

variable {spell : String → String}

private theorem keyword_lower (p : Primitive) :
    p.keyword.toList ≠ [] ∧ p.keyword.toList.all Char.isLower := by
  cases p <;> decide

/-- A type starts with a letter or a question mark. -/
theorem head_type_ne {c : Char} (hc : letters.isStart c = false) (hquestion : c ≠ '?')
    (hspell : ∀ {name}, letters.IsDotted name → letters.IsDotted (spell name)) :
    ∀ t : TypeExpr, letters.NamesType t → ∀ rest : List Char,
      ((t.render spell).toList ++ rest).head? ≠ some c
  | .void, _, _ => (Letters.isWord_of_lower "void".toList (by decide) (by decide)).head_ne hc
  | .primitive p, _, _ =>
    (Letters.isWord_of_lower p.keyword.toList (keyword_lower p).1 (keyword_lower p).2).head_ne hc
  | .named name [], hnames, _ => (hspell hnames.1).head_ne hc
  | .named name (arg :: args), hnames, rest => by
    simp only [TypeExpr.render, String.toList_append, List.append_assoc]
    exact (hspell hnames.1).head_ne hc
  | .array element, hnames, rest => by
    simp only [TypeExpr.render, String.toList_append, List.append_assoc]
    exact head_type_ne hc hquestion hspell element hnames _
  | .unbounded, _, _ => by simpa [TypeExpr.render] using hquestion.symm
  | .bounded bound, _, _ => by simpa [TypeExpr.render] using hquestion.symm

/-- What follows the first type argument delimits it. -/
theorem delimits_renderRest (args : List TypeExpr) (hrest : Delimits letters rest) :
    Delimits letters ((TypeExpr.renderRest spell args).toList ++ rest) := by
  cases args with
  | nil => exact hrest
  | cons arg args =>
    simp only [TypeExpr.renderRest, String.toList_append, List.append_assoc]
    exact .cons ',' (by decide)

mutual

/-- The text of a type is cut into its tokens. -/
theorem cuts_type (hspell : ∀ {name}, letters.IsDotted name → letters.IsDotted (spell name)) :
    ∀ t : TypeExpr, letters.NamesType t → ∀ {rest : List Char}, Delimits letters rest →
      Cuts letters (t.render spell).toList false (t.written spell) rest
  | .void, _, _, hrest => .keyword "void" (by decide) (by decide) hrest.endsWord
  | .primitive p, _, _, hrest =>
    .keyword p.keyword (keyword_lower p).1 (keyword_lower p).2 hrest.endsWord
  | .named name [], hnames, _, hrest => cuts_dotted (hspell hnames.1) hrest.endsWord
  | .named name (arg :: args), hnames, rest, hrest => by
    have hhead : ∀ c ∈ signChars, c ≠ '?' → ∀ rest : List Char,
        ((arg.render spell).toList ++ rest).head? ≠ some c := fun c hc hquestion =>
      head_type_ne (letters.of_sign hc).2.1 hquestion hspell arg hnames.2.1
    have hcut : Cuts letters ((spell name).toList ++ (['<'] ++ ((arg.render spell).toList ++
        ((TypeExpr.renderRest spell args).toList ++ ['>'])))) false
        (dotted (dotParts (spell name)) ++ ([.openAngle] ++ (arg.written spell ++
          ((TypeExpr.listWritten spell args).flatMap (.comma :: ·) ++ [.closeAngle])))) rest := by
      refine .before ?_ (.before ?_ (.before ?_ (.before ?_ ?_)))
      · exact cuts_dotted (hspell hnames.1) (Delimits.cons '<' (by decide)).endsWord
      · rw [List.append_assoc]
        exact .openAngle (hhead '<' (by decide) (by decide) _) (hhead '=' (by decide) (by decide) _)
      · rw [List.append_assoc]
        exact cuts_type hspell arg hnames.2.1 (delimits_renderRest args (.cons '>' (by decide)))
      · exact cuts_renderRest hspell args hnames.2.2 (.cons '>' (by decide))
      · exact .closeAngle hrest.noEquals
    simpa [TypeExpr.render, TypeExpr.written, inAngles, separated] using hcut
  | .array element, hnames, rest, hrest => by
    have hcut : Cuts letters ((element.render spell).toList ++ (['['] ++ [']'])) false
        (element.written spell ++ ([.openBracket] ++ [.closeBracket])) rest := by
      refine .before ?_ (.before ?_ ?_)
      · exact cuts_type hspell element hnames (.cons '[' (by decide))
      · exact .sign (by decide) rfl
      · exact .sign (by decide) rfl
    simpa [TypeExpr.render, TypeExpr.written] using hcut
  | .unbounded, _, rest, _ => by
    have hcut : Cuts letters ['?'] false [.question] rest := .sign (by decide) rfl
    simpa [TypeExpr.render, TypeExpr.written] using hcut
  | .bounded bound, hnames, rest, hrest => by
    have hcut : Cuts letters (['?'] ++ ([' '] ++ ("extends".toList ++ ([' '] ++
        (bound.render spell).toList)))) false
        ([.question] ++ ([] ++ ([.word "extends"] ++ ([] ++ bound.written spell)))) rest := by
      refine .before ?_ (.before .space (.before ?_ (.before .space ?_)))
      · exact .sign (by decide) rfl
      · exact .keyword "extends" (by decide) (by decide) (Delimits.cons ' ' (by decide)).endsWord
      · exact cuts_type hspell bound hnames hrest
    simpa [TypeExpr.render, TypeExpr.written] using hcut

private theorem cuts_renderRest
    (hspell : ∀ {name}, letters.IsDotted name → letters.IsDotted (spell name)) :
    ∀ ts : List TypeExpr, letters.NamesTypes ts → ∀ {rest : List Char}, Delimits letters rest →
      Cuts letters (TypeExpr.renderRest spell ts).toList false
        ((TypeExpr.listWritten spell ts).flatMap (.comma :: ·)) rest
  | [], _, _, _ => .nil
  | t :: ts, hnames, rest, hrest => by
    have hcut : Cuts letters ([','] ++ ([' '] ++ ((t.render spell).toList ++
        (TypeExpr.renderRest spell ts).toList))) false
        ([.comma] ++ ([] ++ (t.written spell ++
          (TypeExpr.listWritten spell ts).flatMap (.comma :: ·)))) rest := by
      refine .before ?_ (.before .space (.before ?_ ?_))
      · exact .sign (by decide) rfl
      · exact cuts_type hspell t hnames.1 (delimits_renderRest ts hrest)
      · exact cuts_renderRest hspell ts hnames.2 hrest
    simpa [TypeExpr.renderRest, TypeExpr.listWritten] using hcut

end

end

/-! ## Operands and arguments -/

/-- The digits of a number are one token, unless a dot follows. -/
theorem cuts_repr (n : Nat) (hrest : EndsWord letters rest) :
    Cuts letters (Nat.repr n).toList (decide (rest.head? = some '.')) [.number (Nat.repr n)]
      rest := by
  have htext : Nat.repr n = String.ofList (Nat.toDigits 10 n) := rfl
  have hflag : (rest.head?.any fun next => next = '.' || letters.isPart next) =
      decide (rest.head? = some '.') := by
    cases rest with
    | nil => rfl
    | cons c rest =>
      have hc : letters.isPart c = false := hrest c rfl
      simp [hc]
  have hdigit : ∀ c ∈ rest.head?, c.isDigit = false := by
    intro c hc
    by_contra hdigit
    have hpart := (@Letters.of_isDigit letters c (by simpa using hdigit)).2.2
    rw [hrest c hc] at hpart
    cases hpart
  have hdigits : ∀ c ∈ Nat.toDigits 10 n, c.isDigit := fun c hc =>
    Nat.isDigit_of_mem_toDigits (by decide) (by decide) hc
  rw [htext, String.toList_ofList, ← hflag]
  exact cuts_digits Nat.toDigits_ne_nil hdigits hdigit

/-- A number starts with a digit. -/
theorem head_repr (n : Nat) (rest : List Char) :
    ∃ first more, (Nat.repr n).toList ++ rest = first :: more ∧ first.isDigit := by
  have htext : (Nat.repr n).toList = Nat.toDigits 10 n := by simp [Nat.repr]
  rw [htext]
  cases hdigits : Nat.toDigits 10 n with
  | nil => exact absurd hdigits Nat.toDigits_ne_nil
  | cons first more =>
    exact ⟨first, more ++ rest, rfl, Nat.isDigit_of_mem_toDigits (by decide) (by decide)
      (hdigits ▸ List.mem_cons_self)⟩

/-- A literal is its digits, with a sign before them if it is negative. -/
theorem cuts_intLiteral {value : Int} (hrest : EndsWord letters rest) :
    Cuts letters (Source.intLiteral value).toList (decide (rest.head? = some '.'))
      (signedNumber value) rest := by
  have hcut := cuts_repr value.natAbs hrest
  unfold Source.intLiteral signedNumber
  split
  case isTrue _ =>
    have hminus : Cuts letters ['-'] false [.operator .minus]
        ((Nat.repr value.natAbs).toList ++ rest) := by
      obtain ⟨first, more, htext, hfirst⟩ := head_repr value.natAbs rest
      have hne : ∀ c : Char, c.isDigit = false → first ≠ c := by
        rintro c hc rfl
        rw [hfirst] at hc
        cases hc
      refine .sign (by decide) ?_
      rw [List.cons_append, List.nil_append, htext]
      simp [sign, hne '-' (by decide), hne '=' (by decide), hne '>' (by decide)]
    have hsigned := hminus.before hcut
    simpa using hsigned
  case isFalse _ => exact hcut

private theorem Cuts.paren {text : List Char} {unreadable : Bool} {ts : List Token}
    (htext : Cuts letters text unreadable ts (')' :: rest)) :
    Cuts letters ('(' :: (text ++ [')'])) unreadable (.openParen :: ts ++ [.closeParen]) rest := by
  have hopen : Cuts letters ['('] false [.openParen] (text ++ ([')'] ++ rest)) :=
    .sign (by decide) rfl
  have hclose : Cuts letters [')'] false [.closeParen] rest := .sign (by decide) rfl
  have hinside : Cuts letters text unreadable ts ([')'] ++ rest) := htext
  have hcut := (Cuts.before hopen hinside).append hclose
  simpa using hcut

variable (letters) in
/-- The rest may follow the text of the expression. -/
structure Follows (e : Expr) (rest : List Char) : Prop where
  delimits : Delimits letters rest
  /-- Members are selected from primaries, and not from a number. -/
  of_dot : rest.head? = some '.' → level e = .primary ∧ e.isNumber = false

private theorem Follows.cons {e : Expr} (c : Char) (hc : c ∈ [' ', ',', ')']) :
    Follows letters e (c :: rest) where
  delimits := by
    have hmem : ∀ d ∈ [' ', ',', ')'], d ∈ [' ', '.', ',', '(', ')', '<', '>', '['] := by simp
    exact .cons c (hmem c hc)
  of_dot h := by
    obtain rfl : c = '.' := Option.some.inj h
    exact absurd hc (by decide)

private theorem primary_of_le_rank {level : Level} (h : Level.primary.rank ≤ level.rank) :
    level = .primary := by
  cases level <;> first | rfl | exact absurd h (by decide)

variable (letters) in
/-- Before what may follow it the text of the expression is cut into its tokens. -/
def CutsExpr (table : NameTable) (e : Expr) : Prop :=
  ∀ ⦃rest : List Char⦄, Follows letters e rest →
    Cuts letters (table.expr e).toList e.selectsNumber (table.signed e) rest

variable (letters) in
/-- The same for expressions with commas between them. -/
def CutsArgs (table : NameTable) (args : List Expr) : Prop :=
  ∀ ⦃rest : List Char⦄, (∀ e : Expr, Follows letters e rest) →
    Cuts letters (table.argList args).toList (Expr.anySelectsNumber args)
      (separated (table.signedList args)) rest

section

variable {table : NameTable} {e : Expr}

/-- Parentheses keep an operand apart from what follows it. -/
theorem cuts_operand {least : Nat}
    (he : CutsExpr letters table e)
    (hrest : Delimits letters rest)
    (hdot : rest.head? = some '.' → least = Level.primary.rank ∧ e.isNumber = false) :
    Cuts letters (parenthesized e least (table.expr e)).toList e.selectsNumber
      (enclosed e least (table.signed e)) rest := by
  unfold parenthesized enclosed
  by_cases hlow : (level e).rank < least
  · rw [if_pos hlow, if_pos hlow]
    have hcut := Cuts.paren (he (.cons ')' (by decide) : Follows letters e (')' :: rest)))
    simpa using hcut
  · rw [if_neg hlow, if_neg hlow]
    refine he ⟨hrest, fun h => ?_⟩
    obtain ⟨rfl, hnumber⟩ := hdot h
    exact ⟨primary_of_le_rank (by omega), hnumber⟩

/-- A member of an operand, unless the operand is a number. -/
theorem cuts_selected {member : List Char} {unreadable : Bool} {us : List Token}
    (he : CutsExpr letters table e)
    (hmember : Cuts letters ('.' :: member) unreadable us rest) :
    Cuts letters ((parenthesized e Level.primary.rank (table.expr e)).toList ++ '.' :: member)
      (e.isNumber || e.selectsNumber || unreadable)
      (enclosed e Level.primary.rank (table.signed e) ++ us) rest := by
  have hdelimits : Delimits letters ('.' :: member ++ rest) := .cons '.' (by decide)
  by_cases hnumber : e.isNumber
  · cases e with
    | intLit value =>
      have hcut := @cuts_intLiteral letters _ value hdelimits.endsWord
      exact hcut.unreadable _
    | _ => cases hnumber
  · rw [Bool.not_eq_true] at hnumber
    rw [hnumber, Bool.false_or]
    exact .append (cuts_operand he hdelimits fun _ => ⟨rfl, hnumber⟩) hmember

/-- Arguments in parentheses. -/
theorem CutsArgs.inParens {args : List Expr} (hargs : CutsArgs letters table args) :
    Cuts letters ('(' :: ((table.argList args).toList ++ [')'])) (Expr.anySelectsNumber args)
      (inParens (table.signedList args)) rest :=
  .paren (hargs fun _ => .cons ')' (by decide))

/-- The call of a method behind its target. -/
theorem cuts_methodCall {method : String} {args : List Expr} (hmethod : letters.IsName method)
    (hargs : CutsArgs letters table args) (rest : List Char) :
    Cuts letters ('.' :: method.toList ++ ('(' :: ((table.argList args).toList ++ [')'])))
      (Expr.anySelectsNumber args) ([.dot, .word method] ++ inParens (table.signedList args))
      rest :=
  .before (.member hmethod (Delimits.cons '(' (by decide)).endsWord) hargs.inParens

/-- The name of a class before its member. -/
theorem cuts_owner (table : NameTable) {owner : ClassRef} {member : List Char}
    (howner : letters.IsDotted owner.name) :
    Cuts letters (table.spell owner.name).toList false (dotted (dotParts (table.spell owner.name)))
      ('.' :: member) :=
  cuts_dotted (Letters.IsDotted.spell letters howner table) (Delimits.cons '.' (by decide)).endsWord

private theorem head_operand_ne {least : Nat}
    (he : ∀ rest : List Char, ((table.expr e).toList ++ rest).head? ≠ some '=') (rest : List Char) :
    ((parenthesized e least (table.expr e)).toList ++ rest).head? ≠ some '=' := by
  unfold parenthesized
  split
  · simp
  · exact he rest

end

/-- An expression does not start with an equals sign. -/
theorem head_expr_ne (table : NameTable) : ∀ e : Expr, letters.SignedNames e → ∀ rest : List Char,
    ((table.expr e).toList ++ rest).head? ≠ some '='
  | .thisRef, _, _ | .superRef, _, _ | .nullLit, _, _ | .newObject _ _, _, _
  | .cast _ _, _, _ | .not _, _, _ => by simp [NameTable.expr]
  | .strLit _, _, _ => by simp [NameTable.expr, Source.stringLiteral]
  | .boolLit value, _, _ => by cases value <;> simp [NameTable.expr, Source.boolLiteral]
  | .intLit value, _, rest => by
    rw [NameTable.expr, Source.intLiteral]
    split
    case isTrue _ => simp
    case isFalse _ =>
      obtain ⟨first, more, htext, hfirst⟩ := head_repr value.natAbs rest
      rw [htext]
      intro hhead
      obtain rfl : first = '=' := Option.some.inj hhead
      exact absurd hfirst (by decide)
  | .ident name, hnames, _ => by
    have hname : letters.IsName name := hnames
    exact hname.1.head_ne (letters.of_sign (by decide)).2.1
  | .field target name, hnames, rest => by
    simp only [NameTable.expr, String.toList_append, List.append_assoc]
    exact head_operand_ne (head_expr_ne table target hnames.1) _
  | .call method args, hnames, rest => by
    have hmethod : letters.IsName method := hnames.1
    simp only [NameTable.expr, String.toList_append, List.append_assoc]
    exact hmethod.1.head_ne (letters.of_sign (by decide)).2.1
  | .invoke target method args, hnames, rest => by
    simp only [NameTable.expr, String.toList_append, List.append_assoc]
    exact head_operand_ne (head_expr_ne table target hnames.1) _
  | .staticCall owner method args, hnames, rest => by
    simp only [NameTable.expr, String.toList_append, List.append_assoc]
    exact (Letters.IsDotted.spell letters hnames.1 table).head_ne (letters.of_sign (by decide)).2.1
  | .staticField owner name, hnames, rest => by
    simp only [NameTable.expr, String.toList_append, List.append_assoc]
    exact (Letters.IsDotted.spell letters hnames.1 table).head_ne (letters.of_sign (by decide)).2.1
  | .binary op lhs rhs, hnames, rest => by
    simp only [NameTable.expr, String.toList_append, List.append_assoc]
    exact head_operand_ne (head_expr_ne table lhs hnames.1) _
  | .instanceOf operand type, hnames, rest => by
    simp only [NameTable.expr, String.toList_append, List.append_assoc]
    exact head_operand_ne (head_expr_ne table operand hnames.2.2) _
  | .cond test yes no, hnames, rest => by
    simp only [NameTable.expr, String.toList_append, List.append_assoc]
    exact head_operand_ne (head_expr_ne table test hnames.1) _

/-- A comma or what follows the arguments comes after the first of them. -/
theorem follows_argRest {table : NameTable} {e : Expr} (args : List Expr)
    (hrest : Follows letters e rest) :
    Follows letters e ((table.argRest args).toList ++ rest) := by
  cases args with
  | nil => exact hrest
  | cons arg args =>
    simp only [NameTable.argRest, String.toList_append, List.append_assoc]
    exact .cons ',' (by decide)

/-! ## Expressions -/

namespace CutsExpr

variable {table : NameTable} {target operand lhs rhs test yes no : Expr} {args : List Expr}
  {name method : String} {owner : ClassRef} {type : TypeExpr}

private theorem boolLit (value : Bool) : CutsExpr letters table (.boolLit value) := by
  intro rest hrest
  cases value with
  | false => exact .keyword "false" (by decide) (by decide) hrest.delimits.endsWord
  | true => exact .keyword "true" (by decide) (by decide) hrest.delimits.endsWord

private theorem intLit (value : Int) : CutsExpr letters table (.intLit value) := by
  intro rest hrest
  have hcut := @cuts_intLiteral letters _ value hrest.delimits.endsWord
  have hdot : rest.head? ≠ some '.' := by
    intro h
    cases (hrest.of_dot h).2
  rwa [decide_eq_false hdot] at hcut

private theorem field (htarget : CutsExpr letters table target) (hname : letters.IsName name) :
    CutsExpr letters table (.field target name) := by
  intro rest hrest
  have hmember : Cuts letters ('.' :: name.toList) false [.dot, .word name] rest :=
    .member hname hrest.delimits.endsWord
  have hcut := cuts_selected htarget hmember
  simpa [NameTable.expr, NameTable.signed] using hcut

private theorem call (hmethod : letters.IsName method) (hargs : CutsArgs letters table args) :
    CutsExpr letters table (.call method args) := by
  intro rest hrest
  have hcut : Cuts letters (method.toList ++ ('(' :: ((table.argList args).toList ++ [')'])))
      (Expr.anySelectsNumber args) ([.word method] ++ inParens (table.signedList args)) rest :=
    .before (.name hmethod (Delimits.cons '(' (by decide)).endsWord) hargs.inParens
  simpa [NameTable.expr, NameTable.signed] using hcut

private theorem invoke (htarget : CutsExpr letters table target) (hmethod : letters.IsName method)
    (hargs : CutsArgs letters table args) :
    CutsExpr letters table (.invoke target method args) := by
  intro rest hrest
  have hcut := cuts_selected htarget (cuts_methodCall hmethod hargs rest)
  simpa [NameTable.expr, NameTable.signed] using hcut

private theorem staticCall (howner : letters.IsDotted owner.name) (hmethod : letters.IsName method)
    (hargs : CutsArgs letters table args) :
    CutsExpr letters table (.staticCall owner method args) := by
  intro rest hrest
  have hcut := Cuts.before (cuts_owner table howner) (cuts_methodCall hmethod hargs rest)
  simpa [NameTable.expr, NameTable.signed] using hcut

private theorem staticField (howner : letters.IsDotted owner.name) (hname : letters.IsName name) :
    CutsExpr letters table (.staticField owner name) := by
  intro rest hrest
  have hmember : Cuts letters ('.' :: name.toList) false [.dot, .word name] rest :=
    .member hname hrest.delimits.endsWord
  have hcut := Cuts.before (cuts_owner table howner) hmember
  simpa [NameTable.expr, NameTable.signed] using hcut

private theorem newObject (htype : letters.NamesType type) (hargs : CutsArgs letters table args) :
    CutsExpr letters table (.newObject type args) := by
  intro rest hrest
  have hcut : Cuts letters ("new".toList ++ ([' '] ++ ((table.type type).toList ++
        ('(' :: ((table.argList args).toList ++ [')']))))) (Expr.anySelectsNumber args)
      ([.word "new"] ++ ([] ++ (type.written table.spell ++
        inParens (table.signedList args)))) rest := by
    refine .before ?_ (.before .space (.before ?_ hargs.inParens))
    · exact .keyword "new" (by decide) (by decide) (Delimits.cons ' ' (by decide)).endsWord
    · exact cuts_type (Letters.IsDotted.spell letters · table) type htype (.cons '(' (by decide))
  simpa [NameTable.expr, NameTable.signed] using hcut

private theorem cast (htype : letters.NamesType type) (hoperand : CutsExpr letters table operand) :
    CutsExpr letters table (.cast type operand) := by
  intro rest hrest
  have hcut : Cuts letters (['('] ++ ((table.type type).toList ++ ([')'] ++ ([' '] ++
        (parenthesized operand Level.unary.rank (table.expr operand)).toList))))
      operand.selectsNumber
      ([.openParen] ++ (type.written table.spell ++ ([.closeParen] ++ ([] ++
        enclosed operand Level.unary.rank (table.signed operand))))) rest := by
    refine .before ?_ (.before ?_ (.before ?_ (.before .space ?_)))
    · exact .sign (by decide) rfl
    · exact cuts_type (Letters.IsDotted.spell letters · table) type htype (.cons ')' (by decide))
    · exact .sign (by decide) rfl
    · refine cuts_operand hoperand hrest.delimits fun h => ?_
      cases (hrest.of_dot h).1
  simpa [NameTable.expr, NameTable.signed] using hcut

private theorem not (hnames : letters.SignedNames operand)
    (hoperand : CutsExpr letters table operand) :
    CutsExpr letters table (.not operand) := by
  intro rest hrest
  have hcut : Cuts letters (['!'] ++
        (parenthesized operand Level.unary.rank (table.expr operand)).toList)
      operand.selectsNumber
      ([.bang] ++ enclosed operand Level.unary.rank (table.signed operand)) rest := by
    refine .before (.bang ?_) ?_
    · exact head_operand_ne (head_expr_ne table operand hnames) rest
    · refine cuts_operand hoperand hrest.delimits fun h => ?_
      cases (hrest.of_dot h).1
  simpa [NameTable.expr, NameTable.signed] using hcut

private theorem binary (op : BinaryOp) (hlhs : CutsExpr letters table lhs)
    (hrhs : CutsExpr letters table rhs) : CutsExpr letters table (.binary op lhs rhs) := by
  intro rest hrest
  have hcut : Cuts letters ((parenthesized lhs (opLevel op).rank (table.expr lhs)).toList ++
        ([' '] ++ (op.symbol.toList ++ ([' '] ++
          (parenthesized rhs ((opLevel op).rank + 1) (table.expr rhs)).toList))))
      (lhs.selectsNumber || rhs.selectsNumber)
      (enclosed lhs (opLevel op).rank (table.signed lhs) ++ ([] ++ ([.operator op] ++ ([] ++
        enclosed rhs ((opLevel op).rank + 1) (table.signed rhs))))) rest := by
    refine .append ?_ (.before .space (.before ?_ (.before .space ?_)))
    · exact cuts_operand hlhs (.cons ' ' (by decide)) (by simp)
    · exact .operator op _
    · refine cuts_operand hrhs hrest.delimits fun h => ?_
      have hlevel : opLevel op = .primary := (hrest.of_dot h).1
      cases op <;> cases hlevel
  simpa [NameTable.expr, NameTable.signed] using hcut

private theorem instanceOf (hoperand : CutsExpr letters table operand)
    (htype : letters.NamesType type) :
    CutsExpr letters table (.instanceOf operand type) := by
  intro rest hrest
  have hcut : Cuts letters
      ((parenthesized operand Level.relation.rank (table.expr operand)).toList ++
        ([' '] ++ ("instanceof".toList ++ ([' '] ++ (table.type type).toList))))
      (operand.selectsNumber || false)
      (enclosed operand Level.relation.rank (table.signed operand) ++ ([] ++
        ([.word "instanceof"] ++ ([] ++ type.written table.spell)))) rest := by
    refine .append ?_ (.before .space (.before ?_ (.before .space ?_)))
    · exact cuts_operand hoperand (.cons ' ' (by decide)) (by simp)
    · exact .keyword "instanceof" (by decide) (by decide) (Delimits.cons ' ' (by decide)).endsWord
    · exact cuts_type (Letters.IsDotted.spell letters · table) type htype hrest.delimits
  simpa [NameTable.expr, NameTable.signed] using hcut

private theorem cond (htest : CutsExpr letters table test) (hyes : CutsExpr letters table yes)
    (hno : CutsExpr letters table no) : CutsExpr letters table (.cond test yes no) := by
  intro rest hrest
  have hcut : Cuts letters
      ((parenthesized test (Level.cond.rank + 1) (table.expr test)).toList ++ ([' '] ++ (['?'] ++
        ([' '] ++ ((parenthesized yes (Level.cond.rank + 1) (table.expr yes)).toList ++
          ([' '] ++ ([':'] ++ ([' '] ++
            (parenthesized no Level.cond.rank (table.expr no)).toList))))))))
      (test.selectsNumber || (yes.selectsNumber || no.selectsNumber))
      (enclosed test (Level.cond.rank + 1) (table.signed test) ++ ([] ++ ([.question] ++
        ([] ++ (enclosed yes (Level.cond.rank + 1) (table.signed yes) ++
          ([] ++ ([.colon] ++ ([] ++
            enclosed no Level.cond.rank (table.signed no))))))))) rest := by
    refine .append ?_ (.before .space (.before ?_ (.before .space (.append ?_
      (.before .space (.before ?_ (.before .space ?_)))))))
    · exact cuts_operand htest (.cons ' ' (by decide)) (by simp)
    · exact .sign (by decide) rfl
    · exact cuts_operand hyes (.cons ' ' (by decide)) (by simp)
    · exact .sign (by decide) rfl
    · refine cuts_operand hno hrest.delimits fun h => ?_
      cases (hrest.of_dot h).1
  simpa [NameTable.expr, NameTable.signed, Bool.or_assoc] using hcut

end CutsExpr

mutual

/-- The text of an expression is cut into its tokens, except where a member of a number is
selected. -/
theorem cuts_expr (table : NameTable) :
    ∀ e : Expr, letters.SignedNames e → CutsExpr letters table e
  | .thisRef, _ => fun _ hrest => .keyword "this" (by decide) (by decide) hrest.delimits.endsWord
  | .superRef, _ => fun _ hrest => .keyword "super" (by decide) (by decide) hrest.delimits.endsWord
  | .nullLit, _ => fun _ hrest => .keyword "null" (by decide) (by decide) hrest.delimits.endsWord
  | .boolLit value, _ => .boolLit value
  | .intLit value, _ => .intLit value
  | .strLit _, _ => fun _ hrest => .string hrest.delimits.noQuote
  | .ident _, h => fun _ hrest => .name h hrest.delimits.endsWord
  | .field target _, h => .field (cuts_expr table target h.1) h.2
  | .call _ args, h => .call h.1 (cuts_argList table args h.2)
  | .invoke target _ args, h =>
    .invoke (cuts_expr table target h.1) h.2.1 (cuts_argList table args h.2.2)
  | .staticCall _ _ args, h => .staticCall h.1 h.2.1 (cuts_argList table args h.2.2)
  | .staticField _ _, h => .staticField h.1 h.2
  | .newObject _ args, h => .newObject h.2.1 (cuts_argList table args h.2.2)
  | .cast _ operand, h => .cast h.2.1 (cuts_expr table operand h.2.2)
  | .not operand, h => .not h (cuts_expr table operand h)
  | .binary op lhs rhs, h => .binary op (cuts_expr table lhs h.1) (cuts_expr table rhs h.2)
  | .instanceOf operand _, h => .instanceOf (cuts_expr table operand h.2.2) h.2.1
  | .cond test yes no, h =>
    .cond (cuts_expr table test h.1) (cuts_expr table yes h.2.1) (cuts_expr table no h.2.2)

private theorem cuts_argList (table : NameTable) :
    ∀ es : List Expr, letters.SignedNamesAll es → CutsArgs letters table es
  | [], _ => fun _ _ => .nil
  | e :: es, h => fun rest hrest => by
    have hcut : Cuts letters ((table.expr e).toList ++ (table.argRest es).toList)
        (e.selectsNumber || Expr.anySelectsNumber es)
        (table.signed e ++ (table.signedList es).flatMap (.comma :: ·)) rest := by
      refine .append ?_ ?_
      · exact cuts_expr table e h.1 (follows_argRest es (hrest e))
      · exact cuts_argRest table es h.2 hrest
    simpa [NameTable.argList, NameTable.signedList, separated] using hcut

private theorem cuts_argRest (table : NameTable) : ∀ es : List Expr, letters.SignedNamesAll es →
    ∀ {rest : List Char}, (∀ e : Expr, Follows letters e rest) →
      Cuts letters (table.argRest es).toList (Expr.anySelectsNumber es)
        ((table.signedList es).flatMap (.comma :: ·)) rest
  | [], _, _, _ => .nil
  | e :: es, h, rest, hrest => by
    have hcut : Cuts letters ([','] ++ ([' '] ++ ((table.expr e).toList ++
          (table.argRest es).toList))) (e.selectsNumber || Expr.anySelectsNumber es)
        ([.comma] ++ ([] ++ (table.signed e ++
          (table.signedList es).flatMap (.comma :: ·)))) rest := by
      refine .before ?_ (.before .space (.append ?_ ?_))
      · exact .sign (by decide) rfl
      · exact cuts_expr table e h.1 (follows_argRest es (hrest e))
      · exact cuts_argRest table es h.2 hrest
    simpa [NameTable.argRest, NameTable.signedList] using hcut

end

private theorem tokens_expr (table : NameTable) {e : Expr} (h : letters.Names e) :
    letters.tokens? (table.expr e).toList =
      if e.selectsNumber then none else some (table.written e) := by
  obtain ⟨hsigned, htokens⟩ := signed_eq_written table e h
  have hcut : Cuts letters (table.expr e).toList e.selectsNumber (table.signed e) [] :=
    cuts_expr table e hsigned ⟨.nil, by simp⟩
  simpa [Cuts, Letters.tokens?_nil, htokens] using hcut

/-- The text of an expression with identifiers for names reads back as its plain form and nothing
else, unless a member of an integer literal is selected, which makes the digits and the dot a
floating-point literal, or a type has a wildcard as the element of an array. -/
theorem reads_back_iff (letters : Letters) (table : NameTable) (e : Expr) (h : letters.Names e) :
    (∀ e', ReadsText letters (table.expr e) e' ↔ e' = table.plain e) ↔
      e.selectsNumber = false ∧ e.hasWildcardElement = false := by
  have htokens := tokens_expr table h
  constructor
  · intro hback
    obtain ⟨ts, hts, hreads⟩ := (hback (table.plain e)).2 rfl
    constructor
    · by_contra hselects
      rw [htokens, if_pos (by simpa using hselects)] at hts
      cases hts
    · rw [← hasWildcardElement_plain table e]
      exact hreads.hasWildcardElement
  · rintro ⟨hselects, helements⟩ e'
    rw [hselects, if_neg (by decide)] at htokens
    have hreads : Reads letters .cond (table.written e) (table.plain e) :=
      (reads_written table e h helements).loosen (Nat.zero_le _)
    constructor
    · rintro ⟨ts, hts, hreads'⟩
      obtain rfl := Option.some.inj (htokens.symm.trans hts)
      exact hreads'.unique hreads
    · rintro rfl
      exact ⟨_, htokens, hreads⟩

/-- A field of the number one. -/
def numberField : Expr := .field (.intLit 1) "x"

/-- The call of a method on what is cast to a class. -/
def castCall : Expr :=
  .invoke (.cast (.ofName "org.w3c.dom.Node") (.ident "x")) "getNodeType" []

/-- A table that spells the class short. -/
def nodeTable : NameTable where
  self := "com.example.A"
  shortened := ["org.w3c.dom.Node"]

/-- The call reads back. The field does not: its text is a floating-point literal and a name. -/
theorem castCall_read_numberField_misread :
    Letters.ascii.Names castCall ∧ nodeTable.expr castCall = "((Node) x).getNodeType()" ∧
      (∀ e, ReadsText .ascii (nodeTable.expr castCall) e ↔ e = nodeTable.plain castCall) ∧
    Letters.ascii.Names numberField ∧ nodeTable.expr numberField = "1.x" ∧
      ¬∀ e, ReadsText .ascii (nodeTable.expr numberField) e ↔ e = nodeTable.plain numberField := by
  have hx : Letters.ascii.IsName "x" := by decide
  have hnode : Letters.ascii.IsDotted "org.w3c.dom.Node" := by decide +kernel
  have hone : (0 : Int) ≤ 1 := by decide
  have hcall : Letters.ascii.Names castCall :=
    ⟨⟨rfl, ⟨hnode, trivial⟩, hx⟩, by decide, trivial⟩
  have hfield : Letters.ascii.Names numberField := ⟨hone, hx⟩
  have hcallText : nodeTable.expr castCall = "((Node) x).getNodeType()" := by decide +kernel
  have hfieldText : nodeTable.expr numberField = "1.x" := by decide +kernel
  refine ⟨hcall, hcallText, ?_, hfield, hfieldText, ?_⟩
  · exact (reads_back_iff .ascii nodeTable castCall hcall).2 ⟨by decide, by decide⟩
  · intro hback
    have hselects := ((reads_back_iff .ascii nodeTable numberField hfield).1 hback).1
    exact absurd hselects (by decide)

end Java

end BeanSynthesis
