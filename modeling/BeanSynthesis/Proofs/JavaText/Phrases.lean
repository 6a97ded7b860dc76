import BeanSynthesis.Proofs.JavaText.Unambiguous

/-!
# Phrases with signs

Java's grammar of expressions once more, without the expressions that the tokens stand for but with
the sign, which may stand before any unary phrase. Only what is cast to a primitive type may start
with a sign: behind any other type in parentheses it subtracts. So a phrase that is unary is no
difference: where a sign stands in it outside parentheses, an operand is still due.
-/

namespace BeanSynthesis.Java

open Source (Level opLevel)

variable {letters : Letters} {level : Level} {ts us : List Token}

variable (letters) in
/-- The tokens are a phrase of this level. -/
inductive IsPhrase : Level → List Token → Prop where
  | atom {token : Token} {e : Expr} (h : IsAtom letters token e) : IsPhrase .primary [token]
  | paren {ts : List Token} (h : IsPhrase .cond ts) :
    IsPhrase .primary (.openParen :: ts ++ [.closeParen])
  | field {ts : List Token} {name : String} (htarget : IsPhrase .primary ts)
    (hname : letters.IsName name) : IsPhrase .primary (ts ++ [.dot, .word name])
  | call {method : String} {args : List (List Token)} (hmethod : letters.IsName method)
    (hargs : ∀ arg ∈ args, IsPhrase .cond arg) : IsPhrase .primary (.word method :: inParens args)
  | invoke {ts : List Token} {method : String} {args : List (List Token)}
    (htarget : IsPhrase .primary ts) (hmethod : letters.IsName method)
    (hargs : ∀ arg ∈ args, IsPhrase .cond arg) :
    IsPhrase .primary (ts ++ .dot :: .word method :: inParens args)
  | newObject {ts : List Token} {name : String} {typeArgs : List TypeExpr}
    {args : List (List Token)} (htype : ReadsType letters ts (.named name typeArgs))
    (hargs : ∀ arg ∈ args, IsPhrase .cond arg) :
    IsPhrase .primary (.word "new" :: ts ++ inParens args)
  | not {ts : List Token} (h : IsPhrase .unary ts) : IsPhrase .unary (.bang :: ts)
  | negate {ts : List Token} (h : IsPhrase .unary ts) : IsPhrase .unary (.operator .minus :: ts)
  | cast {ts us : List Token} {t : TypeExpr} (htype : ReadsType letters ts t)
    (hwildcard : t.isWildcard = false)
    (hsign : us.head? = some (.operator .minus) → ∃ p, t = .primitive p)
    (h : IsPhrase .unary us) : IsPhrase .unary (.openParen :: ts ++ .closeParen :: us)
  | binary {op : BinaryOp} {tighter : Level} {ts us : List Token}
    (htighter : (opLevel op).rank + 1 = tighter.rank) (hlhs : IsPhrase (opLevel op) ts)
    (hrhs : IsPhrase tighter us) : IsPhrase (opLevel op) (ts ++ .operator op :: us)
  | instanceOf {ts us : List Token} {t : TypeExpr} (h : IsPhrase .relation ts)
    (htype : ReadsType letters us t) (hwildcard : t.isWildcard = false) :
    IsPhrase .relation (ts ++ .word "instanceof" :: us)
  | cond {ts us vs : List Token} (htest : IsPhrase .or ts) (hyes : IsPhrase .cond us)
    (hno : IsPhrase .cond vs) : IsPhrase .cond (ts ++ .question :: us ++ .colon :: vs)
  /-- What binds tighter may stand in every place. -/
  | tighter {level tighter : Level} {ts : List Token} (hrank : level.rank + 1 = tighter.rank)
    (h : IsPhrase tighter ts) : IsPhrase level ts

variable (letters) in
/-- The tokens can be read as a difference, with a minus between its operands. -/
def IsDifference (ts : List Token) : Prop :=
  ∃ lhs rhs, ts = lhs ++ .operator .minus :: rhs ∧ IsPhrase letters .additive lhs ∧
    IsPhrase letters .unary rhs

/-! ## Parentheses -/

/-- How many parentheses are open after the tokens, if none is closed that was not opened. -/
def openAfter : Nat → List Token → Option Nat
  | depth, [] => some depth
  | depth, .openParen :: ts => openAfter (depth + 1) ts
  | 0, .closeParen :: _ => none
  | depth + 1, .closeParen :: ts => openAfter depth ts
  | depth, _ :: ts => openAfter depth ts

private theorem openAfter_append (depth : Nat) (ts us : List Token) :
    openAfter depth (ts ++ us) = (openAfter depth ts).bind fun d => openAfter d us := by
  induction ts generalizing depth with
  | nil => rfl
  | cons token ts ih => cases token <;> cases depth <;> simp [openAfter, ih]

private theorem openAfter_succ {depth d : Nat} (h : openAfter depth ts = some d) :
    openAfter (depth + 1) ts = some (d + 1) := by
  induction ts generalizing depth with
  | nil => simpa [openAfter] using h
  | cons token ts ih =>
    cases token <;> cases depth <;> simp only [openAfter, reduceCtorEq] at h ⊢ <;> exact ih h

private theorem afterClose_append (depth : Nat) (ts rest : List Token) :
    afterClose depth (ts ++ rest) =
      match openAfter depth ts with
      | some d => afterClose d rest
      | none => (afterClose depth ts).map (· ++ rest) := by
  induction ts generalizing depth with
  | nil => rfl
  | cons token ts ih => cases token <;> cases depth <;> simp [openAfter, afterClose, ih]

/-- All parentheses that are opened in the tokens are closed in them, and no others. -/
def Balanced (ts : List Token) : Prop := openAfter 0 ts = some 0

private theorem Closed.balanced (h : Closed ts) : Balanced ts := by
  have hclose := h 0 [.closeParen]
  rw [afterClose_append] at hclose
  unfold Balanced
  cases hdepth : openAfter 0 ts with
  | none =>
    have hend := h 0 []
    rw [List.append_nil] at hend
    rw [hdepth, hend] at hclose
    cases hclose
  | some d =>
    rw [hdepth] at hclose
    cases d with
    | zero => rfl
    | succ d => cases hclose

namespace Balanced

private theorem append_iff (h : Balanced ts) : Balanced (ts ++ us) ↔ Balanced us := by
  rw [Balanced, openAfter_append, h]
  rfl

private theorem tail {token : Token} (h : Balanced (token :: ts)) (hopen : token ≠ .openParen)
    (hclose : token ≠ .closeParen) : Balanced ts := by
  cases token <;> first | contradiction | exact h

/-- What starts with another token is split right before that token or behind it. -/
theorem split_cons {lhs rhs : List Token} {first token : Token} (hlhs : Balanced lhs)
    (h : first :: ts = lhs ++ token :: rhs) (hopen : first ≠ .openParen)
    (hclose : first ≠ .closeParen) :
    lhs = [] ∧ first = token ∨
      ∃ more, lhs = first :: more ∧ Balanced more ∧ ts = more ++ token :: rhs := by
  cases lhs with
  | nil => exact .inl ⟨rfl, (List.cons.inj h).1⟩
  | cons next more =>
    obtain ⟨rfl, hrest⟩ := List.cons.inj h
    exact .inr ⟨more, rfl, hlhs.tail hopen hclose, hrest⟩

/-- What is balanced and starts with a parenthesis goes on at least to the one that closes it. -/
theorem split_paren {vs rest lhs rhs : List Token} {token : Token} (hvs : Balanced vs)
    (hlhs : Balanced lhs) (hne : lhs ≠ [])
    (h : .openParen :: vs ++ .closeParen :: rest = lhs ++ token :: rhs) :
    ∃ more, lhs = .openParen :: vs ++ .closeParen :: more ∧ Balanced more ∧
      rest = more ++ token :: rhs := by
  obtain ⟨first, lhs, rfl⟩ := List.exists_cons_of_ne_nil hne
  rw [List.cons_append, List.cons_append] at h
  obtain ⟨rfl, hinner⟩ := List.cons.inj h
  have hopen : openAfter 1 lhs = some 0 := hlhs
  rcases List.append_eq_append_iff.1 hinner with ⟨more, rfl, hrest⟩ | ⟨more, rfl, -⟩
  · cases more with
    | nil =>
      rw [List.append_nil, openAfter_succ hvs] at hopen
      cases hopen
    | cons next more =>
      obtain ⟨rfl, rfl⟩ := List.cons.inj hrest
      refine ⟨more, rfl, ?_, rfl⟩
      rw [openAfter_append, openAfter_succ hvs] at hopen
      exact hopen
  · -- The parenthesis would be closed before the end of what is balanced inside.
    rw [Balanced, openAfter_append] at hvs
    cases hdepth : openAfter 0 lhs with
    | none => simp [hdepth] at hvs
    | some d =>
      rw [openAfter_succ hdepth] at hopen
      cases hopen

end Balanced

private theorem closed_args {args : List (List Token)} (h : ∀ arg ∈ args, Closed arg) :
    Closed (inParens args) :=
  .paren (.separated h)

private theorem IsPhrase.closed (h : IsPhrase letters level ts) : Closed ts := by
  induction h with
  | atom hatom => exact hatom.closed
  | paren _ ih => exact ih.paren
  | field _ _ ih => exact ih.append (.cons _ nofun nofun (.cons _ nofun nofun .nil))
  | call _ _ ih => exact .cons _ nofun nofun (closed_args ih)
  | invoke _ _ _ ih ihargs =>
    exact ih.append (.cons _ nofun nofun (.cons _ nofun nofun (closed_args ihargs)))
  | newObject htype _ ih => exact .cons _ nofun nofun (htype.closed.append (closed_args ih))
  | not _ ih => exact .cons _ nofun nofun ih
  | negate _ ih => exact .cons _ nofun nofun ih
  | cast htype _ _ _ ih =>
    have hparen := htype.closed.paren.append ih
    simpa using hparen
  | binary _ _ _ ihlhs ihrhs => exact ihlhs.append (.cons _ nofun nofun ihrhs)
  | instanceOf _ htype _ ih => exact ih.append (.cons _ nofun nofun htype.closed)
  | cond _ _ _ ihtest ihyes ihno =>
    have hyes := Closed.cons .question nofun nofun ihyes
    have hno := Closed.cons .colon nofun nofun ihno
    have hall := ihtest.append (hyes.append hno)
    simpa using hall
  | tighter _ _ ih => exact ih

/-! ## Where an operand is due -/

variable (letters) in
/-- Behind these tokens an operand is due: they are operators that stand before it. -/
inductive OperandDue : List Token → Prop where
  | nil : OperandDue []
  | not {ts : List Token} (h : OperandDue ts) : OperandDue (.bang :: ts)
  | negate {ts : List Token} (h : OperandDue ts) : OperandDue (.operator .minus :: ts)
  | cast {ts us : List Token} {t : TypeExpr} (htype : ReadsType letters ts t)
    (hsign : us.head? ∈ [none, some (.operator .minus)] → ∃ p, t = .primitive p)
    (h : OperandDue us) : OperandDue (.openParen :: ts ++ .closeParen :: us)

private theorem split_append {α : Type} {xs ys lhs rhs : List α} {a : α}
    (h : xs ++ ys = lhs ++ a :: rhs) :
    (∃ more, lhs = xs ++ more ∧ ys = more ++ a :: rhs) ∨
      ∃ more, xs = lhs ++ a :: more ∧ rhs = more ++ ys := by
  rcases List.append_eq_append_iff.1 h with ⟨more, hlhs, hys⟩ | ⟨more, hxs, hrhs⟩
  · exact .inl ⟨more, hlhs, hys⟩
  · cases more with
    | nil => exact .inl ⟨[], by simpa using hxs.symm, by simpa using hrhs.symm⟩
    | cons next more =>
      obtain ⟨rfl, hrest⟩ := List.cons.inj hrhs
      exact .inr ⟨more, hxs, hrest⟩

/-- In parentheses nothing stands outside parentheses. -/
theorem not_split_parens {vs lhs rhs : List Token} {token : Token} (hvs : Closed vs)
    (hlhs : Balanced lhs) (hopen : token ≠ .openParen)
    (h : .openParen :: vs ++ [.closeParen] = lhs ++ token :: rhs) : False := by
  cases lhs with
  | nil => exact hopen (List.cons.inj h).1.symm
  | cons first lhs =>
    obtain ⟨more, -, -, hmore⟩ := Balanced.split_paren hvs.balanced hlhs nofun h
    simp at hmore

private theorem not_split_call {method : String} {args : List (List Token)} {lhs rhs : List Token}
    (hargs : ∀ arg ∈ args, Closed arg) (hlhs : Balanced lhs)
    (h : .word method :: inParens args = lhs ++ .operator .minus :: rhs) : False := by
  rcases hlhs.split_cons h nofun nofun with ⟨-, hword⟩ | ⟨more, -, hmore, hparens⟩
  · cases hword
  · exact not_split_parens (.separated hargs) hmore (by decide) hparens

private theorem mem_separated {lists : List (List Token)} {token : Token}
    (h : token ∈ separated lists) :
    token = .comma ∨ ∃ list ∈ lists, token ∈ list := by
  cases lists with
  | nil => cases h
  | cons first rest =>
    simp only [separated, List.mem_append, List.mem_flatMap, List.mem_cons] at h
    rcases h with hfirst | ⟨list, hlist, rfl | hmem⟩
    · exact .inr ⟨first, List.mem_cons_self, hfirst⟩
    · exact .inl rfl
    · exact .inr ⟨list, List.mem_cons_of_mem _ hlist, hmem⟩

/-- No minus is part of a type. -/
theorem ReadsType.minus_not_mem {t : TypeExpr} (h : ReadsType letters ts t) :
    Token.operator .minus ∉ ts := by
  have hdotted : ∀ parts : List String, Token.operator .minus ∉ dotted parts := by
    intro parts
    cases parts <;> simp [dotted]
  induction h with
  | void => simp
  | primitive p => simp
  | @named parts _ _ => exact hdotted parts
  | @generic parts args _ _ _ _ ih =>
    have hargs : Token.operator .minus ∉ separated (args.map (·.1)) := by
      intro hmem
      rcases mem_separated hmem with hcomma | ⟨list, hlist, hminus⟩
      · cases hcomma
      · obtain ⟨arg, harg, rfl⟩ := List.mem_map.1 hlist
        exact ih arg harg hminus
    simp [inAngles, hdotted parts, hargs]
  | array _ _ ih => simpa using ih
  | unbounded => simp
  | bounded _ ih => simpa using ih

/-- Where a minus stands in a unary phrase outside parentheses, an operand is due. -/
theorem IsPhrase.due_of_minus (h : IsPhrase letters level ts)
    (hlevel : Level.unary.rank ≤ level.rank) {lhs rhs : List Token}
    (heq : ts = lhs ++ .operator .minus :: rhs) (hlhs : Balanced lhs) :
    level = .unary ∧ OperandDue letters lhs := by
  induction h generalizing lhs rhs with
  | atom hatom =>
    cases lhs with
    | nil =>
      obtain ⟨rfl, -⟩ := List.cons.inj heq
      cases hatom
    | cons first lhs => simp at heq
  | @paren vs hvs ih => exact (not_split_parens hvs.closed hlhs (by decide) heq).elim
  | @field us name htarget hname ih =>
    rcases split_append heq with ⟨more, -, hmore⟩ | ⟨more, htokens, -⟩
    · have hmem : Token.operator .minus ∈ [Token.dot, .word name] := by simp [hmore]
      simp at hmem
    · cases (ih (by decide) htokens hlhs).1
  | @call method args hmethod hargs ih =>
    exact (not_split_call (fun arg harg => (hargs arg harg).closed) hlhs heq).elim
  | @invoke us method args htarget hmethod hargs ih ihargs =>
    rcases split_append heq with ⟨more, rfl, hmore⟩ | ⟨more, htokens, -⟩
    · have hbalanced : Balanced more := htarget.closed.balanced.append_iff.1 hlhs
      rcases hbalanced.split_cons hmore nofun nofun with ⟨-, hdot⟩ | ⟨inner, -, hinner, hcall⟩
      · cases hdot
      · exact (not_split_call (fun arg harg => (hargs arg harg).closed) hinner hcall).elim
    · cases (ih (by decide) htokens hlhs).1
  | @newObject us name typeArgs args htype hargs ih =>
    rcases hlhs.split_cons heq nofun nofun with ⟨-, hnew⟩ | ⟨lhs, -, hbalanced, hrest⟩
    · cases hnew
    · -- A minus would stand in the parentheses of the arguments or in the type.
      rcases split_append hrest with ⟨more, rfl, hmore⟩ | ⟨more, rfl, -⟩
      · have hinner : Balanced more := htype.closed.balanced.append_iff.1 hbalanced
        have hclosed : Closed (separated args) := .separated fun arg harg => (hargs arg harg).closed
        exact (not_split_parens hclosed hinner (by decide) hmore).elim
      · exact absurd (by simp) htype.minus_not_mem
  | @not us h ih =>
    rcases hlhs.split_cons heq nofun nofun with ⟨-, hbang⟩ | ⟨more, rfl, hbalanced, hrest⟩
    · cases hbang
    · exact ⟨rfl, .not (ih hlevel hrest hbalanced).2⟩
  | @negate us h ih =>
    rcases hlhs.split_cons heq nofun nofun with ⟨rfl, -⟩ | ⟨more, rfl, hbalanced, hrest⟩
    · exact ⟨rfl, .nil⟩
    · exact ⟨rfl, .negate (ih hlevel hrest hbalanced).2⟩
  | @cast vs us t htype hwildcard hsign h ih =>
    cases lhs with
    | nil => cases heq
    | cons first lhs =>
      obtain ⟨more, hmore, hbalanced, rfl⟩ :=
        Balanced.split_paren htype.closed.balanced hlhs nofun heq
      rw [hmore]
      refine ⟨rfl, .cast htype (fun hhead => hsign ?_) (ih hlevel rfl hbalanced).2⟩
      cases more with
      | nil => rfl
      | cons next more => simpa using hhead
  | @tighter looser level us hrank h ih =>
    -- The tighter phrase would be exactly unary, and a level below that is not.
    have hunary := (ih (by omega) heq hlhs).1
    rw [hunary] at hrank
    have hrankUnary : Level.unary.rank = 6 := rfl
    omega
  | @binary op _ _ _ _ _ _ _ _ => cases op <;> exact absurd hlevel (by decide)
  | _ => exact absurd hlevel (by decide)

/-- What stands outside parentheses where an operand is due is an operator before it; before a minus
an operand is due. -/
theorem OperandDue.split (h : OperandDue letters ts) {lhs rhs : List Token} {token : Token}
    (heq : ts = lhs ++ token :: rhs) (hlhs : Balanced lhs) :
    token ∈ [.bang, .operator .minus, .openParen] ∧
      (token = .operator .minus → OperandDue letters lhs) := by
  induction h generalizing lhs with
  | nil => simp at heq
  | @not us h ih =>
    rcases hlhs.split_cons heq nofun nofun with ⟨rfl, rfl⟩ | ⟨more, rfl, hbalanced, hrest⟩
    · exact ⟨by simp, nofun⟩
    · obtain ⟨hmem, hdue⟩ := ih hrest hbalanced
      exact ⟨hmem, fun hminus => .not (hdue hminus)⟩
  | @negate us h ih =>
    rcases hlhs.split_cons heq nofun nofun with ⟨rfl, rfl⟩ | ⟨more, rfl, hbalanced, hrest⟩
    · exact ⟨by simp, fun _ => .nil⟩
    · obtain ⟨hmem, hdue⟩ := ih hrest hbalanced
      exact ⟨hmem, fun hminus => .negate (hdue hminus)⟩
  | @cast vs us t htype hsign h ih =>
    cases lhs with
    | nil =>
      obtain ⟨rfl, -⟩ := List.cons.inj heq
      exact ⟨by simp, nofun⟩
    | cons first lhs =>
      obtain ⟨more, hmore, hbalanced, rfl⟩ :=
        Balanced.split_paren htype.closed.balanced hlhs nofun heq
      obtain ⟨hmem, hdue⟩ := ih rfl hbalanced
      refine ⟨hmem, fun hminus => ?_⟩
      subst hminus
      rw [hmore]
      refine .cast htype (fun hhead => hsign ?_) (hdue rfl)
      cases more with
      | nil => simp
      | cons next more => simpa using hhead

private theorem OperandDue.head {token : Token} (h : OperandDue letters (token :: ts)) :
    token ∈ [.bang, .operator .minus, .openParen] :=
  (h.split (List.nil_append _).symm rfl).1

/-- Where an operand is due behind parentheses, they hold a type. -/
theorem OperandDue.of_paren {vs : List Token} (hvs : Closed vs)
    (h : OperandDue letters (.openParen :: vs ++ .closeParen :: us)) :
    ∃ t, ReadsType letters vs t ∧
      (us.head? ∈ [none, some (.operator .minus)] → ∃ p, t = .primitive p) ∧
      OperandDue letters us := by
  generalize htokens : Token.openParen :: vs ++ .closeParen :: us = tokens at h
  cases h with
  | nil => cases htokens
  | not h => cases htokens
  | negate h => cases htokens
  | @cast vs' us' t htype hsign h =>
    have hinner : vs ++ .closeParen :: us = vs' ++ .closeParen :: us' := (List.cons.inj htokens).2
    have hafter := congrArg (afterClose 0) hinner
    rw [hvs, htype.closed] at hafter
    obtain rfl : us = us' := Option.some.inj hafter
    obtain rfl : vs = vs' := List.append_cancel_right hinner
    exact ⟨t, htype, hsign, h⟩

/-- A primitive type is no expression. -/
theorem IsPhrase.ne_keyword (h : IsPhrase letters level ts) (p : Primitive) :
    ts ≠ [.word p.keyword] := by
  induction h with
  | atom hatom =>
    intro heq
    obtain ⟨rfl, -⟩ := List.cons.inj heq
    cases hatom with
    | keyword hword => cases p <;> cases hword
    | name hname => exact hname.2 (IsKeywordType.primitive p).mem_reservedWords
  | instanceOf _ _ _ _ =>
    have hne : "instanceof" ≠ p.keyword := by cases p <;> decide
    simp [List.append_eq_cons_iff, hne]
  | tighter _ _ ih => exact ih
  | _ => simp [List.append_eq_cons_iff, inParens]

/-- Behind a phrase no operand is due. -/
theorem IsPhrase.not_operandDue (h : IsPhrase letters level ts) : ¬ OperandDue letters ts := by
  induction h with
  | atom hatom =>
    intro hdue
    have hmem := hdue.head
    simp only [List.mem_cons, List.not_mem_nil, or_false] at hmem
    rcases hmem with rfl | rfl | rfl <;> cases hatom
  | @paren vs hvs ih =>
    -- The parentheses would hold a type, and a primitive one, as nothing follows them.
    intro hdue
    obtain ⟨t, htype, hsign, -⟩ := hdue.of_paren hvs.closed
    obtain ⟨p, rfl⟩ := hsign (by simp)
    cases htype with
    | primitive _ => exact hvs.ne_keyword p rfl
  | @field us name htarget hname ih =>
    intro hdue
    have hmem := (hdue.split rfl htarget.closed.balanced).1
    simp at hmem
  | call _ _ _ =>
    intro hdue
    simpa using hdue.head
  | @invoke us method args htarget hmethod hargs ih ihargs =>
    intro hdue
    have hmem := (hdue.split rfl htarget.closed.balanced).1
    simp at hmem
  | newObject _ _ _ =>
    intro hdue
    simpa using hdue.head
  | not h ih =>
    intro hdue
    cases hdue with
    | not hdue => exact ih hdue
  | negate h ih =>
    intro hdue
    cases hdue with
    | negate hdue => exact ih hdue
  | cast htype _ _ h ih =>
    intro hdue
    obtain ⟨-, -, -, hrest⟩ := hdue.of_paren htype.closed
    exact ih hrest
  | @binary op tighter us vs _ hlhs hrhs ihlhs ihrhs =>
    intro hdue
    obtain ⟨hmem, hminus⟩ := hdue.split rfl hlhs.closed.balanced
    obtain rfl : op = .minus := by simpa using hmem
    exact ihlhs (hminus rfl)
  | instanceOf h _ _ ih =>
    intro hdue
    have hmem := (hdue.split rfl h.closed.balanced).1
    simp at hmem
  | cond htest _ _ ih _ _ =>
    intro hdue
    rw [List.append_assoc] at hdue
    have hmem := (hdue.split rfl htest.closed.balanced).1
    simp at hmem
  | tighter _ _ ih => exact ih

/-- A unary phrase is no difference. -/
theorem IsPhrase.not_isDifference (h : IsPhrase letters .unary ts) : ¬ IsDifference letters ts := by
  rintro ⟨lhs, rhs, heq, hlhs, -⟩
  exact hlhs.not_operandDue (h.due_of_minus (Nat.le_refl _) heq hlhs.closed.balanced).2

private theorem ReadsType.unique {t u : TypeExpr} (ht : ReadsType letters ts t)
    (hu : ReadsType letters ts u) : t = u := by
  have hends : EndsType [] := by simp [EndsType]
  exact ((ht.descent hends).unique (hu.descent hends)).1

/-- With a sign behind a type in parentheses a phrase is unary only if the type is primitive. -/
theorem IsPhrase.primitive_of_sign {vs : List Token} {t : TypeExpr} (htype : ReadsType letters vs t)
    (h : IsPhrase letters .unary
      (.openParen :: vs ++ .closeParen :: .operator .minus :: us)) : ∃ p, t = .primitive p := by
  have heq : .openParen :: vs ++ .closeParen :: .operator .minus :: us =
      (.openParen :: vs ++ [.closeParen]) ++ Token.operator .minus :: us := by simp
  have hdue := (h.due_of_minus (Nat.le_refl _) heq htype.closed.paren.balanced).2
  obtain ⟨u, hread, hsign, -⟩ := hdue.of_paren htype.closed
  rw [htype.unique hread]
  exact hsign (by simp)

end BeanSynthesis.Java
