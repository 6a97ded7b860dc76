import BeanSynthesis.Proofs.JavaText.Descent

/-!
# Expressions are read in one way

Whatever the grammar allows is found by reading from the left, so the tokens of an expression stand
for one expression only. What makes the two agree is what may follow an expression: an operator that
binds less tightly, or a sign that ends it.
-/

namespace BeanSynthesis.Java

open Source (Level opLevel)

variable {letters : Letters}

/-! ## Parentheses -/

/-- Parentheses are closed in the tokens. -/
def Closed (ts : List Token) : Prop :=
  ∀ depth rest, afterClose depth (ts ++ rest) = afterClose depth rest

namespace Closed

/-- Without tokens there are no parentheses. -/
theorem nil : Closed [] := fun _ _ => rfl

/-- Closed tokens in a row are closed. -/
theorem append {ts us : List Token} (hts : Closed ts) (hus : Closed us) : Closed (ts ++ us) := by
  intro depth rest
  rw [List.append_assoc, hts, hus]

/-- A token that is no parenthesis leaves closed tokens closed. -/
theorem cons (token : Token) {ts : List Token} (hopen : token ≠ .openParen)
    (hclose : token ≠ .closeParen) (h : Closed ts) : Closed (token :: ts) := by
  intro depth rest
  rw [← h depth rest]
  cases token <;> first | contradiction | cases depth <;> rfl

/-- Closed tokens in parentheses are closed. -/
theorem paren {ts : List Token} (h : Closed ts) : Closed (.openParen :: ts ++ [.closeParen]) := by
  intro depth rest
  have hinner := h (depth + 1) (.closeParen :: rest)
  simpa [afterClose] using hinner

/-- Closed tokens with commas between them are closed. -/
theorem separated {args : List (List Token)} (h : ∀ arg ∈ args, Closed arg) :
    Closed (separated args) := by
  cases args with
  | nil => exact nil
  | cons first rest =>
    obtain ⟨hfirst, hrest⟩ := List.forall_mem_cons.mp h
    refine hfirst.append ?_
    clear h hfirst
    induction rest with
    | nil => exact nil
    | cons second rest ih =>
      obtain ⟨hsecond, hrest⟩ := List.forall_mem_cons.mp hrest
      exact (cons .comma nofun nofun hsecond).append (ih hrest)

private theorem dotted (parts : List String) : Closed (dotted parts) := by
  cases parts with
  | nil => exact nil
  | cons first rest =>
    refine .cons _ nofun nofun ?_
    induction rest with
    | nil => exact nil
    | cons second rest ih => exact .cons _ nofun nofun (.cons _ nofun nofun ih)

end Closed

/-- The tokens of a type are closed. -/
theorem ReadsType.closed {ts : List Token} {t : TypeExpr} (h : ReadsType letters ts t) :
    Closed ts := by
  induction h with
  | void => exact .cons _ nofun nofun .nil
  | primitive p => exact .cons _ nofun nofun .nil
  | @named parts _ _ => exact .dotted parts
  | @generic parts args _ _ _ _ ih =>
    have hargs : ∀ arg ∈ args.map (·.1), Closed arg := by
      intro arg harg
      obtain ⟨pair, hpair, rfl⟩ := List.mem_map.mp harg
      exact ih pair hpair
    refine (Closed.dotted parts).append (.append ?_ (.cons _ nofun nofun .nil))
    exact .cons _ nofun nofun (.separated hargs)
  | array _ _ ih => exact ih.append (.cons _ nofun nofun (.cons _ nofun nofun .nil))
  | unbounded => exact .cons _ nofun nofun .nil
  | bounded _ ih => exact .cons _ nofun nofun (.cons _ nofun nofun ih)

private theorem closed_inParens {args : List (List Token × Expr)} (h : ∀ arg ∈ args, Closed arg.1) :
    Closed (inParens (args.map (·.1))) := by
  refine .paren (.separated fun arg harg => ?_)
  obtain ⟨pair, hpair, rfl⟩ := List.mem_map.mp harg
  exact h pair hpair

/-- An atom is closed. -/
theorem IsAtom.closed {token : Token} {e : Expr} (h : IsAtom letters token e) : Closed [token] := by
  refine .cons _ ?_ ?_ .nil
  · exact h.ne_openParen
  · cases h <;> nofun

private theorem Reads.closed {level : Level} {ts : List Token} {e : Expr}
    (h : Reads letters level ts e) :
    Closed ts := by
  induction h with
  | atom hatom => exact hatom.closed
  | paren _ ih => exact ih.paren
  | field _ _ ih => exact ih.append (.cons _ nofun nofun (.cons _ nofun nofun .nil))
  | call _ _ ih => exact .cons _ nofun nofun (closed_inParens ih)
  | invoke _ _ _ ih ihargs =>
    exact ih.append (.cons _ nofun nofun (.cons _ nofun nofun (closed_inParens ihargs)))
  | newObject htype _ ih => exact .cons _ nofun nofun (htype.closed.append (closed_inParens ih))
  | not _ ih => exact .cons _ nofun nofun ih
  | cast htype _ _ ih =>
    have hparen := htype.closed.paren.append ih
    simpa using hparen
  | binary _ _ _ ihlhs ihrhs => exact ihlhs.append (.cons _ nofun nofun ihrhs)
  | instanceOf _ htype _ ih => exact ih.append (.cons _ nofun nofun htype.closed)
  | cond _ _ _ ihtest ihyes ihno =>
    have hyes := Closed.cons .question nofun nofun ihyes
    have hno := Closed.cons .colon nofun nofun ihno
    have hall := ihtest.append (hyes.append hno)
    simpa using hall
  | tighter _ _ ih => exact ih

/-! ## What starts and what follows an expression -/

/-- The tokens of an expression start with one that may start it. -/
theorem Reads.starts {level : Level} {ts : List Token} {e : Expr} (h : Reads letters level ts e) :
    ∃ first rest, ts = first :: rest ∧ StartsExpr letters first := by
  have hleft : ∀ {ts us : List Token},
      (∃ first rest, ts = first :: rest ∧ StartsExpr letters first) →
      ∃ first rest, ts ++ us = first :: rest ∧ StartsExpr letters first := by
    rintro ts us ⟨first, rest, rfl, hfirst⟩
    exact ⟨first, rest ++ us, rfl, hfirst⟩
  induction h with
  | atom hatom => exact ⟨_, _, rfl, .atom hatom⟩
  | paren _ _ => exact ⟨_, _, rfl, .openParen⟩
  | field _ _ ih => exact hleft ih
  | call hmethod _ _ => exact ⟨_, _, rfl, .atom (.name hmethod)⟩
  | invoke _ _ _ ih _ => exact hleft ih
  | newObject _ _ _ => exact ⟨_, _, rfl, .new⟩
  | not _ _ => exact ⟨_, _, rfl, .bang⟩
  | cast _ _ _ _ => exact ⟨_, _, rfl, .openParen⟩
  | binary _ _ _ ih _ => exact hleft ih
  | instanceOf _ _ _ ih => exact hleft ih
  | cond _ _ _ ih _ _ => exact hleft (hleft ih)
  | tighter _ _ ih => exact ih

/-- The expression before the tokens goes on at most below this rank. -/
def Stops (rank : Nat) (ts : List Token) : Prop :=
  ∀ next ∈ ts.head?, next ∈ [.closeParen, .comma, .colon] ∨
    ∃ level, levelOf? next = some level ∧ level.rank < rank

namespace Stops

variable {rank : Nat} {ts : List Token}

private theorem nil : Stops rank [] := nofun

private theorem closer {next : Token} (h : next ∈ [Token.closeParen, .comma, .colon]) :
    Stops rank (next :: ts) := by
  intro other hother
  obtain rfl := Option.some.inj hother
  exact .inl h

private theorem goesOn {next : Token} {level : Level} (h : levelOf? next = some level)
    (hrank : level.rank < rank) : Stops rank (next :: ts) := by
  intro other hother
  obtain rfl := Option.some.inj hother
  exact .inr ⟨level, h, hrank⟩

private theorem mono {bound : Nat} (h : Stops rank ts) (hle : rank ≤ bound) : Stops bound ts := by
  intro next hnext
  rcases h next hnext with hclose | ⟨level, hlevel, hrank⟩
  · exact .inl hclose
  · exact .inr ⟨level, hlevel, by omega⟩

/-- What starts an expression does not follow one. -/
theorem not_starts {next : Token} (h : Stops rank (next :: ts)) : ¬StartsExpr letters next := by
  intro hstarts
  have hlevel : levelOf? next = none ∧ next ∉ [Token.closeParen, .comma, .colon] := by
    cases hstarts with
    | atom hatom =>
      cases hatom with
      | @keyword word _ hword =>
        have hne : word ≠ "instanceof" := by
          rintro rfl
          cases hword
        simp [levelOf?, hne]
      | number n => simp [levelOf?]
      | string value => simp [levelOf?]
      | @name name hname =>
        have hne : name ≠ "instanceof" := hname.ne (by decide)
        simp [levelOf?, hne]
    | new => decide
    | bang => decide
    | openParen => decide
  rcases h next rfl with hclose | ⟨level, hsome, -⟩
  · exact hlevel.2 hclose
  · simp [hlevel.1] at hsome

private theorem head?_ne (h : Stops rank ts) {next : Token} (hnone : levelOf? next = none)
    (hclose : next ∉ [Token.closeParen, .comma, .colon]) : ts.head? ≠ some next := by
  intro hhead
  rcases h next hhead with hmem | ⟨level, hsome, -⟩
  · exact hclose hmem
  · simp [hnone] at hsome

private theorem head?_ne_of_level (h : Stops rank ts) {next : Token} {level : Level}
    (hlevel : levelOf? next = some level) (hrank : rank ≤ level.rank)
    (hclose : next ∉ [Token.closeParen, .comma, .colon]) : ts.head? ≠ some next := by
  intro hhead
  rcases h next hhead with hmem | ⟨other, hsome, hlt⟩
  · exact hclose hmem
  · obtain rfl := Option.some.inj (hlevel.symm.trans hsome)
    omega

/-- An expression of a level does not go on at that level. -/
theorem levelOf?_ne {level : Level} (h : Stops level.rank ts) :
    ts.head?.bind levelOf? ≠ some level := by
  cases ts with
  | nil => nofun
  | cons next rest =>
    intro hlevel
    have hsome : levelOf? next = some level := hlevel
    rcases h next rfl with hclose | ⟨other, hother, hlt⟩
    · simp only [List.mem_cons, List.not_mem_nil, or_false] at hclose
      rcases hclose with rfl | rfl | rfl <;> cases hsome
    · obtain rfl := Option.some.inj (hsome.symm.trans hother)
      omega

private theorem endsType (h : Stops rank ts) (hrank : rank ≤ Level.primary.rank) : EndsType ts := by
  have hdot : ts.head? ≠ some .dot := h.head?_ne_of_level rfl hrank (by decide)
  have hangle : ts.head? ≠ some .openAngle := h.head?_ne rfl (by decide)
  have hbracket : ts.head? ≠ some .openBracket := h.head?_ne rfl (by decide)
  have hextends : ts.head? ≠ some (.word "extends") := h.head?_ne rfl (by decide)
  simp [EndsType, hdot, hangle, hbracket, hextends]

/-- An argument is followed by a comma or by the parenthesis that closes the list. -/
theorem moreArgs (args : List (List Token)) (rest : List Token) :
    Stops rank (args.flatMap (.comma :: ·) ++ .closeParen :: rest) := by
  cases args with
  | nil => exact .closer (by decide)
  | cons arg args => exact .closer (by decide)

end Stops

/-- A primary is no cast, whatever may follow it. -/
theorem Reads.not_isCast {ts rest : List Token} {e : Expr} (h : Reads letters .primary ts e)
    (hstops : Stops 8 rest) : ¬IsCast letters (ts ++ rest) ∧ (ts ++ rest).head? ≠ some .bang := by
  generalize hlevel : Level.primary = level at h
  induction h generalizing rest with
  | atom hatom =>
    refine ⟨?_, ?_⟩
    · rintro ⟨inner, first, after, heq, -⟩
      exact hatom.ne_openParen (List.cons.inj heq).1
    · intro hbang
      obtain rfl := Option.some.inj hbang
      cases hatom
  | @paren ts _ h _ =>
    refine ⟨?_, by simp⟩
    rintro ⟨inner, first, after, heq, hafter, hfirst⟩
    have hinner : inner = ts ++ .closeParen :: rest := by simpa using (List.cons.inj heq).2.symm
    rw [hinner, h.closed] at hafter
    obtain rfl := Option.some.inj hafter
    exact hstops.not_starts hfirst
  | field _ _ ih =>
    rw [List.append_assoc]
    exact ih (.goesOn rfl (by decide)) rfl
  | call _ _ _ =>
    refine ⟨?_, by simp⟩
    rintro ⟨inner, first, after, heq, -⟩
    cases heq
  | invoke _ _ _ ih _ =>
    rw [List.append_assoc]
    exact ih (.goesOn rfl (by decide)) rfl
  | newObject _ _ _ =>
    refine ⟨?_, by simp⟩
    rintro ⟨inner, first, after, heq, -⟩
    cases heq
  | @binary op _ _ _ _ _ _ _ _ _ _ => cases op <;> cases hlevel
  | @tighter level tighter _ _ hrank _ _ =>
    subst hlevel
    cases tighter <;> cases hrank
  | _ => cases hlevel

/-! ## Completeness -/

/-- The tokens are found to stand for the expression at a level. At a level of operators or of
selections more of them may follow, which then belong to a larger expression. -/
def Found (letters : Letters) (level : Level) (ts : List Token) (e : Expr) : Prop :=
  match level with
  | .cond | .unary => ∀ {rest}, Stops level.rank rest →
    Descent letters (.expr level) (ts ++ rest) e rest
  | _ => ∀ {rest fin out}, Stops (level.rank + 1) rest →
    Descent letters (.more level e) rest out fin →
      Descent letters (.expr level) (ts ++ rest) out fin

private theorem found_operator_iff {level : Level} {ts : List Token} {e : Expr}
    (hlevel : level ∈ operatorLevels) : Found letters level ts e ↔
      ∀ {rest fin out}, Stops (level.rank + 1) rest → Descent letters (.more level e) rest out fin →
        Descent letters (.expr level) (ts ++ rest) out fin := by
  simp only [operatorLevels, List.mem_cons, List.not_mem_nil, or_false] at hlevel
  rcases hlevel with rfl | rfl | rfl | rfl | rfl <;> rfl

namespace Found

variable {level : Level} {ts rest : List Token} {e : Expr}

/-- An expression is read to its end if what follows does not belong to it. -/
theorem stop (h : Found letters level ts e) (hstops : Stops level.rank rest) :
    Descent letters (.expr level) (ts ++ rest) e rest := by
  have hmore : Stops (level.rank + 1) rest := hstops.mono (Nat.le_succ _)
  cases level with
  | cond => exact h hstops
  | unary => exact h hstops
  | _ => exact h hmore (.done hstops.levelOf?_ne)

private theorem cond_of_or (h : Found letters .or ts e) : Found letters .cond ts e := by
  intro rest hstops
  have hor : Stops Level.or.rank rest := hstops.mono (by decide)
  exact .noCond (h.stop hor) (hstops.head?_ne_of_level rfl (Nat.le_refl _) (by decide))

private theorem operator_of_tighter {tighter : Level} (hlevel : level ∈ operatorLevels)
    (hrank : level.rank + 1 = tighter.rank) (h : Found letters tighter ts e) :
    Found letters level ts e := by
  rw [found_operator_iff hlevel]
  intro rest fin out hstops hmore
  exact .operand hlevel hrank (h.stop (hrank ▸ hstops)) hmore

private theorem unary_of_primary (hreads : Reads letters .primary ts e)
    (h : Found letters .primary ts e) :
    Found letters .unary ts e := by
  intro rest hstops
  have hmore : Stops 8 rest := hstops.mono (by decide)
  obtain ⟨hcast, hbang⟩ := hreads.not_isCast hmore
  exact .plain hbang hcast (h.stop (hstops.mono (by decide)))

end Found

/-- Arguments are read one after the other. -/
theorem Descent.ofMoreArgs {build : List Expr → Expr} {known : List Expr}
    {args : List (List Token × Expr)} {rest : List Token}
    (hargs : ∀ arg ∈ args, Found letters .cond arg.1 arg.2) :
    Descent letters (.moreArgs build known)
      ((args.map (·.1)).flatMap (.comma :: ·) ++ .closeParen :: rest)
      (build (known ++ args.map (·.2))) rest := by
  induction args generalizing known with
  | nil => simpa using Descent.lastArg
  | cons arg others ih =>
    obtain ⟨harg, hothers⟩ := List.forall_mem_cons.mp hargs
    have hrest := @ih (known ++ [arg.2]) hothers
    have hread := Descent.nextArg (harg.stop (.moreArgs _ rest)) hrest
    simpa using hread

private theorem Descent.ofArgs {build : List Expr → Expr} {args : List (List Token × Expr)}
    {rest : List Token} (hargs : ∀ arg ∈ args, Found letters .cond arg.1 arg.2)
    (hreads : ∀ arg ∈ args, Reads letters .cond arg.1 arg.2) :
    Descent letters (.args build) (separated (args.map (·.1)) ++ .closeParen :: rest)
      (build (args.map (·.2))) rest := by
  cases args with
  | nil => exact .noArgs
  | cons arg others =>
    obtain ⟨harg, hothers⟩ := List.forall_mem_cons.mp hargs
    obtain ⟨first, after, htokens, hstarts⟩ := (List.forall_mem_cons.mp hreads).1.starts
    have hmore := @Descent.ofMoreArgs letters build [arg.2] others rest hothers
    have hne : first ≠ .closeParen := by
      rintro rfl
      have hend : Stops 0 [.closeParen] := .closer (by decide)
      exact hend.not_starts hstarts
    have hread := Descent.firstArg (by simp [htokens, hne]) (harg.stop (.moreArgs _ rest)) hmore
    simpa [separated] using hread

/-- What the grammar allows is found. -/
theorem Reads.found {level : Level} {ts : List Token} {e : Expr} (h : Reads letters level ts e) :
    Found letters level ts e := by
  induction h with
  | atom hatom =>
    intro rest fin out hstops hmore
    exact .atom hatom (hstops.head?_ne rfl (by decide)) hmore
  | paren _ ih =>
    intro rest fin out hstops hmore
    have hinner := ih.stop (.closer (by decide) : Stops 0 (.closeParen :: rest))
    simpa using Descent.paren hinner hmore
  | field _ _ ih =>
    intro rest fin out hstops hmore
    have hnext : rest.head? ≠ some .openParen := hstops.head?_ne rfl (by decide)
    have hread := ih (.goesOn rfl (by decide)) (.field hnext hmore)
    simpa using hread
  | call _ hargs ih =>
    intro rest fin out hstops hmore
    have hread := Descent.call (.ofArgs ih hargs) hmore
    simpa [inParens] using hread
  | invoke _ _ hargs ih ihargs =>
    intro rest fin out hstops hmore
    have hread := ih (.goesOn rfl (by decide)) (.invoke (.ofArgs ihargs hargs) hmore)
    simpa [inParens] using hread
  | @newObject ts name typeArgs args htype hargs ih =>
    intro rest fin out hstops hmore
    have hends : EndsType (.openParen :: (separated (args.map (·.1)) ++ .closeParen :: rest)) := by
      simp [EndsType]
    have hread := Descent.newObject (htype.descent hends) (.ofArgs ih hargs) hmore
    simpa [inParens] using hread
  | not _ ih =>
    intro rest hstops
    exact .not (ih.stop hstops)
  | @cast ts us t e htype _ h ih =>
    intro rest hstops
    obtain ⟨first, after, rfl, hstarts⟩ := h.starts
    have hcast :
        IsCast letters (.openParen :: (ts ++ .closeParen :: (first :: after ++ rest))) := by
      refine ⟨_, first, after ++ rest, rfl, ?_, hstarts⟩
      rw [htype.closed]
      rfl
    have hends : EndsType (.closeParen :: (first :: after ++ rest)) := by simp [EndsType]
    have hread := Descent.cast hcast (htype.descent hends) (ih.stop hstops)
    simpa using hread
  | @binary op tighter ts us lhs rhs htighter _ _ ihlhs ihrhs =>
    have hlevel : opLevel op ∈ operatorLevels := by cases op <;> decide
    rw [found_operator_iff hlevel] at ihlhs ⊢
    intro rest fin out hstops hmore
    have hrhs := ihrhs.stop (htighter ▸ hstops)
    have hread := ihlhs (.goesOn rfl (Nat.lt_succ_self _)) (.operator rfl htighter hrhs hmore)
    simpa using hread
  | instanceOf _ htype _ ih =>
    intro rest fin out hstops hmore
    have htypeRead := htype.descent (hstops.endsType (by decide))
    have hread := ih (.goesOn rfl (by decide)) (.instanceOf htypeRead hmore)
    simpa using hread
  | @cond ts us vs test yes no _ _ _ ihtest ihyes ihno =>
    intro rest hstops
    have htest := ihtest.stop (.goesOn rfl (by decide) :
      Stops Level.or.rank (.question :: (us ++ .colon :: (vs ++ rest))))
    have hyes := ihyes.stop (.closer (by decide) : Stops 0 (.colon :: (vs ++ rest)))
    have hread := Descent.cond htest hyes (ihno.stop hstops)
    simpa using hread
  | @tighter level tighter ts e hrank h ih =>
    cases level with
    | cond =>
      obtain rfl : tighter = .or := rank_inj.mp hrank.symm
      exact ih.cond_of_or
    | unary =>
      obtain rfl : tighter = .primary := rank_inj.mp hrank.symm
      exact ih.unary_of_primary h
    | primary => cases tighter <;> cases hrank
    | _ => exact ih.operator_of_tighter (by decide) hrank

/-- Tokens stand for at most one expression. -/
theorem Reads.unique {ts : List Token} {e e' : Expr} (h : Reads letters .cond ts e)
    (h' : Reads letters .cond ts e') : e = e' := by
  have hread : Descent letters (.expr .cond) (ts ++ []) e [] := Found.stop h.found .nil
  have hread' : Descent letters (.expr .cond) (ts ++ []) e' [] := Found.stop h'.found .nil
  exact (hread.unique hread').1

end BeanSynthesis.Java
