import Mathlib
import BeanSynthesis.Proofs.JavaText.TypeDescent

/-!
# Reading expressions from the left

Reading an expression from left to right, level by level: an operand of the next tighter level, then
as many operators of the level as follow. Whether a parenthesis opens a cast is decided by what
follows the one that closes it. The result is determined by the tokens.
-/

namespace BeanSynthesis.Java

open Source (Level opLevel)

variable {letters : Letters}

/-- A level is known by its rank. -/
theorem rank_inj {a b : Level} : a.rank = b.rank ↔ a = b := by
  cases a <;> cases b <;> decide

/-- What follows the parenthesis that closes the given number of open ones and one more. -/
def afterClose : Nat → List Token → Option (List Token)
  | _, [] => none
  | depth, .openParen :: ts => afterClose (depth + 1) ts
  | 0, .closeParen :: ts => some ts
  | depth + 1, .closeParen :: ts => afterClose depth ts
  | depth, _ :: ts => afterClose depth ts

variable (letters) in
/-- An expression may start with the token. -/
inductive StartsExpr : Token → Prop where
  | atom {token : Token} {e : Expr} (h : IsAtom letters token e) : StartsExpr token
  | new : StartsExpr (.word "new")
  | bang : StartsExpr .bang
  | openParen : StartsExpr .openParen

variable (letters) in
/-- A cast starts here: an expression follows the closing parenthesis. -/
def IsCast (ts : List Token) : Prop :=
  ∃ inner first rest, ts = .openParen :: inner ∧ afterClose 0 inner = some (first :: rest) ∧
    StartsExpr letters first

/-- The level at which an expression goes on with the token. -/
def levelOf? : Token → Option Level
  | .question => some .cond
  | .operator op => some (opLevel op)
  | .word text => if text = "instanceof" then some .relation else none
  | .dot => some .primary
  | _ => none

/-- The levels of operators that associate to the left. -/
def operatorLevels : List Level := [.or, .and, .equality, .relation, .additive]

/-- What is to be read: an expression of a level, the rest of one of that level, or arguments after
the opening parenthesis, all of them or those after the known ones. -/
inductive Goal where
  | expr (level : Level)
  | more (level : Level) (e : Expr)
  | args (build : List Expr → Expr)
  | moreArgs (build : List Expr → Expr) (known : List Expr)

variable (letters) in
/-- Reading from the left: a goal, the tokens, the expression and the tokens after it. -/
inductive Descent : Goal → List Token → Expr → List Token → Prop where
  | operand {level tighter : Level} {ts mid rest : List Token} {a e : Expr}
    (hlevel : level ∈ operatorLevels) (htighter : level.rank + 1 = tighter.rank)
    (h : Descent (.expr tighter) ts a mid) (hmore : Descent (.more level a) mid e rest) :
    Descent (.expr level) ts e rest
  | operator {level tighter : Level} {op : BinaryOp} {ts mid rest : List Token} {a b e : Expr}
    (hlevel : opLevel op = level) (htighter : level.rank + 1 = tighter.rank)
    (h : Descent (.expr tighter) ts b mid)
    (hmore : Descent (.more level (.binary op a b)) mid e rest) :
    Descent (.more level a) (.operator op :: ts) e rest
  | instanceOf {ts mid rest : List Token} {t : TypeExpr} {a e : Expr}
    (htype : TypeDescent letters .type ts t mid)
    (hmore : Descent (.more .relation (.instanceOf a t)) mid e rest) :
    Descent (.more .relation a) (.word "instanceof" :: ts) e rest
  | field {name : String} {ts rest : List Token} {a e : Expr} (hnext : ts.head? ≠ some .openParen)
    (hmore : Descent (.more .primary (.field a name)) ts e rest) :
    Descent (.more .primary a) (.dot :: .word name :: ts) e rest
  | invoke {method : String} {ts mid rest : List Token} {a b e : Expr}
    (hargs : Descent (.args (.invoke a method)) ts b mid)
    (hmore : Descent (.more .primary b) mid e rest) :
    Descent (.more .primary a) (.dot :: .word method :: .openParen :: ts) e rest
  | done {level : Level} {ts : List Token} {a : Expr}
    (hnext : ts.head?.bind levelOf? ≠ some level) : Descent (.more level a) ts a ts
  | cond {ts us vs rest : List Token} {a b c : Expr}
    (htest : Descent (.expr .or) ts a (.question :: us))
    (hyes : Descent (.expr .cond) us b (.colon :: vs)) (hno : Descent (.expr .cond) vs c rest) :
    Descent (.expr .cond) ts (.cond a b c) rest
  | noCond {ts rest : List Token} {a : Expr} (h : Descent (.expr .or) ts a rest)
    (hnext : rest.head? ≠ some .question) : Descent (.expr .cond) ts a rest
  | not {ts rest : List Token} {e : Expr} (h : Descent (.expr .unary) ts e rest) :
    Descent (.expr .unary) (.bang :: ts) (.not e) rest
  | cast {ts mid rest : List Token} {t : TypeExpr} {e : Expr}
    (hcast : IsCast letters (.openParen :: ts))
    (htype : TypeDescent letters .type ts t (.closeParen :: mid))
    (h : Descent (.expr .unary) mid e rest) :
    Descent (.expr .unary) (.openParen :: ts) (.cast t e) rest
  | plain {ts rest : List Token} {e : Expr} (hbang : ts.head? ≠ some .bang)
    (hcast : ¬IsCast letters ts) (h : Descent (.expr .primary) ts e rest) :
    Descent (.expr .unary) ts e rest
  | atom {token : Token} {ts rest : List Token} {a e : Expr} (h : IsAtom letters token a)
    (hnext : ts.head? ≠ some .openParen) (hmore : Descent (.more .primary a) ts e rest) :
    Descent (.expr .primary) (token :: ts) e rest
  | paren {ts mid rest : List Token} {a e : Expr}
    (h : Descent (.expr .cond) ts a (.closeParen :: mid))
    (hmore : Descent (.more .primary a) mid e rest) :
    Descent (.expr .primary) (.openParen :: ts) e rest
  | call {method : String} {ts mid rest : List Token} {a e : Expr}
    (hargs : Descent (.args (.call method)) ts a mid)
    (hmore : Descent (.more .primary a) mid e rest) :
    Descent (.expr .primary) (.word method :: .openParen :: ts) e rest
  | newObject {ts us mid rest : List Token} {t : TypeExpr} {a e : Expr}
    (htype : TypeDescent letters .type ts t (.openParen :: us))
    (hargs : Descent (.args (.newObject t)) us a mid)
    (hmore : Descent (.more .primary a) mid e rest) :
    Descent (.expr .primary) (.word "new" :: ts) e rest
  | noArgs {build : List Expr → Expr} {ts : List Token} :
    Descent (.args build) (.closeParen :: ts) (build []) ts
  | firstArg {build : List Expr → Expr} {ts mid rest : List Token} {a e : Expr}
    (hnext : ts.head? ≠ some .closeParen) (h : Descent (.expr .cond) ts a mid)
    (hmore : Descent (.moreArgs build [a]) mid e rest) : Descent (.args build) ts e rest
  | nextArg {build : List Expr → Expr} {known : List Expr} {ts mid rest : List Token} {a e : Expr}
    (h : Descent (.expr .cond) ts a mid)
    (hmore : Descent (.moreArgs build (known ++ [a])) mid e rest) :
    Descent (.moreArgs build known) (.comma :: ts) e rest
  | lastArg {build : List Expr → Expr} {known : List Expr} {ts : List Token} :
    Descent (.moreArgs build known) (.closeParen :: ts) (build known) ts

private theorem mem_reservedWords_of_keywordExpr? {word : String} {e : Expr}
    (h : keywordExpr? word = some e) : word ∈ reservedWords := by
  unfold keywordExpr? at h
  split at h
  case h_6 => cases h
  all_goals decide

/-- An atom stands for one expression. -/
theorem IsAtom.unique {token : Token} {a b : Expr} (ha : IsAtom letters token a)
    (hb : IsAtom letters token b) : a = b := by
  cases ha with
  | keyword hword =>
    cases hb with
    | keyword hword' => exact Option.some.inj (hword.symm.trans hword')
    | name hname => exact absurd (mem_reservedWords_of_keywordExpr? hword) hname.2
  | number n =>
    generalize hdigits : Nat.repr n = digits at hb
    cases hb with
    | number m => rw [Nat.repr_injective hdigits]
  | string value =>
    cases hb with
    | string _ => rfl
  | name hname =>
    cases hb with
    | keyword hword => exact absurd (mem_reservedWords_of_keywordExpr? hword) hname.2
    | name _ => rfl

/-- An atom does not start with a parenthesis. -/
theorem IsAtom.ne_openParen {token : Token} {a : Expr} (h : IsAtom letters token a) :
    token ≠ .openParen := by
  cases h <;> nofun

private theorem IsAtom.ne_new {token : Token} {a : Expr} (h : IsAtom letters token a) :
    token ≠ .word "new" := by
  rintro rfl
  cases h with
  | keyword hword => cases hword
  | name hname => exact absurd (by decide) hname.2

variable (letters) in
/-- From these tokens a goal is reached with this expression and these tokens left, or not at
all. -/
def Settles (goal : Goal) (ts : List Token) (e : Expr) (rest : List Token) : Prop :=
  ∀ ⦃e' : Expr⦄ ⦃rest' : List Token⦄, Descent letters goal ts e' rest' → e = e' ∧ rest = rest'

namespace Settles

variable {level tighter : Level} {ts us vs mid rest : List Token} {a b c e : Expr} {t : TypeExpr}
  {build : List Expr → Expr} {known : List Expr}

/-! ### Operators -/

private theorem operand (hlevel : level ∈ operatorLevels) (htighter : level.rank + 1 = tighter.rank)
    (h : Settles letters (.expr tighter) ts a mid)
    (hmore : Settles letters (.more level a) mid e rest) :
    Settles letters (.expr level) ts e rest := by
  intro e' rest' h'
  cases h' with
  | operand _ htighter' h₁ hmore₁ =>
    obtain rfl := rank_inj.mp (htighter.symm.trans htighter')
    obtain ⟨rfl, rfl⟩ := h h₁
    exact hmore hmore₁
  | _ => simp [operatorLevels] at hlevel

private theorem operator {op : BinaryOp} (hlevel : opLevel op = level)
    (htighter : level.rank + 1 = tighter.rank) (h : Settles letters (.expr tighter) ts b mid)
    (hmore : Settles letters (.more level (.binary op a b)) mid e rest) :
    Settles letters (.more level a) (.operator op :: ts) e rest := by
  intro e' rest' h'
  cases h' with
  | operator _ htighter' h₁ hmore₁ =>
    obtain rfl := rank_inj.mp (htighter.symm.trans htighter')
    obtain ⟨rfl, rfl⟩ := h h₁
    exact hmore hmore₁
  | done hnext => exact absurd (congrArg some hlevel) hnext

private theorem instanceOf (htype : TypeDescent letters .type ts t mid)
    (hmore : Settles letters (.more .relation (.instanceOf a t)) mid e rest) :
    Settles letters (.more .relation a) (.word "instanceof" :: ts) e rest := by
  intro e' rest' h'
  cases h' with
  | instanceOf htype₁ hmore₁ =>
    obtain ⟨rfl, rfl⟩ := htype.unique htype₁
    exact hmore hmore₁
  | done hnext => exact absurd rfl hnext

/-- Where no operator of the level follows, an expression of the level ends. -/
theorem done (hnext : ts.head?.bind levelOf? ≠ some level) :
    Settles letters (.more level a) ts a ts := by
  intro e' rest' h'
  cases h' with
  | operator hlevel _ _ _ => exact absurd (congrArg some hlevel) hnext
  | done _ => exact ⟨rfl, rfl⟩
  | _ => exact absurd rfl hnext

private theorem cond (htest : Settles letters (.expr .or) ts a (.question :: us))
    (hyes : Settles letters (.expr .cond) us b (.colon :: vs))
    (hno : Settles letters (.expr .cond) vs c rest) :
    Settles letters (.expr .cond) ts (.cond a b c) rest := by
  intro e' rest' h'
  cases h' with
  | operand hlevel _ _ _ => simp [operatorLevels] at hlevel
  | cond htest₁ hyes₁ hno₁ =>
    obtain ⟨rfl, heq⟩ := htest htest₁
    obtain rfl := (List.cons.inj heq).2
    obtain ⟨rfl, heq⟩ := hyes hyes₁
    obtain rfl := (List.cons.inj heq).2
    obtain ⟨rfl, rfl⟩ := hno hno₁
    exact ⟨rfl, rfl⟩
  | noCond h₁ hnext =>
    obtain ⟨-, rfl⟩ := htest h₁
    exact absurd rfl hnext

private theorem noCond (h : Settles letters (.expr .or) ts a rest)
    (hnext : rest.head? ≠ some .question) :
    Settles letters (.expr .cond) ts a rest := by
  intro e' rest' h'
  cases h' with
  | operand hlevel _ _ _ => simp [operatorLevels] at hlevel
  | cond htest₁ _ _ =>
    obtain ⟨-, rfl⟩ := h htest₁
    exact absurd rfl hnext
  | noCond h₁ _ => exact h h₁

/-! ### What is unary -/

private theorem not (h : Settles letters (.expr .unary) ts e rest) :
    Settles letters (.expr .unary) (.bang :: ts) (.not e) rest := by
  intro e' rest' h'
  cases h' with
  | operand hlevel _ _ _ => simp [operatorLevels] at hlevel
  | not h₁ =>
    obtain ⟨rfl, rfl⟩ := h h₁
    exact ⟨rfl, rfl⟩
  | plain hbang _ _ => exact absurd rfl hbang

private theorem cast (hcast : IsCast letters (.openParen :: ts))
    (htype : TypeDescent letters .type ts t (.closeParen :: mid))
    (h : Settles letters (.expr .unary) mid e rest) :
    Settles letters (.expr .unary) (.openParen :: ts) (.cast t e) rest := by
  intro e' rest' h'
  cases h' with
  | operand hlevel _ _ _ => simp [operatorLevels] at hlevel
  | cast _ htype₁ h₁ =>
    obtain ⟨rfl, heq⟩ := htype.unique htype₁
    obtain rfl := (List.cons.inj heq).2
    obtain ⟨rfl, rfl⟩ := h h₁
    exact ⟨rfl, rfl⟩
  | plain _ hplain _ => exact absurd hcast hplain

/-- What starts neither with a sign nor with a cast is unary only as a primary. -/
theorem plain (hbang : ts.head? ≠ some .bang) (hcast : ¬IsCast letters ts)
    (h : Settles letters (.expr .primary) ts e rest) :
    Settles letters (.expr .unary) ts e rest := by
  intro e' rest' h'
  cases h' with
  | operand hlevel _ _ _ => simp [operatorLevels] at hlevel
  | not _ => exact absurd rfl hbang
  | cast hcast₁ _ _ => exact absurd hcast₁ hcast
  | plain _ _ h₁ => exact h h₁

/-! ### Primaries and selections from them -/

private theorem atom {token : Token} (hatom : IsAtom letters token a)
    (hnext : ts.head? ≠ some .openParen)
    (hmore : Settles letters (.more .primary a) ts e rest) :
    Settles letters (.expr .primary) (token :: ts) e rest := by
  intro e' rest' h'
  cases h' with
  | operand hlevel _ _ _ => simp [operatorLevels] at hlevel
  | atom hatom₁ _ hmore₁ =>
    obtain rfl := hatom.unique hatom₁
    exact hmore hmore₁
  | paren _ _ => exact absurd rfl hatom.ne_openParen
  | call _ _ => exact absurd rfl hnext
  | newObject _ _ _ => exact absurd rfl hatom.ne_new

private theorem paren (h : Settles letters (.expr .cond) ts a (.closeParen :: mid))
    (hmore : Settles letters (.more .primary a) mid e rest) :
    Settles letters (.expr .primary) (.openParen :: ts) e rest := by
  intro e' rest' h'
  cases h' with
  | operand hlevel _ _ _ => simp [operatorLevels] at hlevel
  | atom hatom _ _ => exact absurd rfl hatom.ne_openParen
  | paren h₁ hmore₁ =>
    obtain ⟨rfl, heq⟩ := h h₁
    obtain rfl := (List.cons.inj heq).2
    exact hmore hmore₁

private theorem call {method : String} (hargs : Settles letters (.args (.call method)) ts a mid)
    (hmore : Settles letters (.more .primary a) mid e rest) :
    Settles letters (.expr .primary) (.word method :: .openParen :: ts) e rest := by
  intro e' rest' h'
  cases h' with
  | operand hlevel _ _ _ => simp [operatorLevels] at hlevel
  | atom _ hnext _ => exact absurd rfl hnext
  | call hargs₁ hmore₁ =>
    obtain ⟨rfl, rfl⟩ := hargs hargs₁
    exact hmore hmore₁
  | newObject htype _ _ => cases htype

private theorem newObject (htype : TypeDescent letters .type ts t (.openParen :: us))
    (hargs : Settles letters (.args (.newObject t)) us a mid)
    (hmore : Settles letters (.more .primary a) mid e rest) :
    Settles letters (.expr .primary) (.word "new" :: ts) e rest := by
  intro e' rest' h'
  cases h' with
  | operand hlevel _ _ _ => simp [operatorLevels] at hlevel
  | atom hatom _ _ => exact absurd rfl hatom.ne_new
  | call _ _ => cases htype
  | newObject htype₁ hargs₁ hmore₁ =>
    obtain ⟨rfl, heq⟩ := htype.unique htype₁
    obtain rfl := (List.cons.inj heq).2
    obtain ⟨rfl, rfl⟩ := hargs hargs₁
    exact hmore hmore₁

private theorem field {name : String} (hnext : ts.head? ≠ some .openParen)
    (hmore : Settles letters (.more .primary (.field a name)) ts e rest) :
    Settles letters (.more .primary a) (.dot :: .word name :: ts) e rest := by
  intro e' rest' h'
  cases h' with
  | field _ hmore₁ => exact hmore hmore₁
  | invoke _ _ => exact absurd rfl hnext
  | done hend => exact absurd rfl hend

private theorem invoke {method : String}
    (hargs : Settles letters (.args (.invoke a method)) ts b mid)
    (hmore : Settles letters (.more .primary b) mid e rest) :
    Settles letters (.more .primary a) (.dot :: .word method :: .openParen :: ts) e rest := by
  intro e' rest' h'
  cases h' with
  | field hnext _ => exact absurd rfl hnext
  | invoke hargs₁ hmore₁ =>
    obtain ⟨rfl, rfl⟩ := hargs hargs₁
    exact hmore hmore₁
  | done hend => exact absurd rfl hend

/-! ### Arguments -/

private theorem noArgs : Settles letters (.args build) (.closeParen :: ts) (build []) ts := by
  intro e' rest' h'
  cases h' with
  | noArgs => exact ⟨rfl, rfl⟩
  | firstArg hnext _ _ => exact absurd rfl hnext

private theorem firstArg (hnext : ts.head? ≠ some .closeParen)
    (h : Settles letters (.expr .cond) ts a mid)
    (hmore : Settles letters (.moreArgs build [a]) mid e rest) :
    Settles letters (.args build) ts e rest := by
  intro e' rest' h'
  cases h' with
  | noArgs => exact absurd rfl hnext
  | firstArg _ h₁ hmore₁ =>
    obtain ⟨rfl, rfl⟩ := h h₁
    exact hmore hmore₁

private theorem nextArg (h : Settles letters (.expr .cond) ts a mid)
    (hmore : Settles letters (.moreArgs build (known ++ [a])) mid e rest) :
    Settles letters (.moreArgs build known) (.comma :: ts) e rest := by
  intro e' rest' h'
  cases h' with
  | nextArg h₁ hmore₁ =>
    obtain ⟨rfl, rfl⟩ := h h₁
    exact hmore hmore₁

private theorem lastArg :
    Settles letters (.moreArgs build known) (.closeParen :: ts) (build known) ts := by
  intro e' rest' h'
  cases h' with
  | lastArg => exact ⟨rfl, rfl⟩

end Settles

private theorem Descent.settles {goal : Goal} {ts rest : List Token} {e : Expr}
    (h : Descent letters goal ts e rest) : Settles letters goal ts e rest := by
  induction h with
  | operand hlevel htighter _ _ ih ihmore => exact .operand hlevel htighter ih ihmore
  | operator hlevel htighter _ _ ih ihmore => exact .operator hlevel htighter ih ihmore
  | instanceOf htype _ ihmore => exact .instanceOf htype ihmore
  | field hnext _ ihmore => exact .field hnext ihmore
  | invoke _ _ ihargs ihmore => exact .invoke ihargs ihmore
  | done hnext => exact .done hnext
  | cond _ _ _ ihtest ihyes ihno => exact .cond ihtest ihyes ihno
  | noCond _ hnext ih => exact .noCond ih hnext
  | not _ ih => exact .not ih
  | cast hcast htype _ ih => exact .cast hcast htype ih
  | plain hbang hcast _ ih => exact .plain hbang hcast ih
  | atom hatom hnext _ ihmore => exact .atom hatom hnext ihmore
  | paren _ _ ih ihmore => exact .paren ih ihmore
  | call _ _ ihargs ihmore => exact .call ihargs ihmore
  | newObject htype _ _ ihargs ihmore => exact .newObject htype ihargs ihmore
  | noArgs => exact .noArgs
  | firstArg hnext _ _ ih ihmore => exact .firstArg hnext ih ihmore
  | nextArg _ _ ih ihmore => exact .nextArg ih ihmore
  | lastArg => exact .lastArg

/-- Reading from the left gives at most one expression. -/
theorem Descent.unique {goal : Goal} {ts rest rest' : List Token} {e e' : Expr}
    (h : Descent letters goal ts e rest) (h' : Descent letters goal ts e' rest') :
    e = e' ∧ rest = rest' :=
  h.settles h'

end BeanSynthesis.Java
