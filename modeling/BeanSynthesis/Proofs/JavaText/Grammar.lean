import BeanSynthesis.Proofs.JavaText.Tokens
import BeanSynthesis.Proofs.TypeText.Grammar
import BeanSynthesis.Source.Expression

/-!
# The grammar of expressions

Java's grammar for types and for the expressions that bodies are made of. Selections and calls stand
on primaries, `!` and casts before what is unary; operators associate to the left, subtraction
above `instanceof` above equality above `&&` above `||`, and the conditional associates to the
right. The grammar says what a text may stand for, not how to find it.
-/

namespace BeanSynthesis.Java

open Source (Level opLevel)

variable (letters : Letters)

/-- A dotted name. -/
def dotted : List String → List Token
  | [] => []
  | part :: parts => .word part :: parts.flatMap fun part => [.dot, .word part]

/-- Lists of tokens with commas between them. -/
def separated : List (List Token) → List Token
  | [] => []
  | first :: rest => first ++ rest.flatMap (.comma :: ·)

/-- Arguments in parentheses. -/
def inParens (args : List (List Token)) : List Token :=
  .openParen :: separated args ++ [.closeParen]

/-- Type arguments in angle brackets. -/
def inAngles (args : List (List Token)) : List Token :=
  .openAngle :: separated args ++ [.closeAngle]

/-- The tokens may stand for the type. A wildcard is no element of an array. -/
inductive ReadsType : List Token → TypeExpr → Prop where
  | void : ReadsType [.word "void"] .void
  | primitive (p : Primitive) : ReadsType [.word p.keyword] (.primitive p)
  | named {parts : List String} (hne : parts ≠ []) (hparts : ∀ part ∈ parts, letters.IsName part) :
    ReadsType (dotted parts) (.named (".".intercalate parts) [])
  | generic {parts : List String} {args : List (List Token × TypeExpr)} (hne : parts ≠ [])
    (hparts : ∀ part ∈ parts, letters.IsName part) (hargs : args ≠ [])
    (hreads : ∀ arg ∈ args, ReadsType arg.1 arg.2) :
    ReadsType (dotted parts ++ inAngles (args.map (·.1)))
      (.named (".".intercalate parts) (args.map (·.2)))
  | array {ts : List Token} {t : TypeExpr} (helement : ReadsType ts t)
    (hwildcard : t.isWildcard = false) : ReadsType (ts ++ [.openBracket, .closeBracket]) (.array t)
  | unbounded : ReadsType [.question] .unbounded
  | bounded {ts : List Token} {t : TypeExpr} (hbound : ReadsType ts t) :
    ReadsType (.question :: .word "extends" :: ts) (.bounded t)

/-- The expression that a reserved word is. -/
def keywordExpr? : String → Option Expr
  | "this" => some .thisRef
  | "super" => some .superRef
  | "null" => some .nullLit
  | "true" => some (.boolLit true)
  | "false" => some (.boolLit false)
  | _ => none

/-- The token by itself is an expression. -/
inductive IsAtom : Token → Expr → Prop where
  | keyword {word : String} {e : Expr} (h : keywordExpr? word = some e) : IsAtom (.word word) e
  | number (n : Nat) : IsAtom (.number (Nat.repr n)) (.intLit n)
  | string (value : String) : IsAtom (.string value) (.strLit value)
  | name {name : String} (h : letters.IsName name) : IsAtom (.word name) (.ident name)

/-- The tokens may stand for the expression where one of this level is expected. -/
inductive Reads : Level → List Token → Expr → Prop where
  | atom {token : Token} {e : Expr} (h : IsAtom letters token e) : Reads .primary [token] e
  | paren {ts : List Token} {e : Expr} (h : Reads .cond ts e) :
    Reads .primary (.openParen :: ts ++ [.closeParen]) e
  | field {ts : List Token} {target : Expr} {name : String} (htarget : Reads .primary ts target)
    (hname : letters.IsName name) : Reads .primary (ts ++ [.dot, .word name]) (.field target name)
  | call {method : String} {args : List (List Token × Expr)} (hmethod : letters.IsName method)
    (hargs : ∀ arg ∈ args, Reads .cond arg.1 arg.2) :
    Reads .primary (.word method :: inParens (args.map (·.1))) (.call method (args.map (·.2)))
  | invoke {ts : List Token} {target : Expr} {method : String} {args : List (List Token × Expr)}
    (htarget : Reads .primary ts target) (hmethod : letters.IsName method)
    (hargs : ∀ arg ∈ args, Reads .cond arg.1 arg.2) :
    Reads .primary (ts ++ .dot :: .word method :: inParens (args.map (·.1)))
      (.invoke target method (args.map (·.2)))
  | newObject {ts : List Token} {name : String} {typeArgs : List TypeExpr}
    {args : List (List Token × Expr)} (htype : ReadsType letters ts (.named name typeArgs))
    (hargs : ∀ arg ∈ args, Reads .cond arg.1 arg.2) :
    Reads .primary (.word "new" :: ts ++ inParens (args.map (·.1)))
      (.newObject (.named name typeArgs) (args.map (·.2)))
  | not {ts : List Token} {e : Expr} (h : Reads .unary ts e) : Reads .unary (.bang :: ts) (.not e)
  | cast {ts us : List Token} {t : TypeExpr} {e : Expr} (htype : ReadsType letters ts t)
    (hwildcard : t.isWildcard = false) (h : Reads .unary us e) :
    Reads .unary (.openParen :: ts ++ .closeParen :: us) (.cast t e)
  | binary {op : BinaryOp} {tighter : Level} {ts us : List Token} {lhs rhs : Expr}
    (htighter : (opLevel op).rank + 1 = tighter.rank) (hlhs : Reads (opLevel op) ts lhs)
    (hrhs : Reads tighter us rhs) :
    Reads (opLevel op) (ts ++ .operator op :: us) (.binary op lhs rhs)
  | instanceOf {ts us : List Token} {e : Expr} {t : TypeExpr} (h : Reads .relation ts e)
    (htype : ReadsType letters us t) (hwildcard : t.isWildcard = false) :
    Reads .relation (ts ++ .word "instanceof" :: us) (.instanceOf e t)
  | cond {ts us vs : List Token} {test yes no : Expr} (htest : Reads .or ts test)
    (hyes : Reads .cond us yes) (hno : Reads .cond vs no) :
    Reads .cond (ts ++ .question :: us ++ .colon :: vs) (.cond test yes no)
  /-- What binds tighter may stand in every place. -/
  | tighter {level tighter : Level} {ts : List Token} {e : Expr}
    (hrank : level.rank + 1 = tighter.rank) (h : Reads tighter ts e) : Reads level ts e

/-- The text may stand for the expression. -/
def ReadsText (text : String) (e : Expr) : Prop :=
  ∃ ts, letters.tokens? text.toList = some ts ∧ Reads letters .cond ts e

end BeanSynthesis.Java
