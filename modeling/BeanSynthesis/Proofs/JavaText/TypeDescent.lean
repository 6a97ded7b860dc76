import BeanSynthesis.Proofs.JavaText.Grammar

/-!
# Types are read in one way

Reading a type from left to right, where the next token decides what to do. What the grammar allows
is found so, and what is found so is determined by the tokens; so tokens stand for at
most one type.
-/

namespace BeanSynthesis.Java

variable {letters : Letters}

/-- A reserved word is no identifier. -/
theorem Letters.IsName.ne {name word : String} (h : letters.IsName name)
    (hword : word ∈ reservedWords) : name ≠ word := by
  rintro rfl
  exact h.2 hword

/-- The word is a type by itself. -/
inductive IsKeywordType : String → TypeExpr → Prop where
  | void : IsKeywordType "void" .void
  | primitive (p : Primitive) : IsKeywordType p.keyword (.primitive p)

/-- The keyword of a type is a reserved word. -/
theorem IsKeywordType.mem_reservedWords {word : String} {t : TypeExpr} (h : IsKeywordType word t) :
    word ∈ reservedWords := by
  cases h with
  | void => decide
  | primitive p => cases p <;> decide

private theorem IsKeywordType.unique {word : String} {t u : TypeExpr} (ht : IsKeywordType word t)
    (hu : IsKeywordType word u) : t = u := by
  have hnone : Primitive.ofKeyword? "void" = none := by decide
  cases ht with
  | void =>
    generalize hword : "void" = word at hu
    cases hu with
    | void => rfl
    | primitive p => simp [hword, Primitive.ofKeyword?_keyword] at hnone
  | primitive p =>
    generalize hword : p.keyword = word at hu
    have hp : Primitive.ofKeyword? word = some p := hword ▸ Primitive.ofKeyword?_keyword p
    cases hu with
    | void => simp [hp] at hnone
    | primitive q =>
      rw [Primitive.ofKeyword?_keyword] at hp
      rw [Option.some.inj hp]

/-- What is to be read of a type: all of it, the rest of a dotted name, the brackets that may
follow, or the rest of the type arguments. -/
inductive TypeGoal where
  | type
  | name (parts : List String)
  | suffix (t : TypeExpr)
  | args (name : String) (args : List TypeExpr)

variable (letters) in
/-- Reading a type from the left: a goal, the tokens, the type and the tokens after it. -/
inductive TypeDescent : TypeGoal → List Token → TypeExpr → List Token → Prop where
  | keyword {word : String} {k t : TypeExpr} {ts rest : List Token} (hword : IsKeywordType word k)
    (h : TypeDescent (.suffix k) ts t rest) : TypeDescent .type (.word word :: ts) t rest
  | name {word : String} {t : TypeExpr} {ts rest : List Token} (hword : letters.IsName word)
    (h : TypeDescent (.name [word]) ts t rest) : TypeDescent .type (.word word :: ts) t rest
  | unbounded {ts : List Token} (hnext : ts.head? ≠ some (.word "extends")) :
    TypeDescent .type (.question :: ts) .unbounded ts
  | bounded {t : TypeExpr} {ts rest : List Token} (h : TypeDescent .type ts t rest) :
    TypeDescent .type (.question :: .word "extends" :: ts) (.bounded t) rest
  | dot {parts : List String} {word : String} {t : TypeExpr} {ts rest : List Token}
    (hword : letters.IsName word) (h : TypeDescent (.name (parts ++ [word])) ts t rest) :
    TypeDescent (.name parts) (.dot :: .word word :: ts) t rest
  | generic {parts : List String} {t : TypeExpr} {ts rest : List Token}
    (h : TypeDescent (.args (".".intercalate parts) []) ts t rest) :
    TypeDescent (.name parts) (.openAngle :: ts) t rest
  | plain {parts : List String} {t : TypeExpr} {ts rest : List Token}
    (hnext : ts.head? ∉ [some .dot, some .openAngle])
    (h : TypeDescent (.suffix (.named (".".intercalate parts) [])) ts t rest) :
    TypeDescent (.name parts) ts t rest
  | brackets {k t : TypeExpr} {ts rest : List Token}
    (h : TypeDescent (.suffix (.array k)) ts t rest) :
    TypeDescent (.suffix k) (.openBracket :: .closeBracket :: ts) t rest
  | done {k : TypeExpr} {ts : List Token} (hnext : ts.head? ≠ some .openBracket) :
    TypeDescent (.suffix k) ts k ts
  | next {name : String} {args : List TypeExpr} {arg t : TypeExpr} {ts mid rest : List Token}
    (harg : TypeDescent .type ts arg (.comma :: mid))
    (h : TypeDescent (.args name (args ++ [arg])) mid t rest) :
    TypeDescent (.args name args) ts t rest
  | last {name : String} {args : List TypeExpr} {arg t : TypeExpr} {ts mid rest : List Token}
    (harg : TypeDescent .type ts arg (.closeAngle :: mid))
    (h : TypeDescent (.suffix (.named name (args ++ [arg]))) mid t rest) :
    TypeDescent (.args name args) ts t rest

/-- Reading from the left gives at most one type. -/
theorem TypeDescent.unique {goal : TypeGoal} {ts rest rest' : List Token} {t u : TypeExpr}
    (ht : TypeDescent letters goal ts t rest) (hu : TypeDescent letters goal ts u rest') :
    t = u ∧ rest = rest' := by
  induction ht generalizing u rest' with
  | keyword hword _ ih =>
    cases hu with
    | keyword hword' h' =>
      obtain rfl := hword.unique hword'
      exact ih h'
    | name hword' _ => exact absurd hword.mem_reservedWords hword'.2
  | name hword _ ih =>
    cases hu with
    | keyword hword' _ => exact absurd hword'.mem_reservedWords hword.2
    | name _ h' => exact ih h'
  | unbounded hnext =>
    cases hu with
    | unbounded _ => exact ⟨rfl, rfl⟩
    | bounded _ => exact absurd rfl hnext
  | bounded _ ih =>
    cases hu with
    | unbounded hnext => exact absurd rfl hnext
    | bounded h' =>
      obtain ⟨rfl, rfl⟩ := ih h'
      exact ⟨rfl, rfl⟩
  | dot _ _ ih =>
    cases hu with
    | dot _ h' => exact ih h'
    | plain hnext _ => simp at hnext
  | generic _ ih =>
    cases hu with
    | generic h' => exact ih h'
    | plain hnext _ => simp at hnext
  | plain hnext _ ih =>
    cases hu with
    | dot _ _ => simp at hnext
    | generic _ => simp at hnext
    | plain _ h' => exact ih h'
  | brackets _ ih =>
    cases hu with
    | brackets h' => exact ih h'
    | done hnext => exact absurd rfl hnext
  | done hnext =>
    cases hu with
    | brackets _ => exact absurd rfl hnext
    | done _ => exact ⟨rfl, rfl⟩
  | next _ _ iharg ih =>
    cases hu with
    | next harg' h' =>
      obtain ⟨rfl, heq⟩ := iharg harg'
      obtain rfl := (List.cons.inj heq).2
      exact ih h'
    | last harg' _ =>
      have heq := (iharg harg').2
      cases (List.cons.inj heq).1
  | last _ _ iharg ih =>
    cases hu with
    | next harg' _ =>
      have heq := (iharg harg').2
      cases (List.cons.inj heq).1
    | last harg' h' =>
      obtain ⟨rfl, heq⟩ := iharg harg'
      obtain rfl := (List.cons.inj heq).2
      exact ih h'

/-- No type goes on so. -/
def EndsType (ts : List Token) : Prop :=
  ts.head? ∉ [some .dot, some .openAngle, some .openBracket, some (.word "extends")]

private theorem EndsType.done {k : TypeExpr} {rest : List Token} (h : EndsType rest) :
    TypeDescent letters (.suffix k) rest k rest := by
  refine .done fun hnext => h ?_
  rw [hnext]
  decide

private theorem TypeDescent.ofParts {parts others : List String} {rest fin : List Token}
    {t : TypeExpr}
    (hothers : ∀ part ∈ others, letters.IsName part)
    (h : TypeDescent letters (.name (parts ++ others)) rest t fin) :
    TypeDescent letters (.name parts)
      ((others.flatMap fun part => [Token.dot, .word part]) ++ rest) t fin := by
  induction others generalizing parts with
  | nil => simpa using h
  | cons part others ih =>
    obtain ⟨hpart, hothers⟩ := List.forall_mem_cons.mp hothers
    have hrest : TypeDescent letters (.name (parts ++ [part] ++ others)) rest t fin := by
      simpa using h
    exact .dot hpart (ih hothers hrest)

/-- A dotted name is read from its first part on. -/
theorem TypeDescent.ofDotted {parts : List String} {rest fin : List Token} {t : TypeExpr}
    (hne : parts ≠ []) (hparts : ∀ part ∈ parts, letters.IsName part)
    (h : TypeDescent letters (.name parts) rest t fin) :
    TypeDescent letters .type (dotted parts ++ rest) t fin := by
  cases parts with
  | nil => exact absurd rfl hne
  | cons part others =>
    obtain ⟨hpart, hothers⟩ := List.forall_mem_cons.mp hparts
    exact .name hpart (.ofParts hothers h)

private theorem separated_cons_cons (a b : List Token) (rest : List (List Token)) :
    separated (a :: b :: rest) = a ++ .comma :: separated (b :: rest) := by
  simp [separated]

/-- Type arguments are read one after the other. -/
theorem TypeDescent.ofArgs {name : String} {known : List TypeExpr}
    {args : List (List Token × TypeExpr)} {rest fin : List Token} {t : TypeExpr} (hne : args ≠ [])
    (hargs : ∀ arg ∈ args, ∀ rest, EndsType rest →
      TypeDescent letters .type (arg.1 ++ rest) arg.2 rest)
    (h : TypeDescent letters (.suffix (.named name (known ++ args.map (·.2)))) rest t fin) :
    TypeDescent letters (.args name known)
      (separated (args.map (·.1)) ++ .closeAngle :: rest) t fin := by
  induction args generalizing known with
  | nil => exact absurd rfl hne
  | cons arg others ih =>
    obtain ⟨harg, hothers⟩ := List.forall_mem_cons.mp hargs
    cases others with
    | nil =>
      have hfirst := harg (.closeAngle :: rest) (by simp [EndsType])
      have hlast : TypeDescent letters (.suffix (.named name (known ++ [arg.2]))) rest t fin := by
        simpa using h
      simpa [separated] using TypeDescent.last hfirst hlast
    | cons second others =>
      have hrest : TypeDescent letters (.args name (known ++ [arg.2]))
          (separated ((second :: others).map (·.1)) ++ .closeAngle :: rest) t fin :=
        ih (by simp) hothers (by simpa using h)
      have hfirst := harg (.comma :: (separated ((second :: others).map (·.1)) ++
        .closeAngle :: rest)) (by simp [EndsType])
      rw [List.map_cons, List.map_cons, separated_cons_cons, List.append_assoc, List.cons_append]
      exact .next hfirst hrest

/-- The tokens are found to stand for the type. After a type that is no wildcard there may be
brackets, which then belong to a larger type. -/
structure TypeFound (letters : Letters) (ts : List Token) (t : TypeExpr) : Prop where
  plain : t.isWildcard = false → ∀ {rest fin out}, rest.head? ∉ [some .dot, some .openAngle] →
    TypeDescent letters (.suffix t) rest out fin → TypeDescent letters .type (ts ++ rest) out fin
  wildcard : t.isWildcard = true → ∀ {rest}, EndsType rest →
    TypeDescent letters .type (ts ++ rest) t rest

private theorem TypeFound.descent {ts rest : List Token} {t : TypeExpr} (h : TypeFound letters ts t)
    (hends : EndsType rest) : TypeDescent letters .type (ts ++ rest) t rest := by
  cases hwildcard : t.isWildcard with
  | true => exact h.wildcard hwildcard hends
  | false =>
    refine h.plain hwildcard (fun hmem => hends ?_) hends.done
    exact List.mem_append_left [some .openBracket, some (.word "extends")] hmem

/-- What the grammar allows is found. -/
theorem ReadsType.found {ts : List Token} {t : TypeExpr} (h : ReadsType letters ts t) :
    TypeFound letters ts t := by
  induction h with
  | void => exact ⟨fun _ _ _ _ _ hrest => .keyword .void hrest, nofun⟩
  | primitive p => exact ⟨fun _ _ _ _ _ hrest => .keyword (.primitive p) hrest, nofun⟩
  | named hne hnames =>
    exact ⟨fun _ _ _ _ hnext hrest => .ofDotted hne hnames (.plain hnext hrest), nofun⟩
  | @generic parts args hne hnames hargs _ ih =>
    refine ⟨fun _ rest fin out hnext hrest => ?_, nofun⟩
    have hread : TypeDescent letters (.args (".".intercalate parts) [])
        (separated (args.map (·.1)) ++ .closeAngle :: rest) out fin :=
      .ofArgs hargs (fun arg harg _ hends => (ih arg harg).descent hends) hrest
    have htokens : dotted parts ++ inAngles (args.map (·.1)) ++ rest =
        dotted parts ++ .openAngle :: (separated (args.map (·.1)) ++ .closeAngle :: rest) := by
      simp [inAngles]
    rw [htokens]
    exact .ofDotted hne hnames (.generic hread)
  | array _ hwildcard ih =>
    refine ⟨fun _ rest fin out _ hrest => ?_, nofun⟩
    have hread := ih.plain hwildcard (by simp) (.brackets hrest)
    simpa using hread
  | unbounded =>
    refine ⟨nofun, fun _ rest hends => .unbounded fun hnext => hends ?_⟩
    have hhead : rest.head? = some (.word "extends") := hnext
    rw [hhead]
    decide
  | bounded _ ih => exact ⟨nofun, fun _ _ hends => .bounded (ih.descent hends)⟩

/-- Tokens that may stand for a type are found to, where the type ends. -/
theorem ReadsType.descent {ts rest : List Token} {t : TypeExpr} (h : ReadsType letters ts t)
    (hends : EndsType rest) : TypeDescent letters .type (ts ++ rest) t rest :=
  h.found.descent hends

end BeanSynthesis.Java
