import BeanSynthesis.Proofs.TypeText.Grammar

/-!
# Reading written types

A text reads as a type exactly if it is a written form of the type, and the type is well-formed.
Reading is looked at without the bounds on what it leaves: what is read from the start of a text,
and the characters after it. White space that follows a type may be left or taken.
-/

namespace BeanSynthesis.TypeExpr

open Text (skipBlank isBlank afterStart?)

variable {t : TypeExpr} {s m rest : List Char}

/-! ## One step of reading -/

/-- A type in as many arrays as there are brackets, and what follows them. -/
def wrapAt (t : TypeExpr) (s : List Char) : TypeExpr × List Char :=
  ((readBrackets t s).1, (readBrackets t s).2.1)

/-- The type that a text starts with, and what follows it. -/
def typeAt (s : List Char) : Except Stuck (TypeExpr × List Char) :=
  (readType s).map fun r => (r.1, r.2.1)

/-- The type arguments that a text starts with, and what follows the closing bracket. -/
def argsAt (s : List Char) : Except Stuck (List TypeExpr × List Char) :=
  (readArgs s).map fun r => (r.1, r.2.1)

/-- The class type that starts with a name, and what follows it. -/
def afterClass (name : String) (s : List Char) : Except Stuck (TypeExpr × List Char) :=
  match skipBlank s with
  | '<' :: rest => (argsAt rest).map fun r => wrapAt (named name r.1) r.2
  | _ => .ok (wrapAt (named name []) s)

/-- The type that starts with a name, and what follows it. -/
def afterName (name : String) (s : List Char) : Except Stuck (TypeExpr × List Char) :=
  if name = "void" then .ok (wrapAt void s)
  else
    match Primitive.ofKeyword? name with
    | some p => .ok (wrapAt (primitive p) s)
    | none => afterClass name s

/-- Type arguments that start with `arg`, and what follows the closing bracket. -/
def afterArg (arg : TypeExpr) (s : List Char) : Except Stuck (List TypeExpr × List Char) :=
  match skipBlank s with
  | ',' :: rest => (argsAt rest).map fun r => (arg :: r.1, r.2)
  | '>' :: rest => .ok ([arg], rest)
  | rest => .error ⟨.expectedSeparator, rest⟩

/-- Behind brackets the type is an array. -/
theorem wrapAt_brackets (h : skipBlank s = '[' :: ']' :: rest) :
    wrapAt t s = wrapAt (array t) rest := by
  unfold wrapAt
  rw [readBrackets]
  split
  case h_1 rest' h' =>
    obtain rfl := (List.cons.inj (List.cons.inj (h.symm.trans h')).2).2
    rfl
  case h_2 hnot => exact absurd h (hnot rest)

/-- Without brackets the type ends. -/
theorem wrapAt_stop (h : ∀ rest, skipBlank s ≠ '[' :: ']' :: rest) :
    wrapAt t s = (t, skipBlank s) := by
  unfold wrapAt
  rw [readBrackets]
  split
  case h_1 rest h' => exact absurd h' (h rest)
  case h_2 => rfl

/-- White space before brackets does not matter. -/
theorem wrapAt_skipBlank (t : TypeExpr) (s : List Char) : wrapAt t (skipBlank s) = wrapAt t s := by
  by_cases h : ∃ rest, skipBlank s = '[' :: ']' :: rest
  · obtain ⟨rest, h⟩ := h
    rw [wrapAt_brackets h, wrapAt_brackets ((Text.skipBlank_skipBlank s).trans h)]
  · have hnot : ∀ rest, skipBlank s ≠ '[' :: ']' :: rest := fun rest hrest => h ⟨rest, hrest⟩
    rw [wrapAt_stop hnot, wrapAt_stop (by simpa using hnot), Text.skipBlank_skipBlank]

/-- A wildcard with a bound is read with the type behind it. -/
theorem typeAt_bounded (h : skipBlank s = '?' :: m)
    (hbound : afterStart? boundToken (skipBlank m) = some rest) :
    typeAt s = (typeAt rest).map fun r => (bounded r.1, r.2) := by
  unfold typeAt
  rw [readType]
  split
  case h_1 m' h' =>
    obtain rfl := (List.cons.inj (h.symm.trans h')).2
    split
    case h_1 rest' hbound' =>
      obtain rfl := Option.some.inj (hbound.symm.trans hbound')
      cases readType rest <;> rfl
    case h_2 hnone => simp [hnone] at hbound
  case h_2 hnot => exact absurd h (hnot m)

/-- A wildcard without a bound ends there. -/
theorem typeAt_unbounded (h : skipBlank s = '?' :: m)
    (hbound : afterStart? boundToken (skipBlank m) = none) : typeAt s = .ok (unbounded, m) := by
  unfold typeAt
  rw [readType]
  split
  case h_1 m' h' =>
    obtain rfl := (List.cons.inj (h.symm.trans h')).2
    split
    case h_1 rest' hbound' => simp [hbound'] at hbound
    case h_2 => rfl
  case h_2 hnot => exact absurd h (hnot m)

/-- What starts with no name is no type. -/
theorem typeAt_noName (h : ∀ rest, skipBlank s ≠ '?' :: rest)
    (hname : (skipBlank s).takeWhile isNameChar = []) :
    typeAt s = .error ⟨.expectedName, skipBlank s⟩ := by
  unfold typeAt
  rw [readType]
  split
  case h_1 rest hq => exact absurd hq (h rest)
  case h_2 =>
    split
    case h_1 => rfl
    case h_2 hname' =>
      rw [hname] at hname'
      cases hname'

/-- A name is read as far as it goes. -/
theorem typeAt_name (h : ∀ rest, skipBlank s ≠ '?' :: rest)
    (hname : (skipBlank s).takeWhile isNameChar ≠ []) :
    typeAt s = afterName (String.ofList ((skipBlank s).takeWhile isNameChar))
      ((skipBlank s).dropWhile isNameChar) := by
  unfold typeAt
  rw [readType]
  split
  case h_1 rest hq => exact absurd hq (h rest)
  case h_2 =>
    split
    case h_1 hnil => exact absurd hnil hname
    case h_2 first others hcons =>
      unfold afterName
      simp only [hcons]
      by_cases hvoid : String.ofList (first :: others) = "void"
      · rw [if_pos hvoid, if_pos hvoid]
        rfl
      · rw [if_neg hvoid, if_neg hvoid]
        cases Primitive.ofKeyword? (String.ofList (first :: others)) with
        | some p => rfl
        | none =>
          dsimp only
          unfold afterClass
          split
          case h_1 rest hopen =>
            simp only [hopen]
            unfold argsAt
            cases readArgs rest <;> rfl
          case h_2 hopen =>
            split
            case h_1 rest hopen' => exact absurd hopen' (hopen rest)
            case h_2 =>
              rw [← wrapAt_skipBlank]
              rfl

/-- A first argument that cannot be read is where the arguments get stuck. -/
theorem argsAt_of_error {stuck : Stuck} (h : typeAt s = .error stuck) :
    argsAt s = .error stuck := by
  unfold typeAt at h
  unfold argsAt
  rw [readArgs]
  cases hread : readType s with
  | error stuck' => simpa [hread, Except.map] using h
  | ok r => simp [hread, Except.map] at h

/-- After the first argument the others are read. -/
theorem argsAt_of_ok (h : typeAt s = .ok (t, m)) : argsAt s = afterArg t m := by
  unfold typeAt at h
  unfold argsAt
  rw [readArgs]
  cases hread : readType s with
  | error stuck => simp [hread, Except.map] at h
  | ok r =>
    obtain ⟨arg, rest, hlt⟩ := r
    simp only [hread, Except.map, Except.ok.injEq, Prod.mk.injEq] at h
    obtain ⟨rfl, rfl⟩ := h
    dsimp only
    unfold afterArg
    split
    case h_1 rest' h' =>
      simp only [h', argsAt]
      cases readArgs rest' <;> rfl
    case h_2 rest' h' =>
      simp only [h']
      rfl
    case h_3 hcomma hclosing =>
      split
      case h_1 rest' h' => exact absurd h' (hcomma rest')
      case h_2 rest' h' => exact absurd h' (hclosing rest')
      case h_3 => rfl

private theorem ofKeyword?_eq_some {name : String} {p : Primitive} :
    Primitive.ofKeyword? name = some p ↔ name = p.keyword := by
  constructor
  · intro h
    have hfound := List.find?_some h
    exact (beq_iff_eq.mp hfound).symm
  · rintro rfl
    exact Primitive.ofKeyword?_keyword p

private theorem afterName_of_class {name : String} (h : IsClassName name) (s : List Char) :
    afterName name s = afterClass name s := by
  have hnone : Primitive.ofKeyword? name = none :=
    Option.eq_none_iff_forall_ne_some.mpr fun p hp => h.not_keyword p (ofKeyword?_eq_some.mp hp)
  rw [afterName, if_neg h.ne_void, hnone]

/-- An opening angle is followed by arguments. -/
theorem afterClass_of_args (name : String) (h : skipBlank s = '<' :: rest) :
    afterClass name s = (argsAt rest).map fun r => wrapAt (named name r.1) r.2 := by
  simp only [afterClass, h]

/-- Without arguments a class ends with its name. -/
theorem afterClass_of_noArgs (name : String) (h : ∀ r, skipBlank s ≠ '<' :: r) :
    afterClass name s = .ok (wrapAt (named name []) s) := by
  unfold afterClass
  split
  case h_1 r hr => exact absurd hr (h r)
  case h_2 => rfl

private theorem afterArg_comma (h : skipBlank s = ',' :: rest) :
    afterArg t s = (argsAt rest).map fun r => (t :: r.1, r.2) := by
  simp only [afterArg, h]

private theorem afterArg_closing (h : skipBlank s = '>' :: rest) :
    afterArg t s = .ok ([t], rest) := by
  simp only [afterArg, h]

/-! ## What is read is a written form -/

private theorem map_eq_ok {α β : Type} {x : Except Stuck α} {f : α → β} {b : β} :
    x.map f = .ok b ↔ ∃ a, x = .ok a ∧ f a = b := by
  cases x <;> simp [Except.map]

/-- What is left after a character is shorter. -/
theorem length_lt_of_skipBlank {c : Char} (h : skipBlank s = c :: rest) :
    rest.length < s.length := by
  have hle := Text.length_skipBlank_le s
  rw [h, List.length_cons] at hle
  omega

/-- What is left after a type is shorter. -/
theorem length_lt_of_typeAt (h : typeAt s = .ok (t, rest)) : rest.length < s.length := by
  obtain ⟨⟨u, r⟩, -, heq⟩ := map_eq_ok.mp h
  obtain ⟨rfl, rfl⟩ := Prod.mk.inj heq
  exact r.2

/-- A token other than a name stands after the white space. -/
theorem Spaced.ofSkip {tokens : List Token} (token : Token) (htoken : ∀ text, token ≠ .name text)
    (hskip : skipBlank s = token.chars ++ m) (h : Spaced tokens m rest) :
    Spaced (token :: tokens) s rest :=
  (spaced_cons (Token.skipBlank_chars htoken)).mpr ⟨m, hskip, h⟩

/-- Brackets are read as the tokens of arrays. -/
theorem spaced_of_wrapAt {t u : TypeExpr} {s rest : List Char} (h : wrapAt t s = (u, rest))
    (ht : t.WellFormed) (hwild : t.isWildcard = false) :
    u.WellFormed ∧
      ∃ more m, u.tokens = t.tokens ++ more ∧ Spaced more s m ∧ skipBlank m = rest := by
  by_cases hopen : ∃ m, skipBlank s = '[' :: ']' :: m
  · obtain ⟨m, hopen⟩ := hopen
    have hlt : m.length < s.length := by
      have := length_lt_of_skipBlank hopen
      simp only [List.length_cons] at this
      omega
    have harray : (array t).WellFormed := ⟨hwild, ht⟩
    rw [wrapAt_brackets hopen] at h
    obtain ⟨hu, more, n, htokens, hmore, hrest⟩ := spaced_of_wrapAt h harray rfl
    have hbrackets : Spaced (.brackets :: more) s n := hmore.ofSkip .brackets nofun hopen
    exact ⟨hu, _, n, by rw [htokens, TypeExpr.tokens, List.append_assoc]; rfl, hbrackets, hrest⟩
  · rw [wrapAt_stop fun m hm => hopen ⟨m, hm⟩] at h
    obtain ⟨rfl, rfl⟩ := Prod.mk.inj h
    exact ⟨ht, [], s, by simp, .nil s, rfl⟩
termination_by s.length

/-- The tokens stand at the start of a text, and what follows them is `rest`, up to white space. -/
def SpelledBefore (tokens : List Token) (s rest : List Char) : Prop :=
  ∃ m, Spaced tokens s m ∧ skipBlank m = skipBlank rest

private theorem spelled_of_wrapAt {t u : TypeExpr} {s m rest : List Char} (hs : Spaced t.tokens s m)
    (h : wrapAt t m = (u, rest)) (ht : t.WellFormed) (hwild : t.isWildcard = false) :
    u.WellFormed ∧ SpelledBefore u.tokens s rest := by
  obtain ⟨hu, more, n, htokens, hmore, rfl⟩ := spaced_of_wrapAt h ht hwild
  refine ⟨hu, n, ?_, (Text.skipBlank_skipBlank n).symm⟩
  rw [htokens]
  exact spaced_append.mpr ⟨m, hs, hmore⟩

/-- Arguments stand at the start of a text, with the bracket that closes them before `rest`. -/
def ArgsBefore (ts : List TypeExpr) (s rest : List Char) : Prop :=
  ∃ arg args, ts = arg :: args ∧ AllWellFormed (arg :: args) ∧
    Spaced (arg.tokens ++ restTokens args ++ [.closing]) s rest

/-- What starts with a name is a written form, if the arguments after the name are. -/
theorem spelled_of_afterName {name : String} (hne : name ≠ "")
    (hchars : ∀ c ∈ name.toList, isNameChar c) (hs : Spaced [.name name] s m)
    (hargs : ∀ r ts r', skipBlank m = '<' :: r → argsAt r = .ok (ts, r') → ArgsBefore ts r r')
    (h : afterName name m = .ok (t, rest)) : t.WellFormed ∧ SpelledBefore t.tokens s rest := by
  unfold afterName at h
  split at h
  case isTrue hvoid =>
    subst hvoid
    exact spelled_of_wrapAt (t := void) hs (Except.ok.inj h) trivial rfl
  case isFalse hvoid =>
    split at h
    case h_1 p hp =>
      obtain rfl := ofKeyword?_eq_some.mp hp
      exact spelled_of_wrapAt (t := primitive p) hs (Except.ok.inj h) trivial rfl
    case h_2 hnone =>
      have hclass : IsClassName name := {
        ne_empty := hne
        nameChars := hchars
        ne_void := hvoid
        not_keyword := fun p hp => by simp [ofKeyword?_eq_some.mpr hp] at hnone }
      unfold afterClass at h
      split at h
      case h_1 r hopen =>
        obtain ⟨⟨ts, r'⟩, hread, hwrap⟩ := map_eq_ok.mp h
        obtain ⟨arg, args, rfl, hwf, hspaced⟩ := hargs r ts r' hopen hread
        have hopening := hspaced.ofSkip .opening (by simp) hopen
        have htokens : Spaced (named name (arg :: args)).tokens s r' := by
          simpa [TypeExpr.tokens] using spaced_append.mpr ⟨m, hs, hopening⟩
        exact spelled_of_wrapAt htokens hwrap ⟨hclass, hwf⟩ rfl
      case h_2 =>
        exact spelled_of_wrapAt (t := named name []) hs (Except.ok.inj h) ⟨hclass, trivial⟩ rfl

mutual

/-- What is read as a type is a written form of it, and the type is well-formed. -/
theorem spelled_of_typeAt (s : List Char) {t : TypeExpr} {rest : List Char}
    (h : typeAt s = .ok (t, rest)) : t.WellFormed ∧ SpelledBefore t.tokens s rest := by
  by_cases hwild : ∃ m, skipBlank s = '?' :: m
  · obtain ⟨m, hwild⟩ := hwild
    have hwildcard : ∀ tokens rest, Spaced tokens m rest → Spaced (.wildcard :: tokens) s rest :=
      fun tokens rest htokens => htokens.ofSkip .wildcard nofun hwild
    cases hbound : afterStart? boundToken (skipBlank m) with
    | none =>
      rw [typeAt_unbounded hwild hbound] at h
      obtain ⟨rfl, rfl⟩ := Prod.mk.inj (Except.ok.inj h)
      exact ⟨trivial, m, hwildcard [] m (.nil m), rfl⟩
    | some r =>
      have hlt : r.length < s.length := by
        have hm : m.length < s.length := length_lt_of_skipBlank hwild
        have := Text.length_skipBlank_le m
        have := Text.length_of_afterStart? hbound
        omega
      rw [typeAt_bounded hwild hbound, map_eq_ok] at h
      obtain ⟨⟨bound, rest'⟩, hread, heq⟩ := h
      obtain ⟨rfl, rfl⟩ := Prod.mk.inj heq
      obtain ⟨hwf, n, hspaced, hrest⟩ := spelled_of_typeAt r hread
      have htoken : Spaced (.bound :: bound.tokens) m n :=
        hspaced.ofSkip .bound nofun (Text.eq_append_of_afterStart? hbound)
      exact ⟨hwf, n, hwildcard _ n htoken, hrest⟩
  · have hnot : ∀ m, skipBlank s ≠ '?' :: m := fun m hm => hwild ⟨m, hm⟩
    by_cases hname : (skipBlank s).takeWhile isNameChar = []
    · rw [typeAt_noName hnot hname] at h
      cases h
    · rw [typeAt_name hnot hname] at h
      have hsplit := List.takeWhile_append_dropWhile (p := isNameChar) (l := skipBlank s)
      have hchars : ∀ c ∈ (String.ofList ((skipBlank s).takeWhile isNameChar)).toList,
          isNameChar c := fun c hc => List.mem_takeWhile_imp (by simpa using hc)
      have hne : String.ofList ((skipBlank s).takeWhile isNameChar) ≠ "" := by simpa using hname
      refine spelled_of_afterName hne hchars ?_ (fun r ts r' hopen hread => ?_) h
      · refine (spaced_cons (Token.skipBlank_name hne hchars)).mpr ⟨_, ?_, .nil _⟩
        simp [Token.chars, hsplit]
      · have hlt : r.length < s.length := by
          have hlength := congrArg List.length hsplit
          have := length_lt_of_skipBlank hopen
          have := Text.length_skipBlank_le s
          simp only [List.length_append] at hlength
          omega
        exact spelled_of_argsAt r hread
termination_by (s.length, 0)

/-- What is read as type arguments is a written form of them. -/
theorem spelled_of_argsAt (s : List Char) {ts : List TypeExpr} {rest : List Char}
    (h : argsAt s = .ok (ts, rest)) : ArgsBefore ts s rest := by
  cases hread : typeAt s with
  | error stuck =>
    rw [argsAt_of_error hread] at h
    cases h
  | ok r =>
    obtain ⟨arg, m⟩ := r
    rw [argsAt_of_ok hread] at h
    obtain ⟨hwf, n, hspaced, hn⟩ := spelled_of_typeAt s hread
    unfold afterArg at h
    split at h
    case h_1 r hcomma =>
      obtain ⟨⟨ts', r'⟩, hread', heq⟩ := map_eq_ok.mp h
      obtain ⟨rfl, rfl⟩ := Prod.mk.inj heq
      have hlt : r.length < s.length := by
        have := length_lt_of_typeAt hread
        have := length_lt_of_skipBlank hcomma
        omega
      obtain ⟨arg', args', rfl, hwf', hspaced'⟩ := spelled_of_argsAt r hread'
      have hafter := hspaced'.ofSkip .comma nofun (hn.trans hcomma)
      refine ⟨arg, arg' :: args', rfl, ⟨hwf, hwf'⟩, ?_⟩
      simpa [restTokens] using spaced_append.mpr ⟨n, hspaced, hafter⟩
    case h_2 r hclosing =>
      obtain ⟨rfl, rfl⟩ := Prod.mk.inj (Except.ok.inj h)
      have hafter := (Spaced.nil r).ofSkip .closing nofun (hn.trans hclosing)
      refine ⟨arg, [], rfl, ⟨hwf, trivial⟩, ?_⟩
      simpa [restTokens] using spaced_append.mpr ⟨n, hspaced, hafter⟩
    case h_3 => cases h
termination_by (s.length, 1)

end

/-! ## A written form is read -/

/-- The text does not go on with what would belong to a name before it. -/
structure EndsName (s : List Char) : Prop where
  noNameChar : ∀ c r, s = c :: r → isNameChar c = false
  noArgs : ∀ r, skipBlank s ≠ '<' :: r

/-- The text ends, or goes on as it does after a type argument. -/
def EndsType (s : List Char) : Prop := ∀ c r, skipBlank s = c :: r → c = ',' ∨ c = '>'

/-- What stands after white space tells that a name before it is complete. -/
theorem noNameChar_of_skipBlank (h : ∀ c r, skipBlank s = c :: r → isNameChar c = false) :
    ∀ c r, s = c :: r → isNameChar c = false := by
  rintro c r rfl
  cases hblank : isBlank c with
  | false => exact h c r (Text.skipBlank_cons_of_not hblank r)
  | true =>
    by_contra hc
    rw [isBlank_of_isNameChar (by simpa using hc)] at hblank
    cases hblank

private theorem EndsType.endsName (h : EndsType s) : EndsName s where
  noNameChar := noNameChar_of_skipBlank fun c r hskip => by
    rcases h c r hskip with rfl | rfl
    · decide
    · decide
  noArgs r hr := by
    rcases h '<' r hr with h | h <;> cases h

/-- What a token other than a name leaves to be read. -/
theorem Spaced.skipBlank_eq {tokens : List Token} {token : Token}
    (h : Spaced (token :: tokens) s rest) (htoken : ∀ text, token ≠ .name text) :
    ∃ m, skipBlank s = token.chars ++ m ∧ Spaced tokens m rest :=
  (spaced_cons (Token.skipBlank_chars htoken)).mp h

private theorem Spaced.endsType {tokens : List Token} {token : Token}
    (h : Spaced (token :: tokens) s rest)
    (htoken : token = .comma ∨ token = .closing) : EndsType s := by
  intro c r hskip
  rcases htoken with rfl | rfl
  · obtain ⟨m, hm, -⟩ := h.skipBlank_eq nofun
    exact .inl (List.cons.inj (hskip.symm.trans hm)).1
  · obtain ⟨m, hm, -⟩ := h.skipBlank_eq nofun
    exact .inr (List.cons.inj (hskip.symm.trans hm)).1

private theorem EndsType.noBound (h : EndsType s) :
    afterStart? boundToken (skipBlank s) = none := by
  cases hbound : afterStart? boundToken (skipBlank s) with
  | none => rfl
  | some r =>
    rcases h 'e' _ (Text.eq_append_of_afterStart? hbound) with h | h <;> cases h

private theorem EndsType.noBrackets (h : EndsType s) (r : List Char) :
    skipBlank s ≠ '[' :: ']' :: r := by
  intro hskip
  rcases h '[' _ hskip with h | h <;> cases h

/-- A name is read as a whole. -/
theorem typeAt_of_name {name : String} (hne : name ≠ "")
    (hchars : ∀ c ∈ name.toList, isNameChar c) (hs : Spaced [.name name] s m)
    (hends : ∀ c r, m = c :: r → isNameChar c = false) : typeAt s = afterName name m := by
  obtain ⟨m, hskip, ⟨⟩⟩ := (spaced_cons (Token.skipBlank_name hne hchars)).mp hs
  have hstop : m.takeWhile isNameChar = [] ∧ m.dropWhile isNameChar = m := by
    cases m with
    | nil => exact ⟨rfl, rfl⟩
    | cons c r => simp [hends c r rfl]
  have htake : (skipBlank s).takeWhile isNameChar = name.toList := by
    rw [hskip, Token.chars, List.takeWhile_append_of_pos hchars, hstop.1, List.append_nil]
  have hdrop : (skipBlank s).dropWhile isNameChar = m := by
    rw [hskip, Token.chars, List.dropWhile_append_of_pos hchars, hstop.2]
  have hnot : ∀ r, skipBlank s ≠ '?' :: r := by
    intro r hr
    rw [hr] at htake
    exact hne (String.toList_eq_nil_iff.mp htake.symm)
  rw [typeAt_name hnot (by rw [htake]; simpa using hne), htake, hdrop, String.ofList_toList]

mutual

/-- A written form of a type that is no wildcard is read up to brackets that may follow it. -/
theorem typeAt_of_spaced (t : TypeExpr) {s m : List Char} (ht : t.WellFormed)
    (hs : Spaced t.tokens s m) (hwild : t.isWildcard = false) (hends : EndsName m) :
    typeAt s = .ok (wrapAt t m) := by
  match t with
  | void =>
    have hchars : "void".toList.all isNameChar := by decide
    exact typeAt_of_name (by decide) (List.all_eq_true.mp hchars) hs hends.noNameChar
  | primitive p =>
    have hname : p.keyword ≠ "" ∧ p.keyword.toList.all isNameChar ∧ p.keyword ≠ "void" := by
      cases p <;> decide
    rw [typeAt_of_name hname.1 (List.all_eq_true.mp hname.2.1) hs hends.noNameChar, afterName,
      if_neg hname.2.2, Primitive.ofKeyword?_keyword]
  | named name [] =>
    obtain ⟨hname, -⟩ := ht
    rw [typeAt_of_name hname.ne_empty hname.nameChars hs hends.noNameChar,
      afterName_of_class hname, afterClass_of_noArgs name hends.noArgs]
  | named name (arg :: args) =>
    obtain ⟨hname, hargs⟩ := ht
    have hsplit : (named name (arg :: args)).tokens =
        [.name name] ++ (.opening :: (arg.tokens ++ restTokens args ++ [.closing])) := by
      simp [TypeExpr.tokens]
    rw [hsplit] at hs
    obtain ⟨m₁, hname₁, hafter⟩ := spaced_append.mp hs
    obtain ⟨m₂, hskip, hspaced⟩ := hafter.skipBlank_eq nofun
    have hopen : skipBlank m₁ = '<' :: m₂ := hskip
    have hread := argsAt_of_spaced arg args hargs hspaced
    have hnoName : ∀ c r, m₁ = c :: r → isNameChar c = false :=
      noNameChar_of_skipBlank fun c r hskip => by
        obtain rfl := (List.cons.inj (hskip.symm.trans hopen)).1
        decide
    rw [typeAt_of_name hname.ne_empty hname.nameChars hname₁ hnoName, afterName_of_class hname,
      afterClass_of_args name hopen, hread]
    rfl
  | array element =>
    obtain ⟨hwild, helement⟩ := ht
    obtain ⟨m₁, hspaced, hbrackets⟩ := spaced_append.mp hs
    obtain ⟨m, hskip, ⟨⟩⟩ := hbrackets.skipBlank_eq nofun
    have hopen : skipBlank m₁ = '[' :: ']' :: m := hskip
    have hends₁ : EndsName m₁ := {
      noNameChar := noNameChar_of_skipBlank fun c r hskip => by
        obtain rfl := (List.cons.inj (hskip.symm.trans hopen)).1
        decide
      noArgs := fun r hr => by
        have := (List.cons.inj (hr.symm.trans hopen)).1
        cases this }
    rw [typeAt_of_spaced element helement hspaced hwild hends₁, wrapAt_brackets hopen]
  | unbounded => cases hwild
  | bounded bound => cases hwild
termination_by (sizeOf t, 0)

/-- A written form of a type is read where a type may end. -/
theorem exists_typeAt_of_spaced (t : TypeExpr) {s m : List Char} (ht : t.WellFormed)
    (hs : Spaced t.tokens s m) (hends : EndsType m) :
    ∃ rest, typeAt s = .ok (t, rest) ∧ skipBlank rest = skipBlank m := by
  match t with
  | unbounded =>
    obtain ⟨m, hskip, ⟨⟩⟩ := hs.skipBlank_eq nofun
    exact ⟨m, typeAt_unbounded hskip hends.noBound, rfl⟩
  | bounded bound =>
    obtain ⟨m₁, hskip, hs⟩ := hs.skipBlank_eq nofun
    obtain ⟨m₂, hskip₁, hs⟩ := hs.skipBlank_eq nofun
    obtain ⟨rest, hread, hrest⟩ := exists_typeAt_of_spaced bound ht hs hends
    have hbound : afterStart? boundToken (skipBlank m₁) = some m₂ := by
      rw [hskip₁]
      exact Text.afterStart?_append _ _
    exact ⟨rest, by rw [typeAt_bounded hskip hbound, hread]; rfl, hrest⟩
  | void | primitive _ | named _ _ | array _ =>
    refine ⟨skipBlank m, ?_, Text.skipBlank_skipBlank m⟩
    rw [typeAt_of_spaced _ ht hs rfl hends.endsName, wrapAt_stop hends.noBrackets]
termination_by (sizeOf t, 1)

/-- A written form of type arguments is read up to their closing bracket. -/
theorem argsAt_of_spaced (arg : TypeExpr) : (args : List TypeExpr) → {s m : List Char} →
    AllWellFormed (arg :: args) → Spaced (arg.tokens ++ restTokens args ++ [.closing]) s m →
    argsAt s = .ok (arg :: args, m)
  | [], s, m, ⟨harg, _⟩, hs => by
    rw [List.append_assoc] at hs
    obtain ⟨m₁, hfirst, hafter⟩ := spaced_append.mp hs
    obtain ⟨rest, hread, hrest⟩ :=
      exists_typeAt_of_spaced arg harg hfirst (hafter.endsType (.inr rfl))
    obtain ⟨m, hskip, ⟨⟩⟩ := hafter.skipBlank_eq nofun
    have hclosing : skipBlank m₁ = '>' :: m := hskip
    rw [argsAt_of_ok hread, afterArg_closing (hrest.trans hclosing)]
  | next :: args, s, m, ⟨harg, hargs⟩, hs => by
    rw [List.append_assoc] at hs
    obtain ⟨m₁, hfirst, hafter⟩ := spaced_append.mp hs
    obtain ⟨rest, hread, hrest⟩ :=
      exists_typeAt_of_spaced arg harg hfirst (hafter.endsType (.inl rfl))
    obtain ⟨m₂, hskip, hnext⟩ := hafter.skipBlank_eq nofun
    have hcomma : skipBlank m₁ = ',' :: m₂ := hskip
    rw [argsAt_of_ok hread, afterArg_comma (hrest.trans hcomma),
      argsAt_of_spaced next args hargs hnext]
    rfl
termination_by args => (sizeOf arg + sizeOf args, 2)

end

/-! ## Whole texts -/

/-- All of a text is a type if nothing is left after one. -/
theorem readAll_eq (s : List Char) :
    readAll s = match typeAt s with
      | .ok r => if skipBlank r.2 = [] then .ok r.1 else .error ⟨.trailing, skipBlank r.2⟩
      | .error stuck => .error stuck := by
  unfold readAll typeAt
  cases readType s with
  | error stuck => rfl
  | ok r => cases hrest : skipBlank r.2.1 <;> simp [Except.map, hrest]

private theorem parse_eq_ok {text : String} :
    parse text = .ok t ↔ ∃ rest, typeAt text.toList = .ok (t, rest) ∧ skipBlank rest = [] := by
  unfold parse readAll typeAt
  cases readType text.toList with
  | error stuck => simp [Except.map]
  | ok r =>
    cases hrest : skipBlank r.2.1 with
    | nil => simp [Except.map, hrest]
    | cons c rest => simp [Except.map, hrest]

/-- A text reads as a type exactly if it is a written form of it, and the type is well-formed. -/
theorem parse_eq_ok_iff {text : String} : parse text = .ok t ↔ t.WellFormed ∧ t.WrittenAs text := by
  rw [parse_eq_ok]
  constructor
  · rintro ⟨rest, hread, hrest⟩
    obtain ⟨hwf, m, hspaced, hm⟩ := spelled_of_typeAt text.toList hread
    exact ⟨hwf, m, hspaced, Text.skipBlank_eq_nil.mp (hm.trans hrest)⟩
  · rintro ⟨hwf, m, hspaced, hm⟩
    have hnil : skipBlank m = [] := Text.skipBlank_eq_nil.mpr hm
    have hends : EndsType m := by simp [EndsType, hnil]
    obtain ⟨rest, hread, hrest⟩ := exists_typeAt_of_spaced t hwf hspaced hends
    exact ⟨rest, hread, hrest.trans hnil⟩

/-- A type is written as its own text. -/
theorem toText_writtenAs (t : TypeExpr) : t.WrittenAs t.toText :=
  ⟨[], by simpa [toText] using spaced_toText t [], nofun⟩

/-- What reads as a type is printed so that it reads as the same type. -/
theorem parse_toText {text : String} (h : parse text = .ok t) : parse t.toText = .ok t :=
  parse_eq_ok_iff.mpr ⟨(parse_eq_ok_iff.mp h).1, toText_writtenAs t⟩

/-- Reading takes exactly the written forms of well-formed types and undoes printing, and printing
tells the types apart that can be read. -/
theorem parse_inverts_toText :
    (∀ text t, parse text = .ok t ↔ t.WellFormed ∧ t.WrittenAs text) ∧
      (∀ text t, parse text = .ok t → parse t.toText = .ok t) ∧
      ∀ text text' t u, parse text = .ok t → parse text' = .ok u → t.toText = u.toText → t = u := by
  refine ⟨fun _ _ => parse_eq_ok_iff, fun _ _ h => parse_toText h, ?_⟩
  intro text text' t u ht hu hprinted
  have hread := parse_toText ht
  rw [hprinted, parse_toText hu] at hread
  exact (Except.ok.inj hread).symm

/-- A list type, written with white space of several kinds, reads as the type, and so does its
printed form. -/
theorem parse_spaced_list :
    parse " List<\t?extends  shop.Item [] >\u00a0" =
        .ok (named "List" [bounded (array (named "shop.Item" []))]) ∧
      parse "List<? extends shop.Item[]>" =
        .ok (named "List" [bounded (array (named "shop.Item" []))]) := by
  have hlist : IsClassName "List" :=
    { ne_empty := by decide
      nameChars := List.all_eq_true.mp (by decide)
      ne_void := by decide
      not_keyword := by rintro ⟨⟩ <;> decide }
  have hitem : IsClassName "shop.Item" :=
    { ne_empty := by decide
      nameChars := List.all_eq_true.mp (by decide)
      ne_void := by decide
      not_keyword := by rintro ⟨⟩ <;> decide }
  have htext : " List<\t?extends  shop.Item [] >\u00a0".toList =
      [' '] ++ (Token.name "List").chars ++ ([] ++ Token.opening.chars ++
        (['\t'] ++ Token.wildcard.chars ++ ([] ++ Token.bound.chars ++
          ([' '] ++ (Token.name "shop.Item").chars ++ ([' '] ++ Token.brackets.chars ++
            ([' '] ++ Token.closing.chars ++ ['\u00a0'])))))) := by decide +kernel
  have hread : parse " List<\t?extends  shop.Item [] >\u00a0" =
      .ok (named "List" [bounded (array (named "shop.Item" []))]) := by
    refine (parse_inverts_toText.1 _ _).mpr ⟨⟨hlist, ⟨rfl, hitem, trivial⟩, trivial⟩, ?_⟩
    have hblank : ∀ s : List Char, s.all Text.isBlank → ∀ c ∈ s, Text.isBlank c :=
      fun _ h => List.all_eq_true.mp h
    refine ⟨['\u00a0'], ?_, hblank _ (by decide)⟩
    rw [htext]
    exact .cons _ (hblank [' '] (by decide)) (.cons _ (hblank [] (by decide))
      (.cons _ (hblank ['\t'] (by decide)) (.cons _ (hblank [] (by decide))
        (.cons _ (hblank [' '] (by decide)) (.cons _ (hblank [' '] (by decide))
          (.cons _ (hblank [' '] (by decide)) (.nil _)))))))
  have hprinted : (named "List" [bounded (array (named "shop.Item" []))]).toText =
      "List<? extends shop.Item[]>" := by decide +kernel
  have hagain := parse_inverts_toText.2.1 _ _ hread
  rw [hprinted] at hagain
  exact ⟨hread, hagain⟩

end BeanSynthesis.TypeExpr
