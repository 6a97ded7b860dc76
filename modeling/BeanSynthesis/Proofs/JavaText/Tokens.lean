import BeanSynthesis.Body.Basic

/-!
# Tokens of Java

The tokens that expressions consist of, and how a text is cut into them. A token is as long as the
text allows: a word ends where no letter or digit follows, and a sign is no part of a longer one.
What belongs to other tokens of the language makes a text unreadable here: comments, characters,
text blocks, the signs of other operators, and numbers that are not plain decimals. So a
number may not be followed by a dot, with which it would be a floating-point literal.
-/

namespace BeanSynthesis.Java

/-- White space between tokens. -/
def isSpace (c : Char) : Bool := c = ' ' || c = '\t' || c = '\n' || c = '\r' || c = '\x0c'

/-- The characters of identifiers. Outside ASCII it is the Unicode tables of the language that say
what a letter is. -/
structure Letters where
  /-- Whether an identifier may start so. -/
  isStart : Char → Bool
  /-- Whether an identifier may go on so. -/
  isPart : Char → Bool
  isPart_of_isStart : ∀ {c}, isStart c = true → isPart c = true
  isPart_space : ∀ {c}, isSpace c = true → isPart c = false
  isStart_ascii : ∀ {c : Char}, ' ' ≤ c → c ≤ '~' → isStart c = (c.isAlpha || c == '_' || c == '$')
  isPart_ascii : ∀ {c : Char}, ' ' ≤ c → c ≤ '~' →
    isPart c = (c.isAlphanum || c == '_' || c == '$')

/-- Identifiers of ASCII characters alone. -/
def Letters.ascii : Letters where
  isStart c := c.isAlpha || c == '_' || c == '$'
  isPart c := c.isAlphanum || c == '_' || c == '$'
  isPart_of_isStart := by
    intro c h
    simp only [Char.isAlphanum, Bool.or_eq_true] at h ⊢
    rcases h with (halpha | hlow) | hdollar
    · exact .inl (.inl (.inl halpha))
    · exact .inl (.inr hlow)
    · exact .inr hdollar
  isPart_space := by
    intro c h
    simp only [isSpace, Bool.or_eq_true, decide_eq_true_eq] at h
    rcases h with (((rfl | rfl) | rfl) | rfl) | rfl <;> rfl
  isStart_ascii _ _ := rfl
  isPart_ascii _ _ := rfl

/-- The words that are no identifiers. -/
def reservedWords : List String :=
  ["abstract", "assert", "boolean", "break", "byte", "case", "catch", "char", "class", "const",
    "continue", "default", "do", "double", "else", "enum", "extends", "final", "finally", "float",
    "for", "goto", "if", "implements", "import", "instanceof", "int", "interface", "long", "native",
    "new", "package", "private", "protected", "public", "return", "short", "static", "strictfp",
    "super", "switch", "synchronized", "this", "throw", "throws", "transient", "try", "void",
    "volatile", "while", "_", "true", "false", "null"]

/-- A token. -/
inductive Token where
  /-- An identifier or a reserved word. -/
  | word (text : String)
  /-- An integer literal, by its digits. -/
  | number (digits : String)
  /-- A string literal, by the text it stands for. -/
  | string (value : String)
  /-- A binary operator. -/
  | operator (op : BinaryOp)
  | bang
  | question
  | colon
  | comma
  | dot
  | openParen
  | closeParen
  | openAngle
  | closeAngle
  | openBracket
  | closeBracket
deriving DecidableEq, Repr

/-- The character that a backslash and this character stand for. -/
def escaped? (c : Char) : Option Char :=
  if c = 'b' then some '\x08'
  else if c = 't' then some '\t'
  else if c = 'n' then some '\n'
  else if c = 'f' then some '\x0c'
  else if c = 'r' then some '\r'
  else if c = 's' then some ' '
  else if c = '"' || c = '\'' || c = '\\' then some c
  else none

/-- The text of a string literal after its opening quote, and what follows its closing one. -/
def stringEnd : List Char → Option (List Char × List Char)
  | [] => none
  | '"' :: rest => some ([], rest)
  | ['\\'] => none
  | '\\' :: c :: rest =>
    (escaped? c).bind fun d => (stringEnd rest).map fun (value, rest) => (d :: value, rest)
  | c :: rest =>
    if c = '\n' || c = '\r' then none
    else (stringEnd rest).map fun (value, rest) => (c :: value, rest)

/-- The sign at the start of a text, and what follows it. -/
def sign : List Char → Option (Token × List Char)
  | '=' :: '=' :: rest => some (.operator .eq, rest)
  | '!' :: '=' :: rest => some (.operator .ne, rest)
  | '|' :: '|' :: rest => some (.operator .or, rest)
  | '&' :: '&' :: rest => some (.operator .and, rest)
  | '-' :: rest =>
    if rest.head? ∈ [some '-', some '=', some '>'] then none else some (.operator .minus, rest)
  | '!' :: rest => some (.bang, rest)
  | '?' :: rest => some (.question, rest)
  | ':' :: rest => if rest.head? = some ':' then none else some (.colon, rest)
  | ',' :: rest => some (.comma, rest)
  | '.' :: rest => if rest.head?.any Char.isDigit then none else some (.dot, rest)
  | '(' :: rest => some (.openParen, rest)
  | ')' :: rest => some (.closeParen, rest)
  | '<' :: rest =>
    if rest.head? ∈ [some '<', some '='] then none else some (.openAngle, rest)
  -- In a type each sign stands for itself, also where two of them would be an operator.
  | '>' :: rest => if rest.head? = some '=' then none else some (.closeAngle, rest)
  | '[' :: rest => some (.openBracket, rest)
  | ']' :: rest => some (.closeBracket, rest)
  | _ => none

private theorem length_stringEnd {s value rest : List Char} (h : stringEnd s = some (value, rest)) :
    rest.length < s.length := by
  induction s using stringEnd.induct generalizing value rest with
  | case1 => simp [stringEnd] at h
  | case2 rest' =>
    have heq : ([], rest') = (value, rest) := Option.some.inj h
    simp [(Prod.mk.inj heq).2]
  | case3 => simp [stringEnd] at h
  | case4 c rest' ih =>
    rw [stringEnd, Option.bind_eq_some_iff] at h
    obtain ⟨d, -, h⟩ := h
    obtain ⟨⟨value', rest''⟩, hrest, heq⟩ := Option.map_eq_some_iff.mp h
    have hlt := ih hrest
    simp only [Prod.mk.injEq] at heq
    simp only [List.length_cons, ← heq.2]
    omega
  | case5 c rest' _ _ _ hbreak =>
    simp [stringEnd, hbreak] at h
  | case6 c rest' hquote hend hescape hbreak ih =>
    rw [stringEnd, if_neg hbreak] at h
    · obtain ⟨⟨value', rest''⟩, hrest, heq⟩ := Option.map_eq_some_iff.mp h
      have hlt := ih hrest
      simp only [Prod.mk.injEq] at heq
      simp only [List.length_cons, ← heq.2]
      omega
    all_goals assumption

private theorem length_sign {s rest : List Char} {token : Token} (h : sign s = some (token, rest)) :
    rest.length < s.length := by
  unfold sign at h
  split at h <;> try split at h
  all_goals cases h
  all_goals
    simp only [List.length_cons]
    omega

namespace Letters

variable (letters : Letters)

/-- The characters are those of an identifier or a reserved word. -/
def IsWord (s : List Char) : Prop :=
  ∃ first rest, s = first :: rest ∧ letters.isStart first ∧ ∀ c ∈ rest, letters.isPart c

private theorem isWord_iff {s : List Char} :
    letters.IsWord s ↔ s.head?.any letters.isStart && s.tail.all letters.isPart := by
  cases s with
  | nil => simp [IsWord]
  | cons first rest => simp [IsWord, and_assoc]

instance (s : List Char) : Decidable (letters.IsWord s) := decidable_of_iff' _ letters.isWord_iff

/-- The name is an identifier. -/
def IsName (name : String) : Prop := letters.IsWord name.toList ∧ name ∉ reservedWords

instance (name : String) : Decidable (letters.IsName name) :=
  inferInstanceAs (Decidable (_ ∧ _))

/-- The tokens of a text, if it consists of such. -/
def tokens? : List Char → Option (List Token)
  | [] => some []
  | c :: rest =>
    if isSpace c then tokens? rest
    else if letters.isStart c then
      (tokens? (rest.dropWhile letters.isPart)).map
        (.word (String.ofList (c :: rest.takeWhile letters.isPart)) :: ·)
    else if c.isDigit then
      let after := rest.dropWhile Char.isDigit
      if after.head?.any fun next => next = '.' || letters.isPart next then none
      else (tokens? after).map (.number (String.ofList (c :: rest.takeWhile Char.isDigit)) :: ·)
    else if c = '"' then
      -- Three quotes open a text block.
      if rest.take 2 = ['"', '"'] then none
      else
        match _hstring : stringEnd rest with
        | none => none
        | some (value, after) => (tokens? after).map (.string (String.ofList value) :: ·)
    else
      match _hsign : sign (c :: rest) with
      | none => none
      | some (token, after) => (tokens? after).map (token :: ·)
termination_by s => s.length
decreasing_by
  · simp
  · have hle := (List.dropWhile_suffix letters.isPart (l := rest)).length_le
    simp only [List.length_cons]
    omega
  · have hle := (List.dropWhile_suffix Char.isDigit (l := rest)).length_le
    simp only [List.length_cons]
    omega
  · have hlt := length_stringEnd _hstring
    simp only [List.length_cons]
    omega
  · exact length_sign _hsign

/-- An empty text has no tokens. -/
theorem tokens?_nil : letters.tokens? [] = some [] := by
  rw [tokens?]

/-- The first token of a text is found by its first character. -/
theorem tokens?_cons (c : Char) (rest : List Char) : letters.tokens? (c :: rest) =
    if isSpace c then letters.tokens? rest
    else if letters.isStart c then
      (letters.tokens? (rest.dropWhile letters.isPart)).map
        (.word (String.ofList (c :: rest.takeWhile letters.isPart)) :: ·)
    else if c.isDigit then
      if (rest.dropWhile Char.isDigit).head?.any fun next => next = '.' || letters.isPart next then
        none
      else (letters.tokens? (rest.dropWhile Char.isDigit)).map
        (.number (String.ofList (c :: rest.takeWhile Char.isDigit)) :: ·)
    else if c = '"' then
      if rest.take 2 = ['"', '"'] then none
      else (stringEnd rest).bind fun (value, after) =>
        (letters.tokens? after).map (.string (String.ofList value) :: ·)
    else (sign (c :: rest)).bind fun (token, after) =>
      (letters.tokens? after).map (token :: ·) := by
  rw [tokens?]
  congr 5
  · cases stringEnd rest <;> rfl
  · cases sign (c :: rest) <;> rfl

end Letters

end BeanSynthesis.Java
