import BeanSynthesis.Proofs.Exchange.JsonTokens

/-!
# Written JSON is read back

The tokens of a value as a list of their own: the text of a plain value is cut into them, and the
reader makes the value of them again. Both follow the form of the value, with what stands after it
in the text as an argument.
-/

namespace BeanSynthesis.Json

mutual

/-- The tokens of a value. -/
def tokens : Json → List Token
  | null => [.null]
  | bool value => [.bool value]
  | number literal => [.number literal]
  | string value => [.string value]
  | array [] => [.openBracket, .closeBracket]
  | array (item :: items) => .openBracket :: (item.tokens ++ itemTokens items)
  | object [] => [.openBrace, .closeBrace]
  | object ((name, value) :: members) =>
    .openBrace :: .string name :: .colon :: (value.tokens ++ memberTokens members)

/-- The tokens after the first item of an array. -/
def itemTokens : List Json → List Token
  | [] => [.closeBracket]
  | item :: items => .comma :: (item.tokens ++ itemTokens items)

/-- The tokens after the first member of an object. -/
def memberTokens : List (Option String × Json) → List Token
  | [] => [.closeBrace]
  | (name, value) :: members =>
    .comma :: .string name :: .colon :: (value.tokens ++ memberTokens members)

end

/-! ## The text of a value has its tokens -/

private theorem endsValue_nil : EndsValue [] := nofun

private theorem endsValue_comma (rest : List Char) : EndsValue (',' :: rest) := by
  rintro c ⟨⟩
  exact .inl rfl

private theorem endsValue_lineBreak (level : Nat) (rest : List Char) :
    EndsValue ((lineBreak level).toList ++ rest) := by
  have htext : (lineBreak level).toList ++ rest =
      '\n' :: (List.replicate (2 * level) ' ' ++ rest) := by
    simp [lineBreak]
  rw [htext]
  rintro c ⟨⟩
  exact .inr rfl

private theorem endsValue_printItems (level : Nat) (items : List Json) {rest : List Char}
    (hrest : EndsValue rest) : EndsValue ((printItems level items).toList ++ rest) := by
  cases items with
  | nil => simpa [printItems] using hrest
  | cons item items =>
    simp only [printItems, String.toList_append, List.append_assoc]
    exact endsValue_comma _

private theorem endsValue_printMembers (level : Nat) (members : List (Option String × Json))
    {rest : List Char} (hrest : EndsValue rest) :
    EndsValue ((printMembers level members).toList ++ rest) := by
  cases members with
  | nil => simpa [printMembers] using hrest
  | cons member members =>
    obtain ⟨name, value⟩ := member
    simp only [printMembers, String.toList_append, List.append_assoc]
    exact endsValue_comma _

/-- A member's name with the colon after it. -/
theorem cut_name {name : Option String} (hname : name.isSome) (rest : List Char) :
    Cut ((printString (name.getD "")).toList ++ (": ".toList ++ rest)) [.string name, .colon]
      rest := by
  obtain ⟨s, rfl⟩ := Option.isSome_iff_exists.1 hname
  exact (cut_string s _).trans cut_colon

mutual

/-- Before a rest where no number can go on, the text of a value is cut into its tokens. -/
theorem cut_print (value : Json) (level : Nat) (h : value.Plain) {rest : List Char}
    (hrest : EndsValue rest) : Cut ((value.print level).toList ++ rest) value.tokens rest := by
  cases value with
  | null => exact cut_null
  | bool b =>
    cases b
    · exact cut_false
    · exact cut_true
  | number literal =>
    cases literal with
    | integer negative magnitude => exact cut_number negative (by simpa [Plain] using h) hrest
    | decimal significand exponent => simp [Plain] at h
  | string value =>
    obtain ⟨s, rfl⟩ := Option.isSome_iff_exists.1 (by simpa only [Plain] using h)
    exact cut_string s rest
  | array items =>
    cases items with
    | nil =>
      simp only [print, tokens]
      exact cut_openBracket.trans cut_closeBracket
    | cons item items =>
      obtain ⟨hitem, hitems⟩ : item.Plain ∧ AllPlain items := by
        simpa only [Plain, AllPlain] using h
      simp only [print, String.toList_append, List.append_assoc, tokens]
      refine cut_openBracket.trans ((cut_lineBreak _).trans ((cut_print item _ hitem ?_).trans ?_))
      · exact endsValue_printItems _ _ (endsValue_lineBreak _ _)
      · exact cut_printItems items _ level hitems rest
  | object members =>
    cases members with
    | nil =>
      simp only [print, tokens]
      exact cut_openBrace.trans cut_closeBrace
    | cons member members =>
      obtain ⟨name, value⟩ := member
      obtain ⟨hname, hvalue, hmembers⟩ :
          name.isSome ∧ value.Plain ∧ AllMembersPlain members := by
        simpa only [Plain, AllMembersPlain] using h
      simp only [print, String.toList_append, List.append_assoc, tokens]
      refine cut_openBrace.trans ((cut_lineBreak _).trans
        ((cut_name hname _).trans ((cut_print value _ hvalue ?_).trans ?_)))
      · exact endsValue_printMembers _ _ (endsValue_lineBreak _ _)
      · exact cut_printMembers members _ level hmembers rest

/-- The items after the first, up to and with the closing bracket. -/
theorem cut_printItems (items : List Json) (level outer : Nat) (h : AllPlain items)
    (rest : List Char) :
    Cut ((printItems level items).toList ++ ((lineBreak outer).toList ++ ("]".toList ++ rest)))
      (itemTokens items) rest := by
  cases items with
  | nil =>
    rw [printItems, itemTokens]
    exact (cut_lineBreak outer).trans cut_closeBracket
  | cons item items =>
    obtain ⟨hitem, hitems⟩ : item.Plain ∧ AllPlain items := by simpa only [AllPlain] using h
    simp only [printItems, String.toList_append, List.append_assoc, itemTokens]
    refine cut_comma.trans ((cut_lineBreak _).trans ((cut_print item _ hitem ?_).trans ?_))
    · exact endsValue_printItems _ _ (endsValue_lineBreak _ _)
    · exact cut_printItems items _ outer hitems rest

/-- The members after the first, up to and with the closing brace. -/
theorem cut_printMembers (members : List (Option String × Json)) (level outer : Nat)
    (h : AllMembersPlain members) (rest : List Char) :
    Cut ((printMembers level members).toList ++
        ((lineBreak outer).toList ++ ("\x7d".toList ++ rest)))
      (memberTokens members) rest := by
  cases members with
  | nil =>
    rw [printMembers, memberTokens]
    exact (cut_lineBreak outer).trans cut_closeBrace
  | cons member members =>
    obtain ⟨name, value⟩ := member
    obtain ⟨hname, hvalue, hmembers⟩ :
        name.isSome ∧ value.Plain ∧ AllMembersPlain members := by
      simpa only [AllMembersPlain] using h
    simp only [printMembers, String.toList_append, List.append_assoc, memberTokens]
    refine cut_comma.trans ((cut_lineBreak _).trans
      ((cut_name hname _).trans ((cut_print value _ hvalue ?_).trans ?_)))
    · exact endsValue_printMembers _ _ (endsValue_lineBreak _ _)
    · exact cut_printMembers members _ outer hmembers rest

end

/-! ## The reader makes the value of its tokens -/

/-- The value at the start of the tokens, and the tokens after it. -/
def valueAt (ts : List Token) : Option (Json × List Token) :=
  (readValue ts).map fun found => (found.1, found.2.1)

/-- The items of a non-empty array at the start of the tokens, up to and with its bracket. -/
def itemsAt (ts : List Token) : Option (List Json × List Token) :=
  (readItems ts).map fun found => (found.1, found.2.1)

/-- The members of a non-empty object at the start of the tokens, up to and with its brace. -/
def membersAt (ts : List Token) : Option (List (Option String × Json) × List Token) :=
  (readMembers ts).map fun found => (found.1, found.2.1)

section Reading

variable {ts rest : List Token} {value : Json} {name : Option String}

private theorem valueAt_openBracket (h : ∀ m, ts ≠ .closeBracket :: m) :
    valueAt (.openBracket :: ts) = (itemsAt ts).map fun found => (array found.1, found.2) := by
  rw [valueAt, readValue.eq_6 _ h, itemsAt]
  cases readItems ts <;> rfl

private theorem valueAt_string (name : Option String) :
    valueAt (.openBrace :: .string name :: ts) =
      (membersAt (.string name :: ts)).map fun found => (object found.1, found.2) := by
  rw [valueAt, readValue.eq_8 _ (by simp), membersAt]
  cases readMembers (.string name :: ts) <;> rfl

private theorem itemsAt_comma (h : valueAt ts = some (value, .comma :: rest)) :
    itemsAt ts = (itemsAt rest).map fun found => (value :: found.1, found.2) := by
  obtain ⟨⟨item, m, hlt⟩, hread, hfound⟩ := Option.map_eq_some_iff.1 h
  obtain ⟨rfl, rfl⟩ := Prod.mk.inj hfound
  rw [itemsAt, readItems, hread]
  dsimp only
  rw [itemsAt]
  cases readItems rest <;> rfl

private theorem itemsAt_closeBracket (h : valueAt ts = some (value, .closeBracket :: rest)) :
    itemsAt ts = some ([value], rest) := by
  obtain ⟨⟨item, m, hlt⟩, hread, hfound⟩ := Option.map_eq_some_iff.1 h
  obtain ⟨rfl, rfl⟩ := Prod.mk.inj hfound
  rw [itemsAt, readItems, hread]
  rfl

private theorem membersAt_comma (h : valueAt ts = some (value, .comma :: rest)) :
    membersAt (.string name :: .colon :: ts) =
      (membersAt rest).map fun found => ((name, value) :: found.1, found.2) := by
  obtain ⟨⟨item, m, hlt⟩, hread, hfound⟩ := Option.map_eq_some_iff.1 h
  obtain ⟨rfl, rfl⟩ := Prod.mk.inj hfound
  rw [membersAt, readMembers, hread]
  dsimp only
  rw [membersAt]
  cases readMembers rest <;> rfl

private theorem membersAt_closeBrace (h : valueAt ts = some (value, .closeBrace :: rest)) :
    membersAt (.string name :: .colon :: ts) = some ([(name, value)], rest) := by
  obtain ⟨⟨item, m, hlt⟩, hread, hfound⟩ := Option.map_eq_some_iff.1 h
  obtain ⟨rfl, rfl⟩ := Prod.mk.inj hfound
  rw [membersAt, readMembers, hread]
  rfl

/-- No value starts with a closing bracket. -/
theorem tokens_append_ne (value : Json) (ts m : List Token) :
    value.tokens ++ ts ≠ .closeBracket :: m := by
  cases value with
  | array items => cases items <;> simp [tokens]
  | object members => cases members <;> simp [tokens]
  | _ => simp [tokens]

mutual

/-- The tokens of a value are read as the value. -/
theorem valueAt_tokens (value : Json) (rest : List Token) :
    valueAt (value.tokens ++ rest) = some (value, rest) := by
  cases value with
  | array items =>
    cases items with
    | nil => simp [tokens, valueAt, readValue]
    | cons item items =>
      rw [tokens, List.cons_append, List.append_assoc,
        valueAt_openBracket (tokens_append_ne item _),
        itemsAt_tokens items (valueAt_tokens item) rest]
      rfl
  | object members =>
    cases members with
    | nil => simp [tokens, valueAt, readValue]
    | cons member members =>
      obtain ⟨name, value⟩ := member
      simp only [tokens, List.cons_append, List.append_assoc]
      rw [valueAt_string, membersAt_tokens members name (valueAt_tokens value) rest]
      rfl
  | _ => simp [tokens, valueAt, readValue]

/-- The same for the items of an array, when the first of them is read as itself. -/
theorem itemsAt_tokens (items : List Json) {item : Json}
    (hitem : ∀ rest, valueAt (item.tokens ++ rest) = some (item, rest)) (rest : List Token) :
    itemsAt (item.tokens ++ (itemTokens items ++ rest)) = some (item :: items, rest) := by
  cases items with
  | nil => exact itemsAt_closeBracket (hitem (.closeBracket :: rest))
  | cons next items =>
    simp only [itemTokens, List.cons_append, List.append_assoc]
    rw [itemsAt_comma (hitem _), itemsAt_tokens items (valueAt_tokens next) rest]
    rfl

/-- The same for the members of an object, when the first value of them is read as itself. -/
theorem membersAt_tokens (members : List (Option String × Json)) (name : Option String)
    {value : Json} (hvalue : ∀ rest, valueAt (value.tokens ++ rest) = some (value, rest))
    (rest : List Token) :
    membersAt (.string name :: .colon :: (value.tokens ++ (memberTokens members ++ rest))) =
      some ((name, value) :: members, rest) := by
  cases members with
  | nil => exact membersAt_closeBrace (hvalue (.closeBrace :: rest))
  | cons member members =>
    obtain ⟨nextName, next⟩ := member
    simp only [memberTokens, List.cons_append, List.append_assoc]
    rw [membersAt_comma (hvalue _), membersAt_tokens members nextName (valueAt_tokens next) rest]
    rfl

end

end Reading

/-- A text that consists of the tokens of a value holds the value. -/
theorem parse?_of_tokens {text : String} {value : Json} (h : tokens? text = some value.tokens) :
    parse? text = some value := by
  have hread : valueAt value.tokens = some (value, []) := by
    simpa using valueAt_tokens value []
  obtain ⟨⟨found, m, hlt⟩, hvalue, heq⟩ := Option.map_eq_some_iff.1 hread
  obtain ⟨rfl, rfl⟩ : found = value ∧ m = [] := Prod.mk.inj heq
  simp only [parse?, h, Option.bind_eq_bind, Option.bind_some, hvalue]

/-- The text of a plain value holds the value. -/
theorem parse?_pretty {value : Json} (h : value.Plain) : parse? value.pretty = some value := by
  have hcut : Cut value.pretty.toList value.tokens [] := by
    simpa [pretty] using cut_print value 0 h endsValue_nil
  exact parse?_of_tokens hcut.tokens?_eq

end BeanSynthesis.Json
