import BeanSynthesis.Proofs.TypeText.Positions

/-!
# The course of the reader

The machine that reads a text at byte positions comes to have what `parse` computes: it does so for
each part of the text that is read as a type or as the arguments of a class, whatever calls wait for
it. Hence reading stays at positions that cut no character, and it ends.
-/

namespace BeanSynthesis.TypeExpr

open Text (skipBlank isBlank afterStart?)

variable {text front s rest : List Char}

namespace Machine

variable {k l : Machine} {token : Token} {spot : Spot} {name : String}

/-! ## Runs between places in the text -/

/-- The position with these characters ahead. -/
def posOf (text rest : List Char) : Nat := byteLength text - byteLength rest

/-- The machine with the characters `rest` ahead. -/
def standing (text rest : List Char) (start : Nat) (waiting : List Call) (control : Control) :
    Machine :=
  ⟨posOf text rest, start, waiting, control⟩

/-- A machine goes on to another one. -/
abbrev Run (text : List Char) : Machine → Machine → Prop := Relation.ReflTransGen (Turn text)

variable {start : Nat} {waiting : List Call}

private theorem charsFrom?_posOf (h : rest <:+ text) :
    charsFrom? text (posOf text rest) = some rest := by
  obtain ⟨front, rfl⟩ := h
  exact charsFrom?_eq_some.mpr ⟨front, rfl, by simp [posOf]⟩

private theorem posOf_add (h : front ++ rest <:+ text) :
    posOf text (front ++ rest) + byteLength front = posOf text rest := by
  obtain ⟨before, rfl⟩ := h
  simp only [posOf, byteLength_append]
  omega

private theorem posOf_cons_add {c : Char} (h : c :: rest <:+ text) :
    posOf text (c :: rest) + c.utf8Size = posOf text rest := by
  have hone : [c] ++ rest <:+ text := h
  simpa using posOf_add hone

private theorem posOf_eq_iff (h : rest <:+ text) :
    posOf text rest = byteLength text ↔ rest = [] := by
  have hlength := add_byteLength_eq (charsFrom?_posOf h)
  constructor
  · intro hend
    by_contra hne
    have := byteLength_pos hne
    omega
  · rintro rfl
    rfl

private theorem suffix_skipBlank (h : s <:+ text) : skipBlank s <:+ text :=
  (List.dropWhile_suffix _).trans h

private theorem suffix_of_skipBlank (h : s <:+ text) (hskip : skipBlank s = front ++ rest) :
    rest <:+ text :=
  (List.suffix_append front rest).trans (hskip ▸ suffix_skipBlank h)

private theorem sees_append (token : Token) (rest : List Char) :
    sees (token.chars ++ rest) token := by
  simp [sees]

private theorem not_sees (h : ∀ rest, s ≠ token.chars ++ rest) : ¬sees s token := by
  intro hsees
  obtain ⟨rest, hrest⟩ := Option.isSome_iff_exists.mp hsees
  exact h rest (Text.eq_append_of_afterStart? hrest)

/-- Where the machine passes over the characters that satisfy `p`, it comes to the first one that
does not. -/
theorem run_dropWhile {p : Char → Bool} {control : Control} (hs : s <:+ text)
    (hpass : ∀ c rest, c :: rest <:+ text → p c →
      Turn text (standing text (c :: rest) start waiting control)
        (standing text rest start waiting control)) :
    Run text (standing text s start waiting control)
      (standing text (s.dropWhile p) start waiting control) := by
  induction s with
  | nil => exact .refl
  | cons c s ih =>
    by_cases hp : p c
    · rw [List.dropWhile_cons_of_pos hp]
      exact .head (hpass c s hs hp) (ih ((List.suffix_cons c s).trans hs))
    · rw [List.dropWhile_cons_of_neg hp]

private theorem filter_head?_dropWhile (p : Char → Bool) (s : List Char) :
    (s.dropWhile p).head?.filter p = none := by
  have hstop := List.head?_dropWhile_not p s
  rw [Option.filter_eq_none_iff]
  intro c hc
  simpa [hc] using hstop

/-- What is looked for is found behind the white space. -/
theorem run_find (hs : s <:+ text)
    (hfind : ((standing text (skipBlank s) start waiting (.look spot)).find text
      (skipBlank s) spot).2 = l) :
    Run text (standing text s start waiting (.look spot)) l := by
  have hskip : Run text (standing text s start waiting (.look spot))
      (standing text (skipBlank s) start waiting (.look spot)) :=
    run_dropWhile hs fun c rest hc hblank => ⟨.round, by
      simp only [next?, standing, charsFrom?_posOf hc, List.head?_cons, Option.filter, hblank,
        if_true, pass, posOf_cons_add hc]⟩
  have hstop : (skipBlank s).head?.filter isBlank = none := filter_head?_dropWhile isBlank s
  have hturn : (standing text (skipBlank s) start waiting (.look spot)).next? text =
      some ((standing text (skipBlank s) start waiting (.look spot)).find text (skipBlank s)
        spot) := by
    have hahead := charsFrom?_posOf (suffix_skipBlank hs)
    simp only [next?, standing, hahead, hstop]
  rw [← hfind]
  exact hskip.tail ⟨_, hturn⟩

/-- The machine behind a token that stands after the white space. -/
theorem eat_standing (hs : s <:+ text) (hskip : skipBlank s = token.chars ++ rest)
    {control : Control} (spot : Spot) :
    (standing text (skipBlank s) start waiting control).eat token spot =
      standing text rest start waiting (.look spot) := by
  have hle := suffix_skipBlank hs
  rw [hskip] at hle ⊢
  simp only [eat, standing, posOf_add hle]

private theorem call_standing (hs : s <:+ text) (hskip : skipBlank s = token.chars ++ rest)
    {control : Control} (wait : Wait) :
    (standing text (skipBlank s) start waiting control).call token wait =
      standing text rest (posOf text rest) (⟨start, wait⟩ :: waiting) (.look .type) := by
  have hle := suffix_skipBlank hs
  rw [hskip] at hle ⊢
  simp only [call, standing, posOf_add hle]

/-- A name is read from its first character on. -/
theorem run_name (hs : s <:+ text) :
    Run text (standing text s start waiting (.name (posOf text s)))
      ((standing text (s.dropWhile isNameChar) start waiting (.name (posOf text s))).endName text
        (posOf text s)) := by
  have hstop := filter_head?_dropWhile isNameChar s
  have hahead := charsFrom?_posOf ((List.dropWhile_suffix isNameChar (l := s)).trans hs)
  have hpassed : Run text (standing text s start waiting (.name (posOf text s)))
      (standing text (s.dropWhile isNameChar) start waiting (.name (posOf text s))) :=
    run_dropWhile hs fun c rest hc hname => ⟨.round, by
      simp only [next?, standing, charsFrom?_posOf hc, List.head?_cons, Option.filter, hname,
        if_true, pass, posOf_cons_add hc]⟩
  refine hpassed.tail ⟨.step, ?_⟩
  simp only [next?, standing, hahead, hstop]

private theorem endName_nil (hname : s.takeWhile isNameChar = []) :
    (standing text (s.dropWhile isNameChar) start waiting (.name (posOf text s))).endName text
        (posOf text s) =
      standing text s start waiting (.refused .expectedName) := by
  have hsplit := List.takeWhile_append_dropWhile (p := isNameChar) (l := s)
  rw [hname, List.nil_append] at hsplit
  rw [hsplit, endName]
  exact if_pos rfl

private theorem endName_of_ne_nil (hs : s <:+ text) (hname : s.takeWhile isNameChar ≠ []) :
    (standing text (s.dropWhile isNameChar) start waiting (.name (posOf text s))).endName text
        (posOf text s) =
      standing text (s.dropWhile isNameChar) start waiting
        (.ofName (String.ofList (s.takeWhile isNameChar))) := by
  have hsplit := List.takeWhile_append_dropWhile (p := isNameChar) (l := s)
  have hlength := congrArg List.length hsplit
  rw [List.length_append] at hlength
  have hadd := posOf_add (hsplit.symm ▸ hs)
  rw [hsplit] at hadd
  have hpos := byteLength_pos hname
  have hslice : slice? text (posOf text s) (posOf text (s.dropWhile isNameChar)) =
      some (s.takeWhile isNameChar) := by
    have hle : posOf text s ≤ posOf text (s.dropWhile isNameChar) := by omega
    have htake : s.take (s.length - (s.dropWhile isNameChar).length) = s.takeWhile isNameChar := by
      rw [← hlength, Nat.add_sub_cancel]
      nth_rewrite 2 [← hsplit]
      exact List.take_left
    simp only [slice?, charsFrom?_posOf hs,
      charsFrom?_posOf ((List.dropWhile_suffix isNameChar (l := s)).trans hs), if_pos hle, htake]
  have hne : posOf text s ≠ posOf text (s.dropWhile isNameChar) := by omega
  simp only [endName, standing, if_neg hne, hslice, turnTo]

/-! ## The course of the reader -/

/-- From `k` on the machine comes to have what is read, with what follows it ahead, or it refuses
the text where reading gets stuck. The fault is never that the text goes on. -/
def Reads {α : Type} (text : List Char) (k : Machine) (done : α → List Char → Machine) :
    Except Stuck (α × List Char) → Prop
  | .ok r => r.2 <:+ text ∧ Run text k (done r.1 r.2)
  | .error stuck =>
    stuck.rest <:+ text ∧ stuck.fault ≠ .trailing ∧
      ∃ start waiting, Run text k (standing text stuck.rest start waiting (.refused stuck.fault))

variable {α β : Type} {done : α → List Char → Machine} {done' : β → List Char → Machine}

private theorem Reads.after {r : Except Stuck (α × List Char)} (h : Reads text l done r)
    (hrun : Run text k l) : Reads text k done r := by
  cases r with
  | ok r => exact ⟨h.1, hrun.trans h.2⟩
  | error stuck =>
    obtain ⟨hrest, hfault, start, waiting, hstuck⟩ := h
    exact ⟨hrest, hfault, start, waiting, hrun.trans hstuck⟩

private theorem Reads.map {r : Except Stuck (α × List Char)} (h : Reads text k done r)
    {f : α × List Char → β × List Char}
    (hf : ∀ a rest, rest <:+ text → Reads text (done a rest) done' (.ok (f (a, rest)))) :
    Reads text k done' (r.map f) := by
  cases r with
  | ok r => exact (hf r.1 r.2 h.1).after h.2
  | error stuck => exact h

/-- The machine has read a type, and gives it to the call that waits for it. -/
def giving (text : List Char) (start : Nat) (waiting : List Call) (t : TypeExpr)
    (rest : List Char) : Machine :=
  standing text (skipBlank rest) start waiting (.give t)

/-- The machine has read the arguments that follow these, with the bracket that closes them. -/
def closed (text : List Char) (start : Nat) (waiting : List Call) (name : String)
    (args more : List TypeExpr) (rest : List Char) : Machine :=
  standing text rest start waiting (.look (.afterType (named name (args ++ more))))

/-- Brackets after a type are read. -/
theorem reads_wrapAt (t : TypeExpr) {s : List Char} (hs : s <:+ text) :
    Reads text (standing text s start waiting (.look (.afterType t))) (giving text start waiting)
      (.ok (wrapAt t s)) := by
  by_cases hopen : ∃ m, skipBlank s = '[' :: ']' :: m
  · obtain ⟨m, hopen⟩ := hopen
    have hskip : skipBlank s = Token.brackets.chars ++ m := hopen
    have hlt : m.length < s.length := by
      have := length_lt_of_skipBlank hopen
      simp only [List.length_cons] at this
      omega
    rw [wrapAt_brackets hopen]
    refine (reads_wrapAt (array t) (suffix_of_skipBlank hs hskip)).after (run_find hs ?_)
    rw [find, if_pos (hskip ▸ sees_append _ _)]
    exact eat_standing hs hskip _
  · have hnot : ∀ m, skipBlank s ≠ Token.brackets.chars ++ m := fun m hm => hopen ⟨m, hm⟩
    rw [wrapAt_stop fun m hm => hopen ⟨m, hm⟩]
    refine ⟨suffix_skipBlank hs, run_find hs ?_⟩
    rw [find, if_neg (not_sees hnot)]
    simp only [turnTo, standing, Text.skipBlank_skipBlank, giving]
termination_by s.length

/-- What starts with a name is read, if the arguments after the name are. -/
theorem reads_afterName (hs : s <:+ text)
    (hargs : ∀ r, skipBlank s = '<' :: r →
      Reads text (standing text r (posOf text r) (⟨start, .arg name []⟩ :: waiting) (.look .type))
        (closed text start waiting name []) (argsAt r)) :
    Reads text (standing text s start waiting (.ofName name)) (giving text start waiting)
      (afterName name s) := by
  unfold Control.ofName afterName
  by_cases hvoid : name = "void"
  · rw [if_pos hvoid, if_pos hvoid]
    exact reads_wrapAt void hs
  · rw [if_neg hvoid, if_neg hvoid]
    cases Primitive.ofKeyword? name with
    | some p => exact reads_wrapAt (primitive p) hs
    | none =>
      dsimp only
      by_cases hopen : ∃ r, skipBlank s = '<' :: r
      · obtain ⟨r, hopen⟩ := hopen
        have hskip : skipBlank s = Token.opening.chars ++ r := hopen
        have hcall : Run text (standing text s start waiting (.look (.afterName name)))
            (standing text r (posOf text r) (⟨start, .arg name []⟩ :: waiting) (.look .type)) := by
          refine run_find hs ?_
          rw [find, if_pos (hskip ▸ sees_append _ _)]
          exact call_standing hs hskip _
        rw [afterClass_of_args name hopen]
        exact ((hargs r hopen).after hcall).map fun args rest hrest => reads_wrapAt _ hrest
      · have hnot : ∀ r, skipBlank s ≠ Token.opening.chars ++ r := fun r hr => hopen ⟨r, hr⟩
        have hnone : Run text (standing text s start waiting (.look (.afterName name)))
            (standing text (skipBlank s) start waiting (.look (.afterType (named name [])))) := by
          refine run_find hs ?_
          rw [find, if_neg (not_sees hnot)]
          rfl
        rw [afterClass_of_noArgs name fun r hr => hopen ⟨r, hr⟩, ← wrapAt_skipBlank]
        exact (reads_wrapAt _ (suffix_skipBlank hs)).after hnone

mutual

/-- A call reads what `typeAt` does. -/
theorem reads_typeAt (start : Nat) (waiting : List Call) {s : List Char} (hs : s <:+ text) :
    Reads text (standing text s start waiting (.look .type)) (giving text start waiting)
      (typeAt s) := by
  by_cases hwild : ∃ m, skipBlank s = '?' :: m
  · obtain ⟨m, hwild⟩ := hwild
    have hskip : skipBlank s = Token.wildcard.chars ++ m := hwild
    have hm : m <:+ text := suffix_of_skipBlank hs hskip
    have heat : Run text (standing text s start waiting (.look .type))
        (standing text m start waiting (.look .afterWildcard)) := by
      refine run_find hs ?_
      rw [find, if_pos (hskip ▸ sees_append _ _)]
      exact eat_standing hs hskip _
    cases hbound : afterStart? boundToken (skipBlank m) with
    | none =>
      have hnot : ¬sees (skipBlank m) .bound := by simp [sees, Token.chars, hbound]
      rw [typeAt_unbounded hwild hbound]
      refine ⟨hm, heat.trans (run_find hm ?_)⟩
      rw [find, if_neg hnot]
      rfl
    | some r =>
      have hskip' : skipBlank m = Token.bound.chars ++ r := Text.eq_append_of_afterStart? hbound
      have hlt : r.length < s.length := by
        have := length_lt_of_skipBlank hwild
        have := Text.length_skipBlank_le m
        have := Text.length_of_afterStart? hbound
        omega
      have hcall : Run text (standing text m start waiting (.look .afterWildcard))
          (standing text r (posOf text r) (⟨start, .bound⟩ :: waiting) (.look .type)) := by
        refine run_find hm ?_
        rw [find, if_pos (hskip' ▸ sees_append _ _)]
        exact call_standing hm hskip' _
      -- the bound is shorter, and is read with one more call that waits
      have hread := reads_typeAt (posOf text r) (⟨start, .bound⟩ :: waiting)
        (suffix_of_skipBlank hm hskip')
      rw [typeAt_bounded hwild hbound]
      exact (hread.after (heat.trans hcall)).map fun bound rest hrest =>
        ⟨hrest, .single ⟨.step, rfl⟩⟩
  · have hnot : ∀ m, skipBlank s ≠ Token.wildcard.chars ++ m := fun m hm => hwild ⟨m, hm⟩
    have hskipped := suffix_skipBlank hs
    have hname : Run text (standing text s start waiting (.look .type))
        (standing text (skipBlank s) start waiting (.name (posOf text (skipBlank s)))) := by
      refine run_find hs ?_
      rw [find, if_neg (not_sees hnot)]
      rfl
    have hend := hname.trans (run_name hskipped)
    by_cases hnil : (skipBlank s).takeWhile isNameChar = []
    · rw [endName_nil hnil] at hend
      rw [typeAt_noName (fun m hm => hwild ⟨m, hm⟩) hnil]
      exact ⟨hskipped, nofun, start, waiting, hend⟩
    · rw [endName_of_ne_nil hskipped hnil] at hend
      rw [typeAt_name (fun m hm => hwild ⟨m, hm⟩) hnil]
      refine (reads_afterName ((List.dropWhile_suffix _).trans hskipped) fun r hopen => ?_).after
        hend
      have hlt : r.length < s.length := by
        have hdrop := (List.dropWhile_sublist isNameChar (l := skipBlank s)).length_le
        have := length_lt_of_skipBlank hopen
        have := Text.length_skipBlank_le s
        omega
      have hskip : skipBlank ((skipBlank s).dropWhile isNameChar) = Token.opening.chars ++ r :=
        hopen
      exact reads_argsAt _ start waiting _ []
        (suffix_of_skipBlank ((List.dropWhile_suffix _).trans hskipped) hskip)
termination_by (s.length, 0)

/-- The calls for the arguments of a class read what `argsAt` does. -/
theorem reads_argsAt (inner start : Nat) (waiting : List Call) (name : String)
    (args : List TypeExpr) {s : List Char} (hs : s <:+ text) :
    Reads text (standing text s inner (⟨start, .arg name args⟩ :: waiting) (.look .type))
      (closed text start waiting name args) (argsAt s) := by
  have htype := reads_typeAt inner (⟨start, .arg name args⟩ :: waiting) hs
  cases hread : typeAt s with
  | error stuck =>
    rw [hread] at htype
    rw [argsAt_of_error hread]
    exact htype
  | ok r =>
    obtain ⟨t, m⟩ := r
    rw [hread] at htype
    obtain ⟨hm, hrun⟩ := htype
    have hgiven : Run text
        (standing text s inner (⟨start, .arg name args⟩ :: waiting) (.look .type))
        (standing text (skipBlank m) start waiting (.look (.afterArg name (args ++ [t])))) :=
      hrun.tail ⟨.step, rfl⟩
    -- the call for this argument is over, and its class looks for what follows it
    have hskipped := suffix_skipBlank hm
    rw [argsAt_of_ok hread]
    unfold afterArg
    split
    case h_1 r hcomma =>
      have hskip : skipBlank (skipBlank m) = Token.comma.chars ++ r := by
        rw [Text.skipBlank_skipBlank]
        exact hcomma
      have hlt : r.length < s.length := by
        have := length_lt_of_typeAt hread
        have := length_lt_of_skipBlank hcomma
        omega
      have hcall : Run text
          (standing text (skipBlank m) start waiting (.look (.afterArg name (args ++ [t]))))
          (standing text r (posOf text r) (⟨start, .arg name (args ++ [t])⟩ :: waiting)
            (.look .type)) := by
        refine run_find hskipped ?_
        rw [find, if_pos (hskip ▸ sees_append _ _)]
        exact call_standing hskipped hskip _
      have hmore := reads_argsAt (posOf text r) start waiting name (args ++ [t])
        (suffix_of_skipBlank hskipped hskip)
      refine (hmore.after (hgiven.trans hcall)).map fun more rest hrest => ⟨hrest, ?_⟩
      rw [closed, List.append_assoc]
      exact .refl
    case h_2 r hclosing =>
      have hskip : skipBlank (skipBlank m) = Token.closing.chars ++ r := by
        rw [Text.skipBlank_skipBlank]
        exact hclosing
      refine ⟨suffix_of_skipBlank hskipped hskip, hgiven.trans (run_find hskipped ?_)⟩
      rw [find, if_neg (by simp [hskip, sees, Token.chars, afterStart?]),
        if_pos (hskip ▸ sees_append _ _)]
      exact eat_standing hskipped hskip _
    case h_3 hcomma hclosing =>
      refine ⟨hskipped, nofun, start, waiting, hgiven.trans (run_find hskipped ?_)⟩
      rw [Text.skipBlank_skipBlank, find, if_neg (not_sees hcomma), if_neg (not_sees hclosing)]
      rfl
termination_by (s.length, 1)

end

/-! ## Whole texts -/

/-- What a machine that is done has made of the text. -/
def result? (k : Machine) : Option (Except ReadError TypeExpr) :=
  match k.control with
  | .accepted t => some (.ok t)
  | .refused fault => some (.error (.stuck fault k.pos))
  | .look _ | .name _ | .give _ | .broken => none

private theorem atRest_of_result? {r : Except ReadError TypeExpr} (h : k.result? = some r) :
    AtRest (Turn text) k := by
  rintro l ⟨move, hnext⟩
  cases hcontrol : k.control with
  | accepted _ | refused _ => simp [next?, hcontrol] at hnext
  | look _ | name _ | give _ | broken => simp [result?, hcontrol] at h

private theorem run_ending (t : TypeExpr) (hrest : rest <:+ text) :
    Run text (giving text 0 [] t rest)
      (standing text (skipBlank rest) 0 []
        (if skipBlank rest = [] then .accepted t else .refused .trailing)) := by
  have hgiven : Turn text (giving text 0 [] t rest)
      (standing text (skipBlank rest) 0 [] (.look (.ending t))) := ⟨.step, rfl⟩
  refine .head hgiven (run_find (suffix_skipBlank hrest) ?_)
  rw [Text.skipBlank_skipBlank, find]
  simp only [standing, posOf_eq_iff (suffix_skipBlank hrest)]
  split
  · rfl
  · rfl

/-- The machine comes to have what `parse` computes. -/
theorem run_parse (text : String) :
    ∃ l, Run text.toList init l ∧ l.result? = some (parse text) := by
  have hinit : standing text.toList text.toList 0 [] (.look .type) = init := by
    simp [standing, posOf, init]
  have hread := reads_typeAt 0 [] (List.suffix_refl text.toList)
  rw [hinit] at hread
  rw [parse, readAll_eq]
  cases htype : typeAt text.toList with
  | error stuck =>
    rw [htype] at hread
    obtain ⟨-, -, start, waiting, hrun⟩ := hread
    exact ⟨_, hrun, rfl⟩
  | ok r =>
    rw [htype] at hread
    refine ⟨_, hread.2.trans (run_ending r.1 hread.1), ?_⟩
    by_cases hnil : skipBlank r.2 = []
    · simp only [hnil, if_true]
      rfl
    · simp only [hnil, if_false]
      rfl

private theorem result?_of_atRest {text : String} (h : Run text.toList init k)
    (hrest : AtRest (Turn text.toList) k) : k.result? = some (parse text) := by
  obtain ⟨l, hl, hresult⟩ := run_parse text
  rw [eq_of_atRest (turn_rightUnique text.toList) h hrest hl (atRest_of_result? hresult)]
  exact hresult

/-- What holds of a machine with a text, whatever it is about to do. -/
structure Inside (text : String) (k : Machine) : Prop where
  pos_le : k.pos ≤ text.utf8ByteSize
  /-- The position cuts no character. -/
  isValid : (⟨k.pos⟩ : String.Pos.Raw).IsValid text
  /-- All characters were taken from positions that cut none. -/
  unbroken : k.control ≠ .broken
  start_le : k.start ≤ k.pos
  /-- Every call was made behind the position of the one that waits for it. -/
  calls : (k.start :: k.waiting.map (·.start)).Pairwise (· > ·)
  /-- A call that has read a type has used up bytes. -/
  start_lt : ∀ t, k.control = .give t → k.start < k.pos

private theorem Safe.inside {text : String} (h : k.Safe text.toList) : k.Inside text where
  pos_le := by
    obtain ⟨rest, hrest⟩ := Option.isSome_iff_exists.mp h.pos
    have hlength := add_byteLength_eq hrest
    rw [byteLength_toList] at hlength
    omega
  isValid := isSome_charsFrom?_iff.mp h.pos
  unbroken hbroken := by
    have hfits := h.fits
    rwa [hbroken] at hfits
  start_le := h.start_le
  calls := h.calls
  start_lt t hgive := by
    have hfits := h.fits
    rwa [hgive] at hfits

end Machine

/-- Where a text goes on behind a type, the text before that place is a text of the type. -/
theorem parse_of_trailing {text : String} {offset : Nat}
    (h : parse text = .error (.stuck .trailing offset)) :
    ∃ before after t, text = before ++ after ∧ before.utf8ByteSize = offset ∧
      parse before = .ok t := by
  have hread := Machine.reads_typeAt 0 [] (List.suffix_refl text.toList)
  rw [parse, readAll_eq] at h
  cases htype : typeAt text.toList with
  | error stuck =>
    rw [htype] at h hread
    simp only [Except.error.injEq, ReadError.stuck.injEq] at h
    exact absurd h.1 hread.2.1
  | ok r =>
    rw [htype] at h
    by_cases hnil : skipBlank r.2 = []
    · simp [hnil] at h
    · simp only [hnil, if_false, Except.error.injEq, ReadError.stuck.injEq, true_and] at h
      obtain ⟨hwf, m, hspaced, hm⟩ := spelled_of_typeAt text.toList htype
      obtain ⟨front, htext, hfront⟩ := hspaced.exists_front
      obtain ⟨blank, hblank, hsplit⟩ := Text.exists_blank_append m
      rw [hm] at hsplit
      have hwhole : text.toList = (front ++ blank) ++ skipBlank r.2 := by
        rw [htext, hsplit, List.append_assoc]
      -- white space behind the type has been passed over, and belongs to what stands before
      refine ⟨String.ofList (front ++ blank), String.ofList (skipBlank r.2), r.1, ?_, ?_, ?_⟩
      · rw [← String.ofList_append, ← hwhole, String.ofList_toList]
      · rw [byteLength_ofList, ← h, hwhole, byteLength_append _ (skipBlank r.2), Nat.add_sub_cancel]
      · refine parse_eq_ok_iff.mpr ⟨hwf, blank, ?_, hblank⟩
        rw [String.toList_ofList]
        exact hfront blank

/-- Reading a text stays at positions that cut no character and are not beyond its end, never goes
back, and uses up bytes with every call and every round of a loop. So it comes to rest, with what
`parse` computes. The offset of a failure is such a position, and where the text goes on behind a
type, what stands before is accepted. -/
theorem parse_stays_inside (text : String) :
    (∀ k, Machine.Run text.toList .init k →
      k.Inside text ∧
        (∀ move l, k.next? text.toList = some (move, l) →
          k.pos ≤ l.pos ∧ (move ≠ .step → k.pos < l.pos)) ∧
        (AtRest (Machine.Turn text.toList) k → k.result? = some (parse text))) ∧
      EndsWithinTurns (Machine.Turn text.toList) (7 * text.utf8ByteSize + 6) .init ∧
      ∀ e, parse text = .error e → ∃ fault offset,
        e = .stuck fault offset ∧
          e.message = fault.message ++ " at offset " ++ Nat.repr offset ∧
          offset ≤ text.utf8ByteSize ∧ (⟨offset⟩ : String.Pos.Raw).IsValid text ∧
          (fault = .trailing → ∃ before after t, text = before ++ after ∧
            before.utf8ByteSize = offset ∧ parse before = .ok t) := by
  refine ⟨fun k hk => ?_, ?_, fun e he => ?_⟩
  · have hsafe := Machine.safe_of_run hk
    refine ⟨hsafe.inside, fun move l hnext => ?_, Machine.result?_of_atRest hk⟩
    have hadvances := Machine.advances_next? hsafe hnext
    exact ⟨hadvances.pos_le, hadvances.consumes⟩
  · have hturns : EndsWithinTurns (Machine.Turn text.toList)
        (Machine.init.budget text.toList) .init := by
      refine endsWithinTurns_of_budget (fun k l hk hturn => ?_) (Machine.Safe.init text.toList)
      obtain ⟨move, hnext⟩ := hturn
      have hadvances := Machine.advances_next? hk hnext
      exact ⟨hadvances.safe, hadvances.cheaper⟩
    have hbudget : Machine.init.budget text.toList = 7 * text.utf8ByteSize + 6 := by
      simp [Machine.budget, Machine.init, Control.rank, Spot.rank]
    rwa [hbudget] at hturns
  · obtain ⟨k, hk, hresult⟩ := Machine.run_parse text
    have hinside := (Machine.safe_of_run hk).inside
    rw [he, Machine.result?] at hresult
    split at hresult
    case h_1 => cases hresult
    case h_2 fault hcontrol =>
      obtain rfl := Except.error.inj (Option.some.inj hresult)
      refine ⟨fault, k.pos, rfl, rfl, hinside.pos_le, hinside.isValid, ?_⟩
      rintro rfl
      exact parse_of_trailing he
    all_goals cases hresult

end BeanSynthesis.TypeExpr
