import BeanSynthesis.Proofs.TypeText.Reading
import BeanSynthesis.Proofs.Turns

/-!
# Reading at byte positions

A text can be read by a machine that stands at a byte position and looks at the text from there. It
goes on by the bytes of the characters and tokens that it sees, and would break at a position that
cuts a character. It never does: whatever it has read are whole characters. Every call of the reader
and every round of its loops uses up bytes, so it comes to rest, and then it has what `parse`
computes.
-/

namespace BeanSynthesis.TypeExpr

open Text (skipBlank isBlank afterStart?)

/-! ## Positions -/

/-- The characters of a text from a byte position on. There are none if the position is beyond the
text or cuts a character. -/
def charsFrom? : List Char → Nat → Option (List Char)
  | text, 0 => some text
  | [], _ + 1 => none
  | c :: text, pos + 1 =>
    if c.utf8Size ≤ pos + 1 then charsFrom? text (pos + 1 - c.utf8Size) else none

/-- The characters between two byte positions, if these are in order and cut no character. -/
def slice? (text : List Char) (start stop : Nat) : Option (List Char) :=
  match charsFrom? text start, charsFrom? text stop with
  | some s, some rest => if start ≤ stop then some (s.take (s.length - rest.length)) else none
  | _, _ => none

variable {text front s rest : List Char}

@[simp] private theorem byteLength_nil : byteLength [] = 0 := rfl

@[simp] private theorem byteLength_cons (c : Char) (s : List Char) :
    byteLength (c :: s) = c.utf8Size + byteLength s := rfl

/-- The bytes of a text are those of its parts. -/
@[simp] theorem byteLength_append (front rest : List Char) :
    byteLength (front ++ rest) = byteLength front + byteLength rest := by
  induction front with
  | nil => simp
  | cons c front ih => simp [ih, Nat.add_assoc]

/-- A text with characters has bytes. -/
theorem byteLength_pos (h : s ≠ []) : 0 < byteLength s := by
  cases s with
  | nil => exact absurd rfl h
  | cons c s =>
    have := c.utf8Size_pos
    rw [byteLength_cons]
    omega

/-- A string of characters has their bytes. -/
theorem byteLength_ofList (s : List Char) : (String.ofList s).utf8ByteSize = byteLength s := by
  induction s with
  | nil => simp
  | cons c s ih =>
    rw [String.ofList_cons, String.utf8ByteSize_append, String.utf8ByteSize_singleton, ih,
      byteLength_cons]

/-- The characters of a string have its bytes. -/
@[simp] theorem byteLength_toList (text : String) : byteLength text.toList = text.utf8ByteSize := by
  rw [← byteLength_ofList, String.ofList_toList]

/-- A position cuts no character exactly if it is the length of some first characters. -/
theorem charsFrom?_eq_some {pos : Nat} :
    charsFrom? text pos = some rest ↔ ∃ front, text = front ++ rest ∧ byteLength front = pos := by
  constructor
  · intro h
    fun_induction charsFrom? text pos with
    | case1 text => exact ⟨[], Option.some.inj h, rfl⟩
    | case2 => cases h
    | case3 c text pos hsize ih =>
      obtain ⟨front, rfl, hfront⟩ := ih h
      refine ⟨c :: front, rfl, ?_⟩
      rw [byteLength_cons, hfront]
      omega
    | case4 => cases h
  · rintro ⟨front, rfl, rfl⟩
    induction front with
    | nil => simp [charsFrom?]
    | cons c front ih =>
      obtain ⟨pos, hpos⟩ : ∃ pos, byteLength (c :: front) = pos + 1 :=
        Nat.exists_eq_succ_of_ne_zero (Nat.ne_of_gt (byteLength_pos (by simp)))
      have hrest : pos + 1 - c.utf8Size = byteLength front := by
        rw [byteLength_cons] at hpos
        omega
      have hsize : c.utf8Size ≤ pos + 1 := by
        rw [byteLength_cons] at hpos
        omega
      rw [hpos, List.cons_append, charsFrom?, if_pos hsize, hrest, ih]

/-- Behind characters that stand at a position no character is cut either. -/
theorem charsFrom?_add {pos : Nat} (h : charsFrom? text pos = some (front ++ rest)) :
    charsFrom? text (pos + byteLength front) = some rest := by
  obtain ⟨before, htext, rfl⟩ := charsFrom?_eq_some.mp h
  refine charsFrom?_eq_some.mpr ⟨before ++ front, ?_, byteLength_append _ _⟩
  rw [htext, List.append_assoc]

/-- A position and the rest behind it make up the text. -/
theorem add_byteLength_eq {pos : Nat} (h : charsFrom? text pos = some rest) :
    pos + byteLength rest = byteLength text := by
  obtain ⟨front, rfl, rfl⟩ := charsFrom?_eq_some.mp h
  rw [byteLength_append]

/-- There are characters from a position on exactly if it is a position of the string. -/
theorem isSome_charsFrom?_iff {text : String} {pos : Nat} :
    (charsFrom? text.toList pos).isSome ↔ (⟨pos⟩ : String.Pos.Raw).IsValid text := by
  rw [String.Pos.Raw.isValid_iff_exists_append, Option.isSome_iff_exists]
  constructor
  · rintro ⟨rest, h⟩
    obtain ⟨front, htext, rfl⟩ := charsFrom?_eq_some.mp h
    refine ⟨String.ofList front, String.ofList rest, ?_, ?_⟩
    · rw [← String.ofList_append, ← htext, String.ofList_toList]
    · rw [String.Pos.Raw.ext_iff, String.byteIdx_rawEndPos, byteLength_ofList]
  · rintro ⟨front, rest, rfl, hpos⟩
    refine ⟨rest.toList, charsFrom?_eq_some.mpr ⟨front.toList, String.toList_append, ?_⟩⟩
    have hlength : pos = front.utf8ByteSize := String.Pos.Raw.ext_iff.mp hpos
    rw [byteLength_toList, hlength]

/-! ## The machine -/

/-- Where white space is passed over and a token is looked for. -/
inductive Spot where
  /-- A type begins. -/
  | type
  /-- A wildcard has been read, and its bound may follow. -/
  | afterWildcard
  /-- The name of a class has been read, and its arguments may follow. -/
  | afterName (name : String)
  /-- The last one of these arguments has been read. -/
  | afterArg (name : String) (args : List TypeExpr)
  /-- A type has been read, and brackets may follow. -/
  | afterType (t : TypeExpr)
  /-- The whole type has been read, and the text should be over. -/
  | ending (t : TypeExpr)

/-- What a machine is about to do. -/
inductive Control where
  | look (spot : Spot)
  /-- It is in a name that begins at this position. -/
  | name (first : Nat)
  /-- It gives a type to the call that waits for it. -/
  | give (t : TypeExpr)
  | accepted (t : TypeExpr)
  | refused (fault : Fault)
  /-- It has looked at a position that cuts a character. -/
  | broken

/-- What a call waits for. -/
inductive Wait where
  | bound
  /-- A further argument, after these. -/
  | arg (name : String) (args : List TypeExpr)

/-- A call of the reader that waits for a type inside its own. -/
structure Call where
  /-- The position at which it was made. -/
  start : Nat
  wait : Wait

/-- A reader at a byte position. -/
structure Machine where
  pos : Nat
  /-- The position at which the call at work was made. -/
  start : Nat
  /-- The calls that wait, the innermost one first. -/
  waiting : List Call
  control : Control

/-- What a turn is in the course of the machine. -/
inductive Move where
  /-- A call of the reader by itself. -/
  | call
  /-- One more round of a loop. -/
  | round
  | step

/-- How a call goes on with the type that it has waited for. -/
def Wait.goOn (t : TypeExpr) : Wait → Control
  | bound => .give (bounded t)
  | arg name args => .look (.afterArg name (args ++ [t]))

/-- What follows a name. -/
def Control.ofName (name : String) : Control :=
  if name = "void" then .look (.afterType void)
  else
    match Primitive.ofKeyword? name with
    | some p => .look (.afterType (primitive p))
    | none => .look (.afterName name)

namespace Machine

/-- The machine at the start of a text. -/
def init : Machine := ⟨0, 0, [], .look .type⟩

/-- The machine with another thing to do. -/
def turnTo (k : Machine) (control : Control) : Machine := { k with control }

/-- The machine behind a character. -/
def pass (k : Machine) (c : Char) : Machine := { k with pos := k.pos + c.utf8Size }

/-- The machine behind a token, where it looks for another one. -/
def eat (k : Machine) (token : Token) (spot : Spot) : Machine :=
  { k with pos := k.pos + byteLength token.chars, control := .look spot }

/-- The machine in a new call, behind a token. -/
def call (k : Machine) (token : Token) (wait : Wait) : Machine where
  pos := k.pos + byteLength token.chars
  start := k.pos + byteLength token.chars
  waiting := ⟨k.start, wait⟩ :: k.waiting
  control := .look .type

/-- The call at work gives a type to the one that waits for it. -/
def give (k : Machine) (t : TypeExpr) : Machine :=
  match k.waiting with
  | [] => k.turnTo (.look (.ending t))
  | ⟨start, wait⟩ :: waiting => { k with start, waiting, control := wait.goOn t }

/-- The machine at the end of a name. -/
def endName (text : List Char) (k : Machine) (first : Nat) : Machine :=
  if first = k.pos then k.turnTo (.refused .expectedName)
  else
    match slice? text first k.pos with
    | some name => k.turnTo (.ofName (String.ofList name))
    | none => k.turnTo .broken

/-- Whether the characters start with a token. -/
def sees (rest : List Char) (token : Token) : Bool := (afterStart? token.chars rest).isSome

/-- Looks for a token, with these characters ahead. -/
def find (text : List Char) (k : Machine) (rest : List Char) : Spot → Move × Machine
  | .type =>
    if sees rest .wildcard then (.step, k.eat .wildcard .afterWildcard)
    else (.step, k.turnTo (.name k.pos))
  | .afterWildcard =>
    if sees rest .bound then (.call, k.call .bound .bound)
    else (.step, k.turnTo (.give unbounded))
  | .afterName name =>
    if sees rest .opening then (.call, k.call .opening (.arg name []))
    else (.step, k.turnTo (.look (.afterType (named name []))))
  | .afterArg name args =>
    if sees rest .comma then (.call, k.call .comma (.arg name args))
    else if sees rest .closing then (.step, k.eat .closing (.afterType (named name args)))
    else (.step, k.turnTo (.refused .expectedSeparator))
  | .afterType t =>
    if sees rest .brackets then (.round, k.eat .brackets (.afterType (array t)))
    else (.step, k.turnTo (.give t))
  | .ending t =>
    if k.pos = byteLength text then (.step, k.turnTo (.accepted t))
    else (.step, k.turnTo (.refused .trailing))

/-- One turn of the machine. There is none when it has accepted or refused the text or is broken. -/
def next? (text : List Char) (k : Machine) : Option (Move × Machine) :=
  match k.control with
  | .look spot =>
    match charsFrom? text k.pos with
    | some rest =>
      match rest.head?.filter isBlank with
      | some c => some (.round, k.pass c)
      | none => some (k.find text rest spot)
    | none => some (.step, k.turnTo .broken)
  | .name first =>
    match charsFrom? text k.pos with
    | some rest =>
      match rest.head?.filter isNameChar with
      | some c => some (.round, k.pass c)
      | none => some (.step, k.endName text first)
    | none => some (.step, k.turnTo .broken)
  | .give t => some (.step, k.give t)
  | .accepted _ | .refused _ | .broken => none

/-- The machine takes one turn. -/
def Turn (text : List Char) (k l : Machine) : Prop := ∃ move, k.next? text = some (move, l)

end Machine

/-! ## What every turn keeps -/

/-- What a machine is about to do fits its position: a name begins where no character is cut, and in
the call at work. The call has used up bytes once it looks for more than a type, and nothing is
broken. -/
def Control.Fits (text : List Char) (start pos : Nat) : Control → Prop
  | .look .type | .accepted _ | .refused _ => True
  | .look _ | .give _ => start < pos
  | .name first => start ≤ first ∧ first ≤ pos ∧ (charsFrom? text first).isSome
  | .broken => False

private theorem Control.fits_look {start pos : Nat} (spot : Spot) (h : start < pos) :
    (look spot).Fits text start pos := by
  cases spot with
  | type => trivial
  | afterWildcard | afterName _ | afterArg _ _ | afterType _ | ending _ => exact h

private theorem Control.Fits.mono {control : Control} {start pos pos' : Nat}
    (h : control.Fits text start pos) (hle : pos ≤ pos') : control.Fits text start pos' := by
  cases control with
  | look spot =>
    cases spot with
    | type => trivial
    | afterWildcard | afterName _ | afterArg _ _ | afterType _ | ending _ => exact h.trans_le hle
  | name first => exact ⟨h.1, h.2.1.trans hle, h.2.2⟩
  | give _ => exact h.trans_le hle
  | accepted _ | refused _ => trivial
  | broken => exact h

/-- How many turns a look for a token can lead to before a byte is used up. -/
def Spot.rank : Spot → Nat
  | .type => 6
  | .afterName _ => 4
  | .afterType _ | .afterWildcard => 3
  | .afterArg _ _ | .ending _ => 1

/-- How many turns there can be before a byte is used up. -/
def Control.rank : Control → Nat
  | .look spot => spot.rank
  | .name _ => 5
  | .give _ => 2
  | .accepted _ | .refused _ | .broken => 0

private theorem Spot.rank_pos (spot : Spot) : 0 < spot.rank := by
  cases spot <;> exact Nat.succ_pos _

private theorem Spot.rank_le (spot : Spot) : spot.rank ≤ 6 := by
  cases spot <;> simp [Spot.rank]

private theorem Control.fits_ofName {start pos : Nat} (name : String) (h : start < pos) :
    (ofName name).Fits text start pos ∧ (ofName name).rank < 5 := by
  unfold ofName
  split
  · exact ⟨h, by simp [rank, Spot.rank]⟩
  · split
    · exact ⟨h, by simp [rank, Spot.rank]⟩
    · exact ⟨h, by simp [rank, Spot.rank]⟩

namespace Machine

variable {k l : Machine} {token : Token} {control : Control} {move : Move}

/-- What holds all along: the position cuts no character, and every call has been made behind the
one that waits for it. -/
structure Safe (text : List Char) (k : Machine) : Prop where
  pos : (charsFrom? text k.pos).isSome
  fits : k.control.Fits text k.start k.pos
  start_le : k.start ≤ k.pos
  calls : (k.start :: k.waiting.map (·.start)).Pairwise (· > ·)

/-- The reader starts at a safe place. -/
theorem Safe.init (text : List Char) : init.Safe text where
  pos := by simp [Machine.init, charsFrom?]
  fits := trivial
  start_le := Nat.le_refl _
  calls := by simp [Machine.init]

/-- How many turns are left at most. A byte makes up for the highest rank and for one more call that
waits. -/
def budget (text : List Char) (k : Machine) : Nat :=
  7 * (byteLength text - k.pos) + k.waiting.length + k.control.rank

/-- A turn keeps the machine safe and does not go back. A call and another round go ahead. -/
structure Advances (text : List Char) (k : Machine) (move : Move) (l : Machine) : Prop where
  safe : l.Safe text
  pos_le : k.pos ≤ l.pos
  consumes : move ≠ .step → k.pos < l.pos
  cheaper : l.budget text < k.budget text

private theorem advances_turnTo (h : k.Safe text) (hfits : control.Fits text k.start k.pos)
    (hrank : control.rank < k.control.rank) : k.Advances text .step (k.turnTo control) where
  safe := ⟨h.pos, hfits, h.start_le, h.calls⟩
  pos_le := Nat.le_refl _
  consumes hmove := absurd rfl hmove
  cheaper := by
    simp only [budget, turnTo]
    omega

private theorem advances_pass (h : k.Safe text) {c : Char}
    (hrest : charsFrom? text k.pos = some (c :: rest)) : k.Advances text .round (k.pass c) := by
  have hsize : 0 < c.utf8Size := c.utf8Size_pos
  have hone : charsFrom? text k.pos = some ([c] ++ rest) := hrest
  have hafter : charsFrom? text (k.pos + c.utf8Size) = some rest := by
    simpa using charsFrom?_add hone
  have hlength := add_byteLength_eq hafter
  have hahead : k.pos < (k.pass c).pos := Nat.lt_add_of_pos_right hsize
  refine ⟨⟨?_, h.fits.mono hahead.le, h.start_le.trans hahead.le, h.calls⟩, hahead.le,
    fun _ => hahead, ?_⟩
  · simp [pass, hafter]
  · simp only [budget, pass]
    omega

/-- Behind a token that it sees the machine cuts no character. -/
theorem charsFrom?_eat {pos : Nat} (hrest : charsFrom? text pos = some rest)
    (hsees : sees rest token) :
    ∃ after, charsFrom? text (pos + byteLength token.chars) = some after := by
  obtain ⟨after, hafter⟩ := Option.isSome_iff_exists.mp hsees
  rw [Text.eq_append_of_afterStart? hafter] at hrest
  exact ⟨after, charsFrom?_add hrest⟩

private theorem advances_eat (h : k.Safe text) (hrest : charsFrom? text k.pos = some rest)
    (hsees : sees rest token) (htoken : 0 < byteLength token.chars) (move : Move) (spot : Spot) :
    k.Advances text move (k.eat token spot) := by
  obtain ⟨after, hafter⟩ := charsFrom?_eat hrest hsees
  have hlength := add_byteLength_eq hafter
  have hspot := spot.rank_le
  have hahead : k.pos < (k.eat token spot).pos := Nat.lt_add_of_pos_right htoken
  have hstart : k.start < (k.eat token spot).pos := h.start_le.trans_lt hahead
  refine ⟨⟨?_, Control.fits_look spot hstart, hstart.le, h.calls⟩, hahead.le, fun _ => hahead, ?_⟩
  · simp [eat, hafter]
  · simp only [budget, eat, Control.rank]
    omega

private theorem advances_call (h : k.Safe text) (hrest : charsFrom? text k.pos = some rest)
    (hsees : sees rest token) (htoken : 0 < byteLength token.chars) (hrank : 0 < k.control.rank)
    (wait : Wait) : k.Advances text .call (k.call token wait) := by
  obtain ⟨after, hafter⟩ := charsFrom?_eat hrest hsees
  have hlength := add_byteLength_eq hafter
  have hahead : k.pos < (k.call token wait).pos := Nat.lt_add_of_pos_right htoken
  refine ⟨⟨?_, trivial, Nat.le_refl _, ?_⟩, hahead.le, fun _ => hahead, ?_⟩
  · simp [call, hafter]
  · -- all calls that wait have been made at the position of the machine or before
    refine List.pairwise_cons.mpr ⟨fun start hstart => ?_, h.calls⟩
    refine Nat.lt_of_le_of_lt ?_ (h.start_le.trans_lt hahead)
    rcases List.mem_cons.mp hstart with rfl | hstart
    · exact Nat.le_refl _
    · exact (List.rel_of_pairwise_cons h.calls hstart).le
  · have hnew : (Control.look .type).rank = 6 := rfl
    simp only [budget, call, List.length_cons, hnew]
    omega

private theorem advances_give (h : k.Safe text) {t : TypeExpr} (hcontrol : k.control = .give t) :
    k.Advances text .step (k.give t) := by
  have hrank : k.control.rank = 2 := by rw [hcontrol]; rfl
  have hfits := h.fits
  rw [hcontrol] at hfits
  have hahead : k.start < k.pos := hfits
  unfold give
  split
  case h_1 hwaiting =>
    refine advances_turnTo h hahead ?_
    rw [hrank]
    exact Nat.one_lt_two
  case h_2 start wait waiting hwaiting =>
    have hcalls := h.calls
    rw [hwaiting] at hcalls
    obtain ⟨hbefore, hcalls⟩ := List.pairwise_cons.mp hcalls
    have hstart : start < k.start := hbefore start List.mem_cons_self
    have hahead' : start < k.pos := hstart.trans hahead
    refine ⟨⟨h.pos, ?_, hahead'.le, hcalls⟩, Nat.le_refl _, fun hmove => absurd rfl hmove, ?_⟩
    · cases wait with
      | bound | arg _ _ => exact hahead'
    · -- what the machine does next has no higher rank, and one call less waits
      have hwait : (wait.goOn t).rank ≤ 2 := by
        cases wait <;> simp [Wait.goOn, Control.rank, Spot.rank]
      simp only [budget, hwaiting, hrank, List.length_cons]
      omega

private theorem advances_endName (h : k.Safe text) {first : Nat}
    (hcontrol : k.control = .name first) :
    k.Advances text .step (k.endName text first) := by
  have hrank : k.control.rank = 5 := by rw [hcontrol]; rfl
  have hfits := h.fits
  rw [hcontrol] at hfits
  obtain ⟨hstart, hle, hfirst⟩ := hfits
  obtain ⟨s, hs⟩ := Option.isSome_iff_exists.mp hfirst
  obtain ⟨rest, hrest⟩ := Option.isSome_iff_exists.mp h.pos
  unfold endName
  split
  case isTrue => exact advances_turnTo h trivial (hrank ▸ Nat.succ_pos 4)
  case isFalse hne =>
    have hslice : slice? text first k.pos = some (s.take (s.length - rest.length)) := by
      simp only [slice?, hs, hrest, if_pos hle]
    have hahead : k.start < k.pos := hstart.trans_lt (Nat.lt_of_le_of_ne hle hne)
    obtain ⟨hname, hlow⟩ :=
      Control.fits_ofName (String.ofList (s.take (s.length - rest.length))) hahead
    rw [hslice]
    exact advances_turnTo h hname (hrank ▸ hlow)

private theorem advances_find (h : k.Safe text) {spot : Spot} (hcontrol : k.control = .look spot)
    (hrest : charsFrom? text k.pos = some rest) :
    k.Advances text (k.find text rest spot).1 (k.find text rest spot).2 := by
  have hpos : 0 < k.control.rank := by
    rw [hcontrol]
    exact spot.rank_pos
  have hfits := h.fits
  rw [hcontrol] at hfits
  cases spot with
  | type =>
    simp only [find]
    split
    case isTrue hsees => exact advances_eat h hrest hsees (by decide) _ _
    case isFalse =>
      exact advances_turnTo h ⟨h.start_le, Nat.le_refl _, h.pos⟩
        (by simp [hcontrol, Control.rank, Spot.rank])
  | afterWildcard =>
    simp only [find]
    split
    case isTrue hsees => exact advances_call h hrest hsees (by decide) hpos _
    case isFalse => exact advances_turnTo h hfits (by simp [hcontrol, Control.rank, Spot.rank])
  | afterName name =>
    simp only [find]
    split
    case isTrue hsees => exact advances_call h hrest hsees (by decide) hpos _
    case isFalse => exact advances_turnTo h hfits (by simp [hcontrol, Control.rank, Spot.rank])
  | afterArg name args =>
    simp only [find]
    split
    case isTrue hsees => exact advances_call h hrest hsees (by decide) hpos _
    case isFalse =>
      split
      case isTrue hsees => exact advances_eat h hrest hsees (by decide) _ _
      case isFalse => exact advances_turnTo h trivial (by simp [hcontrol, Control.rank, Spot.rank])
  | afterType t =>
    simp only [find]
    split
    case isTrue hsees => exact advances_eat h hrest hsees (by decide) _ _
    case isFalse => exact advances_turnTo h hfits (by simp [hcontrol, Control.rank, Spot.rank])
  | ending t =>
    simp only [find]
    split
    · exact advances_turnTo h trivial (by simp [hcontrol, Control.rank, Spot.rank])
    · exact advances_turnTo h trivial (by simp [hcontrol, Control.rank, Spot.rank])

/-- A character that the machine sees and that satisfies `p` is the first one ahead of it. -/
theorem eq_cons_of_filter {p : Char → Bool} {c : Char} (h : rest.head?.filter p = some c) :
    ∃ after, rest = c :: after := by
  cases rest with
  | nil => cases h
  | cons d after =>
    obtain ⟨hhead, -⟩ := Option.filter_eq_some_iff.mp h
    exact ⟨after, congrArg (· :: after) (Option.some.inj hhead)⟩

/-- A step of the reader that is possible advances. -/
theorem advances_next? (h : k.Safe text) (hnext : k.next? text = some (move, l)) :
    k.Advances text move l := by
  obtain ⟨rest, hrest⟩ := Option.isSome_iff_exists.mp h.pos
  unfold next? at hnext
  split at hnext
  case h_1 spot hcontrol =>
    rw [hrest] at hnext
    dsimp only at hnext
    split at hnext
    case h_1 c hblank =>
      obtain ⟨rfl, rfl⟩ := Prod.mk.inj (Option.some.inj hnext)
      obtain ⟨after, rfl⟩ := eq_cons_of_filter hblank
      exact advances_pass h hrest
    case h_2 =>
      have hfind := advances_find h hcontrol hrest
      rwa [Option.some.inj hnext] at hfind
  case h_2 first hcontrol =>
    rw [hrest] at hnext
    dsimp only at hnext
    split at hnext
    case h_1 c hname =>
      obtain ⟨rfl, rfl⟩ := Prod.mk.inj (Option.some.inj hnext)
      obtain ⟨after, rfl⟩ := eq_cons_of_filter hname
      exact advances_pass h hrest
    case h_2 =>
      obtain ⟨rfl, rfl⟩ := Prod.mk.inj (Option.some.inj hnext)
      exact advances_endName h hcontrol
  case h_3 t hcontrol =>
    obtain ⟨rfl, rfl⟩ := Prod.mk.inj (Option.some.inj hnext)
    exact advances_give h hcontrol
  all_goals cases hnext

/-- A machine that starts with a text stays safe. -/
theorem safe_of_run (h : Relation.ReflTransGen (Turn text) init k) : k.Safe text :=
  keeps_of_run (fun _ _ hk ⟨_, hnext⟩ => (advances_next? hk hnext).safe) h (.init text)

/-- The reader has one way to go on at most. -/
theorem turn_rightUnique (text : List Char) : Relator.RightUnique (Turn text) := by
  rintro k l l' ⟨move, hl⟩ ⟨move', hl'⟩
  exact (Prod.mk.inj (Option.some.inj (hl.symm.trans hl'))).2

end Machine

end BeanSynthesis.TypeExpr
