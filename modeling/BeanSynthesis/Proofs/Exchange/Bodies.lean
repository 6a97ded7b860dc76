import BeanSynthesis.Format.Body
import BeanSynthesis.Proofs.Exchange.Codec
import BeanSynthesis.Proofs.TypeText.Reading

/-!
# Exchange of types and bodies

Types and class references are exchanged as their written forms, so they have to be well-formed.
Expressions and statements are exchanged as tagged records within each other. The reader goes down a
bounded number of levels, each of which takes at least one level of the text.
-/

namespace BeanSynthesis

open Json (Node Fields Codec Record bind_eq_ok pure_eq_ok ok_bind)

/-! ## Types and operators -/

namespace TypeExpr

/-- A type is written without numbers. -/
@[simp] theorem plain_toJson (t : TypeExpr) : t.toJson.Plain := Json.plain_str _

/-- A type is written without nesting. -/
@[simp] theorem depth_toJson (t : TypeExpr) : t.toJson.depth = 0 := rfl

/-- Well-formed types are what is read as types. -/
theorem codec (limit : Nat) : Codec toJson ofNode WellFormed 0 limit where
  sound {node t} h := by
    obtain ⟨text, -, h⟩ := bind_eq_ok.1 h
    split at h
    case h_1 t' hparse =>
      obtain rfl := pure_eq_ok.1 h
      exact ⟨(parse_eq_ok_iff.1 hparse).1, fun _ => Nat.zero_le _⟩
    case h_2 => cases h
  plain _ := plain_toJson _
  back {t room whole} h _ _ := by
    have hparse : parse t.toText = .ok t := parse_eq_ok_iff.2 ⟨h, toText_writtenAs t⟩
    simp only [ofNode, toJson, Node.text, Json.str, ok_bind, hparse]
    rfl

end TypeExpr

namespace ClassRef

/-- A class reference is well-formed if it is as a type. -/
def WellFormed (c : ClassRef) : Prop := (TypeExpr.ofClass c).WellFormed

private theorem parse_eq_ok_iff {text : String} {c : ClassRef} :
    parse text = .ok c ↔ TypeExpr.parse text = .ok (.ofClass c) := by
  unfold parse
  split
  case h_1 t ht =>
    rw [ht]
    cases t with
    | named name args =>
      cases c
      simp [TypeExpr.asClass?, TypeExpr.ofClass]
    | _ => simp [TypeExpr.asClass?, TypeExpr.ofClass]
  case h_2 e he => simp [he]

/-- A class is written without numbers. -/
@[simp] theorem plain_toJson (c : ClassRef) : c.toJson.Plain := Json.plain_str _

/-- A class is written without nesting. -/
@[simp] theorem depth_toJson (c : ClassRef) : c.toJson.depth = 0 := rfl

/-- A class is not written as null. -/
theorem toJson_ne_null (c : ClassRef) : c.toJson ≠ .null := nofun

/-- Well-formed classes are what is read as classes. -/
theorem codec (limit : Nat) : Codec toJson ofNode WellFormed 0 limit where
  sound {node c} h := by
    obtain ⟨text, -, h⟩ := bind_eq_ok.1 h
    split at h
    case h_1 c' hparse =>
      obtain rfl := pure_eq_ok.1 h
      exact ⟨(TypeExpr.parse_eq_ok_iff.1 (parse_eq_ok_iff.1 hparse)).1, fun _ => Nat.zero_le _⟩
    case h_2 => cases h
  plain _ := plain_toJson _
  back {c room whole} h _ _ := by
    have hparse : parse c.toText = .ok c :=
      parse_eq_ok_iff.2 (TypeExpr.parse_eq_ok_iff.2 ⟨h, TypeExpr.toText_writtenAs _⟩)
    simp only [ofNode, toJson, Node.text, Json.str, ok_bind, hparse]
    rfl

end ClassRef

namespace BinaryOp

/-- An operator is written without numbers. -/
@[simp] theorem plain_toJson (op : BinaryOp) : op.toJson.Plain := by cases op <;> rfl

/-- An operator is written without nesting. -/
@[simp] theorem depth_toJson (op : BinaryOp) : op.toJson.depth = 0 := by cases op <;> rfl

private theorem codec (limit : Nat) : Codec toJson (Node.choice names) (fun _ => True) 0 limit :=
  .choice limit fun op => by cases op <;> exact ⟨_, rfl, rfl⟩

end BinaryOp

/-! ## Expressions -/

namespace Expr

mutual

/-- Whether the exchange format can hold an expression: its types are well-formed, and its integers
have 64 bits. -/
def Exchangeable : Expr → Prop
  | thisRef => True
  | superRef => True
  | nullLit => True
  | boolLit _ => True
  | intLit value => -9223372036854775808 ≤ value ∧ value ≤ 9223372036854775807
  | strLit _ => True
  | ident _ => True
  | field target _ => target.Exchangeable
  | call _ args => AllExchangeable args
  | invoke target _ args => target.Exchangeable ∧ AllExchangeable args
  | staticCall owner _ args => owner.WellFormed ∧ AllExchangeable args
  | staticField owner _ => owner.WellFormed
  | newObject type args => type.WellFormed ∧ AllExchangeable args
  | cast type operand => type.WellFormed ∧ operand.Exchangeable
  | not operand => operand.Exchangeable
  | binary _ lhs rhs => lhs.Exchangeable ∧ rhs.Exchangeable
  | instanceOf operand type => operand.Exchangeable ∧ type.WellFormed
  | cond test yes no => test.Exchangeable ∧ yes.Exchangeable ∧ no.Exchangeable

/-- `Exchangeable` for all expressions of a list. -/
def AllExchangeable : List Expr → Prop
  | [] => True
  | e :: es => e.Exchangeable ∧ AllExchangeable es

end

/-- Expressions can be exchanged together if and only if each of them can. -/
theorem allExchangeable_iff {es : List Expr} : AllExchangeable es ↔ ∀ e ∈ es, e.Exchangeable := by
  induction es with
  | nil => simp [AllExchangeable]
  | cons e es ih => simp [AllExchangeable, ih]

/-- Expressions are written one by one. -/
theorem listToJson_eq (es : List Expr) : listToJson es = es.map toJson := by
  induction es with
  | nil => rfl
  | cons e es ih => rw [listToJson, ih, List.map_cons]

private theorem toJson_ne_null (e : Expr) : e.toJson ≠ .null := by
  cases e <;> simp [toJson, Json.obj]

/-- An expression is written with nesting. -/
theorem depth_toJson_pos (e : Expr) : 0 < e.toJson.depth := by
  cases e <;> exact Json.depth_obj_pos _

mutual

private theorem plain_toJson (e : Expr) (h : e.Exchangeable) : e.toJson.Plain := by
  cases e with
  | intLit value =>
    have hrange : -9223372036854775808 ≤ value ∧ value ≤ 9223372036854775807 := h
    simp only [toJson, Json.plain_obj, List.forall_mem_cons, Json.plain_str, Json.plain_int]
    exact ⟨trivial, by omega, List.forall_mem_nil _⟩
  | field target name => simpa [toJson] using plain_toJson target h
  | call method args => simpa [toJson, listToJson_eq] using plain_args args h
  | invoke target method args =>
    simpa [toJson, listToJson_eq] using ⟨plain_toJson target h.1, plain_args args h.2⟩
  | staticCall owner method args => simpa [toJson, listToJson_eq] using plain_args args h.2
  | newObject type args => simpa [toJson, listToJson_eq] using plain_args args h.2
  | cast type operand => simpa [toJson] using plain_toJson operand h.2
  | not operand => simpa [toJson] using plain_toJson operand h
  | binary op lhs rhs => simpa [toJson] using ⟨plain_toJson lhs h.1, plain_toJson rhs h.2⟩
  | instanceOf operand type => simpa [toJson] using plain_toJson operand h.1
  | cond test yes no =>
    simpa [toJson] using ⟨plain_toJson test h.1, plain_toJson yes h.2.1, plain_toJson no h.2.2⟩
  | _ => simp [toJson]

private theorem plain_args (es : List Expr) (h : AllExchangeable es) :
    ∀ e ∈ es, e.toJson.Plain := by
  cases es with
  | nil => exact List.forall_mem_nil _
  | cons e es => exact List.forall_mem_cons.2 ⟨plain_toJson e h.1, plain_args es h.2⟩

end

private theorem listCodec {levels : Nat} (h : Codec toJson (ofNode levels) Exchangeable 0 levels) :
    Codec (fun es => .array (listToJson es)) (Node.list (ofNode levels)) AllExchangeable 0
      levels := by
  have hall : AllExchangeable = fun es => ∀ e ∈ es, e.Exchangeable :=
    funext fun _ => propext allExchangeable_iff
  simpa only [hall, listToJson_eq] using h.list 0 (by decide)

/-- What is read from a tagged record, if expressions one level below are exchanged faithfully. -/
theorem sound_succ {levels : Nat} (ih : Codec toJson (ofNode levels) Exchangeable 0 levels)
    {node : Node} {e : Expr} (h : ofNode (levels + 1) node = .ok e) :
    e.Exchangeable ∧ e.toJson.depth ≤ node.room := by
  obtain ⟨⟨tag, fields⟩, htagged, h⟩ := bind_eq_ok.1 h
  obtain ⟨room, hroom, hwithin⟩ := Json.within_of_tagged htagged
  rw [hroom]
  have hexpr : ∀ {member : String} {e : Expr}, fields.required member (ofNode levels) = .ok e →
      e.Exchangeable ∧ e.toJson.depth ≤ room := fun hread =>
    (ih.of_required hwithin hread).imp_right (· (Nat.zero_le _))
  have hargs : ∀ {es : List Expr}, fields.required "args" (Node.list (ofNode levels)) = .ok es →
      AllExchangeable es ∧ (Json.array (listToJson es)).depth ≤ room := fun hread =>
    ((listCodec ih).of_required hwithin hread).imp_right (· (Nat.zero_le _))
  have htype : ∀ {member : String} {t : TypeExpr},
      fields.required member TypeExpr.ofNode = .ok t → t.WellFormed := fun hread =>
    ((TypeExpr.codec levels).of_required hwithin hread).1
  have howner : ∀ {member : String} {c : ClassRef},
      fields.required member ClassRef.ofNode = .ok c → c.WellFormed := fun hread =>
    ((ClassRef.codec levels).of_required hwithin hread).1
  dsimp only at h
  -- The cases stand in the order of the reader's tags: `h_5` is an integer, `h_8` to `h_17` have
  -- parts, from the field to the conditional.
  split at h <;> simp only [bind_eq_ok, pure_eq_ok] at h
  case h_5 =>
    obtain ⟨value, hvalue, rfl⟩ := h
    have hrange := ((Codec.int64 levels).of_required hwithin hvalue).1
    simp [toJson, Exchangeable, hrange]
  case h_8 =>
    obtain ⟨target, htarget, name, -, rfl⟩ := h
    simp [toJson, Exchangeable, hexpr htarget]
  case h_9 =>
    obtain ⟨target, htarget, method, -, args, hes, h⟩ := h
    have htarget := (ih.of_nullable toJson_ne_null hwithin htarget).imp_right (· (Nat.zero_le _))
    cases target with
    | none =>
      obtain rfl := pure_eq_ok.1 h
      simp [toJson, Exchangeable, hargs hes]
    | some target =>
      obtain rfl := pure_eq_ok.1 h
      have hdepth : target.toJson.depth ≤ room := htarget.2
      simp [toJson, Exchangeable, hargs hes, htarget.1 target rfl, hdepth]
  case h_10 =>
    obtain ⟨owner, hread, method, -, args, hes, rfl⟩ := h
    simp [toJson, Exchangeable, howner hread, hargs hes]
  case h_11 =>
    obtain ⟨owner, hread, name, -, rfl⟩ := h
    simp [toJson, Exchangeable, howner hread]
  case h_12 =>
    obtain ⟨type, hread, args, hes, rfl⟩ := h
    simp [toJson, Exchangeable, htype hread, hargs hes]
  case h_13 =>
    obtain ⟨type, hread, operand, hoperand, rfl⟩ := h
    simp [toJson, Exchangeable, htype hread, hexpr hoperand]
  case h_14 =>
    obtain ⟨operand, hoperand, rfl⟩ := h
    simp [toJson, Exchangeable, hexpr hoperand]
  case h_15 =>
    obtain ⟨op, -, lhs, hlhs, rhs, hrhs, rfl⟩ := h
    simp [toJson, Exchangeable, hexpr hlhs, hexpr hrhs]
  case h_16 =>
    obtain ⟨operand, hoperand, type, hread, rfl⟩ := h
    simp [toJson, Exchangeable, hexpr hoperand, htype hread]
  case h_17 =>
    obtain ⟨test, htest, yes, hyes, no, hno, rfl⟩ := h
    simp [toJson, Exchangeable, hexpr htest, hexpr hyes, hexpr hno]
  -- The expressions without parts: the words, names, and the other literals.
  case h_1 | h_2 | h_3 =>
    subst h
    simp [toJson, Exchangeable]
  all_goals
    obtain ⟨value, -, rfl⟩ := h
    simp [toJson, Exchangeable]

/-- An expression is read back, if those one level below are exchanged faithfully. -/
theorem back_succ {levels : Nat} (ih : Codec toJson (ofNode levels) Exchangeable 0 levels)
    {e : Expr} {room : Nat} {whole : Bool} (h : e.Exchangeable) (hdepth : e.toJson.depth ≤ room)
    (hlimit : room ≤ levels + 1) : ofNode (levels + 1) ⟨e.toJson, room, whole⟩ = .ok e := by
  have hargs := listCodec ih
  cases e with
    -- every case starts from the members behind the tag
    (obtain ⟨inner, hrecord, htagged⟩ :=
        Json.exists_tagged variants (plain_toJson _ h) rfl (by simp) (by decide) hdepth hlimit whole
     rw [ofNode, htagged, ok_bind])
  | thisRef =>
    rfl
  | superRef =>
    rfl
  | nullLit =>
    rfl
  | boolLit value =>
    simp only [ok_bind, (Codec.bool _).required hrecord "value" value trivial (by simp)]
    rfl
  | intLit value =>
    simp only [ok_bind, (Codec.int64 _).required hrecord "value" value h (by simp)]
    rfl
  | strLit value =>
    simp only [ok_bind, (Codec.text _).required hrecord "value" value trivial (by simp)]
    rfl
  | ident name =>
    simp only [ok_bind, (Codec.text _).required hrecord "name" name trivial (by simp)]
    rfl
  | field target name =>
    simp only [ok_bind, ih.required hrecord "target" target h (by simp),
      (Codec.text _).required hrecord "name" name trivial (by simp)]
    rfl
  | call method args =>
    simp only [ok_bind,
      ih.nullable_written hrecord "target" toJson_ne_null none nofun (by simp [Json.option]),
      (Codec.text _).required hrecord "method" method trivial (by simp),
      hargs.required hrecord "args" args h (by simp)]
    rfl
  | invoke target method args =>
    simp only [ok_bind,
      ih.nullable_written hrecord "target" toJson_ne_null (some target) (by simpa using h.1)
        (by simp [Json.option]),
      (Codec.text _).required hrecord "method" method trivial (by simp),
      hargs.required hrecord "args" args h.2 (by simp)]
    rfl
  | staticCall owner method args =>
    simp only [ok_bind, (ClassRef.codec _).required hrecord "class" owner h.1 (by simp),
      (Codec.text _).required hrecord "method" method trivial (by simp),
      hargs.required hrecord "args" args h.2 (by simp)]
    rfl
  | staticField owner name =>
    simp only [ok_bind, (ClassRef.codec _).required hrecord "class" owner h (by simp),
      (Codec.text _).required hrecord "name" name trivial (by simp)]
    rfl
  | newObject type args =>
    simp only [ok_bind, (TypeExpr.codec _).required hrecord "ty" type h.1 (by simp),
      hargs.required hrecord "args" args h.2 (by simp)]
    rfl
  | cast type operand =>
    simp only [ok_bind, (TypeExpr.codec _).required hrecord "ty" type h.1 (by simp),
      ih.required hrecord "expr" operand h.2 (by simp)]
    rfl
  | not operand =>
    simp only [ok_bind, ih.required hrecord "expr" operand h (by simp)]
    rfl
  | binary op lhs rhs =>
    simp only [ok_bind, (BinaryOp.codec _).required hrecord "op" op trivial (by simp),
      ih.required hrecord "lhs" lhs h.1 (by simp),
      ih.required hrecord "rhs" rhs h.2 (by simp)]
    rfl
  | instanceOf operand type =>
    simp only [ok_bind, ih.required hrecord "expr" operand h.1 (by simp),
      (TypeExpr.codec _).required hrecord "ty" type h.2 (by simp)]
    rfl
  | cond test yes no =>
    simp only [ok_bind, ih.required hrecord "cond" test h.1 (by simp),
      ih.required hrecord "then" yes h.2.1 (by simp),
      ih.required hrecord "otherwise" no h.2.2 (by simp)]
    rfl

private theorem codec (levels : Nat) : Codec toJson (ofNode levels) Exchangeable 0 levels := by
  induction levels with
  | zero =>
    refine ⟨nofun, plain_toJson _, fun {e room _} _ hdepth hlimit => ?_⟩
    have hpos := depth_toJson_pos e
    omega
  | succ levels ih =>
    exact ⟨fun h => (sound_succ ih h).imp_right fun hdepth _ => hdepth, plain_toJson _,
      back_succ ih⟩

end Expr

/-! ## Statements -/

namespace Stmt

mutual

/-- Whether the exchange format can hold a statement. -/
def Exchangeable : Stmt → Prop
  | ret value => ∀ e ∈ value, e.Exchangeable
  | expr e => e.Exchangeable
  | decl _ type _ init => type.WellFormed ∧ ∀ e ∈ init, e.Exchangeable
  | assign target value => target.Exchangeable ∧ value.Exchangeable
  | ifThen test body => test.Exchangeable ∧ AllExchangeable body
  | ifElse test body otherwise =>
    test.Exchangeable ∧ AllExchangeable body ∧ AllExchangeable otherwise
  | forEach type _ iterable body =>
    type.WellFormed ∧ iterable.Exchangeable ∧ AllExchangeable body

/-- `Exchangeable` for all statements of a list. -/
def AllExchangeable : List Stmt → Prop
  | [] => True
  | s :: rest => s.Exchangeable ∧ AllExchangeable rest

end

/-- Statements can be exchanged together if and only if each of them can. -/
theorem allExchangeable_iff {b : List Stmt} : AllExchangeable b ↔ ∀ s ∈ b, s.Exchangeable := by
  induction b with
  | nil => simp [AllExchangeable]
  | cons s rest ih => simp [AllExchangeable, ih]

/-- Statements are written one by one. -/
theorem listToJson_eq (b : List Stmt) : listToJson b = b.map toJson := by
  induction b with
  | nil => rfl
  | cons s rest ih => rw [listToJson, ih, List.map_cons]

private theorem depth_toJson_pos (s : Stmt) : 0 < s.toJson.depth := by
  cases s <;> exact Json.depth_obj_pos _

private theorem plain_option {o : Option Expr} (h : ∀ e ∈ o, e.Exchangeable) :
    (Json.option Expr.toJson o).Plain := by
  cases o with
  | none => exact Json.plain_null
  | some e => exact e.plain_toJson (h e rfl)

mutual

private theorem plain_toJson (s : Stmt) (h : s.Exchangeable) : s.toJson.Plain := by
  cases s with
  | ret value => simpa [toJson] using plain_option h
  | expr e => simpa [toJson] using e.plain_toJson h
  | decl isFinal type name init => simpa [toJson] using plain_option h.2
  | assign target value =>
    simpa [toJson] using ⟨target.plain_toJson h.1, value.plain_toJson h.2⟩
  | ifThen test body =>
    simpa [toJson, listToJson_eq] using ⟨test.plain_toJson h.1, plain_body body h.2⟩
  | ifElse test body otherwise =>
    simpa [toJson, listToJson_eq] using
      ⟨test.plain_toJson h.1, plain_body body h.2.1, plain_body otherwise h.2.2⟩
  | forEach type name iterable body =>
    simpa [toJson, listToJson_eq] using ⟨iterable.plain_toJson h.2.1, plain_body body h.2.2⟩

private theorem plain_body (b : List Stmt) (h : AllExchangeable b) : ∀ s ∈ b, s.toJson.Plain := by
  cases b with
  | nil => exact List.forall_mem_nil _
  | cons s rest => exact List.forall_mem_cons.2 ⟨plain_toJson s h.1, plain_body rest h.2⟩

end

private theorem listCodec {levels limit : Nat}
    (h : Codec toJson (ofNode levels) Exchangeable 0 limit)
    (more : Nat) :
    Codec (fun b => .array (listToJson b)) (Node.list (ofNode levels)) AllExchangeable more
      limit := by
  have hall : AllExchangeable = fun b => ∀ s ∈ b, s.Exchangeable :=
    funext fun _ => propext allExchangeable_iff
  simpa only [hall, listToJson_eq] using h.list more (Nat.zero_le _)

private theorem array_ne_null (b : List Stmt) : Json.array (listToJson b) ≠ .null := nofun

/-- What is read from a tagged record, if statements one level below are exchanged faithfully. -/
theorem sound_succ {levels : Nat} (ih : Codec toJson (ofNode levels) Exchangeable 0 levels)
    {node : Node} {s : Stmt} (h : ofNode (levels + 1) node = .ok s) :
    s.Exchangeable ∧ s.toJson.depth ≤ node.room := by
  obtain ⟨⟨tag, fields⟩, htagged, h⟩ := bind_eq_ok.1 h
  obtain ⟨room, hroom, hwithin⟩ := Json.within_of_tagged htagged
  rw [hroom]
  have hexpr : ∀ {member : String} {e : Expr},
      fields.required member (Expr.ofNode levels) = .ok e →
        e.Exchangeable ∧ e.toJson.depth ≤ room := fun hread =>
    ((Expr.codec levels).of_required hwithin hread).imp_right (· (Nat.zero_le _))
  have hoptional : ∀ {member : String} {o : Option Expr},
      fields.nullable member (Expr.ofNode levels) = .ok o →
        (∀ e ∈ o, e.Exchangeable) ∧ (Json.option Expr.toJson o).depth ≤ room := fun hread =>
    ((Expr.codec levels).of_nullable Expr.toJson_ne_null hwithin hread).imp_right
      (· (Nat.zero_le _))
  have hbody : ∀ {member : String} {b : List Stmt},
      fields.required member (Node.list (ofNode levels)) = .ok b →
        AllExchangeable b ∧ (Json.array (listToJson b)).depth ≤ room := fun hread =>
    ((listCodec ih 0).of_required hwithin hread).imp_right (· (Nat.zero_le _))
  have htype : ∀ {member : String} {t : TypeExpr},
      fields.required member TypeExpr.ofNode = .ok t → t.WellFormed := fun hread =>
    ((TypeExpr.codec levels).of_required hwithin hread).1
  dsimp only at h
  -- The cases stand in the order of the reader's tags, from the return to the loop.
  split at h <;> simp only [bind_eq_ok, pure_eq_ok] at h
  case h_1 =>
    obtain ⟨value, hvalue, rfl⟩ := h
    simpa [toJson, Exchangeable] using hoptional hvalue
  case h_2 =>
    obtain ⟨e, he, rfl⟩ := h
    simp [toJson, Exchangeable, hexpr he]
  case h_3 =>
    obtain ⟨isFinal, -, type, hread, name, -, init, hinit, rfl⟩ := h
    simpa [toJson, Exchangeable, htype hread] using hoptional hinit
  case h_4 =>
    obtain ⟨target, htarget, value, hvalue, rfl⟩ := h
    simp [toJson, Exchangeable, hexpr htarget, hexpr hvalue]
  case h_5 =>
    obtain ⟨test, htest, body, hread, otherwise, hotherwise, h⟩ := h
    have hotherwise := ((listCodec ih 0).of_nullable array_ne_null hwithin hotherwise).imp_right
      (· (Nat.zero_le _))
    cases otherwise with
    | none =>
      obtain rfl := pure_eq_ok.1 h
      simp [toJson, Exchangeable, hexpr htest, hbody hread]
    | some otherwise =>
      obtain rfl := pure_eq_ok.1 h
      have hdepth : (Json.array (listToJson otherwise)).depth ≤ room := hotherwise.2
      simp [toJson, Exchangeable, hexpr htest, hbody hread, hotherwise.1 otherwise rfl, hdepth]
  case h_6 =>
    obtain ⟨type, hread, name, -, iterable, hiterable, body, hbodyRead, rfl⟩ := h
    simp [toJson, Exchangeable, htype hread, hexpr hiterable, hbody hbodyRead]

/-- A statement is read back, if those one level below are exchanged faithfully. -/
theorem back_succ {levels : Nat} (ih : Codec toJson (ofNode levels) Exchangeable 0 levels)
    {s : Stmt} {room : Nat} {whole : Bool} (h : s.Exchangeable) (hdepth : s.toJson.depth ≤ room)
    (hlimit : room ≤ levels + 1) : ofNode (levels + 1) ⟨s.toJson, room, whole⟩ = .ok s := by
  have hexpr := Expr.codec levels
  have hbody := listCodec ih 0
  cases s with
    -- every case starts from the members behind the tag
    (obtain ⟨inner, hrecord, htagged⟩ :=
        Json.exists_tagged variants (plain_toJson _ h) rfl (by simp) (by decide) hdepth hlimit whole
     rw [ofNode, htagged, ok_bind])
  | ret value =>
    simp only [ok_bind,
      hexpr.nullable_written hrecord "value" Expr.toJson_ne_null value h (by simp)]
    rfl
  | expr e =>
    simp only [ok_bind, hexpr.required hrecord "expr" e h (by simp)]
    rfl
  | decl isFinal type name init =>
    simp only [ok_bind, (Codec.bool _).required hrecord "is_final" isFinal trivial (by simp),
      (TypeExpr.codec _).required hrecord "ty" type h.1 (by simp),
      (Codec.text _).required hrecord "name" name trivial (by simp),
      hexpr.nullable_written hrecord "init" Expr.toJson_ne_null init h.2 (by simp)]
    rfl
  | assign target value =>
    simp only [ok_bind, hexpr.required hrecord "target" target h.1 (by simp),
      hexpr.required hrecord "value" value h.2 (by simp)]
    rfl
  | ifThen test body =>
    simp only [ok_bind, hexpr.required hrecord "cond" test h.1 (by simp),
      hbody.required hrecord "then" body h.2 (by simp),
      hbody.nullable_written hrecord "otherwise" array_ne_null none nofun (by simp [Json.option])]
    rfl
  | ifElse test body otherwise =>
    simp only [ok_bind, hexpr.required hrecord "cond" test h.1 (by simp),
      hbody.required hrecord "then" body h.2.1 (by simp),
      hbody.nullable_written hrecord "otherwise" array_ne_null (some otherwise)
        (by simpa using h.2.2) (by simp [Json.option])]
    rfl
  | forEach type name iterable body =>
    simp only [ok_bind, (TypeExpr.codec _).required hrecord "ty" type h.1 (by simp),
      (Codec.text _).required hrecord "var" name trivial (by simp),
      hexpr.required hrecord "iterable" iterable h.2.1 (by simp),
      hbody.required hrecord "body" body h.2.2 (by simp)]
    rfl

private theorem codec (levels : Nat) : Codec toJson (ofNode levels) Exchangeable 0 levels := by
  induction levels with
  | zero =>
    refine ⟨nofun, plain_toJson _, fun {s room _} _ hdepth hlimit => ?_⟩
    have hpos := depth_toJson_pos s
    omega
  | succ levels ih =>
    exact ⟨fun h => (sound_succ ih h).imp_right fun hdepth _ => hdepth, plain_toJson _,
      back_succ ih⟩

end Stmt

/-- A block without statements is the body that a constructor has if none is given, so blocks take
one level at least. -/
theorem Block.codec (more : Nat) :
    Codec toJson ofNode Stmt.AllExchangeable more Json.nestingLimit :=
  Stmt.listCodec (Stmt.codec Json.nestingLimit) more

end BeanSynthesis
