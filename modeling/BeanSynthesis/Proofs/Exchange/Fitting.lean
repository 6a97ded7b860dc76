import BeanSynthesis.Proofs.Exchange.Bodies

/-!
# Bodies that fit

A part of a body fits into a room if the format can hold it and it nests no deeper than the room.
Whether it does hangs on its own parts and the room that is left below it.
-/

namespace BeanSynthesis

namespace Json

variable {α : Type} {encode : α → Json} {room : Nat}

/-- A list nests one level deeper than its entries. -/
theorem depth_items_le_succ {as : List α} :
    (array (as.map encode)).depth ≤ room + 1 ↔ ∀ a ∈ as, (encode a).depth ≤ room := by
  rw [depth_array_le_succ, List.forall_mem_map]

/-- An option nests as deep as what it holds. -/
theorem depth_option_le {o : Option α} :
    (option encode o).depth ≤ room ↔ ∀ a ∈ o, (encode a).depth ≤ room := by
  cases o <;> simp [option]

/-- A dictionary nests one level deeper than its values. -/
theorem depth_dict_le_succ {d : Dict α} :
    (d.toJson encode).depth ≤ room + 1 ↔ ∀ entry ∈ d.entries, (encode entry.2).depth ≤ room := by
  rw [Dict.toJson, depth_obj_le_succ, List.forall_mem_map]

end Json

variable {room : Nat}

/-! ## Expressions -/

namespace Expr

/-- The format can hold the expression, and the room has all its levels. -/
def Fits (room : Nat) (e : Expr) : Prop := e.Exchangeable ∧ e.toJson.depth ≤ room

/-- The format can hold the arguments, and the room below them has all their levels. -/
theorem fits_args {es : List Expr} :
    AllExchangeable es ∧ (Json.array (listToJson es)).depth ≤ room + 1 ↔ ∀ e ∈ es, e.Fits room := by
  rw [allExchangeable_iff, listToJson_eq, Json.depth_items_le_succ]
  exact ⟨fun h e he => ⟨h.1 e he, h.2 e he⟩,
    fun h => ⟨fun e he => (h e he).1, fun e he => (h e he).2⟩⟩

@[simp] private theorem fits_thisRef :
    thisRef.Fits (room + 1) := by simp [Fits, Exchangeable, toJson]

@[simp] private theorem fits_superRef :
    superRef.Fits (room + 1) := by simp [Fits, Exchangeable, toJson]

/-- The null literal fits wherever there is room. -/
@[simp] theorem fits_nullLit : nullLit.Fits (room + 1) := by simp [Fits, Exchangeable, toJson]

@[simp] private theorem fits_boolLit (value : Bool) : (boolLit value).Fits (room + 1) := by
  simp [Fits, Exchangeable, toJson]

@[simp] private theorem fits_strLit (value : String) : (strLit value).Fits (room + 1) := by
  simp [Fits, Exchangeable, toJson]

@[simp] private theorem fits_ident (name : String) : (ident name).Fits (room + 1) := by
  simp [Fits, Exchangeable, toJson]

@[simp] private theorem fits_field {target : Expr} {name : String} :
    (target.field name).Fits (room + 1) ↔ target.Fits room := by
  simp [Fits, Exchangeable, toJson]

@[simp] private theorem fits_call {method : String} {args : List Expr} :
    (call method args).Fits (room + 2) ↔ ∀ e ∈ args, e.Fits room := by
  rw [← fits_args]
  simp [Fits, Exchangeable, toJson]

@[simp] private theorem fits_invoke {target : Expr} {method : String} {args : List Expr} :
    (target.invoke method args).Fits (room + 2) ↔
      target.Fits (room + 1) ∧ ∀ e ∈ args, e.Fits room := by
  rw [← fits_args]
  simp [Fits, Exchangeable, toJson, and_assoc, and_left_comm]

@[simp] private theorem fits_static {owner method : String} {args : List Expr} :
    (static owner method args).Fits (room + 2) ↔
      (ClassRef.ofName owner).WellFormed ∧ ∀ e ∈ args, e.Fits room := by
  rw [← fits_args]
  simp [static, Fits, Exchangeable, toJson, and_assoc]

/-- A static field fits wherever there is room, if its owner can be read. -/
@[simp] theorem fits_staticField {owner : ClassRef} {name : String} :
    (staticField owner name).Fits (room + 1) ↔ owner.WellFormed := by
  simp [Fits, Exchangeable, toJson]

@[simp] private theorem fits_newObject {type : TypeExpr} {args : List Expr} :
    (newObject type args).Fits (room + 2) ↔ type.WellFormed ∧ ∀ e ∈ args, e.Fits room := by
  rw [← fits_args]
  simp [Fits, Exchangeable, toJson, and_assoc]

@[simp] private theorem fits_cast {type : TypeExpr} {operand : Expr} :
    (cast type operand).Fits (room + 1) ↔ type.WellFormed ∧ operand.Fits room := by
  simp [Fits, Exchangeable, toJson, and_assoc]

@[simp] private theorem fits_not {operand : Expr} :
    operand.not.Fits (room + 1) ↔ operand.Fits room := by
  simp [Fits, Exchangeable, toJson]

@[simp] private theorem fits_binary {op : BinaryOp} {lhs rhs : Expr} :
    (binary op lhs rhs).Fits (room + 1) ↔ lhs.Fits room ∧ rhs.Fits room := by
  simp [Fits, Exchangeable, toJson, and_assoc, and_left_comm]

@[simp] private theorem fits_instanceOf {operand : Expr} {type : TypeExpr} :
    (operand.instanceOf type).Fits (room + 1) ↔ operand.Fits room ∧ type.WellFormed := by
  simp [Fits, Exchangeable, toJson, and_right_comm]

@[simp] private theorem fits_cond {test yes no : Expr} :
    (cond test yes no).Fits (room + 1) ↔ test.Fits room ∧ yes.Fits room ∧ no.Fits room := by
  simp [Fits, Exchangeable, toJson, and_assoc, and_left_comm]

@[simp] private theorem fits_eq {lhs rhs : Expr} :
    (lhs.eq rhs).Fits (room + 1) ↔ lhs.Fits room ∧ rhs.Fits room := fits_binary

@[simp] private theorem fits_or {lhs rhs : Expr} :
    (lhs.or rhs).Fits (room + 1) ↔ lhs.Fits room ∧ rhs.Fits room := fits_binary

@[simp] private theorem fits_and {lhs rhs : Expr} :
    (lhs.and rhs).Fits (room + 1) ↔ lhs.Fits room ∧ rhs.Fits room := fits_binary

@[simp] private theorem fits_isNull {e : Expr} : e.isNull.Fits (room + 2) ↔ e.Fits (room + 1) := by
  simp [isNull]

@[simp] private theorem fits_nullOr {e value : Expr} :
    (e.nullOr value).Fits (room + 3) ↔ e.Fits (room + 1) ∧ value.Fits (room + 2) := by
  simp [nullOr]

end Expr

/-! ## Statements and blocks -/

/-- The format can hold the block, and the room has all its levels. -/
def Block.Fits (room : Nat) (b : Block) : Prop :=
  Stmt.AllExchangeable b ∧ (Block.toJson b).depth ≤ room

namespace Stmt

/-- The format can hold the statement, and the room has all its levels. -/
def Fits (room : Nat) (s : Stmt) : Prop := s.Exchangeable ∧ s.toJson.depth ≤ room

@[simp] private theorem fits_give {value : Expr} :
    (give value).Fits (room + 1) ↔ value.Fits room := by
  simp [give, Fits, Expr.Fits, Exchangeable, toJson, Json.option]

@[simp] private theorem fits_expr {e : Expr} : (expr e).Fits (room + 1) ↔ e.Fits room := by
  simp [Fits, Expr.Fits, Exchangeable, toJson]

@[simp] private theorem fits_decl {isFinal : Bool} {type : TypeExpr} {name : String} {init : Expr} :
    (decl isFinal type name (some init)).Fits (room + 1) ↔ type.WellFormed ∧ init.Fits room := by
  simp [Fits, Expr.Fits, Exchangeable, toJson, Json.option, and_assoc]

@[simp] private theorem fits_declFinal {type : TypeExpr} {name : String} {init : Expr} :
    (declFinal type name init).Fits (room + 1) ↔ type.WellFormed ∧ init.Fits room := fits_decl

@[simp] private theorem fits_declVar {type : TypeExpr} {name : String} {init : Expr} :
    (declVar type name init).Fits (room + 1) ↔ type.WellFormed ∧ init.Fits room := fits_decl

@[simp] private theorem fits_assign {target value : Expr} :
    (assign target value).Fits (room + 1) ↔ target.Fits room ∧ value.Fits room := by
  simp [Fits, Expr.Fits, Exchangeable, toJson, and_assoc, and_left_comm]

@[simp] private theorem fits_ifThen {test : Expr} {body : Block} :
    (ifThen test body).Fits (room + 1) ↔ test.Fits room ∧ body.Fits room := by
  simp [Fits, Expr.Fits, Block.Fits, Block.toJson, Exchangeable, toJson, and_assoc, and_left_comm]

@[simp] private theorem fits_ifElse {test : Expr} {body otherwise : Block} :
    (ifElse test body otherwise).Fits (room + 1) ↔
      test.Fits room ∧ body.Fits room ∧ otherwise.Fits room := by
  simp [Fits, Expr.Fits, Block.Fits, Block.toJson, Exchangeable, toJson, and_assoc, and_left_comm]

@[simp] private theorem fits_forEach {type : TypeExpr} {name : String} {iterable : Expr}
    {body : Block} :
    (forEach type name iterable body).Fits (room + 1) ↔
      type.WellFormed ∧ iterable.Fits room ∧ body.Fits room := by
  simp [Fits, Expr.Fits, Block.Fits, Block.toJson, Exchangeable, toJson, and_assoc, and_left_comm]

@[simp] private theorem fits_giveIf {test value : Expr} :
    (giveIf test value).Fits (room + 1) ↔ test.Fits room ∧ Block.Fits room [give value] :=
  fits_ifThen

end Stmt

namespace Block

/-- A block fits if there is room for its statements one level deeper. -/
@[simp] theorem fits_succ {b : Block} : b.Fits (room + 1) ↔ ∀ s ∈ b, s.Fits room := by
  rw [Fits, toJson, Stmt.allExchangeable_iff, Stmt.listToJson_eq, Json.depth_items_le_succ]
  exact ⟨fun h s hs => ⟨h.1 s hs, h.2 s hs⟩,
    fun h => ⟨fun s hs => (h s hs).1, fun s hs => (h s hs).2⟩⟩

end Block

end BeanSynthesis
