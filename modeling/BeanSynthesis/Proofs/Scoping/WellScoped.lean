import BeanSynthesis.Proofs.Carrying.Calls
import BeanSynthesis.Proofs.Copying.Fields
import BeanSynthesis.Proofs.Edits.Lists
import BeanSynthesis.Proofs.Scoping.PassDrafts

/-!
# Well-scoped bodies

A body is well scoped in a class if every simple name in it is a parameter, a local variable or an
instance field that the class itself declares, and if it touches other fields only of objects of
the very same class. The body still compiles when all fields are private. All methods and
constructors that the passes make are well scoped, if they are made for instance fields of the
class; one of them reads a static field of the platform.
-/

namespace BeanSynthesis

/-- The fields that the bodies of a class may touch. -/
structure OwnFields where
  /-- The type of the class. -/
  self : TypeExpr
  /-- The instance fields that the class declares. -/
  instances : List String
  /-- The static fields, with the classes that declare them. -/
  statics : List (ClassRef × String) := []

/-- The instance fields that a class declares, along with these static fields. -/
def BeanClass.ownFields (c : BeanClass) (statics : List (ClassRef × String) := []) : OwnFields where
  self := c.asType
  instances := (c.fields.filter (!·.isStatic)).map (·.name)
  statics

mutual

/-- Every simple name is a variable in scope or a field of the object itself, and all other fields
are those of an object of the same class, which a variable holds. -/
@[simp] def Expr.WellScoped (own : OwnFields) (scope : TypeScope) : Expr → Prop
  | .ident name => name ∈ scope.map Prod.fst ∨ name ∈ own.instances
  | .field target name =>
    (∃ holder, target = .ident holder ∧ scope.lookup holder = some own.self) ∧ name ∈ own.instances
  | .staticField owner name => (owner, name) ∈ own.statics
  | .call _ args => Expr.ListWellScoped own scope args
  | .invoke target _ args => target.WellScoped own scope ∧ Expr.ListWellScoped own scope args
  | .staticCall _ _ args => Expr.ListWellScoped own scope args
  | .newObject _ args => Expr.ListWellScoped own scope args
  | .cast _ operand => operand.WellScoped own scope
  | .not operand => operand.WellScoped own scope
  | .binary _ lhs rhs => lhs.WellScoped own scope ∧ rhs.WellScoped own scope
  | .instanceOf operand _ => operand.WellScoped own scope
  | .cond test yes no =>
    test.WellScoped own scope ∧ yes.WellScoped own scope ∧ no.WellScoped own scope
  | .thisRef => True
  | .superRef => True
  | .nullLit => True
  | .boolLit _ => True
  | .intLit _ => True
  | .strLit _ => True

/-- The same for a list of expressions. -/
@[simp] def Expr.ListWellScoped (own : OwnFields) (scope : TypeScope) : List Expr → Prop
  | [] => True
  | e :: es => e.WellScoped own scope ∧ Expr.ListWellScoped own scope es

end

/-- The same for an optional expression. -/
@[simp] def Expr.OptionWellScoped (own : OwnFields) (scope : TypeScope) : Option Expr → Prop
  | none => True
  | some e => e.WellScoped own scope

mutual

/-- The expressions of the statement are well scoped. -/
@[simp] def Stmt.WellScoped (own : OwnFields) (scope : TypeScope) : Stmt → Prop
  | .ret value => Expr.OptionWellScoped own scope value
  | .expr e => e.WellScoped own scope
  -- A variable has no value yet where it is declared.
  | .decl _ _ _ init => Expr.OptionWellScoped own scope init
  | .assign target value => target.WellScoped own scope ∧ value.WellScoped own scope
  | .ifThen test body => test.WellScoped own scope ∧ Stmt.BlockWellScoped own scope body
  | .ifElse test body otherwise =>
    test.WellScoped own scope ∧ Stmt.BlockWellScoped own scope body ∧
      Stmt.BlockWellScoped own scope otherwise
  | .forEach type name iterable body =>
    iterable.WellScoped own scope ∧ Stmt.BlockWellScoped own ((name, type) :: scope) body

/-- The same for a block, where a declaration extends the scope of what follows it. -/
@[simp] def Stmt.BlockWellScoped (own : OwnFields) (scope : TypeScope) : List Stmt → Prop
  | [] => True
  | s :: rest => s.WellScoped own scope ∧ Stmt.BlockWellScoped own (s.declaresTyped ++ scope) rest

end

/-- The body of a method is well scoped. -/
def Method.WellScoped (own : OwnFields) (x : Method) : Prop :=
  ∀ body, x.body = some body → Stmt.BlockWellScoped own (paramScope x.params) body

/-- The body of a constructor is well scoped. -/
def Constructor.WellScoped (own : OwnFields) (k : Constructor) : Prop :=
  Stmt.BlockWellScoped own (paramScope k.params) k.body

private theorem Method.wellScoped_of_body {own : OwnFields} {x : Method} {body : Block}
    (hbody : x.body = some body) (h : Stmt.BlockWellScoped own (paramScope x.params) body) :
    x.WellScoped own := by
  intro other hother
  obtain rfl := Option.some.inj (hbody.symm.trans hother)
  exact h

/-- The body stays the same when a method is marked. -/
@[simp] theorem Method.wellScoped_stamp {own : OwnFields} {x : Method} {settings : Settings}
    {option : String} : (x.stamp settings option).WellScoped own ↔ x.WellScoped own :=
  Iff.rfl

/-! ## Blocks and chains of calls -/

section

variable {own : OwnFields} {scope : TypeScope}

/-- Statements without declarations leave the scope to what follows them as it is. -/
theorem Stmt.blockWellScoped_append {first rest : List Stmt}
    (hnone : ∀ s ∈ first, s.declares = []) :
    Stmt.BlockWellScoped own scope (first ++ rest) ↔
      Stmt.BlockWellScoped own scope first ∧ Stmt.BlockWellScoped own scope rest := by
  induction first with
  | nil => simp
  | cons s first ih =>
    obtain ⟨hs, hfirst⟩ := List.forall_mem_cons.mp hnone
    simp [Stmt.declaresTyped_eq_nil_iff.mpr hs, ih hfirst, and_assoc]

/-- Without declarations every statement is well scoped by itself. -/
theorem Stmt.blockWellScoped_iff_forall {block : List Stmt}
    (hnone : ∀ s ∈ block, s.declares = []) :
    Stmt.BlockWellScoped own scope block ↔ ∀ s ∈ block, s.WellScoped own scope := by
  induction block with
  | nil => simp
  | cons s rest ih =>
    obtain ⟨hs, hrest⟩ := List.forall_mem_cons.mp hnone
    simp [Stmt.declaresTyped_eq_nil_iff.mpr hs, ih hrest]

private theorem wellScoped_appendAll {args : InstanceField → List Expr} {start : Expr}
    {fields : List InstanceField} (hstart : start.WellScoped own scope)
    (hargs : ∀ f ∈ fields, Expr.ListWellScoped own scope (args f)) :
    (appendAll args start fields).WellScoped own scope := by
  induction fields generalizing start with
  | nil => exact hstart
  | cons f rest ih =>
    obtain ⟨hf, hrest⟩ := List.forall_mem_cons.mp hargs
    exact ih ⟨hstart, hf⟩ hrest

private theorem InstanceField.wellScoped_byName {f : InstanceField} (hf : f.name ∈ own.instances) :
    f.byName.WellScoped own scope :=
  .inr hf

end

/-! ## Comparison -/

namespace Equality

variable {runtime : RuntimeClasses} {m : CodeModel} {c : BeanClass} {fields : List InstanceField}
  {f : InstanceField} {own : OwnFields} {scope : TypeScope} {mine : Expr}

@[simp] private theorem wellScoped_castIf {needed : Bool} {e : Expr} :
    (castIf runtime needed e).WellScoped own scope ↔ e.WellScoped own scope := by
  unfold castIf
  split
  · simp [Expr.static]
  · rfl

/-- The other object is one of the same class. -/
theorem wellScoped_compareWith (hrhs : scope.lookup "rhs" = some own.self)
    (hf : f.name ∈ own.instances) (hmine : mine.WellScoped own scope) :
    (compareWith runtime m f mine).WellScoped own scope := by
  unfold compareWith
  cases m.category f.type <;> simp [Expr.static, Expr.and, hmine, hrhs, hf]

private theorem wellScoped_refuseOther (ho : "o" ∈ scope.map Prod.fst) (lineage : Lineage) :
    (refuseOther lineage).WellScoped own scope := by
  cases lineage <;>
    simp [refuseOther, Stmt.giveIf, Stmt.give, Expr.isNull, Expr.or, Expr.eq, ho]

/-- Only the comparisons have the other object in scope. -/
theorem wellScoped_comparisons (hself : own.self = c.asType) (ho : "o" ∈ scope.map Prod.fst)
    (hfields : ∀ f ∈ fields, f.name ∈ own.instances) :
    Stmt.BlockWellScoped own scope
      (comparisons runtime m c fields InstanceField.byName ++ [.give (.boolLit true)]) := by
  unfold comparisons
  split
  · exact ⟨trivial, trivial⟩
  · have hnone := declares_compareAll runtime m fields InstanceField.byName
    have hrhs : (("rhs", c.asType) :: scope).lookup "rhs" = some own.self := by simp [hself]
    rw [List.cons_append]
    refine ⟨.inl ho, ?_⟩
    rw [Stmt.blockWellScoped_append hnone, Stmt.blockWellScoped_iff_forall hnone]
    refine ⟨fun s hs => ?_, trivial, trivial⟩
    obtain ⟨f, hf, rfl⟩ := List.mem_map.mp hs
    exact ⟨wellScoped_compareWith hrhs (hfields f hf)
      (InstanceField.wellScoped_byName (hfields f hf)), trivial, trivial⟩

/-- The method `equals` is well-scoped. -/
theorem equalsMethod_wellScoped (hself : own.self = c.asType)
    (hfields : ∀ f ∈ fields, f.name ∈ own.instances) (lineage : Lineage) :
    (equalsMethod runtime m c fields lineage).WellScoped own := by
  refine Method.wellScoped_of_body rfl ?_
  have ho : "o" ∈ (paramScope [Param.final "o" (.ofName objectClass)]).map Prod.fst :=
    List.mem_cons_self
  rw [equalsBody_byName]
  unfold equalsBodyWith
  split
  · exact ⟨⟨trivial, .inl ho, trivial⟩, trivial⟩
  · rw [List.append_assoc, Stmt.blockWellScoped_append (declares_refusals lineage)]
    refine ⟨⟨?_, wellScoped_refuseOther ho lineage, trivial⟩,
      wellScoped_comparisons hself ho hfields⟩
    exact ⟨⟨.inl ho, trivial⟩, trivial, trivial⟩

private theorem wellScoped_hashWith (hmine : mine.WellScoped own scope) :
    (hashWith runtime m f mine).WellScoped own scope := by
  unfold hashWith
  cases m.category f.type <;> simp [Expr.static, hmine]

/-- The method `hashCode` is well-scoped. -/
theorem hashCodeMethod_wellScoped (hfields : ∀ f ∈ fields, f.name ∈ own.instances)
    (lineage : Lineage) : (hashCodeMethod runtime m fields lineage).WellScoped own := by
  refine Method.wellScoped_of_body rfl ?_
  unfold hashCodeBody
  split
  · simp [Stmt.give]
  · have hstart : (hashStart runtime lineage).WellScoped own [] := by
      cases lineage <;> simp [hashStart, Expr.static]
    have hall : (appendAll (fun f => [fieldHash runtime m f]) (hashStart runtime lineage)
        fields).WellScoped own [] :=
      wellScoped_appendAll hstart fun f hf =>
        ⟨wellScoped_hashWith (InstanceField.wellScoped_byName (hfields f hf)), trivial⟩
    exact ⟨⟨hall, trivial⟩, trivial⟩

end Equality

/-! ## Description -/

/-- The method `toString` is well-scoped. -/
theorem Description.toStringMethod_wellScoped {runtime : RuntimeClasses} {own : OwnFields}
    {fields : List InstanceField} (hfields : ∀ f ∈ fields, f.name ∈ own.instances)
    (lineage : Lineage) : (toStringMethod runtime fields lineage).WellScoped own := by
  refine Method.wellScoped_of_body rfl ?_
  have hstart : (start runtime lineage).WellScoped own [] := by
    cases lineage <;> simp [start, Expr.static]
  have hall : (appendAll (fun f => [.strLit f.name, .ident f.name]) (start runtime lineage)
      fields).WellScoped own [] :=
    wellScoped_appendAll hstart fun f hf =>
      ⟨trivial, InstanceField.wellScoped_byName (hfields f hf), trivial⟩
  exact ⟨⟨hall, trivial⟩, trivial⟩

/-! ## Copies -/

namespace Copying

variable {runtime : RuntimeClasses} {m : CodeModel} {c : BeanClass} {fields : List InstanceField}
  {f : InstanceField} {own : OwnFields} {scope : TypeScope} {mine : Expr} {t : TypeExpr}

private theorem wellScoped_copyOf (hmine : mine.WellScoped own scope) :
    (copyOf runtime m t mine).WellScoped own scope := by
  unfold copyOf
  cases m.category t <;> simp [Expr.static, Expr.nullOr, Expr.isNull, Expr.eq, hmine]

private theorem wellScoped_targetField (hret : scope.lookup "ret" = some own.self)
    (hf : f.name ∈ own.instances) : (targetField f).WellScoped own scope :=
  ⟨⟨_, rfl, hret⟩, hf⟩

/-- The variable for a new list does not hide the target of the copy, as the list has a name. -/
theorem wellScoped_copyWith (hret : scope.lookup "ret" = some own.self)
    (hf : f.name ∈ own.instances) (haccessor : f.accessor ≠ "") :
    (copyWith runtime m f f.byName).WellScoped own scope := by
  have hmine : f.byName.WellScoped own scope := InstanceField.wellScoped_byName hf
  have htarget := wellScoped_targetField hret hf
  have hnull : Stmt.BlockWellScoped own scope [.assign (targetField f) .nullLit] :=
    ⟨⟨htarget, trivial⟩, trivial⟩
  unfold copyWith
  split
  · refine ⟨⟨hmine, trivial⟩, hnull, trivial, ⟨trivial, ?_, trivial⟩, ⟨?_, ?_⟩, trivial⟩
    · have hitem : (Expr.ident "aItem").WellScoped own (("aItem", f.type.elementOrObject) ::
          (listLocal f, .listOf f.type.elementOrObject) :: scope) := .inl List.mem_cons_self
      exact ⟨.inl (.tail _ List.mem_cons_self), wellScoped_copyOf hitem, trivial⟩
    · refine wellScoped_targetField ?_ hf
      have hother : ("ret" == listLocal f) = false :=
        beq_eq_false_iff_ne.mpr (listLocal_ne_ret haccessor).symm
      simpa [Stmt.declFinal, Stmt.declaresTyped, List.lookup_cons, hother] using hret
    · exact .inl List.mem_cons_self
  · split
    · exact ⟨⟨hmine, trivial⟩, hnull, ⟨htarget, hmine, trivial⟩, trivial⟩
    · exact ⟨htarget, wellScoped_copyOf hmine⟩

/-- The method that copies into an object is well-scoped, if all fields have names for accessors. -/
theorem cloneToMethod_wellScoped (hself : own.self = c.asType)
    (hfields : ∀ f ∈ fields, f.name ∈ own.instances) (hnamed : ∀ f ∈ fields, f.accessor ≠ "")
    (lineage : Lineage) : (cloneToMethod runtime m c fields lineage).WellScoped own := by
  refine Method.wellScoped_of_body rfl ?_
  have hret : (paramScope (cloneToMethod runtime m c fields lineage).params).lookup "ret" =
      some own.self := by
    rw [hself]
    rfl
  have hsuper : Stmt.BlockWellScoped own
      (paramScope (cloneToMethod runtime m c fields lineage).params) (copyInherited lineage) := by
    cases lineage with
    | root => trivial
    | derived => exact ⟨⟨trivial, .inl List.mem_cons_self, trivial⟩, trivial⟩
  rw [cloneToBody_byName, Stmt.blockWellScoped_append (declares_copyInherited lineage),
    Stmt.blockWellScoped_iff_forall (declares_copyAll runtime m fields _)]
  refine ⟨hsuper, fun s hs => ?_⟩
  obtain ⟨f, hf, rfl⟩ := List.mem_map.mp hs
  exact wellScoped_copyWith hret (hfields f hf) (hnamed f hf)

/-- The method that clones is well-scoped. -/
theorem cloneMethod_wellScoped : (cloneMethod runtime c).WellScoped own := by
  intro body hbody
  unfold cloneMethod at hbody
  dsimp only at hbody
  split at hbody
  · cases hbody
  · obtain rfl := Option.some.inj hbody
    exact ⟨trivial, ⟨.inl List.mem_cons_self, trivial⟩, .inl List.mem_cons_self, trivial⟩

end Copying

/-! ## Accessors -/

section

variable {settings : Settings} {f : InstanceField} {own : OwnFields}

/-- The setter of a list field is well-scoped. -/
theorem ListAccessors.setter_wellScoped (hf : f.name ∈ own.instances) :
    (ListAccessors.setter settings f).WellScoped own :=
  Method.wellScoped_of_body rfl
    ⟨⟨InstanceField.wellScoped_byName hf, .inl List.mem_cons_self⟩, trivial⟩

/-- The companions of a list getter call methods, with no more than the parameter. -/
theorem ListAccessors.companions_wellScoped {g : ListGetter} {x : Method}
    (hx : x ∈ companions settings g) : x.WellScoped own := by
  simp only [companions, List.mem_cons, List.not_mem_nil, or_false] at hx
  rcases hx with rfl | rfl | rfl | rfl
  · exact Method.wellScoped_of_body rfl ⟨⟨trivial, trivial⟩, trivial⟩
  · exact Method.wellScoped_of_body rfl ⟨⟨trivial, trivial⟩, trivial⟩
  · exact Method.wellScoped_of_body rfl ⟨⟨trivial, .inl List.mem_cons_self, trivial⟩, trivial⟩
  · exact Method.wellScoped_of_body rfl ⟨⟨trivial, .inl List.mem_cons_self, trivial⟩, trivial⟩

/-- The count of a list is well-scoped. -/
theorem ListAccessors.count_wellScoped (g : ListGetter) (name : String) :
    (g.count settings name).WellScoped own :=
  Method.wellScoped_of_body rfl ⟨⟨trivial, trivial⟩, trivial⟩

/-- The getter for a local companion is well-scoped. -/
theorem LocalAccessors.getter_wellScoped (hf : f.name ∈ own.instances)
    (companion : LocalCompanion) : (getter settings f companion).WellScoped own := by
  have hmine : (Expr.ident f.name).WellScoped own (paramScope []) :=
    InstanceField.wellScoped_byName hf
  exact Method.wellScoped_of_body rfl
    ⟨⟨⟨hmine, trivial⟩, trivial, hmine, trivial⟩, trivial⟩

/-- The offset of a local value may be a static field of the platform. -/
theorem LocalAccessors.setter_wellScoped {companion : LocalCompanion} (hf : f.name ∈ own.instances)
    (hutc : companion.usesUtc → (.ofName "java.time.ZoneOffset", "UTC") ∈ own.statics) :
    (setter settings f companion).WellScoped own := by
  refine Method.wellScoped_of_body rfl ?_
  have hparam : (Expr.ident "aValue").WellScoped own (paramScope
      (setter settings f companion).params) := .inl List.mem_cons_self
  have hoffset : (offset companion).WellScoped own (paramScope
      (setter settings f companion).params) := by
    unfold offset
    split
    case isTrue husesUtc => exact hutc husesUtc
    case isFalse => trivial
  refine ⟨⟨InstanceField.wellScoped_byName hf, ⟨hparam, trivial⟩, trivial, ?_⟩, trivial⟩
  exact ⟨hparam, hoffset, trivial⟩

/-- A constructor from a value is well-scoped. -/
theorem ValueAccessors.valueConstructor_wellScoped (type : TypeExpr) :
    (valueConstructor settings type).WellScoped own :=
  ⟨⟨.inl List.mem_cons_self, trivial⟩, trivial⟩

/-- Both the parameter and the variable for the carrier are in scope where they are used. -/
theorem ValueAccessors.valueSetter_wellScoped (setter property : String)
    (carrier type : TypeExpr) :
    (valueSetter settings setter property carrier type).WellScoped own := by
  refine Method.wellScoped_of_body rfl ?_
  simp [Stmt.declVar, Stmt.declaresTyped, Stmt.give, Expr.isNull, Expr.eq, valueSetter,
    Method.stamp, paramScope, valueParam, Param.final]

/-- A getter for a value is well-scoped. -/
theorem ValueAccessors.valueGetter_wellScoped (name getter : String) (carrier type : TypeExpr)
    (read : String) : (valueGetter settings name getter carrier type read).WellScoped own := by
  unfold valueGetter
  dsimp only
  split
  · refine Method.wellScoped_of_body rfl ?_
    simp [Stmt.declFinal, Stmt.declaresTyped, Stmt.give, Expr.isNull, Expr.eq, Method.stamp,
      paramScope, Param.final]
  · refine Method.wellScoped_of_body rfl ?_
    simp [Stmt.declFinal, Stmt.declaresTyped, Stmt.give, Expr.nullOr, Expr.isNull, Expr.eq,
      Method.stamp]

end

end BeanSynthesis
