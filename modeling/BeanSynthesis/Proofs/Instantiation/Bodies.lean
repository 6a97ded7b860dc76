import BeanSynthesis.Proofs.Carrying.Calls
import BeanSynthesis.Proofs.Edits.Lists
import BeanSynthesis.Proofs.Scoping.PassDrafts

/-!
# Objects that bodies create

Which classes a body instantiates, and with arguments of which types, can be read off its text. Most
synthesized members instantiate helpers at best: the collections of the platform and the generators
of hash codes and descriptions. Apart from those, `clone` creates an object of its own class, and a
setter for a carried value creates a carrier.
-/

namespace BeanSynthesis

/-! ## The objects of a body -/

/-- The creation of an object. The types are those of the arguments, where the text of the body
tells them. -/
structure Instantiation where
  type : TypeExpr
  types : List (Option TypeExpr)
deriving DecidableEq, Repr

mutual

/-- The objects that an expression creates, in the order of evaluation. -/
@[simp] def Expr.createsIn (self : TypeExpr) (scope : TypeScope) : Expr → List Instantiation
  | .newObject type args =>
    Expr.listCreatesIn self scope args ++ [⟨type, args.map (Expr.typeIn self scope)⟩]
  | .field target _ => target.createsIn self scope
  | .call _ args => Expr.listCreatesIn self scope args
  | .invoke target _ args => target.createsIn self scope ++ Expr.listCreatesIn self scope args
  | .staticCall _ _ args => Expr.listCreatesIn self scope args
  | .cast _ operand => operand.createsIn self scope
  | .not operand => operand.createsIn self scope
  | .binary _ lhs rhs => lhs.createsIn self scope ++ rhs.createsIn self scope
  | .instanceOf operand _ => operand.createsIn self scope
  | .cond test yes no =>
    test.createsIn self scope ++ yes.createsIn self scope ++ no.createsIn self scope
  | .thisRef => []
  | .superRef => []
  | .nullLit => []
  | .boolLit _ => []
  | .intLit _ => []
  | .strLit _ => []
  | .ident _ => []
  | .staticField _ _ => []

/-- The same for a list of expressions. -/
@[simp] def Expr.listCreatesIn (self : TypeExpr) (scope : TypeScope) :
    List Expr → List Instantiation
  | [] => []
  | e :: es => e.createsIn self scope ++ Expr.listCreatesIn self scope es

end

/-- The same for an optional expression. -/
@[simp] def Expr.optionCreatesIn (self : TypeExpr) (scope : TypeScope) :
    Option Expr → List Instantiation
  | none => []
  | some e => e.createsIn self scope

mutual

/-- The objects that a statement creates. -/
@[simp] def Stmt.createsIn (self : TypeExpr) (scope : TypeScope) : Stmt → List Instantiation
  | .ret value => Expr.optionCreatesIn self scope value
  | .expr e => e.createsIn self scope
  | .decl _ _ _ init => Expr.optionCreatesIn self scope init
  | .assign target value => target.createsIn self scope ++ value.createsIn self scope
  | .ifThen test body => test.createsIn self scope ++ Stmt.blockCreatesIn self scope body
  | .ifElse test body otherwise =>
    test.createsIn self scope ++ Stmt.blockCreatesIn self scope body ++
      Stmt.blockCreatesIn self scope otherwise
  | .forEach type name iterable body =>
    iterable.createsIn self scope ++ Stmt.blockCreatesIn self ((name, type) :: scope) body

/-- The same for a block, where a declaration extends the scope of what follows it. -/
@[simp] def Stmt.blockCreatesIn (self : TypeExpr) (scope : TypeScope) :
    List Stmt → List Instantiation
  | [] => []
  | s :: rest => s.createsIn self scope ++ Stmt.blockCreatesIn self (s.declaresTyped ++ scope) rest

end

/-- The objects that a method creates, in a class of type `self`. -/
def Method.creates (self : TypeExpr) (x : Method) : List Instantiation :=
  match x.body with
  | some body => Stmt.blockCreatesIn self (paramScope x.params) body
  | none => []

/-- The objects that a constructor creates besides that of its own, in a class of type `self`. -/
def Constructor.creates (self : TypeExpr) (k : Constructor) : List Instantiation :=
  Stmt.blockCreatesIn self (paramScope k.params) k.body

/-- A stamp on a method creates nothing. -/
@[simp] theorem Method.creates_stamp {self : TypeExpr} {x : Method} {settings : Settings}
    {option : String} : (x.stamp settings option).creates self = x.creates self :=
  rfl

/-- The class of the object has this name. -/
def Instantiation.Names (n : Instantiation) (name : String) : Prop :=
  ∃ args, n.type = .named name args

/-- The classes that synthesized members instantiate in the course of their work. -/
def RuntimeClasses.instantiated (runtime : RuntimeClasses) : List String :=
  ["java.util.ArrayList", "java.util.HashMap", runtime.hashCodeGenerator, runtime.toStringGenerator]

/-- The object is one of the helpers. -/
def Instantiation.IsHelper (runtime : RuntimeClasses) (n : Instantiation) : Prop :=
  ∃ name ∈ runtime.instantiated, n.Names name

/-! ## Blocks and chains of calls -/

section

variable {self : TypeExpr} {scope : TypeScope}

/-- Statements without declarations leave the scope to what follows them as it is. -/
theorem Stmt.blockCreatesIn_append {first : List Stmt} (hnone : ∀ s ∈ first, s.declares = [])
    (rest : List Stmt) : Stmt.blockCreatesIn self scope (first ++ rest) =
      Stmt.blockCreatesIn self scope first ++ Stmt.blockCreatesIn self scope rest := by
  induction first with
  | nil => rfl
  | cons s first ih =>
    obtain ⟨hs, hfirst⟩ := List.forall_mem_cons.mp hnone
    simp [Stmt.declaresTyped_eq_nil_iff.mpr hs, ih hfirst]

/-- Without declarations every statement creates its own objects. -/
theorem Stmt.blockCreatesIn_eq_flatMap {block : List Stmt}
    (hnone : ∀ s ∈ block, s.declares = []) :
    Stmt.blockCreatesIn self scope block = block.flatMap (Stmt.createsIn self scope) := by
  induction block with
  | nil => rfl
  | cons s rest ih =>
    obtain ⟨hs, hrest⟩ := List.forall_mem_cons.mp hnone
    simp [Stmt.declaresTyped_eq_nil_iff.mpr hs, ih hrest]

/-- A chain of calls creates what it starts from, if the arguments create nothing. -/
theorem createsIn_appendAll {args : InstanceField → List Expr} {fields : List InstanceField}
    (hargs : ∀ f ∈ fields, Expr.listCreatesIn self scope (args f) = []) (start : Expr) :
    (appendAll args start fields).createsIn self scope = start.createsIn self scope := by
  induction fields generalizing start with
  | nil => rfl
  | cons f rest ih =>
    obtain ⟨hf, hrest⟩ := List.forall_mem_cons.mp hargs
    refine (ih hrest _).trans ?_
    simp [hf]

/-- A body that gives the result of such a chain. -/
theorem blockCreatesIn_giveAll {args : InstanceField → List Expr} {fields : List InstanceField}
    (hargs : ∀ f ∈ fields, Expr.listCreatesIn self scope (args f) = []) (start : Expr)
    (method : String) :
    Stmt.blockCreatesIn self scope [.give ((appendAll args start fields).invoke method [])] =
      start.createsIn self scope := by
  simp [Stmt.give, createsIn_appendAll hargs]

end

/-! ## Comparison -/

namespace Equality

variable {runtime : RuntimeClasses} {m : CodeModel} {c : BeanClass} {fields : List InstanceField}
  {f : InstanceField} {self : TypeExpr} {scope : TypeScope} {lineage : Lineage}

private theorem createsIn_compareWith :
    (compareWith runtime m f f.byName).createsIn self scope = [] := by
  unfold compareWith
  cases m.category f.type <;>
    simp [Expr.static, Expr.and, InstanceField.byName, castIf,
      apply_ite (Expr.createsIn self scope)]

private theorem createsIn_refuseOther : (refuseOther lineage).createsIn self scope = [] := by
  cases lineage <;>
    simp [refuseOther, Stmt.giveIf, Stmt.give, Expr.isNull, Expr.or, Expr.eq]

private theorem blockCreatesIn_comparisons :
    Stmt.blockCreatesIn self scope
      (comparisons runtime m c fields InstanceField.byName ++ [.give (.boolLit true)]) = [] := by
  unfold comparisons
  split
  · rfl
  · have hnone := declares_compareAll runtime m fields InstanceField.byName
    rw [List.cons_append, Stmt.blockCreatesIn, Stmt.blockCreatesIn_append hnone,
      Stmt.blockCreatesIn_eq_flatMap hnone]
    simp [Stmt.declFinal, Stmt.giveIf, Stmt.give, createsIn_compareWith]

/-- The method `equals` creates nothing. -/
theorem equalsMethod_creates : (equalsMethod runtime m c fields lineage).creates self = [] := by
  change Stmt.blockCreatesIn self _ (equalsBody runtime m c fields lineage) = []
  rw [equalsBody_byName]
  unfold equalsBodyWith
  split
  · simp [Stmt.give]
  · have hnone := declares_refusals lineage
    rw [List.append_assoc, Stmt.blockCreatesIn_append hnone, blockCreatesIn_comparisons,
      Stmt.blockCreatesIn_eq_flatMap hnone]
    simp [Stmt.giveIf, Stmt.give, Expr.eq, createsIn_refuseOther]

private theorem createsIn_fieldHash : (fieldHash runtime m f).createsIn self scope = [] := by
  unfold fieldHash
  cases m.category f.type <;>
    simp [Expr.static, castIf, apply_ite (Expr.createsIn self scope)]

/-- A hash code starts from a generator. -/
theorem hashCodeMethod_creates {n : Instantiation}
    (hn : n ∈ (hashCodeMethod runtime m fields lineage).creates self) : n.IsHelper runtime := by
  change n ∈ Stmt.blockCreatesIn self _ (hashCodeBody runtime m fields lineage) at hn
  unfold hashCodeBody at hn
  split at hn
  · simp [Stmt.give] at hn
  · have hstart : n ∈ (hashStart runtime lineage).createsIn self [] := by
      have hall : ∀ f ∈ fields, Expr.listCreatesIn self [] [fieldHash runtime m f] = [] :=
        fun f _ => by simp [createsIn_fieldHash]
      rw [← blockCreatesIn_giveAll hall _ "getHashCode"]
      exact hn
    cases lineage with
    | root =>
      obtain rfl : n = ⟨.ofName runtime.hashCodeGenerator, [some self]⟩ := by
        simpa [hashStart, Expr.typeIn] using hstart
      exact ⟨runtime.hashCodeGenerator, by simp [RuntimeClasses.instantiated], [], rfl⟩
    | derived => simp [hashStart, Expr.static] at hstart

end Equality

/-! ## Description -/

/-- A description starts from a generator. -/
theorem Description.toStringMethod_creates {runtime : RuntimeClasses} {fields : List InstanceField}
    {lineage : Lineage} {self : TypeExpr} {n : Instantiation}
    (hn : n ∈ (toStringMethod runtime fields lineage).creates self) : n.IsHelper runtime := by
  have hstart : n ∈ (start runtime lineage).createsIn self [] := by
    have hall : ∀ f ∈ fields,
        Expr.listCreatesIn self [] [.strLit f.name, .ident f.name] = [] := fun _ _ => rfl
    rw [← blockCreatesIn_giveAll hall _ "getToString"]
    exact hn
  cases lineage with
  | root =>
    obtain rfl : n = ⟨.ofName runtime.toStringGenerator, [some self]⟩ := by
      simpa [start, Expr.typeIn] using hstart
    exact ⟨runtime.toStringGenerator, by simp [RuntimeClasses.instantiated], [], rfl⟩
  | derived => simp [start, Expr.static] at hstart

/-! ## Copies -/

namespace Copying

variable {runtime : RuntimeClasses} {m : CodeModel} {c : BeanClass} {fields : List InstanceField}
  {f : InstanceField} {self t : TypeExpr} {scope : TypeScope} {lineage : Lineage}
  {n : Instantiation}

private theorem createsIn_copyOf (name : String) :
    (copyOf runtime m t (.ident name)).createsIn self scope = [] := by
  unfold copyOf
  cases m.category t <;> simp [Expr.static, Expr.nullOr, Expr.isNull, Expr.eq]

/-- The copy of a field creates a new list or map at best. -/
theorem copyWith_creates (hn : n ∈ (copyWith runtime m f f.byName).createsIn self scope) :
    n.IsHelper runtime := by
  unfold copyWith at hn
  split at hn
  · obtain rfl : n = ⟨.named "java.util.ArrayList" [f.type.elementOrObject], []⟩ := by
      simpa [targetField, InstanceField.byName, Stmt.declFinal, Expr.isNull, Expr.eq,
        createsIn_copyOf] using hn
    exact ⟨"java.util.ArrayList", List.mem_cons_self, _, rfl⟩
  · split at hn
    · obtain rfl : n = ⟨.named "java.util.HashMap" (typeArgs f.type), [scope.lookup f.name]⟩ := by
        simpa [targetField, InstanceField.byName, Expr.isNull, Expr.eq, Expr.typeIn] using hn
      exact ⟨"java.util.HashMap", .tail _ List.mem_cons_self, _, rfl⟩
    · simp [targetField, InstanceField.byName, createsIn_copyOf] at hn

/-- The method that copies into an object creates helpers alone. -/
theorem cloneToMethod_creates
    (hn : n ∈ (cloneToMethod runtime m c fields lineage).creates self) : n.IsHelper runtime := by
  change n ∈ Stmt.blockCreatesIn self (paramScope (cloneToMethod runtime m c fields lineage).params)
    (cloneToBody runtime m fields lineage) at hn
  rw [cloneToBody_byName, Stmt.blockCreatesIn_append (declares_copyInherited lineage),
    Stmt.blockCreatesIn_eq_flatMap (declares_copyAll runtime m fields _)] at hn
  rcases List.mem_append.mp hn with hn | hn
  · cases lineage <;> simp [copyInherited] at hn
  · obtain ⟨s, hs, hn⟩ := List.mem_flatMap.mp hn
    obtain ⟨f, -, rfl⟩ := List.mem_map.mp hs
    exact copyWith_creates hn

/-- `clone` creates an object of its own class without arguments, if the class has any objects. -/
theorem cloneMethod_creates (hn : n ∈ (cloneMethod runtime c).creates self) :
    ¬c.isAbstract ∧ n = ⟨c.asType, []⟩ := by
  unfold cloneMethod Method.creates at hn
  dsimp only at hn
  by_cases habstract : c.isAbstract
  · simp [habstract] at hn
  · refine ⟨habstract, ?_⟩
    simpa [habstract, cloneBody, Stmt.declFinal, Stmt.give] using hn

end Copying

/-! ## Accessors -/

section

variable {settings : Settings} {f : InstanceField} {self : TypeExpr} {n : Instantiation}

/-- The companions of a list getter create nothing. -/
theorem ListAccessors.companions_create {g : ListGetter} {x : Method}
    (hx : x ∈ companions settings g) : x.creates self = [] := by
  simp only [companions, List.mem_cons, List.not_mem_nil, or_false] at hx
  rcases hx with rfl | rfl | rfl | rfl
  · rfl
  · rfl
  · rfl
  · rfl

/-- A setter for a local companion creates nothing. -/
theorem LocalAccessors.setter_creates {companion : LocalCompanion} :
    (setter settings f companion).creates self = [] := by
  have hoffset : ∀ scope, (offset companion).createsIn self scope = [] := by
    intro scope
    unfold offset
    split <;> rfl
  simp [Method.creates, setter, Expr.nullOr, Expr.isNull, Expr.eq, Expr.static, hoffset]

/-- A setter for a carried value creates a carrier out of it. -/
theorem ValueAccessors.valueSetter_creates (setter property : String) (carrier type : TypeExpr) :
    (valueSetter settings setter property carrier type).creates self = [⟨carrier, [some type]⟩] :=
  rfl

/-- A getter for a value creates nothing. -/
theorem ValueAccessors.valueGetter_creates (name getter : String) (carrier type : TypeExpr)
    (read : String) : (valueGetter settings name getter carrier type read).creates self = [] := by
  unfold valueGetter
  dsimp only
  split
  · rfl
  · rfl

end

end BeanSynthesis
