import BeanSynthesis.Proofs.Carrying.Members
import BeanSynthesis.Proofs.Scoping.Reading

/-!
# Calls in the members for carried values

Which methods a body calls, and on objects of which type, can be read off its text where it names
the types itself. The members for a local companion of a carried type each call an accessor of the
local view on a carrier.
-/

namespace BeanSynthesis

/-! ## The calls of a body -/

/-- A call of a method. The types are those of the object and of the arguments, where the text of
the body tells them. -/
structure MethodCall where
  receiver : Option TypeExpr
  name : String
  types : List (Option TypeExpr)
deriving DecidableEq, Repr

/-- Parameters and local variables with their types, the innermost one first. -/
abbrev TypeScope := List (String × TypeExpr)

/-- The type that the text of an expression tells, in a class of type `self`. -/
def Expr.typeIn (self : TypeExpr) (scope : TypeScope) : Expr → Option TypeExpr
  | .thisRef => some self
  | .ident name => scope.lookup name
  | .newObject type _ => some type
  | .cast type _ => some type
  | _ => none

mutual

/-- The methods that an expression calls, in the order of evaluation. -/
def Expr.callsIn (self : TypeExpr) (scope : TypeScope) : Expr → List MethodCall
  | .field target _ => target.callsIn self scope
  | .call method args =>
    Expr.listCallsIn self scope args ++ [⟨some self, method, args.map (Expr.typeIn self scope)⟩]
  | .invoke target method args =>
    target.callsIn self scope ++ Expr.listCallsIn self scope args ++
      [⟨target.typeIn self scope, method, args.map (Expr.typeIn self scope)⟩]
  | .staticCall _ _ args => Expr.listCallsIn self scope args
  | .newObject _ args => Expr.listCallsIn self scope args
  | .cast _ operand => operand.callsIn self scope
  | .not operand => operand.callsIn self scope
  | .binary _ lhs rhs => lhs.callsIn self scope ++ rhs.callsIn self scope
  | .instanceOf operand _ => operand.callsIn self scope
  | .cond test yes no =>
    test.callsIn self scope ++ yes.callsIn self scope ++ no.callsIn self scope
  | .thisRef => []
  | .superRef => []
  | .nullLit => []
  | .boolLit _ => []
  | .intLit _ => []
  | .strLit _ => []
  | .ident _ => []
  | .staticField _ _ => []

/-- The same for a list of expressions. -/
def Expr.listCallsIn (self : TypeExpr) (scope : TypeScope) : List Expr → List MethodCall
  | [] => []
  | e :: es => e.callsIn self scope ++ Expr.listCallsIn self scope es

end

/-- The same for an optional expression. -/
def Expr.optionCallsIn (self : TypeExpr) (scope : TypeScope) : Option Expr → List MethodCall
  | none => []
  | some e => e.callsIn self scope

/-- The local variables that a statement leaves to those after it, with their types. -/
def Stmt.declaresTyped : Stmt → TypeScope
  | .decl _ type name _ => [(name, type)]
  | _ => []

/-- A statement declares a variable with a type if it declares one. -/
theorem Stmt.declaresTyped_eq_nil_iff {s : Stmt} : s.declaresTyped = [] ↔ s.declares = [] := by
  cases s <;> simp [declaresTyped, declares]

mutual

/-- The methods that a statement calls. -/
def Stmt.callsIn (self : TypeExpr) (scope : TypeScope) : Stmt → List MethodCall
  | .ret value => Expr.optionCallsIn self scope value
  | .expr e => e.callsIn self scope
  | .decl _ type name init => Expr.optionCallsIn self ((name, type) :: scope) init
  | .assign target value => target.callsIn self scope ++ value.callsIn self scope
  | .ifThen test body => test.callsIn self scope ++ Stmt.blockCallsIn self scope body
  | .ifElse test body otherwise =>
    test.callsIn self scope ++ Stmt.blockCallsIn self scope body ++
      Stmt.blockCallsIn self scope otherwise
  | .forEach type name iterable body =>
    iterable.callsIn self scope ++ Stmt.blockCallsIn self ((name, type) :: scope) body

/-- The same for a block, where a declaration extends the scope of what follows it. -/
def Stmt.blockCallsIn (self : TypeExpr) (scope : TypeScope) : List Stmt → List MethodCall
  | [] => []
  | s :: rest => s.callsIn self scope ++ Stmt.blockCallsIn self (s.declaresTyped ++ scope) rest

end

/-- The variables that parameters are. -/
def paramScope (params : List Param) : TypeScope := params.map fun p => (p.name, p.type)

/-- The methods that a method calls, in a class of type `self`. -/
def Method.calls (self : TypeExpr) (n : Method) : List MethodCall :=
  match n.body with
  | some body => Stmt.blockCallsIn self (paramScope n.params) body
  | none => []

/-- The methods that a constructor calls, in a class of type `self`. -/
def Constructor.calls (self : TypeExpr) (k : Constructor) : List MethodCall :=
  Stmt.blockCallsIn self (paramScope k.params) k.body

/-! ## The members for carried values -/

/-- The only parameter is a local companion. -/
def TakesCompanion (types : List TypeExpr) : Prop :=
  ∃ type companion, localCompanion? type = some companion ∧ types = [companion.type]

/-- The accessors of the local view of a carried value, by name and signature. -/
def IsViewKey (name : String) (types : List TypeExpr) : Prop :=
  name = "getValueLocal" ∧ types = [] ∨ name = "setValue" ∧ TakesCompanion types

namespace ValueAccessors

variable {context : PassContext} {m : CodeModel} {found : Carriers} {c : BeanClass} {x : Method}
  {k : Constructor} {self carrier type : TypeExpr}

private theorem calls_valueConstructor (settings : Settings) (type : TypeExpr) :
    (valueConstructor settings type).calls self = [⟨some self, "setValue", [some type]⟩] :=
  rfl

/-- A setter for a value takes the carrier from the getter, sets the value in it and sets the
carrier. -/
theorem calls_valueSetter (settings : Settings) (setter property : String)
    (carrier type : TypeExpr) :
    (valueSetter settings setter property carrier type).calls self =
      [⟨some self, "get" ++ property, []⟩, ⟨some self, setter, [some carrier]⟩,
        ⟨some carrier, "setValue", [some type]⟩] :=
  rfl

/-- A getter for a value takes the carrier from the getter and reads the value from it. -/
theorem calls_valueGetter (settings : Settings) (name getter : String) (carrier type : TypeExpr)
    (read : String) : (valueGetter settings name getter carrier type read).calls self =
      [⟨some self, getter, []⟩, ⟨some carrier, read, []⟩] := by
  unfold valueGetter
  split
  · rfl
  · rfl

/-- The members call an accessor of the local view of a carried value on a carrier. -/
def CallsView (m : CodeModel) (found : Carriers) (calls : List MethodCall) : Prop :=
  ∃ t carried name types, NamesCarrier m found t carried ∧ IsViewKey name types ∧
    ⟨some t, name, types.map some⟩ ∈ calls

/-- A method for a local companion: it takes one, or is called like the getter for one. -/
def IsForCompanion (x : Method) : Prop :=
  TakesCompanion x.signature ∨ x.signature = [] ∧ ∃ start, x.name = start ++ "ValueLocal"

/-- The getter for the carried value itself is not called like one for a companion. -/
theorem valueGetterName_ne (property start : String) (type : TypeExpr) :
    valueGetterName property type ≠ start ++ "ValueLocal" := by
  intro heq
  have hlast := congrArg (fun name : String => name.toList.getLast?) heq
  simp [valueGetterName, String.toList_append, List.getLast?_append] at hlast

/-- A constructor that is offered for a local companion calls the setter of the local view. -/
theorem constructor_callsView (hfound : (Carriers.ofModel m).outcome = .ok found)
    (hc : c ∈ m.classes) (hplain : ¬c.isEnum) (hk : k ∈ (edit context m c).constructors)
    (htakes : TakesCompanion k.key) : CallsView m found (k.calls c.asType) := by
  obtain ⟨type, companion, hcompanion, hkey⟩ := htakes
  rcases List.mem_cons.mp hk with rfl | hk
  · cases hkey
  · rw [carriedBy?, found_eq_of_ok hfound] at hk
    cases htype : Carriers.valueType? m found c with
    | none =>
      rw [htype] at hk
      cases hk
    | some carried =>
      rw [htype] at hk
      obtain ⟨form, -, rfl⟩ := List.mem_map.mp hk
      obtain rfl : form = companion.type := List.singleton_inj.mp hkey
      refine ⟨c.asType, carried, "setValue", [companion.type], ?_, ?_, ?_⟩
      · exact ⟨c, hc, hplain, ⟨[], rfl⟩, htype⟩
      · exact .inr ⟨rfl, type, companion, hcompanion, rfl⟩
      · rw [calls_valueConstructor]
        exact List.mem_singleton.mpr rfl

/-- A method that is offered for a local companion calls an accessor of the local view. -/
theorem method_callsView (hm : m.WellFormed) (hfound : (Carriers.ofModel m).outcome = .ok found)
    (hx : x ∈ (edit context m c).methods) (htakes : IsForCompanion x) :
    CallsView m found (x.calls c.asType) := by
  rcases List.mem_append.mp hx with hx | hx
  · obtain ⟨n, -, hx⟩ := List.mem_flatMap.mp hx
    obtain ⟨param, property, carried, hparams, hproperty, hcarried, form, -, rfl⟩ :=
      exists_of_mem_settersFor hx
    rcases htakes with ⟨type, companion, hcompanion, htypes⟩ | ⟨hnone, -⟩
    · obtain rfl : form = companion.type := List.singleton_inj.mp htypes
      refine ⟨param.type, carried, "setValue", [companion.type], ?_, ?_, ?_⟩
      · exact (carried?_eq_some_iff hm hfound).mp hcarried
      · exact .inr ⟨rfl, type, companion, hcompanion, rfl⟩
      · rw [calls_valueSetter]
        exact .tail _ (.tail _ List.mem_cons_self)
    · cases hnone
  · rw [getters_eq] at hx
    obtain ⟨n, -, hx⟩ := List.mem_flatMap.mp hx
    obtain ⟨property, carried, hparams, hproperty, hcarried, -, hx⟩ :=
      exists_of_mem_offeredGetters hx
    rcases mem_gettersOf_iff.mp hx with rfl | ⟨-, companion, hcompanion, rfl⟩
    · rw [IsForCompanion, valueGetter_name, valueGetter_signature] at htakes
      rcases htakes with ⟨type, companion, hcompanion, htypes⟩ | ⟨-, start, hname⟩
      · split at htypes
        case isTrue hprimitive =>
          rw [List.singleton_inj.mp htypes, isPrimitive_companion hcompanion] at hprimitive
          cases hprimitive
        case isFalse => cases htypes
      · exact (valueGetterName_ne property start carried hname).elim
    · refine ⟨n.returnType, carried, "getValueLocal", [], ?_, .inl ⟨rfl, rfl⟩, ?_⟩
      · exact (carried?_eq_some_iff hm hfound).mp hcarried
      · rw [calls_valueGetter]
        exact .tail _ List.mem_cons_self

end ValueAccessors

end BeanSynthesis
