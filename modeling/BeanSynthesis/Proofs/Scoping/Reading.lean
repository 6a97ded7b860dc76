import BeanSynthesis.Member
import BeanSynthesis.Synthesis.Fields

/-!
# What a simple name denotes in a body

A simple name denotes the parameter or local variable of that name which is in scope, and else the
field of the object. A parameter is in scope in the whole body, a local variable from its own
declaration to the end of its block, and the variable of a loop in the body of the loop.
-/

namespace BeanSynthesis

mutual

/-- The expression with every field of the object written as such, where these names are
parameters and local variables. -/
def Expr.readIn (scope : List String) : Expr → Expr
  | .thisRef => .thisRef
  | .superRef => .superRef
  | .nullLit => .nullLit
  | .boolLit value => .boolLit value
  | .intLit value => .intLit value
  | .strLit value => .strLit value
  | .ident name => if name ∈ scope then .ident name else .field .thisRef name
  | .field target name => .field (target.readIn scope) name
  | .call method args => .call method (Expr.listReadIn scope args)
  | .invoke target method args => .invoke (target.readIn scope) method (Expr.listReadIn scope args)
  | .staticCall owner method args => .staticCall owner method (Expr.listReadIn scope args)
  | .staticField owner name => .staticField owner name
  | .newObject type args => .newObject type (Expr.listReadIn scope args)
  | .cast type operand => .cast type (operand.readIn scope)
  | .not operand => .not (operand.readIn scope)
  | .binary op lhs rhs => .binary op (lhs.readIn scope) (rhs.readIn scope)
  | .instanceOf operand type => .instanceOf (operand.readIn scope) type
  | .cond test yes no => .cond (test.readIn scope) (yes.readIn scope) (no.readIn scope)

/-- The same for a list of expressions. -/
def Expr.listReadIn (scope : List String) : List Expr → List Expr
  | [] => []
  | e :: es => e.readIn scope :: Expr.listReadIn scope es

end

/-- The same for an optional expression. -/
def Expr.optionReadIn (scope : List String) : Option Expr → Option Expr
  | none => none
  | some e => some (e.readIn scope)

/-- The local variables that a statement leaves to those after it. -/
def Stmt.declares : Stmt → List String
  | .decl _ _ name _ => [name]
  | _ => []

mutual

/-- The statement with every field of the object written as such. -/
def Stmt.readIn (scope : List String) : Stmt → Stmt
  | .ret value => .ret (Expr.optionReadIn scope value)
  | .expr e => .expr (e.readIn scope)
  -- A variable is in scope in its own initial value already.
  | .decl isFinal type name init => .decl isFinal type name (Expr.optionReadIn (name :: scope) init)
  | .assign target value => .assign (target.readIn scope) (value.readIn scope)
  | .ifThen test body => .ifThen (test.readIn scope) (Stmt.blockReadIn scope body)
  | .ifElse test body otherwise =>
    .ifElse (test.readIn scope) (Stmt.blockReadIn scope body) (Stmt.blockReadIn scope otherwise)
  | .forEach type name iterable body =>
    .forEach type name (iterable.readIn scope) (Stmt.blockReadIn (name :: scope) body)

/-- The same for a block, where a declaration extends the scope of what follows it. -/
def Stmt.blockReadIn (scope : List String) : List Stmt → List Stmt
  | [] => []
  | s :: rest => s.readIn scope :: Stmt.blockReadIn (s.declares ++ scope) rest

end

/-- The body of a method with every field of the object written as such. -/
def Method.reading (m : Method) : Option Block :=
  m.body.map (Stmt.blockReadIn (m.params.map (·.name)))

/-- A field of the object by its simple name. -/
def InstanceField.byName (f : InstanceField) : Expr := .ident f.name

/-- A field of the object as such. -/
def InstanceField.ofThis (f : InstanceField) : Expr := .field .thisRef f.name

section

variable {scope : List String}

/-- The simple name of a field denotes the field if nothing in scope has that name. -/
theorem InstanceField.readIn_byName_iff (f : InstanceField) :
    f.byName.readIn scope = f.ofThis ↔ f.name ∉ scope := by
  unfold byName ofThis Expr.readIn
  by_cases hmem : f.name ∈ scope
  · simp [hmem]
  · simp [hmem]

/-- Statements without declarations leave the scope to what follows them as it is. -/
theorem Stmt.blockReadIn_append {first : List Stmt} (hnone : ∀ s ∈ first, s.declares = [])
    (rest : List Stmt) : Stmt.blockReadIn scope (first ++ rest) =
      Stmt.blockReadIn scope first ++ Stmt.blockReadIn scope rest := by
  induction first with
  | nil => rfl
  | cons s first ih =>
    have hs : s.declares = [] := hnone s List.mem_cons_self
    have hfirst := ih fun t ht => hnone t (List.mem_cons_of_mem _ ht)
    simp [Stmt.blockReadIn, hs, hfirst]

/-- Without declarations every statement is read by itself. -/
theorem Stmt.blockReadIn_eq_map {block : List Stmt} (hnone : ∀ s ∈ block, s.declares = []) :
    Stmt.blockReadIn scope block = block.map (Stmt.readIn scope) := by
  induction block with
  | nil => rfl
  | cons s rest ih =>
    have hs : s.declares = [] := hnone s List.mem_cons_self
    have hrest := ih fun t ht => hnone t (List.mem_cons_of_mem _ ht)
    simp [Stmt.blockReadIn, hs, hrest]

end

/-! ## Drafts of synthesized methods

A synthesized body mentions fields of the object by their simple names. Its draft leaves open how a
field is mentioned, so the same draft gives the body as it is written and the body as it is meant,
with every field as one of `this`. The two are one and the same to a reader of the body if no
mentioned field has the name of a parameter or local variable that is in scope where it stands.
-/

/-- A way to mention the fields of the object. -/
abbrev Mention := InstanceField → Expr

/-- A synthesized method that leaves open how its body mentions fields of the object. -/
structure Draft where
  /-- The method as it is synthesized. -/
  method : Method
  /-- The body, where fields are mentioned so. -/
  body : Mention → Block
  /-- The fields that the body mentions. -/
  mentioned : List InstanceField := []
  /-- The parameters and local variables in scope where the fields are mentioned. -/
  scope : List String := []
  /-- A method without a body mentions no fields, and a body mentions them by name. -/
  written : method.body = some (body InstanceField.byName) ∨ method.body = none ∧ mentioned = []
  /-- All mentions are in that scope. -/
  reads : ∀ mention, Stmt.blockReadIn (method.params.map (·.name)) (body mention) =
    body fun f => (mention f).readIn scope
  /-- The body depends on the mentions of these fields, and of no other. -/
  body_eq_iff : ∀ mention other, body mention = body other ↔
    ∀ f ∈ mentioned, mention f = other f

namespace Draft

/-- The body that is meant: every field is one of the object itself. -/
def meant (d : Draft) : Option Block := d.method.body.map fun _ => d.body InstanceField.ofThis

/-- The body reads as it is meant if and only if no mentioned field has the name of a parameter or
local variable in scope. -/
theorem reading_eq_meant_iff (d : Draft) :
    d.method.reading = d.meant ↔ ∀ f ∈ d.mentioned, f.name ∉ d.scope := by
  rcases d.written with hbody | ⟨hbody, hnone⟩
  · have hreading : d.method.reading =
        some (d.body fun f => f.byName.readIn d.scope) := by
      rw [Method.reading, hbody, Option.map_some, d.reads]
    have hmeant : d.meant = some (d.body InstanceField.ofThis) := by
      rw [meant, hbody, Option.map_some]
    rw [hreading, hmeant, Option.some_inj, d.body_eq_iff]
    exact forall₂_congr fun f _ => f.readIn_byName_iff
  · simp [Method.reading, meant, hbody, hnone]

/-- The draft of a method that mentions no fields: its body reads as it stands. -/
def plain (method : Method) (h : method.reading = method.body) : Draft where
  method
  body _ := method.body.getD []
  written := by
    cases hbody : method.body with
    | none => exact .inr ⟨rfl, rfl⟩
    | some body => exact .inl rfl
  reads _ := by
    cases hbody : method.body with
    | none => rfl
    | some body =>
      rw [Method.reading, hbody] at h
      exact Option.some.inj h
  body_eq_iff _ _ := by simp

end Draft

/-! ## Chains of calls -/

/-- Appends, field by field, what the field gives. -/
def appendAll (args : InstanceField → List Expr) (start : Expr) (fields : List InstanceField) :
    Expr :=
  fields.foldl (fun generator f => generator.invoke "append" (args f)) start

/-- A chain over the fields is read by its start and by what is appended for each of them. -/
theorem readIn_appendAll {scope : List String} {args : InstanceField → List Expr} {start : Expr}
    (hstart : start.readIn scope = start) (fields : List InstanceField) :
    (appendAll args start fields).readIn scope =
      appendAll (fun f => Expr.listReadIn scope (args f)) start fields := by
  suffices hgeneral : ∀ start' : Expr, (appendAll args start' fields).readIn scope =
      appendAll (fun f => Expr.listReadIn scope (args f)) (start'.readIn scope) fields by
    rw [hgeneral, hstart]
  induction fields with
  | nil => exact fun _ => rfl
  | cons f rest ih =>
    intro start'
    have hrest := ih (start'.invoke "append" (args f))
    simpa [appendAll, Expr.readIn] using hrest

/-- Two chains over the same fields are equal if and only if their starts and all that they append
are. -/
theorem appendAll_eq_iff {args args' : InstanceField → List Expr} {start start' : Expr}
    {fields : List InstanceField} :
    appendAll args start fields = appendAll args' start' fields ↔
      start = start' ∧ ∀ f ∈ fields, args f = args' f := by
  induction fields generalizing start start' with
  | nil => simp [appendAll]
  | cons f rest ih =>
    have hrest : appendAll args (start.invoke "append" (args f)) rest =
        appendAll args' (start'.invoke "append" (args' f)) rest ↔
          start.invoke "append" (args f) = start'.invoke "append" (args' f) ∧
            ∀ g ∈ rest, args g = args' g := ih
    simp only [appendAll, List.foldl_cons] at hrest ⊢
    rw [hrest]
    simp [and_assoc]

end BeanSynthesis
