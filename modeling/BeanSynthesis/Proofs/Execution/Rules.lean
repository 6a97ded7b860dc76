import Mathlib.Order.Filter.AtTopBot.Basic
import BeanSynthesis.Proofs.Execution.Eval

/-!
# Rules of execution

A computation has a result if it gives it whenever calls may go deep enough, so one with a result
ends. The rules say how results of the parts make the result of the whole; with them, bodies are
followed without a look at the depth.
-/

namespace BeanSynthesis.Program

variable {α : Type} {p : Program}

/-- Whenever calls may go deep enough, the computation gives this. -/
def Yields (p : Program) (f : Calls → Option α) (a : α) : Prop :=
  ∀ᶠ depth in Filter.atTop, f (p.run depth) = some a

namespace Yields

variable {f : Calls → Option α} {a a' : α}

/-- What does not depend on the depth of calls is the result. -/
theorem of_eq (h : ∀ calls, f calls = some a) : p.Yields f a :=
  .of_forall fun _ => h _

/-- A computation has one result at most. -/
theorem unique (h : p.Yields f a) (h' : p.Yields f a') : a = a' := by
  obtain ⟨depth, hdepth, hdepth'⟩ := (h.and h').exists
  exact Option.some.inj (hdepth.symm.trans hdepth')

/-- A call gives what the routine gives, one call deeper. -/
theorem call {r : Routine} {self : Value} {args : List Typed} {h : Heap} {result : Value × Heap}
    (hr : p.Yields (fun calls => p.enter calls r self args h) result) :
    p.Yields (fun calls => calls r self args h) result := by
  obtain ⟨least, hleast⟩ := Filter.eventually_atTop.mp hr
  refine Filter.eventually_atTop.mpr ⟨least + 1, fun depth hdepth => ?_⟩
  obtain ⟨before, rfl⟩ := Nat.exists_eq_add_of_le' (Nat.le_of_add_left_le hdepth)
  exact hleast before (by omega)

end Yields

/-! ## Expressions -/

-- The rules have the results of the parts as hypotheses, so every proof opens the evaluator once.
attribute [local simp] eval evalArgs

/-- The expression has this value, and this is the heap after its effects. -/
def Evals (p : Program) (frame : Frame) (h : Heap) (e : Expr) (t : Typed) (h' : Heap) : Prop :=
  p.Yields (fun calls => p.eval calls frame e h) (t, h')

/-- The arguments have these values, and this is the heap after their effects. -/
def EvalsArgs (p : Program) (frame : Frame) (h : Heap) (es : List Expr) (ts : List Typed)
    (h' : Heap) : Prop :=
  p.Yields (fun calls => p.evalArgs calls frame es h) (ts, h')

/-- The expression tells whether something holds, and has no effects. -/
def Tests (p : Program) (frame : Frame) (h : Heap) (e : Expr) (b : Bool) : Prop :=
  ∃ type, p.Evals frame h e ⟨.bool b, type⟩ h

variable {frame : Frame} {h h' h'' : Heap} {e target : Expr} {es : List Expr} {t u : Typed}
  {ts : List Typed} {name : String} {type : TypeExpr} {v : Value} {b c : Bool}

namespace EvalsArgs

/-- No arguments have no values. -/
theorem nil : p.EvalsArgs frame h [] [] h := .of_eq fun _ => rfl

/-- The first argument is evaluated before the others. -/
theorem cons (he : p.Evals frame h e t h') (hes : p.EvalsArgs frame h' es ts h'') :
    p.EvalsArgs frame h (e :: es) (t :: ts) h'' := by
  filter_upwards [he, hes] with depth he hes
  simp [he, hes]

/-- One argument is evaluated. -/
theorem one (he : p.Evals frame h e t h') : p.EvalsArgs frame h [e] [t] h' := .cons he .nil

/-- Two arguments are evaluated from left to right. -/
theorem two {e₁ e₂ : Expr} {t₁ t₂ : Typed} (h₁ : p.Evals frame h e₁ t₁ h')
    (h₂ : p.Evals frame h' e₂ t₂ h'') : p.EvalsArgs frame h [e₁, e₂] [t₁, t₂] h'' :=
  .cons h₁ (.one h₂)

end EvalsArgs

/-- The superclass is no value. -/
theorem Evals.ne_superRef (he : p.Evals frame h e t h') : e ≠ .superRef := by
  rintro rfl
  obtain ⟨depth, hdepth⟩ := he.exists
  simp at hdepth

namespace Evals

/-- `this` is the object that a body runs on. -/
theorem this : p.Evals frame h .thisRef frame.this h := .of_eq fun _ => rfl

/-- The null literal is null. -/
theorem null : p.Evals frame h .nullLit ⟨.null, none⟩ h := .of_eq fun _ => rfl

/-- A literal of truth has its value. -/
theorem bool : p.Evals frame h (.boolLit b) ⟨.bool b, some (.primitive .boolean)⟩ h :=
  .of_eq fun _ => rfl

/-- A name has the value of the variable or field that it stands for. -/
theorem ident (hread : p.readName frame name h = some t) : p.Evals frame h (.ident name) t h :=
  .of_eq fun _ => by simp [hread]

/-- A field is read from what its target is. -/
theorem field (he : p.Evals frame h e t h') (hread : p.readField t name h' = some u) :
    p.Evals frame h (.field e name) u h' := by
  filter_upwards [he] with depth he
  simp [he, hread]

/-- A call without a target is one on the object that the body runs on. -/
theorem call (hargs : p.EvalsArgs frame h es ts h')
    (hcall : p.Yields (fun calls => p.invoke calls frame.this name ts h') (t, h'')) :
    p.Evals frame h (.call name es) t h'' := by
  filter_upwards [hargs, hcall] with depth hargs hcall
  simp [hargs, hcall]

/-- A call is one of a method on what its target is. -/
theorem invoke (he : p.Evals frame h target t h') (hargs : p.EvalsArgs frame h' es ts h'')
    {h₃ : Heap} (hcall : p.Yields (fun calls => p.invoke calls t name ts h'') (u, h₃)) :
    p.Evals frame h (target.invoke name es) u h₃ := by
  have htarget := he.ne_superRef
  filter_upwards [he, hargs, hcall] with depth he hargs hcall
  simp [eval_invoke p _ frame htarget, he, hargs, hcall]

/-- A call on the superclass starts the search for the method there. -/
theorem invokeSuper (hargs : p.EvalsArgs frame h es ts h')
    (hcall : p.Yields (fun calls => p.invokeSuper calls frame name ts h') (t, h'')) :
    p.Evals frame h (Expr.superRef.invoke name es) t h'' := by
  filter_upwards [hargs, hcall] with depth hargs hcall
  simp [hargs, hcall]

/-- A call on a class of the runtime is answered from outside. -/
theorem static {owner : ClassRef} (hargs : p.EvalsArgs frame h es ts h')
    (hcall : p.outside.static owner.name name ts h' = some (v, h'')) :
    p.Evals frame h (.staticCall owner name es) ⟨v, none⟩ h'' := by
  filter_upwards [hargs] with depth hargs
  simp [hargs, hcall]

/-- A new object is constructed from the values of the arguments. -/
theorem newObject (hargs : p.EvalsArgs frame h es ts h')
    (hnew : p.Yields (fun calls => p.construct calls type ts h') (t, h'')) :
    p.Evals frame h (.newObject type es) t h'' := by
  filter_upwards [hargs, hnew] with depth hargs hnew
  simp [hargs, hnew]

/-- A cast that the value admits changes the static type only. -/
theorem cast (he : p.Evals frame h e t h') (hadmits : p.admits h' t.value type) :
    p.Evals frame h (.cast type e) ⟨t.value, some type⟩ h' := by
  filter_upwards [he] with depth he
  simp [he, hadmits]

/-- A conditional is the branch that its test selects. -/
theorem cond {test yes no : Expr} (htest : p.Tests frame h test b)
    (he : p.Evals frame h (if b then yes else no) t h') :
    p.Evals frame h (.cond test yes no) t h' := by
  obtain ⟨type, htest⟩ := htest
  filter_upwards [htest, he] with depth htest he
  cases b with
  | false => simpa [htest] using he
  | true => simpa [htest] using he

end Evals

namespace Tests

variable {lhs rhs : Expr}

/-- A negation holds if its operand does not. -/
theorem not (he : p.Tests frame h e b) : p.Tests frame h (.not e) !b := by
  obtain ⟨type, he⟩ := he
  refine ⟨type, ?_⟩
  filter_upwards [he] with depth he
  simp [he]

/-- Two operands without effects are compared by their values. -/
theorem eq (hlhs : p.Evals frame h lhs t h) (hrhs : p.Evals frame h rhs u h) :
    p.Tests frame h (lhs.eq rhs) (t.value == u.value) := by
  refine ⟨some (.primitive .boolean), ?_⟩
  filter_upwards [hlhs, hrhs] with depth hlhs hrhs
  simp [Expr.eq, hlhs, hrhs]

/-- A test for null holds of null alone. -/
theorem isNull (he : p.Evals frame h e t h) : p.Tests frame h e.isNull (t.value == .null) :=
  eq he .null

/-- The right operand counts only if the left one holds. -/
theorem and (hlhs : p.Tests frame h lhs b) (hrhs : b = true → p.Tests frame h rhs c) :
    p.Tests frame h (lhs.and rhs) (b && c) := by
  obtain ⟨type, hlhs⟩ := hlhs
  cases b with
  | false =>
    refine ⟨type, ?_⟩
    filter_upwards [hlhs] with depth hlhs
    simp [Expr.and, hlhs]
  | true =>
    obtain ⟨type', hrhs⟩ := hrhs rfl
    refine ⟨type', ?_⟩
    filter_upwards [hlhs, hrhs] with depth hlhs hrhs
    simp [Expr.and, hlhs, hrhs]

/-- The right operand counts only if the left one does not hold. -/
theorem or (hlhs : p.Tests frame h lhs b) (hrhs : b = false → p.Tests frame h rhs c) :
    p.Tests frame h (lhs.or rhs) (b || c) := by
  obtain ⟨type, hlhs⟩ := hlhs
  cases b with
  | true =>
    refine ⟨type, ?_⟩
    filter_upwards [hlhs] with depth hlhs
    simp [Expr.or, hlhs]
  | false =>
    obtain ⟨type', hrhs⟩ := hrhs rfl
    refine ⟨type', ?_⟩
    filter_upwards [hlhs, hrhs] with depth hlhs hrhs
    simp [Expr.or, hlhs, hrhs]

/-- A test for a type holds of the instances of the type. -/
theorem instanceOf (he : p.Evals frame h e t h) :
    p.Tests frame h (e.instanceOf type) (p.isInstance h t.value type) := by
  refine ⟨some (.primitive .boolean), ?_⟩
  filter_upwards [he] with depth he
  simp [he]

end Tests

/-! ## Statements -/

attribute [local simp] exec block

variable {self : Value} {owner : BeanClass} {locals locals' : List Local} {flow : Flow}
  {body otherwise rest : Block} {s : Stmt}

/-- The statement ends in this way, and this is the heap after it. -/
def Execs (p : Program) (self : Value) (owner : BeanClass) (locals : List Local) (h : Heap)
    (s : Stmt) (flow : Flow) (h' : Heap) : Prop :=
  p.Yields (fun calls => p.exec calls self owner s locals h) (flow, h')

/-- The statements of a block end in this way, and this is the heap after them. -/
def Runs (p : Program) (self : Value) (owner : BeanClass) (locals : List Local) (h : Heap)
    (body : Block) (flow : Flow) (h' : Heap) : Prop :=
  p.Yields (fun calls => p.block calls self owner body locals h) (flow, h')

namespace Execs

/-- A return ends the body with its value. -/
theorem give (he : p.Evals ⟨self, owner, locals⟩ h e t h') :
    p.Execs self owner locals h (.give e) (.done t.value) h' := by
  filter_upwards [he] with depth he
  simp [Stmt.give, he]

/-- An expression as a statement is evaluated for its effects. -/
theorem expr (he : p.Evals ⟨self, owner, locals⟩ h e t h') :
    p.Execs self owner locals h (.expr e) (.next locals) h' := by
  filter_upwards [he] with depth he
  simp [he]

/-- A final variable is declared with the value of its initializer. -/
theorem declFinal (he : p.Evals ⟨self, owner, locals⟩ h e t h') :
    p.Execs self owner locals h (.declFinal type name e)
      (.next ({ name, type, value := t.value } :: locals)) h' := by
  filter_upwards [he] with depth he
  simp [Stmt.declFinal, he]

/-- A variable is declared with the value of its initializer. -/
theorem declVar (he : p.Evals ⟨self, owner, locals⟩ h e t h') :
    p.Execs self owner locals h (.declVar type name e)
      (.next ({ name, type, value := t.value } :: locals)) h' := by
  filter_upwards [he] with depth he
  simp [Stmt.declVar, he]

/-- An assignment to a name that a local variable has is one to that variable. -/
theorem assignLocal {l : Local} (he : p.Evals ⟨self, owner, locals⟩ h e t h')
    (hlocal : Frame.local? ⟨self, owner, locals⟩ name = some l) :
    p.Execs self owner locals h (.assign (.ident name) e)
      (.next (BeanSynthesis.assignLocal name t.value locals)) h' := by
  filter_upwards [he] with depth he
  simp [he, hlocal]

/-- An assignment to a field writes it. -/
theorem assignField (htarget : p.Evals ⟨self, owner, locals⟩ h target u h')
    (he : p.Evals ⟨self, owner, locals⟩ h' e t h'') {h₃ : Heap}
    (hwrite : p.writeField u name t.value h'' = some h₃) :
    p.Execs self owner locals h (.assign (target.field name) e) (.next locals) h₃ := by
  filter_upwards [htarget, he] with depth htarget he
  simp [htarget, he, hwrite]

/-- A block after a test that does not hold is left out. -/
theorem ifThen_false (htest : p.Tests ⟨self, owner, locals⟩ h e false) :
    p.Execs self owner locals h (.ifThen e body) (.next locals) h := by
  obtain ⟨type, htest⟩ := htest
  filter_upwards [htest] with depth htest
  simp [htest]

/-- A block after a test that holds is run. -/
theorem ifThen_true (htest : p.Tests ⟨self, owner, locals⟩ h e true)
    (hbody : p.Runs self owner locals h body flow h') :
    p.Execs self owner locals h (.ifThen e body) (flow.leave locals.length) h' := by
  obtain ⟨type, htest⟩ := htest
  filter_upwards [htest, hbody] with depth htest hbody
  simp [htest, hbody]

/-- An alternative runs the block that its test selects, and forgets the variables declared in
it. -/
theorem ifElse (htest : p.Tests ⟨self, owner, locals⟩ h e b)
    (hbody : p.Runs self owner locals h (if b then body else otherwise) flow h') :
    p.Execs self owner locals h (.ifElse e body otherwise) (flow.leave locals.length) h' := by
  obtain ⟨type, htest⟩ := htest
  filter_upwards [htest, hbody] with depth htest hbody
  cases b with
  | false =>
    rw [if_neg Bool.false_ne_true] at hbody
    simp [htest, hbody]
  | true =>
    rw [if_pos rfl] at hbody
    simp [htest, hbody]

/-- A block that declares no variable goes on with the variables as they are at its end. -/
theorem ifElse_next (htest : p.Tests ⟨self, owner, locals⟩ h e b)
    (hbody : p.Runs self owner locals h (if b then body else otherwise) (.next locals') h')
    (hlength : locals'.length = locals.length) :
    p.Execs self owner locals h (.ifElse e body otherwise) (.next locals') h' := by
  have hleave : (Flow.next locals').leave locals.length = .next locals' := by
    simp [Flow.leave, hlength]
  rw [← hleave]
  exact .ifElse htest hbody

end Execs

namespace Runs

/-- An empty block ends at once. -/
theorem nil : p.Runs self owner locals h [] (.next locals) h := .of_eq fun _ => rfl

/-- A statement that goes on, and then the others. -/
theorem cons (hs : p.Execs self owner locals h s (.next locals') h')
    (hrest : p.Runs self owner locals' h' rest flow h'') :
    p.Runs self owner locals h (s :: rest) flow h'' := by
  filter_upwards [hs, hrest] with depth hs hrest
  simp [hs, hrest]

/-- A statement with a result ends its block. -/
theorem cons_done (hs : p.Execs self owner locals h s (.done v) h') :
    p.Runs self owner locals h (s :: rest) (.done v) h' := by
  filter_upwards [hs] with depth hs
  simp [hs]

end Runs

/-- A result that a test decides, and otherwise the next statement. -/
theorem Runs.giveIf (htest : p.Tests ⟨self, owner, locals⟩ h e b)
    (hrest : b = false → p.Runs self owner locals h rest flow h')
    (hflow : b = true → flow = .done (.bool c) ∧ h' = h) :
    p.Runs self owner locals h (.giveIf e (.boolLit c) :: rest) flow h' := by
  cases b with
  | false => exact .cons (.ifThen_false htest) (hrest rfl)
  | true =>
    obtain ⟨rfl, rfl⟩ := hflow rfl
    exact .cons_done (.ifThen_true htest (.cons_done (.give .bool)))

/-! ## Loops -/

/-- The body of a loop is run for one item after the other, and this is the heap after it. The local
variables stay as they are. -/
def Loops (p : Program) (self : Value) (owner : BeanClass) (locals : List Local) (type : TypeExpr)
    (name : String) (body : Block) (items : List Value) (h h' : Heap) : Prop :=
  p.Yields (fun calls => forItems (fun item locals h => do
    let (flow, h) ← p.block calls self owner body (⟨name, type, item⟩ :: locals) h
    return (flow.leave locals.length, h)) items locals h) (.next locals, h')

namespace Loops

variable {item : Value} {items : List Value}

/-- Over no items a loop does nothing. -/
theorem nil : p.Loops self owner locals type name body [] h h := .of_eq fun _ => rfl

/-- A loop runs its body for the first item and goes on with the others. -/
theorem cons (hbody : p.Runs self owner (⟨name, type, item⟩ :: locals) h body
      (.next (⟨name, type, item⟩ :: locals)) h')
    (hrest : p.Loops self owner locals type name body items h' h'') :
    p.Loops self owner locals type name body (item :: items) h h'' := by
  filter_upwards [hbody, hrest] with depth hbody hrest
  simpa [forItems, hbody, Flow.leave] using hrest

end Loops

/-- A loop over what has these items runs once for each of them. -/
theorem Execs.forEach {items : List Value} (he : p.Evals ⟨self, owner, locals⟩ h e t h')
    (hitems : itemsOf? t.value h' = some items)
    (hloop : p.Loops self owner locals type name body items h' h'') :
    p.Execs self owner locals h (.forEach type name e body) (.next locals) h'' := by
  filter_upwards [he, hloop] with depth he hloop
  simpa [he, hitems] using hloop

/-! ## Calls -/

variable {line : List BeanClass} {n : Method} {signature : List TypeExpr} {args : List Typed}
  {className : String} {slots : Slots} {parent : BeanClass}

/-- Code that is called gives the result of its body. -/
theorem Yields.enter {r : Routine} (hbind : bindParams r.params args = some locals)
    (hruns : p.Runs self r.owner locals h r.body flow h') :
    p.Yields (fun calls => calls r self args h) (flow.result, h') := by
  refine Yields.call ?_
  filter_upwards [hruns] with depth hruns
  simp [Program.enter, hbind, hruns]

/-- A call of a method with a body gives the result of the body. -/
theorem Yields.dispatch (hn : methodIn? line name signature = some (owner, n))
    (hbody : n.body = some body) (hbind : bindParams n.params args = some locals)
    (hruns : p.Runs self owner locals h body flow h') :
    p.Yields (fun calls => p.dispatch calls line self name signature args h)
      (⟨flow.result, some n.returnType⟩, h') := by
  have hcall : p.Yields (fun calls => calls { owner, params := n.params, body } self args h)
      (flow.result, h') := .enter hbind hruns
  filter_upwards [hcall] with depth hcall
  simp [Program.dispatch, hn, hbody, hcall]

private theorem lineAt?_of_object (hv : h.object? v = some (className, slots)) :
    p.lineAt? h v = some (p.model.lineNamed className) := by
  simp [lineAt?, hv]

/-- The class of an object is that of its cell. -/
theorem className?_of_object (hv : h.object? v = some (className, slots)) :
    p.className? h v = some className := by
  obtain ⟨a, rfl, hcell⟩ := Heap.object?_eq_some.mp hv
  simp [className?, hcell, Cell.className?]

/-- A generated object answers as its own class does. -/
theorem send_of_object (calls : Calls) (hv : h.object? v = some (className, slots)) :
    p.send calls v name signature args h =
      p.dispatch calls (p.model.lineNamed className) v name signature args h := by
  simp [send, lineAt?_of_object hv]

/-- An object is not null. -/
theorem ne_null_of_object (hv : h.object? v = some (className, slots)) : v ≠ .null := by
  obtain ⟨a, rfl, -⟩ := Heap.object?_eq_some.mp hv
  exact nofun

/-- A call without arguments is looked up in the class of the object alone. -/
theorem invoke_without_args (calls : Calls) (hv : h.object? t.value = some (className, slots))
    (hname : name ≠ "getClass") :
    p.invoke calls t name [] h =
      p.dispatch calls (p.model.lineNamed className) t.value name [] [] h := by
  simp [invoke, ne_null_of_object hv, hname, lineAt?_of_object hv, signatureFor?,
    send_of_object calls hv]

/-- What a call on a value of other code does is up to that code. -/
theorem invoke_token (calls : Calls) (id : Nat) (type : Option TypeExpr)
    (hname : name ≠ "getClass") :
    p.invoke calls ⟨.token id, type⟩ name args h =
      (p.outside.invoke (.token id) name args h).map fun (v, h) => (⟨v, none⟩, h) := by
  simp [invoke, hname, lineAt?, Heap.object?, invokeOutside]

/-- Two classes are equal if they have the same name. -/
theorem invoke_equals_classOf (calls : Calls) (type : Option TypeExpr) :
    p.invoke calls ⟨.classOf className, type⟩ "equals" [t] h =
      some (⟨.bool (t.value == .classOf className), none⟩, h) := by
  simp [invoke, lineAt?, Heap.object?, invokeOutside]

/-- Any value tells its class. -/
theorem invoke_getClass (calls : Calls) (hv : p.className? h t.value = some className) :
    p.invoke calls t "getClass" [] h = some (⟨.classOf className, none⟩, h) := by
  have hne : t.value ≠ .null := by
    rintro heq
    simp [heq, className?, Value.platformClass?] at hv
  simp [invoke, hne, hv]

/-- A call on the superclass is dispatched along the line of the superclass. -/
theorem invokeSuper_of_signature (calls : Calls)
    (hparent : p.model.parentOf frame.owner = .generated parent)
    (hsignature : p.signatureFor? (signaturesIn (p.model.line parent) name) args =
      some signature) :
    p.invokeSuper calls frame name args h =
      p.dispatch calls (p.model.line parent) frame.self name signature args h := by
  simp [invokeSuper, hparent, hsignature]

/-- A call without arguments of a method of the object itself, as the superclass gives it. -/
theorem Evals.super_without_args (hparent : p.model.parentOf frame.owner = .generated parent)
    (hcall : p.Yields (fun calls => p.dispatch calls (p.model.line parent) frame.self name [] [] h)
      (t, h')) : p.Evals frame h (Expr.superRef.invoke name []) t h' := by
  refine .invokeSuper .nil ?_
  have hinvoke : ∀ calls, p.invokeSuper calls frame name [] h =
      p.dispatch calls (p.model.line parent) frame.self name [] [] h :=
    fun calls => invokeSuper_of_signature calls hparent rfl
  simpa only [hinvoke] using hcall

/-- A call with arguments on a generated object is looked up in its class, under the signature that
the static types lead to. -/
theorem invoke_of_signature (calls : Calls) (hv : h.object? v = some (className, slots))
    (hname : name ≠ "getClass")
    (hsignature : p.signatureFor? (p.signaturesOf type name) args = some signature) :
    p.invoke calls ⟨v, some type⟩ name args h =
      p.dispatch calls (p.model.lineNamed className) v name signature args h := by
  simp [invoke, ne_null_of_object hv, hname, lineAt?_of_object hv, hsignature,
    send_of_object calls hv]

/-- A cell that is no generated object has no line of classes. -/
theorem lineAt?_of_cell {a : Nat} {cell : Cell} (hcell : h[a]? = some cell)
    (hobject : ∀ name slots, cell ≠ .object name slots) : p.lineAt? h (.ref a) = none := by
  cases cell with
  | object name slots => exact absurd rfl (hobject name slots)
  | _ => simp [lineAt?, Heap.object?, hcell]

/-- What a call on a cell that is no generated object does is up to the platform, or to other
code. -/
theorem invoke_of_cell (calls : Calls) {a : Nat} {cell : Cell} (hcell : h[a]? = some cell)
    (hobject : ∀ name slots, cell ≠ .object name slots) (type : Option TypeExpr)
    (hname : name ≠ "getClass") :
    p.invoke calls ⟨.ref a, type⟩ name args h = p.invokeOutside (.ref a) name args h := by
  simp [invoke, hname, lineAt?_of_cell hcell hobject]

/-- Adding to a list appends the value to its items. -/
theorem invoke_list_add (calls : Calls) {a : Nat} {items : List Value}
    (hcell : h[a]? = some (.list items)) (type : Option TypeExpr) :
    p.invoke calls ⟨.ref a, type⟩ "add" [t] h =
      some (⟨.bool true, none⟩, h.set a (.list (items ++ [t.value]))) := by
  rw [invoke_of_cell calls hcell nofun type (by decide)]
  simp [invokeOutside, hcell]

/-- A new list is empty. -/
theorem construct_arrayList (calls : Calls) (typeArgs : List TypeExpr) (h : Heap) :
    p.construct calls (.named "java.util.ArrayList" typeArgs) [] h =
      some (⟨.ref h.length, some (.named "java.util.ArrayList" typeArgs)⟩, h ++ [.list []]) :=
  rfl

/-- A new map from a map has the entries of that map. -/
theorem construct_hashMap (calls : Calls) (typeArgs : List TypeExpr) {a : Nat}
    {entries : List (Value × Value)} (hcell : h[a]? = some (.map entries))
    (type : Option TypeExpr) :
    p.construct calls (.named "java.util.HashMap" typeArgs) [⟨.ref a, type⟩] h =
      some (⟨.ref h.length, some (.named "java.util.HashMap" typeArgs)⟩, h ++ [.map entries]) := by
  simp [construct, hcell]

/-- An object of a class outside the model is created by other code. -/
theorem construct_of_outside (calls : Calls) {typeArgs : List TypeExpr}
    (hname : name ≠ "java.util.HashMap") (hline : p.model.lineNamed name = []) :
    p.construct calls (.named name typeArgs) [t] h =
      (p.outside.construct (.named name typeArgs) [t] h).map fun (v, h) =>
        (⟨v, some (.named name typeArgs)⟩, h) := by
  unfold construct
  split
  · simp_all
  · simp_all
  · simp only [CodeModel.lineOfType, hline]

end BeanSynthesis.Program
