import Mathlib.Algebra.Group.Nat.Defs
import BeanSynthesis.Proofs.Execution.Lookup

/-!
# Execution of bodies

The meaning of synthesized bodies, as Java gives it. Expressions and statements are followed by
recursion on their form; what a call does is left to a parameter, and bounding the depth of calls
gives that parameter its meaning. Code outside the model is a parameter as well. A body that throws
an exception, or that would not compile, has no result.
-/

namespace BeanSynthesis

/-- Code outside the model. -/
structure Outside where
  /-- Static methods, by class and name. -/
  static : String → String → List Typed → Heap → Option (Value × Heap)
  /-- Static fields, by class and name. -/
  constant : String → String → Option Value
  /-- Constructors, by class type. -/
  construct : TypeExpr → List Typed → Heap → Option (Value × Heap)
  /-- Methods of objects, by receiver and name. -/
  invoke : Value → String → List Typed → Heap → Option (Value × Heap)
  /-- The signatures of the methods of this name that the class of this name has from superclasses
  outside the model. -/
  signatures : String → String → List (List TypeExpr)
  /-- The class of a value that is no cell. -/
  classOf : Nat → String
  /-- Whether the objects of the class of this name belong to a type outside the model. -/
  belongs : String → TypeExpr → Bool

/-- A model with the code around it. -/
structure Program where
  model : CodeModel
  outside : Outside

/-- Code of a generated class. -/
structure Routine where
  owner : BeanClass
  params : List Param
  body : Block

/-- What calls do: the result and the heap after it, if there are any. -/
abbrev Calls := Routine → Value → List Typed → Heap → Option (Value × Heap)

/-- A local variable. -/
structure Local where
  name : String
  type : TypeExpr
  value : Value

/-- What the code of a body sees besides the heap. -/
structure Frame where
  self : Value
  /-- The class that the code stands in. -/
  owner : BeanClass
  /-- The local variables, the latest one first. -/
  locals : List Local

/-- How a statement ends. -/
inductive Flow where
  /-- With the next statement. -/
  | next (locals : List Local)
  /-- With a result. -/
  | done (v : Value)

namespace Frame

/-- The object itself. -/
def this (frame : Frame) : Typed := ⟨frame.self, some frame.owner.asType⟩

/-- The local variable of this name. -/
def local? (frame : Frame) (name : String) : Option Local :=
  frame.locals.find? (·.name == name)

end Frame

/-- The local variables after an assignment to the latest one of this name. -/
def assignLocal (name : String) (v : Value) : List Local → List Local
  | [] => []
  | l :: rest =>
    if l.name == name then { l with value := v } :: rest else l :: assignLocal name v rest

/-- A flow at the end of a block, where the variables declared in the block are gone. -/
def Flow.leave (outer : Nat) : Flow → Flow
  | next locals => next (locals.drop (locals.length - outer))
  | done v => done v

/-- What a routine gives whose body ends in this way; without a result it is nothing. -/
def Flow.result : Flow → Value
  | next _ => .null
  | done v => v

/-- Runs the body of a loop for one item after the other. -/
def forItems (body : Value → List Local → Heap → Option (Flow × Heap)) :
    List Value → List Local → Heap → Option (Flow × Heap)
  | [], locals, h => some (.next locals, h)
  | item :: rest, locals, h =>
    match body item locals h with
    | some (.next locals, h) => forItems body rest locals h
    | other => other

/-- The local variables that parameters become. -/
def bindParams : List Param → List Typed → Option (List Local)
  | [], [] => some []
  | param :: params, arg :: args =>
    (bindParams params args).map
      ({ name := param.name, type := param.type, value := arg.value } :: ·)
  | _, _ => none

namespace Program

/-- The line of the class of a generated object. -/
def lineAt? (p : Program) (h : Heap) (v : Value) : Option (List BeanClass) :=
  (h.object? v).map fun (className, _) => p.model.lineNamed className

/-- The name of the class of a value. -/
def className? (p : Program) (h : Heap) : Value → Option String
  | .ref a => h[a]?.bind Cell.className?
  | .token id => some (p.outside.classOf id)
  | v => v.platformClass?

/-- Whether a value is an object of a type. -/
def isInstance (p : Program) (h : Heap) (v : Value) (type : TypeExpr) : Bool :=
  match p.className? h v with
  | some className =>
    (p.model.lineNamed className).any (fun c => type == c.asType) ||
      p.outside.belongs className type
  | none => false

/-- Whether a value may be cast to a type: a class has to be that of the object. -/
def admits (p : Program) (h : Heap) (v : Value) (type : TypeExpr) : Bool :=
  match type with
  | .named .. => v == .null || p.isInstance h v type
  | _ => true

/-- Reads a field of an object. -/
def readField (p : Program) (target : Typed) (name : String) (h : Heap) : Option Typed :=
  match target.type.bind fun type => fieldIn? (p.model.lineOfType type) name,
    h.object? target.value with
  | some (slot, type), some (_, slots) => some ⟨slots.get slot, some type⟩
  | _, _ => none

/-- Sets a field of an object. -/
def writeField (p : Program) (target : Typed) (name : String) (v : Value) (h : Heap) :
    Option Heap :=
  match target.type.bind fun type => fieldIn? (p.model.lineOfType type) name, target.value with
  | some (slot, _), .ref a =>
    match h[a]? with
    | some (.object className slots) => some (h.set a (.object className (slots.set slot v)))
    | _ => none
  | _, _ => none

/-- What a simple name stands for: a local variable, or else a field of the object itself. -/
def readName (p : Program) (frame : Frame) (name : String) (h : Heap) : Option Typed :=
  match frame.local? name with
  | some l => some ⟨l.value, some l.type⟩
  | none => p.readField frame.this name h

/-- A method of the platform, or one of other code outside the model. -/
def invokeOutside (p : Program) (target : Value) (name : String) (args : List Typed) (h : Heap) :
    Option (Typed × Heap) :=
  let untyped := (p.outside.invoke target name args h).map fun (v, h) => (⟨v, none⟩, h)
  match target, name, args with
  | .classOf c, "equals", [d] => some (⟨.bool (d.value == .classOf c), none⟩, h)
  | .ref a, name, args =>
    match h[a]?, name, args with
    | some (.array items), "clone", [] => some (⟨.ref h.length, none⟩, h ++ [.array items])
    | some (.list items), "clone", [] => some (⟨.ref h.length, none⟩, h ++ [.list items])
    | some (.map entries), "clone", [] => some (⟨.ref h.length, none⟩, h ++ [.map entries])
    | some (.list items), "add", [item] =>
      some (⟨.bool true, none⟩, h.set a (.list (items ++ [item.value])))
    | some (.list items), "isEmpty", [] => some (⟨.bool items.isEmpty, none⟩, h)
    | some (.list items), "size", [] => some (⟨.int items.length, none⟩, h)
    | some (.list items), "get", [⟨.int (.ofNat i), _⟩] =>
      items[i]?.map fun item => (⟨item, none⟩, h)
    | _, _, _ => untyped
  | _, _, _ => untyped

/-- Runs the method of this name and signature, as the classes of a line give it. -/
def dispatch (p : Program) (calls : Calls) (line : List BeanClass) (self : Value) (name : String)
    (signature : List TypeExpr) (args : List Typed) (h : Heap) : Option (Typed × Heap) :=
  match methodIn? line name signature with
  | some (owner, n) =>
    match n.body with
    | some body =>
      (calls { owner, params := n.params, body } self args h).map fun (v, h) =>
        (⟨v, some n.returnType⟩, h)
    | none => p.invokeOutside self name args h
  | none => p.invokeOutside self name args h

/-- Calls the method of this name and signature of an object, as its own class gives it. -/
def send (p : Program) (calls : Calls) (target : Value) (name : String)
    (signature : List TypeExpr) (args : List Typed) (h : Heap) : Option (Typed × Heap) :=
  match p.lineAt? h target with
  | some line => p.dispatch calls line target name signature args h
  | none => p.invokeOutside target name args h

/-- The signatures of the methods of this name that a type has, from generated classes and from
outside the model. -/
def signaturesOf (p : Program) (type : TypeExpr) (name : String) : List (List TypeExpr) :=
  match type with
  | .named className _ =>
    signaturesIn (p.model.lineNamed className) name ++ p.outside.signatures className name
  | _ => []

/-- The one of these signatures that a call means. There is only one without parameters. -/
def signatureFor? (p : Program) (signatures : List (List TypeExpr)) (args : List Typed) :
    Option (List TypeExpr) :=
  if args.isEmpty then some [] else p.model.mostSpecific? signatures (args.map (·.type))

/-- Calls a method of an object. -/
def invoke (p : Program) (calls : Calls) (target : Typed) (name : String) (args : List Typed)
    (h : Heap) : Option (Typed × Heap) :=
  if target.value = .null then none
  else if name = "getClass" ∧ args = [] then
    (p.className? h target.value).map fun className => (⟨.classOf className, none⟩, h)
  else
    match p.lineAt? h target.value with
    | none => p.invokeOutside target.value name args h
    | some _ =>
      let signatures := (target.type.map (p.signaturesOf · name)).getD []
      match p.signatureFor? signatures args with
      | some signature => p.send calls target.value name signature args h
      | none => p.invokeOutside target.value name args h

/-- Calls a method of the object itself, as the superclass gives it. -/
def invokeSuper (p : Program) (calls : Calls) (frame : Frame) (name : String) (args : List Typed)
    (h : Heap) : Option (Typed × Heap) :=
  match p.model.parentOf frame.owner with
  | .generated parent =>
    let line := p.model.line parent
    match p.signatureFor? (signaturesIn line name) args with
    | some signature => p.dispatch calls line frame.self name signature args h
    | none => p.invokeOutside frame.self name args h
  | _ => p.invokeOutside frame.self name args h

/-- The constructor of a class with this signature. A class that declares none has one without
parameters that does nothing. -/
def constructor? (c : BeanClass) (signature : List TypeExpr) : Option Routine :=
  match c.constructors.find? (·.hasSignature signature) with
  | some k => some { owner := c, params := k.params, body := k.body }
  | none =>
    if c.constructors.isEmpty && signature.isEmpty then
      some { owner := c, params := [], body := [] }
    else none

/-- The signature of the constructor that an instance creation means. -/
def constructorFor? (p : Program) (c : BeanClass) (args : List Typed) : Option (List TypeExpr) :=
  if args.isEmpty then some []
  else
    let signatures := c.constructors.map fun k => k.params.map (·.type)
    p.model.mostSpecific? signatures (args.map (·.type))

/-- Runs the constructors without parameters of classes, the last one first. -/
def initAncestors (calls : Calls) (self : Value) : List BeanClass → Heap → Option Heap
  | [], h => some h
  | c :: rest, h => do
    let h ← initAncestors calls self rest h
    let k ← constructor? c []
    let (_, h) ← calls k self [] h
    return h

/-- Creates an object. -/
def construct (p : Program) (calls : Calls) (type : TypeExpr) (args : List Typed) (h : Heap) :
    Option (Typed × Heap) :=
  match type, args with
  | .named "java.util.ArrayList" _, [] => some (⟨.ref h.length, some type⟩, h ++ [.list []])
  | .named "java.util.HashMap" _, [⟨.ref a, _⟩] =>
    match h[a]? with
    | some (.map entries) => some (⟨.ref h.length, some type⟩, h ++ [.map entries])
    | _ => none
  | _, _ =>
    match p.model.lineOfType type with
    | [] => (p.outside.construct type args h).map fun (v, h) => (⟨v, some type⟩, h)
    | c :: ancestors => do
      guard (!c.isAbstract && !c.isEnum)
      let signature ← p.constructorFor? c args
      let k ← constructor? c signature
      let self : Value := .ref h.length
      let h ← initAncestors calls self ancestors (h ++ [.object c.name []])
      let (_, h) ← calls k self args h
      return (⟨self, some type⟩, h)

mutual

/-- The value of an expression, with the heap after its effects. -/
def eval (p : Program) (calls : Calls) (frame : Frame) : Expr → Heap → Option (Typed × Heap)
  | .thisRef, h => some (frame.this, h)
  | .superRef, _ => none
  | .nullLit, h => some (⟨.null, none⟩, h)
  | .boolLit b, h => some (⟨.bool b, some (.primitive .boolean)⟩, h)
  | .intLit i, h => some (⟨.int i, some (.primitive .int)⟩, h)
  | .strLit s, h => some (⟨.text s, some (.ofName "java.lang.String")⟩, h)
  | .ident name, h => (p.readName frame name h).map fun t => (t, h)
  | .field target name, h => do
    let (target, h) ← eval p calls frame target h
    let t ← p.readField target name h
    return (t, h)
  | .call name args, h => do
    let (args, h) ← evalArgs p calls frame args h
    p.invoke calls frame.this name args h
  | .invoke .superRef name args, h => do
    let (args, h) ← evalArgs p calls frame args h
    p.invokeSuper calls frame name args h
  | .invoke target name args, h => do
    let (target, h) ← eval p calls frame target h
    let (args, h) ← evalArgs p calls frame args h
    p.invoke calls target name args h
  | .staticCall owner name args, h => do
    let (args, h) ← evalArgs p calls frame args h
    let (v, h) ← p.outside.static owner.name name args h
    return (⟨v, none⟩, h)
  | .staticField owner name, h => (p.outside.constant owner.name name).map fun v => (⟨v, none⟩, h)
  | .newObject type args, h => do
    let (args, h) ← evalArgs p calls frame args h
    p.construct calls type args h
  | .cast type operand, h => do
    let (t, h) ← eval p calls frame operand h
    if p.admits h t.value type then some (⟨t.value, some type⟩, h) else none
  | .not operand, h => do
    match ← eval p calls frame operand h with
    | (⟨.bool b, type⟩, h) => some (⟨.bool !b, type⟩, h)
    | _ => none
  | .binary .and lhs rhs, h => do
    match ← eval p calls frame lhs h with
    | (⟨.bool true, _⟩, h) => eval p calls frame rhs h
    | (⟨.bool false, type⟩, h) => some (⟨.bool false, type⟩, h)
    | _ => none
  | .binary .or lhs rhs, h => do
    match ← eval p calls frame lhs h with
    | (⟨.bool true, type⟩, h) => some (⟨.bool true, type⟩, h)
    | (⟨.bool false, _⟩, h) => eval p calls frame rhs h
    | _ => none
  | .binary .eq lhs rhs, h => do
    let (s, h) ← eval p calls frame lhs h
    let (t, h) ← eval p calls frame rhs h
    return (⟨.bool (s.value == t.value), some (.primitive .boolean)⟩, h)
  | .binary .ne lhs rhs, h => do
    let (s, h) ← eval p calls frame lhs h
    let (t, h) ← eval p calls frame rhs h
    return (⟨.bool (s.value != t.value), some (.primitive .boolean)⟩, h)
  | .binary .minus lhs rhs, h => do
    let (s, h) ← eval p calls frame lhs h
    let (t, h) ← eval p calls frame rhs h
    match s.value, t.value with
    | .int i, .int j => some (⟨.int ((i - j).bmod (2 ^ 32)), some (.primitive .int)⟩, h)
    | _, _ => none
  | .instanceOf operand type, h => do
    let (t, h) ← eval p calls frame operand h
    return (⟨.bool (p.isInstance h t.value type), some (.primitive .boolean)⟩, h)
  | .cond test yes no, h => do
    match ← eval p calls frame test h with
    | (⟨.bool true, _⟩, h) => eval p calls frame yes h
    | (⟨.bool false, _⟩, h) => eval p calls frame no h
    | _ => none

/-- The values of arguments, from left to right. -/
def evalArgs (p : Program) (calls : Calls) (frame : Frame) :
    List Expr → Heap → Option (List Typed × Heap)
  | [], h => some ([], h)
  | arg :: args, h => do
    let (t, h) ← eval p calls frame arg h
    let (ts, h) ← evalArgs p calls frame args h
    return (t :: ts, h)

end

/-- A call on an object other than `super` evaluates the object, and then the arguments. -/
theorem eval_invoke (p : Program) (calls : Calls) (frame : Frame) {target : Expr}
    (htarget : target ≠ .superRef) (name : String) (args : List Expr) (h : Heap) :
    p.eval calls frame (target.invoke name args) h =
      (p.eval calls frame target h).bind fun (t, h) =>
        (p.evalArgs calls frame args h).bind fun (ts, h) => p.invoke calls t name ts h := by
  rw [eval]
  · rfl
  · exact htarget

/-- The items that a loop goes through. -/
def itemsOf? (v : Value) (h : Heap) : Option (List Value) :=
  match v with
  | .ref a =>
    match h[a]? with
    | some (.list items) => some items
    | some (.array items) => some items
    | _ => none
  | _ => none

mutual

/-- Executes a statement. -/
def exec (p : Program) (calls : Calls) (self : Value) (owner : BeanClass) :
    Stmt → List Local → Heap → Option (Flow × Heap)
  | .ret none, _, h => some (.done .null, h)
  | .ret (some value), locals, h => do
    let (t, h) ← p.eval calls ⟨self, owner, locals⟩ value h
    return (.done t.value, h)
  | .expr e, locals, h => do
    let (_, h) ← p.eval calls ⟨self, owner, locals⟩ e h
    return (.next locals, h)
  | .decl _ type name none, locals, h => some (.next (⟨name, type, .null⟩ :: locals), h)
  | .decl _ type name (some init), locals, h => do
    let (t, h) ← p.eval calls ⟨self, owner, locals⟩ init h
    return (.next (⟨name, type, t.value⟩ :: locals), h)
  | .assign (.ident name) value, locals, h => do
    let (t, h) ← p.eval calls ⟨self, owner, locals⟩ value h
    let frame : Frame := ⟨self, owner, locals⟩
    match frame.local? name with
    | some _ => some (.next (assignLocal name t.value locals), h)
    | none =>
      let h ← p.writeField frame.this name t.value h
      return (.next locals, h)
  | .assign (.field target name) value, locals, h => do
    let (target, h) ← p.eval calls ⟨self, owner, locals⟩ target h
    let (t, h) ← p.eval calls ⟨self, owner, locals⟩ value h
    let h ← p.writeField target name t.value h
    return (.next locals, h)
  | .assign _ _, _, _ => none
  | .ifThen test body, locals, h => do
    match ← p.eval calls ⟨self, owner, locals⟩ test h with
    | (⟨.bool true, _⟩, h) =>
      let (flow, h) ← block p calls self owner body locals h
      return (flow.leave locals.length, h)
    | (⟨.bool false, _⟩, h) => some (.next locals, h)
    | _ => none
  | .ifElse test body otherwise, locals, h => do
    match ← p.eval calls ⟨self, owner, locals⟩ test h with
    | (⟨.bool true, _⟩, h) =>
      let (flow, h) ← block p calls self owner body locals h
      return (flow.leave locals.length, h)
    | (⟨.bool false, _⟩, h) =>
      let (flow, h) ← block p calls self owner otherwise locals h
      return (flow.leave locals.length, h)
    | _ => none
  | .forEach type name iterable body, locals, h => do
    let (t, h) ← p.eval calls ⟨self, owner, locals⟩ iterable h
    let items ← itemsOf? t.value h
    forItems (fun item locals h => do
      let (flow, h) ← block p calls self owner body (⟨name, type, item⟩ :: locals) h
      return (flow.leave locals.length, h)) items locals h

/-- Executes statements one after the other. -/
def block (p : Program) (calls : Calls) (self : Value) (owner : BeanClass) :
    List Stmt → List Local → Heap → Option (Flow × Heap)
  | [], locals, h => some (.next locals, h)
  | s :: rest, locals, h =>
    match exec p calls self owner s locals h with
    | some (.next locals, h) => block p calls self owner rest locals h
    | other => other

end

/-- Runs a routine, with its parameters as local variables. -/
def enter (p : Program) (calls : Calls) : Calls := fun r self args h => do
  let locals ← bindParams r.params args
  let (flow, h) ← p.block calls self r.owner r.body locals h
  return (flow.result, h)

/-- What calls do that need no more than so many calls inside each other. -/
def run (p : Program) : Nat → Calls
  | 0 => fun _ _ _ _ => none
  | depth + 1 => p.enter (p.run depth)

end Program

end BeanSynthesis
