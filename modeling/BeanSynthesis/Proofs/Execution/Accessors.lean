import BeanSynthesis.Proofs.Execution.Objects

/-!
# Accessors of fields

Of an object with a method that reads a field and one that sets it, code that calls these methods
need not know more: not in which class of the line they stand, and not how they are written.
-/

namespace BeanSynthesis

namespace Heap

/-- A later heap in which this field of an object has this value. Nothing else of what was there
before is different. -/
structure Stores (h k : Heap) (a : Nat) (slot : Slot) (v : Value) : Prop where
  keeps : Keeps (· ≠ a) h k
  changed : ∃ className before after, h[a]? = some (.object className before) ∧
    k[a]? = some (.object className after) ∧
      ∀ other, after.get other = if other = slot then v else before.get other

variable {h k l : Heap} {a b : Nat} {slot : Slot} {v w : Value} {className : String}
  {slots : Slots}

/-- A reference holds an object if its cell does. -/
theorem object?_ref : h.object? (.ref a) = some (className, slots) ↔
    h[a]? = some (.object className slots) := by
  rw [object?_eq_some]
  constructor
  · rintro ⟨b, hb, hcell⟩
    obtain rfl := Value.ref.inj hb
    exact hcell
  · intro hcell
    exact ⟨a, rfl, hcell⟩

/-- An object whose field is set holds the value there. -/
theorem stores_set (hcell : h[a]? = some (.object className slots)) (slot : Slot) (v : Value) :
    h.Stores (h.set a (.object className (slots.set slot v))) a slot v where
  keeps := keeps_set h a _
  changed := by
    have hlt : a < h.length := (List.getElem?_eq_some_iff.mp hcell).1
    exact ⟨className, slots, _, hcell, List.getElem?_set_self hlt,
      fun other => slots.get_set slot other v⟩

namespace Stores

/-- Every object of before is still there, with the same class and all other fields. -/
theorem cell (hstores : h.Stores k a slot v) (hcell : h[b]? = some (.object className slots)) :
    ∃ after, k[b]? = some (.object className after) ∧
      ∀ other, after.get other = if b = a ∧ other = slot then v else slots.get other := by
  by_cases hba : b = a
  · subst hba
    obtain ⟨found, before, after, hbefore, hafter, hget⟩ := hstores.changed
    obtain ⟨rfl, rfl⟩ : found = className ∧ before = slots := by
      simpa using hbefore.symm.trans hcell
    exact ⟨after, hafter, by simpa using hget⟩
  · refine ⟨slots, hstores.keeps.get_of_some hba hcell, fun other => ?_⟩
    rw [if_neg fun hboth => hba hboth.1]

/-- The field has the value. -/
theorem valueAt_self (hstores : h.Stores k a slot v) : k.valueAt (.ref a) slot = v := by
  obtain ⟨className, before, after, -, hafter, hget⟩ := hstores.changed
  rw [valueAt_of_object (object?_ref.mpr hafter), hget, if_pos rfl]

/-- New cells that were there before the field was set are no difference to what was there. -/
theorem of_extends (hextends : h.Extends k) (hstores : k.Stores l a slot v) (ha : a < h.length) :
    h.Stores l a slot v where
  keeps := (hextends.mono fun _ _ _ => trivial).trans hstores.keeps
  changed := by
    rw [← hextends.get_eq a trivial ha]
    exact hstores.changed

end Stores

end Heap

namespace Program

variable {p : Program} {h : Heap} {a : Nat} {c : BeanClass} {n : Method} {f : Field}
  {className name : String} {type static : TypeExpr} {slot : Slot} {slots : Slots}
  {args : List Typed}

/-- The objects of the class of this name have a method without parameters that reads a field. -/
def Reads (p : Program) (className name : String) (slot : Slot) : Prop :=
  ∀ h v declared slots, h.object? v = some (className, slots) → ∃ type,
    p.Yields (fun calls => p.invoke calls ⟨v, declared⟩ name [] h) (⟨slots.get slot, type⟩, h)

/-- The objects of the class of this name have a method with one parameter, of this type, that sets
a field to the argument. -/
def Writes (p : Program) (className name : String) (type : TypeExpr) (slot : Slot) : Prop :=
  ∀ h a slots arg, h[a]? = some (.object className slots) → ∃ result k,
    p.Yields (fun calls =>
      p.dispatch calls (p.model.lineNamed className) (.ref a) name [type] [arg] h) (result, k) ∧
      h.Stores k a slot arg.value

/-! ## Calls -/

/-- A method of an object's class is the one that a call with arguments of its parameter types
runs, if the static type of the object has a method like it. -/
theorem yields_invoke {locals : List Local} {body : Block} {flow : Flow} {h' : Heap}
    (hcell : h[a]? = some (.object className slots)) (hname : n.name ≠ "getClass")
    (hdeclared : n.signature ∈ p.signaturesOf static n.name)
    (hargs : args.map (·.type) = n.signature.map some)
    (hn : methodIn? (p.model.lineNamed className) n.name n.signature = some (c, n))
    (hbody : n.body = some body) (hbind : bindParams n.params args = some locals)
    (hruns : p.Runs (.ref a) c locals h body flow h') :
    p.Yields (fun calls => p.invoke calls ⟨.ref a, some static⟩ n.name args h)
      (⟨flow.result, some n.returnType⟩, h') := by
  simp only [invoke_of_signature _ (Heap.object?_ref.mpr hcell) hname
    (signatureFor?_of_mem hdeclared hargs)]
  exact .dispatch hn hbody hbind hruns

/-- A call of what writes a field with a parameter of this type, on an object with the method
declared, gets through and leaves the value in the field. -/
theorem Writes.yields_invoke (hwrites : p.Writes className name type slot)
    (hcell : h[a]? = some (.object className slots)) (hname : name ≠ "getClass")
    (hdeclared : [type] ∈ p.signaturesOf static name) (w : Value) :
    ∃ result k, p.Yields (fun calls =>
      p.invoke calls ⟨.ref a, some static⟩ name [⟨w, some type⟩] h) (result, k) ∧
      h.Stores k a slot w := by
  obtain ⟨result, k, hyields, hstores⟩ := hwrites h a slots ⟨w, some type⟩ hcell
  have hsignature : p.signatureFor? (p.signaturesOf static name) [⟨w, some type⟩] = some [type] :=
    signatureFor?_of_mem hdeclared rfl
  refine ⟨result, k, ?_, hstores⟩
  simp only [invoke_of_signature _ (Heap.object?_ref.mpr hcell) hname hsignature]
  exact hyields

/-! ## Plain accessors -/

/-- A getter that returns a field. -/
def plainGetter (name : String) (f : Field) : Method :=
  { name, returnType := f.type, body := some [.give (.ident f.name)] }

/-- A setter that sets a field to its parameter. -/
def plainSetter (name : String) (f : Field) : Method :=
  { name, returnType := .void, params := [Param.final "given" f.type]
    body := some [.assign (.field .thisRef f.name) (.ident "given")] }

/-- A plain getter of a field of its class reads that field. -/
theorem reads_of_plainGetter (hm : p.model.WellFormed) (hc : c ∈ p.model.classes)
    (hn : methodIn? (p.model.lineNamed className) name [] = some (c, plainGetter name f))
    (hname : name ≠ "getClass") (hfield : c.instanceField? f.name = some f) :
    p.Reads className name (c.name, f.name) := by
  intro h v declared slots hv
  have hread : p.Evals ⟨v, c, []⟩ h (.ident f.name) ⟨slots.get (c.name, f.name), some f.type⟩ h :=
    .ident (readName_of_field hm hc rfl hfield hv)
  refine ⟨some f.type, ?_⟩
  simp only [invoke_without_args (t := ⟨v, declared⟩) _ hv hname]
  exact .dispatch hn rfl rfl (.cons_done (.give hread))

/-- A plain setter for a field of its class writes that field. -/
theorem writes_of_plainSetter (hm : p.model.WellFormed) (hc : c ∈ p.model.classes)
    (hn : methodIn? (p.model.lineNamed className) name [f.type] = some (c, plainSetter name f))
    (hfield : c.instanceField? f.name = some f) :
    p.Writes className name f.type (c.name, f.name) := by
  intro h a slots arg hcell
  have hgiven : p.Evals ⟨.ref a, c, [⟨"given", f.type, arg.value⟩]⟩ h (.ident "given")
      ⟨arg.value, some f.type⟩ h := .ident rfl
  have hset : p.Execs (.ref a) c [⟨"given", f.type, arg.value⟩] h
      (.assign (.field .thisRef f.name) (.ident "given")) (.next [⟨"given", f.type, arg.value⟩])
      (h.set a (.object className (slots.set (c.name, f.name) arg.value))) :=
    .assignField .this hgiven (writeField_of_asType hm hc hfield hcell arg.value)
  exact ⟨_, _, .dispatch hn rfl rfl (.cons hset .nil), Heap.stores_set hcell _ _⟩

end Program

end BeanSynthesis
