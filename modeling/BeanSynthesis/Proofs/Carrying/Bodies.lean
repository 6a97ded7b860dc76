import BeanSynthesis.Proofs.Edits.Chains
import BeanSynthesis.Proofs.Execution.Accessors
import BeanSynthesis.Proofs.Execution.Creation

/-!
# What access to carried values does

The constructor for a value, the setters and the getters are executed on objects whose other
accessors read and set fields. Which of several methods of a name a call in them means is settled by
the types of the arguments, which are exactly those of the parameters.
-/

namespace BeanSynthesis

open Program

/-- The class has the method for its objects of the class of this name, and calls in code that knows
them as objects of the class can mean it. -/
structure Program.Gives (p : Program) (d : BeanClass) (className : String) (n : Method) : Prop where
  found : methodIn? (p.model.lineNamed className) n.name n.signature = some (d, n)
  declared : n.signature ∈ p.signaturesOf d.asType n.name

namespace ValueAccessors

variable {p : Program} {settings : Settings} {d : BeanClass} {carrier type : TypeExpr}
  {className carrierName name property read : String} {slot valueSlot : Slot}
  {slots valueSlots : Slots} {h : Heap} {a b : Nat}

/-! ## The constructor -/

/-- The constructor for a value sets the field in which `setValue` keeps it. -/
theorem starts_valueConstructor
    (hfound : d.constructors.find? (·.hasSignature [type]) = some (valueConstructor settings type))
    (hset : p.Writes className "setValue" type slot)
    (hdeclared : [type] ∈ p.signaturesOf d.asType "setValue") (v : Value) :
    p.Starts d className [type] [⟨v, some type⟩] fun slots => slots.get slot = v := by
  refine ⟨_, by rw [constructor?, hfound], fun h a slots hcell => ?_⟩
  obtain ⟨result, k, hcall, hstores⟩ := hset.yields_invoke hcell (by decide) hdeclared v
  have hbody : p.Runs (.ref a) d [⟨"valueParam", type, v⟩] h
      [.expr (.call "setValue" [.ident "valueParam"])] (.next [⟨"valueParam", type, v⟩]) k :=
    .cons (.expr (.call (.one (.ident rfl)) hcall)) .nil
  obtain ⟨after, hafter, hget⟩ := hstores.cell hcell
  refine ⟨.null, k, ?_, hstores.keeps, after, hafter, by simpa using hget slot⟩
  exact Yields.enter (r := ⟨d, _, _⟩) rfl hbody

/-! ## The setter -/

/-- A new object of a type, made with a value, is one of the class of this name and has the value in
this field. Nothing else is different. -/
def Creates (p : Program) (carrier type : TypeExpr) (carrierName : String) (valueSlot : Slot) :
    Prop :=
  ∀ v h, ∃ slots k,
    p.Yields (fun calls => p.construct calls carrier [⟨v, some type⟩] h)
      (⟨.ref h.length, some carrier⟩, k) ∧
    h.Extends k ∧ k[h.length]? = some (.object carrierName slots) ∧ slots.get valueSlot = v

private theorem setter_ne_getClass (property : String) : "set" ++ property ≠ "getClass" := by
  intro heq
  simpa using congrArg (·.toList.head?) heq

/-- Where there is no carrier, the setter for the value creates one and hands it to the setter for
carriers. -/
theorem yields_valueSetter_of_null
    (hgives : p.Gives d className (valueSetter settings ("set" ++ property) property carrier type))
    (hget : p.Reads className ("get" ++ property) slot)
    (hset : p.Writes className ("set" ++ property) carrier slot)
    (hdeclared : [carrier] ∈ p.signaturesOf d.asType ("set" ++ property))
    (hcreates : Creates p carrier type carrierName valueSlot)
    (hcell : h[a]? = some (.object className slots)) (hnull : slots.get slot = .null) (v : Value) :
    ∃ k, p.Yields (fun calls =>
        p.invoke calls ⟨.ref a, some d.asType⟩ ("set" ++ property) [⟨v, some type⟩] h)
        (⟨.ref h.length, some carrier⟩, k) ∧
      h.Stores k a slot (.ref h.length) ∧
      ∃ after, k[h.length]? = some (.object carrierName after) ∧ after.get valueSlot = v := by
  have ha : a < h.length := (List.getElem?_eq_some_iff.mp hcell).1
  obtain ⟨_, hread⟩ := hget h (.ref a) (some d.asType) slots (Heap.object?_ref.mpr hcell)
  obtain ⟨made, h', hnew, hextends, hmade, hvalue⟩ := hcreates v h
  obtain ⟨result, k, hcall, hstores⟩ := hset.yields_invoke (hextends.get_of_some trivial hcell)
    (setter_ne_getClass property) hdeclared (.ref h.length)
  obtain ⟨after, hafter, hsame⟩ := hstores.cell hmade
  refine ⟨k, ?_, hstores.of_extends hextends ha, after, hafter, ?_⟩
  · let given : Local := ⟨"valueParam", type, v⟩
    have hnone : p.Execs (.ref a) d [given] h
        (.declVar carrier "aObj" (.call ("get" ++ property) []))
        (.next [⟨"aObj", carrier, .null⟩, given]) h := by
      rw [← hnull]
      exact .declVar (.call .nil hread)
    have hcreate : p.Runs (.ref a) d [⟨"aObj", carrier, .null⟩, given] h
        [.assign (.ident "aObj") (.newObject carrier [.ident "valueParam"]),
          .expr (.call ("set" ++ property) [.ident "aObj"])]
        (.next [⟨"aObj", carrier, .ref h.length⟩, given]) k :=
      .cons (.assignLocal (.newObject (.one (.ident rfl)) hnew) rfl)
        (.cons (.expr (.call (.one (.ident rfl)) hcall)) .nil)
    have hgive : p.Evals ⟨.ref a, d, [⟨"aObj", carrier, .ref h.length⟩, given]⟩ k (.ident "aObj")
        ⟨.ref h.length, some carrier⟩ k := .ident rfl
    exact yields_invoke hcell (setter_ne_getClass property) hgives.declared rfl hgives.found rfl rfl
      (.cons hnone (.cons (.ifElse_next (.isNull (.ident rfl)) hcreate rfl)
        (.cons_done (.give hgive))))
  · rw [hsame, if_neg fun hboth => Nat.ne_of_gt ha hboth.1]
    exact hvalue

/-- Where there is a carrier, the setter for the value sets it in the carrier. -/
theorem yields_valueSetter_of_ref
    (hgives : p.Gives d className (valueSetter settings ("set" ++ property) property carrier type))
    (hget : p.Reads className ("get" ++ property) slot)
    (hset : p.Writes carrierName "setValue" type valueSlot)
    (hdeclared : [type] ∈ p.signaturesOf carrier "setValue")
    (hcell : h[a]? = some (.object className slots)) (hstored : slots.get slot = .ref b)
    (hcarrier : h[b]? = some (.object carrierName valueSlots)) (v : Value) :
    ∃ k, p.Yields (fun calls =>
        p.invoke calls ⟨.ref a, some d.asType⟩ ("set" ++ property) [⟨v, some type⟩] h)
        (⟨.ref b, some carrier⟩, k) ∧ h.Stores k b valueSlot v := by
  obtain ⟨_, hread⟩ := hget h (.ref a) (some d.asType) slots (Heap.object?_ref.mpr hcell)
  obtain ⟨result, k, hcall, hstores⟩ := hset.yields_invoke hcarrier (by decide) hdeclared v
  let given : Local := ⟨"valueParam", type, v⟩
  have hsome : p.Execs (.ref a) d [given] h
      (.declVar carrier "aObj" (.call ("get" ++ property) []))
      (.next [⟨"aObj", carrier, .ref b⟩, given]) h := by
    rw [← hstored]
    exact .declVar (.call .nil hread)
  have hupdate : p.Runs (.ref a) d [⟨"aObj", carrier, .ref b⟩, given] h
      [.expr ((Expr.ident "aObj").invoke "setValue" [.ident "valueParam"])]
      (.next [⟨"aObj", carrier, .ref b⟩, given]) k :=
    .cons (.expr (.invoke (.ident rfl) (.one (.ident rfl)) hcall)) .nil
  have hgive : p.Evals ⟨.ref a, d, [⟨"aObj", carrier, .ref b⟩, given]⟩ k (.ident "aObj")
      ⟨.ref b, some carrier⟩ k := .ident rfl
  refine ⟨k, ?_, hstores⟩
  exact yields_invoke hcell (setter_ne_getClass property) hgives.declared rfl hgives.found rfl rfl
    (.cons hsome (.cons (.ifElse_next (.isNull (.ident rfl)) hupdate rfl)
      (.cons_done (.give hgive))))

/-! ## The getter -/

/-- The argument of a getter for a value: a fallback, if the value is primitive. -/
def fallbackArgs (type : TypeExpr) (fallback : Value) : List Typed :=
  if type.isPrimitive then [⟨fallback, some type⟩] else []

/-- What the getter for a value gives where there is no carrier. -/
def withoutCarrier (type : TypeExpr) (fallback : Value) : Value :=
  if type.isPrimitive then fallback else .null

/-- The variables of the getter for a value. -/
def fallbackLocals (type : TypeExpr) (fallback : Value) : List Local :=
  if type.isPrimitive then [⟨"nullValue", type, fallback⟩] else []

/-- The body of the getter for a value, whether primitive or not. -/
def valueGetterBody (getter : String) (carrier type : TypeExpr) (read : String) : Block :=
  [.declFinal carrier "aObj" (.call getter []),
    .give (.cond (Expr.ident "aObj").isNull
      (if type.isPrimitive then .ident "nullValue" else .nullLit)
      ((Expr.ident "aObj").invoke read []))]

private theorem valueGetter_body (getter : String) :
    (valueGetter settings name getter carrier type read).body =
      some (valueGetterBody getter carrier type read) := by
  unfold valueGetter valueGetterBody
  cases type.isPrimitive <;> rfl

private theorem valueGetter_returnType (getter : String) :
    (valueGetter settings name getter carrier type read).returnType = type := by
  unfold valueGetter
  cases type.isPrimitive <;> rfl

private theorem bindParams_valueGetter (getter : String) (fallback : Value) :
    bindParams (valueGetter settings name getter carrier type read).params
      (fallbackArgs type fallback) = some (fallbackLocals type fallback) := by
  unfold valueGetter fallbackArgs fallbackLocals
  cases type.isPrimitive <;> rfl

/-- A call of the getter for a value gives what its body does. -/
theorem yields_valueGetter {getter : String} {v fallback : Value} {t : Option TypeExpr}
    (hgives : p.Gives d className (valueGetter settings name getter carrier type read))
    (hname : name ≠ "getClass") (hget : p.Reads className getter slot)
    (hcell : h[a]? = some (.object className slots))
    (hvalue : p.Evals ⟨.ref a, d, ⟨"aObj", carrier, slots.get slot⟩ :: fallbackLocals type fallback⟩
      h (.cond (Expr.ident "aObj").isNull
        (if type.isPrimitive then .ident "nullValue" else .nullLit)
        ((Expr.ident "aObj").invoke read [])) ⟨v, t⟩ h) :
    p.Yields (fun calls =>
      p.invoke calls ⟨.ref a, some d.asType⟩ name (fallbackArgs type fallback) h)
      (⟨v, some type⟩, h) := by
  obtain ⟨_, hread⟩ := hget h (.ref a) (some d.asType) slots (Heap.object?_ref.mpr hcell)
  have hargs : (fallbackArgs type fallback).map (·.type) =
      (valueGetter settings name getter carrier type read).signature.map some := by
    rw [valueGetter_signature]
    unfold fallbackArgs
    cases type.isPrimitive <;> rfl
  have hruns : p.Runs (.ref a) d (fallbackLocals type fallback) h
      (valueGetterBody getter carrier type read) (.done v) h :=
    .cons (.declFinal (.call .nil hread)) (.cons_done (.give hvalue))
  have hcall := yields_invoke hcell (by rwa [valueGetter_name]) hgives.declared hargs hgives.found
    (valueGetter_body getter) (bindParams_valueGetter getter fallback) hruns
  rwa [valueGetter_name, valueGetter_returnType] at hcall

/-- Where there is no carrier, the getter for the value gives the fallback, or null. -/
theorem yields_valueGetter_of_null {getter : String}
    (hgives : p.Gives d className (valueGetter settings name getter carrier type read))
    (hname : name ≠ "getClass") (hget : p.Reads className getter slot)
    (hcell : h[a]? = some (.object className slots)) (hnull : slots.get slot = .null)
    (fallback : Value) :
    p.Yields (fun calls =>
      p.invoke calls ⟨.ref a, some d.asType⟩ name (fallbackArgs type fallback) h)
      (⟨withoutCarrier type fallback, some type⟩, h) := by
  have hdefault : ∃ t, p.Evals
      ⟨.ref a, d, ⟨"aObj", carrier, .null⟩ :: fallbackLocals type fallback⟩ h
      (if type.isPrimitive then .ident "nullValue" else .nullLit)
      ⟨withoutCarrier type fallback, t⟩ h := by
    unfold fallbackLocals withoutCarrier
    cases type.isPrimitive with
    | true => exact ⟨some type, .ident rfl⟩
    | false => exact ⟨none, .null⟩
  obtain ⟨t, hdefault⟩ := hdefault
  refine yields_valueGetter (t := t) hgives hname hget hcell ?_
  rw [hnull]
  exact .cond (.isNull (.ident rfl)) hdefault

/-- Where there is a carrier, the getter for the value reads it in the carrier. -/
theorem yields_valueGetter_of_ref {getter : String}
    (hgives : p.Gives d className (valueGetter settings name getter carrier type read))
    (hname : name ≠ "getClass") (hget : p.Reads className getter slot)
    (hread : p.Reads carrierName read valueSlot)
    (hcell : h[a]? = some (.object className slots)) (hstored : slots.get slot = .ref b)
    (hcarrier : h[b]? = some (.object carrierName valueSlots)) (fallback : Value) :
    p.Yields (fun calls =>
      p.invoke calls ⟨.ref a, some d.asType⟩ name (fallbackArgs type fallback) h)
      (⟨valueSlots.get valueSlot, some type⟩, h) := by
  obtain ⟨t, hvalue⟩ := hread h (.ref b) (some carrier) valueSlots (Heap.object?_ref.mpr hcarrier)
  refine yields_valueGetter (t := t) hgives hname hget hcell ?_
  rw [hstored]
  exact .cond (.isNull (.ident rfl)) (.invoke (.ident rfl) .nil hvalue)

end ValueAccessors

end BeanSynthesis
