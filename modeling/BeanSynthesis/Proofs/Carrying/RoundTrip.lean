import BeanSynthesis.Proofs.Carrying.Bodies
import BeanSynthesis.Proofs.Carrying.Members
import BeanSynthesis.Proofs.Carrying.Nearest

/-!
# Values in carriers

A value that is given to a carrier, or through the setter for it to the carrier in a property, is
the one that is read there. Of the accessors that the pass has not made it is relied on that they
read and set fields, and of constructors that they get through.
-/

namespace BeanSynthesis.ValueAccessors

variable {context : PassContext} {options : List String} {m : CodeModel} {p : Program}
  {c d k : BeanClass} {n x y : Method} {t type : TypeExpr} {property className : String}

/-! ## Finding what the pass has made -/

/-- Of the constructors that the pass offers, no two are alike. -/
theorem eq_of_key_constructor {settings : Settings} {withLocal : Bool} {type? : Option TypeExpr}
    {k l : Constructor}
    (hk : k ∈ defaultConstructor settings :: constructorsFor settings withLocal type?)
    (hl : l ∈ defaultConstructor settings :: constructorsFor settings withLocal type?)
    (hkey : k.key = l.key) : k = l := by
  have hforms : ∀ x ∈ constructorsFor settings withLocal type?,
      ∃ form, x = valueConstructor settings form := by
    intro x hx
    unfold constructorsFor at hx
    split at hx
    · cases hx
    · obtain ⟨form, -, rfl⟩ := List.mem_map.mp hx
      exact ⟨form, rfl⟩
  rcases List.mem_cons.mp hk with rfl | hk
  · rcases List.mem_cons.mp hl with rfl | hl
    · rfl
    · obtain ⟨form, rfl⟩ := hforms l hl
      cases hkey
  · obtain ⟨form, rfl⟩ := hforms k hk
    rcases List.mem_cons.mp hl with rfl | hl
    · cases hkey
    · obtain ⟨other, rfl⟩ := hforms l hl
      obtain rfl : form = other := List.singleton_inj.mp hkey
      rfl

/-- A constructor that the pass offers is found, unless the class had one like it. -/
theorem find?_constructor {k : Constructor} (hplain : ¬c.isEnum)
    (hcd : (madeOf context m c).Grows context.settings options d)
    (hk : k ∈ defaultConstructor context.settings ::
      constructorsFor context.settings (takesLocal context) (carriedBy? m c))
    (hnone : ¬c.hasConstructor k.key) : d.constructors.find? (·.hasSignature k.key) = some k := by
  have hfresh : k.key ∉ c.constructors.map Constructor.key :=
    mt BeanClass.hasConstructor_iff.mpr hnone
  have hnew : k ∈ c.newConstructors (defaultConstructor context.settings ::
      constructorsFor context.settings (takesLocal context) (carriedBy? m c)) :=
    (newcomers_perm_cons hk hfresh fun _ hl => eq_of_key_constructor hl hk).mem_iff.mpr
      List.mem_cons_self
  obtain ⟨added, hadded, -⟩ := hcd.constructors
  rw [madeOf, if_neg hplain] at hadded
  rw [hadded, List.find?_append]
  exact (congrArg (Option.or · _) (BeanClass.find?_newConstructors hnew)).trans (Option.some_or)

/-- A method that the pass adds is found. -/
theorem method?_of_mem_added (hplain : ¬c.isEnum)
    (hcd : (madeOf context m c).Grows context.settings options d)
    (hx : x ∈ added context.settings (carriersOf m) (takesLocal context) (carriedBy? m c) c) :
    d.method? x.name x.signature = some x := by
  refine BeanClass.method?_of_grows hcd ?_
  rw [madeOf, if_neg hplain, BeanClass.method?, methods_made]
  exact BeanClass.find?_newMethods hx

/-- The methods that a class had it still has. -/
theorem mem_methods_of_grown (hplain : ¬c.isEnum)
    (hcd : (madeOf context m c).Grows context.settings options d) (hn : n ∈ c.methods) :
    n ∈ d.methods := by
  obtain ⟨later, hlater, -⟩ := hcd.methods
  rw [madeOf, if_neg hplain, methods_made, List.append_assoc] at hlater
  rw [hlater]
  exact List.mem_append_left _ hn

/-- A program that has grown out of what the pass has made has every class, as the pass made it or
grown. -/
theorem exists_grown (hgrows : (run context m).model.Grows context.settings options p.model)
    (hc : c ∈ m.classes) :
    ∃ d ∈ p.model.classes, (madeOf context m c).Grows context.settings options d := by
  refine hgrows.exists_of_mem_before ?_
  rw [run_model]
  exact List.mem_map_of_mem hc

private theorem wellFormed_of_grown (hm : m.WellFormed)
    (hgrows : (run context m).model.Grows context.settings options p.model) : p.model.WellFormed :=
  hgrows.wellFormed ((Pass.valueAccessors.run_grows context m).wellFormed hm)

private theorem madeOf_name (context : PassContext) (m : CodeModel) (c : BeanClass) :
    (madeOf context m c).name = c.name := by
  unfold madeOf
  split
  · rfl
  · rfl

/-! ## Carriers -/

/-- The objects of the class of this name hold a value of this type in a field: `setValue` sets it,
and the accessor for the value reads it. -/
structure Holds (p : Program) (type : TypeExpr) (className : String) (slot : Slot) : Prop where
  set : p.Writes className "setValue" type slot
  get : p.Reads className (if readsWithIs type then "isValue" else "getValue") slot

/-- A concrete class that carries values of a type, the objects of which hold them in this field.
Where the pass makes no constructor, since there has been one like it or a superclass is an
enumeration, it is relied on that the one which is there gets through. -/
structure ConcreteCarrier (m : CodeModel) (p : Program) (k : BeanClass) (type : TypeExpr)
    (slot : Slot) : Prop where
  mem : k ∈ m.classes
  plain : ¬k.isEnum
  concrete : k.isAbstract = false
  carries : carriedBy? m k = some type
  /-- The class is not one of the platform. -/
  name_ne : k.name ≠ "java.util.HashMap"
  /-- The class has the setter for the value, or inherits it from a superclass, be that a generated
  one or one outside the model. -/
  declared : [type] ∈ p.signaturesOf k.asType "setValue"
  holds : Holds p type k.name slot
  /-- The constructor without parameters of a superclass may do to the object what it likes, where
  the pass does not make it: the class has had one, or is an enumeration. -/
  superclasses : ∀ c ∈ m.classes, ∀ d ∈ (p.model.lineNamed k.name).tail, d.name = c.name →
    c.isEnum ∨ c.hasConstructor [] → p.Starts d k.name [] [] fun _ => True
  /-- A constructor for the value that the class has had sets the field. -/
  given : ∀ d ∈ p.model.classes, d.name = k.name → k.hasConstructor [type] → ∀ v,
    p.Starts d k.name [type] [⟨v, some type⟩] fun slots => slots.get slot = v

/-- The superclasses start the objects of a carrier: where the pass has made the constructor, it
does nothing. -/
theorem ConcreteCarrier.superclasses_start
    (hgrows : (run context m).model.Grows context.settings options p.model) {slot : Slot}
    (hk : ConcreteCarrier m p k type slot) (hd : d ∈ p.model.classes)
    (htail : d ∈ (p.model.lineNamed k.name).tail) :
    p.Starts d k.name [] [] fun _ => True := by
  obtain ⟨made, hmade, hgrown⟩ := hgrows.exists_of_mem hd
  rw [run_model] at hmade
  obtain ⟨c, hc, rfl⟩ := List.mem_map.mp hmade
  have hname : d.name = c.name := hgrown.name.trans (madeOf_name context m c)
  by_cases hgiven : c.isEnum ∨ c.hasConstructor []
  · exact hk.superclasses c hc d htail hname hgiven
  · obtain ⟨hplain, hnone⟩ := not_or.mp hgiven
    refine Program.starts_of_empty ?_
    have hfound : d.constructors.find? (·.hasSignature []) =
        some (defaultConstructor context.settings) :=
      find?_constructor hplain hgrown List.mem_cons_self hnone
    rw [Program.constructor?, hfound]
    rfl

/-- A carrier has a constructor for the value, which sets the field. -/
theorem ConcreteCarrier.starts {slot : Slot} (hk : ConcreteCarrier m p k type slot)
    (hd : d ∈ p.model.classes) (hkd : (madeOf context m k).Grows context.settings options d)
    (v : Value) :
    p.Starts d k.name [type] [⟨v, some type⟩] fun slots => slots.get slot = v := by
  have hname : d.name = k.name := hkd.name.trans (madeOf_name context m k)
  by_cases hold : k.hasConstructor [type]
  · exact hk.given d hd hname hold v
  · have hoffered : valueConstructor context.settings type ∈ defaultConstructor context.settings ::
        constructorsFor context.settings (takesLocal context) (carriedBy? m k) := by
      rw [hk.carries]
      exact .tail _ (List.mem_map_of_mem (mem_withCompanion_iff.mpr (.inl rfl)))
    have hdeclared : [type] ∈ p.signaturesOf d.asType "setValue" := by
      rw [BeanClass.asType, hname]
      exact hk.declared
    exact starts_valueConstructor (find?_constructor hk.plain hkd hoffered hold) hk.holds.set
      hdeclared v

/-- A new carrier holds the value that its constructor is given. -/
theorem ConcreteCarrier.creates (hm : m.WellFormed)
    (hgrows : (run context m).model.Grows context.settings options p.model) {slot : Slot}
    (hk : ConcreteCarrier m p k type slot) (args : List TypeExpr) :
    Creates p (.named k.name args) type k.name slot := by
  obtain ⟨d, hd, hkd⟩ := exists_grown hgrows hk.mem
  have hname : d.name = k.name := hkd.name.trans (madeOf_name context m k)
  have hconcrete : d.isAbstract = false := by
    rw [hkd.isAbstract, madeOf, if_neg hk.plain]
    exact hk.concrete
  have hplain : ¬d.isEnum := by
    rw [hkd.isEnum_eq, madeOf, if_neg hk.plain]
    exact hk.plain
  obtain ⟨above, habove⟩ := p.model.line_eq_cons d
  have hline : p.model.lineNamed d.name = d :: above :=
    ((wellFormed_of_grown hm hgrows).lineNamed_name hd).trans habove
  have hsuper : ∀ e ∈ above, p.Starts e d.name [] [] fun _ => True := by
    intro e he
    have hmem : e ∈ p.model.classes := CodeModel.mem_of_mem_line hd (habove ▸ .tail _ he)
    rw [hname]
    refine hk.superclasses_start hgrows hmem ?_
    rwa [← hname, hline]
  intro v h
  have hstarts := hk.starts hd hkd v
  rw [← hname] at hstarts ⊢
  exact Program.yields_construct hline (hname ▸ hk.name_ne) hconcrete hplain hsuper hstarts args h

/-! ## Properties for carriers -/

/-- A property of a class, with a setter for carriers of values of a type and a getter for them, to
which the pass has added a setter and a getter for the values. -/
structure CarrierProperty (context : PassContext) (m : CodeModel) (c : BeanClass)
    (property : String) (carrier type : TypeExpr) (x y : Method) : Prop where
  mem : c ∈ m.classes
  plain : ¬c.isEnum
  setter : ∃ n ∈ c.methods, n.name = "set" ++ property ∧ n.signature = [carrier] ∧
    x ∈ settersFor context.settings (carriersOf m) (takesLocal context) n ∧ x.signature = [type]
  getter : ∃ n ∈ c.methods, n.name = "get" ++ property ∧ n.signature = [] ∧
    n.returnType = carrier ∧
      .ok y ∈ gettersFor context.settings (carriersOf m) (takesLocal context) c n ∧
        y.name = valueGetterName property type
  /-- The class had no methods like them. -/
  added : ∀ n ∈ [x, y],
    n ∈ added context.settings (carriersOf m) (takesLocal context) (carriedBy? m c) c

/-- The objects of the class of this name have a property of a class: its getter for carriers reads
this field, its setter sets it, and what has been added for the values is not overridden. -/
structure HasProperty (p : Program) (c : BeanClass) (property : String) (carrier : TypeExpr)
    (x y : Method) (className : String) (slot : Slot) : Prop where
  get : p.Reads className ("get" ++ property) slot
  set : p.Writes className ("set" ++ property) carrier slot
  inherited : ∀ n ∈ [x, y], methodIn? (p.model.lineNamed className) n.name n.signature =
    methodIn? (p.model.lineNamed c.name) n.name n.signature

/-- What an object has in a field is null, or an object that holds values of the type. If it is the
object itself, it holds them in another field. -/
def NullOrHolder (p : Program) (type : TypeExpr) (valueSlot : String → Slot) (a : Nat) (slot : Slot)
    (h : Heap) (v : Value) : Prop :=
  v = .null ∨ ∃ b className slots, v = .ref b ∧ h[b]? = some (.object className slots) ∧
    Holds p type className (valueSlot className) ∧ (b = a → valueSlot className ≠ slot)

/-- What is so after the value `v` has been set in the property of an object, which has its carrier
in this field, and the setter has returned `w`. The object is known as one of the static type. -/
structure ValueSet (p : Program) (static : TypeExpr) (property : String) (type : TypeExpr)
    (valueSlot : String → Slot) (slot : Slot) (a : Nat) (v w : Value) (h h' : Heap) : Prop where
  object : ∃ className slots, h'.object? w = some (className, slots)
  stored : h'.valueAt (.ref a) slot = w
  kept : h.valueAt (.ref a) slot ≠ .null → w = h.valueAt (.ref a) slot
  /-- The getter for the value gives the value, whatever the fallback. -/
  given : ∀ fallback, p.Yields (fun calls => p.invoke calls ⟨.ref a, some static⟩
    (valueGetterName property type) (fallbackArgs type fallback) h') (⟨v, some type⟩, h')
  /-- Where there was no carrier, nothing but the field for it is different. -/
  created : h.valueAt (.ref a) slot = .null → h.Stores h' a slot w
  /-- Where there was one, nothing but its value is different. -/
  updated : ∀ b className slots, h.valueAt (.ref a) slot = .ref b →
    h[b]? = some (.object className slots) → h.Stores h' b (valueSlot className) v

/-- The setter that the pass has added is the one for the property, the carrier and the value. -/
theorem CarrierProperty.setter_eq {carrier : TypeExpr}
    (h : CarrierProperty context m c property carrier type x y) :
    x = valueSetter context.settings ("set" ++ property) property carrier type := by
  obtain ⟨n, -, hname, hsignature, hx, htype⟩ := h.setter
  obtain ⟨param, found, -, hparams, hfound, -, form, -, rfl⟩ := exists_of_mem_settersFor hx
  obtain ⟨-, hfound⟩ := Naming.propertyPart?_eq_some_iff.mp hfound
  obtain rfl : found = property := by
    simpa [String.ext_iff] using hfound.symm.trans hname
  obtain rfl : param.type = carrier := by
    simpa [Method.signature, hparams] using hsignature
  obtain rfl : form = type := List.singleton_inj.mp htype
  rw [hname]

/-- The getter that the pass has added is the one for the property, the carrier and the value. -/
theorem CarrierProperty.getter_eq {carrier : TypeExpr}
    (h : CarrierProperty context m c property carrier type x y)
    (hcarried : carried? (carriersOf m) carrier = some type) :
    y = valueGetter context.settings (valueGetterName property type) ("get" ++ property) carrier
      type (if readsWithIs type then "isValue" else "getValue") := by
  obtain ⟨n, -, hname, -, rfl, hy, hyname⟩ := h.getter
  have hoffered : y ∈ offeredGetters context.settings (carriersOf m) (takesLocal context) c n :=
    List.mem_filterMap.mpr ⟨.ok y, hy, rfl⟩
  obtain ⟨found, other, -, hfound, hother, -, hy⟩ := exists_of_mem_offeredGetters hoffered
  obtain ⟨-, hfound⟩ := Naming.propertyPart?_eq_some_iff.mp hfound
  obtain rfl : found = property := by
    simpa [String.ext_iff] using hfound.symm.trans hname
  obtain rfl : other = type := Option.some.inj (hother.symm.trans hcarried)
  rw [← hname]
  rcases mem_gettersOf_iff.mp hy with rfl | ⟨-, companion, -, rfl⟩
  · rfl
  · rw [valueGetter_name] at hyname
    simp [String.ext_iff] at hyname

private theorem valueGetterName_ne_getClass (property : String) (type : TypeExpr) :
    valueGetterName property type ≠ "getClass" := by
  intro heq
  have hlast := congrArg (·.toList.getLast?) heq
  simp [valueGetterName] at hlast

/-- What the pass has added to a class its objects answer with, and those of subclasses that inherit
it. -/
theorem gives_of_mem_added (hp : p.model.WellFormed) (hd : d ∈ p.model.classes)
    (hplain : ¬c.isEnum) (hcd : (madeOf context m c).Grows context.settings options d)
    (hx : x ∈ added context.settings (carriersOf m) (takesLocal context) (carriedBy? m c) c)
    (hinherited : methodIn? (p.model.lineNamed className) x.name x.signature =
      methodIn? (p.model.lineNamed c.name) x.name x.signature) : p.Gives d className x where
  found := by
    have hname : c.name = d.name := (hcd.name.trans (madeOf_name context m c)).symm
    rw [hinherited, hname, hp.lineNamed_name hd]
    exact Program.methodIn?_line p.model (method?_of_mem_added hplain hcd hx)
  declared := Program.mem_signaturesOf_asType hp hd
    (Program.mem_signaturesIn_line p.model (method?_of_mem_added hplain hcd hx))

section

variable {settings : Settings} {carrier : TypeExpr} {carrierName : String} {h : Heap} {a b : Nat}
  {slot : Slot} {slots carrierSlots : Slots} {valueSlot : String → Slot}

private theorem valueSet_of_null
    (hx : p.Gives d className (valueSetter settings ("set" ++ property) property carrier type))
    (hy : p.Gives d className (valueGetter settings (valueGetterName property type)
      ("get" ++ property) carrier type (if readsWithIs type then "isValue" else "getValue")))
    (hget : p.Reads className ("get" ++ property) slot)
    (hset : p.Writes className ("set" ++ property) carrier slot)
    (hdeclared : [carrier] ∈ p.signaturesOf d.asType ("set" ++ property))
    (hcreates : Creates p carrier type carrierName (valueSlot carrierName))
    (hholds : Holds p type carrierName (valueSlot carrierName))
    (hcell : h[a]? = some (.object className slots)) (hnull : slots.get slot = .null) (v : Value) :
    ∃ w h', p.Yields (fun calls =>
        p.invoke calls ⟨.ref a, some d.asType⟩ ("set" ++ property) [⟨v, some type⟩] h)
        (⟨w, some carrier⟩, h') ∧
      ValueSet p d.asType property type valueSlot slot a v w h h' := by
  obtain ⟨h', hyields, hstores, made, hmade, hvalue⟩ :=
    yields_valueSetter_of_null hx hget hset hdeclared hcreates hcell hnull v
  obtain ⟨after, hcell', hafter⟩ := hstores.cell hcell
  have hbefore : h.valueAt (.ref a) slot = .null := by
    rw [Heap.valueAt_of_object (Heap.object?_ref.mpr hcell), hnull]
  have hstored : after.get slot = .ref h.length := by simp [hafter]
  refine ⟨.ref h.length, h', hyields, {
    object := ⟨carrierName, made, Heap.object?_ref.mpr hmade⟩
    stored := hstores.valueAt_self
    kept := fun hne => absurd hbefore hne
    given := fun fallback => ?_
    created := fun _ => hstores
    updated := fun b _ _ hb => by simp [hbefore] at hb }⟩
  rw [← hvalue]
  exact yields_valueGetter_of_ref hy (valueGetterName_ne_getClass property type) hget hholds.get
    hcell' hstored hmade fallback

private theorem valueSet_of_ref
    (hx : p.Gives d className (valueSetter settings ("set" ++ property) property carrier type))
    (hy : p.Gives d className (valueGetter settings (valueGetterName property type)
      ("get" ++ property) carrier type (if readsWithIs type then "isValue" else "getValue")))
    (hget : p.Reads className ("get" ++ property) slot)
    (hdeclared : [type] ∈ p.signaturesOf carrier "setValue")
    (hholds : Holds p type carrierName (valueSlot carrierName))
    (hslots : b = a → valueSlot carrierName ≠ slot)
    (hcell : h[a]? = some (.object className slots)) (hstored : slots.get slot = .ref b)
    (hcarrier : h[b]? = some (.object carrierName carrierSlots)) (v : Value) :
    ∃ w h', p.Yields (fun calls =>
        p.invoke calls ⟨.ref a, some d.asType⟩ ("set" ++ property) [⟨v, some type⟩] h)
        (⟨w, some carrier⟩, h') ∧
      ValueSet p d.asType property type valueSlot slot a v w h h' := by
  obtain ⟨h', hyields, hstores⟩ :=
    yields_valueSetter_of_ref hx hget hholds.set hdeclared hcell hstored hcarrier v
  obtain ⟨after, hcell', hafter⟩ := hstores.cell hcell
  obtain ⟨carrierAfter, hcarrier', hvalue⟩ := hstores.cell hcarrier
  have hbefore : h.valueAt (.ref a) slot = .ref b := by
    rw [Heap.valueAt_of_object (Heap.object?_ref.mpr hcell), hstored]
  -- the object may be its own carrier, but the value is in a field of its own
  have hstored' : after.get slot = .ref b := by
    rw [hafter, if_neg fun hboth => hslots hboth.1.symm hboth.2.symm, hstored]
  refine ⟨.ref b, h', hyields, {
    object := ⟨carrierName, carrierAfter, Heap.object?_ref.mpr hcarrier'⟩
    stored := by rw [Heap.valueAt_of_object (Heap.object?_ref.mpr hcell'), hstored']
    kept := fun _ => hbefore.symm
    given := fun fallback => ?_
    created := fun hnull => by simp [hbefore] at hnull
    updated := fun b' name others hb hfound => ?_ }⟩
  · have hgiven := yields_valueGetter_of_ref hy (valueGetterName_ne_getClass property type) hget
      hholds.get hcell' hstored' hcarrier' fallback
    rwa [hvalue, if_pos ⟨rfl, rfl⟩] at hgiven
  · obtain rfl : b = b' := Value.ref.inj (hbefore.symm.trans hb)
    obtain ⟨rfl, -⟩ : carrierName = name ∧ carrierSlots = others := by
      simpa using hcarrier.symm.trans hfound
    exact hstores

end

/-- Values are read as they were given. A new carrier holds the value that its constructor is given.
In a property for carriers to which the pass has added a setter and a getter for the values, the
setter returns the carrier that the property then has, which is the one that it had if it had any;
the getter gives the value afterwards, and nothing else is different. Where a property has no
carrier, the getter gives the fallback or null. -/
theorem values_round_trip (context : PassContext) (hm : m.WellFormed)
    (hgrows : (run context m).model.Grows context.settings options p.model)
    (valueSlot : String → Slot) (hk : ConcreteCarrier m p k type (valueSlot k.name))
    (args : List TypeExpr) :
    Creates p (.named k.name args) type k.name (valueSlot k.name) ∧
      ∀ c property x y, CarrierProperty context m c property (.named k.name args) type x y →
        ∀ className slot, HasProperty p c property (.named k.name args) x y className slot →
          ∀ h a slots, h[a]? = some (.object className slots) →
            NullOrHolder p type valueSlot a slot h (slots.get slot) →
              (slots.get slot = .null → ∀ fallback, p.Yields (fun calls =>
                p.invoke calls ⟨.ref a, some c.asType⟩ (valueGetterName property type)
                  (fallbackArgs type fallback) h) (⟨withoutCarrier type fallback, some type⟩, h)) ∧
              ∀ v, ∃ w h', p.Yields (fun calls => p.invoke calls ⟨.ref a, some c.asType⟩
                  ("set" ++ property) [⟨v, some type⟩] h) (⟨w, some (.named k.name args)⟩, h') ∧
                ValueSet p c.asType property type valueSlot slot a v w h h' := by
  have hp := wellFormed_of_grown hm hgrows
  have hcreates := hk.creates hm hgrows args
  refine ⟨hcreates, fun c property x y hproperty className slot hhas h a slots hcell hstate => ?_⟩
  obtain ⟨d, hd, hcd⟩ := exists_grown hgrows hproperty.mem
  have hname : d.name = c.name := hcd.name.trans (madeOf_name context m c)
  have htype : d.asType = c.asType := by rw [BeanClass.asType, hname, BeanClass.asType]
  have hcarried : carried? (carriersOf m) (.named k.name args) = some type :=
    (get?_carriedTypes hm.names k.name).mpr ⟨k, hk.mem, hk.plain, rfl, hk.carries⟩
  have hplain := hproperty.plain
  obtain ⟨hxadded, hyadded⟩ := by simpa using hproperty.added
  obtain ⟨hxline, hyline⟩ := by simpa using hhas.inherited
  have hx := gives_of_mem_added hp hd hplain hcd hxadded hxline
  have hy := gives_of_mem_added hp hd hplain hcd hyadded hyline
  rw [hproperty.setter_eq] at hx
  rw [hproperty.getter_eq hcarried] at hy
  have hdeclared : [TypeExpr.named k.name args] ∈ p.signaturesOf d.asType ("set" ++ property) := by
    obtain ⟨n, hn, hnname, hsignature, -⟩ := hproperty.setter
    rw [← hnname, ← hsignature]
    exact Program.mem_signaturesOf_asType hp hd
      (Program.mem_signaturesIn_of_mem p.model (mem_methods_of_grown hplain hcd hn))
  rw [← htype]
  constructor
  · intro hnull fallback
    exact yields_valueGetter_of_null hy (valueGetterName_ne_getClass property type) hhas.get hcell
      hnull fallback
  · intro v
    rcases hstate with hnull | ⟨b, carrierName, carrierSlots, hstored, hcarrier, hholds, hslots⟩
    · exact valueSet_of_null hx hy hhas.get hhas.set hdeclared hcreates hk.holds hcell hnull v
    · exact valueSet_of_ref hx hy hhas.get hk.declared hholds hslots hcell hstored hcarrier v

/-! ## Plain accessors -/

section

variable {f : Field} {name : String}

private theorem madeOf_fields (context : PassContext) (m : CodeModel) (c : BeanClass) :
    (madeOf context m c).fields = c.fields := by
  unfold madeOf
  split
  · rfl
  · rfl

private theorem methods_prefix_madeOf (context : PassContext) (m : CodeModel) (c : BeanClass) :
    c.methods <+: (madeOf context m c).methods := by
  unfold madeOf
  split
  · exact List.prefix_rfl
  · exact ⟨_, methods_made.symm⟩

/-- A method that a class had before the pass is right after it the one of its name and
signature. -/
theorem methodIn?_after_run (hm : m.WellFormed) (hmodel : p.model = (run context m).model)
    (hc : c ∈ m.classes) {signature : List TypeExpr} (hn : c.method? name signature = some n) :
    p.model.WellFormed ∧ madeOf context m c ∈ p.model.classes ∧
      methodIn? (p.model.lineNamed c.name) name signature = some (madeOf context m c, n) := by
  have hp : p.model.WellFormed :=
    hmodel ▸ (Pass.valueAccessors.run_grows context m).wellFormed hm
  have hd : madeOf context m c ∈ p.model.classes := by
    rw [hmodel, run_model]
    exact List.mem_map_of_mem hc
  refine ⟨hp, hd, ?_⟩
  rw [← madeOf_name context m c, hp.lineNamed_name hd]
  exact Program.methodIn?_line p.model
    (BeanClass.method?_of_prefix (methods_prefix_madeOf context m c) hn)

/-- The line of a class without a generated superclass right after the pass. -/
theorem lineNamed_after_run (hm : m.WellFormed) (hmodel : p.model = (run context m).model)
    (hc : c ∈ m.classes) (hparent : ∀ parent, m.parentOf c ≠ .generated parent) :
    p.model.lineNamed c.name = [madeOf context m c] := by
  have hgrows : m.Grows context.settings [option] p.model :=
    hmodel ▸ Pass.valueAccessors.run_grows context m
  have hd : madeOf context m c ∈ p.model.classes := by
    rw [hmodel, run_model]
    exact List.mem_map_of_mem hc
  have hgrown := madeOf_grows context hc
  rw [← madeOf_name context m c, (hgrows.wellFormed hm).lineNamed_name hd]
  refine CodeModel.line_of_not_generated fun parent hgenerated => ?_
  cases hbefore : m.parentOf c with
  | root => simp [hgrown.parentOf_eq_root p.model hbefore] at hgenerated
  | generated before => exact hparent before hbefore
  | external ref => simp [hgrows.parentOf_eq_external hgrown hbefore] at hgenerated

private theorem instanceField?_madeOf (hfield : c.instanceField? f.name = some f) :
    (madeOf context m c).instanceField? f.name = some f := by
  rw [BeanClass.instanceField?, madeOf_fields]
  exact hfield

/-- A plain getter of a class reads its field right after the pass. -/
theorem reads_after_run (hm : m.WellFormed) (hmodel : p.model = (run context m).model)
    (hc : c ∈ m.classes) (hn : c.method? name [] = some (Program.plainGetter name f))
    (hname : name ≠ "getClass") (hfield : c.instanceField? f.name = some f) :
    p.Reads c.name name (c.name, f.name) := by
  obtain ⟨hp, hd, hfound⟩ := methodIn?_after_run hm hmodel hc hn
  have hreads := Program.reads_of_plainGetter hp hd hfound hname (instanceField?_madeOf hfield)
  rwa [madeOf_name] at hreads

/-- A plain setter of a class sets its field right after the pass. -/
theorem writes_after_run (hm : m.WellFormed) (hmodel : p.model = (run context m).model)
    (hc : c ∈ m.classes) (hn : c.method? name [f.type] = some (Program.plainSetter name f))
    (hfield : c.instanceField? f.name = some f) :
    p.Writes c.name name f.type (c.name, f.name) := by
  obtain ⟨hp, hd, hfound⟩ := methodIn?_after_run hm hmodel hc hn
  have hwrites := Program.writes_of_plainSetter hp hd hfound (instanceField?_madeOf hfield)
  rwa [madeOf_name] at hwrites

end

/-! ## A model of accounts -/

/-- The field of an amount. -/
def amountField : Field := { name := "value", type := .primitive .int }

/-- A class that carries a number. -/
def amount : BeanClass where
  name := "shop.Amount"
  fields := [amountField]
  methods := [
    Program.plainGetter "getValue" amountField, Program.plainSetter "setValue" amountField]

/-- A class that inherits a decimal number from a core component type. -/
def price : BeanClass where
  name := "shop.Price"
  parent := some (.ofName "com.helger.xsds.ccts.cct.schemamodule.AmountType")

/-- A class that inherits a number from a class outside the model. -/
def weight : BeanClass where
  name := "shop.Weight"
  parent := some (.ofName "ext.Measure")

/-- The field for the total of an account. -/
def totalField : Field := { name := "total", type := .ofName "shop.Amount" }

/-- The field for the price of an account. -/
def priceField : Field := { name := "price", type := .ofName "shop.Price" }

/-- The field for the weight of an account. -/
def weightField : Field := { name := "weight", type := .ofName "shop.Weight" }

/-- A class with properties for carriers. -/
def account : BeanClass where
  name := "shop.Account"
  fields := [totalField, priceField, weightField]
  methods := [
    Program.plainGetter "getTotal" totalField, Program.plainSetter "setTotal" totalField,
    Program.plainGetter "getPrice" priceField, Program.plainSetter "setPrice" priceField,
    Program.plainGetter "getWeight" weightField, Program.plainSetter "setWeight" weightField]

/-- A model of accounts. -/
def ledger : CodeModel where
  classes := [amount, price, weight, account]
  external := .ofList [
    ("ext.Measure", { name := "ext.Measure", fields := .ofList [("value", .primitive .int)] })]

/-- The pass run alone. -/
def ledgerContext : PassContext := { settings := {}, active := [option] }

/-- Where the superclasses outside keep the value of an object of the class of this name. -/
def outsideSlot (className : String) : Slot :=
  if className == "shop.Price" then
    ("com.helger.xsds.ccts.cct.schemamodule.AmountType", "value")
  else ("ext.Measure", "value")

/-- The superclasses of prices and weights, which set and read a field. -/
def ledgerOutside : Outside where
  static _ _ _ _ := none
  constant _ _ := none
  construct _ _ _ := none
  invoke v name args h :=
    match v, name, args with
    | .ref a, "setValue", [arg] =>
      match h[a]? with
      | some (.object className slots) =>
        some (.null, h.set a (.object className (slots.set (outsideSlot className) arg.value)))
      | _ => none
    | .ref a, "getValue", [] =>
      match h[a]? with
      | some (.object className slots) => some (slots.get (outsideSlot className), h)
      | _ => none
    | _, _, _ => none
  signatures className name :=
    match className, name with
    | "shop.Price", "setValue" => [[.ofName "java.math.BigDecimal"]]
    | "shop.Weight", "setValue" => [[.primitive .int]]
    | "shop.Price", "getValue" => [[]]
    | "shop.Weight", "getValue" => [[]]
    | _, _ => []
  classOf _ := ""
  belongs _ _ := false

/-- The model of accounts after the pass, with the superclasses outside. -/
def ledgerProgram : Program where
  model := (run ledgerContext ledger).model
  outside := ledgerOutside

private theorem ledger_wellFormed : ledger.WellFormed := CodeModel.wellFormed_of_validate rfl

/-! ### Its carriers -/

/-- What a class of the model carries that has only one superclass, which is outside. -/
theorem carriedBy?_ledger {superclass : String} (hc : c ∈ ledger.classes)
    (hnone : c.field? valueField = none) (hparent : ledger.superclassName? c.name = some superclass)
    (hends : ledger.superclassName? superclass = none) (hplain : isPlatformClass c.name = false) :
    carriedBy? ledger c = ledger.declaredValue? superclass := by
  have hchain : ledger.SuperclassChain c [c.name, superclass] :=
    { head := rfl
      linked := List.isChain_pair.mpr hparent
      distinct := List.nodup_singleton _
      ends := by simp [hends] }
  have hplatform : ∀ name ∈ [c.name, superclass], isPlatformClass name →
      ∀ above ∈ ledger.superclassName? name, isPlatformClass above := by
    simp [hplain, hends]
  obtain ⟨found, hfound⟩ := failure?_eq_none.mp (succeeds_ofModel ledger)
  rw [carriedBy?, found_eq_of_ok hfound, Carriers.valueType?_eq_findSome? hc
    (ledger_wellFormed.class?_name hc) hchain hplatform hfound]
  simp [hnone]

private theorem price_carries :
    carriedBy? ledger price = some (.ofName "java.math.BigDecimal") := by
  rw [carriedBy?_ledger (.tail _ List.mem_cons_self) rfl rfl rfl (by decide)]
  decide

private theorem weight_carries : carriedBy? ledger weight = some (.primitive .int) := by
  rw [carriedBy?_ledger (.tail _ (.tail _ List.mem_cons_self)) rfl rfl rfl (by decide)]
  decide

/-- The line of a class of the model is the class alone, since no superclass is generated. -/
theorem lineNamed_ledger (hc : c ∈ ledger.classes) :
    ledgerProgram.model.lineNamed c.name = [madeOf ledgerContext ledger c] := by
  refine lineNamed_after_run ledger_wellFormed rfl hc fun parent hparent => ?_
  have hall : ∀ c ∈ ledger.classes, ledger.endsWithin 0 c := by decide
  have hends := hall c hc
  simp [CodeModel.endsWithin, hparent] at hends

private theorem lineNamed_tail_ledger (hc : c ∈ ledger.classes) :
    (ledgerProgram.model.lineNamed c.name).tail = [] := by
  rw [lineNamed_ledger hc]
  rfl

/-- A class that the pass adds no accessors to has those of the value from outside. -/
theorem holds_of_outside {type : TypeExpr} (hc : c ∈ ledger.classes)
    (hnone : (madeOf ledgerContext ledger c).methods = []) (hread : readsWithIs type = false) :
    Holds ledgerProgram type c.name (outsideSlot c.name) := by
  have hmethods (name : String) (signature : List TypeExpr) :
      methodIn? (ledgerProgram.model.lineNamed c.name) name signature = none := by
    rw [lineNamed_ledger hc]
    simp [methodIn?, BeanClass.method?, hnone]
  constructor
  · intro h a slots arg hcell
    refine ⟨⟨.null, none⟩, _, .of_eq fun calls => ?_, Heap.stores_set hcell _ _⟩
    rw [Program.dispatch, hmethods]
    simp [Program.invokeOutside, hcell, ledgerProgram, ledgerOutside]
  · intro h v declared slots hv
    obtain ⟨a, rfl, hcell⟩ := Heap.object?_eq_some.mp hv
    refine ⟨none, .of_eq fun calls => ?_⟩
    rw [hread, Program.invoke_without_args (t := ⟨.ref a, declared⟩) calls hv (by decide),
      Program.dispatch, hmethods]
    simp [Program.invokeOutside, hcell, ledgerProgram, ledgerOutside]

private theorem amount_concreteCarrier :
    ConcreteCarrier ledger ledgerProgram amount (.primitive .int)
    ("shop.Amount", "value") where
  mem := List.mem_cons_self
  plain := by decide
  concrete := rfl
  carries := rfl
  name_ne := by decide
  declared := by
    have hhere : amount ∈ ledger.classes := List.mem_cons_self
    have hsetter : Program.plainSetter "setValue" amountField ∈
        (madeOf ledgerContext ledger amount).methods :=
      (methods_prefix_madeOf ledgerContext ledger amount).subset (.tail _ List.mem_cons_self)
    refine List.mem_append_left _ ?_
    rw [lineNamed_ledger hhere]
    exact List.mem_flatMap.mpr ⟨_, List.mem_cons_self, List.mem_map.mpr
      ⟨_, List.mem_filter.mpr ⟨hsetter, rfl⟩, rfl⟩⟩
  holds := {
    set := writes_after_run (f := amountField) ledger_wellFormed rfl List.mem_cons_self rfl rfl
    get := reads_after_run (f := amountField) ledger_wellFormed rfl List.mem_cons_self rfl
      (by decide) rfl }
  superclasses _ _ d hd := by simp [lineNamed_tail_ledger List.mem_cons_self] at hd
  given _ _ _ hold := absurd hold (by decide)

private theorem price_concreteCarrier : ConcreteCarrier ledger ledgerProgram price
    (.ofName "java.math.BigDecimal") (outsideSlot "shop.Price") where
  mem := .tail _ List.mem_cons_self
  plain := by decide
  concrete := rfl
  carries := price_carries
  name_ne := by decide
  declared := List.mem_append_right _ List.mem_cons_self
  holds := holds_of_outside (.tail _ List.mem_cons_self) rfl rfl
  superclasses _ _ d hd := by simp [lineNamed_tail_ledger (.tail _ List.mem_cons_self)] at hd
  given _ _ _ hold := absurd hold (by decide)

private theorem weight_concreteCarrier :
    ConcreteCarrier ledger ledgerProgram weight (.primitive .int)
    (outsideSlot "shop.Weight") where
  mem := .tail _ (.tail _ List.mem_cons_self)
  plain := by decide
  concrete := rfl
  carries := weight_carries
  name_ne := by decide
  declared := List.mem_append_right _ List.mem_cons_self
  holds := holds_of_outside (.tail _ (.tail _ List.mem_cons_self)) rfl rfl
  superclasses _ _ d hd := by
    simp [lineNamed_tail_ledger (.tail _ (.tail _ List.mem_cons_self))] at hd
  given _ _ _ hold := absurd hold (by decide)

/-! ### Its properties -/

/-- The carriers of the model. -/
def ledgerCarriers : Dict TypeExpr := .ofList [
  ("shop.Amount", .primitive .int), ("shop.Price", .ofName "java.math.BigDecimal"),
  ("shop.Weight", .primitive .int)]

private theorem carriedTypes_ledger {carried? : BeanClass → Option TypeExpr}
    (hamount : carried? amount = some (.primitive .int))
    (hprice : carried? price = some (.ofName "java.math.BigDecimal"))
    (hweight : carried? weight = some (.primitive .int)) (haccount : carried? account = none) :
    carriedTypes carried? [amount, price, weight, account] = ledgerCarriers := by
  have hplain : amount.isEnum = false ∧ price.isEnum = false ∧ weight.isEnum = false ∧
      account.isEnum = false := ⟨rfl, rfl, rfl, rfl⟩
  simp only [carriedTypes, List.foldl_cons, List.foldl_nil, hplain, Bool.false_eq_true, if_false,
    hamount, hprice, hweight, haccount]
  rfl

private theorem carriersOf_ledger : carriersOf ledger = ledgerCarriers :=
  carriedTypes_ledger rfl price_carries weight_carries rfl

/-- The setter for the values of a property. -/
def accountSetter (property : String) (carrier type : TypeExpr) : Method :=
  valueSetter {} ("set" ++ property) property carrier type

/-- The getter for the values of a property. -/
def accountGetter (property : String) (carrier type : TypeExpr) : Method :=
  valueGetter {} (valueGetterName property type) ("get" ++ property) carrier type "getValue"

private theorem added_account : added {} ledgerCarriers false none account = [
    accountSetter "Total" totalField.type (.primitive .int),
    accountSetter "Price" priceField.type (.ofName "java.math.BigDecimal"),
    accountSetter "Weight" weightField.type (.primitive .int),
    accountGetter "Total" totalField.type (.primitive .int),
    accountGetter "Price" priceField.type (.ofName "java.math.BigDecimal"),
    accountGetter "Weight" weightField.type (.primitive .int)] := rfl

/-- A field of an account with a setter and a getter is a property for carriers. -/
theorem account_property (property : String) (f : Field) {type : TypeExpr}
    (hset : Program.plainSetter ("set" ++ property) f ∈ account.methods)
    (hget : Program.plainGetter ("get" ++ property) f ∈ account.methods)
    (hx : accountSetter property f.type type ∈
      settersFor {} ledgerCarriers false (Program.plainSetter ("set" ++ property) f))
    (hy : .ok (accountGetter property f.type type) ∈
      gettersFor {} ledgerCarriers false account (Program.plainGetter ("get" ++ property) f))
    (hadded : ∀ n ∈ [accountSetter property f.type type, accountGetter property f.type type],
      n ∈ added {} ledgerCarriers false none account) :
    CarrierProperty ledgerContext ledger account property f.type type
      (accountSetter property f.type type) (accountGetter property f.type type) where
  mem := .tail _ (.tail _ (.tail _ List.mem_cons_self))
  plain := by decide
  setter := by
    rw [carriersOf_ledger]
    exact ⟨_, hset, rfl, rfl, hx, rfl⟩
  getter := by
    rw [carriersOf_ledger]
    exact ⟨_, hget, rfl, rfl, rfl, hy, valueGetter_name ..⟩
  added := by
    rw [carriersOf_ledger]
    exact hadded

/-- The objects of the class have the property. -/
theorem account_hasProperty (property : String) (f : Field) (type : TypeExpr)
    (hget : account.method? ("get" ++ property) [] =
      some (Program.plainGetter ("get" ++ property) f))
    (hset : account.method? ("set" ++ property) [f.type] =
      some (Program.plainSetter ("set" ++ property) f))
    (hname : "get" ++ property ≠ "getClass") (hfield : account.instanceField? f.name = some f) :
    HasProperty ledgerProgram account property f.type (accountSetter property f.type type)
      (accountGetter property f.type type) "shop.Account" ("shop.Account", f.name) := by
  have hhere : account ∈ ledger.classes := .tail _ (.tail _ (.tail _ List.mem_cons_self))
  exact {
    get := reads_after_run ledger_wellFormed rfl hhere hget hname hfield
    set := writes_after_run ledger_wellFormed rfl hhere hset hfield
    inherited := fun _ _ => rfl }

/-- Values are kept in this field of carriers. What is read in the property of a new account is
nothing but `without`, and then the value that has been set. -/
def AccountKeeps (k : BeanClass) (slot : Slot) (property : String) (type : TypeExpr)
    (getter : String) (args : List Typed) (without v : Value) : Prop :=
  let call (name : String) (args : List Typed) (h : Heap) (calls : Calls) :
      Option (Typed × Heap) :=
    ledgerProgram.invoke calls ⟨.ref 0, some account.asType⟩ name args h
  let h : Heap := [.object "shop.Account" []]
  Creates ledgerProgram k.asType type k.name slot ∧
    ledgerProgram.Yields (call getter args h) (⟨without, some type⟩, h) ∧
    ∃ w h', ledgerProgram.Yields (call ("set" ++ property) [⟨v, some type⟩] h)
        (⟨w, some k.asType⟩, h') ∧
      ledgerProgram.Yields (call getter args h') (⟨v, some type⟩, h')

/-- An account keeps its total in an amount, its price in what a core component type keeps, and its
weight in what a class outside keeps. -/
theorem account_round_trips :
    AccountKeeps amount ("shop.Amount", "value") "Total" (.primitive .int) "getTotalValue"
      [⟨.int 5, some (.primitive .int)⟩] (.int 5) (.int 7) ∧
    AccountKeeps price (outsideSlot "shop.Price") "Price" (.ofName "java.math.BigDecimal")
      "getPriceValue" [] .null (.token 3) ∧
    AccountKeeps weight (outsideSlot "shop.Weight") "Weight" (.primitive .int) "getWeightValue"
      [⟨.int 0, some (.primitive .int)⟩] (.int 0) (.int 40) := by
  have hgrows : (run ledgerContext ledger).model.Grows ledgerContext.settings [option]
      ledgerProgram.model := .refl _
  have hkeeps {k : BeanClass} {type : TypeExpr} {property : String} {slot : Slot} {x y : Method}
      (valueSlot : String → Slot)
      (hk : ConcreteCarrier ledger ledgerProgram k type (valueSlot k.name))
      (hproperty : CarrierProperty ledgerContext ledger account property k.asType type x y)
      (hhas : HasProperty ledgerProgram account property k.asType x y "shop.Account" slot)
      (fallback v : Value) : AccountKeeps k (valueSlot k.name) property type
        (valueGetterName property type) (fallbackArgs type fallback)
        (withoutCarrier type fallback) v := by
    obtain ⟨hcreates, hall⟩ :=
      values_round_trip ledgerContext ledger_wellFormed hgrows valueSlot hk []
    obtain ⟨hfallback, hset⟩ := hall account property x y hproperty "shop.Account" slot hhas
      [.object "shop.Account" []] 0 [] rfl (.inl rfl)
    obtain ⟨w, h', hyields, hvalue⟩ := hset v
    exact ⟨hcreates, hfallback rfl fallback, w, h', hyields, hvalue.given fallback⟩
  refine ⟨?total, ?price, ?weight⟩
  case total =>
    exact hkeeps (fun name => (name, "value")) amount_concreteCarrier
      (account_property "Total" totalField (by simp [account]) (by simp [account])
        List.mem_cons_self List.mem_cons_self (by simp [added_account]))
      (account_hasProperty "Total" totalField (.primitive .int) rfl rfl (by decide) rfl)
      (.int 5) (.int 7)
  case price =>
    exact hkeeps outsideSlot price_concreteCarrier
      (account_property "Price" priceField (by simp [account]) (by simp [account])
        List.mem_cons_self List.mem_cons_self (by simp [added_account]))
      (account_hasProperty "Price" priceField (.ofName "java.math.BigDecimal") rfl rfl
        (by decide) rfl)
      .null (.token 3)
  case weight =>
    exact hkeeps outsideSlot weight_concreteCarrier
      (account_property "Weight" weightField (by simp [account]) (by simp [account])
        List.mem_cons_self List.mem_cons_self (by simp [added_account]))
      (account_hasProperty "Weight" weightField (.primitive .int) rfl rfl (by decide) rfl)
      (.int 0) (.int 40)

end BeanSynthesis.ValueAccessors
