import BeanSynthesis.Proofs.Execution.Rules
import BeanSynthesis.Proofs.Inheritance

/-!
# Objects of generated classes

How the code of a class reads the fields that the class declares, and how calls reach the methods
of its line.
-/

namespace BeanSynthesis

/-! ## Instance fields -/

namespace BeanClass

variable {c : BeanClass} {fields : List InstanceField}

/-- An instance field goes by the name and the type of the declared one, and its accessors by the
name that the class has for them. -/
def Accesses (c : BeanClass) (f : Field) (g : InstanceField) : Prop :=
  g.name = f.name ∧ g.type = f.type ∧ c.accessorName? g.name = some g.accessor

/-- The instance fields are those that are not static, in their order. -/
theorem accesses_instanceFieldsAmong {declared : List Field}
    (h : (c.instanceFieldsAmong declared).outcome = .ok fields) :
    List.Forall₂ c.Accesses (declared.filter (!·.isStatic)) fields := by
  induction declared generalizing fields with
  | nil =>
    obtain rfl := Except.ok.inj h
    exact .nil
  | cons f rest ih =>
    unfold instanceFieldsAmong at h
    split at h
    case isTrue hstatic =>
      rw [List.filter_cons_of_neg (by simpa using hstatic)]
      refine ih ?_
      simpa [Step.outcome_bind, Bind.bind, Except.bind, Step.log] using h
    case isFalse hstatic =>
      split at h
      · cases h
      case h_2 accessor haccessor =>
        cases hrest : (c.instanceFieldsAmong rest).outcome with
        | error e => simp [hrest, Bind.bind] at h
        | ok others =>
          obtain rfl : _ = fields := by
            simpa [hrest, Bind.bind, Except.bind] using h
          rw [List.filter_cons_of_pos (by simpa using hstatic)]
          exact .cons ⟨rfl, rfl, haccessor⟩ (ih hrest)

/-- The instance fields are those that are not static, with their names and types. -/
theorem instanceFields_map (h : c.instanceFields.outcome = .ok fields) :
    fields.map (fun f => (f.name, f.type)) =
      (c.fields.filter (!·.isStatic)).map fun f => (f.name, f.type) := by
  symm
  rw [← List.forall₂_eq_eq_eq, List.forall₂_map_left_iff, List.forall₂_map_right_iff]
  refine (accesses_instanceFieldsAmong h).imp fun f g hfg => ?_
  rw [hfg.1, hfg.2.1]

/-- What holds of the name and type of every instance field. -/
theorem forall_instanceFields (h : c.instanceFields.outcome = .ok fields)
    {P : String → TypeExpr → Prop} :
    (∀ f ∈ fields, P f.name f.type) ↔ ∀ f ∈ c.fields, f.isStatic = false → P f.name f.type := by
  have hleft : (∀ f ∈ fields, P f.name f.type) ↔
      ∀ x ∈ fields.map (fun f => (f.name, f.type)), P x.1 x.2 := by
    rw [List.forall_mem_map]
  rw [hleft, instanceFields_map h, List.forall_mem_map]
  simp

private theorem exists_instanceField? {name : String}
    (h : ∃ f ∈ c.fields, f.isStatic = false ∧ f.name = name) :
    ∃ f, c.instanceField? name = some f := by
  obtain ⟨f, hf, hstatic, hname⟩ := h
  refine Option.isSome_iff_exists.mp ?_
  unfold instanceField?
  rw [List.find?_isSome]
  exact ⟨f, hf, by simp [hstatic, hname]⟩

/-- A field of the objects of a class is found by its name. -/
theorem instanceField?_of_mem (h : c.instanceFields.outcome = .ok fields) {f : InstanceField}
    (hf : f ∈ fields) : ∃ g, c.instanceField? f.name = some g := by
  have hall : ∀ f ∈ fields, ∃ g, c.instanceField? f.name = some g :=
    (forall_instanceFields (P := fun name _ => ∃ g, c.instanceField? name = some g) h).mpr
      fun g hg hstatic => exists_instanceField? ⟨g, hg, hstatic, rfl⟩
  exact hall f hf

/-- The class declares no instance field of one of these names. -/
def FreeOf (c : BeanClass) (names : List String) : Prop :=
  ∀ f ∈ c.fields, f.isStatic = false → f.name ∉ names

instance (c : BeanClass) (names : List String) : Decidable (c.FreeOf names) :=
  inferInstanceAs (Decidable (∀ f ∈ c.fields, f.isStatic = false → f.name ∉ names))

/-- A class without fields of these names has no such field in its objects. -/
theorem FreeOf.not_mem {names : List String} (hfree : c.FreeOf names)
    (h : c.instanceFields.outcome = .ok fields) {f : InstanceField} (hf : f ∈ fields) :
    f.name ∉ names :=
  (forall_instanceFields (P := fun name _ => name ∉ names) h).mpr hfree f hf

end BeanClass

namespace Program

variable {p : Program} {h : Heap} {c d : BeanClass} {v : Value} {className : String}
  {slots : Slots} {name : String} {f : Field}

/-- The line of a type is that of the class it names. -/
theorem lineOfType_asType (hm : p.model.WellFormed) (hc : c ∈ p.model.classes) :
    p.model.lineOfType c.asType = p.model.line c :=
  hm.lineNamed_name hc

private theorem fieldIn?_line (m : CodeModel) (hfield : c.instanceField? name = some f) :
    fieldIn? (m.line c) name = some ((c.name, name), f.type) := by
  obtain ⟨above, hline⟩ := m.line_eq_cons c
  simp [fieldIn?, hline, hfield]

/-- A field of an object is read by the declaration that the static type of the object leads to. -/
theorem readField_of_asType (hm : p.model.WellFormed) (hc : c ∈ p.model.classes)
    (hfield : c.instanceField? name = some f) (hv : h.object? v = some (className, slots)) :
    p.readField ⟨v, some c.asType⟩ name h = some ⟨slots.get (c.name, name), some f.type⟩ := by
  simp [readField, lineOfType_asType hm hc, fieldIn?_line _ hfield, hv]

/-- A field is written where it is declared. -/
theorem writeField_of_asType (hm : p.model.WellFormed) (hc : c ∈ p.model.classes)
    (hfield : c.instanceField? name = some f) {r : Nat}
    (hcell : h[r]? = some (.object className slots)) (w : Value) :
    p.writeField ⟨.ref r, some c.asType⟩ name w h =
      some (h.set r (.object className (slots.set (c.name, name) w))) := by
  simp [writeField, lineOfType_asType hm hc, fieldIn?_line _ hfield, hcell]

/-- A simple name that is no local variable is a field of the object itself. -/
theorem readName_of_field (hm : p.model.WellFormed) (hc : c ∈ p.model.classes)
    {locals : List Local} (hlocal : Frame.local? ⟨v, c, locals⟩ name = none)
    (hfield : c.instanceField? name = some f) (hv : h.object? v = some (className, slots)) :
    p.readName ⟨v, c, locals⟩ name h = some ⟨slots.get (c.name, name), some f.type⟩ := by
  simp only [readName, hlocal]
  exact readField_of_asType hm hc hfield hv

/-- The value that a simple name has in the code of a class that declares a field of this name. -/
theorem evals_field (hm : p.model.WellFormed) (hc : c ∈ p.model.classes) {locals : List Local}
    (hlocal : Frame.local? ⟨v, c, locals⟩ name = none) (hfield : c.instanceField? name = some f)
    (hv : h.object? v = some (className, slots)) :
    p.Evals ⟨v, c, locals⟩ h (.ident name) ⟨h.valueAt v (c.name, name), c.declaredType name⟩ h := by
  rw [Heap.valueAt_of_object hv]
  refine .ident ?_
  rw [readName_of_field hm hc hlocal hfield hv]
  simp [BeanClass.declaredType, hfield]

/-- The value that a field has in another object, the class of which is known statically. -/
theorem evals_field_of (hm : p.model.WellFormed) (hc : c ∈ p.model.classes) {frame : Frame}
    {e : Expr} (he : p.Evals frame h e ⟨v, some c.asType⟩ h)
    (hfield : c.instanceField? name = some f) (hv : h.object? v = some (className, slots)) :
    p.Evals frame h (e.field name) ⟨h.valueAt v (c.name, name), c.declaredType name⟩ h := by
  rw [Heap.valueAt_of_object hv]
  refine he.field ?_
  rw [readField_of_asType hm hc hfield hv]
  simp [BeanClass.declaredType, hfield]

/-! ## Classes of objects -/

/-- An object belongs to the classes of its line. -/
theorem isInstance_of_mem_line (hm : p.model.WellFormed) (hd : d ∈ p.model.classes)
    (hv : h.object? v = some (d.name, slots)) (hc : c ∈ p.model.line d) :
    p.isInstance h v c.asType := by
  have hany : (p.model.line d).any (fun e => c.asType == e.asType) = true :=
    List.any_eq_true.mpr ⟨c, hc, by simp⟩
  simp [isInstance, className?_of_object hv, hm.lineNamed_name hd, hany]

/-- An object is admitted as each of its superclasses. -/
theorem admits_of_mem_line (hm : p.model.WellFormed) (hd : d ∈ p.model.classes)
    (hv : h.object? v = some (d.name, slots)) (hc : c ∈ p.model.line d) :
    p.admits h v c.asType := by
  simp [admits, BeanClass.asType, TypeExpr.ofName, Bool.or_eq_true]
  exact .inr (isInstance_of_mem_line hm hd hv hc)

/-! ## Methods -/

/-- A class comes first in its own line. -/
theorem methodIn?_line (m : CodeModel) {signature : List TypeExpr} {n : Method}
    (hn : c.method? name signature = some n) :
    methodIn? (m.line c) name signature = some (c, n) := by
  obtain ⟨above, hline⟩ := m.line_eq_cons c
  simp [methodIn?, hline, hn]

/-- The signature of a method is one of those of its name. -/
theorem mem_signaturesIn_of_mem (m : CodeModel) {n : Method} (hn : n ∈ c.methods) :
    n.signature ∈ signaturesIn (m.line c) n.name :=
  List.mem_flatMap.mpr ⟨c, m.mem_line_self c, List.mem_map.mpr ⟨n, by simp [hn], rfl⟩⟩

/-- The signature of a method that is found is one of those of its name. -/
theorem mem_signaturesIn_line (m : CodeModel) {signature : List TypeExpr} {n : Method}
    (hn : c.method? name signature = some n) : signature ∈ signaturesIn (m.line c) name := by
  have hanswers : n.name = name ∧ n.signature = signature := by
    have h := List.find?_some hn
    simpa [Method.answers, Method.hasSignature, haveTypes, Method.signature] using h
  obtain ⟨rfl, rfl⟩ := hanswers
  exact mem_signaturesIn_of_mem m (List.mem_of_find?_eq_some hn)

/-- Code that knows an object as one of a generated class can mean what its line declares. -/
theorem mem_signaturesOf_asType (hm : p.model.WellFormed) (hc : c ∈ p.model.classes)
    {signature : List TypeExpr} (h : signature ∈ signaturesIn (p.model.line c) name) :
    signature ∈ p.signaturesOf c.asType name := by
  rw [← lineOfType_asType hm hc] at h
  exact List.mem_append_left _ h

/-- Arguments that have exactly the types of the parameters settle which signature is meant. -/
theorem mostSpecific?_of_mem (m : CodeModel) {signatures : List (List TypeExpr)}
    {signature : List TypeExpr} (h : signature ∈ signatures) :
    m.mostSpecific? signatures (signature.map some) = some signature := by
  have hsome : (signatures.find? fun s => s.map some == signature.map some).isSome :=
    List.find?_isSome.mpr ⟨signature, h, by simp⟩
  obtain ⟨found, hfound⟩ := Option.isSome_iff_exists.mp hsome
  have hmap : found.map some = signature.map some := by simpa using List.find?_some hfound
  have heq : found = signature :=
    List.map_injective_iff.mpr (Option.some_injective TypeExpr) hmap
  unfold CodeModel.mostSpecific?
  rw [hfound, heq]

/-- Arguments that have exactly the types of the parameters mean the method with these. -/
theorem signatureFor?_of_mem {signatures : List (List TypeExpr)} {signature : List TypeExpr}
    {args : List Typed} (h : signature ∈ signatures)
    (hargs : args.map (·.type) = signature.map some) :
    p.signatureFor? signatures args = some signature := by
  unfold signatureFor?
  split
  case isTrue hnone =>
    rw [List.isEmpty_iff.mp hnone, List.map_nil] at hargs
    rw [List.map_eq_nil_iff.mp hargs.symm]
  case isFalse =>
    rw [hargs]
    exact mostSpecific?_of_mem p.model h

end Program

end BeanSynthesis
