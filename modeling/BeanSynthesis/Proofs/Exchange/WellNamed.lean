import BeanSynthesis.Proofs.Exchange.Portable
import BeanSynthesis.Synthesis.Pipeline

/-!
# Names that the passes write

The types that the passes write are taken from the class or made of names in the settings. Parts of
a well-formed type are well-formed, and so is what settings like the default ones name.
-/

namespace BeanSynthesis

open TypeExpr (IsClassName)

/-! ## Types -/

namespace TypeExpr

private theorem isClassName_iff {name : String} :
    IsClassName name ↔ name ≠ "" ∧ name.toList.all isNameChar ∧
      name ∉ "void" :: Primitive.all.map Primitive.keyword := by
  have hall : name ∉ Primitive.all.map Primitive.keyword ↔ ∀ p : Primitive, name ≠ p.keyword := by
    refine ⟨fun h p hname => h (hname ▸ List.mem_map_of_mem ?_), fun h hmem => ?_⟩
    · cases p <;> decide
    · obtain ⟨p, -, hp⟩ := List.mem_map.mp hmem
      exact h p hp.symm
  rw [List.all_eq_true, List.mem_cons, not_or, hall]
  exact ⟨fun h => ⟨h.ne_empty, h.nameChars, h.ne_void, h.not_keyword⟩,
    fun h => ⟨h.1, h.2.1, h.2.2.1, h.2.2.2⟩⟩

instance (name : String) : Decidable (IsClassName name) := decidable_of_iff' _ isClassName_iff

/-- A name with a dot is neither empty nor a word of the language. -/
theorem IsClassName.of_dot {name : String} {cs : List Char} (hname : name.toList = cs)
    (hdot : '.' ∈ cs) (hchars : cs.all isNameChar) : IsClassName name := by
  subst hname
  have hne {word : String} (hword : '.' ∉ word.toList) : name ≠ word := by
    rintro rfl
    exact hword hdot
  refine ⟨hne (by decide), List.all_eq_true.1 hchars, hne (by decide), fun p => hne ?_⟩
  cases p <;> decide

/-- Types are well-formed together if and only if each of them is. -/
theorem allWellFormed_iff {ts : List TypeExpr} : AllWellFormed ts ↔ ∀ t ∈ ts, t.WellFormed := by
  induction ts with
  | nil => simp [AllWellFormed]
  | cons t ts ih => simp [AllWellFormed, ih]

@[simp] private theorem wellFormed_primitive (kind : Primitive) : (primitive kind).WellFormed :=
  trivial

@[simp] private theorem wellFormed_void : void.WellFormed := trivial

/-- A type by name is well-formed if and only if the name is one of a class. -/
@[simp] theorem wellFormed_ofName {name : String} :
    (ofName name).WellFormed ↔ IsClassName name := by
  simp [ofName, WellFormed, AllWellFormed]

variable {t : TypeExpr}

private theorem WellFormed.upperBound (h : t.WellFormed) : t.upperBound.WellFormed := by
  cases t <;> exact h

/-- The arguments of a well-formed type are well-formed. -/
theorem WellFormed.typeArgs (h : t.WellFormed) : ∀ arg ∈ Copying.typeArgs t, arg.WellFormed := by
  cases t with
  | named name args => exact allWellFormed_iff.1 h.2
  | _ => exact List.forall_mem_nil _

/-- The type of entries of a well-formed type is well-formed. -/
theorem WellFormed.elementOrObject (h : t.WellFormed) : t.elementOrObject.WellFormed := by
  unfold TypeExpr.elementOrObject
  split
  case h_1 arg harg =>
    cases t with
    | named name args => exact (h.typeArgs arg (List.mem_of_mem_head? harg)).upperBound
    | _ => cases harg
  case h_2 => exact wellFormed_ofName.2 (by decide)

end TypeExpr

/-- A class by name is well-formed if and only if the name is one of a class. -/
@[simp] theorem ClassRef.wellFormed_ofName {name : String} :
    (ofName name).WellFormed ↔ IsClassName name := TypeExpr.wellFormed_ofName

/-- An annotation by name can be exchanged if and only if the name is one of a class. -/
@[simp] theorem Annotation.exchangeable_ofName {name : String} :
    (ofName name).Exchangeable ↔ IsClassName name :=
  ⟨fun h => ClassRef.wellFormed_ofName.1 h.type,
    fun h => ⟨ClassRef.wellFormed_ofName.2 h, List.forall_mem_nil _⟩⟩

/-- A single annotation whose class has this name. -/
theorem exchangeable_marks {name : String} (h : IsClassName name) :
    ∀ a ∈ ([.ofName name] : List Annotation), a.Exchangeable :=
  List.forall_mem_singleton.2 <| Annotation.exchangeable_ofName.2 h

/-- The mark of overriding can be exchanged. -/
theorem exchangeable_overrideMark : overrideMark.Exchangeable :=
  Annotation.exchangeable_ofName.2 (by decide)

/-- The marks of nullness can be exchanged. -/
theorem exchangeable_nullnessAnnotations (type : TypeExpr) {className : String}
    (h : IsClassName className) : ∀ a ∈ nullnessAnnotations type className, a.Exchangeable := by
  unfold nullnessAnnotations
  split
  · exact List.forall_mem_nil _
  · exact exchangeable_marks h

/-! ## Settings -/

/-- The names of all helper classes. -/
def RuntimeClasses.names (r : RuntimeClasses) : List String :=
  [r.equalsHelper, r.collectionEqualsHelper, r.hashCodeGenerator, r.hashCodeCalculator,
    r.toStringGenerator, r.jaxbHelper, r.arrayHelper, r.genericReflection, r.cloneableInterface,
    r.domNode, r.nullable, r.nonNull, r.nonnegative, r.returnsMutableCopy,
    r.codingStyleguideUnaware, r.nullMarked]

/-- The constraints that are derived from a schema. -/
def Constraints.simpleNames : List String :=
  ["NotNull", "Size", "Pattern", "DecimalMax", "DecimalMin", "Digits"]

/-- All classes that the settings name are called as classes may be. -/
structure Settings.WellNamed (s : Settings) : Prop where
  runtime : ∀ name ∈ s.runtime.names, IsClassName name
  constraints : ∀ name ∈ Constraints.simpleNames, IsClassName (s.validation.constraint name)
  valid : IsClassName s.validation.valid
  interfaces : ∀ name ∈ Interfaces.interfaceNames s.implements, IsClassName name

/-- An annotation with a class of the runtime can be exchanged. -/
theorem Settings.WellNamed.marks {settings : Settings} (h : settings.WellNamed) {name : String}
    (hname : name ∈ settings.runtime.names) :
    ∀ a ∈ ([.ofName name] : List Annotation), a.Exchangeable :=
  exchangeable_marks (h.runtime name hname)

-- A literal is by definition `String.ofList` of its characters. They are read off it here, since
-- evaluation would go through the bytes of its encoding.

/-- The classes of the default settings have proper names. -/
theorem Settings.wellNamed_default : Settings.WellNamed {} where
  runtime := by
    simp only [RuntimeClasses.names, List.forall_mem_cons, List.not_mem_nil, false_imp_iff,
      implies_true, and_true]
    and_intros
    all_goals exact .of_dot String.toList_ofList (by decide) rfl
  constraints := by
    have hconstraint {simple : List Char} (hsimple : simple.all TypeExpr.isNameChar) :
        IsClassName (ValidationSettings.constraint {} (.ofList simple)) := by
      refine .of_dot (String.toList_append ..) (List.mem_append_left _ (by simp)) ?_
      rw [List.all_append, String.toList_ofList, hsimple, Bool.and_true]
      decide +kernel
    simp only [Constraints.simpleNames, List.forall_mem_cons, List.not_mem_nil, false_imp_iff,
      implies_true, and_true]
    and_intros
    all_goals exact hconstraint rfl
  valid := by decide +kernel
  interfaces := List.forall_mem_nil _

/-! ## Members -/

/-- A stamp does not keep a method from being exchanged. -/
@[simp] theorem Method.portable_stamp {m : Method} {settings : Settings} {option : String} :
    (m.stamp settings option).Portable ↔ m.Portable :=
  ⟨fun h => { h with }, fun h => { h with }⟩

/-- A stamp does not keep a constructor from being exchanged. -/
@[simp] theorem Constructor.portable_stamp {c : Constructor} {settings : Settings}
    {option : String} : (c.stamp settings option).Portable ↔ c.Portable :=
  ⟨fun h => { h with }, fun h => { h with }⟩

end BeanSynthesis
