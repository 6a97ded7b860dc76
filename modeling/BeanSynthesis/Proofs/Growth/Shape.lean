import BeanSynthesis.Proofs.Growth.Basic
import BeanSynthesis.Synthesis.Fields
import BeanSynthesis.Synthesis.Lineage

/-!
# What growth leaves as it was

Passes read the kinds of classes, their superclasses, their fields and properties, and the table of
external classes. None of that changes when a model grows, so what a pass would add to a grown model
is what it would have added before.
-/

namespace BeanSynthesis

variable {settings : Settings} {options : List String} {m n : CodeModel} {c d : BeanClass}

/-- An enumeration stays one, and no other class becomes one. -/
theorem BeanClass.Grows.isEnum_eq (h : c.Grows settings options d) : d.isEnum = c.isEnum := by
  unfold isEnum
  rw [h.kind]

/-- A class keeps its type. -/
theorem BeanClass.Grows.asType_eq (h : c.Grows settings options d) : d.asType = c.asType := by
  unfold asType
  rw [h.name]

/-- The names of the instance fields stay the same, in their order. -/
theorem BeanClass.Grows.instanceNames_eq (h : c.Grows settings options d) :
    (d.fields.filter (!·.isStatic)).map (·.name) =
      (c.fields.filter (!·.isStatic)).map (·.name) := by
  have hfields := h.fields
  generalize c.fields = before, d.fields = after at hfields
  induction hfields with
  | nil => rfl
  | cons hf _ ih =>
    rw [List.filter_cons, List.filter_cons, hf.isStatic]
    split
    · rw [List.map_cons, List.map_cons, hf.name, ih]
    · exact ih

/-- The instance fields of a class are read off fields that keep their declaration. -/
theorem BeanClass.Grows.instanceFieldsAmong_eq (h : c.Grows settings options d)
    {fields grown : List Field} (hfields : List.Forall₂ Field.Grows fields grown) :
    (d.instanceFieldsAmong grown).outcome = (c.instanceFieldsAmong fields).outcome := by
  have haccessor : ∀ name, d.accessorName? name = c.accessorName? name := by
    intro name
    unfold accessorName? property?
    rw [h.properties]
  induction hfields with
  | nil => rfl
  | cons hf _ ih =>
    unfold instanceFieldsAmong
    rw [hf.isStatic, hf.name, hf.type, haccessor, h.properties, h.name]
    split
    · simp only [Step.outcome_bind, ih]
    · split
      · rfl
      · simp only [Step.outcome_bind, ih]

/-- A class keeps the fields of its objects. -/
theorem BeanClass.Grows.instanceFields_eq (h : c.Grows settings options d) :
    d.instanceFields.outcome = c.instanceFields.outcome :=
  h.instanceFieldsAmong_eq h.fields

/-- A class without a superclass still has none, in whatever model. -/
theorem BeanClass.Grows.parentOf_eq_root (hcd : c.Grows settings options d) (n : CodeModel)
    (hc : m.parentOf c = .root) : n.parentOf d = .root := by
  unfold CodeModel.parentOf at hc ⊢
  rw [hcd.parent]
  split at hc
  · rfl
  · split at hc
    case isTrue hobject => simp [hobject]
    case isFalse _ =>
      split at hc
      · cases hc
      · cases hc

namespace CodeModel.Grows

/-- A class is found under its name as before. -/
theorem class?_rel (h : m.Grows settings options n) (name : String) :
    Option.Rel (BeanClass.Grows settings options) (m.class? name) (n.class? name) := by
  have hclasses := h.classes
  unfold class?
  generalize m.classes = before, n.classes = after at hclasses
  induction hclasses with
  | nil => exact .none
  | @cons c d _ _ hcd _ ih =>
    rw [List.find?_cons, List.find?_cons, hcd.name]
    split
    · exact .some hcd
    · exact ih

/-- A class that is found under a name is found under it after growth, grown. -/
theorem class?_eq_some (h : m.Grows settings options n) {name : String}
    (hc : m.class? name = some c) :
    ∃ d, n.class? name = some d ∧ c.Grows settings options d := by
  have hrel := h.class?_rel name
  rw [hc] at hrel
  cases hd : n.class? name with
  | none =>
    rw [hd] at hrel
    cases hrel
  | some d =>
    rw [hd] at hrel
    cases hrel with
    | some hcd => exact ⟨d, rfl, hcd⟩

/-- A name that finds no class finds none after growth. -/
theorem class?_eq_none (h : m.Grows settings options n) {name : String}
    (hc : m.class? name = none) : n.class? name = none := by
  have hrel := h.class?_rel name
  rw [hc] at hrel
  cases hd : n.class? name with
  | none => rfl
  | some d =>
    rw [hd] at hrel
    cases hrel

/-- Growth generates no names. -/
theorem isGenerated_eq (h : m.Grows settings options n) (name : String) :
    n.isGenerated name = m.isGenerated name := by
  unfold isGenerated
  cases hc : m.class? name with
  | none => rw [h.class?_eq_none hc]
  | some c =>
    obtain ⟨d, hd, -⟩ := h.class?_eq_some hc
    rw [hd]
    rfl

private theorem classVerdict_eq (h : m.Grows settings options n) (name : String)
    (args : List TypeExpr) :
    n.classVerdict name args = m.classVerdict name args := by
  unfold classVerdict
  cases hc : m.class? name with
  | none => rw [h.class?_eq_none hc]
  | some c =>
    obtain ⟨d, hd, hcd⟩ := h.class?_eq_some hc
    simp only [hd, hcd.isEnum_eq]

private theorem categoryWith_eq (h : m.Grows settings options n) (isEnum : String → Bool)
    (t : TypeExpr) :
    n.categoryWith isEnum t = m.categoryWith isEnum t := by
  fun_induction CodeModel.categoryWith m isEnum t with
  | _ => simp_all [categoryWith, h.classVerdict_eq]

/-- The category of a type stays the same. -/
theorem category_eq (h : m.Grows settings options n) (t : TypeExpr) :
    n.category t = m.category t := by
  have hexternal : n.isExternalEnum = m.isExternalEnum := by
    funext name
    unfold isExternalEnum
    rw [h.external]
  unfold category
  rw [hexternal, h.categoryWith_eq]

/-- A generated superclass stays one, grown. -/
theorem parentOf_eq_generated (h : m.Grows settings options n) (hcd : c.Grows settings options d)
    {parent : BeanClass} (hc : m.parentOf c = .generated parent) :
    ∃ grown, n.parentOf d = .generated grown ∧ parent.Grows settings options grown := by
  unfold parentOf at hc ⊢
  rw [hcd.parent]
  split at hc
  · cases hc
  case h_2 ref _ =>
    split at hc
    · cases hc
    case isFalse hobject =>
      split at hc
      case h_1 found hfound =>
        obtain rfl := Parent.generated.inj hc
        obtain ⟨grown, hgrown, hgrows⟩ := h.class?_eq_some hfound
        exact ⟨grown, by simp [hobject, hgrown], hgrows⟩
      · cases hc

/-- An external superclass stays the superclass. -/
theorem parentOf_eq_external (h : m.Grows settings options n) (hcd : c.Grows settings options d)
    {parent : ClassRef} (hc : m.parentOf c = .external parent) :
    n.parentOf d = .external parent := by
  unfold parentOf at hc ⊢
  rw [hcd.parent]
  split at hc
  · cases hc
  case h_2 ref _ =>
    split at hc
    · cases hc
    case isFalse hobject =>
      split at hc
      · cases hc
      case h_2 hnone =>
        obtain rfl := Parent.external.inj hc
        simp [hobject, h.class?_eq_none hnone]

/-- Growth does not change what a class inherits from. -/
theorem lineageOf_eq (h : m.Grows settings options n) (hcd : c.Grows settings options d) :
    n.lineageOf d = m.lineageOf c := by
  unfold lineageOf
  cases hc : m.parentOf c with
  | root => rw [hcd.parentOf_eq_root n hc]
  | generated parent =>
    obtain ⟨grown, hgrown, -⟩ := h.parentOf_eq_generated hcd hc
    rw [hgrown]
  | external parent => rw [h.parentOf_eq_external hcd hc]

end CodeModel.Grows

end BeanSynthesis
