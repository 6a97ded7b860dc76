import BeanSynthesis.Proofs.Inheritance
import BeanSynthesis.Synthesis.Classifier

/-!
# Categories of generated classes

The category of a class type is told by its name before the model is asked what the class is. A
generated class has the category of its kind unless it bears one of the names that are told first,
and then its kind makes no difference.
-/

namespace BeanSynthesis

/-- The category of what a class is: an enumeration, or a class with fields. -/
def BeanClass.kindCategory (c : BeanClass) : TypeCategory :=
  if c.isEnum then .enumValue else .nestedGeneratedOrExternal

namespace Classifier

/-- The category that a class type without arguments has by its name alone. -/
def byName? (name : String) : Option TypeCategory :=
  if simpleName name = "List" then some .collectionOfOther
  else if simpleName name = "JAXBElement" then some .wrappedUnionElement
  else if name = "java.lang.Object" ∨ name = "Object" then some .genericObject
  else none

private theorem byName?_eq_none_iff (name : String) :
    byName? name = none ↔ simpleName name ≠ "List" ∧ simpleName name ≠ "JAXBElement" ∧
      name ≠ "java.lang.Object" ∧ name ≠ "Object" := by
  unfold byName?
  split
  case isTrue hlist => simp [hlist]
  case isFalse hlist =>
    split
    case isTrue hwrapped => simp [hwrapped]
    case isFalse hwrapped =>
      split
      case isTrue hobject => simpa using fun _ _ hlang => hobject.resolve_left hlang
      case isFalse hobject => simpa [hlist, hwrapped] using hobject

/-- The categories that names alone give are not those of generated classes. -/
theorem ne_kindCategory_of_byName? {name : String} {category : TypeCategory} (c : BeanClass)
    (h : byName? name = some category) : category ≠ c.kindCategory := by
  unfold byName? at h
  unfold BeanClass.kindCategory
  grind

variable {m : CodeModel} {c : BeanClass}

/-- What decides the category of a generated class: its name, and then its kind. -/
theorem classVerdict_generated (hm : m.WellFormed) (hc : c ∈ m.classes) :
    m.classVerdict c.name [] = .settled ((byName? c.name).getD c.kindCategory) := by
  unfold CodeModel.classVerdict byName?
  by_cases hlist : simpleName c.name = "List"
  · simp [hlist, CodeModel.listCategory]
  · by_cases hwrapped : simpleName c.name = "JAXBElement"
    · simp [hwrapped]
    · by_cases hobject : c.name = "java.lang.Object" ∨ c.name = "Object"
      · simp [hlist, hwrapped, hobject, TypeExpr.isObject]
      · simp only [beq_iff_eq, hlist, hwrapped, hobject, TypeExpr.isObject, Bool.or_eq_true,
          if_false, hm.class?_name hc, Option.getD_none, BeanClass.kindCategory]

/-- A generated class is classified without a question to the classes outside the model, whatever
has been remembered of its name. -/
theorem classify_generated (k : Classifier) (hm : m.WellFormed) (hc : c ∈ m.classes) :
    k.classify m c.asType = ((byName? c.name).getD c.kindCategory, k) := by
  have hverdict := classVerdict_generated hm hc
  simp only [classify, BeanClass.asType, TypeExpr.ofName, CodeModel.categoryWith,
    CodeModel.externalAsked?, hverdict]

/-- A generated class is classified by what it is, and with no question to the classes outside the
model, if and only if its simple name is neither that of lists nor that of wrapped elements, and
its name is not that of the class of all objects, with its package or without. -/
theorem classify_eq_kind_iff (k : Classifier) (hm : m.validate = .ok ()) (hc : c ∈ m.classes) :
    k.classify m c.asType = (if c.isEnum then .enumValue else .nestedGeneratedOrExternal, k) ↔
      simpleName c.name ≠ "List" ∧ simpleName c.name ≠ "JAXBElement" ∧
        c.name ≠ "java.lang.Object" ∧ c.name ≠ "Object" := by
  rw [classify_generated k (CodeModel.wellFormed_of_validate hm) hc, ← byName?_eq_none_iff]
  cases hname : byName? c.name with
  | none => simp [BeanClass.kindCategory]
  | some category => simpa [BeanClass.kindCategory] using ne_kindCategory_of_byName? c hname

/-- A model with a class that is called a list. -/
def shoppingList : CodeModel := { classes := [{ name := "shop.List" }] }

/-- The class is taken for a list of the platform, and not for a generated class. -/
theorem shoppingList_not_by_kind :
    shoppingList.validate = .ok () ∧
      (default : Classifier).classify shoppingList (.ofName "shop.List") ≠
        (.nestedGeneratedOrExternal, default) := by
  refine ⟨rfl, fun h => ?_⟩
  have hlist := (classify_eq_kind_iff (c := { name := "shop.List" }) default
    (show shoppingList.validate = .ok () from rfl) List.mem_cons_self).mp h
  exact absurd (by decide +kernel) hlist.1

end Classifier

end BeanSynthesis
