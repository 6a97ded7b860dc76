import BeanSynthesis.Proofs.Growth.Shape
import BeanSynthesis.Synthesis.Pass.Copying

/-!
# Ways of copying

How a value is copied hangs on its type and on the place where it stands. Lists and maps have ways
of their own only where a field holds them.
-/

namespace BeanSynthesis

/-- Where a value stands that is copied. -/
inductive Place where
  /-- It is the object that is cloned. -/
  | whole
  /-- In a field of an object. -/
  | field
  /-- In a list that a field holds. -/
  | item
deriving DecidableEq, Repr

/-- How a value is copied. -/
inductive Way where
  /-- Not at all: its copy is the value itself. -/
  | shared
  /-- By the helper for arrays. -/
  | array
  /-- By the helper for wrapped elements. -/
  | wrapped
  /-- By its class, which is outside the model. -/
  | external
  /-- As a list, item by item. -/
  | items
  /-- As a map with the same entries. -/
  | map
  /-- By its own method `clone`. -/
  | cloned
deriving DecidableEq, Repr

/-- How values of a category are copied by themselves. -/
def TypeCategory.way : TypeCategory → Way
  | primitive => .shared
  | immutableValue => .shared
  | enumValue => .shared
  | genericObject => .shared
  | arrayOfImmutable => .array
  | externallyCloneable => .external
  | wrappedUnionElement => .wrapped
  | _ => .cloned

/-- What is copied by reference may be shared. -/
theorem TypeCategory.way_eq_shared {category : TypeCategory} :
    category.way = .shared ↔ category.isShareable = true := by
  cases category <;> simp [way, isShareable]

/-- No category has the ways that lists and maps have in fields. -/
theorem TypeCategory.way_ne (category : TypeCategory) :
    category.way ≠ .items ∧ category.way ≠ .map := by
  cases category <;> exact ⟨nofun, nofun⟩

/-- The copy of a value is what the way of its category says. -/
theorem Copying.copyOf_eq (runtime : RuntimeClasses) (m : CodeModel) (t : TypeExpr) (value : Expr) :
    copyOf runtime m t value =
      match (m.category t).way with
      | .shared => value
      | .array => .static runtime.arrayHelper "getCopy" [value]
      | .wrapped => .static runtime.jaxbHelper "getClonedJAXBElement" [value]
      | .external => value.nullOr (.cast t (value.invoke "clone" []))
      | _ => value.nullOr (value.invoke "clone" []) := by
  unfold copyOf
  cases m.category t <;> rfl

namespace CodeModel

/-- How a value of a type is copied at a place. -/
def way (m : CodeModel) : Place → TypeExpr → Way
  | .whole, _ => .cloned
  | .field, t =>
    if t.isErasure "List" then .items
    else if t.isErasure "Map" then .map
    else (m.category t).way
  | .item, t => (m.category t).way

/-- Growth does not change how a value is copied. -/
theorem Grows.way_eq {settings : Settings} {options : List String} {m n : CodeModel}
    (h : m.Grows settings options n) (place : Place) (t : TypeExpr) :
    n.way place t = m.way place t := by
  cases place with
  | whole => rfl
  | field => simp only [way, h.category_eq]
  | item => simp only [way, h.category_eq]

variable {m : CodeModel} {place : Place} {t : TypeExpr} {way : Way}

/-- The items of a value are copied only where a list is a field. -/
theorem way_eq_items_iff : m.way place t = .items ↔ place = .field ∧ t.isErasure "List" := by
  cases place with
  | whole => simp [CodeModel.way]
  | item => simp [CodeModel.way, (m.category t).way_ne.1]
  | field =>
    by_cases hlist : t.isErasure "List"
    · simp [CodeModel.way, hlist]
    · by_cases hmap : t.isErasure "Map"
      · simp [CodeModel.way, hlist, hmap]
      · simp [CodeModel.way, hlist, hmap, (m.category t).way_ne.1]

/-- A map is copied only where it is a field. -/
theorem way_eq_map_iff :
    m.way place t = .map ↔ place = .field ∧ ¬t.isErasure "List" ∧ t.isErasure "Map" := by
  cases place with
  | whole => simp [CodeModel.way]
  | item => simp [CodeModel.way, (m.category t).way_ne.2]
  | field =>
    by_cases hlist : t.isErasure "List"
    · simp [CodeModel.way, hlist]
    · by_cases hmap : t.isErasure "Map"
      · simp [CodeModel.way, hlist, hmap]
      · simp [CodeModel.way, hlist, hmap, (m.category t).way_ne.2]

/-- Apart from lists and maps in fields, the category of a type says how its values are copied. -/
theorem way_eq_category (hplace : place ≠ .whole) (hitems : m.way place t ≠ .items)
    (hmap : m.way place t ≠ .map) : m.way place t = (m.category t).way := by
  cases place with
  | whole => exact absurd rfl hplace
  | item => rfl
  | field =>
    have hlist : ¬t.isErasure "List" := fun h => hitems (way_eq_items_iff.mpr ⟨rfl, h⟩)
    have hmap : ¬t.isErasure "Map" := fun h => hmap (way_eq_map_iff.mpr ⟨rfl, hlist, h⟩)
    simp [CodeModel.way, hlist, hmap]

/-- A way that is not that of all objects is that of a category. -/
theorem category_of_way (h : m.way place t = way) (hcloned : way ≠ .cloned)
    (hitems : way ≠ .items) (hmap : way ≠ .map) :
    place ≠ .whole ∧ (m.category t).way = way := by
  have hplace : place ≠ .whole := by
    rintro rfl
    exact hcloned h.symm
  exact ⟨hplace, (way_eq_category hplace (h ▸ hitems) (h ▸ hmap)).symm.trans h⟩

/-! ## Categories and erasures -/

/-- A list of whatever elements is a collection. -/
theorem isCollection_listCategory (args : List TypeExpr) : (listCategory args).isCollection := by
  unfold listCategory
  split
  · split
    · rfl
    · split <;> rfl
  · rfl

/-- The category of a class is settled by its name, unless the class is to be asked for. -/
theorem category_named (m : CodeModel) (name : String) (args : List TypeExpr) :
    m.category (.named name args) =
      match m.classVerdict name args with
      | .settled category => category
      | .asksExternal =>
        if m.isExternalEnum name then .enumValue else .nestedGeneratedOrExternal := by
  unfold category categoryWith
  rfl

/-- An array is one of immutable items, or a nested value. -/
theorem category_array (m : CodeModel) (element : TypeExpr) :
    m.category (.array element) =
      if (m.category element).isShareable then .arrayOfImmutable
      else .nestedGeneratedOrExternal := rfl

/-- A bounded wildcard has the category of its bound. -/
theorem category_bounded (m : CodeModel) (bound : TypeExpr) :
    m.category (.bounded bound) =
      if bound.isBounded then .nestedGeneratedOrExternal else m.category bound := rfl

/-- A type erases to a class, which settles its category unless it is a bound of a bound, or it
erases to none. -/
theorem erasure_cases (m : CodeModel) (t : TypeExpr) :
    (∃ name args, (∀ simple, t.isErasure simple = (simpleName name == simple)) ∧
      (m.category t = .nestedGeneratedOrExternal ∨ m.category t = m.category (.named name args))) ∨
    (∀ simple, t.isErasure simple = false) ∧
      ((m.category t).isShareable ∨ m.category t = .arrayOfImmutable ∨
        m.category t = .nestedGeneratedOrExternal) := by
  induction t using TypeExpr.isErasure.induct with
  | case1 name args => exact .inl ⟨name, args, fun _ => rfl, .inr rfl⟩
  | case2 bound ih =>
    have hcategory : m.category (.bounded bound) = .nestedGeneratedOrExternal ∨
        m.category (.bounded bound) = m.category bound := by
      rw [category_bounded]
      split
      · exact .inl rfl
      · exact .inr rfl
    rcases ih with ⟨name, args, herasure, hnamed⟩ | ⟨herasure, hother⟩
    · refine .inl ⟨name, args, herasure, ?_⟩
      rcases hcategory with h | h
      · exact .inl h
      · rwa [h]
    · refine .inr ⟨herasure, ?_⟩
      rcases hcategory with h | h
      · exact .inr (.inr h)
      · rwa [h]
  | case3 t hnamed hbounded =>
    refine .inr ?_
    cases t with
    | named name args => exact absurd rfl (hnamed name args)
    | bounded bound => exact absurd rfl (hbounded bound)
    | array element =>
      refine ⟨fun _ => rfl, .inr ?_⟩
      unfold category categoryWith
      split
      · exact .inl rfl
      · exact .inr rfl
    | void => exact ⟨fun _ => rfl, .inr (.inr rfl)⟩
    | _ => exact ⟨fun _ => rfl, .inl rfl⟩

/-- A collection is a list. -/
theorem isErasure_of_isCollection (h : (m.category t).isCollection) : t.isErasure "List" := by
  rcases m.erasure_cases t with ⟨name, args, herasure, hnamed⟩ | ⟨-, hother⟩
  · rw [category_named] at hnamed
    unfold classVerdict at hnamed
    grind [TypeCategory.isCollection]
  · cases hcategory : m.category t <;>
      simp_all [TypeCategory.isCollection, TypeCategory.isShareable]

/-- A wrapped element is called so. -/
theorem isErasure_of_wrapped (h : m.category t = .wrappedUnionElement) :
    t.isErasure "JAXBElement" := by
  rcases m.erasure_cases t with ⟨name, args, herasure, hnamed⟩ | ⟨-, hother⟩
  · have hlist := isCollection_listCategory args
    rw [category_named] at hnamed
    unfold classVerdict at hnamed
    grind [TypeCategory.isCollection]
  · grind [TypeCategory.isShareable]

/-- A list is a collection, unless its type is a bound of a bound. -/
theorem category_of_isErasure_list (h : t.isErasure "List") :
    m.category t = .nestedGeneratedOrExternal ∨ (m.category t).isCollection := by
  rcases m.erasure_cases t with ⟨name, args, herasure, hnamed⟩ | ⟨herasure, -⟩
  · have hlist := isCollection_listCategory args
    rw [category_named] at hnamed
    unfold classVerdict at hnamed
    grind
  · simp [herasure] at h

/-- The root of all classes is a generic object. -/
theorem category_of_isObject (h : t.isObject) : m.category t = .genericObject := by
  have hobject : simpleName "java.lang.Object" = "Object" := rfl
  have hshort : simpleName "Object" = "Object" := rfl
  cases t with
  | named name args =>
    have hname := h
    unfold TypeExpr.isObject at hname
    rw [category_named]
    unfold classVerdict
    grind
  | unbounded => rfl
  | _ => cases h

/-- How a list is compared hangs on its elements. The bound of a wildcard tells nothing of them, and
so they may be any objects. -/
theorem category_of_list (h : t.isErasure "List") :
    t.elementOrObject.isObject ∨
      m.category t = .collectionOfWrappedUnionElement ∧
        t.elementOrObject.isErasure "JAXBElement" ∨
      m.category t = .collectionOfOther ∧ ¬t.elementOrObject.isErasure "JAXBElement" := by
  cases t with
  | named name args =>
    unfold TypeExpr.isErasure at h
    rw [category_named]
    simp only [classVerdict, h, if_true, listCategory, TypeExpr.elementOrObject,
      TypeExpr.firstTypeArg?]
    cases args with
    | nil => exact .inl rfl
    | cons arg rest =>
      simp only [List.head?_cons, Option.map_some]
      by_cases hwrapped : arg.upperBound.isErasure "JAXBElement"
      · simp [hwrapped]
      · by_cases hobject : arg.upperBound.isObject
        · exact .inl hobject
        · simp [hwrapped, hobject]
  | bounded bound => exact .inl rfl
  | _ => cases h

/-- A map is copied like an object of some class, or shared as an enumeration. -/
theorem category_of_map (h : t.isErasure "Map") :
    m.category t = .enumValue ∨ m.category t = .nestedGeneratedOrExternal := by
  rcases m.erasure_cases t with ⟨name, args, herasure, hnamed⟩ | ⟨herasure, -⟩
  · have hname : simpleName name = "Map" := by simpa [herasure] using h
    have hobject : (TypeExpr.named name args).isObject = false := by
      have hplain : simpleName "java.lang.Object" = "Object" := rfl
      have hshort : simpleName "Object" = "Object" := rfl
      unfold TypeExpr.isObject
      grind
    have himmutable : "Map" ∉ immutableValueNames := by decide
    have hcloneable : ("Map" == externallyCloneableName) = false := by decide
    have hnone : (m.category (.named name args)) = .enumValue ∨
        m.category (.named name args) = .nestedGeneratedOrExternal := by
      rw [category_named, classVerdict, hname, hobject, if_neg himmutable, hcloneable]
      cases m.class? name with
      | none => cases m.isExternalEnum name <;> simp
      | some c => cases c.isEnum <;> simp
    rcases hnamed with hnamed | hnamed
    · exact .inr hnamed
    · rwa [hnamed]
  · simp [herasure] at h

end CodeModel

end BeanSynthesis
