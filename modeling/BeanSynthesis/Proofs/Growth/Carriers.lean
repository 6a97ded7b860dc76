import BeanSynthesis.Proofs.Growth.Shape
import BeanSynthesis.Synthesis.Pass.ValueAccessors

/-!
# Carriers of grown models

What a class carries hangs on fields and superclasses, which stay as they are when a model grows. So
the scan of the superclasses finds in a grown model what it found before.
-/

namespace BeanSynthesis

variable {settings : Settings} {options : List String} {m n : CodeModel} {c d : BeanClass}

/-- The first field of a name has grown from the first one of that name. -/
theorem Field.Grows.find?_rel {before after : List Field}
    (h : List.Forall₂ Field.Grows before after) (name : String) :
    Option.Rel Field.Grows (before.find? (·.name == name)) (after.find? (·.name == name)) := by
  induction h with
  | nil => exact .none
  | @cons f g _ _ hf _ ih =>
    rw [List.find?_cons, List.find?_cons, hf.name]
    split
    · exact .some hf
    · exact ih

/-- The field of a name keeps its type. -/
theorem BeanClass.Grows.fieldType?_eq (h : c.Grows settings options d) (name : String) :
    (d.field? name).map (·.type) = (c.field? name).map (·.type) := by
  have hrel := Field.Grows.find?_rel h.fields name
  unfold BeanClass.field?
  generalize c.fields.find? _ = before, d.fields.find? _ = after at hrel
  cases hrel with
  | none => rfl
  | some hf => simp [hf.type]

namespace CodeModel.Grows

private theorem superclassName?_eq (h : m.Grows settings options n) (name : String) :
    n.superclassName? name = m.superclassName? name := by
  unfold superclassName?
  cases hc : m.class? name with
  | none => simp only [h.class?_eq_none hc, h.external]
  | some c =>
    obtain ⟨d, hd, hcd⟩ := h.class?_eq_some hc
    simp only [hd, hcd.parent]

private theorem chainFrom_eq (h : m.Grows settings options n) (steps : Nat) (visited : List String)
    (next : Option String) : n.chainFrom steps visited next = m.chainFrom steps visited next := by
  induction steps generalizing visited next with
  | zero => rfl
  | succ steps ih =>
    cases next with
    | none => rfl
    | some name => simp only [chainFrom, h.superclassName?_eq, ih]

/-- Growth changes no superclasses. -/
theorem ancestorNames_eq (h : m.Grows settings options n) (hcd : c.Grows settings options d) :
    n.ancestorNames d = m.ancestorNames c := by
  unfold ancestorNames chainBound
  rw [hcd.parent, h.classes.length_eq, h.external, h.chainFrom_eq]

end CodeModel.Grows

/-- A fold over other entries ends as before if each of its steps does. -/
theorem Step.outcome_foldlM_eq {α β γ : Type} {f : β → α → Step β} {g : β → γ → Step β}
    {xs : List α} {ys : List γ}
    (h : List.Forall₂ (fun x y => ∀ b, (g b y).outcome = (f b x).outcome) xs ys) (b : β) :
    (ys.foldlM g b).outcome = (xs.foldlM f b).outcome := by
  induction h generalizing b with
  | nil => rfl
  | cons hxy _ ih => simp only [List.foldlM_cons, outcome_bind, hxy, ih]

namespace Carriers

private theorem scan_eq (h : m.Grows settings options n) (carriers : Carriers) (name : String) :
    (scan n carriers name).outcome = (scan m carriers name).outcome := by
  unfold scan
  dsimp only
  cases hc : m.class? name with
  | none => simp only [h.class?_eq_none hc, h.external]
  | some c =>
    obtain ⟨d, hd, hcd⟩ := h.class?_eq_some hc
    have htype := hcd.fieldType?_eq valueField
    rw [hd]
    cases hf : c.field? valueField <;> cases hg : d.field? valueField <;> simp_all

private theorem scanAncestors_eq (h : m.Grows settings options n) (hcd : c.Grows settings options d)
    (carriers : Carriers) :
    (scanAncestors n carriers d).outcome = (scanAncestors m carriers c).outcome := by
  unfold scanAncestors
  rw [h.ancestorNames_eq hcd]
  refine Step.outcome_foldlM_eq (List.forall₂_same.mpr fun name _ found => ?_) carriers
  exact scan_eq h found name

/-- The scan of the superclasses finds the same. -/
theorem ofModel_eq (h : m.Grows settings options n) :
    (ofModel n).outcome = (ofModel m).outcome := by
  unfold ofModel
  have hscan : (n.classes.foldlM (scanAncestors n) {}).outcome =
      (m.classes.foldlM (scanAncestors m) {}).outcome :=
    Step.outcome_foldlM_eq (h.classes.imp fun _ _ hcd => scanAncestors_eq h hcd) {}
  simp only [Step.outcome_bind, hscan]

/-- A class carries what it carried. -/
theorem valueType?_eq (h : m.Grows settings options n) (hcd : c.Grows settings options d)
    (carriers : Carriers) : valueType? n carriers d = valueType? m carriers c := by
  have htype := hcd.fieldType?_eq valueField
  unfold valueType?
  rw [h.ancestorNames_eq hcd]
  cases hf : c.field? valueField <;> cases hg : d.field? valueField <;> simp_all

end Carriers

/-- The table of carriers is the same. -/
theorem ValueAccessors.carriedTypes_eq (h : m.Grows settings options n) (carriers : Carriers) :
    carriedTypes (Carriers.valueType? n carriers) n.classes =
      carriedTypes (Carriers.valueType? m carriers) m.classes := by
  have hclasses := h.classes
  have htype : ∀ {c d}, c.Grows settings options d →
      Carriers.valueType? n carriers d = Carriers.valueType? m carriers c :=
    fun hcd => Carriers.valueType?_eq h hcd carriers
  unfold carriedTypes
  generalize (∅ : Dict TypeExpr) = types
  generalize m.classes = before, n.classes = after at hclasses
  induction hclasses generalizing types with
  | nil => rfl
  | cons hcd _ ih =>
    rw [List.foldl_cons, List.foldl_cons, hcd.isEnum_eq, htype hcd, hcd.name]
    exact ih _

end BeanSynthesis
