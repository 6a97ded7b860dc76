import BeanSynthesis.Proofs.Copying.Fields

/-!
# Plain beans

Copying relies on constructors and getters that other code gives to the classes. Those of plain
beans will do: a class that declares no constructor has one that does nothing, and the getter of a
list returns the field.
-/

namespace BeanSynthesis.Program

variable {p : Program} {d : BeanClass}

/-- Nothing happens when a class without constructors initializes an object. -/
theorem yields_initAncestors {ancestors : List BeanClass}
    (hnone : ∀ e ∈ ancestors, e.constructors = []) (self : Value) (h : Heap) :
    p.Yields (fun calls => initAncestors calls self ancestors h) h := by
  induction ancestors with
  | nil => exact .of_eq fun _ => rfl
  | cons c rest ih =>
    rw [List.forall_mem_cons] at hnone
    have hdefault : constructor? c [] = some { owner := c, params := [], body := [] } := by
      simp [constructor?, hnone.1]
    have hcall : p.Yields (fun calls => calls { owner := c, params := [], body := [] } self [] h)
        (.null, h) := .call (.of_eq fun _ => rfl)
    filter_upwards [ih hnone.2, hcall] with depth hrest hcall
    simp [initAncestors, hrest, hdefault, hcall]

/-- A class that, like its superclasses, declares no constructor has one without parameters. -/
theorem constructs_of_none (hm : p.model.WellFormed) (hd : d ∈ p.model.classes)
    (hconcrete : d.isAbstract = false) (hplain : ¬d.isEnum)
    (hnone : ∀ e ∈ p.model.line d, e.constructors = []) (hname : d.name ≠ "java.util.ArrayList") :
    p.Constructs d.name := by
  intro h
  obtain ⟨above, hline⟩ := p.model.line_eq_cons d
  rw [hline, List.forall_mem_cons] at hnone
  have hdefault : constructor? d [] = some { owner := d, params := [], body := [] } := by
    simp [constructor?, hnone.1]
  have hlineOf : p.model.lineOfType (.ofName d.name) = d :: above := by
    rw [← hline, ← hm.lineNamed_name hd]
    rfl
  refine ⟨h ++ [.object d.name []], h.length, [], ?_, Heap.extends_append h _, Nat.le_refl _,
    List.getElem?_concat_length⟩
  have hcall : p.Yields (fun calls => calls { owner := d, params := [], body := [] }
      (.ref h.length) [] (h ++ [.object d.name []])) (.null, h ++ [.object d.name []]) :=
    .call (.of_eq fun _ => rfl)
  have hrest : p.Yields (fun calls => initAncestors calls (.ref h.length) above
      (h ++ [.object d.name []])) (h ++ [.object d.name []]) := yields_initAncestors hnone.2 _ _
  filter_upwards [hrest, hcall] with depth hrest hcall
  unfold construct
  split
  case h_1 htype _ => exact absurd (TypeExpr.named.inj htype).1 hname
  case h_2 hargs => cases hargs
  case h_3 => simp [hlineOf, hconcrete, hplain, constructorFor?, hdefault, hrest, hcall]

/-- The classes of a line have getters for their list fields, and these give the fields. -/
def HasListGetters (line : List BeanClass) : Prop :=
  ∀ e ∈ line, ∀ fields f, e.instanceFields.outcome = .ok fields → f ∈ fields →
    f.type.isErasure "List" = true →
      Naming.getterName f.type f.accessor ≠ "getClass" ∧ ∃ n,
        methodIn? line (Naming.getterName f.type f.accessor) [] = some (e, n) ∧ n.params = [] ∧
          n.body = some [.give (.ident f.name)]

/-- Where the line has getters for its lists, they give the lists. -/
theorem getsLists_of_getters {P : BeanClass → Prop} (hm : p.model.WellFormed)
    (hd : p.model.Rooted P d) (hgetters : HasListGetters (p.model.line d)) :
    p.GetsLists d.name (p.model.line d) := by
  intro h x slots e fields f hx he hfields hf hlist _
  obtain ⟨hname, n, hn, hparams, hbody⟩ := hgetters e he fields f hfields hf hlist
  obtain ⟨g, hg⟩ := BeanClass.instanceField?_of_mem hfields hf
  have hfield : p.Evals ⟨x, e, []⟩ h (.ident f.name)
      ⟨slots.get (e.name, f.name), e.declaredType f.name⟩ h := by
    rw [← Heap.valueAt_of_object hx]
    exact evals_field hm (hd.of_mem_line hm he).mem rfl hg hx
  have hruns : p.Runs x e [] h [.give (.ident f.name)] (.done (slots.get (e.name, f.name))) h :=
    .cons_done (.give hfield)
  have hinvoke : ∀ calls, p.invoke calls ⟨x, some e.asType⟩
      (Naming.getterName f.type f.accessor) [] h =
        p.dispatch calls (p.model.line d) x (Naming.getterName f.type f.accessor) [] [] h := by
    intro calls
    rw [invoke_without_args (t := ⟨x, some e.asType⟩) calls hx hname,
      hm.lineNamed_name hd.mem]
  refine ⟨some n.returnType, ?_⟩
  simp only [hinvoke]
  exact .dispatch hn hbody (by rw [hparams]; rfl) hruns

end BeanSynthesis.Program
