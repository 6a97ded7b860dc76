import BeanSynthesis.Proofs.Execution.Objects

/-!
# Creation of objects

A new object is started by the constructors without parameters of its superclasses, the farthest
one first, and then by the constructor of its own class that the arguments mean.
-/

namespace BeanSynthesis.Program

variable {p : Program} {h k : Heap} {a : Nat} {c d : BeanClass} {className : String}
  {signature : List TypeExpr} {args : List Typed} {slots : Slots} {P : Slots → Prop}

/-- A later heap in which an object of the class of this name has such fields. Nothing else of what
was there before is different. -/
structure Started (className : String) (P : Slots → Prop) (a : Nat) (h k : Heap) : Prop where
  keeps : h.Keeps (· ≠ a) k
  object : ∃ slots, k[a]? = some (.object className slots) ∧ P slots

/-- A class has a constructor of this signature which, with these arguments, gives such fields to
objects of the class of this name, and otherwise changes nothing. -/
def Starts (p : Program) (c : BeanClass) (className : String) (signature : List TypeExpr)
    (args : List Typed) (P : Slots → Prop) : Prop :=
  ∃ r, constructor? c signature = some r ∧
    ∀ h a slots, h[a]? = some (.object className slots) → ∃ result k,
      p.Yields (fun calls => calls r (.ref a) args h) (result, k) ∧ Started className P a h k

/-- A constructor that does nothing leaves the fields as they are. -/
theorem starts_of_empty
    (hempty : constructor? c [] = some { owner := c, params := [], body := [] }) :
    p.Starts c className [] [] fun _ => True := by
  refine ⟨_, hempty, fun h a slots hcell => ⟨.null, h, ?_, .refl h, slots, hcell, trivial⟩⟩
  exact .call (.of_eq fun _ => rfl)

/-- Superclasses start an object one after the other. -/
theorem yields_initAncestors_of_starts {ancestors : List BeanClass}
    (hstarts : ∀ d ∈ ancestors, p.Starts d className [] [] fun _ => True)
    (hcell : h[a]? = some (.object className slots)) :
    ∃ k, p.Yields (fun calls => initAncestors calls (.ref a) ancestors h) k ∧
      Started className (fun _ => True) a h k := by
  induction ancestors with
  | nil => exact ⟨h, .of_eq fun _ => rfl, .refl h, slots, hcell, trivial⟩
  | cons d rest ih =>
    rw [List.forall_mem_cons] at hstarts
    obtain ⟨k, hrest, hkeeps, slots', hcell', -⟩ := ih hstarts.2
    obtain ⟨r, hr, hbody⟩ := hstarts.1
    obtain ⟨result, l, hcall, hstarted⟩ := hbody k a slots' hcell'
    refine ⟨l, ?_, hkeeps.trans hstarted.keeps, hstarted.object⟩
    filter_upwards [hrest, hcall] with depth hrest hcall
    simp [initAncestors, hrest, hr, hcall]

/-- Arguments that have exactly the types of the parameters mean the constructor with these. -/
theorem constructorFor?_of_constructor? {r : Routine} (hr : constructor? c signature = some r)
    (hargs : args.map (·.type) = signature.map some) :
    p.constructorFor? c args = some signature := by
  unfold constructorFor?
  split
  case isTrue hnone =>
    rw [List.isEmpty_iff.mp hnone, List.map_nil] at hargs
    rw [List.map_eq_nil_iff.mp hargs.symm]
  case isFalse hsome =>
    have hsignature : signature ≠ [] := by
      rintro rfl
      exact hsome (List.isEmpty_iff.mpr (List.map_eq_nil_iff.mp hargs))
    have hmem : signature ∈ c.constructors.map fun k => k.params.map (·.type) := by
      unfold constructor? at hr
      split at hr
      case h_1 k hk =>
        refine List.mem_map.mpr ⟨k, List.mem_of_find?_eq_some hk, ?_⟩
        have hfits := List.find?_some hk
        simpa [Constructor.hasSignature, haveTypes] using hfits
      case h_2 => simp [hsignature] at hr
    dsimp only
    rw [hargs]
    exact mostSpecific?_of_mem p.model hmem

/-- An object that its class and its superclasses start is new, and there is nothing else that is
different from before. -/
theorem yields_construct {ancestors : List BeanClass} {v : Value} {type : TypeExpr}
    (hline : p.model.lineNamed c.name = c :: ancestors) (hname : c.name ≠ "java.util.HashMap")
    (hconcrete : c.isAbstract = false) (hplain : ¬c.isEnum)
    (hsuper : ∀ d ∈ ancestors, p.Starts d c.name [] [] fun _ => True)
    (hstarts : p.Starts c c.name [type] [⟨v, some type⟩] P) (typeArgs : List TypeExpr) (h : Heap) :
    ∃ slots k,
      p.Yields (fun calls => p.construct calls (.named c.name typeArgs) [⟨v, some type⟩] h)
        (⟨.ref h.length, some (.named c.name typeArgs)⟩, k) ∧
      h.Extends k ∧ k[h.length]? = some (.object c.name slots) ∧ P slots := by
  obtain ⟨r, hr, hbody⟩ := hstarts
  have hsignature : p.constructorFor? c [⟨v, some type⟩] = some [type] :=
    constructorFor?_of_constructor? hr rfl
  have hobject : (h ++ [Cell.object c.name []])[h.length]? = some (.object c.name []) :=
    List.getElem?_concat_length
  obtain ⟨h', hinit, hkeeps, slots, hcell, -⟩ := yields_initAncestors_of_starts hsuper hobject
  obtain ⟨result, k, hcall, hstarted⟩ := hbody h' h.length slots hcell
  obtain ⟨after, hafter, hP⟩ := hstarted.object
  have hnew : (h ++ [Cell.object c.name []]).Keeps (· ≠ h.length) k :=
    hkeeps.trans hstarted.keeps
  have hold : h.Keeps (· ≠ h.length) k :=
    ((Heap.extends_append h _).mono fun _ _ _ => trivial).trans hnew
  have hextends : h.Extends k := hold.mono fun b hlt _ => Nat.ne_of_lt hlt
  refine ⟨after, k, ?_, hextends, hafter, hP⟩
  filter_upwards [hinit, hcall] with depth hinit hcall
  unfold construct
  split
  case h_1 hargs => cases hargs
  case h_2 htype _ => exact absurd (TypeExpr.named.inj htype).1 hname
  case h_3 =>
    simp [CodeModel.lineOfType, hline, hconcrete, hplain, hsignature, hr, hinit, hcall]

end BeanSynthesis.Program
