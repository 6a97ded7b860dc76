import BeanSynthesis.Proofs.Edits.Offers

/-!
# The order of passes

Two different passes can run in either order, unless both make accessors or both read constraints
for some dialect: one order succeeds if and only if the other does, and the two models differ at
most in the order of methods, interfaces and lines of documentation.
-/

namespace BeanSynthesis

/-! ## Interfaces of two passes -/

section

variable {α κ : Type} [DecidableEq α] [DecidableEq κ] {key : α → κ} {xs ys : List α} {x : α}

/-- An entry that a list shall hold once and entries that are told apart by key can be added in
either order, if the entry is the only one of its key. -/
theorem addOnce_newcomers_perm (honly : ∀ y ∈ ys, key y = key x → y = x) :
    (addOnce x (xs ++ newcomers key (xs.map key) ys)).Perm
      (addOnce x xs ++ newcomers key ((addOnce x xs).map key) ys) := by
  by_cases hx : x ∈ xs
  · rw [addOnce_of_mem hx, addOnce_of_mem (List.mem_append_left _ hx)]
  have hends : addOnce x xs = xs ++ [x] := if_neg hx
  rw [hends, List.map_append, List.map_singleton]
  by_cases hnew : x ∈ newcomers key (xs.map key) ys
  · have hseen : key x ∉ xs.map key := not_mem_of_mem_newcomers hnew
    have hlast : newcomers key (xs.map key ++ [key x]) ys =
        newcomers key (key x :: xs.map key) ys := newcomers_congr fun y _ => by simp [or_comm]
    rw [addOnce_of_mem (List.mem_append_right _ hnew), hlast, List.append_assoc]
    exact (newcomers_perm_cons (mem_of_mem_newcomers hnew) hseen honly).append_left xs
  · -- no entry of the key comes anew, so it makes no difference that the entry has been seen
    have hsame : newcomers key (xs.map key ++ [key x]) ys = newcomers key (xs.map key) ys := by
      apply newcomers_congr
      intro y hy
      simp only [List.mem_append, List.mem_singleton, or_iff_left_iff_imp]
      intro hkey
      obtain rfl := honly y hy hkey
      have hkeys : key y ∈ xs.map key ∨ key y ∈ (newcomers key (xs.map key) ys).map key :=
        key_mem_of_mem hy
      rcases hkeys with hseen | hcame
      · exact hseen
      · obtain ⟨z, hz, hzy⟩ := List.mem_map.mp hcame
        obtain rfl := honly z (mem_of_mem_newcomers hz) hzy
        exact absurd hz hnew
    have hlater : x ∉ xs ++ newcomers key (xs.map key) ys := by simp [hx, hnew]
    rw [hsame, show addOnce x (xs ++ _) = _ from if_neg hlater, List.append_assoc,
      List.append_assoc]
    exact List.perm_append_comm.append_left xs

end

variable {settings : Settings} {context : PassContext} {m : CodeModel} {c : BeanClass}
  {pass other : Pass}

private theorem Interfaces.editInterfaces_perm (lineage : Lineage) (xs : List ClassRef) :
    (Copying.editInterfaces settings lineage (editInterfaces settings m c xs)).Perm
      (editInterfaces settings m c (Copying.editInterfaces settings lineage xs)) := by
  unfold Copying.editInterfaces editInterfaces
  split
  · split
    · refine addOnce_newcomers_perm fun y hy hname => ?_
      obtain ⟨name, -, rfl⟩ := List.mem_map.mp hy
      exact congrArg ClassRef.ofName hname
    · exact .refl _
  · exact .refl _

/-! ## Independent passes -/

namespace Pass

/-- The passes that annotate fields with constraints. -/
def validationPasses : List Pass := [.constraints .jsr303, .constraints .jsr349]

private theorem constraints_mem (dialect : ValidationDialect) :
    constraints dialect ∈ validationPasses := by
  cases dialect <;> decide

/-- Constructors are offered by one pass alone. -/
theorem offer_constructors (pass : Pass) :
    (pass.offer context m c).constructors = [] ∨ pass = valueAccessors := by
  cases pass with
  | valueAccessors => exact .inr rfl
  | _ => exact .inl rfl

/-- Fields are changed by three passes alone. -/
theorem offer_fields (pass : Pass) : (pass.offer context m c).fields = id ∨
    pass = privateFields ∨ ∃ dialect, pass = constraints dialect := by
  cases pass with
  | privateFields => exact .inr (.inl rfl)
  | constraints dialect => exact .inr (.inr ⟨dialect, rfl⟩)
  | _ => exact .inl rfl

/-- Interfaces are added by two passes alone. -/
theorem offer_interfaces (pass : Pass) : (pass.offer context m c).interfaces = id ∨
    pass = copying ∨ pass = interfaces := by
  cases pass with
  | copying => exact .inr (.inl rfl)
  | interfaces => exact .inr (.inr rfl)
  | _ => exact .inl rfl

/-- Annotations are added to classes by one pass alone. -/
theorem offer_annotations (pass : Pass) :
    (pass.offer context m c).annotations = id ∨ pass = styleMarker := by
  cases pass with
  | styleMarker => exact .inr rfl
  | _ => exact .inl rfl

/-- Hiding fields and constraining them commute. -/
theorem offer_fields_comm (hne : pass ≠ other)
    (hvalid : ¬(pass ∈ validationPasses ∧ other ∈ validationPasses)) (xs : List Field) :
    (other.offer context m c).fields ((pass.offer context m c).fields xs) =
      (pass.offer context m c).fields ((other.offer context m c).fields xs) := by
  rcases pass.offer_fields with hsame | rfl | ⟨dialect, rfl⟩
  · rw [hsame, id, id]
  · rcases other.offer_fields with hsame | rfl | ⟨dialect, rfl⟩
    · rw [hsame, id, id]
    · exact absurd rfl hne
    · exact PrivateFields.constrainAll_map_hide _ xs
  · rcases other.offer_fields with hsame | rfl | ⟨dialect', rfl⟩
    · rw [hsame, id, id]
    · exact (PrivateFields.constrainAll_map_hide _ xs).symm
    · exact absurd ⟨constraints_mem dialect, constraints_mem dialect'⟩ hvalid

private theorem offer_interfaces_perm (hne : pass ≠ other) (xs : List ClassRef) :
    ((other.offer context m c).interfaces ((pass.offer context m c).interfaces xs)).Perm
      ((pass.offer context m c).interfaces ((other.offer context m c).interfaces xs)) := by
  rcases pass.offer_interfaces with hsame | rfl | rfl
  · rw [hsame, id, id]
  · rcases other.offer_interfaces with hsame | rfl | rfl
    · rw [hsame, id, id]
    · exact absurd rfl hne
    · exact (Interfaces.editInterfaces_perm _ xs).symm
  · rcases other.offer_interfaces with hsame | rfl | rfl
    · rw [hsame, id, id]
    · exact Interfaces.editInterfaces_perm _ xs
    · exact absurd rfl hne

private theorem offer_independent (hne : pass ≠ other)
    (haccess : ¬(pass ∈ accessorPasses ∧ other ∈ accessorPasses))
    (hvalid : ¬(pass ∈ validationPasses ∧ other ∈ validationPasses)) :
    (pass.offer context m c).Independent (other.offer context m c) where
  constructors := by
    rcases pass.offer_constructors with hnone | rfl
    · exact .inl hnone
    · rcases other.offer_constructors with hnone | rfl
      · exact .inr hnone
      · exact absurd rfl hne
  methods x hx y hy hkey := offer_disjoint hne haccess hx hy (congrArg Prod.fst hkey)
  fields := offer_fields_comm hne hvalid
  interfaces := offer_interfaces_perm hne
  annotations xs := by
    rcases pass.offer_annotations with hsame | rfl
    · rw [hsame, id, id]
    · rcases other.offer_annotations with hsame | rfl
      · rw [hsame, id, id]
      · exact absurd rfl hne

/-- What two passes do to a class is independent, unless both make accessors or both make
constraints. -/
theorem editOf_independent (hne : pass ≠ other)
    (haccess : ¬(pass ∈ accessorPasses ∧ other ∈ accessorPasses))
    (hvalid : ¬(pass ∈ validationPasses ∧ other ∈ validationPasses)) :
    (pass.editOf context m c).Independent (other.editOf context m c) := by
  unfold editOf
  split
  · exact (ClassEdit.independent_empty _).symm
  · split
    · exact ClassEdit.independent_empty _
    · exact offer_independent hne haccess hvalid

/-- Two passes may edit a factory in either order. -/
theorem editFactory_comm (pass other : Pass) (settings : Settings) (c : BeanClass) :
    other.editFactory settings (pass.editFactory settings c) =
      pass.editFactory settings (other.editFactory settings c) := by
  cases pass <;> cases other <;> rfl

/-- Two passes may edit packages in either order. -/
theorem editPackages_comm (pass other : Pass) (settings : Settings) (m : CodeModel)
    (packages : List Package) :
    other.editPackages settings m (pass.editPackages settings m packages) =
      pass.editPackages settings m (other.editPackages settings m packages) := by
  cases pass <;> cases other <;> rfl

end Pass

/-! ## Runs in either order -/

/-- Two models that differ at most in the order in which their classes have methods, interfaces and
lines of documentation. -/
structure CodeModel.SameUpToOrder (m n : CodeModel) : Prop where
  classes : List.Forall₂ BeanClass.SameUpToOrder m.classes n.classes
  objectFactories : n.objectFactories = m.objectFactories
  packages : n.packages = m.packages
  external : n.external = m.external

/-- Independent passes make the same model in either order. -/
theorem Pass.edited_comm {report report' : PassReport} (hne : pass ≠ other)
    (haccess : ¬(pass ∈ accessorPasses ∧ other ∈ accessorPasses))
    (hvalid : ¬(pass ∈ validationPasses ∧ other ∈ validationPasses))
    (hpass : (pass.run context m).outcome = .ok report)
    (hother : (other.run context m).outcome = .ok report') :
    (other.edited context (pass.edited context m)).SameUpToOrder
      (pass.edited context (other.edited context m)) := by
  have hreads : ∀ {p : Pass}, p.readsMethods → p ∈ accessorPasses := by
    intro p h
    cases p <;> first | exact absurd h Bool.false_ne_true | decide
  rw [edited_edited hpass fun h hmem => haccess ⟨hmem, hreads h⟩,
    edited_edited hother fun h hmem => haccess ⟨hreads h, hmem⟩]
  constructor
  · rw [List.forall₂_map_left_iff, List.forall₂_map_right_iff, List.forall₂_same]
    intro c _
    exact (editOf_independent hne haccess hvalid).sameUpToOrder c
  · exact List.map_congr_left fun c _ => (editFactory_comm pass other context.settings c).symm
  · exact (editPackages_comm pass other context.settings m m.packages).symm
  · rfl

namespace EngineRun

variable {first second : Pass}

/-- Two passes succeed one after the other if and only if each has no objection to the model. -/
theorem runPasses_pair_ok :
    (∃ report, (runPasses context m {} [first, second]).outcome = .ok report) ↔
    first.objectionTo? context.settings m = none ∧
      second.objectionTo? context.settings m = none := by
  rw [← failure?_eq_none, failure?_runPasses]
  simp [List.findSome?_eq_none_iff]

private theorem runPasses_pair_model {report : RunReport}
    (h : (runPasses context m {} [first, second]).outcome = .ok report) :
    (runPasses context m {} [first, second]).model =
      second.edited context (first.edited context m) := by
  obtain ⟨report₁, r₁, hfirst, h, hmodel⟩ := runPasses_cons h
  obtain ⟨report₂, r₂, hsecond, h, hmodel'⟩ := runPasses_cons h
  have hfirst' := (Pass.run_performed hfirst).model
  have hsecond' := (Pass.run_performed hsecond).model
  rw [hmodel, hmodel', ← hfirst', ← hsecond']
  rfl

/-- Different passes can run in either order, unless both make accessors or both annotate fields
with constraints: both orders succeed or neither does, and they make the same model up to the order
of methods, interfaces and lines of documentation. -/
theorem runPasses_swap (hne : first ≠ second)
    (haccess : ¬(first ∈ Pass.accessorPasses ∧ second ∈ Pass.accessorPasses))
    (hvalid : ¬(first ∈ Pass.validationPasses ∧ second ∈ Pass.validationPasses)) :
    let forth := runPasses context m {} [first, second]
    let back := runPasses context m {} [second, first]
    ((∃ report, forth.outcome = .ok report) ↔ ∃ report, back.outcome = .ok report) ∧
      ((∃ report, forth.outcome = .ok report) → forth.model.SameUpToOrder back.model) := by
  intro forth back
  have hiff : (∃ report, forth.outcome = .ok report) ↔ ∃ report, back.outcome = .ok report := by
    rw [runPasses_pair_ok, runPasses_pair_ok, and_comm]
  refine ⟨hiff, fun hforth => ?_⟩
  obtain ⟨hfirst, hsecond⟩ := runPasses_pair_ok.mp hforth
  obtain ⟨report, hreport⟩ := hforth
  obtain ⟨report', hreport'⟩ := hiff.mp ⟨report, hreport⟩
  rw [← Pass.failure?_run, failure?_eq_none] at hfirst hsecond
  obtain ⟨first', hfirst⟩ := hfirst
  obtain ⟨second', hsecond⟩ := hsecond
  rw [runPasses_pair_model hreport, runPasses_pair_model hreport']
  exact Pass.edited_comm hne haccess hvalid hfirst hsecond

/-- Copying and the configured interfaces both add interfaces, in the order in which they run. -/
theorem runPasses_swap_interfaces :
    let m : CodeModel := { classes := [{ name := "shop.Order" }] }
    let context : PassContext :=
      { settings := { implements := ["java.io.Serializable"] }, active := [] }
    let forth := runPasses context m {} [.copying, .interfaces]
    let back := runPasses context m {} [.interfaces, .copying]
    Pass.copying ≠ .interfaces ∧
      ¬(Pass.copying ∈ Pass.accessorPasses ∧ Pass.interfaces ∈ Pass.accessorPasses) ∧
      ¬(Pass.copying ∈ Pass.validationPasses ∧ Pass.interfaces ∈ Pass.validationPasses) ∧
      forth.model.SameUpToOrder back.model ∧
      forth.model.classes.map (·.interfaces) ≠ back.model.classes.map (·.interfaces) := by
  intro m context forth back
  have hne : Pass.copying ≠ .interfaces := by decide
  have haccess : ¬(Pass.copying ∈ Pass.accessorPasses ∧ Pass.interfaces ∈ Pass.accessorPasses) := by
    decide
  have hvalid :
      ¬(Pass.copying ∈ Pass.validationPasses ∧ Pass.interfaces ∈ Pass.validationPasses) := by
    decide
  have hok : ∃ report, forth.outcome = .ok report := ⟨_, rfl⟩
  refine ⟨hne, haccess, hvalid, (runPasses_swap hne haccess hvalid).2 hok, ?_⟩
  decide +kernel

end EngineRun

end BeanSynthesis
