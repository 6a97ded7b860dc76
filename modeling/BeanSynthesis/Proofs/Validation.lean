import BeanSynthesis.Proofs.Inheritance
import Mathlib.Data.List.Nodup
import Mathlib.Data.List.Perm.Subperm

/-!
# What validation decides

Validation counts superclasses and gives up when there are more of them than classes. The count is
exact: the superclasses of a class that end are all different, so there are never too many of
them. A refusal names the first class of the list that gives the reason for it.
-/

namespace BeanSynthesis

namespace CodeModel

variable {m : CodeModel} {c d parent : BeanClass} {k l : Nat}

/-- Above a class stand this many generated superclasses, and the last one has no superclass or an
external one. -/
inductive EndsAfter (m : CodeModel) : Nat → BeanClass → Prop where
  | root {c : BeanClass} : m.parentOf c = .root → EndsAfter m 0 c
  | external {c : BeanClass} {parent : ClassRef} : m.parentOf c = .external parent →
      EndsAfter m 0 c
  | generated {c parent : BeanClass} {k : Nat} : m.parentOf c = .generated parent →
      EndsAfter m k parent → EndsAfter m (k + 1) c

/-- The superclasses of a class end. -/
def Ends (m : CodeModel) (c : BeanClass) : Prop := ∃ k, m.EndsAfter k c

/-- There is one number of superclasses. -/
theorem EndsAfter.unique (h : m.EndsAfter k c) (h' : m.EndsAfter l c) : k = l := by
  induction h generalizing l with
  | root hroot =>
    cases h' with
    | root => rfl
    | external => rfl
    | generated hparent => simp [hroot] at hparent
  | external hexternal =>
    cases h' with
    | root => rfl
    | external => rfl
    | generated hparent => simp [hexternal] at hparent
  | generated hparent _ ih =>
    cases h' with
    | root hroot => simp [hroot] at hparent
    | external hexternal => simp [hexternal] at hparent
    | generated hparent' hrest =>
      rw [hparent] at hparent'
      obtain rfl := Parent.generated.inj hparent'
      rw [ih hrest]

/-! ## The count -/

private theorem EndsAfter.endsWithin (h : m.EndsAfter k c) (hk : k ≤ l) : m.endsWithin l c := by
  induction h generalizing l with
  | root hroot => simp [CodeModel.endsWithin, hroot]
  | external hexternal => simp [CodeModel.endsWithin, hexternal]
  | @generated c parent k hparent _ ih =>
    obtain ⟨steps, rfl⟩ := Nat.exists_eq_add_of_le' (Nat.le_trans (Nat.le_add_left 1 k) hk)
    rw [endsWithin_of_generated hparent]
    exact ih (Nat.le_of_succ_le_succ hk)

/-- A line of which a bound is known ends. -/
theorem ends_of_endsWithin (h : m.endsWithin l c) : m.Ends c := by
  induction l generalizing c with
  | zero =>
    cases hparent : m.parentOf c with
    | root => exact ⟨0, .root hparent⟩
    | external parent => exact ⟨0, .external hparent⟩
    | generated parent => simp [endsWithin, hparent] at h
  | succ l ih =>
    cases hparent : m.parentOf c with
    | root => exact ⟨0, .root hparent⟩
    | external parent => exact ⟨0, .external hparent⟩
    | generated parent =>
      rw [endsWithin_of_generated hparent] at h
      obtain ⟨k, hk⟩ := ih h
      exact ⟨k + 1, .generated hparent hk⟩

/-- A class and its superclasses, if they end, are different classes of the model: no two of them
have the same number of superclasses. -/
theorem EndsAfter.exists_line (h : m.EndsAfter k c) (hc : c ∈ m.classes) :
    ∃ line : List BeanClass, line.length = k + 1 ∧ line.Nodup ∧
      ∀ d ∈ line, d ∈ m.classes ∧ ∃ l ≤ k, m.EndsAfter l d := by
  induction h with
  | @root c hroot => exact ⟨[c], rfl, List.nodup_singleton c, by simpa using ⟨hc, .root hroot⟩⟩
  | @external c _ hexternal =>
    exact ⟨[c], rfl, List.nodup_singleton c, by simpa using ⟨hc, .external hexternal⟩⟩
  | @generated c parent k hparent hrest ih =>
    obtain ⟨line, hlength, hnodup, hline⟩ := ih (mem_of_parentOf hparent)
    have hself : m.EndsAfter (k + 1) c := .generated hparent hrest
    have hfresh : c ∉ line := by
      intro hmem
      obtain ⟨-, l, hl, hends⟩ := hline c hmem
      have := hself.unique hends
      omega
    refine ⟨c :: line, by rw [List.length_cons, hlength], List.nodup_cons.mpr ⟨hfresh, hnodup⟩, ?_⟩
    rw [List.forall_mem_cons]
    refine ⟨⟨hc, k + 1, Nat.le_refl _, hself⟩, fun d hd => ?_⟩
    obtain ⟨hmem, l, hl, hends⟩ := hline d hd
    exact ⟨hmem, l, Nat.le_succ_of_le hl, hends⟩

/-- The number of classes is a bound that no chain which ends goes beyond. -/
theorem endsWithin_length_iff (hc : c ∈ m.classes) :
    m.endsWithin m.classes.length c ↔ m.Ends c := by
  refine ⟨ends_of_endsWithin, fun ⟨k, hk⟩ => hk.endsWithin ?_⟩
  obtain ⟨line, hlength, hnodup, hline⟩ := hk.exists_line hc
  have hle := (List.Nodup.subperm hnodup fun d hd => (hline d hd).1).length_le
  omega

/-! ## Names -/

/-- The first repeated name is the one before which all names are different and new, and which
stands there already. -/
theorem firstRepeated?_eq_some_iff {seen names : List String} {name : String} :
    firstRepeated? seen names = some name ↔
      ∃ before after, names = before ++ name :: after ∧ before.Nodup ∧ (∀ b ∈ before, b ∉ seen) ∧
        (name ∈ before ∨ name ∈ seen) := by
  induction names generalizing seen with
  | nil => simp [firstRepeated?]
  | cons first rest ih =>
    unfold firstRepeated?
    split
    case isTrue hseen =>
      constructor
      · intro h
        obtain rfl := Option.some.inj h
        exact ⟨[], rest, rfl, List.nodup_nil, by simp, .inr hseen⟩
      · rintro ⟨before, after, hnames, -, hnew, -⟩
        cases before with
        | nil => rw [(List.cons.inj hnames).1]
        | cons b before =>
          obtain ⟨rfl, -⟩ := List.cons.inj hnames
          exact absurd hseen (hnew _ List.mem_cons_self)
    case isFalse hfresh =>
      rw [ih]
      constructor
      · rintro ⟨before, after, rfl, hnodup, hnew, hname⟩
        have hfirst : first ∉ before := fun hmem => hnew first hmem List.mem_cons_self
        refine ⟨first :: before, after, rfl, List.nodup_cons.mpr ⟨hfirst, hnodup⟩, ?_, ?_⟩
        · rw [List.forall_mem_cons]
          exact ⟨hfresh, fun b hb hseen => hnew b hb (List.mem_cons_of_mem _ hseen)⟩
        · simp only [List.mem_cons] at hname ⊢
          tauto
      · rintro ⟨before, after, hnames, hnodup, hnew, hname⟩
        cases before with
        | nil =>
          obtain ⟨rfl, -⟩ := List.cons.inj hnames
          simp [hfresh] at hname
        | cons b before =>
          obtain ⟨rfl, rfl⟩ := List.cons.inj hnames
          obtain ⟨hb, hnodup⟩ := List.nodup_cons.mp hnodup
          rw [List.forall_mem_cons] at hnew
          refine ⟨before, after, rfl, hnodup, fun x hx hseen => ?_, ?_⟩
          · rcases List.mem_cons.mp hseen with rfl | hseen
            · exact hb hx
            · exact hnew.2 x hx hseen
          · simp only [List.mem_cons] at hname ⊢
            tauto

private theorem firstRepeated?_eq_none_iff {names : List String} :
    firstRepeated? [] names = none ↔ names.Nodup := by
  refine ⟨fun h => (firstRepeated?_eq_none h).2, fun h => ?_⟩
  rw [Option.eq_none_iff_forall_ne_some]
  intro name hname
  obtain ⟨before, after, rfl, -, -, hmem⟩ := firstRepeated?_eq_some_iff.mp hname
  have hold : name ∈ before := by simpa using hmem
  exact (List.disjoint_of_nodup_append h) hold List.mem_cons_self

/-! ## The verdict -/

/-- A class of the list with the name of an earlier one; the names before it are all different. -/
def FirstRepeats (m : CodeModel) (c : BeanClass) : Prop :=
  ∃ before after, m.classes = before ++ c :: after ∧ (before.map (·.name)).Nodup ∧
    c.name ∈ before.map (·.name)

/-- A class of the list whose superclasses never end; those of all classes before it do. -/
def FirstEndless (m : CodeModel) (c : BeanClass) : Prop :=
  ∃ before after, m.classes = before ++ c :: after ∧ (∀ b ∈ before, m.Ends b) ∧ ¬m.Ends c

private theorem firstRepeated?_classes {name : String} :
    firstRepeated? [] (m.classes.map (·.name)) = some name ↔
      ∃ c, m.FirstRepeats c ∧ name = c.name := by
  rw [firstRepeated?_eq_some_iff]
  constructor
  · rintro ⟨before, after, hnames, hnodup, -, hmem⟩
    obtain ⟨earlier, rest, hclasses, rfl, hrest⟩ := List.map_eq_append_iff.mp hnames
    obtain ⟨c, later, rfl, rfl, rfl⟩ := List.map_eq_cons_iff.mp hrest
    exact ⟨c, ⟨earlier, later, hclasses, hnodup, by simpa using hmem⟩, rfl⟩
  · rintro ⟨c, ⟨earlier, later, hclasses, hnodup, hmem⟩, rfl⟩
    exact ⟨earlier.map (·.name), later.map (·.name), by simp [hclasses], hnodup, by simp, .inl hmem⟩

private theorem find?_endless :
    m.classes.find? (fun c => !m.endsWithin m.classes.length c) = some c ↔ m.FirstEndless c := by
  rw [List.find?_eq_some_iff_append]
  constructor
  · rintro ⟨hc, before, after, hclasses, hbefore⟩
    refine ⟨before, after, hclasses, fun b hb => ?_, fun hends => ?_⟩
    · exact ends_of_endsWithin (by simpa using hbefore b hb)
    · have hmem : c ∈ m.classes := by simp [hclasses]
      simp [(endsWithin_length_iff hmem).mpr hends] at hc
  · rintro ⟨before, after, hclasses, hbefore, hends⟩
    refine ⟨?_, before, after, hclasses, fun b hb => ?_⟩
    · simpa using fun h => hends (ends_of_endsWithin h)
    · have hmem : b ∈ m.classes := by simp [hclasses, hb]
      simpa using (endsWithin_length_iff hmem).mpr (hbefore b hb)

private theorem find?_endless_eq_none :
    m.classes.find? (fun c => !m.endsWithin m.classes.length c) = none ↔
      ∀ c ∈ m.classes, m.Ends c := by
  rw [List.find?_eq_none]
  refine forall₂_congr fun c hc => ?_
  rw [← endsWithin_length_iff hc]
  simp

private theorem validate_eq_ok_iff :
    m.validate = .ok () ↔ (m.classes.map (·.name)).Nodup ∧ ∀ c ∈ m.classes, m.Ends c := by
  rw [← firstRepeated?_eq_none_iff, ← find?_endless_eq_none]
  unfold validate
  cases firstRepeated? [] (m.classes.map (·.name)) with
  | some name => simp
  | none =>
    cases m.classes.find? fun c => !m.endsWithin m.classes.length c with
    | some c => simp
    | none => simp

private theorem validate_eq_error_iff {e : ModelError} :
    m.validate = .error e ↔ (∃ c, m.FirstRepeats c ∧ e = .duplicateClass c.name) ∨
      (m.classes.map (·.name)).Nodup ∧ ∃ c, m.FirstEndless c ∧ e = .cyclicInheritance c.name := by
  have hrepeats : (∃ c, m.FirstRepeats c ∧ e = .duplicateClass c.name) ↔
      ∃ name, firstRepeated? [] (m.classes.map (·.name)) = some name ∧
        e = .duplicateClass name := by
    simp only [firstRepeated?_classes]
    constructor
    · rintro ⟨c, hc, rfl⟩
      exact ⟨c.name, ⟨c, hc, rfl⟩, rfl⟩
    · rintro ⟨name, ⟨c, hc, rfl⟩, rfl⟩
      exact ⟨c, hc, rfl⟩
  simp only [hrepeats, ← firstRepeated?_eq_none_iff, ← find?_endless]
  unfold validate
  cases firstRepeated? [] (m.classes.map (·.name)) with
  | some name => simp [eq_comm]
  | none =>
    cases m.classes.find? fun c => !m.endsWithin m.classes.length c with
    | some c => simp [eq_comm]
    | none => simp

/-- A well-formed model is accepted. -/
theorem WellFormed.validate (hm : m.WellFormed) : m.validate = .ok () :=
  validate_eq_ok_iff.mpr ⟨hm.names, fun c hc => ends_of_endsWithin (hm.ends c hc)⟩

/-- Validation accepts exactly the models whose classes have different names and whose superclasses
end, after however many of them. A refusal is about the first class with the name of an earlier
one, or, if there is none, about the first class whose superclasses never end. -/
theorem validate_decides (m : CodeModel) :
    (m.validate = .ok () ↔ (m.classes.map (·.name)).Nodup ∧ ∀ c ∈ m.classes, m.Ends c) ∧
      ∀ e, m.validate = .error e ↔ (∃ c, m.FirstRepeats c ∧ e = .duplicateClass c.name) ∨
        (m.classes.map (·.name)).Nodup ∧
          ∃ c, m.FirstEndless c ∧ e = .cyclicInheritance c.name :=
  ⟨validate_eq_ok_iff, fun _ => validate_eq_error_iff⟩

end CodeModel

end BeanSynthesis
