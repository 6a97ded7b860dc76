import BeanSynthesis.Proofs.Execution.Lookup
import BeanSynthesis.Proofs.Growth.Shape

/-!
# Lines of classes

In a well-formed model the line of a class is the class before the line of its superclass. The
bound on the number of superclasses is never reached, because no line is longer than the list of
classes.
-/

namespace BeanSynthesis

namespace CodeModel

variable {m : CodeModel} {c parent : BeanClass}

/-- Classes have different names, and the superclasses of every class end. -/
structure WellFormed (m : CodeModel) : Prop where
  names : (m.classes.map (·.name)).Nodup
  ends : ∀ c ∈ m.classes, m.endsWithin m.classes.length c

/-- Where no name is repeated, the names are apart from each other and from those seen before. -/
theorem firstRepeated?_eq_none {seen names : List String} (h : firstRepeated? seen names = none) :
    (∀ name ∈ names, name ∉ seen) ∧ names.Nodup := by
  induction names generalizing seen with
  | nil => simp
  | cons name rest ih =>
    unfold firstRepeated? at h
    split at h
    · cases h
    case isFalse hfresh =>
      obtain ⟨hseen, hrest⟩ := ih h
      refine ⟨?_, List.nodup_cons.mpr ⟨?_, hrest⟩⟩
      · intro other hother
        rcases List.mem_cons.mp hother with rfl | hother
        · exact hfresh
        · exact fun hmem => hseen other hother (List.mem_cons_of_mem _ hmem)
      · exact fun hmem => hseen name hmem List.mem_cons_self

/-- A model that is accepted is well-formed. -/
theorem wellFormed_of_validate (h : m.validate = .ok ()) : m.WellFormed := by
  unfold validate at h
  split at h
  · cases h
  case h_2 hnames =>
    split at h
    · cases h
    case h_2 hends =>
      refine ⟨(firstRepeated?_eq_none hnames).2, fun c hc => ?_⟩
      simpa using List.find?_eq_none.mp hends c hc

/-- What is found under a name is a class of the model. -/
theorem mem_of_class? {name : String} (h : m.class? name = some c) : c ∈ m.classes :=
  List.mem_of_find?_eq_some h

/-- A class is found under its own name. -/
theorem WellFormed.class?_name (hm : m.WellFormed) (hc : c ∈ m.classes) :
    m.class? c.name = some c := by
  have hnames := hm.names
  unfold class?
  generalize m.classes = classes at hnames hc
  induction classes with
  | nil => simp at hc
  | cons d rest ih =>
    rw [List.map_cons, List.nodup_cons] at hnames
    rcases List.mem_cons.mp hc with rfl | hrest
    · simp
    · have hne : ¬d.name = c.name := fun heq =>
        hnames.1 (heq ▸ List.mem_map_of_mem (f := (·.name)) hrest)
      rw [List.find?_cons_of_neg (by simpa using hne)]
      exact ih hnames.2 hrest

/-- Classes of one name are the same. -/
theorem WellFormed.eq_of_name (hm : m.WellFormed) {d : BeanClass} (hc : c ∈ m.classes)
    (hd : d ∈ m.classes) (hname : c.name = d.name) : c = d := by
  have hfound := hm.class?_name hd
  rw [← hname, hm.class?_name hc] at hfound
  exact Option.some.inj hfound

/-- A generated superclass is a class of the model. -/
theorem mem_of_parentOf (h : m.parentOf c = .generated parent) : parent ∈ m.classes := by
  unfold parentOf at h
  split at h
  · cases h
  · split at h
    · cases h
    · split at h
      case h_1 _ hfound =>
        obtain rfl := Parent.generated.inj h
        exact mem_of_class? hfound
      · cases h

/-! ## The line of a class -/

private theorem lineFrom_of_generated (h : m.parentOf c = .generated parent) (steps : Nat) :
    m.lineFrom (steps + 1) c = c :: m.lineFrom steps parent := by
  simp only [lineFrom, h]

private theorem lineFrom_of_not_generated (h : ∀ parent, m.parentOf c ≠ .generated parent)
    (steps : Nat) :
    m.lineFrom steps c = [c] := by
  cases steps with
  | zero => simp only [lineFrom]
  | succ steps =>
    cases hparent : m.parentOf c with
    | generated parent => exact absurd hparent (h parent)
    | root => simp only [lineFrom, hparent]
    | external parent => simp only [lineFrom, hparent]

/-- A class with a generated superclass has one more above it than the superclass. -/
theorem endsWithin_of_generated (h : m.parentOf c = .generated parent) (steps : Nat) :
    m.endsWithin (steps + 1) c = m.endsWithin steps parent := by
  conv_lhs => unfold endsWithin
  rw [h]

/-- More steps than it takes make no difference. -/
theorem lineFrom_succ {steps : Nat} (h : m.endsWithin steps c) :
    m.lineFrom (steps + 1) c = m.lineFrom steps c := by
  induction steps generalizing c with
  | zero =>
    cases hparent : m.parentOf c with
    | generated parent => simp [endsWithin, hparent] at h
    | root => rw [lineFrom_of_not_generated (by simp [hparent]),
        lineFrom_of_not_generated (by simp [hparent])]
    | external parent => rw [lineFrom_of_not_generated (by simp [hparent]),
        lineFrom_of_not_generated (by simp [hparent])]
  | succ steps ih =>
    cases hparent : m.parentOf c with
    | generated parent =>
      rw [endsWithin_of_generated hparent] at h
      rw [lineFrom_of_generated hparent, lineFrom_of_generated hparent, ih h]
    | root => rw [lineFrom_of_not_generated (by simp [hparent]),
        lineFrom_of_not_generated (by simp [hparent])]
    | external parent => rw [lineFrom_of_not_generated (by simp [hparent]),
        lineFrom_of_not_generated (by simp [hparent])]

/-- Without a generated superclass a class is alone in its line. -/
theorem line_of_not_generated (h : ∀ parent, m.parentOf c ≠ .generated parent) : m.line c = [c] :=
  lineFrom_of_not_generated h _

/-- The line of a class with a generated superclass. -/
theorem WellFormed.line_of_generated (hm : m.WellFormed) (hc : c ∈ m.classes)
    (h : m.parentOf c = .generated parent) : m.line c = c :: m.line parent := by
  have hends := hm.ends c hc
  unfold line
  cases hlength : m.classes.length with
  | zero => simp [List.length_eq_zero_iff.mp hlength] at hc
  | succ steps =>
    rw [hlength, endsWithin_of_generated h] at hends
    rw [lineFrom_of_generated h, lineFrom_succ hends]

/-- A line starts with its class. -/
theorem line_eq_cons (m : CodeModel) (c : BeanClass) : ∃ above, m.line c = c :: above := by
  unfold line
  cases hparent : m.parentOf c with
  | generated parent =>
    cases m.classes.length with
    | zero => exact ⟨[], by simp only [lineFrom]⟩
    | succ steps => exact ⟨_, lineFrom_of_generated hparent steps⟩
  | root => exact ⟨[], lineFrom_of_not_generated (by simp [hparent]) _⟩
  | external parent => exact ⟨[], lineFrom_of_not_generated (by simp [hparent]) _⟩

/-- A class is in its own line. -/
theorem mem_line_self (m : CodeModel) (c : BeanClass) : c ∈ m.line c := by
  obtain ⟨above, h⟩ := m.line_eq_cons c
  rw [h]
  exact List.mem_cons_self

/-- The line of a class goes through classes of the model. -/
theorem mem_of_mem_line (hc : c ∈ m.classes) {d : BeanClass} (hd : d ∈ m.line c) :
    d ∈ m.classes := by
  unfold line at hd
  generalize m.classes.length = steps at hd
  induction steps generalizing c with
  | zero => exact List.mem_singleton.mp hd ▸ hc
  | succ steps ih =>
    unfold lineFrom at hd
    split at hd
    case h_1 parent hparent =>
      rcases List.mem_cons.mp hd with rfl | hd
      · exact hc
      · exact ih (mem_of_parentOf hparent) hd
    case h_2 => exact List.mem_singleton.mp hd ▸ hc

/-- In a well-formed model the line of a name is that of the class it names. -/
theorem WellFormed.lineNamed_name (hm : m.WellFormed) (hc : c ∈ m.classes) :
    m.lineNamed c.name = m.line c := by
  unfold lineNamed
  rw [hm.class?_name hc]

/-! ## Hierarchies -/

/-- A class for which `P` holds, as it does for all its superclasses. They are generated, and the
last one has no superclass of its own. -/
inductive Rooted (m : CodeModel) (P : BeanClass → Prop) : BeanClass → Prop where
  | root {c : BeanClass} : c ∈ m.classes → P c → m.parentOf c = .root → Rooted m P c
  | derived {c parent : BeanClass} : c ∈ m.classes → P c → m.parentOf c = .generated parent →
      Rooted m P parent → Rooted m P c

namespace Rooted

variable {P Q : BeanClass → Prop}

/-- A class whose line is known to the root is in the model. -/
theorem mem (h : m.Rooted P c) : c ∈ m.classes := by
  cases h with
  | root hc _ _ => exact hc
  | derived hc _ _ _ => exact hc

/-- What holds along the line holds of the class. -/
theorem holds (h : m.Rooted P c) : P c := by
  cases h with
  | root _ hP _ => exact hP
  | derived _ hP _ _ => exact hP

/-- What follows from what holds along the line holds along it. -/
theorem mono (h : m.Rooted P c) (hsub : ∀ c, P c → Q c) : m.Rooted Q c := by
  induction h with
  | root hc hP hroot => exact .root hc (hsub _ hP) hroot
  | derived hc hP hparent _ ih => exact .derived hc (hsub _ hP) hparent ih

/-- What holds for a hierarchy holds for the whole line. -/
theorem of_mem_line (hm : m.WellFormed) (h : m.Rooted P c) {d : BeanClass} (hd : d ∈ m.line c) :
    m.Rooted P d := by
  induction h with
  | @root c hc hP hroot =>
    rw [line_of_not_generated (by simp [hroot]), List.mem_singleton] at hd
    exact hd ▸ .root hc hP hroot
  | @derived c parent hc hP hparent hrest ih =>
    rw [hm.line_of_generated hc hparent, List.mem_cons] at hd
    rcases hd with rfl | hd
    · exact .derived hc hP hparent hrest
    · exact ih hd

private theorem length_line_le (hm : m.WellFormed) (h : m.Rooted P c) {d : BeanClass}
    (hd : d ∈ m.line c) : (m.line d).length ≤ (m.line c).length := by
  induction h with
  | @root c hc hP hroot =>
    rw [line_of_not_generated (by simp [hroot]), List.mem_singleton] at hd
    exact hd ▸ Nat.le_refl _
  | @derived c parent hc hP hparent hrest ih =>
    rw [hm.line_of_generated hc hparent, List.mem_cons] at hd
    rcases hd with rfl | hd
    · exact Nat.le_refl _
    · rw [hm.line_of_generated hc hparent, List.length_cons]
      exact Nat.le_succ_of_le (ih hd)

/-- No class is twice in a line: the lines of its superclasses are shorter than its own. -/
theorem nodup_line (hm : m.WellFormed) (h : m.Rooted P c) : (m.line c).Nodup := by
  induction h with
  | @root c hc hP hroot =>
    simp [line_of_not_generated (m := m) (c := c) (by simp [hroot])]
  | @derived c parent hc hP hparent hrest ih =>
    have hline := hm.line_of_generated hc hparent
    rw [hline]
    refine List.nodup_cons.mpr ⟨fun hmem => ?_, ih⟩
    have hle := hrest.length_line_le hm hmem
    rw [hline, List.length_cons] at hle
    exact Nat.not_succ_le_self _ hle

end Rooted

end CodeModel

/-! ## Lines of a grown model -/

namespace CodeModel.Grows

variable {settings : Settings} {options : List String} {m n : CodeModel} {c d : BeanClass}

private theorem names_eq (h : m.Grows settings options n) :
    n.classes.map (·.name) = m.classes.map (·.name) := by
  have hclasses := h.classes
  generalize m.classes = before, n.classes = after at hclasses
  induction hclasses with
  | nil => rfl
  | cons hcd _ ih => rw [List.map_cons, List.map_cons, hcd.name, ih]

private theorem endsWithin_eq (h : m.Grows settings options n) (hcd : c.Grows settings options d)
    (steps : Nat) : n.endsWithin steps d = m.endsWithin steps c := by
  induction steps generalizing c d with
  | zero =>
    unfold endsWithin
    cases hc : m.parentOf c with
    | root => rw [hcd.parentOf_eq_root n hc]
    | external parent => rw [h.parentOf_eq_external hcd hc]
    | generated parent =>
      obtain ⟨grown, hgrown, -⟩ := h.parentOf_eq_generated hcd hc
      rw [hgrown]
  | succ steps ih =>
    unfold endsWithin
    cases hc : m.parentOf c with
    | root => rw [hcd.parentOf_eq_root n hc]
    | external parent => rw [h.parentOf_eq_external hcd hc]
    | generated parent =>
      obtain ⟨grown, hgrown, hgrows⟩ := h.parentOf_eq_generated hcd hc
      rw [hgrown]
      exact ih hgrows

/-- A class after growth is a class of before, grown. -/
theorem exists_of_mem (h : m.Grows settings options n) (hd : d ∈ n.classes) :
    ∃ c ∈ m.classes, c.Grows settings options d :=
  exists_of_forall₂ h.classes hd

/-- A class of before is there after growth, grown. -/
theorem exists_of_mem_before (h : m.Grows settings options n) (hc : c ∈ m.classes) :
    ∃ d ∈ n.classes, c.Grows settings options d :=
  exists_of_forall₂ h.classes.flip hc

/-- Growth keeps a model well-formed. -/
theorem wellFormed (h : m.Grows settings options n) (hm : m.WellFormed) : n.WellFormed where
  names := by
    rw [h.names_eq]
    exact hm.names
  ends d hd := by
    obtain ⟨c, hc, hcd⟩ := h.exists_of_mem hd
    rw [h.endsWithin_eq hcd, ← h.classes.length_eq]
    exact hm.ends c hc

/-- A hierarchy stays one. -/
theorem rooted (h : m.Grows settings options n) {P Q : BeanClass → Prop}
    (hsub : ∀ c d, c ∈ m.classes → d ∈ n.classes → c.Grows settings options d → P c → Q d)
    (hc : m.Rooted P c) (hd : d ∈ n.classes) (hcd : c.Grows settings options d) :
    n.Rooted Q d := by
  induction hc generalizing d with
  | @root c hc hP hroot => exact .root hd (hsub c d hc hd hcd hP) (hcd.parentOf_eq_root n hroot)
  | @derived c parent hc hP hparent _ ih =>
    obtain ⟨grown, hgrown, hgrows⟩ := h.parentOf_eq_generated hcd hparent
    exact .derived hd (hsub c d hc hd hcd hP) hgrown (ih (mem_of_parentOf hgrown) hgrows)

/-- The line of a class grows class by class. -/
theorem line_rel (h : m.Grows settings options n) (hm : m.WellFormed) {P : BeanClass → Prop}
    (hc : m.Rooted P c) (hd : d ∈ n.classes) (hcd : c.Grows settings options d) :
    List.Forall₂ (BeanClass.Grows settings options) (m.line c) (n.line d) := by
  induction hc generalizing d with
  | @root c hc _ hroot =>
    rw [line_of_not_generated (by simp [hroot]),
      line_of_not_generated (by simp [hcd.parentOf_eq_root n hroot])]
    exact .cons hcd .nil
  | @derived c parent hc _ hparent _ ih =>
    obtain ⟨grown, hgrown, hgrows⟩ := h.parentOf_eq_generated hcd hparent
    rw [hm.line_of_generated hc hparent, (h.wellFormed hm).line_of_generated hd hgrown]
    exact .cons hcd (ih (mem_of_parentOf hgrown) hgrows)

end CodeModel.Grows

end BeanSynthesis
