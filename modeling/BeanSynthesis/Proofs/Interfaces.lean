import Mathlib.Logic.Relation
import BeanSynthesis.Proofs.Edits.Treatment
import BeanSynthesis.Proofs.Problems
import BeanSynthesis.Proofs.Validation

/-!
# Interfaces that every class has

The settings name interfaces. A class on top of its hierarchy lists them after the pass, and the
classes below inherit them from it, so that no class is without one. The chain of superclasses of a
class ends in a valid model, which is why there is a class on top. Enumerations list the interfaces
themselves, whatever stands above them.
-/

namespace BeanSynthesis

namespace CodeModel

variable {m : CodeModel} {c : BeanClass} {k : Nat}

/-- A class has this class of the model as its superclass. -/
def Extends (m : CodeModel) (c parent : BeanClass) : Prop := m.parentOf c = .generated parent

/-- A class, or a class that it inherits from. -/
abbrev Inherits (m : CodeModel) (c d : BeanClass) : Prop := Relation.ReflTransGen m.Extends c d

private theorem mem_of_inherits (hc : c ∈ m.classes) {d : BeanClass} (h : m.Inherits c d) :
    d ∈ m.classes := by
  induction h with
  | refl => exact hc
  | tail _ hparent _ => exact mem_of_parentOf hparent

/-- Superclasses that end have a topmost one. -/
theorem EndsAfter.exists_top (h : m.EndsAfter k c) :
    ∃ top, m.Inherits c top ∧ ∀ parent, ¬m.Extends top parent := by
  induction h with
  | @root c hroot => exact ⟨c, .refl, fun parent h => by simp [Extends, hroot] at h⟩
  | @external c _ hexternal => exact ⟨c, .refl, fun parent h => by simp [Extends, hexternal] at h⟩
  | generated hparent _ ih =>
    obtain ⟨top, hinherits, htop⟩ := ih
    exact ⟨top, .head hparent hinherits, htop⟩

end CodeModel

namespace Interfaces

variable {settings : Settings} {context : PassContext} {m : CodeModel} {b c d : BeanClass}
  {name : String}

/-! ## Configured interfaces -/

/-- What stands between the names of an entry. -/
def isSeparator (ch : Char) : Bool := ch = ',' || ch = ';'

/-- The interface is named by an entry of the settings, alone or between separators. White space
around it does not belong to it. -/
def Configured (settings : Settings) (name : String) : Prop :=
  name ≠ "" ∧ ∃ entry ∈ settings.implements, ∃ part ∈ entry.toList.splitOnP isSeparator,
    name = String.ofList (Text.trimChars part)

private theorem parts_eq (entry : List Char) : parts entry = entry.splitOnP isSeparator := by
  induction entry with
  | nil => rfl
  | cons ch rest ih =>
    rw [parts, ih, List.splitOnP_cons_eq_if_modifyHead]
    cases hrest : rest.splitOnP isSeparator with
    | nil => exact absurd hrest (List.splitOnP_ne_nil isSeparator rest)
    | cons part others =>
      by_cases hch : ch = ',' ∨ ch = ';'
      · simp [isSeparator, hch]
      · simp [isSeparator, hch]

private theorem mem_distinct {names : List String} : name ∈ distinct names ↔ name ∈ names := by
  have hfold : ∀ seen : List String, name ∈ names.foldl
      (fun seen name => if name ∈ seen then seen else seen ++ [name]) seen ↔
        name ∈ seen ∨ name ∈ names := by
    induction names with
    | nil => simp
    | cons first rest ih =>
      intro seen
      rw [List.foldl_cons, ih, List.mem_cons]
      split
      case isTrue hseen =>
        constructor
        · exact Or.imp_right .inr
        · rintro (h | rfl | h)
          · exact .inl h
          · exact .inl hseen
          · exact .inr h
      case isFalse => rw [List.mem_append, List.mem_singleton, or_assoc]
  simpa [distinct] using hfold []

/-- The pass adds the configured interfaces. -/
theorem mem_interfaceNames :
    name ∈ interfaceNames settings.implements ↔ Configured settings name := by
  simp only [interfaceNames, mem_distinct, List.mem_filter, List.mem_flatMap, List.mem_map,
    decide_eq_true_eq, parts_eq, Configured, eq_comm (a := name), and_comm]

/-! ## What a class lists -/

/-- How often a class lists an interface. -/
def listings (c : BeanClass) (name : String) : Nat := (c.interfaces.map ClassRef.name).count name

/-- A class with the interfaces that the pass has it list. -/
def listed (settings : Settings) (m : CodeModel) (c : BeanClass) : BeanClass :=
  { c with interfaces := editInterfaces settings m c c.interfaces }

private theorem isTarget_eq_false_iff :
    isTarget m c = false ↔ ¬c.isEnum ∧ ∃ parent, m.Extends c parent := by
  unfold isTarget CodeModel.Extends
  cases m.parentOf c <;> simp

private theorem implements_iff : c.implements name ↔ name ∈ c.interfaces.map ClassRef.name := by
  simp [BeanClass.implements]

/-- A class that lists interfaces itself lists all that are configured. -/
theorem implements_listed (hconfigured : Configured settings name) (htarget : isTarget m c)
    (hserial : c.isEnum → name ≠ serializable) : (listed settings m c).implements name := by
  have hlistable :
      ClassRef.ofName name ∈ listable c.isEnum (interfaceNames settings.implements) := by
    refine List.mem_map_of_mem (List.mem_filter.mpr ⟨mem_interfaceNames.mpr hconfigured, ?_⟩)
    by_cases henum : c.isEnum
    · simp [henum, hserial henum]
    · simp [henum]
  have hkey : (ClassRef.ofName name).name ∈ c.interfaces.map ClassRef.name ∨
      (ClassRef.ofName name).name ∈ (newInterfaces c.interfaces
        (listable c.isEnum (interfaceNames settings.implements))).map ClassRef.name :=
    key_mem_of_mem hlistable
  rw [implements_iff, listed]
  dsimp only
  rw [editInterfaces, if_pos htarget, List.map_append, List.mem_append]
  exact hkey

/-- An interface that is listed is not listed again. -/
theorem listings_listed_le (settings : Settings) (m : CodeModel) (c : BeanClass) (name : String) :
    listings (listed settings m c) name ≤ max 1 (listings c name) := by
  unfold listings listed editInterfaces
  dsimp only
  split
  case isFalse => exact Nat.le_max_right _ _
  case isTrue =>
    rw [List.map_append, List.count_append]
    by_cases hold : name ∈ c.interfaces.map ClassRef.name
    · have hnone : name ∉ (newInterfaces c.interfaces
          (listable c.isEnum (interfaceNames settings.implements))).map ClassRef.name := by
        intro hmem
        obtain ⟨x, hx, rfl⟩ := List.mem_map.mp hmem
        exact not_mem_of_mem_newcomers hx hold
      rw [List.count_eq_zero_of_not_mem hnone, Nat.add_zero]
      exact Nat.le_max_right _ _
    · rw [List.count_eq_zero_of_not_mem hold, Nat.zero_add]
      exact Nat.le_trans (List.nodup_iff_count_le_one.mp nodup_map_newcomers name)
        (Nat.le_max_left _ _)

/-! ## Runs -/

/-- What the pass does to a class: it adds interfaces, none to a class that inherits them, and none
that is listed already. -/
structure Listing (m : CodeModel) (c d : BeanClass) : Prop where
  rest : d = { c with interfaces := d.interfaces }
  derived : ¬c.isEnum → (∃ parent, m.Extends c parent) → d.interfaces = c.interfaces
  once : ∀ name, listings d name ≤ max 1 (listings c name)

/-- What the pass does to a model: all plain hierarchies and all enumerations have the
interfaces that are configured. -/
structure Reached (settings : Settings) (before after : CodeModel) : Prop where
  /-- A class has every interface, itself or from a class that it inherits from. -/
  inherited : ∀ name, Configured settings name → ∀ c ∈ after.classes,
    (∀ d, after.Inherits c d → ¬d.isEnum) → ∃ d, after.Inherits c d ∧ d.implements name
  enums : ∀ name, Configured settings name → name ≠ "java.io.Serializable" →
    ∀ c ∈ after.classes, c.isEnum → c.implements name
  classes : List.Forall₂ (Listing before) before.classes after.classes

private theorem listed_listing (settings : Settings) (m : CodeModel) (c : BeanClass) :
    Listing m c (listed settings m c) where
  rest := rfl
  derived hplain hparent := by
    have htarget := isTarget_eq_false_iff.mpr ⟨hplain, hparent⟩
    simp [listed, editInterfaces, htarget]
  once := listings_listed_le settings m c

/-- The run of the pass succeeds and treats every class. -/
theorem run_listed (hname : Configured context.settings name) (m : CodeModel) :
    (∃ report, (run context m).outcome = .ok report) ∧
      (run context m).model = { m with classes := m.classes.map (listed context.settings m) } := by
  have hsome : interfaceNames context.settings.implements ≠ [] :=
    List.ne_nil_of_mem (mem_interfaceNames.mpr hname)
  obtain ⟨tally, hok⟩ := sweep_succeeds
    (succeeds_onClass (m := m) (interfaceNames context.settings.implements)) m.classes
  have hclasses := (onClass_makes.sweep hok).1
  refine ⟨succeeds_run hsome, ?_⟩
  rw [run, if_neg (by simpa using hsome)]
  simp only [PassRun.ofSweep, hclasses]
  rfl

/-- Every class of a valid model has the configured interfaces after the pass: a plain hierarchy has
all of them from its topmost class, and an enumeration all but the one that it need not list. No
class with a superclass in the model gains an interface, enumerations aside, and none lists an
interface again. -/
theorem run_reaches (hvalid : m.validate = .ok ())
    (hsome : ∃ name, Configured context.settings name) :
    (∃ report, (run context m).outcome = .ok report) ∧
      Reached context.settings m (run context m).model := by
  obtain ⟨name, hname⟩ := hsome
  obtain ⟨hok, hmodel⟩ := run_listed hname m
  have hgrows := run_grows context m
  have hwell := hgrows.wellFormed (CodeModel.wellFormed_of_validate hvalid)
  refine ⟨hok, ?_, ?_, ?_⟩
  · intro name hconfigured c hc hplain
    obtain ⟨k, hends⟩ := CodeModel.ends_of_endsWithin (hwell.ends c hc)
    obtain ⟨top, hinherits, htop⟩ := hends.exists_top
    have hmem := CodeModel.mem_of_inherits hc hinherits
    simp only [hmodel, List.mem_map] at hmem
    obtain ⟨b, hb, rfl⟩ := hmem
    have hplain' : ¬(listed context.settings m b).isEnum := hplain _ hinherits
    have htarget : isTarget m b := by
      have hclasses := hgrows.classes
      rw [hmodel, List.forall₂_map_right_iff, List.forall₂_same] at hclasses
      rw [← Bool.not_eq_false, isTarget_eq_false_iff]
      rintro ⟨-, parent, hparent⟩
      obtain ⟨grown, hgrown, -⟩ := hgrows.parentOf_eq_generated (hclasses b hb) hparent
      exact htop grown hgrown
    exact ⟨_, hinherits, implements_listed hconfigured htarget (absurd · hplain')⟩
  · intro name hconfigured hserial c hc henum
    simp only [hmodel, List.mem_map] at hc
    obtain ⟨b, -, rfl⟩ := hc
    have hbenum : b.isEnum := henum
    exact implements_listed hconfigured (by simp [isTarget, hbenum]) fun _ => hserial
  · rw [hmodel, List.forall₂_map_right_iff]
    exact forall₂_refl_of (R := fun c d => Listing m c (listed context.settings m d))
      (listed_listing context.settings m) m.classes

/-- A class below one from outside. -/
def shade : BeanClass := { name := "shop.Shade", parent := some (.ofName "lib.Shade") }

/-- An enumeration with a superclass. -/
def color : BeanClass :=
  { name := "shop.Color", kind := .enumeration, parent := some (.ofName "shop.Shade")
    constants := ["RED"] }

/-- A plain class and an enumeration below the same class. -/
def shades : CodeModel :=
  { classes := [shade, { name := "shop.Tint", parent := some (.ofName "shop.Shade") }, color] }

/-- Both interfaces reach every class of the model, its enumeration included. -/
theorem shades_reached :
    let context : PassContext :=
      { settings := { implements := ["java.io.Serializable; shop.Marker"] }, active := [] }
    shades.validate = .ok () ∧ Configured context.settings "shop.Marker" ∧
      Reached context.settings shades (run context shades).model := by
  intro context
  have hvalid : shades.validate = .ok () := by decide +kernel
  have hname : Configured context.settings "shop.Marker" :=
    mem_interfaceNames.mp (by decide +kernel)
  exact ⟨hvalid, hname, (run_reaches hvalid ⟨_, hname⟩).2⟩

/-- The enumeration has a superclass in the model and gains an interface all the same. -/
theorem color_gains_interface :
    let context : PassContext := { settings := { implements := ["shop.Marker"] }, active := [] }
    shades.validate = .ok () ∧ (∃ name, Configured context.settings name) ∧
      ¬List.Forall₂ (fun c d => (∃ parent, shades.Extends c parent) → d.interfaces = c.interfaces)
        shades.classes (run context shades).model.classes := by
  intro context
  have hvalid : shades.validate = .ok () := by decide +kernel
  have hname : Configured context.settings "shop.Marker" :=
    mem_interfaceNames.mp (by decide +kernel)
  refine ⟨hvalid, ⟨_, hname⟩, fun hnone => ?_⟩
  rw [(run_listed hname shades).2, List.forall₂_map_right_iff, List.forall₂_same] at hnone
  have hsame := hnone color (by simp [shades]) ⟨shade, rfl⟩
  have hgains : (listed context.settings shades color).interfaces ≠ color.interfaces := by
    decide +kernel
  exact hgains hsame

end Interfaces

end BeanSynthesis
