import BeanSynthesis.Model.Basic
import BeanSynthesis.Proofs.Spelling.Table
import Mathlib.Tactic.ByContra

/-!
# What a spelled name denotes

A class name in the source of a class is looked up level by level: the class itself, the imports,
the types of its own package, `java.lang`. The spelling of a mentioned name leads back to it,
but for one case. A name of `java.lang` is shortened without an import, so a type of the
own package that has its simple name takes its place.
-/

namespace BeanSynthesis

/-- The types of the package of a class: those the model generates and those the class mentions. -/
def CodeModel.ownTypes (m : CodeModel) (c : BeanClass) : List String :=
  ((m.classes ++ m.objectFactories).map (·.name) ++ c.classNames).filter
    (packageName · == c.packageName)

/-- The class that a spelled name denotes in the source of a class of the model. The first level
that knows a simple name decides. -/
def CodeModel.denotes (m : CodeModel) (c : BeanClass) (spelling : String) : String :=
  if '.' ∈ spelling.toList then spelling
  else if spelling = c.simpleName then c.name
  else
    (((Source.NameTable.ofClass c).imports.find? (simpleName · == spelling)).or
      ((m.ownTypes c).find? (simpleName · == spelling))).getD ("java.lang." ++ spelling)

/-- A name of `java.lang` has the simple name of a type in the package of the class. -/
def CodeModel.Shadowed (m : CodeModel) (c : BeanClass) (name : String) : Prop :=
  packageName name = "java.lang" ∧ c.packageName ≠ "java.lang" ∧
    ∃ other ∈ m.ownTypes c, simpleName other = simpleName name

namespace CodeModel

open Source (NameTable)

variable {m : CodeModel} {c : BeanClass} {name : String}

private theorem mem_ownTypes_of_mem (hmem : name ∈ c.classNames)
    (h : packageName name = c.packageName) :
    name ∈ m.ownTypes c := by
  simp [ownTypes, hmem, h]

private theorem packageName_of_mem_ownTypes (h : name ∈ m.ownTypes c) :
    packageName name = c.packageName := by
  simpa using (List.mem_filter.1 h).2

/-- An import is found under its simple name. -/
theorem find?_imports_of_mem (h : name ∈ (NameTable.ofClass c).imports) :
    (NameTable.ofClass c).imports.find? (simpleName · == simpleName name) = some name := by
  obtain ⟨found, hfound⟩ := Option.isSome_iff_exists.1
    (List.find?_isSome.2 ⟨name, h, beq_self_eq_true _⟩ :
      ((NameTable.ofClass c).imports.find? (simpleName · == simpleName name)).isSome)
  have hsimple : simpleName found = simpleName name := by simpa using List.find?_some hfound
  have hsame : found = name :=
    NameTable.eq_of_mem_shortened (NameTable.mem_imports.1 (List.mem_of_find?_eq_some hfound)).1
      (NameTable.mem_imports.1 h).1 hsimple
  rw [hfound, hsame]

/-- A short name that is not imported shares its simple name with no import. -/
theorem find?_imports_of_not_mem (hshort : name ∈ (NameTable.ofClass c).shortened)
    (h : name ∉ (NameTable.ofClass c).imports) :
    (NameTable.ofClass c).imports.find? (simpleName · == simpleName name) = none := by
  refine List.find?_eq_none.2 fun other hother hsimple => h ?_
  have hsame : other = name :=
    NameTable.eq_of_mem_shortened (NameTable.mem_imports.1 hother).1 hshort (by simpa using hsimple)
  exact hsame ▸ hother

/-- In its own package a name is found under its simple name. -/
theorem find?_ownTypes_of_mem (h : name ∈ m.ownTypes c) (hpackage : packageName name ≠ "") :
    (m.ownTypes c).find? (simpleName · == simpleName name) = some name := by
  obtain ⟨found, hfound⟩ := Option.isSome_iff_exists.1
    (List.find?_isSome.2 ⟨name, h, beq_self_eq_true _⟩ :
      ((m.ownTypes c).find? (simpleName · == simpleName name)).isSome)
  have hsimple : simpleName found = simpleName name := by simpa using List.find?_some hfound
  have hown := packageName_of_mem_ownTypes (List.mem_of_find?_eq_some hfound)
  have hsame : name = found :=
    eq_of_packageName_of_simpleName hpackage ((packageName_of_mem_ownTypes h).trans hown.symm)
      hsimple.symm
  rw [hfound, hsame]

/-- A name in full denotes itself. -/
theorem denotes_of_packageName (h : packageName name ≠ "") : m.denotes c name = name :=
  if_pos (dot_mem_of_packageName h)

/-- The simple name of the class denotes the class. -/
theorem denotes_self : m.denotes c c.simpleName = c.name := by
  have hdot : '.' ∉ c.simpleName.toList := dot_not_mem_simpleName c.name
  rw [denotes, if_neg hdot, if_pos rfl]

/-- What a simple name of another class denotes. -/
theorem denotes_simpleName (h : simpleName name ≠ c.simpleName) :
    m.denotes c (simpleName name) =
      (((NameTable.ofClass c).imports.find? (simpleName · == simpleName name)).or
        ((m.ownTypes c).find? (simpleName · == simpleName name))).getD
          ("java.lang." ++ simpleName name) := by
  rw [denotes, if_neg (dot_not_mem_simpleName _), if_neg h]

/-- A short name of `java.lang` denotes the class it stands for unless the package of the class
has a type of that simple name. -/
theorem denotes_lang_iff (hshort : name ∈ (NameTable.ofClass c).shortened)
    (hlang : packageName name = "java.lang") (hother : c.packageName ≠ "java.lang")
    (hne : simpleName name ≠ c.simpleName) :
    m.denotes c (simpleName name) = name ↔
      ¬ ∃ other ∈ m.ownTypes c, simpleName other = simpleName name := by
  have himport : name ∉ (NameTable.ofClass c).imports := fun hmem =>
    (NameTable.mem_imports.1 hmem).2.2.2.1 hlang
  rw [denotes_simpleName hne, find?_imports_of_not_mem hshort himport, Option.none_or]
  cases hown : (m.ownTypes c).find? (simpleName · == simpleName name) with
  | none =>
    have hname : name = "java.lang." ++ simpleName name := by
      have hparts : name = packageName name ++ "." ++ simpleName name :=
        eq_packageName_append (by simp [hlang])
      rwa [hlang] at hparts
    have habsent : ¬ ∃ other ∈ m.ownTypes c, simpleName other = simpleName name := by
      rintro ⟨other, hmem, hsimple⟩
      simpa [hsimple] using List.find?_eq_none.1 hown other hmem
    simpa [habsent] using hname.symm
  | some found =>
    have hmem := List.mem_of_find?_eq_some hown
    have hsimple : simpleName found = simpleName name := by simpa using List.find?_some hown
    have hdiffer : found ≠ name := by
      rintro rfl
      exact hother (packageName_of_mem_ownTypes hmem ▸ hlang)
    have hpresent : ∃ other ∈ m.ownTypes c, simpleName other = simpleName name :=
      ⟨found, hmem, hsimple⟩
    simp [hdiffer, hpresent]

/-- A short name outside `java.lang` denotes the class it stands for. -/
theorem denotes_of_mem_shortened (hshort : name ∈ (NameTable.ofClass c).shortened)
    (hpackage : packageName name ≠ "") (hlang : packageName name = "java.lang" →
      c.packageName = "java.lang") (hne : simpleName name ≠ c.simpleName) :
    m.denotes c (simpleName name) = name := by
  rw [denotes_simpleName hne]
  by_cases himport : name ∈ (NameTable.ofClass c).imports
  · rw [find?_imports_of_mem himport, Option.some_or, Option.getD_some]
  · have hself : name ≠ c.name := fun h => hne (h ▸ rfl)
    have hmem : name ∈ c.classNames := by
      simpa using (NameTable.mem_shortened_ofNames.1 hshort).1
    -- What is short, has a package and is not imported comes from the class's own package.
    have hown : packageName name = c.packageName := by
      by_contra hforeign
      refine himport (NameTable.mem_imports.2 ⟨hshort, hself, hpackage, fun h => ?_, hforeign⟩)
      exact hforeign (h.trans (hlang h).symm)
    rw [find?_imports_of_not_mem hshort himport, Option.none_or,
      find?_ownTypes_of_mem (mem_ownTypes_of_mem hmem hown) hpackage, Option.getD_some]

/-- The spelling of a name with a package denotes that name, but for a name of `java.lang` that is
spelled short in a package with a type of its simple name. -/
theorem denotes_spell_iff (m : CodeModel) (c : BeanClass) (name : String)
    (h : packageName name ≠ "") :
    m.denotes c ((NameTable.ofClass c).spell name) = name ↔
      ¬ ((NameTable.ofClass c).spell name = simpleName name ∧ m.Shadowed c name) := by
  by_cases hshort : name ∈ (NameTable.ofClass c).shortened
  · have hspell := (NameTable.spell_eq_simpleName_iff h).2 hshort
    rw [hspell]
    simp only [true_and]
    by_cases hself : name = c.name
    · subst hself
      have hnot : ¬ m.Shadowed c c.name := fun hshadowed => hshadowed.2.1 hshadowed.1
      have hdenotes : m.denotes c (simpleName c.name) = c.name := denotes_self
      simp [hnot, hdenotes]
    have hne : simpleName name ≠ c.simpleName :=
      ((NameTable.mem_shortened_ofNames.1 hshort).2.resolve_left hself).1
    by_cases hlang : packageName name = "java.lang" ∧ c.packageName ≠ "java.lang"
    · rw [denotes_lang_iff hshort hlang.1 hlang.2 hne]
      simp [Shadowed, hlang]
    · have hnot : ¬ m.Shadowed c name := fun hshadowed => hlang ⟨hshadowed.1, hshadowed.2.1⟩
      have hdenotes : m.denotes c (simpleName name) = name :=
        denotes_of_mem_shortened hshort h (fun heq => by simpa [heq] using hlang) hne
      simp [hnot, hdenotes]
  · have hspell : (NameTable.ofClass c).spell name = name := if_neg hshort
    rw [hspell, denotes_of_packageName h]
    simp [(simpleName_ne_of_packageName h).symm]

/-- A class with a field of `java.lang.String` and one of a type of its own package. -/
def labelledOrder : BeanClass :=
  { name := "shop.Order"
    fields := [{ name := "note", type := .ofName "java.lang.String" },
      { name := "label", type := .ofName "shop.String" }] }

/-- The model of the class and the type of its package. -/
def labelledOrders : CodeModel := { classes := [labelledOrder, { name := "shop.String" }] }

/-- The type of the first field reads as the type of the package. -/
theorem labelledOrder_note_misread : packageName "java.lang.String" ≠ "" ∧
    labelledOrders.denotes labelledOrder
      ((NameTable.ofClass labelledOrder).spell "java.lang.String") ≠ "java.lang.String" := by
  have hpackage : packageName "java.lang.String" ≠ "" := by decide
  have hspell : (NameTable.ofClass labelledOrder).spell "java.lang.String" =
      simpleName "java.lang.String" := by decide +kernel
  have hshadowed : labelledOrders.Shadowed labelledOrder "java.lang.String" :=
    ⟨by decide, by decide, "shop.String", by decide +kernel, by decide⟩
  refine ⟨hpackage, fun hdenotes => ?_⟩
  exact (denotes_spell_iff labelledOrders labelledOrder _ hpackage).1 hdenotes ⟨hspell, hshadowed⟩

end CodeModel

end BeanSynthesis
