import BeanSynthesis.Source.Names

/-!
# Short names

Facts about the names of a compilation unit. A name with a package is its package, a dot and its
simple name; the table of a unit shortens at most one name of every simple name, and short names
of other packages are the imports.
-/

namespace BeanSynthesis

/-- What is left behind the characters before a separator is nothing, or begins with it. -/
theorem dropWhile_ne_cases (separator : Char) (chars : List Char) :
    chars.dropWhile (· ≠ separator) = [] ∨
      ∃ rest, chars.dropWhile (· ≠ separator) = separator :: rest := by
  cases hleft : chars.dropWhile (· ≠ separator) with
  | nil => exact .inl rfl
  | cons first rest =>
    have hhead := List.head?_dropWhile_not (· ≠ separator) chars
    rw [hleft] at hhead
    obtain rfl : first = separator := by simpa using hhead
    exact .inr ⟨rest, rfl⟩

/-- There is no dot in a simple name. -/
theorem dot_not_mem_simpleName (name : String) : '.' ∉ (simpleName name).toList := by
  intro hmem
  have hmem' : '.' ∈ name.toList.reverse.takeWhile (· ≠ '.') := by simpa [simpleName] using hmem
  simpa using List.all_eq_true.1 List.all_takeWhile _ hmem'

/-- A name is a simple name, or its package, a dot and its simple name. -/
theorem simple_or_dotted (name : String) :
    packageName name = "" ∧ simpleName name = name ∨
      name.toList = (packageName name).toList ++ '.' :: (simpleName name).toList := by
  have hsimple : (simpleName name).toList.reverse = name.toList.reverse.takeWhile (· ≠ '.') := by
    simp [simpleName]
  have hpackage : (packageName name).toList =
      ((name.toList.reverse.dropWhile (· ≠ '.')).drop 1).reverse := by simp [packageName]
  have hname : (simpleName name).toList.reverse ++ name.toList.reverse.dropWhile (· ≠ '.') =
      name.toList.reverse := by rw [hsimple, List.takeWhile_append_dropWhile]
  rcases dropWhile_ne_cases '.' name.toList.reverse with hnone | ⟨rest, hrest⟩
  · rw [hnone, List.append_nil, List.reverse_inj] at hname
    rw [hnone] at hpackage
    exact .inl ⟨String.toList_injective hpackage, String.toList_injective hname⟩
  · rw [hrest] at hpackage hname
    right
    rw [hpackage, ← List.reverse_inj, ← hname]
    simp

/-- A name with a package is its package, a dot and its simple name. -/
theorem eq_packageName_append {name : String} (h : packageName name ≠ "") :
    name = packageName name ++ "." ++ simpleName name := by
  rcases simple_or_dotted name with ⟨hnone, -⟩ | hdotted
  · exact absurd hnone h
  · exact String.toList_injective (by simpa using hdotted)

/-- A name in a package has a dot. -/
theorem dot_mem_of_packageName {name : String} (h : packageName name ≠ "") :
    '.' ∈ name.toList := by
  rw [eq_packageName_append h]
  simp

/-- A name in a package is not its own simple name. -/
theorem simpleName_ne_of_packageName {name : String} (h : packageName name ≠ "") :
    simpleName name ≠ name := by
  intro heq
  have hdot := dot_not_mem_simpleName name
  rw [heq] at hdot
  exact hdot (dot_mem_of_packageName h)

/-- Package and simple name make up the whole name. -/
theorem eq_of_packageName_of_simpleName {a b : String} (h : packageName a ≠ "")
    (hpackage : packageName a = packageName b) (hsimple : simpleName a = simpleName b) : a = b := by
  have hb : packageName b ≠ "" := hpackage ▸ h
  calc
    a = packageName a ++ "." ++ simpleName a := eq_packageName_append h
    _ = packageName b ++ "." ++ simpleName b := by rw [hpackage, hsimple]
    _ = b := (eq_packageName_append hb).symm

namespace Dict

variable {α : Type}

/-- A dictionary of entries finds their names. -/
theorem isSome_get?_ofList {entries : List (String × α)} {name : String} :
    ((ofList entries).get? name).isSome ↔ name ∈ entries.map (·.1) := by
  suffices hgeneral : ∀ d : Dict α,
      ((entries.foldl (fun d entry => d.insert entry.1 entry.2) d).get? name).isSome ↔
        (d.get? name).isSome ∨ name ∈ entries.map (·.1) by
    simpa [ofList, get?, empty] using hgeneral empty
  intro d
  induction entries generalizing d with
  | nil => simp
  | cons entry rest ih =>
    rw [List.foldl_cons, ih, get?_insert, List.map_cons, List.mem_cons]
    split
    case isTrue heq => simp [heq]
    case isFalse hne => simp [hne]

end Dict

namespace Source

/-- The sorted names are the names. -/
@[simp] theorem mem_sortedNames {names : List String} {name : String} :
    name ∈ sortedNames names ↔ name ∈ names := by
  rw [sortedNames, Dict.mem_names, Dict.isSome_get?_ofList]
  simp

namespace NameTable

/-- Names of one simple name that are both the first with it are the same. -/
theorem eq_of_isFirst {used : List String} {a b : String} (ha : isFirst used a)
    (hb : isFirst used b) (hsimple : simpleName a = simpleName b) : a = b := by
  simp only [isFirst, beq_iff_eq] at ha hb
  rw [hsimple, hb] at ha
  exact (Option.some.inj ha).symm

/-- A name is shortened if it is the own one, or the first of its simple name and that is not the
own one. -/
theorem mem_shortened_ofNames {self : String} {used : List String} {name : String} :
    name ∈ (ofNames self used).shortened ↔
      name ∈ used ∧ (name = self ∨ simpleName name ≠ simpleName self ∧ isFirst used name) := by
  simp [ofNames]

/-- Two short names have different simple names. -/
theorem eq_of_mem_shortened {self : String} {used : List String} {a b : String}
    (ha : a ∈ (ofNames self used).shortened) (hb : b ∈ (ofNames self used).shortened)
    (hsimple : simpleName a = simpleName b) : a = b := by
  obtain ⟨-, rfl | ⟨hne, hfirst⟩⟩ := mem_shortened_ofNames.1 ha <;>
    obtain ⟨-, rfl | ⟨hne', hfirst'⟩⟩ := mem_shortened_ofNames.1 hb
  · rfl
  · exact absurd hsimple.symm hne'
  · exact absurd hsimple hne
  · exact eq_of_isFirst hfirst hfirst' hsimple

/-- A name in a package is spelled short if and only if it is one of those that are shortened. -/
theorem spell_eq_simpleName_iff {table : NameTable} {name : String} (h : packageName name ≠ "") :
    table.spell name = simpleName name ↔ name ∈ table.shortened := by
  rw [spell]
  split
  case isTrue hmem => simp [hmem]
  case isFalse hnot => simpa [hnot] using (simpleName_ne_of_packageName h).symm

/-- What is imported is shortened, and neither the own class nor from a package of which no import
is needed. -/
theorem mem_imports {table : NameTable} {name : String} :
    name ∈ table.imports ↔ name ∈ table.shortened ∧ name ≠ table.self ∧ packageName name ≠ "" ∧
      packageName name ≠ "java.lang" ∧ packageName name ≠ packageName table.self := by
  simp [imports, needsImport, and_assoc]

end NameTable

end Source

end BeanSynthesis
