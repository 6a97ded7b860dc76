/-!
# Dictionaries

A finite map from names to values. The entries are kept in increasing order of their names, so a
dictionary has one form only and is written in that order.
-/

namespace BeanSynthesis

/-- Every name comes before all later ones. -/
def NamesIncrease {α : Type} (entries : List (String × α)) : Prop :=
  entries.Pairwise fun a b => a.1 < b.1

/-- A finite map from names to values, in increasing order of names. -/
structure Dict (α : Type) where
  entries : List (String × α)
  increasing : NamesIncrease entries

namespace Dict

variable {α : Type}

/-- Puts an entry in its place, replacing an entry of the same name. -/
def insertEntry (name : String) (value : α) : List (String × α) → List (String × α)
  | [] => [(name, value)]
  | entry :: rest =>
    if name < entry.1 then (name, value) :: entry :: rest
    else if entry.1 < name then entry :: insertEntry name value rest
    else (name, value) :: rest

/-- An entry after an insertion is the inserted one or one of before. -/
theorem mem_insertEntry {name : String} {value : α} {entries : List (String × α)}
    {entry : String × α} (h : entry ∈ insertEntry name value entries) :
    entry = (name, value) ∨ entry ∈ entries := by
  induction entries with
  | nil => simpa [insertEntry] using h
  | cons first rest ih =>
    unfold insertEntry at h
    split at h
    · simpa using h
    · split at h
      · rcases List.mem_cons.1 h with h | h
        · simp [h]
        · rcases ih h with h | h <;> simp [h]
      · rcases List.mem_cons.1 h with h | h <;> simp [h]

private theorem insertEntry_increasing (name : String) (value : α) {entries : List (String × α)}
    (h : NamesIncrease entries) : NamesIncrease (insertEntry name value entries) := by
  induction entries with
  | nil => simp [insertEntry, NamesIncrease]
  | cons first rest ih =>
    have ⟨hfirst, hrest⟩ := List.pairwise_cons.1 h
    unfold insertEntry
    split
    case isTrue hlt =>
      refine List.pairwise_cons.2 ⟨fun entry hmem => ?_, h⟩
      rcases List.mem_cons.1 hmem with rfl | hmem
      · exact hlt
      · exact String.lt_trans hlt (hfirst entry hmem)
    case isFalse hge =>
      split
      case isTrue hlt =>
        refine List.pairwise_cons.2 ⟨fun entry hmem => ?_, ih hrest⟩
        rcases mem_insertEntry hmem with rfl | hmem
        · exact hlt
        · exact hfirst entry hmem
      case isFalse hle =>
        have heq : first.1 = name := String.le_antisymm hge hle
        refine List.pairwise_cons.2 ⟨fun entry hmem => ?_, hrest⟩
        exact heq ▸ hfirst entry hmem

/-- The dictionary without entries. -/
def empty : Dict α := ⟨[], List.Pairwise.nil⟩

instance : Inhabited (Dict α) := ⟨empty⟩

instance : EmptyCollection (Dict α) := ⟨empty⟩

/-- Adds an entry, replacing one of the same name. -/
def insert (d : Dict α) (name : String) (value : α) : Dict α :=
  ⟨insertEntry name value d.entries, insertEntry_increasing name value d.increasing⟩

/-- The value under a name. -/
def get? (d : Dict α) (name : String) : Option α :=
  (d.entries.find? (·.1 == name)).map (·.2)

@[simp] private theorem get?_empty (name : String) : (∅ : Dict α).get? name = none := rfl

private theorem find?_insertEntry (name other : String) (value : α) (entries : List (String × α)) :
    ((insertEntry name value entries).find? (·.1 == other)).map (·.2) =
      if other = name then some value else (entries.find? (·.1 == other)).map (·.2) := by
  induction entries with
  | nil =>
    by_cases h : other = name
    · simp [insertEntry, h]
    · simp [insertEntry, h, Ne.symm h]
  | cons first rest ih =>
    unfold insertEntry
    split
    case isTrue hlt =>
      by_cases h : other = name
      · simp [h]
      · simp [List.find?_cons, h, Ne.symm h]
    case isFalse hge =>
      split
      case isTrue hlt =>
        by_cases h : first.1 = other
        · have hne : other ≠ name := by
            rintro rfl
            exact String.lt_irrefl _ (h ▸ hlt)
          simp [h, hne]
        · simpa [List.find?_cons, h] using ih
      case isFalse hle =>
        have heq : first.1 = name := String.le_antisymm hge hle
        by_cases h : other = name
        · simp [h]
        · simp [h, heq, Ne.symm h]

/-- A dictionary finds under a name what was inserted there last. -/
theorem get?_insert (d : Dict α) (name other : String) (value : α) :
    (d.insert name value).get? other = if other = name then some value else d.get? other :=
  find?_insertEntry name other value d.entries

/-- In increasing order every name stands once, so a name finds exactly its entry. -/
theorem find?_eq_some_iff_mem {entries : List (String × α)} (h : NamesIncrease entries)
    {name : String} {value : α} :
    (entries.find? (·.1 == name)).map (·.2) = some value ↔ (name, value) ∈ entries := by
  induction entries with
  | nil => simp
  | cons first rest ih =>
    obtain ⟨hfirst, hrest⟩ := List.pairwise_cons.1 h
    by_cases heq : first.1 = name
    · have habsent : (name, value) ∉ rest := fun hmem =>
        String.lt_irrefl _ (heq ▸ hfirst _ hmem)
      simp [heq, habsent, Prod.ext_iff, eq_comm]
    · have hne : (name, value) ≠ first := fun h => heq (h ▸ rfl)
      simpa [List.find?_cons, heq, hne] using ih hrest

/-- Lists in increasing order that hold the same entries are equal. -/
theorem eq_of_mem_iff {left right : List (String × α)} (hleft : NamesIncrease left)
    (hright : NamesIncrease right) (h : ∀ entry, entry ∈ left ↔ entry ∈ right) : left = right := by
  induction left generalizing right with
  | nil =>
    cases right with
    | nil => rfl
    | cons first rest => simpa using h first
  | cons first rest ih =>
    cases right with
    | nil => simpa using h first
    | cons other others =>
      obtain ⟨hfirst, hrest⟩ := List.pairwise_cons.1 hleft
      obtain ⟨hother, hothers⟩ := List.pairwise_cons.1 hright
      have hsame : first = other := by
        rcases List.mem_cons.1 ((h first).1 List.mem_cons_self) with heq | hmem
        · exact heq
        · rcases List.mem_cons.1 ((h other).2 List.mem_cons_self) with heq | hmem'
          · exact heq.symm
          · exact absurd (hfirst _ hmem') (String.lt_asymm (hother _ hmem))
      subst hsame
      have htails : ∀ entry, entry ∈ rest ↔ entry ∈ others := fun entry => by
        have hiff := h entry
        simp only [List.mem_cons] at hiff
        constructor
        · intro hmem
          rcases hiff.1 (.inr hmem) with rfl | hmem'
          · exact absurd (hfirst _ hmem) (String.lt_irrefl _)
          · exact hmem'
        · intro hmem
          rcases hiff.2 (.inr hmem) with rfl | hmem'
          · exact absurd (hother _ hmem) (String.lt_irrefl _)
          · exact hmem'
      rw [ih hrest hothers htails]

/-- A dictionary is known by what it finds. -/
@[ext] theorem ext {d e : Dict α} (h : ∀ name, d.get? name = e.get? name) : d = e := by
  have hmem : d.entries = e.entries :=
    eq_of_mem_iff d.increasing e.increasing fun (name, value) => by
      rw [← find?_eq_some_iff_mem d.increasing, ← find?_eq_some_iff_mem e.increasing]
      exact ⟨fun hd => (h name).symm.trans hd, fun he => (h name).trans he⟩
  cases d
  cases e
  cases hmem
  rfl

/-- A dictionary of the given entries, where a later entry replaces an earlier one of its name. -/
def ofList (entries : List (String × α)) : Dict α :=
  entries.foldl (fun d entry => d.insert entry.1 entry.2) empty

/-- The names of a dictionary, in its order. -/
def names (d : Dict α) : List String := d.entries.map (·.1)

/-- No name stands in a dictionary twice. -/
theorem nodup_names (d : Dict α) : d.names.Nodup := by
  refine List.pairwise_map.mpr (d.increasing.imp fun {a b} hlt heq => ?_)
  exact String.lt_irrefl _ (heq ▸ hlt)

/-- The names of a dictionary are those that find something. -/
theorem mem_names {d : Dict α} {name : String} : name ∈ d.names ↔ (d.get? name).isSome := by
  simp only [names, get?, Option.isSome_map, List.find?_isSome, List.mem_map, beq_iff_eq]

/-- The number of names. -/
def size (d : Dict α) : Nat := d.entries.length

/-- There are as many names as entries. -/
@[simp] theorem length_names (d : Dict α) : d.names.length = d.size := List.length_map _

/-- Whether there is no entry. -/
def isEmpty (d : Dict α) : Bool := d.entries.isEmpty

end Dict

end BeanSynthesis
