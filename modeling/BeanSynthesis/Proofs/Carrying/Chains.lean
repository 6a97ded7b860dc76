import Mathlib.Data.List.Chain
import Mathlib.Data.List.Nodup
import Mathlib.Data.List.Perm.Subperm
import BeanSynthesis.Proofs.Inheritance
import BeanSynthesis.Synthesis.Lineage

/-!
# Chains of superclasses

The superclasses of a class are followed by name, through generated and external classes alike. An
accepted model can still hold a chain that returns to where it was, because the superclasses of
external classes are not looked at. A chain ends with the first name that is not known, has no
superclass, or stands in the chain already.
-/

namespace BeanSynthesis

namespace CodeModel

variable {m : CodeModel} {c : BeanClass} {name : String} {names visited : List String}

/-- Every name is followed by that of its superclass. -/
def Linked (m : CodeModel) (names : List String) : Prop :=
  names.IsChain fun name superclass => m.superclassName? name = some superclass

/-- The name of a class and those of its superclasses, up to the first one that has no superclass
of its own or is a repetition. The last name belongs to the chain. -/
structure SuperclassChain (m : CodeModel) (c : BeanClass) (names : List String) : Prop where
  head : names.head? = some c.name
  linked : m.Linked names
  distinct : names.dropLast.Nodup
  ends : ∀ last ∈ names.getLast?, m.superclassName? last = none ∨ last ∈ names.dropLast

/-! ## The bound -/

/-- The names of all classes that the model knows. -/
def knownNames (m : CodeModel) : List String :=
  m.classes.map (·.name) ++ m.external.names

private theorem chainBound_eq (m : CodeModel) : m.chainBound = m.knownNames.length + 1 := by
  simp [chainBound, knownNames, Dict.size]

/-- What has a superclass is known to the model. -/
theorem mem_knownNames {superclass : String} (h : m.superclassName? name = some superclass) :
    name ∈ m.knownNames := by
  unfold superclassName? at h
  split at h
  case h_1 c hc =>
    have hname := List.find?_some hc
    exact List.mem_append_left _
      (List.mem_map.mpr ⟨c, mem_of_class? hc, by simpa using hname⟩)
  case h_2 =>
    obtain ⟨external, hfound, -⟩ := Option.bind_eq_some_iff.mp h
    obtain ⟨entry, hentry, -⟩ := Option.map_eq_some_iff.mp hfound
    have hname := List.find?_some hentry
    exact List.mem_append_right _
      (List.mem_map.mpr ⟨entry, List.mem_of_find?_eq_some hentry, by simpa using hname⟩)

/-- Different names with superclasses are no more than the names that are known. -/
theorem length_le_knownNames (hdistinct : names.Nodup) (hknown : ∀ n ∈ names, n ∈ m.knownNames) :
    names.length ≤ m.knownNames.length :=
  (List.subperm_of_subset hdistinct hknown).length_le

/-- All but the last of linked names are known. -/
theorem Linked.dropLast_known (h : m.Linked names) : ∀ n ∈ names.dropLast, n ∈ m.knownNames := by
  induction names with
  | nil => simp
  | cons name rest ih =>
    cases rest with
    | nil => simp
    | cons superclass rest =>
      obtain ⟨hname, hrest⟩ := List.isChain_cons_cons.mp h
      rintro n (_ | ⟨_, hn⟩)
      · exact mem_knownNames hname
      · exact ih hrest n hn

/-! ## Existence -/

/-- One more name at the end of linked names. -/
theorem Linked.snoc {last superclass : String} (h : m.Linked (names ++ [last]))
    (hlast : m.superclassName? last = some superclass) :
    m.Linked (names ++ [last] ++ [superclass]) := by
  refine List.IsChain.append h (List.isChain_singleton _) ?_
  simpa using hlast

/-- Linked names without repetitions go on to the end of a chain. -/
theorem exists_chain_of_linked (names : List String) {last : String}
    (hhead : (names ++ [last]).head? = some c.name) (hlinked : m.Linked (names ++ [last]))
    (hdistinct : (names ++ [last]).Nodup) :
    ∃ all, m.SuperclassChain c all := by
  have hbound : (names ++ [last]).length ≤ m.knownNames.length + 1 := by
    have hknown := hlinked.dropLast_known
    rw [List.dropLast_concat] at hknown
    have hlength := length_le_knownNames (List.nodup_append.mp hdistinct).1 hknown
    simpa using hlength
  cases hlast : m.superclassName? last with
  | none =>
    refine ⟨names ++ [last], hhead, hlinked, ?_, ?_⟩
    · rw [List.dropLast_concat]
      exact (List.nodup_append.mp hdistinct).1
    · simp [hlast]
  | some superclass =>
    have hmore := hlinked.snoc hlast
    have hhead' : (names ++ [last] ++ [superclass]).head? = some c.name := by
      rw [List.head?_append, hhead]
      rfl
    by_cases hrepeated : superclass ∈ names ++ [last]
    · refine ⟨names ++ [last] ++ [superclass], hhead', hmore, ?_, ?_⟩
      · rwa [List.dropLast_concat]
      · rw [List.dropLast_concat]
        simpa using Or.inr (by simpa using hrepeated)
    · refine exists_chain_of_linked (names ++ [last]) hhead' hmore ?_
      exact List.nodup_append_comm.mp (List.nodup_cons.mpr ⟨hrepeated, hdistinct⟩)
termination_by m.knownNames.length + 1 - names.length
decreasing_by
  simp only [List.length_append, List.length_singleton] at hbound ⊢
  omega

/-- Every class has a chain. -/
theorem exists_superclassChain (m : CodeModel) (c : BeanClass) :
    ∃ names, m.SuperclassChain c names :=
  exists_chain_of_linked [] rfl (List.isChain_singleton _) (List.nodup_singleton _)

/-! ## The computed chain -/

/-- Above a class without a superclass there is nothing. -/
theorem chainFrom_none (m : CodeModel) (steps : Nat) (visited : List String) :
    m.chainFrom steps visited none = [] := by
  cases steps <;> rfl

/-- A chain ends where it comes back to a class. -/
theorem chainFrom_of_visited (m : CodeModel) (steps : Nat) (h : name ∈ visited) :
    m.chainFrom steps visited (some name) = [] := by
  cases steps with
  | zero => rfl
  | succ steps => simp [chainFrom, h]

/-- A chain goes on from a new class to the superclass of that class. -/
theorem chainFrom_of_fresh (m : CodeModel) (steps : Nat) (h : name ∉ visited) :
    m.chainFrom (steps + 1) visited (some name) =
      name :: m.chainFrom steps (name :: visited) (m.superclassName? name) := by
  simp [chainFrom, h]

/-- Linked names without repetitions are followed to the end. -/
theorem Linked.chainFrom_eq {bottom : String} {above : List String}
    (hlinked : m.Linked (bottom :: above)) (hdistinct : above.Nodup)
    (hfresh : ∀ n ∈ above, n ∉ visited) (steps : Nat) :
    m.chainFrom (above.length + steps) visited (m.superclassName? bottom) =
      above ++ m.chainFrom steps (above.reverse ++ visited)
        (m.superclassName? (above.getLastD bottom)) := by
  induction above generalizing bottom visited with
  | nil => simp
  | cons name rest ih =>
    obtain ⟨hname, hrest⟩ := List.isChain_cons_cons.mp hlinked
    obtain ⟨hnew, hdistinct⟩ := List.nodup_cons.mp hdistinct
    have hfresh' : ∀ n ∈ rest, n ∉ name :: visited := by
      intro n hn
      rw [List.mem_cons, not_or]
      exact ⟨fun heq => hnew (heq ▸ hn), hfresh n (.tail _ hn)⟩
    have hlength : (name :: rest).length + steps = (rest.length + steps) + 1 := by
      simp only [List.length_cons]
      omega
    rw [hname, hlength, chainFrom_of_fresh m _ (hfresh name List.mem_cons_self),
      ih hrest hdistinct hfresh', List.getLastD_cons, List.reverse_cons, List.append_assoc]
    rfl

/-- The superclass of a generated class is the one that it names. -/
theorem superclassName?_of_class? (hc : m.class? name = some c) :
    m.superclassName? name = c.parent.map (·.name) := by
  simp only [superclassName?, hc]

/-- Linked names of which only the last is a repetition are followed as far as that one. -/
theorem Linked.chainFrom_of_repeated {bottom last : String} {init : List String}
    (hlinked : m.Linked (bottom :: init ++ [last])) (hdistinct : init.Nodup) (hlast : last ∈ init)
    (spare : Nat) : m.chainFrom ((init ++ [last]).length + spare) [] (m.superclassName? bottom) =
      init := by
  obtain ⟨hlower, -, hnext⟩ := List.isChain_append.mp hlinked
  have hnext' : m.superclassName? (init.getLastD bottom) = some last :=
    hnext _ (by simp [List.getLastD_eq_getLast?, List.getLast?_cons]) last rfl
  have hlength : (init ++ [last]).length + spare = init.length + (1 + spare) := by
    simp only [List.length_append, List.length_singleton]
    omega
  rw [hlength, Linked.chainFrom_eq hlower hdistinct (by simp), hnext',
    chainFrom_of_visited m _ (by simpa using hlast), List.append_nil]

/-- Linked names are all followed if the last one has no superclass or is the class below them. -/
theorem Linked.chainFrom_of_ended {bottom last : String} {init : List String}
    (hlinked : m.Linked (bottom :: (init ++ [last]))) (hdistinct : (init ++ [last]).Nodup)
    (hends : m.superclassName? last = none ∨ last = bottom) (spare : Nat) :
    m.chainFrom ((init ++ [last]).length + spare) [] (m.superclassName? bottom) =
      init ++ [last] := by
  have hover :
      m.chainFrom spare ((init ++ [last]).reverse ++ []) (m.superclassName? last) = [] := by
    rcases hends with hnone | rfl
    · rw [hnone, chainFrom_none]
    · -- the superclass of the class below them is the first of them
      obtain ⟨first, rest, habove⟩ := List.exists_cons_of_ne_nil (List.concat_ne_nil last init)
      rw [habove] at hlinked ⊢
      rw [(List.isChain_cons_cons.mp hlinked).1]
      exact chainFrom_of_visited m _ (by simp)
  rw [hlinked.chainFrom_eq hdistinct (by simp), List.getLastD_concat, hover, List.append_nil]

/-- The computed chain is that above the class, without a last name that is a repetition. -/
theorem SuperclassChain.ancestorNames_eq (hc : m.class? c.name = some c)
    (h : m.SuperclassChain c names) :
    names.tail = m.ancestorNames c ∨
      ∃ last ∈ m.ancestorNames c, names.tail = m.ancestorNames c ++ [last] := by
  obtain ⟨hhead, hlinked, hdistinct, hends⟩ := h
  obtain ⟨above, rfl⟩ : ∃ above, names = c.name :: above := by
    cases names with
    | nil => simp at hhead
    | cons name above => exact ⟨above, by simpa using hhead⟩
  have hbound : above.length ≤ m.chainBound := by
    have hlength := length_le_knownNames hdistinct hlinked.dropLast_known
    rw [chainBound_eq]
    simp only [List.length_dropLast, List.length_cons] at hlength
    omega
  obtain ⟨spare, hspare⟩ := Nat.exists_eq_add_of_le hbound
  have hcomputed : m.ancestorNames c = m.chainFrom (above.length + spare) []
      (m.superclassName? c.name) := by
    rw [ancestorNames, hspare, superclassName?_of_class? hc]
  rw [List.tail_cons, hcomputed]
  rcases List.eq_nil_or_concat' above with rfl | ⟨init, last, rfl⟩
  · -- a class without a superclass
    have hnone : m.superclassName? c.name = none := by simpa using hends
    left
    rw [hnone, chainFrom_none]
  · rw [← List.cons_append, List.dropLast_concat] at hdistinct hends
    obtain ⟨-, hinit⟩ := List.nodup_cons.mp hdistinct
    by_cases hrepeated : last ∈ init
    · -- the chain runs into itself above the class
      rw [Linked.chainFrom_of_repeated hlinked hinit hrepeated]
      exact .inr ⟨last, hrepeated, rfl⟩
    · -- the chain ends, or is back at the class
      have hall : (init ++ [last]).Nodup :=
        List.nodup_append_comm.mp (List.nodup_cons.mpr ⟨hrepeated, hinit⟩)
      have hlast : m.superclassName? last = none ∨ last = c.name := by
        have hmem := hends last (by rw [List.getLast?_concat, Option.mem_some])
        simpa [hrepeated] using hmem
      exact .inl (hlinked.chainFrom_of_ended hall hlast spare).symm

/-- A name that comes again finds nothing that it has not found before. -/
theorem findSome?_concat_of_mem {α β : Type} {xs : List α} {x : α} (h : x ∈ xs)
    (f : α → Option β) : (xs ++ [x]).findSome? f = xs.findSome? f := by
  rw [List.findSome?_append]
  cases hfound : xs.findSome? f with
  | some y => rfl
  | none => simp [List.findSome?_eq_none_iff.mp hfound x h]

/-- What is looked for in the computed chain is found where it is found in the chain. -/
theorem SuperclassChain.findSome?_ancestorNames {β : Type} (hc : m.class? c.name = some c)
    (h : m.SuperclassChain c names) (f : String → Option β) :
    (m.ancestorNames c).findSome? f = names.tail.findSome? f := by
  rcases h.ancestorNames_eq hc with htail | ⟨last, hlast, htail⟩
  · rw [htail]
  · rw [htail, findSome?_concat_of_mem hlast]

/-! ## Closure -/

/-- Names that have been visited, and steps enough to visit all that are known. -/
structure Visiting (m : CodeModel) (steps : Nat) (visited : List String) : Prop where
  distinct : visited.Nodup
  known : ∀ n ∈ visited, n ∈ m.knownNames
  enough : m.knownNames.length + 1 ≤ steps + visited.length

/-- At the start of a chain nothing has been visited. -/
theorem Visiting.start (m : CodeModel) : m.Visiting m.chainBound [] where
  distinct := List.nodup_nil
  known := by simp
  enough := by simp [chainBound_eq]

/-- A chain may visit a new class that is known, and has one step less after it. -/
theorem Visiting.next {steps : Nat} (h : m.Visiting (steps + 1) visited) (hfresh : name ∉ visited)
    (hknown : name ∈ m.knownNames) : m.Visiting steps (name :: visited) where
  distinct := List.nodup_cons.mpr ⟨hfresh, h.distinct⟩
  known := by simpa using ⟨hknown, h.known⟩
  enough := by
    have henough := h.enough
    simp only [List.length_cons]
    omega

/-- While classes are visited, a step is left. -/
theorem Visiting.steps_pos {steps : Nat} (h : m.Visiting steps visited) : 0 < steps := by
  have hlength := length_le_knownNames h.distinct h.known
  have henough := h.enough
  omega

/-- The part of the computed chain up to the first name that is refused: the superclass of each of
its names, and the name that it starts with, belongs to it too, or is refused, or has been visited
before. -/
theorem Visiting.takeWhile_closed (p : String → Bool) {steps : Nat} (next : Option String)
    (h : m.Visiting steps visited) :
    (∀ n ∈ next, n ∈ (m.chainFrom steps visited next).takeWhile p ∨ p n = false ∨ n ∈ visited) ∧
    ∀ n ∈ (m.chainFrom steps visited next).takeWhile p, ∀ superclass ∈ m.superclassName? n,
      superclass ∈ (m.chainFrom steps visited next).takeWhile p ∨ p superclass = false ∨
        superclass ∈ visited := by
  induction steps generalizing visited next with
  | zero => exact absurd h.steps_pos (by omega)
  | succ steps ih =>
    cases next with
    | none => simp [chainFrom]
    | some name =>
      by_cases hvisited : name ∈ visited
      · simp [chainFrom, hvisited]
      rw [chainFrom_of_fresh m steps hvisited]
      cases haccepted : p name with
      | false => simp [haccepted]
      | true =>
        rw [List.takeWhile_cons_of_pos haccepted]
        refine ⟨by simp, ?_⟩
        cases hname : m.superclassName? name with
        | none => simp [chainFrom_none, hname]
        | some superclass =>
          obtain ⟨hnext, hrest⟩ := ih (some superclass) (h.next hvisited (mem_knownNames hname))
          generalize (m.chainFrom steps (name :: visited) (some superclass)).takeWhile p = path
            at hnext hrest
          have hwiden : ∀ s, s ∈ path ∨ p s = false ∨ s ∈ name :: visited →
              s ∈ name :: path ∨ p s = false ∨ s ∈ visited := by
            intro s hs
            simp only [List.mem_cons] at hs ⊢
            tauto
          rintro n (_ | ⟨_, hn⟩) s hs
          · rw [hname] at hs
            exact hwiden s (hnext s hs)
          · exact hwiden s (hrest n hn s hs)

end CodeModel

end BeanSynthesis
