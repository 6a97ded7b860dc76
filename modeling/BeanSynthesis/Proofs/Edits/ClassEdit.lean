import BeanSynthesis.Proofs.Edits.Newcomers

/-!
# Edits of classes

What a pass does to a class is an edit: constructors and methods that the class receives unless it
has such already, a note if it has received any, and changes of its fields, its interfaces and its
annotations. Edits with different members, whose changes commute, can be made in either order; an
edit changes nothing if and only if the class has all that it offers.
-/

namespace BeanSynthesis

/-! ## Entries that a list holds once -/

section

variable {α : Type} [DecidableEq α]

/-- The list with an entry that it holds at least once. -/
def addOnce (x : α) (xs : List α) : List α := if x ∈ xs then xs else xs ++ [x]

variable {x y : α} {xs ys : List α}

/-- What is there is not added again. -/
theorem addOnce_of_mem (h : x ∈ xs) : addOnce x xs = xs := if_pos h

/-- One more entry is there at most. -/
theorem mem_addOnce : y ∈ addOnce x xs ↔ y ∈ xs ∨ y = x := by
  unfold addOnce
  split
  case isTrue hx =>
    constructor
    · exact .inl
    · rintro (hy | rfl)
      · exact hy
      · exact hx
  case isFalse _ => simp

/-- To add an entry twice is to add it once. -/
@[simp] theorem addOnce_addOnce : addOnce x (addOnce x xs) = addOnce x xs :=
  addOnce_of_mem (mem_addOnce.mpr (.inr rfl))

/-- What was there stays in front. -/
theorem prefix_addOnce : xs <+: addOnce x xs := by
  unfold addOnce
  split
  · exact List.prefix_rfl
  · exact List.prefix_append _ _

/-- Two entries can be added in either order. -/
theorem addOnce_comm : (addOnce x (addOnce y xs)).Perm (addOnce y (addOnce x xs)) := by
  by_cases hxy : x = y
  · rw [hxy]
  by_cases hx : x ∈ xs
  · rw [addOnce_of_mem hx, addOnce_of_mem (mem_addOnce.mpr (.inl hx))]
  by_cases hy : y ∈ xs
  · rw [addOnce_of_mem hy, addOnce_of_mem (mem_addOnce.mpr (.inl hy))]
  · have hends : addOnce x (addOnce y xs) = xs ++ [y, x] := by simp [addOnce, hx, hy, hxy]
    have hends' : addOnce y (addOnce x xs) = xs ++ [x, y] := by simp [addOnce, hx, hy, Ne.symm hxy]
    rw [hends, hends']
    exact (List.Perm.swap x y []).append_left xs

end

/-- A note is added once. -/
theorem BeanClass.addNote_eq (c : BeanClass) (note : String) :
    c.addNote note = { c with javadoc := addOnce note c.javadoc } := by
  unfold addNote addOnce
  split
  · rfl
  · rfl

/-! ## Edits -/

/-- What a pass does to a class. -/
structure ClassEdit where
  /-- The constructors that the class shall have. -/
  constructors : List Constructor := []
  /-- The methods that the class shall have. -/
  methods : List Method := []
  /-- What is noted on a class that receives a member. -/
  note : String := ""
  fields : List Field → List Field := id
  interfaces : List ClassRef → List ClassRef := id
  annotations : List Annotation → List Annotation := id

namespace ClassEdit

/-- How many members a class receives. -/
def count (e : ClassEdit) (c : BeanClass) : Nat :=
  (c.newConstructors e.constructors).length + (c.newMethods e.methods).length

/-- The edited class. -/
def apply (e : ClassEdit) (c : BeanClass) : BeanClass :=
  { c with
    constructors := c.constructors ++ c.newConstructors e.constructors
    methods := c.methods ++ c.newMethods e.methods
    fields := e.fields c.fields
    interfaces := e.interfaces c.interfaces
    annotations := e.annotations c.annotations
    javadoc := if 0 < e.count c then addOnce e.note c.javadoc else c.javadoc }

/-- An edit changes no name. -/
@[simp] theorem apply_name (e : ClassEdit) (c : BeanClass) : (e.apply c).name = c.name := rfl

/-- An edit makes no enumeration, and ends none. -/
@[simp] theorem apply_isEnum (e : ClassEdit) (c : BeanClass) : (e.apply c).isEnum = c.isEnum := rfl

/-- An edit adds the new ones of its methods. -/
@[simp] theorem apply_methods (e : ClassEdit) (c : BeanClass) :
    (e.apply c).methods = c.methods ++ c.newMethods e.methods :=
  rfl

/-- An edit adds the new ones of its constructors. -/
@[simp] theorem apply_constructors (e : ClassEdit) (c : BeanClass) :
    (e.apply c).constructors = c.constructors ++ c.newConstructors e.constructors :=
  rfl

private theorem apply_javadoc (e : ClassEdit) (c : BeanClass) :
    (e.apply c).javadoc = if 0 < e.count c then addOnce e.note c.javadoc else c.javadoc :=
  rfl

variable {e f : ClassEdit} {c : BeanClass}

/-- The edit that offers nothing leaves a class as it is. -/
@[simp] theorem apply_empty (c : BeanClass) : ({} : ClassEdit).apply c = c := by
  simp [apply, count, BeanClass.newMethods, BeanClass.newConstructors, newcomers]

/-- Every class to which a method is offered has one of the same name and signature in the end. -/
theorem hasMethod_apply {n : Method} (hn : n ∈ e.methods) :
    (e.apply c).hasMethod n.name n.signature := by
  have hkey : n.key ∈ c.methods.map Method.key ∨ n.key ∈ (c.newMethods e.methods).map Method.key :=
    key_mem_of_mem hn
  rw [BeanClass.hasMethod_iff, apply_methods, List.map_append]
  exact List.mem_append.mpr hkey

/-- The same for a constructor. -/
theorem hasConstructor_apply {k : Constructor} (hk : k ∈ e.constructors) :
    (e.apply c).hasConstructor k.key := by
  have hkey : k.key ∈ c.constructors.map Constructor.key ∨
      k.key ∈ (c.newConstructors e.constructors).map Constructor.key := key_mem_of_mem hk
  rw [BeanClass.hasConstructor_iff, apply_constructors, List.map_append]
  exact List.mem_append.mpr hkey

/-- An edit takes no method away. -/
theorem hasMethod_apply_of_hasMethod {name : String} {signature : List TypeExpr}
    (h : c.hasMethod name signature) : (e.apply c).hasMethod name signature := by
  rw [BeanClass.hasMethod_iff] at h ⊢
  rw [apply_methods, List.map_append]
  exact List.mem_append_left _ h

/-! ### Edits that change nothing -/

/-- The class has all that the edit offers. -/
structure Settled (e : ClassEdit) (c : BeanClass) : Prop where
  constructors : ∀ k ∈ e.constructors, c.hasConstructor k.key
  methods : ∀ n ∈ e.methods, c.hasMethod n.name n.signature
  fields : e.fields c.fields = c.fields
  interfaces : e.interfaces c.interfaces = c.interfaces
  annotations : e.annotations c.annotations = c.annotations

private theorem newMethods_eq_nil_iff {ms : List Method} :
    c.newMethods ms = [] ↔ ∀ n ∈ ms, c.hasMethod n.name n.signature := by
  simp only [BeanClass.newMethods, newcomers_eq_nil_iff, BeanClass.hasMethod_iff]
  rfl

/-- No constructor is new if and only if all their keys are in use. -/
theorem newConstructors_eq_nil_iff {ks : List Constructor} :
    c.newConstructors ks = [] ↔ ∀ k ∈ ks, c.hasConstructor k.key := by
  simp only [BeanClass.newConstructors, newcomers_eq_nil_iff, BeanClass.hasConstructor_iff]

/-- Nothing is counted if and only if all keys are in use. -/
theorem count_eq_zero_iff : e.count c = 0 ↔
    (∀ k ∈ e.constructors, c.hasConstructor k.key) ∧
      ∀ n ∈ e.methods, c.hasMethod n.name n.signature := by
  rw [count, Nat.add_eq_zero_iff, List.length_eq_zero_iff, List.length_eq_zero_iff,
    newConstructors_eq_nil_iff, newMethods_eq_nil_iff]

/-- An edit leaves a class as it is if and only if the class has all that it offers. -/
theorem apply_eq_self_iff : e.apply c = c ↔ e.Settled c := by
  constructor
  · intro h
    have hconstructors := List.append_right_eq_self.mp (congrArg BeanClass.constructors h)
    have hmethods := List.append_right_eq_self.mp (congrArg BeanClass.methods h)
    exact {
      constructors := newConstructors_eq_nil_iff.mp hconstructors
      methods := newMethods_eq_nil_iff.mp hmethods
      fields := congrArg BeanClass.fields h
      interfaces := congrArg BeanClass.interfaces h
      annotations := congrArg BeanClass.annotations h }
  · intro h
    have hcount : e.count c = 0 := count_eq_zero_iff.mpr ⟨h.constructors, h.methods⟩
    simp [apply, hcount, newConstructors_eq_nil_iff.mpr h.constructors,
      newMethods_eq_nil_iff.mpr h.methods, h.fields, h.interfaces, h.annotations]

/-- Where there is nothing to do, the edit makes the class itself and adds no member. -/
theorem Settled.makes (h : e.Settled c) : c = e.apply c ∧ 0 = e.count c :=
  ⟨(apply_eq_self_iff.mpr h).symm, (count_eq_zero_iff.mpr ⟨h.constructors, h.methods⟩).symm⟩

/-- Changes of lists that are made only once. -/
structure Idempotent (e : ClassEdit) : Prop where
  fields : ∀ xs, e.fields (e.fields xs) = e.fields xs
  interfaces : ∀ xs, e.interfaces (e.interfaces xs) = e.interfaces xs
  annotations : ∀ xs, e.annotations (e.annotations xs) = e.annotations xs

/-- A class that has been edited has all that the edit offers. -/
theorem Idempotent.settled_apply (h : e.Idempotent) (c : BeanClass) : e.Settled (e.apply c) where
  constructors := by
    intro k hk
    rw [BeanClass.hasConstructor_iff, apply_constructors, List.map_append, List.mem_append]
    exact key_mem_of_mem hk
  methods _ hn := hasMethod_apply hn
  fields := h.fields _
  interfaces := h.interfaces _
  annotations := h.annotations _

/-! ### Edits in either order -/

/-- The edits offer different members, and what they do to lists commutes. -/
structure Independent (e f : ClassEdit) : Prop where
  constructors : e.constructors = [] ∨ f.constructors = []
  methods : ∀ x ∈ e.methods, ∀ y ∈ f.methods, x.key ≠ y.key
  fields : ∀ xs, f.fields (e.fields xs) = e.fields (f.fields xs)
  interfaces : ∀ xs, (f.interfaces (e.interfaces xs)).Perm (e.interfaces (f.interfaces xs))
  annotations : ∀ xs, f.annotations (e.annotations xs) = e.annotations (f.annotations xs)

/-- An edit that changes nothing is independent of all others. -/
theorem independent_empty (e : ClassEdit) : e.Independent {} where
  constructors := .inr rfl
  methods _ _ _ hy := by cases hy
  fields _ := rfl
  interfaces _ := .refl _
  annotations _ := rfl

namespace Independent

/-- Independence does not depend on the order. -/
theorem symm (h : e.Independent f) : f.Independent e where
  constructors := h.constructors.symm
  methods y hy x hx heq := h.methods x hx y hy heq.symm
  fields xs := (h.fields xs).symm
  interfaces xs := (h.interfaces xs).symm
  annotations xs := (h.annotations xs).symm

private theorem newMethods_apply (h : e.Independent f) (c : BeanClass) :
    (e.apply c).newMethods f.methods = c.newMethods f.methods := by
  rw [BeanClass.newMethods, apply_methods, List.map_append]
  apply newcomers_append_seen
  intro y hy hmem
  obtain ⟨x, hx, hkey⟩ := List.mem_map.mp hmem
  exact h.methods x (mem_of_mem_newcomers hx) y hy hkey

private theorem newConstructors_apply (h : e.Independent f) (c : BeanClass) :
    (e.apply c).newConstructors f.constructors = c.newConstructors f.constructors := by
  rcases h.constructors with hnone | hnone
  · rw [BeanClass.newConstructors, apply_constructors, hnone]
    simp [BeanClass.newConstructors, newcomers]
  · simp [hnone, BeanClass.newConstructors, newcomers]

/-- A class receives as many members whether or not the other edit has been made. -/
theorem count_apply (h : e.Independent f) (c : BeanClass) : f.count (e.apply c) = f.count c := by
  rw [count, h.newConstructors_apply, h.newMethods_apply, count]

end Independent

end ClassEdit

/-- Two classes that differ at most in the order of their methods, of their interfaces and of their
lines of documentation. -/
structure BeanClass.SameUpToOrder (c d : BeanClass) : Prop where
  rest : d = { c with methods := d.methods, interfaces := d.interfaces, javadoc := d.javadoc }
  methods : c.methods.Perm d.methods
  interfaces : c.interfaces.Perm d.interfaces
  javadoc : c.javadoc.Perm d.javadoc

namespace ClassEdit

variable {e f : ClassEdit} {c : BeanClass}

/-- Independent edits make the same class in either order. -/
theorem Independent.sameUpToOrder (h : e.Independent f) (c : BeanClass) :
    (f.apply (e.apply c)).SameUpToOrder (e.apply (f.apply c)) where
  rest := by
    have hconstructors :
        (e.apply (f.apply c)).constructors = (f.apply (e.apply c)).constructors := by
      rcases h.constructors with hnone | hnone <;>
        simp [hnone, BeanClass.newConstructors, newcomers]
    have hfields : (e.apply (f.apply c)).fields = (f.apply (e.apply c)).fields := (h.fields _).symm
    have hannotations : (e.apply (f.apply c)).annotations = (f.apply (e.apply c)).annotations :=
      (h.annotations _).symm
    rw [← hconstructors, ← hfields, ← hannotations]
    rfl
  methods := by
    simp only [apply_methods, h.newMethods_apply, h.symm.newMethods_apply, List.append_assoc]
    exact List.perm_append_comm.append_left c.methods
  interfaces := h.interfaces c.interfaces
  javadoc := by
    simp only [apply_javadoc, h.count_apply, h.symm.count_apply]
    by_cases he : 0 < e.count c
    · by_cases hf : 0 < f.count c
      · simp only [if_pos he, if_pos hf]
        exact addOnce_comm
      · simp only [if_pos he, if_neg hf]
        exact .refl _
    · simp only [if_neg he]
      exact .refl _

/-- Members are not lost. So a class that has all that an edit offers still has it after another
edit, if that one leaves enough of the lists. -/
theorem Settled.apply (h : e.Settled c)
    (hfields : e.fields (f.fields c.fields) = f.fields c.fields)
    (hinterfaces : e.interfaces (f.interfaces c.interfaces) = f.interfaces c.interfaces)
    (hannotations : e.annotations (f.annotations c.annotations) = f.annotations c.annotations) :
    e.Settled (f.apply c) where
  constructors := by
    intro k hk
    have hold := BeanClass.hasConstructor_iff.mp (h.constructors k hk)
    rw [BeanClass.hasConstructor_iff, apply_constructors, List.map_append]
    exact List.mem_append_left _ hold
  methods n hn := hasMethod_apply_of_hasMethod (h.methods n hn)
  fields := hfields
  interfaces := hinterfaces
  annotations := hannotations

/-- Independent edits do not undo each other. -/
theorem Independent.settled_apply (h : e.Independent f)
    (hkept : ∀ xs, xs <+: e.interfaces xs) (hsettled : e.Settled c) : e.Settled (f.apply c) := by
  have hinterfaces : e.interfaces (f.interfaces c.interfaces) = f.interfaces c.interfaces := by
    -- nothing can have been put behind a list that has not become longer
    have hperm := h.interfaces c.interfaces
    rw [hsettled.interfaces] at hperm
    exact ((hkept _).eq_of_length hperm.length_eq).symm
  have hfields := h.fields c.fields
  have hannotations := h.annotations c.annotations
  rw [hsettled.fields] at hfields
  rw [hsettled.annotations] at hannotations
  exact hsettled.apply hfields.symm hinterfaces hannotations.symm

/-! ### Edits of members -/

/-- The edit that offers members. -/
def ofMembers (note : String) (ks : List Constructor) (ms : List Method) : ClassEdit :=
  { constructors := ks, methods := ms, note }

private theorem newMethods_append (note : String) (ks : List Constructor) (ms ms' : List Method)
    (c : BeanClass) : c.newMethods (ms ++ ms') =
      c.newMethods ms ++ ((ofMembers note ks ms).apply c).newMethods ms' := by
  simp only [BeanClass.newMethods, apply_methods, newcomers_append, List.map_append]
  rfl

private theorem newConstructors_append (note : String) (ks ks' : List Constructor)
    (ms : List Method)
    (c : BeanClass) : c.newConstructors (ks ++ ks') =
      c.newConstructors ks ++ ((ofMembers note ks ms).apply c).newConstructors ks' := by
  simp only [BeanClass.newConstructors, apply_constructors, newcomers_append, List.map_append]
  rfl

/-- Of members that are offered in two parts, those of both parts are counted. -/
theorem ofMembers_count_append (note : String) (ks ks' : List Constructor) (ms ms' : List Method)
    (c : BeanClass) : (ofMembers note (ks ++ ks') (ms ++ ms')).count c =
      (ofMembers note ks ms).count c +
        (ofMembers note ks' ms').count ((ofMembers note ks ms).apply c) := by
  have hmethods := newMethods_append note ks ms ms' c
  have hconstructors := newConstructors_append note ks ks' ms c
  simp only [count, ofMembers] at hmethods hconstructors ⊢
  rw [hmethods, hconstructors, List.length_append, List.length_append]
  omega

/-- Members can be offered in two parts, under one note. -/
theorem ofMembers_apply_append (note : String) (ks ks' : List Constructor) (ms ms' : List Method)
    (c : BeanClass) : (ofMembers note (ks ++ ks') (ms ++ ms')).apply c =
      (ofMembers note ks' ms').apply ((ofMembers note ks ms).apply c) := by
  have hmethods : c.methods ++ c.newMethods (ms ++ ms') =
      ((ofMembers note ks' ms').apply ((ofMembers note ks ms).apply c)).methods := by
    rw [newMethods_append note ks]
    exact (List.append_assoc _ _ _).symm
  have hconstructors : c.constructors ++ c.newConstructors (ks ++ ks') =
      ((ofMembers note ks' ms').apply ((ofMembers note ks ms).apply c)).constructors := by
    rw [newConstructors_append note ks ks' ms]
    exact (List.append_assoc _ _ _).symm
  have hjavadoc : ((ofMembers note (ks ++ ks') (ms ++ ms')).apply c).javadoc =
      ((ofMembers note ks' ms').apply ((ofMembers note ks ms).apply c)).javadoc := by
    simp only [apply_javadoc, ofMembers_count_append]
    generalize (ofMembers note ks ms).count c = first
    generalize (ofMembers note ks' ms').count _ = second
    by_cases hfirst : 0 < first
    · have hboth : 0 < first + second := by omega
      by_cases hsecond : 0 < second
      · simp [hfirst, hsecond, hboth, ofMembers]
      · simp [hfirst, hsecond, hboth, ofMembers]
    · have hnone : first = 0 := by omega
      simp [hnone, ofMembers]
  calc (ofMembers note (ks ++ ks') (ms ++ ms')).apply c
      = { c with
          constructors := c.constructors ++ c.newConstructors (ks ++ ks')
          methods := c.methods ++ c.newMethods (ms ++ ms')
          javadoc := ((ofMembers note (ks ++ ks') (ms ++ ms')).apply c).javadoc } := rfl
    _ = (ofMembers note ks' ms').apply ((ofMembers note ks ms).apply c) := by
        rw [hmethods, hconstructors, hjavadoc]
        rfl

end ClassEdit

end BeanSynthesis
