import Mathlib.Algebra.GroupWithZero.Nat
import Mathlib.Data.List.Basic
import BeanSynthesis.Proofs.Execution.Lookup
import BeanSynthesis.Proofs.Growth.Treatment

/-!
# Newcomers

Whatever a pass adds to a list, it adds unless the list has an entry of the same key: methods are
told apart by name and parameter types, constructors by parameter types, interfaces and annotations
by name. Of the entries that are offered, the newcomers are those whose key is not there yet, each
key once.
-/

namespace BeanSynthesis

/-- A list stays the same under a map if and only if every entry does. -/
theorem map_eq_self_iff {α : Type} {f : α → α} {xs : List α} :
    xs.map f = xs ↔ ∀ x ∈ xs, f x = x := by
  simpa using List.map_inj_left (l := xs) (f := f) (g := id)

section

variable {α κ : Type} [DecidableEq κ]

/-- The entries whose key is not among those seen, the first one of each key. -/
def newcomers (key : α → κ) (seen : List κ) : List α → List α
  | [] => []
  | x :: rest =>
    if key x ∈ seen then newcomers key seen rest else x :: newcomers key (key x :: seen) rest

variable {key : α → κ} {seen other : List κ} {xs ys : List α} {x : α}

private theorem newcomers_nil : newcomers key seen [] = [] := rfl

private theorem newcomers_cons : newcomers key seen (x :: xs) =
    if key x ∈ seen then newcomers key seen xs else x :: newcomers key (key x :: seen) xs := rfl

/-- A newcomer is one of the entries. -/
theorem mem_of_mem_newcomers (h : x ∈ newcomers key seen xs) : x ∈ xs := by
  induction xs generalizing seen with
  | nil => exact h
  | cons y rest ih =>
    rw [newcomers_cons] at h
    split at h
    · exact List.mem_cons_of_mem y (ih h)
    · rcases List.mem_cons.mp h with rfl | h
      · exact List.mem_cons_self
      · exact List.mem_cons_of_mem y (ih h)

/-- The key of a newcomer has not been seen. -/
theorem not_mem_of_mem_newcomers (h : x ∈ newcomers key seen xs) : key x ∉ seen := by
  induction xs generalizing seen with
  | nil => cases h
  | cons y rest ih =>
    by_cases hy : key y ∈ seen
    · rw [newcomers_cons, if_pos hy] at h
      exact ih h
    · rw [newcomers_cons, if_neg hy] at h
      rcases List.mem_cons.mp h with rfl | h
      · exact hy
      · exact fun hseen => ih h (List.mem_cons_of_mem _ hseen)

/-- Only the keys that occur among the entries matter. -/
theorem newcomers_congr (h : ∀ x ∈ xs, key x ∈ seen ↔ key x ∈ other) :
    newcomers key seen xs = newcomers key other xs := by
  induction xs generalizing seen other with
  | nil => rfl
  | cons y rest ih =>
    obtain ⟨hy, hrest⟩ := List.forall_mem_cons.mp h
    have hseen : newcomers key (key y :: seen) rest = newcomers key (key y :: other) rest := by
      apply ih
      intro x hx
      simp only [List.mem_cons, hrest x hx]
    simp only [newcomers_cons, hy, ih hrest, hseen]

/-- An entry with a key that has been seen is no newcomer. -/
theorem newcomers_cons_of_mem (h : key x ∈ seen) :
    newcomers key seen (x :: xs) = newcomers key seen xs := by
  rw [newcomers_cons, if_pos h]

/-- An entry with a new key is a newcomer, and its key is seen from there on. -/
theorem newcomers_cons_of_not_mem (h : key x ∉ seen) :
    newcomers key seen (x :: xs) = x :: newcomers key (seen ++ [key x]) xs := by
  rw [newcomers_cons, if_neg h]
  congr 1
  apply newcomers_congr
  intro y _
  simp [or_comm]

/-- There is no newcomer if and only if all keys have been seen. -/
theorem newcomers_eq_nil_iff : newcomers key seen xs = [] ↔ ∀ x ∈ xs, key x ∈ seen := by
  induction xs generalizing seen with
  | nil => simp [newcomers_nil]
  | cons y rest ih =>
    by_cases hy : key y ∈ seen
    · simp [newcomers_cons, hy, ih]
    · simp [newcomers_cons, hy]

/-- The key of every entry has been seen before or comes with a newcomer. -/
theorem key_mem_of_mem (hx : x ∈ xs) :
    key x ∈ seen ∨ key x ∈ (newcomers key seen xs).map key := by
  induction xs generalizing seen with
  | nil => cases hx
  | cons y rest ih =>
    by_cases hy : key y ∈ seen
    · rw [newcomers_cons, if_pos hy]
      rcases List.mem_cons.mp hx with rfl | hrest
      · exact .inl hy
      · exact ih hrest
    · rw [newcomers_cons, if_neg hy, List.map_cons]
      rcases List.mem_cons.mp hx with rfl | hrest
      · exact .inr List.mem_cons_self
      · have hlater : key x ∈ key y :: seen ∨
            key x ∈ (newcomers key (key y :: seen) rest).map key := ih hrest
        rw [List.mem_cons, or_assoc] at hlater
        rw [List.mem_cons]
        exact or_left_comm.mp hlater

/-- The newcomers of a part have been seen when the others are offered. -/
theorem newcomers_append :
    newcomers key seen (xs ++ ys) =
      newcomers key seen xs ++ newcomers key (seen ++ (newcomers key seen xs).map key) ys := by
  induction xs generalizing seen with
  | nil => simp [newcomers_nil]
  | cons y rest ih =>
    by_cases hy : key y ∈ seen
    · simp only [List.cons_append, newcomers_cons_of_mem hy, ih]
    · simp [List.cons_append, newcomers_cons_of_not_mem hy, ih]

/-- What has come once is not new again. -/
theorem newcomers_again : newcomers key (seen ++ (newcomers key seen xs).map key) xs = [] := by
  rw [newcomers_eq_nil_iff]
  intro x hx
  exact List.mem_append.mpr (key_mem_of_mem hx)

/-- Keys of other entries make no difference. -/
theorem newcomers_append_seen (h : ∀ x ∈ xs, key x ∉ other) :
    newcomers key (seen ++ other) xs = newcomers key seen xs := by
  apply newcomers_congr
  intro x hx
  simp [h x hx]

/-- Newcomers have different keys, so each is found by its key. -/
theorem find?_newcomers (hx : x ∈ newcomers key seen xs) :
    (newcomers key seen xs).find? (fun y => key y = key x) = some x := by
  induction xs generalizing seen with
  | nil => cases hx
  | cons y rest ih =>
    by_cases hy : key y ∈ seen
    · rw [newcomers_cons, if_pos hy] at hx ⊢
      exact ih hx
    · rw [newcomers_cons, if_neg hy] at hx ⊢
      rcases List.mem_cons.mp hx with rfl | hx
      · exact List.find?_cons_of_pos (by simp)
      · have hne : key x ≠ key y := fun heq => not_mem_of_mem_newcomers hx (by simp [heq])
        rw [List.find?_cons_of_neg (by simpa using hne.symm)]
        exact ih hx

/-- Among the newcomers there is one of a key at most: the first one offered, if it is new. -/
theorem filter_newcomers {k : κ} (hk : k ∉ seen) :
    (newcomers key seen xs).filter (fun y => key y = k) =
      (xs.find? fun y => key y = k).toList := by
  induction xs generalizing seen with
  | nil => rfl
  | cons y rest ih =>
    by_cases hy : key y = k
    · have hnew : key y ∉ seen := hy ▸ hk
      have hrest : (newcomers key (key y :: seen) rest).filter (fun x => key x = k) = [] := by
        refine List.filter_eq_nil_iff.mpr fun x hx heq => not_mem_of_mem_newcomers hx ?_
        rw [of_decide_eq_true heq, ← hy]
        exact List.mem_cons_self
      rw [newcomers_cons, if_neg hnew, List.filter_cons_of_pos (by simpa using hy), hrest,
        List.find?_cons_of_pos (by simpa using hy), Option.toList_some]
    · rw [List.find?_cons_of_neg (by simpa using hy)]
      by_cases hseen : key y ∈ seen
      · rw [newcomers_cons_of_mem hseen, ih hk]
      · have hlater : k ∉ key y :: seen := by simp [Ne.symm hy, hk]
        rw [newcomers_cons, if_neg hseen, List.filter_cons_of_neg (by simpa using hy), ih hlater]

/-- A key that has not been seen is found where it is offered first. -/
theorem find?_newcomers_of_not_mem {k : κ} (hk : k ∉ seen) :
    (newcomers key seen xs).find? (fun y => key y = k) = xs.find? (fun y => key y = k) := by
  rw [← List.head?_filter, filter_newcomers hk]
  cases xs.find? (fun y => key y = k) with
  | none => rfl
  | some y => rfl

/-- A newcomer is the first entry offered with its key, which has not been seen. -/
theorem mem_newcomers_iff : x ∈ newcomers key seen xs ↔
    key x ∉ seen ∧ xs.find? (fun y => key y = key x) = some x := by
  constructor
  · intro hx
    have hnew := not_mem_of_mem_newcomers hx
    rw [← find?_newcomers_of_not_mem hnew]
    exact ⟨hnew, find?_newcomers hx⟩
  · rintro ⟨hnew, hfirst⟩
    rw [← find?_newcomers_of_not_mem hnew] at hfirst
    exact List.mem_of_find?_eq_some hfirst

/-- No two newcomers have the same key. -/
theorem nodup_map_newcomers : ((newcomers key seen xs).map key).Nodup := by
  induction xs generalizing seen with
  | nil => exact List.nodup_nil
  | cons y rest ih =>
    by_cases hy : key y ∈ seen
    · rw [newcomers_cons, if_pos hy]
      exact ih
    · rw [newcomers_cons, if_neg hy, List.map_cons]
      refine List.nodup_cons.mpr ⟨fun hmem => ?_, ih⟩
      obtain ⟨x, hx, heq⟩ := List.mem_map.mp hmem
      exact not_mem_of_mem_newcomers hx (heq ▸ List.mem_cons_self)

/-- A change of entries that leaves their keys does not change which of them are new. -/
theorem newcomers_map {f : α → α} (hf : ∀ x, key (f x) = key x) :
    newcomers key seen (xs.map f) = (newcomers key seen xs).map f := by
  induction xs generalizing seen with
  | nil => rfl
  | cons y rest ih =>
    by_cases hy : key y ∈ seen
    · simp [newcomers_cons, hf, hy, ih]
    · simp [newcomers_cons, hf, hy, ih]

/-- No entry that was there before is in the way of a newcomer. -/
theorem find?_append_newcomers (hx : x ∈ newcomers key (ys.map key) xs) :
    (ys ++ newcomers key (ys.map key) xs).find? (fun y => key y = key x) = some x := by
  have hold : ys.find? (fun y => key y = key x) = none := by
    refine List.find?_eq_none.mpr fun y hy heq => not_mem_of_mem_newcomers hx ?_
    rw [← of_decide_eq_true heq]
    exact List.mem_map_of_mem hy
  rw [List.find?_append, hold, find?_newcomers hx, Option.none_or]

/-- An entry that is new may as well come first, if no other entry has its key. -/
theorem newcomers_perm_cons (hx : x ∈ xs) (hseen : key x ∉ seen)
    (honly : ∀ y ∈ xs, key y = key x → y = x) :
    (newcomers key seen xs).Perm (x :: newcomers key (key x :: seen) xs) := by
  induction xs generalizing seen with
  | nil => cases hx
  | cons y rest ih =>
    obtain ⟨hy, hrest⟩ := List.forall_mem_cons.mp honly
    by_cases hyx : key y = key x
    · obtain rfl := hy hyx
      simp [newcomers_cons, hseen]
    · have hmem : x ∈ rest := by
        rcases List.mem_cons.mp hx with rfl | hmem
        · exact absurd rfl hyx
        · exact hmem
      by_cases hyseen : key y ∈ seen
      · simp only [newcomers_cons, if_pos hyseen, if_pos (List.mem_cons_of_mem _ hyseen)]
        exact ih hmem hseen hrest
      · have hlater : key y ∉ key x :: seen := by simp [hyx, hyseen]
        have hxlater : key x ∉ key y :: seen := by simp [Ne.symm hyx, hseen]
        have hswap : newcomers key (key y :: key x :: seen) rest =
            newcomers key (key x :: key y :: seen) rest := by
          apply newcomers_congr
          intro z _
          simp only [List.mem_cons]
          exact or_left_comm
        simp only [newcomers_cons, if_neg hyseen, if_neg hlater, hswap]
        exact ((ih hmem hxlater hrest).cons y).trans (.swap x y _)

end

/-! ## Members -/

/-- What tells methods apart. -/
def Method.key (n : Method) : String × List TypeExpr := (n.name, n.signature)

private theorem Method.answers_eq (name : String) (signature : List TypeExpr) :
    (fun x : Method => x.answers name signature) =
      fun x : Method => decide (x.key = (name, signature)) := by
  funext x
  rw [Bool.eq_iff_iff, decide_eq_true_iff]
  simp [answers, hasSignature, haveTypes, key, Method.signature]

/-- What tells constructors apart. -/
def Constructor.key (k : Constructor) : List TypeExpr := k.params.map (·.type)

namespace BeanClass

variable {c : BeanClass}

/-- A class has a method if and only if its key is one of those of its methods. -/
theorem hasMethod_iff {name : String} {signature : List TypeExpr} :
    c.hasMethod name signature ↔ (name, signature) ∈ c.methods.map Method.key := by
  simp [hasMethod, Method.key, Method.signature, Method.hasSignature, haveTypes]

/-- A class has a constructor if and only if its key is one of those of its constructors. -/
theorem hasConstructor_iff {types : List TypeExpr} :
    c.hasConstructor types ↔ types ∈ c.constructors.map Constructor.key := by
  simp [hasConstructor, Constructor.key, Constructor.hasSignature, haveTypes]

/-- The methods among those offered that the class does not have yet. -/
def newMethods (c : BeanClass) (ms : List Method) : List Method :=
  newcomers Method.key (c.methods.map Method.key) ms

/-- The constructors among those offered that the class does not have yet. -/
def newConstructors (c : BeanClass) (ks : List Constructor) : List Constructor :=
  newcomers Constructor.key (c.constructors.map Constructor.key) ks

private theorem newMethods_cons_of_hasMethod {n : Method} {rest : List Method}
    (h : c.hasMethod n.name n.signature) : c.newMethods (n :: rest) = c.newMethods rest :=
  newcomers_cons_of_mem (hasMethod_iff.mp h)

private theorem newMethods_cons {n : Method} {rest : List Method}
    (h : ¬c.hasMethod n.name n.signature) :
    c.newMethods (n :: rest) =
      n :: { c with methods := c.methods ++ [n] }.newMethods rest := by
  have hnew : n.key ∉ c.methods.map Method.key := mt hasMethod_iff.mpr h
  simp [newMethods, newcomers_cons_of_not_mem hnew]

private theorem newConstructors_cons_of_hasConstructor {k : Constructor} {rest : List Constructor}
    (h : c.hasConstructor k.key) : c.newConstructors (k :: rest) = c.newConstructors rest :=
  newcomers_cons_of_mem (hasConstructor_iff.mp h)

private theorem newConstructors_cons {k : Constructor} {rest : List Constructor}
    (h : ¬c.hasConstructor k.key) :
    c.newConstructors (k :: rest) =
      k :: { c with constructors := c.constructors ++ [k] }.newConstructors rest := by
  have hnew : k.key ∉ c.constructors.map Constructor.key := mt hasConstructor_iff.mpr h
  simp [newConstructors, newcomers_cons_of_not_mem hnew]

/-- A method that the class does not have yet is the first one of its key that is offered. -/
theorem find?_newMethods_of_not_hasMethod {ms : List Method} {name : String}
    {signature : List TypeExpr} (h : ¬c.hasMethod name signature) :
    (c.methods ++ c.newMethods ms).find? (·.answers name signature) =
      ms.find? (·.answers name signature) := by
  have hseen : (name, signature) ∉ c.methods.map Method.key := mt hasMethod_iff.mpr h
  have hold : c.methods.find? (fun x => x.key = (name, signature)) = none := by
    refine List.find?_eq_none.mpr fun x hx heq => hseen ?_
    rw [← of_decide_eq_true heq]
    exact List.mem_map_of_mem hx
  rw [Method.answers_eq, List.find?_append, hold, Option.none_or, newMethods,
    find?_newcomers_of_not_mem hseen]

/-- A method that is new is the one of its name and signature. -/
theorem find?_newMethods {n : Method} {ms : List Method} (hn : n ∈ c.newMethods ms) :
    (c.methods ++ c.newMethods ms).find? (·.answers n.name n.signature) = some n := by
  rw [Method.answers_eq]
  exact find?_append_newcomers hn

/-- A constructor that is new is the one of its signature. -/
theorem find?_newConstructors {k : Constructor} {ks : List Constructor}
    (hk : k ∈ c.newConstructors ks) :
    (c.constructors ++ c.newConstructors ks).find? (·.hasSignature k.key) = some k := by
  have hkey : (fun x : Constructor => x.hasSignature k.key) =
      fun x : Constructor => decide (x.key = k.key) := by
    funext x
    rw [Bool.eq_iff_iff, decide_eq_true_iff]
    simp [Constructor.hasSignature, haveTypes, Constructor.key]
  rw [hkey]
  exact find?_append_newcomers hk

/-- Adding methods appends those that are new, and counts them. -/
theorem addMethods_eq (c : BeanClass) (ms : List Method) :
    ∃ tally, (c.addMethods ms).outcome =
      .ok ({ c with methods := c.methods ++ c.newMethods ms }, tally) ∧
      tally.membersAdded = (c.newMethods ms).length := by
  induction ms generalizing c with
  | nil => exact ⟨{}, by simp [addMethods, newMethods, newcomers], rfl⟩
  | cons n rest ih =>
    by_cases hn : c.hasMethod n.name n.signature
    · have hfirst : (c.addMethod n).outcome = .ok (c, .leftOut (.collision c.name n.name)) := by
        unfold addMethod
        rw [if_pos (by exact hn)]
        rfl
      obtain ⟨others, hothers, hcount⟩ := ih c
      rw [newMethods_cons_of_hasMethod hn]
      refine ⟨.leftOut (.collision c.name n.name) ++ others, ?_, ?_⟩
      · exact Step.bind_eq_ok.mpr ⟨_, hfirst, Step.bind_eq_ok.mpr ⟨_, hothers, rfl⟩⟩
      · exact (Nat.zero_add _).trans hcount
    · have hfirst : (c.addMethod n).outcome =
          .ok ({ c with methods := c.methods ++ [n] }, .synthesized) := by
        unfold addMethod
        rw [if_neg (by exact hn)]
        rfl
      obtain ⟨others, hothers, hcount⟩ := ih { c with methods := c.methods ++ [n] }
      rw [newMethods_cons hn]
      refine ⟨.synthesized ++ others, ?_, ?_⟩
      · refine Step.bind_eq_ok.mpr ⟨_, hfirst, Step.bind_eq_ok.mpr ⟨_, hothers, ?_⟩⟩
        simp
      · rw [List.length_cons, ← hcount]
        exact Nat.add_comm _ _

/-- Adding constructors appends those that are new, and counts them. -/
theorem addConstructors_eq (c : BeanClass) (ks : List Constructor) :
    ∃ tally, c.addConstructors ks =
      ({ c with constructors := c.constructors ++ c.newConstructors ks }, tally) ∧
      tally.membersAdded = (c.newConstructors ks).length := by
  induction ks generalizing c with
  | nil => exact ⟨{}, by simp [addConstructors, newConstructors, newcomers], rfl⟩
  | cons k rest ih =>
    by_cases hk : c.hasConstructor k.key
    · obtain ⟨reason, hfirst⟩ : ∃ reason, c.addConstructor k = (c, .leftOut reason) := by
        unfold addConstructor
        rw [if_pos (by exact hk)]
        exact ⟨_, rfl⟩
      obtain ⟨others, hothers, hcount⟩ := ih c
      rw [newConstructors_cons_of_hasConstructor hk]
      refine ⟨.leftOut reason ++ others, ?_, ?_⟩
      · simp only [addConstructors, hfirst, hothers]
      · exact (Nat.zero_add _).trans hcount
    · have hfirst : c.addConstructor k =
          ({ c with constructors := c.constructors ++ [k] }, .synthesized) := by
        unfold addConstructor
        rw [if_neg (by exact hk)]
      obtain ⟨others, hothers, hcount⟩ := ih { c with constructors := c.constructors ++ [k] }
      rw [newConstructors_cons hk]
      refine ⟨.synthesized ++ others, ?_, ?_⟩
      · simp [addConstructors, hfirst, hothers]
      · rw [List.length_cons, ← hcount]
        exact Nat.add_comm _ _

end BeanClass

end BeanSynthesis
