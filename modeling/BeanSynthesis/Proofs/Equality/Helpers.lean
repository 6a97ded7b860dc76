import BeanSynthesis.Proofs.Execution.Rules
import BeanSynthesis.Synthesis.Pass.Equality

/-!
# Helpers of equality and hash codes

What generated `equals` and `hashCode` rely on: comparisons that are equivalences and can deal with
`null`, and hash functions that respect them. Which comparison goes with a field is decided by the
category of its type.
-/

namespace BeanSynthesis

/-- A static method of two arguments that tells whether they are equal, with the static type of the
arguments. -/
structure Comparison where
  owner : String
  method : String
  type : Option TypeExpr

namespace Comparison

/-- The comparison holds of two values. -/
def Relates (k : Comparison) (outside : Outside) (h : Heap) (v w : Value) : Prop :=
  outside.static k.owner k.method [⟨v, k.type⟩, ⟨w, k.type⟩] h = some (.bool true, h)

/-- A comparison that answers for all values, `null` among them, and is an equivalence. -/
structure Lawful (k : Comparison) (outside : Outside) (h : Heap) : Prop where
  total : ∀ v w, ∃ b : Bool,
    outside.static k.owner k.method [⟨v, k.type⟩, ⟨w, k.type⟩] h = some (.bool b, h)
  refl : ∀ v, k.Relates outside h v v
  symm : ∀ v w, k.Relates outside h v w → k.Relates outside h w v
  trans : ∀ u v w, k.Relates outside h u v → k.Relates outside h v w → k.Relates outside h u w

/-- A lawful comparison answers whether it holds. -/
theorem Lawful.answer {k : Comparison} {outside : Outside} {h : Heap} (hk : k.Lawful outside h)
    (v w : Value) : ∃ b : Bool,
      outside.static k.owner k.method [⟨v, k.type⟩, ⟨w, k.type⟩] h = some (.bool b, h) ∧
        (b = true ↔ k.Relates outside h v w) := by
  obtain ⟨b, hb⟩ := hk.total v w
  refine ⟨b, hb, ?_⟩
  unfold Relates
  rw [hb]
  simp

end Comparison

/-- A static method of one argument that gives a hash code. -/
structure Digest where
  owner : String
  method : String
  type : Option TypeExpr

/-- A hash function that answers for all values, and alike for values that a comparison relates. -/
structure Digest.Respects (d : Digest) (k : Comparison) (outside : Outside) (h : Heap) : Prop where
  total : ∀ v, ∃ i, outside.static d.owner d.method [⟨v, d.type⟩] h = some (.int i, h)
  eq : ∀ v w, k.Relates outside h v w →
    outside.static d.owner d.method [⟨v, d.type⟩] h =
      outside.static d.owner d.method [⟨w, d.type⟩] h

/-- The static type under which lists of wrapped elements are compared: a cast leaves it open. -/
def Equality.comparedType (m : CodeModel) (t : TypeExpr) (declared : Option TypeExpr) :
    Option TypeExpr :=
  if needsCast m t then none else declared

namespace RuntimeClasses

variable (runtime : RuntimeClasses)

/-- The comparison of values of no particular kind. -/
def plain (type : Option TypeExpr) : Comparison := ⟨runtime.equalsHelper, "equals", type⟩

/-- The comparison of collections. -/
def collections (type : Option TypeExpr) : Comparison :=
  ⟨runtime.collectionEqualsHelper, "equalsCollection", type⟩

/-- The comparison of lists of content of any kind. -/
def anyLists (type : Option TypeExpr) : Comparison := ⟨runtime.jaxbHelper, "equalListAnys", type⟩

/-- The comparison of lists of wrapped elements. -/
def wrappedLists (type : Option TypeExpr) : Comparison :=
  ⟨runtime.jaxbHelper, "equalListJAXBElements", type⟩

/-- The comparison of wrapped elements. -/
def wrapped (type : Option TypeExpr) : Comparison := ⟨runtime.jaxbHelper, "equalJAXBElements", type⟩

/-- The type of the nodes of a document. -/
def nodeType : TypeExpr := .ofName runtime.domNode

/-- The comparison of nodes of a document. -/
def nodes : Comparison := ⟨runtime.jaxbHelper, "equalDOMNodes", some runtime.nodeType⟩

/-- The comparison of two fields of a type, unless both hold nodes. -/
def comparison (m : CodeModel) (t : TypeExpr) (declared : Option TypeExpr) : Comparison :=
  match m.category t with
  | .collectionOfWrappedUnionElement => runtime.wrappedLists (Equality.comparedType m t declared)
  | .collectionOfAny => runtime.anyLists declared
  | .collectionOfOther => runtime.collections declared
  | .wrappedUnionElement => runtime.wrapped declared
  | _ => runtime.plain declared

end RuntimeClasses

namespace Program

variable (p : Program) (runtime : RuntimeClasses) (h : Heap)

/-- Whether a value is a node of a document. -/
def isNode (v : Value) : Bool := p.isInstance h v runtime.nodeType

/-- The values of a field in two objects are equal, as the comparison for the type of the field has
it. Where a field may hold any object, two nodes are compared as nodes. -/
def Related (t : TypeExpr) (declared : Option TypeExpr) (v w : Value) : Prop :=
  if p.model.category t = .genericObject ∧ p.isNode runtime h v ∧ p.isNode runtime h w then
    runtime.nodes.Relates p.outside h v w
  else (runtime.comparison p.model t declared).Relates p.outside h v w

/-- What is relied on in comparisons. -/
structure ComparesLawfully : Prop where
  plain : ∀ type, (runtime.plain type).Lawful p.outside h
  collections : ∀ type, (runtime.collections type).Lawful p.outside h
  anyLists : ∀ type, (runtime.anyLists type).Lawful p.outside h
  wrappedLists : ∀ type, (runtime.wrappedLists type).Lawful p.outside h
  wrapped : ∀ type, (runtime.wrapped type).Lawful p.outside h
  nodes : runtime.nodes.Lawful p.outside h
  /-- A node never equals a value that is none. -/
  isNode_of_plain : ∀ type v w, (runtime.plain type).Relates p.outside h v w →
    (p.isNode runtime h v ↔ p.isNode runtime h w)
  uncheckedCast : ∀ t : Typed,
    p.outside.static runtime.genericReflection "uncheckedCast" [t] h = some (t.value, h)

/-- The states of hash code generators. -/
inductive IsGenerator : Nat → Prop where
  | start {t : Typed} {type : Option TypeExpr} {g : Nat} :
      (∀ calls, p.construct calls (.ofName runtime.hashCodeGenerator) [t] h =
        some (⟨.token g, type⟩, h)) → IsGenerator g
  | derived {t : Typed} {g : Nat} :
      p.outside.static runtime.hashCodeGenerator "getDerived" [t] h = some (.token g, h) →
      IsGenerator g
  | append {g g' : Nat} {t : Typed} : IsGenerator g →
      p.outside.invoke (.token g) "append" [t] h = some (.token g', h) → IsGenerator g'

/-- A generator takes in alike what a comparison relates. -/
def Absorbs (k : Comparison) : Prop :=
  ∀ g v w, IsGenerator p runtime h g → k.Relates p.outside h v w →
    p.outside.invoke (.token g) "append" [⟨v, k.type⟩] h =
      p.outside.invoke (.token g) "append" [⟨w, k.type⟩] h

/-- What is relied on in hash codes. -/
structure HashesLawfully : Prop where
  /-- A generator that starts from an object depends on nothing but the class of the object. -/
  start : ∀ className type, ∃ g, ∀ v, p.className? h v = some className → ∀ calls,
    p.construct calls (.ofName runtime.hashCodeGenerator) [⟨v, type⟩] h =
      some (⟨.token g, some (.ofName runtime.hashCodeGenerator)⟩, h)
  derived : ∀ i, ∃ g, p.outside.static runtime.hashCodeGenerator "getDerived"
    [⟨.int i, some (.primitive .int)⟩] h = some (.token g, h)
  append : ∀ g t, IsGenerator p runtime h g →
    ∃ g', p.outside.invoke (.token g) "append" [t] h = some (.token g', h)
  getHashCode : ∀ g, IsGenerator p runtime h g →
    ∃ i, p.outside.invoke (.token g) "getHashCode" [] h = some (.int i, h)
  plain : ∀ type, p.Absorbs runtime h (runtime.plain type)
  collections : ∀ type, p.Absorbs runtime h (runtime.collections type)
  anyLists : ∀ type, Digest.Respects ⟨runtime.jaxbHelper, "getListAnyHashCode", type⟩
    (runtime.anyLists type) p.outside h
  wrappedLists : ∀ type, Digest.Respects ⟨runtime.jaxbHelper, "getListJAXBElementHashCode", type⟩
    (runtime.wrappedLists type) p.outside h
  wrapped : ∀ type, Digest.Respects ⟨runtime.jaxbHelper, "getHashCode", type⟩
    (runtime.wrapped type) p.outside h
  nodes : Digest.Respects ⟨runtime.jaxbHelper, "getHashCode", some runtime.nodeType⟩
    runtime.nodes p.outside h
  objects : ∀ type, Digest.Respects ⟨runtime.hashCodeCalculator, "hashCode", type⟩
    (runtime.plain type) p.outside h

end Program

namespace Program.ComparesLawfully

variable {p : Program} {runtime : RuntimeClasses} {h : Heap}

/-- Every comparison that goes with a type is lawful. -/
theorem comparison (hp : p.ComparesLawfully runtime h) (t : TypeExpr)
    (declared : Option TypeExpr) : (runtime.comparison p.model t declared).Lawful p.outside h := by
  unfold RuntimeClasses.comparison
  split
  · exact hp.wrappedLists _
  · exact hp.anyLists _
  · exact hp.collections _
  · exact hp.wrapped _
  · exact hp.plain _

/-- A generic object that is no node is compared plainly. -/
theorem comparison_genericObject {t : TypeExpr} (ht : p.model.category t = .genericObject)
    (declared : Option TypeExpr) :
    runtime.comparison p.model t declared = runtime.plain declared := by
  simp [RuntimeClasses.comparison, ht]

variable (hp : p.ComparesLawfully runtime h) {t : TypeExpr} {declared : Option TypeExpr}
  {u v w : Value}
include hp

/-- Every value is related to itself. -/
theorem related_refl (v : Value) : p.Related runtime h t declared v v := by
  unfold Related
  split
  · exact hp.nodes.refl v
  · exact (hp.comparison t declared).refl v

/-- Related values are related the other way round. -/
theorem related_symm (hvw : p.Related runtime h t declared v w) :
    p.Related runtime h t declared w v := by
  unfold Related at hvw ⊢
  split at hvw
  case isTrue hnodes =>
    rw [if_pos ⟨hnodes.1, hnodes.2.2, hnodes.2.1⟩]
    exact hp.nodes.symm v w hvw
  case isFalse hnodes =>
    rw [if_neg fun h => hnodes ⟨h.1, h.2.2, h.2.1⟩]
    exact (hp.comparison t declared).symm v w hvw

/-- Related values are nodes alike, where nodes are told from other objects. -/
theorem isNode_iff (ht : p.model.category t = .genericObject)
    (hvw : p.Related runtime h t declared v w) : p.isNode runtime h v ↔ p.isNode runtime h w := by
  unfold Related at hvw
  split at hvw
  case isTrue hnodes => exact iff_of_true hnodes.2.1 hnodes.2.2
  case isFalse _ =>
    rw [comparison_genericObject ht] at hvw
    exact hp.isNode_of_plain _ v w hvw

/-- Values that are related to one value are related to each other. -/
theorem related_trans (huv : p.Related runtime h t declared u v)
    (hvw : p.Related runtime h t declared v w) : p.Related runtime h t declared u w := by
  by_cases ht : p.model.category t = .genericObject
  · have hu := hp.isNode_iff ht huv
    have hv := hp.isNode_iff ht hvw
    unfold Related at huv hvw ⊢
    by_cases hnode : p.isNode runtime h v
    · rw [if_pos ⟨ht, hu.mpr hnode, hnode⟩] at huv
      rw [if_pos ⟨ht, hnode, hv.mp hnode⟩] at hvw
      rw [if_pos ⟨ht, hu.mpr hnode, hv.mp hnode⟩]
      exact hp.nodes.trans u v w huv hvw
    · rw [if_neg fun h => hnode h.2.2] at huv
      rw [if_neg fun h => hnode h.2.1] at hvw
      rw [if_neg fun h => hnode (hv.mpr h.2.2)]
      exact (hp.comparison t declared).trans u v w huv hvw
  · unfold Related at huv hvw ⊢
    rw [if_neg fun h => ht h.1] at huv hvw ⊢
    exact (hp.comparison t declared).trans u v w huv hvw

end Program.ComparesLawfully

/-! ## Helpers that go by outlines

The laws of comparisons and hash codes are met by helpers that compare values by an outline: of an
object they look at the class alone, and of any other value at all of it. Whatever compares by what
it sees of each value is an equivalence, and hash codes of what is seen respect it.
-/

/-- What is seen of a value: the class of an object, or the value itself. -/
def outline (h : Heap) : Value → Option String × Option Value
  | .ref a => (h[a]?.bind Cell.className?, none)
  | v => (none, some v)

/-- A number that goes with what is seen of a value. -/
def outlineCode (h : Heap) (v : Value) : Nat :=
  match (outline h v).2 with
  | some (.text s) => s.length
  | some (.int i) => i.toNat
  | _ => 0

/-- A copy of an object of a class outside the model; anything else is its own copy. -/
def copyForeign (v : Value) (h : Heap) : Value × Heap :=
  match v with
  | .ref a =>
    match h[a]? with
    | some (.foreign className parts) => (.ref h.length, h ++ [.foreign className parts])
    | _ => (v, h)
  | _ => (v, h)

/-- A copy of an array. -/
def copyArray (v : Value) (h : Heap) : Option (Value × Heap) :=
  match v with
  | .ref a =>
    match h[a]? with
    | some (.array items) => some (.ref h.length, h ++ [.array items])
    | _ => none
  | .null => some (.null, h)
  | _ => none

/-- Helpers that compare values by their outlines. The state of a hash code generator is a number,
and it starts from zero. -/
def Outside.byOutline (belongs : String → TypeExpr → Bool) : Outside where
  static _ method args h :=
    match method, args with
    | "uncheckedCast", [t] => some (t.value, h)
    | "getDerived", [t] => some (.token (outlineCode h t.value), h)
    | "getClonedJAXBElement", [t] => some (copyForeign t.value h)
    | "getCopy", [t] => copyArray t.value h
    | _, [s, t] => some (.bool (outline h s.value == outline h t.value), h)
    | _, [t] => some (.int (outlineCode h t.value), h)
    | _, _ => none
  constant _ _ := none
  construct _ _ h := some (.token 0, h)
  invoke v name args h :=
    match v, name, args with
    | .token g, "append", [t] => some (.token (31 * g + outlineCode h t.value), h)
    | .token g, "getHashCode", [] => some (.int g, h)
    | v, "clone", [] => some (copyForeign v h)
    | _, _, _ => none
  signatures _ _ := []
  classOf _ := "java.lang.Object"
  belongs := belongs

namespace Outside

variable {belongs : String → TypeExpr → Bool} {h : Heap} {runtime : RuntimeClasses} {m : CodeModel}

private theorem byOutline_lawful {k : Comparison}
    (hk : ∀ v w, (byOutline belongs).static k.owner k.method [⟨v, k.type⟩, ⟨w, k.type⟩] h =
      some (.bool (outline h v == outline h w), h)) : k.Lawful (byOutline belongs) h := by
  have hiff : ∀ v w, k.Relates (byOutline belongs) h v w ↔ outline h v = outline h w := by
    intro v w
    simp [Comparison.Relates, hk]
  exact {
    total := fun v w => ⟨_, hk v w⟩
    refl := fun v => (hiff v v).mpr rfl
    symm := fun v w hvw => (hiff w v).mpr ((hiff v w).mp hvw).symm
    trans := fun u v w huv hvw =>
      (hiff u w).mpr (((hiff u v).mp huv).trans ((hiff v w).mp hvw)) }

/-- The class of a value shows in its outline. -/
theorem className?_eq_of_outline {v w : Value} (hvw : outline h v = outline h w) :
    Program.className? ⟨m, byOutline belongs⟩ h v =
      Program.className? ⟨m, byOutline belongs⟩ h w := by
  cases v <;> cases w <;> simp_all [outline, Program.className?]

private theorem outlineCode_eq {v w : Value} (hvw : outline h v = outline h w) :
    outlineCode h v = outlineCode h w := by
  unfold outlineCode
  rw [hvw]

/-- The laws of comparisons hold of outlines. -/
theorem byOutline_compares :
    Program.ComparesLawfully ⟨m, byOutline belongs⟩ runtime h where
  plain type := byOutline_lawful fun _ _ => rfl
  collections type := byOutline_lawful fun _ _ => rfl
  anyLists type := byOutline_lawful fun _ _ => rfl
  wrappedLists type := byOutline_lawful fun _ _ => rfl
  wrapped type := byOutline_lawful fun _ _ => rfl
  nodes := byOutline_lawful fun _ _ => rfl
  isNode_of_plain type v w hvw := by
    have houtline : outline h v = outline h w := by
      simpa [Comparison.Relates, RuntimeClasses.plain, byOutline] using hvw
    unfold Program.isNode Program.isInstance
    rw [className?_eq_of_outline houtline]
  uncheckedCast t := rfl

/-- The laws of hash codes hold of outlines, where the class of generators is none of the model. -/
theorem byOutline_hashes (hnone : m.class? runtime.hashCodeGenerator = none)
    (hne : runtime.hashCodeGenerator ≠ "java.util.HashMap") :
    Program.HashesLawfully ⟨m, byOutline belongs⟩ runtime h := by
  have hseen : ∀ {k : Comparison} {v w : Value},
      (byOutline belongs).static k.owner k.method [⟨v, k.type⟩, ⟨w, k.type⟩] h =
        some (.bool (outline h v == outline h w), h) →
      k.Relates (byOutline belongs) h v w → outlineCode h v = outlineCode h w := by
    intro k v w hk hvw
    refine outlineCode_eq ?_
    simpa [Comparison.Relates, hk] using hvw
  have habsorbs : ∀ {k : Comparison},
      (∀ v w, (byOutline belongs).static k.owner k.method [⟨v, k.type⟩, ⟨w, k.type⟩] h =
        some (.bool (outline h v == outline h w), h)) →
      Program.Absorbs ⟨m, byOutline belongs⟩ runtime h k := by
    intro k hk g v w _ hvw
    change some (Value.token (31 * g + outlineCode h v), h) =
      some (.token (31 * g + outlineCode h w), h)
    rw [hseen (hk v w) hvw]
  have hdigest : ∀ {d : Digest} {k : Comparison},
      (∀ v, (byOutline belongs).static d.owner d.method [⟨v, d.type⟩] h =
        some (.int (outlineCode h v), h)) →
      (∀ v w, (byOutline belongs).static k.owner k.method [⟨v, k.type⟩, ⟨w, k.type⟩] h =
        some (.bool (outline h v == outline h w), h)) →
      d.Respects k (byOutline belongs) h := by
    intro d k hd hk
    refine ⟨fun v => ⟨_, hd v⟩, fun v w hvw => ?_⟩
    rw [hd v, hd w, hseen (hk v w) hvw]
  exact {
    start := fun className type => ⟨0, fun v _ calls =>
      Program.construct_of_outside calls hne (by simp [CodeModel.lineNamed, hnone])⟩
    derived := fun i => ⟨_, rfl⟩
    append := fun g t _ => ⟨_, rfl⟩
    getHashCode := fun g _ => ⟨_, rfl⟩
    plain := fun type => habsorbs fun _ _ => rfl
    collections := fun type => habsorbs fun _ _ => rfl
    anyLists := fun type => hdigest (fun _ => rfl) fun _ _ => rfl
    wrappedLists := fun type => hdigest (fun _ => rfl) fun _ _ => rfl
    wrapped := fun type => hdigest (fun _ => rfl) fun _ _ => rfl
    nodes := hdigest (fun _ => rfl) fun _ _ => rfl
    objects := fun type => hdigest (fun _ => rfl) fun _ _ => rfl }

end Outside

end BeanSynthesis
