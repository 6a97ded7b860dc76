import BeanSynthesis.Proofs.Equality.Helpers
import BeanSynthesis.Proofs.Execution.Objects

/-!
# Comparing and hashing one field

The expression that `equals` has for a field tells whether the values of the field are related, and
the expression that `hashCode` has for it gives a generator the same for related values.
-/

namespace BeanSynthesis.Equality

variable {p : Program} {runtime : RuntimeClasses} {h : Heap} {frame : Frame} {e lhs rhs : Expr}
  {v w : Value} {t : TypeExpr} {declared : Option TypeExpr}

/-- A comparison of two values, as an expression. -/
theorem tests_comparison {k : Comparison} (hk : k.Lawful p.outside h)
    (hlhs : p.Evals frame h lhs ⟨v, k.type⟩ h) (hrhs : p.Evals frame h rhs ⟨w, k.type⟩ h) :
    ∃ b, p.Tests frame h (.static k.owner k.method [lhs, rhs]) b ∧
      (b = true ↔ k.Relates p.outside h v w) := by
  obtain ⟨b, hcall, hb⟩ := hk.answer v w
  exact ⟨b, ⟨none, .static (.two hlhs hrhs) hcall⟩, hb⟩

/-- An expression keeps its value when it is cast, and loses its static type if a cast is needed. -/
theorem evals_castIf (hp : p.ComparesLawfully runtime h)
    (he : p.Evals frame h e ⟨v, declared⟩ h) (t : TypeExpr) :
    p.Evals frame h (castIf runtime (needsCast p.model t) e)
      ⟨v, comparedType p.model t declared⟩ h := by
  unfold castIf comparedType
  split
  · exact .static (.one he) (hp.uncheckedCast _)
  · exact he

/-- Apart from fields of any object, fields are compared by one static method. -/
theorem fieldEquals_eq (frame : Frame) (hp : p.ComparesLawfully runtime h) (f : InstanceField)
    (hcategory : p.model.category f.type ≠ .genericObject) (declared : Option TypeExpr) :
    let k := runtime.comparison p.model f.type declared
    ∃ prepare : Expr → Expr,
      fieldEquals runtime p.model f =
        .static k.owner k.method
          [prepare (.ident f.name), prepare ((Expr.ident "rhs").field f.name)]
      ∧ ∀ e v, p.Evals frame h e ⟨v, declared⟩ h → p.Evals frame h (prepare e) ⟨v, k.type⟩ h := by
  cases hkind : p.model.category f.type with
  | collectionOfWrappedUnionElement =>
    refine ⟨castIf runtime (needsCast p.model f.type), ?_, fun e v he => ?_⟩
    · simp [fieldEquals, RuntimeClasses.comparison, hkind, RuntimeClasses.wrappedLists]
    · simp only [RuntimeClasses.comparison, hkind]
      exact evals_castIf hp he f.type
  | genericObject => exact absurd hkind hcategory
  | _ =>
    refine ⟨id, ?_, fun e v he => ?_⟩
    · simp [fieldEquals, RuntimeClasses.comparison, hkind, RuntimeClasses.anyLists,
        RuntimeClasses.collections, RuntimeClasses.wrapped, RuntimeClasses.plain]
    · simp only [RuntimeClasses.comparison, hkind]
      exact he

/-- A node may be cast to the type of nodes. -/
theorem admits_of_isNode (hv : p.isNode runtime h v) : p.admits h v runtime.nodeType := by
  have hinstance : p.isInstance h v runtime.nodeType = true := hv
  simp [Program.admits, RuntimeClasses.nodeType, TypeExpr.ofName] at hinstance ⊢
  exact .inr hinstance

/-- The comparison of a field tells whether its values are related. -/
theorem tests_fieldEquals (hp : p.ComparesLawfully runtime h) (f : InstanceField)
    (hmine : p.Evals frame h (.ident f.name) ⟨v, declared⟩ h)
    (htheirs : p.Evals frame h ((Expr.ident "rhs").field f.name) ⟨w, declared⟩ h) :
    ∃ b, p.Tests frame h (fieldEquals runtime p.model f) b ∧
      (b = true ↔ p.Related runtime h f.type declared v w) := by
  by_cases hcategory : p.model.category f.type = .genericObject
  · have htest : p.Tests frame h
        (((Expr.ident f.name).instanceOf runtime.nodeType).and
          (((Expr.ident "rhs").field f.name).instanceOf runtime.nodeType))
        (p.isNode runtime h v && p.isNode runtime h w) :=
      (Program.Tests.instanceOf hmine).and fun _ => .instanceOf htheirs
    have heq : fieldEquals runtime p.model f =
        .cond (((Expr.ident f.name).instanceOf runtime.nodeType).and
            (((Expr.ident "rhs").field f.name).instanceOf runtime.nodeType))
          (.static runtime.jaxbHelper "equalDOMNodes" [.cast runtime.nodeType (.ident f.name),
            .cast runtime.nodeType ((Expr.ident "rhs").field f.name)])
          (.static runtime.equalsHelper "equals" [.ident f.name,
            (Expr.ident "rhs").field f.name]) := by
      simp only [fieldEquals, hcategory]
      rfl
    rw [heq]
    unfold Program.Related
    by_cases hnodes : p.isNode runtime h v ∧ p.isNode runtime h w
    · rw [if_pos ⟨hcategory, hnodes⟩]
      obtain ⟨b, ⟨type, hcompare⟩, hb⟩ := tests_comparison hp.nodes
        (hmine.cast (admits_of_isNode hnodes.1)) (htheirs.cast (admits_of_isNode hnodes.2))
      refine ⟨b, ⟨type, .cond htest ?_⟩, hb⟩
      rw [if_pos (by simpa using hnodes)]
      exact hcompare
    · rw [if_neg fun h => hnodes h.2, Program.ComparesLawfully.comparison_genericObject hcategory]
      obtain ⟨b, ⟨type, hcompare⟩, hb⟩ := tests_comparison (hp.plain declared) hmine htheirs
      refine ⟨b, ⟨type, .cond htest ?_⟩, hb⟩
      rw [if_neg (by simpa using hnodes)]
      exact hcompare
  · obtain ⟨prepare, heq, hprepare⟩ := fieldEquals_eq frame hp f hcategory declared
    obtain ⟨b, htest, hb⟩ := tests_comparison (hp.comparison f.type declared)
      (hprepare _ _ hmine) (hprepare _ _ htheirs)
    refine ⟨b, heq ▸ htest, ?_⟩
    unfold Program.Related
    rw [if_neg fun h => hcategory h.1, hb]

/-! ## Hashing -/

variable {mine theirs : Frame} {e' : Expr}

/-- For two objects, an expression has values that every generator takes in alike. -/
def HashedAlike (p : Program) (runtime : RuntimeClasses) (h : Heap) (mine theirs : Frame)
    (e : Expr) : Prop :=
  ∃ s t, p.Evals mine h e s h ∧ p.Evals theirs h e t h ∧
    ∀ g, p.IsGenerator runtime h g →
      p.outside.invoke (.token g) "append" [s] h = p.outside.invoke (.token g) "append" [t] h

/-- The hash code of related values is one and the same. -/
theorem hashedAlike_digest {d : Digest} {k : Comparison} (hd : d.Respects k p.outside h)
    (hvw : k.Relates p.outside h v w) (hmine : p.Evals mine h e ⟨v, d.type⟩ h)
    (htheirs : p.Evals theirs h e ⟨w, d.type⟩ h) :
    HashedAlike p runtime h mine theirs (.static d.owner d.method [e]) := by
  obtain ⟨i, hi⟩ := hd.total v
  have hi' := hi
  rw [hd.eq v w hvw] at hi'
  exact ⟨_, _, .static (.one hmine) hi, .static (.one htheirs) hi', fun _ _ => rfl⟩

private theorem HashedAlike.cond {test yes no : Expr} {b : Bool} (htest : p.Tests mine h test b)
    (htest' : p.Tests theirs h test b)
    (he : HashedAlike p runtime h mine theirs (if b then yes else no)) :
    HashedAlike p runtime h mine theirs (.cond test yes no) := by
  obtain ⟨s, t, hs, ht, hsame⟩ := he
  exact ⟨s, t, .cond htest hs, .cond htest' ht, hsame⟩

/-- What a field of any object adds to a hash code. -/
theorem hashedAlike_genericObject (hp : p.ComparesLawfully runtime h)
    (hh : p.HashesLawfully runtime h) {f : InstanceField}
    (hcategory : p.model.category f.type = .genericObject)
    (hvw : p.Related runtime h f.type declared v w)
    (hmine : p.Evals mine h (.ident f.name) ⟨v, declared⟩ h)
    (htheirs : p.Evals theirs h (.ident f.name) ⟨w, declared⟩ h) :
    HashedAlike p runtime h mine theirs (fieldHash runtime p.model f) := by
  have heq : fieldHash runtime p.model f =
      .cond ((Expr.ident f.name).instanceOf runtime.nodeType)
        (.static runtime.jaxbHelper "getHashCode" [.cast runtime.nodeType (.ident f.name)])
        (.static runtime.hashCodeCalculator "hashCode" [.ident f.name]) := by
    simp only [fieldHash, hcategory]
    rfl
  have hnode : p.isNode runtime h v = p.isNode runtime h w :=
    Bool.eq_iff_iff.mpr (hp.isNode_iff hcategory hvw)
  have htest' : p.Tests theirs h ((Expr.ident f.name).instanceOf runtime.nodeType)
      (p.isNode runtime h v) := by
    rw [hnode]
    exact .instanceOf htheirs
  rw [heq]
  refine .cond (.instanceOf hmine) htest' ?_
  unfold Program.Related at hvw
  split
  case isTrue hv =>
    have hw : p.isNode runtime h w := hnode ▸ hv
    rw [if_pos ⟨hcategory, hv, hw⟩] at hvw
    exact hashedAlike_digest hh.nodes hvw (hmine.cast (admits_of_isNode hv))
      (htheirs.cast (admits_of_isNode hw))
  case isFalse hv =>
    rw [if_neg fun h => hv h.2.1,
      Program.ComparesLawfully.comparison_genericObject hcategory] at hvw
    exact hashedAlike_digest (hh.objects declared) hvw hmine htheirs

/-- What a field adds to a hash code is no different for related values. -/
theorem hashedAlike_fieldHash (hp : p.ComparesLawfully runtime h)
    (hh : p.HashesLawfully runtime h) (f : InstanceField)
    (hvw : p.Related runtime h f.type declared v w)
    (hmine : p.Evals mine h (.ident f.name) ⟨v, declared⟩ h)
    (htheirs : p.Evals theirs h (.ident f.name) ⟨w, declared⟩ h) :
    HashedAlike p runtime h mine theirs (fieldHash runtime p.model f) := by
  by_cases hcategory : p.model.category f.type = .genericObject
  · exact hashedAlike_genericObject hp hh hcategory hvw hmine htheirs
  · unfold Program.Related at hvw
    rw [if_neg fun h => hcategory h.1] at hvw
    unfold RuntimeClasses.comparison at hvw
    unfold fieldHash
    cases hkind : p.model.category f.type with
    | collectionOfWrappedUnionElement =>
      simp only [hkind] at hvw ⊢
      exact hashedAlike_digest (hh.wrappedLists _) hvw (evals_castIf hp hmine f.type)
        (evals_castIf hp htheirs f.type)
    | collectionOfAny =>
      simp only [hkind] at hvw ⊢
      exact hashedAlike_digest (hh.anyLists _) hvw hmine htheirs
    | wrappedUnionElement =>
      simp only [hkind] at hvw ⊢
      exact hashedAlike_digest (hh.wrapped _) hvw hmine htheirs
    | collectionOfOther =>
      simp only [hkind] at hvw ⊢
      exact ⟨_, _, hmine, htheirs, fun g hg => hh.collections declared g v w hg hvw⟩
    | genericObject => exact absurd hkind hcategory
    | _ =>
      simp only [hkind] at hvw ⊢
      exact ⟨_, _, hmine, htheirs, fun g hg => hh.plain declared g v w hg hvw⟩

/-- Two objects lead an expression to one and the same generator. -/
def GeneratedAlike (p : Program) (runtime : RuntimeClasses) (h : Heap) (mine theirs : Frame)
    (e : Expr) : Prop :=
  ∃ g type, p.IsGenerator runtime h g ∧ p.Evals mine h e ⟨.token g, type⟩ h ∧
    p.Evals theirs h e ⟨.token g, type⟩ h

/-- A generator that is the same for two objects stays so when it takes in a field. -/
theorem GeneratedAlike.append (hh : p.HashesLawfully runtime h)
    (he : GeneratedAlike p runtime h mine theirs e)
    (he' : HashedAlike p runtime h mine theirs e') :
    GeneratedAlike p runtime h mine theirs (e.invoke "append" [e']) := by
  obtain ⟨g, type, hg, hmine, htheirs⟩ := he
  obtain ⟨s, t, hs, ht, hsame⟩ := he'
  obtain ⟨g', hg'⟩ := hh.append g s hg
  have hg'' := hg'
  rw [hsame g hg] at hg''
  refine ⟨g', none, .append hg hg', .invoke hmine (.one hs) (.of_eq fun calls => ?_),
    .invoke htheirs (.one ht) (.of_eq fun calls => ?_)⟩
  · rw [Program.invoke_token calls _ _ (by decide), hg', Option.map_some]
  · rw [Program.invoke_token calls _ _ (by decide), hg'', Option.map_some]

/-- The hash code of a generator that is the same for two objects. -/
theorem GeneratedAlike.getHashCode (hh : p.HashesLawfully runtime h)
    (he : GeneratedAlike p runtime h mine theirs e) :
    ∃ i, p.Evals mine h (e.invoke "getHashCode" []) ⟨.int i, none⟩ h ∧
      p.Evals theirs h (e.invoke "getHashCode" []) ⟨.int i, none⟩ h := by
  obtain ⟨g, type, hg, hmine, htheirs⟩ := he
  obtain ⟨i, hi⟩ := hh.getHashCode g hg
  refine ⟨i, .invoke hmine .nil (.of_eq fun calls => ?_),
    .invoke htheirs .nil (.of_eq fun calls => ?_)⟩
  · rw [Program.invoke_token calls _ _ (by decide), hi, Option.map_some]
  · rw [Program.invoke_token calls _ _ (by decide), hi, Option.map_some]

end BeanSynthesis.Equality
