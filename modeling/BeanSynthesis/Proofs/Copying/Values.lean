import BeanSynthesis.Proofs.Copying.Graphs

/-!
# Copies of single values

The expression for the copy of a value gives a copy, whatever expression stands for the value. It
leaves every cell as it was and only adds new ones.
-/

namespace BeanSynthesis

/-- What is relied on when code outside the model copies: it answers, and it changes nothing that
was there before. The helper for arrays copies one level. -/
structure Program.HelpsToCopy (p : Program) (runtime : RuntimeClasses) : Prop where
  getCopy_null : ∀ type h,
    p.outside.static runtime.arrayHelper "getCopy" [⟨.null, type⟩] h = some (.null, h)
  getCopy : ∀ type h a items, h[a]? = some (.array items) →
    p.outside.static runtime.arrayHelper "getCopy" [⟨.ref a, type⟩] h =
      some (.ref h.length, h ++ [.array items])
  wrapped : ∀ t h, h.IsForeignOrNull t.value → ∃ w h',
    p.outside.static runtime.jaxbHelper "getClonedJAXBElement" [t] h = some (w, h') ∧
      h.Extends h'
  clone : ∀ h a className parts, h[a]? = some (.foreign className parts) →
    ∃ w h', p.outside.invoke (.ref a) "clone" [] h = some (w, h') ∧ h.Extends h' ∧
      p.className? h' w = some className

namespace Copying

section

variable (p : Program) (runtime : RuntimeClasses) (P : BeanClass → Prop) (base : Heap)
  (place : Place) (t : TypeExpr) (v : Value)

/-- In every heap that has grown out of the base, the expression for the copy of a value gives a
copy of it, and changes no cell. -/
def CopiesValue : Prop :=
  ∀ h frame e declared, base.Extends h → p.Evals frame h e ⟨v, declared⟩ h →
    ∃ w type h', p.Evals frame h (copyOf runtime p.model t e) ⟨w, type⟩ h' ∧ h.Extends h' ∧
      Lasting base h.length h' fun k => Copied p runtime P base k place t v w

/-- In every heap that has grown out of the base, the method `clone` of a value gives a copy of it,
and changes no cell. -/
def CopiesByClone : Prop :=
  ∀ h declared, base.Extends h →
    ∃ w type h', p.Yields (fun calls => p.invoke calls ⟨v, declared⟩ "clone" [] h)
        (⟨w, type⟩, h') ∧ h.Extends h' ∧
      Lasting base h.length h' fun k => Copied p runtime P base k place t v w

end

variable {p : Program} {runtime : RuntimeClasses} {P : BeanClass → Prop} {base h h' : Heap}
  {place : Place} {t : TypeExpr} {v : Value} {frame : Frame} {e alternative : Expr}
  {declared : Option TypeExpr}

/-- A value that is null is kept as null. -/
theorem evals_nullOr_of_null (he : p.Evals frame h e ⟨.null, declared⟩ h) :
    p.Evals frame h (e.nullOr alternative) ⟨.null, none⟩ h :=
  .cond (.isNull he) .null

/-- A value that is not null gets the alternative. -/
theorem evals_nullOr (he : p.Evals frame h e ⟨v, declared⟩ h) (hv : v ≠ .null) {w : Typed}
    (halternative : p.Evals frame h alternative w h') :
    p.Evals frame h (e.nullOr alternative) w h' := by
  have htest := Program.Tests.isNull he
  rw [beq_false_of_ne hv] at htest
  exact .cond htest halternative

/-- A shared value is its own copy. -/
theorem copiesValue_shared (hway : p.model.way place t = .shared)
    (hcategory : (p.model.category t).way = .shared) :
    CopiesValue p runtime P base place t v := by
  intro h frame e declared hbase he
  refine ⟨v, declared, h, ?_, .refl h, fun k _ => .shared hway⟩
  rwa [copyOf_eq, hcategory]

/-- Null is copied to null, unless it is shared or wrapped. -/
theorem copiesValue_null (hhelps : p.HelpsToCopy runtime) (hplace : place ≠ .whole)
    (hshared : (p.model.category t).way ≠ .shared)
    (hwrapped : (p.model.category t).way ≠ .wrapped) :
    CopiesValue p runtime P base place t .null := by
  intro h frame e declared hbase he
  have hcopy : p.Evals frame h (copyOf runtime p.model t e) ⟨.null, none⟩ h := by
    rw [copyOf_eq]
    cases hcategory : (p.model.category t).way with
    | shared => exact absurd hcategory hshared
    | wrapped => exact absurd hcategory hwrapped
    | array => exact .static (.one he) (hhelps.getCopy_null declared h)
    | _ => exact evals_nullOr_of_null he
  exact ⟨.null, none, h, hcopy, .refl h, fun k _ => .null hplace⟩

/-- An array gets a new array with the same items. -/
theorem copiesValue_array (hhelps : p.HelpsToCopy runtime)
    (hway : p.model.way place t = .array) (hcategory : (p.model.category t).way = .array) {a : Nat}
    {items : List Value} (hcell : base[a]? = some (.array items)) :
    CopiesValue p runtime P base place t (.ref a) := by
  intro h frame e declared hbase he
  refine ⟨.ref h.length, none, h ++ [.array items], ?_, Heap.extends_append h _, ?_⟩
  · rw [copyOf_eq, hcategory]
    exact .static (.one he) (hhelps.getCopy declared h a items (hbase.get_of_some trivial hcell))
  · refine (Lasting.of_cell (.inr (Nat.le_refl _)) List.getElem?_concat_length).mono fun k hk => ?_
    exact .array (.inl hway) hcell hbase.length_le hk

/-- A wrapped element is copied outside. -/
theorem copiesValue_wrapped (hhelps : p.HelpsToCopy runtime)
    (hway : p.model.way place t = .wrapped) (hcategory : (p.model.category t).way = .wrapped)
    (hv : base.IsForeignOrNull v) : CopiesValue p runtime P base place t v := by
  intro h frame e declared hbase he
  obtain ⟨w, h', hcall, hextends⟩ := hhelps.wrapped ⟨v, declared⟩ h (hv.of_extends hbase)
  refine ⟨w, none, h', ?_, hextends, fun k hk => .wrapped hway hv hcall hbase hk⟩
  rw [copyOf_eq, hcategory]
  exact .static (.one he) hcall

/-- A call on an object of a class outside the model is answered by other code. -/
theorem yields_invoke_foreign {a : Nat} {className : String} {parts : List Value} {w : Value}
    (hcell : h[a]? = some (.foreign className parts))
    (hcall : p.outside.invoke (.ref a) "clone" [] h = some (w, h')) :
    p.Yields (fun calls => p.invoke calls ⟨.ref a, declared⟩ "clone" [] h) (⟨w, none⟩, h') := by
  refine .of_eq fun calls => ?_
  rw [Program.invoke_of_cell calls hcell nofun declared (by decide)]
  simp [Program.invokeOutside, hcell, hcall]

/-- A value of an external class is copied by that class. -/
theorem copiesValue_external (hhelps : p.HelpsToCopy runtime)
    (hway : p.model.way place t = .external) (hcategory : (p.model.category t).way = .external)
    {a : Nat} {className : String} {parts : List Value}
    (hcell : base[a]? = some (.foreign className parts))
    (hbelongs : p.outside.belongs className t = true) :
    CopiesValue p runtime P base place t (.ref a) := by
  intro h frame e declared hbase he
  have hcell' := hbase.get_of_some trivial hcell
  obtain ⟨w, h', hcall, hextends, hclass⟩ := hhelps.clone h a className parts hcell'
  have hadmits : p.admits h' w t := by
    unfold Program.admits Program.isInstance
    rw [hclass]
    cases t <;> simp [hbelongs]
  refine ⟨w, some t, h', ?_, hextends, fun k hk => .external (.inl hway) hcell hcall hbase hk⟩
  rw [copyOf_eq, hcategory]
  exact evals_nullOr he nofun (.cast (.invoke he .nil (yields_invoke_foreign hcell' hcall)) hadmits)

/-- A value that its own method `clone` copies is copied by the expression for the copy. -/
theorem copiesValue_cloned (hcategory : (p.model.category t).way = .cloned)
    (hclone : CopiesByClone p runtime P base place t v) :
    CopiesValue p runtime P base place t v := by
  intro h frame e declared hbase he
  obtain ⟨w, type, h', hcall, hextends, hcopied⟩ := hclone h declared hbase
  have hne : v ≠ .null := by
    rintro rfl
    obtain ⟨depth, hdepth⟩ := hcall.exists
    simp [Program.invoke] at hdepth
  refine ⟨w, type, h', ?_, hextends, hcopied⟩
  rw [copyOf_eq, hcategory]
  exact evals_nullOr he hne (.invoke he .nil hcall)

/-- Arrays, lists and maps have a method `clone` that copies them with the same items, and objects
of classes outside the model have one of other code. -/
theorem copiesByClone_outside (hhelps : p.HelpsToCopy runtime)
    (hway : p.model.way place t = .cloned) {a : Nat} {cell : Cell} (hcell : base[a]? = some cell)
    (hobject : ∀ name slots, cell ≠ .object name slots) :
    CopiesByClone p runtime P base place t (.ref a) := by
  intro h declared hbase
  have hcell' := hbase.get_of_some trivial hcell
  have hinvoke : ∀ calls, p.invoke calls ⟨.ref a, declared⟩ "clone" [] h =
      p.invokeOutside (.ref a) "clone" [] h :=
    fun calls => Program.invoke_of_cell calls hcell' hobject declared (by decide)
  have hnew : Lasting base h.length (h ++ [cell]) fun k => k[h.length]? = some cell :=
    .of_cell (.inr (Nat.le_refl _)) List.getElem?_concat_length
  have hextends := Heap.extends_append h [cell]
  cases cell with
  | object name slots => exact absurd rfl (hobject name slots)
  | array items =>
    refine ⟨.ref h.length, none, _, .of_eq fun calls => ?_, hextends, hnew.mono fun k hk => ?_⟩
    · rw [hinvoke]
      simp [Program.invokeOutside, hcell']
    · exact .array (.inr hway) hcell hbase.length_le hk
  | list items =>
    refine ⟨.ref h.length, none, _, .of_eq fun calls => ?_, hextends, hnew.mono fun k hk => ?_⟩
    · rw [hinvoke]
      simp [Program.invokeOutside, hcell']
    · exact .list hway hcell hbase.length_le hk
  | map entries =>
    refine ⟨.ref h.length, none, _, .of_eq fun calls => ?_, hextends, hnew.mono fun k hk => ?_⟩
    · rw [hinvoke]
      simp [Program.invokeOutside, hcell']
    · exact .map (.inr hway) hcell hbase.length_le hk
  | foreign className parts =>
    obtain ⟨w, h', hcall, hextends, -⟩ := hhelps.clone h a className parts hcell'
    exact ⟨w, none, h', yields_invoke_foreign hcell' hcall, hextends,
      fun k hk => .external (.inr hway) hcell hcall hbase hk⟩

end Copying

end BeanSynthesis
