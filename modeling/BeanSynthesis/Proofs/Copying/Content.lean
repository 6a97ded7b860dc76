import BeanSynthesis.Proofs.Copying.Values
import BeanSynthesis.Proofs.Equality.Contract

/-!
# Values of the same content

That a copy equals its original rests on other code: what it copies must equal what was copied, and
what it compares must be equal where the content is the same. Helpers that go by outlines do both.
-/

namespace BeanSynthesis

namespace Program

variable (p : Program) (runtime : RuntimeClasses)

/-- What is relied on when values of the same content are compared. -/
structure ComparesContent (h : Heap) : Prop where
  arrays : ∀ type a b items, h[a]? = some (.array items) → h[b]? = some (.array items) →
    (runtime.plain type).Relates p.outside h (.ref a) (.ref b)
  maps : ∀ type a b entries, h[a]? = some (.map entries) → h[b]? = some (.map entries) →
    (runtime.plain type).Relates p.outside h (.ref a) (.ref b)
  lists : ∀ type a b items items', h[a]? = some (.list items) → h[b]? = some (.list items') →
    List.Forall₂ (fun v w => ∀ type, (runtime.plain type).Relates p.outside h v w) items items' →
    (runtime.plain type).Relates p.outside h (.ref a) (.ref b) ∧
      (runtime.collections type).Relates p.outside h (.ref a) (.ref b)
  anyLists : ∀ type a b items, h[a]? = some (.list items) → h[b]? = some (.list items) →
    (runtime.anyLists type).Relates p.outside h (.ref a) (.ref b)
  wrappedLists : ∀ type a b items items', h[a]? = some (.list items) →
    h[b]? = some (.list items') →
    List.Forall₂ (fun v w => ∀ type, (runtime.wrapped type).Relates p.outside h v w) items items' →
    (runtime.wrappedLists type).Relates p.outside h (.ref a) (.ref b)
  /-- Objects are compared by their own method. -/
  objects : ∀ type v w className slots slots', h.object? v = some (className, slots) →
    h.object? w = some (className, slots') → p.EqualsGives h v w true →
    (runtime.plain type).Relates p.outside h v w

/-- What code outside the model copies equals what it was copied from, as long as neither the new
cells change nor those that the original is made of. -/
structure CopiesEqual : Prop where
  wrapped : ∀ t h w h', h.IsForeignOrNull t.value →
    p.outside.static runtime.jaxbHelper "getClonedJAXBElement" [t] h = some (w, h') →
    ∀ S, h.Closed S → t.value.Within S → ∀ k, h'.Keeps (fun a => S a ∨ h.length ≤ a) k →
      ∀ type, (runtime.wrapped type).Relates p.outside k w t.value
  clone : ∀ a h className parts w h', h[a]? = some (.foreign className parts) →
    p.outside.invoke (.ref a) "clone" [] h = some (w, h') →
    ∀ S, h.Closed S → S a → ∀ k, h'.Keeps (fun a => S a ∨ h.length ≤ a) k →
      ∀ type, (runtime.plain type).Relates p.outside k w (.ref a)

end Program

namespace Outside

variable {belongs : String → TypeExpr → Bool} {m : CodeModel} {runtime : RuntimeClasses}
  {h k : Heap} {v w : Value}

/-- A copy by other code changes no cell. -/
theorem extends_copyForeign (v : Value) (h : Heap) : h.Extends (copyForeign v h).2 := by
  unfold copyForeign
  split
  · split
    · exact Heap.extends_append h _
    · exact .refl h
  · exact .refl h

/-- The copy by other code looks like the original for as long as neither changes. -/
theorem outline_copyForeign {S : Nat → Prop} (hv : v.Within S)
    (hk : (copyForeign v h).2.Keeps (fun a => S a ∨ h.length ≤ a) k) :
    outline k (copyForeign v h).1 = outline k v := by
  unfold copyForeign at hk ⊢
  split
  case h_1 a =>
    dsimp only at hk
    split
    case h_1 className parts hcell =>
      rw [hcell] at hk
      have hold := hk.get_of_some (.inl hv) ((Heap.extends_append h _).get_of_some trivial hcell)
      have hnew := hk.get_of_some (.inr (Nat.le_refl _)) List.getElem?_concat_length
      simp [outline, hold, hnew]
    · rfl
  · rfl

/-- Helpers that compare outlines help to copy. -/
theorem byOutline_helps : Program.HelpsToCopy ⟨m, byOutline belongs⟩ runtime where
  getCopy_null type h := rfl
  getCopy type h a items hcell := by
    simp [byOutline, copyArray, hcell]
  wrapped t h _ := ⟨_, _, rfl, extends_copyForeign t.value h⟩
  clone h a className parts hcell := by
    refine ⟨(copyForeign (.ref a) h).1, (copyForeign (.ref a) h).2, rfl,
      extends_copyForeign _ h, ?_⟩
    simp [copyForeign, hcell, Program.className?, Cell.className?]

private theorem byOutline_relates {c : Comparison} (hc : (byOutline belongs).static c.owner c.method
      [⟨v, c.type⟩, ⟨w, c.type⟩] h = some (.bool (outline h v == outline h w), h))
    (hvw : outline h v = outline h w) : c.Relates (byOutline belongs) h v w := by
  simp [Comparison.Relates, hc, hvw]

/-- With helpers that compare outlines what is copied outside is equal to its copy. -/
theorem byOutline_copiesEqual : Program.CopiesEqual ⟨m, byOutline belongs⟩ runtime where
  wrapped t h w h' _ hcall S _ ht k hk type := by
    obtain ⟨rfl, rfl⟩ := Prod.mk.inj (Option.some.inj hcall)
    exact byOutline_relates rfl (outline_copyForeign ht hk)
  clone a h className parts w h' _ hcall S _ ha k hk type := by
    obtain ⟨rfl, rfl⟩ := Prod.mk.inj (Option.some.inj hcall)
    exact byOutline_relates rfl (outline_copyForeign (v := .ref a) ha hk)

/-- Helpers that compare outlines compare arrays, maps and lists by what is in them. -/
theorem byOutline_comparesContent : Program.ComparesContent ⟨m, byOutline belongs⟩ runtime h where
  arrays type a b items ha hb := byOutline_relates rfl (by simp [outline, ha, hb])
  maps type a b entries ha hb := byOutline_relates rfl (by simp [outline, ha, hb])
  lists type a b items items' ha hb _ :=
    ⟨byOutline_relates rfl (by simp [outline, ha, hb, Cell.className?]),
      byOutline_relates rfl (by simp [outline, ha, hb, Cell.className?])⟩
  anyLists type a b items ha hb := byOutline_relates rfl (by simp [outline, ha, hb])
  wrappedLists type a b items items' ha hb _ :=
    byOutline_relates rfl (by simp [outline, ha, hb, Cell.className?])
  objects type v w className slots slots' hv hw _ := by
    obtain ⟨a, rfl, ha⟩ := Heap.object?_eq_some.mp hv
    obtain ⟨b, rfl, hb⟩ := Heap.object?_eq_some.mp hw
    exact byOutline_relates rfl (by simp [outline, ha, hb, Cell.className?])

end Outside

end BeanSynthesis
