import BeanSynthesis.Proofs.Exchange.WellNamed
import BeanSynthesis.Proofs.Scoping.PassDrafts

/-!
# Portable methods of objects

When the methods that copy, compare, hash and describe objects are portable. Copies and comparisons
write the type of the class itself, whose name may be no name of a class. The chains of calls in a
hash code and in a description grow with the fields of the class.
-/

namespace BeanSynthesis

open TypeExpr (IsClassName)

variable {settings : Settings} {m : CodeModel} {c : BeanClass} {fields : List InstanceField}
  {lineage : Lineage} {room : Nat}

namespace Copying

variable (hsettings : settings.WellNamed)

include hsettings

private theorem copyOf_fits {t : TypeExpr} (ht : t.WellFormed) (name : String) :
    (copyOf settings.runtime m t (.ident name)).Fits (room + 4) := by
  have hnames := hsettings.runtime
  simp only [RuntimeClasses.names, List.forall_mem_cons] at hnames
  unfold copyOf
  split <;> simp [ht, hnames]

private theorem copyField_fits {f : InstanceField} (hf : f.type.WellFormed) :
    (copyField settings.runtime m f).Fits (room + 11) := by
  have helement := hf.elementOrObject
  have hlist : (TypeExpr.listOf f.type.elementOrObject).WellFormed :=
    ⟨by decide, helement, trivial⟩
  have harrayList : (TypeExpr.named "java.util.ArrayList" [f.type.elementOrObject]).WellFormed :=
    ⟨by decide, helement, trivial⟩
  have hhashMap : (TypeExpr.named "java.util.HashMap" (typeArgs f.type)).WellFormed :=
    ⟨by decide, TypeExpr.allWellFormed_iff.2 hf.typeArgs⟩
  unfold copyField copyList copyMap unlessNull targetField
  split
  · simp [helement, hlist, harrayList, copyOf_fits hsettings helement]
  · split
    · simp [hhashMap]
    · simp [copyOf_fits hsettings hf]

/-- The parameter of `cloneTo` has the type of the class. -/
theorem cloneToMethod_portable_iff (hfields : ∀ f ∈ fields, f.type.WellFormed) :
    (cloneToMethod settings.runtime m c fields lineage).Portable ↔ IsClassName c.name := by
  constructor
  · intro h
    exact TypeExpr.wellFormed_ofName.1 (h.params _ List.mem_cons_self).type
  · intro hc
    have hnonNull : IsClassName settings.runtime.nonNull :=
      hsettings.runtime _ (by simp [RuntimeClasses.names])
    have hcopies : ∀ f ∈ fields, (copyField settings.runtime m f).Fits 121 := fun f hf =>
      copyField_fits hsettings (hfields f hf)
    have hinherited : ∀ s ∈ copyInherited lineage, s.Fits 121 := by
      cases lineage <;> simp [copyInherited]
    exact {
      returnType := trivial
      params := List.forall_mem_singleton.2 ⟨TypeExpr.wellFormed_ofName.2 hc,
        exchangeable_marks hnonNull⟩
      annotations := List.forall_mem_nil _
      throws := List.forall_mem_nil _
      body := by
        rintro _ ⟨⟩
        have hbody : cloneToBody settings.runtime m fields lineage =
            copyInherited lineage ++ fields.map (copyField settings.runtime m) := by
          cases lineage <;> rfl
        rw [hbody, bodyLevels, Block.fits_succ, List.forall_mem_append, List.forall_mem_map]
        exact ⟨hinherited, hcopies⟩ }

/-- The result of `clone` has the type of the class. -/
theorem cloneMethod_portable_iff :
    (cloneMethod settings.runtime c).Portable ↔ IsClassName c.name := by
  constructor
  · exact fun h => TypeExpr.wellFormed_ofName.1 h.returnType
  · intro hc
    have hnames := hsettings.runtime
    simp only [RuntimeClasses.names, List.forall_mem_cons] at hnames
    have hbody : (cloneBody c).Fits bodyLevels := by
      simp [cloneBody, bodyLevels, BeanClass.asType, hc]
    exact {
      returnType := TypeExpr.wellFormed_ofName.2 hc
      params := List.forall_mem_nil _
      annotations := by simp [cloneMethod, hnames, exchangeable_overrideMark]
      throws := List.forall_mem_nil _
      body := by
        intro b hb
        simp only [cloneMethod] at hb
        split at hb
        · cases hb
        · cases hb
          exact hbody }

end Copying

/-! ### Chains of calls -/

section Chains

variable {args : InstanceField → List Expr} {start : Expr}

/-- Each call stands one level above the chain before it, and above its own arguments. -/
theorem depth_appendAll_cons (f : InstanceField) :
    (appendAll args start (f :: fields)).toJson.depth =
      (appendAll args (start.invoke "append" (args f)) fields).toJson.depth := rfl

private theorem Expr.depth_invoke (target : Expr) (method : String) (args : List Expr) :
    (target.invoke method args).toJson.depth =
      max target.toJson.depth (Json.array (listToJson args)).depth + 1 := by
  simp [toJson, Json.obj, Json.depth, Json.membersDepth]

private theorem le_depth_appendAll (start : Expr) :
    start.toJson.depth + fields.length ≤ (appendAll args start fields).toJson.depth := by
  induction fields generalizing start with
  | nil => exact Nat.le_refl _
  | cons f rest ih =>
    have hrest := ih (start.invoke "append" (args f))
    rw [Expr.depth_invoke] at hrest
    rw [depth_appendAll_cons, List.length_cons]
    omega

private theorem depth_appendAll_le {levels : Nat} (hstart : start.toJson.depth ≤ levels)
    (hargs : ∀ f ∈ fields, (Json.array (Expr.listToJson (args f))).depth ≤ levels) :
    (appendAll args start fields).toJson.depth ≤ levels + fields.length := by
  induction fields generalizing start levels with
  | nil => exact hstart
  | cons f rest ih =>
    obtain ⟨hfirst, hothers⟩ := List.forall_mem_cons.1 hargs
    have hinvoke : (start.invoke "append" (args f)).toJson.depth ≤ levels + 1 := by
      rw [Expr.depth_invoke]
      omega
    have hrest := ih hinvoke fun g hg => (hothers g hg).trans (Nat.le_succ _)
    rw [depth_appendAll_cons, List.length_cons]
    omega

private theorem exchangeable_appendAll (hstart : start.Exchangeable)
    (hargs : ∀ f ∈ fields, Expr.AllExchangeable (args f)) :
    (appendAll args start fields).Exchangeable := by
  induction fields generalizing start with
  | nil => exact hstart
  | cons f rest ih =>
    obtain ⟨hfirst, hothers⟩ := List.forall_mem_cons.1 hargs
    have hinvoke : (start.invoke "append" (args f)).Exchangeable := ⟨hstart, hfirst⟩
    exact ih hinvoke hothers

/-- The levels of a body that returns what a chain of calls ends with. -/
theorem depth_give_invoke (chain : Expr) (method : String) :
    (Block.toJson [.give (chain.invoke method [])]).depth = chain.toJson.depth + 3 := by
  have hpos := chain.depth_toJson_pos
  have hinvoke : (chain.invoke method []).toJson.depth = chain.toJson.depth + 1 := by
    rw [Expr.depth_invoke, Nat.add_right_cancel_iff, Nat.max_eq_left]
    exact hpos
  simp [Block.toJson, Stmt.listToJson, Stmt.give, Stmt.toJson, Json.option, Json.obj, Json.depth,
    Json.membersDepth, Json.itemsDepth, hinvoke]

end Chains

namespace Equality

/-- The chain of calls that the hash code of a class with fields of its own ends. -/
def hashChain (runtime : RuntimeClasses) (m : CodeModel) (fields : List InstanceField)
    (lineage : Lineage) : Expr :=
  appendAll (fun f => [fieldHash runtime m f]) (hashStart runtime lineage) fields

private theorem hashCodeBody_eq (runtime : RuntimeClasses)
    (h : ¬(lineage == .derived && fields.isEmpty)) :
    hashCodeBody runtime m fields lineage =
      [.give ((hashChain runtime m fields lineage).invoke "getHashCode" [])] :=
  if_neg h

/-- A hash code of fields nests one level for each of them, and six at least besides. -/
theorem le_depth_hashCodeBody (runtime : RuntimeClasses) (hfields : fields ≠ []) :
    fields.length + 6 ≤ (Block.toJson (hashCodeBody runtime m fields lineage)).depth := by
  have hstart : 3 ≤ (hashStart runtime lineage).toJson.depth := by
    cases lineage <;>
      simp [hashStart, Expr.static, Expr.toJson, Expr.listToJson, Json.obj, Json.depth,
        Json.membersDepth, Json.itemsDepth]
  have hchain : (hashStart runtime lineage).toJson.depth + fields.length ≤
      (hashChain runtime m fields lineage).toJson.depth := le_depth_appendAll _
  rw [hashCodeBody_eq runtime (by simp [hfields]), depth_give_invoke]
  omega

variable (hsettings : settings.WellNamed)

include hsettings

private theorem fieldEquals_fits (f : InstanceField) :
    (fieldEquals settings.runtime m f).Fits (room + 6) := by
  have hnames := hsettings.runtime
  simp only [RuntimeClasses.names, List.forall_mem_cons] at hnames
  unfold fieldEquals castIf
  split
  · split <;> simp [hnames]
  all_goals simp [hnames]

private theorem fieldHash_fits (f : InstanceField) (room : Nat) :
    (fieldHash settings.runtime m f).Fits (room + 5) := by
  have hnames := hsettings.runtime
  simp only [RuntimeClasses.names, List.forall_mem_cons] at hnames
  unfold fieldHash castIf
  split
  · split <;> simp [hnames]
  all_goals simp [hnames]

private theorem equalsBody_fits_iff (lineage : Lineage) :
    (equalsBody settings.runtime m c fields lineage).Fits bodyLevels ↔
      fields = [] ∨ IsClassName c.name := by
  have hrefuse : (refuseOther lineage).Fits 121 := by
    cases lineage <;> simp [refuseOther]
  have hcomparison : ∀ f,
      (Stmt.giveIf (.not (fieldEquals settings.runtime m f)) (.boolLit false)).Fits 121 := by
    simp [fieldEquals_fits hsettings]
  unfold equalsBody compareFields
  split
  case isTrue hnone =>
    have hnil : fields = [] := by simpa using (Bool.and_eq_true_iff.1 hnone).2
    simp [bodyLevels, hnil]
  case isFalse _ =>
    cases fields with
    | nil => simp [bodyLevels, hrefuse]
    | cons f rest =>
      have hdecl : (Stmt.declFinal c.asType "rhs" (.cast c.asType (.ident "o"))).Fits 121 ↔
          IsClassName c.name := by
        simp [BeanClass.asType]
      rw [bodyLevels, Block.fits_succ]
      simp only [List.isEmpty_cons, Bool.false_eq_true, if_false, List.forall_mem_append,
        List.forall_mem_cons, List.forall_mem_map, hdecl, hrefuse, hcomparison]
      simp

/-- A comparison of fields casts the other object to the class. -/
theorem equalsMethod_portable_iff :
    (equalsMethod settings.runtime m c fields lineage).Portable ↔
      fields = [] ∨ IsClassName c.name := by
  rw [← equalsBody_fits_iff hsettings lineage (m := m)]
  constructor
  · exact fun h => h.body _ rfl
  · intro hbody
    exact {
      returnType := trivial
      params := List.forall_mem_singleton.2
        ⟨TypeExpr.wellFormed_ofName.2 (by decide), List.forall_mem_nil _⟩
      annotations := List.forall_mem_singleton.2 exchangeable_overrideMark
      throws := List.forall_mem_nil _
      body := by
        rintro _ ⟨⟩
        exact hbody }

private theorem hashStart_fits (room : Nat) :
    (hashStart settings.runtime lineage).Fits (room + 4) := by
  have hnames := hsettings.runtime
  simp only [RuntimeClasses.names, List.forall_mem_cons] at hnames
  cases lineage <;> simp [hashStart, hnames]

private theorem hashCodeBody_exchangeable :
    Stmt.AllExchangeable (hashCodeBody settings.runtime m fields lineage) := by
  by_cases hnone : lineage == .derived && fields.isEmpty
  · unfold hashCodeBody
    rw [if_pos hnone]
    simp [Stmt.AllExchangeable, Stmt.give, Stmt.Exchangeable, Expr.Exchangeable,
      Expr.AllExchangeable]
  · have hchain : (hashChain settings.runtime m fields lineage).Exchangeable :=
      exchangeable_appendAll (hashStart_fits hsettings 0).1 fun f _ =>
        ⟨(fieldHash_fits hsettings f 0).1, trivial⟩
    rw [hashCodeBody_eq _ hnone]
    simp [Stmt.AllExchangeable, Stmt.give, Stmt.Exchangeable, Expr.Exchangeable,
      Expr.AllExchangeable, hchain]

/-- A hash code is portable if its chain of calls is not too long. -/
theorem hashCodeMethod_portable_iff :
    (hashCodeMethod settings.runtime m fields lineage).Portable ↔
      (Block.toJson (hashCodeBody settings.runtime m fields lineage)).depth ≤ bodyLevels := by
  constructor
  · exact fun h => (h.body _ rfl).2
  · intro hdepth
    exact {
      returnType := trivial
      params := List.forall_mem_nil _
      annotations := List.forall_mem_singleton.2 exchangeable_overrideMark
      throws := List.forall_mem_nil _
      body := by
        rintro _ ⟨⟩
        exact ⟨hashCodeBody_exchangeable hsettings, hdepth⟩ }

/-- A hash code nests one level for each field, and nine at most besides. -/
theorem depth_hashCodeBody_le :
    (Block.toJson (hashCodeBody settings.runtime m fields lineage)).depth ≤ fields.length + 9 := by
  by_cases hnone : lineage == .derived && fields.isEmpty
  · unfold hashCodeBody
    rw [if_pos hnone, depth_give_invoke]
    simp [Expr.toJson, Json.obj, Json.depth, Json.membersDepth]
  · have hstart : (hashStart settings.runtime lineage).toJson.depth ≤ 6 :=
      (hashStart_fits hsettings 2).2
    have hargs : ∀ f ∈ fields,
        (Json.array (Expr.listToJson [fieldHash settings.runtime m f])).depth ≤ 6 := fun f _ =>
      (Expr.fits_args.2 (List.forall_mem_singleton.2 (fieldHash_fits hsettings f 0))).2
    have hchain : (hashChain settings.runtime m fields lineage).toJson.depth ≤ 6 + fields.length :=
      depth_appendAll_le hstart hargs
    rw [hashCodeBody_eq _ hnone, depth_give_invoke]
    omega

end Equality

namespace Description

/-- How many fields a description has room for. -/
def maxFields : Lineage → Nat
  | .root => 116
  | .derived => 115

/-- The arguments with which a field is described. -/
def fieldArgs (f : InstanceField) : List Expr := [.strLit f.name, .ident f.name]

private theorem description_eq (runtime : RuntimeClasses) :
    description runtime fields lineage =
      (appendAll fieldArgs (start runtime lineage) fields).invoke "getToString" [] := rfl

/-- A description nests one level for each field. -/
theorem depth_description (runtime : RuntimeClasses) (fields : List InstanceField)
    (lineage : Lineage) :
    (Block.toJson [.give (description runtime fields lineage)]).depth + maxFields lineage =
      fields.length + bodyLevels := by
  have hstart : (start runtime lineage).toJson.depth + maxFields lineage + 3 = bodyLevels := by
    cases lineage <;> rfl
  have hleast : 2 ≤ (start runtime lineage).toJson.depth := by
    have hmax : maxFields lineage ≤ 116 := by cases lineage <;> decide
    rw [bodyLevels] at hstart
    omega
  have hargs : ∀ f ∈ fields, (Json.array (Expr.listToJson (fieldArgs f))).depth ≤
      (start runtime lineage).toJson.depth := by
    refine fun f _ => le_trans ?_ hleast
    simp [fieldArgs, Expr.listToJson, Expr.toJson]
  have hchain := Nat.le_antisymm (depth_appendAll_le (Nat.le_refl _) hargs)
    (le_depth_appendAll _)
  rw [description_eq, depth_give_invoke, hchain]
  omega

variable (hsettings : settings.WellNamed)

include hsettings

private theorem description_exchangeable :
    Stmt.AllExchangeable [.give (description settings.runtime fields lineage)] := by
  have hgenerator : IsClassName settings.runtime.toStringGenerator :=
    hsettings.runtime _ (by simp [RuntimeClasses.names])
  have hstart : (start settings.runtime lineage).Fits 4 := by
    cases lineage <;> simp [start, hgenerator]
  have hchain : (appendAll fieldArgs (start settings.runtime lineage) fields).Exchangeable :=
    exchangeable_appendAll hstart.1 fun _ _ => ⟨trivial, trivial, trivial⟩
  simpa [description_eq, Stmt.AllExchangeable, Stmt.give, Stmt.Exchangeable, Expr.Exchangeable,
    Expr.AllExchangeable] using hchain

/-- A description is portable if it does not have too many fields. -/
theorem toStringMethod_portable_iff :
    (toStringMethod settings.runtime fields lineage).Portable ↔
      fields.length ≤ maxFields lineage := by
  have hdepth : (Block.toJson [.give (description settings.runtime fields lineage)]).depth ≤
      bodyLevels ↔ fields.length ≤ maxFields lineage := by
    have heq := depth_description settings.runtime fields lineage
    omega
  rw [← hdepth]
  constructor
  · exact fun h => (h.body _ rfl).2
  · intro hbody
    exact {
      returnType := TypeExpr.wellFormed_ofName.2 (by decide)
      params := List.forall_mem_nil _
      annotations := List.forall_mem_singleton.2 exchangeable_overrideMark
      throws := List.forall_mem_nil _
      body := by
        rintro _ ⟨⟩
        exact ⟨description_exchangeable hsettings, hbody⟩ }

end Description

end BeanSynthesis
