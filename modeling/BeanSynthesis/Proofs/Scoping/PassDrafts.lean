import BeanSynthesis.Proofs.Scoping.Reading
import BeanSynthesis.Synthesis.Pass.Copying
import BeanSynthesis.Synthesis.Pass.Description
import BeanSynthesis.Synthesis.Pass.Equality
import BeanSynthesis.Synthesis.Pass.ListAccessors
import BeanSynthesis.Synthesis.Pass.LocalAccessors

/-!
# Drafts of the passes

The drafts of the methods that compare, hash, describe and copy objects, of the setters and
companions of lists and of the local views of dates and times. The fields of a comparison stand in
the scope of `o` and `rhs`, those of a copy in that of `ret`, and an assigned one in that of the
parameter; no other mention has anything in scope.
-/

namespace BeanSynthesis

/-! ## Comparison -/

namespace Equality

variable {runtime : RuntimeClasses} {m : CodeModel} {c : BeanClass} {f : InstanceField}
  {scope : List String}

@[simp] private theorem readIn_castIf (needed : Bool) (e : Expr) :
    (castIf runtime needed e).readIn scope = castIf runtime needed (e.readIn scope) := by
  unfold castIf
  split
  · simp [Expr.static, Expr.readIn, Expr.listReadIn]
  · rfl

@[simp] private theorem castIf_inj {needed : Bool} {d e : Expr} :
    castIf runtime needed d = castIf runtime needed e ↔ d = e := by
  unfold castIf
  split
  · simp [Expr.static]
  · rfl

/-- The comparison of a field, mentioned so, with that of the object `rhs`. -/
def compareWith (runtime : RuntimeClasses) (m : CodeModel) (f : InstanceField) (mine : Expr) :
    Expr :=
  let theirs := (Expr.ident "rhs").field f.name
  match m.category f.type with
  | .collectionOfWrappedUnionElement =>
    let cast := castIf runtime (needsCast m f.type)
    .static runtime.jaxbHelper "equalListJAXBElements" [cast mine, cast theirs]
  | .collectionOfAny => .static runtime.jaxbHelper "equalListAnys" [mine, theirs]
  | .collectionOfOther =>
    .static runtime.collectionEqualsHelper "equalsCollection" [mine, theirs]
  | .wrappedUnionElement => .static runtime.jaxbHelper "equalJAXBElements" [mine, theirs]
  | .genericObject =>
    let node := TypeExpr.ofName runtime.domNode
    .cond ((mine.instanceOf node).and (theirs.instanceOf node))
      (.static runtime.jaxbHelper "equalDOMNodes" [.cast node mine, .cast node theirs])
      (.static runtime.equalsHelper "equals" [mine, theirs])
  | _ => .static runtime.equalsHelper "equals" [mine, theirs]

private theorem readIn_compareWith (hrhs : "rhs" ∈ scope) (mine : Expr) :
    (compareWith runtime m f mine).readIn scope =
      compareWith runtime m f (mine.readIn scope) := by
  unfold compareWith
  cases m.category f.type <;>
    simp [Expr.static, Expr.and, Expr.readIn, Expr.listReadIn, hrhs]

private theorem compareWith_inj {mine other : Expr} :
    compareWith runtime m f mine = compareWith runtime m f other ↔ mine = other := by
  unfold compareWith
  cases m.category f.type <;> simp [Expr.static, Expr.and]

/-- The statements that compare the fields, mentioned so. -/
def comparisons (runtime : RuntimeClasses) (m : CodeModel) (c : BeanClass)
    (fields : List InstanceField) (mention : Mention) : Block :=
  if fields.isEmpty then []
  else
    .declFinal c.asType "rhs" (.cast c.asType (.ident "o")) ::
      fields.map fun f => .giveIf (.not (compareWith runtime m f (mention f))) (.boolLit false)

/-- The body of `equals`, where the fields are mentioned so. -/
def equalsBodyWith (runtime : RuntimeClasses) (m : CodeModel) (c : BeanClass)
    (fields : List InstanceField) (lineage : Lineage) (mention : Mention) : Block :=
  if lineage == .derived && fields.isEmpty then
    [.give (Expr.superRef.invoke "equals" [.ident "o"])]
  else
    [.giveIf ((Expr.ident "o").eq .thisRef) (.boolLit true), refuseOther lineage] ++
      comparisons runtime m c fields mention ++ [.give (.boolLit true)]

/-- The body of `equals` mentions its own fields by name. -/
theorem equalsBody_byName (runtime : RuntimeClasses) (m : CodeModel) (c : BeanClass)
    (fields : List InstanceField) (lineage : Lineage) :
    equalsBody runtime m c fields lineage =
      equalsBodyWith runtime m c fields lineage InstanceField.byName := rfl

private theorem declares_refuseOther (lineage : Lineage) : (refuseOther lineage).declares = [] := by
  cases lineage <;> rfl

/-- What `equals` asks before it compares fields. -/
theorem declares_refusals (lineage : Lineage) :
    ∀ s ∈ [Stmt.giveIf ((Expr.ident "o").eq .thisRef) (.boolLit true), refuseOther lineage],
      s.declares = [] :=
  List.forall_mem_cons.mpr ⟨rfl, List.forall_mem_singleton.mpr (declares_refuseOther lineage)⟩

private theorem readIn_refuseOther (ho : "o" ∈ scope) (lineage : Lineage) :
    (refuseOther lineage).readIn scope = refuseOther lineage := by
  cases lineage <;>
    simp [refuseOther, Stmt.giveIf, Stmt.give, Expr.isNull, Expr.or, Expr.eq, Stmt.readIn,
      Stmt.blockReadIn, Expr.optionReadIn, Expr.readIn, Expr.listReadIn, ho]

/-- The comparisons declare no variables. -/
theorem declares_compareAll (runtime : RuntimeClasses) (m : CodeModel)
    (fields : List InstanceField) (mention : Mention) : ∀ s ∈ fields.map fun f =>
      Stmt.giveIf (.not (compareWith runtime m f (mention f))) (.boolLit false),
      s.declares = [] := by
  intro s hs
  obtain ⟨f, -, rfl⟩ := List.mem_map.mp hs
  rfl

/-- After the declaration of `rhs`, each comparison reads the field it mentions. -/
theorem blockReadIn_comparisons (ho : "o" ∈ scope) (fields : List InstanceField)
    (mention : Mention) :
    Stmt.blockReadIn scope (comparisons runtime m c fields mention ++ [.give (.boolLit true)]) =
      comparisons runtime m c fields (fun f => (mention f).readIn ("rhs" :: scope)) ++
        [.give (.boolLit true)] := by
  by_cases hempty : fields.isEmpty
  · simp [comparisons, hempty, Stmt.give, Stmt.blockReadIn, Stmt.readIn, Expr.optionReadIn,
      Expr.readIn]
  · have hnone := declares_compareAll runtime m fields mention
    simp only [comparisons, hempty, Bool.false_eq_true, if_false, List.cons_append,
      Stmt.blockReadIn]
    rw [show (Stmt.declFinal c.asType "rhs" (.cast c.asType (.ident "o"))).declares ++ scope =
      "rhs" :: scope from rfl, Stmt.blockReadIn_append hnone, Stmt.blockReadIn_eq_map hnone]
    simp [Stmt.declFinal, Stmt.giveIf, Stmt.give, Stmt.readIn, Stmt.blockReadIn, Expr.optionReadIn,
      Expr.readIn, readIn_compareWith, ho]

private theorem comparisons_eq_iff {fields : List InstanceField} {mention other : Mention} :
    comparisons runtime m c fields mention = comparisons runtime m c fields other ↔
      ∀ f ∈ fields, mention f = other f := by
  by_cases hempty : fields.isEmpty
  · have hnil : fields = [] := List.isEmpty_iff.mp hempty
    simp [comparisons, hnil]
  · simp [comparisons, hempty, Stmt.giveIf, compareWith_inj]

/-- The draft of `equals`. Its fields stand in the scope of the parameter and of the variable that
holds the other object. -/
def equalsDraft (runtime : RuntimeClasses) (m : CodeModel) (c : BeanClass)
    (fields : List InstanceField) (lineage : Lineage) : Draft where
  method := equalsMethod runtime m c fields lineage
  body := equalsBodyWith runtime m c fields lineage
  mentioned := fields
  scope := ["rhs", "o"]
  written := .inl rfl
  reads mention := by
    change Stmt.blockReadIn ["o"] _ = _
    unfold equalsBodyWith
    split
    · simp [Stmt.give, Stmt.blockReadIn, Stmt.readIn, Expr.optionReadIn, Expr.readIn,
        Expr.listReadIn]
    · have hfirst : ∀ s ∈ [Stmt.giveIf ((Expr.ident "o").eq .thisRef) (.boolLit true),
          refuseOther lineage], s.declares = [] :=
        List.forall_mem_cons.mpr ⟨rfl, List.forall_mem_singleton.mpr (declares_refuseOther lineage)⟩
      rw [List.append_assoc, Stmt.blockReadIn_append hfirst, blockReadIn_comparisons (by simp),
        Stmt.blockReadIn_eq_map hfirst]
      simp [Stmt.giveIf, Stmt.give, Expr.eq, Stmt.readIn, Stmt.blockReadIn, Expr.optionReadIn,
        Expr.readIn, readIn_refuseOther]
  body_eq_iff mention other := by
    unfold equalsBodyWith
    split
    case isTrue hnone =>
      have hnil : fields = [] := by simpa using (Bool.and_eq_true_iff.mp hnone).2
      simp [hnil]
    case isFalse _ => simp [comparisons_eq_iff]

/-! ### Hash codes -/

/-- What a field, mentioned so, adds to the hash code. -/
def hashWith (runtime : RuntimeClasses) (m : CodeModel) (f : InstanceField) (value : Expr) : Expr :=
  match m.category f.type with
  | .collectionOfWrappedUnionElement =>
    .static runtime.jaxbHelper "getListJAXBElementHashCode"
      [castIf runtime (needsCast m f.type) value]
  | .collectionOfAny => .static runtime.jaxbHelper "getListAnyHashCode" [value]
  | .wrappedUnionElement => .static runtime.jaxbHelper "getHashCode" [value]
  | .genericObject =>
    let node := TypeExpr.ofName runtime.domNode
    .cond (value.instanceOf node)
      (.static runtime.jaxbHelper "getHashCode" [.cast node value])
      (.static runtime.hashCodeCalculator "hashCode" [value])
  | _ => value

private theorem readIn_hashWith (value : Expr) :
    (hashWith runtime m f value).readIn scope = hashWith runtime m f (value.readIn scope) := by
  unfold hashWith
  cases m.category f.type <;> simp [Expr.static, Expr.readIn, Expr.listReadIn]

private theorem hashWith_inj {value other : Expr} :
    hashWith runtime m f value = hashWith runtime m f other ↔ value = other := by
  unfold hashWith
  cases m.category f.type <;> simp [Expr.static]

private theorem readIn_hashStart (lineage : Lineage) :
    (hashStart runtime lineage).readIn scope = hashStart runtime lineage := by
  cases lineage <;> simp [hashStart, Expr.static, Expr.readIn, Expr.listReadIn]

/-- The body of `hashCode`, where the fields are mentioned so. -/
def hashCodeBodyWith (runtime : RuntimeClasses) (m : CodeModel) (fields : List InstanceField)
    (lineage : Lineage) (mention : Mention) : Block :=
  if lineage == .derived && fields.isEmpty then [.give (Expr.superRef.invoke "hashCode" [])]
  else
    [.give ((appendAll (fun f => [hashWith runtime m f (mention f)]) (hashStart runtime lineage)
      fields).invoke "getHashCode" [])]

/-- The draft of `hashCode`. -/
def hashCodeDraft (runtime : RuntimeClasses) (m : CodeModel) (fields : List InstanceField)
    (lineage : Lineage) : Draft where
  method := hashCodeMethod runtime m fields lineage
  body := hashCodeBodyWith runtime m fields lineage
  mentioned := fields
  written := .inl rfl
  reads mention := by
    change Stmt.blockReadIn [] _ = _
    unfold hashCodeBodyWith
    split
    · rfl
    · simp [Stmt.give, Stmt.blockReadIn, Stmt.readIn, Expr.optionReadIn, Expr.readIn,
        readIn_appendAll (readIn_hashStart lineage), Expr.listReadIn, readIn_hashWith]
  body_eq_iff mention other := by
    unfold hashCodeBodyWith
    split
    case isTrue hnone =>
      have hnil : fields = [] := by simpa using (Bool.and_eq_true_iff.mp hnone).2
      simp [hnil]
    case isFalse _ => simp [Stmt.give, appendAll_eq_iff, hashWith_inj]

end Equality

/-! ## Description -/

namespace Description

variable {runtime : RuntimeClasses} {scope : List String}

private theorem readIn_start (lineage : Lineage) :
    (start runtime lineage).readIn scope = start runtime lineage := by
  cases lineage <;> simp [start, Expr.static, Expr.readIn, Expr.listReadIn]

/-- The draft of `toString`. -/
def toStringDraft (runtime : RuntimeClasses) (fields : List InstanceField) (lineage : Lineage) :
    Draft where
  method := toStringMethod runtime fields lineage
  body mention :=
    [.give ((appendAll (fun f => [.strLit f.name, mention f]) (start runtime lineage)
      fields).invoke "getToString" [])]
  mentioned := fields
  written := .inl rfl
  reads mention := by
    change Stmt.blockReadIn [] _ = _
    simp [Stmt.give, Stmt.blockReadIn, Stmt.readIn, Expr.optionReadIn, Expr.readIn,
      readIn_appendAll (readIn_start lineage), Expr.listReadIn]
  body_eq_iff mention other := by simp [Stmt.give, appendAll_eq_iff]

end Description

/-! ## Copies -/

namespace Copying

variable {runtime : RuntimeClasses} {m : CodeModel} {f : InstanceField} {t : TypeExpr}
  {scope : List String}

private theorem readIn_copyOf (value : Expr) :
    (copyOf runtime m t value).readIn scope = copyOf runtime m t (value.readIn scope) := by
  unfold copyOf
  cases m.category t <;>
    simp [Expr.static, Expr.nullOr, Expr.isNull, Expr.eq, Expr.readIn, Expr.listReadIn]

private theorem copyOf_inj {value other : Expr} :
    copyOf runtime m t value = copyOf runtime m t other ↔ value = other := by
  unfold copyOf
  cases m.category t <;> simp [Expr.static, Expr.nullOr, Expr.isNull, Expr.eq]

/-- Copies a field that is mentioned so. -/
def copyWith (runtime : RuntimeClasses) (m : CodeModel) (f : InstanceField) (mine : Expr) : Stmt :=
  let unlessNull (copy : Block) : Stmt :=
    .ifElse mine.isNull [.assign (targetField f) .nullLit] copy
  if f.type.isErasure "List" then
    let element := f.type.elementOrObject
    unlessNull [
      .declFinal (.listOf element) (listLocal f)
        (.newObject (.named "java.util.ArrayList" [element]) []),
      .forEach element "aItem" (.call (Naming.getterName f.type f.accessor) [])
        [.expr ((Expr.ident (listLocal f)).invoke "add"
          [copyOf runtime m element (.ident "aItem")])],
      .assign (targetField f) (.ident (listLocal f))]
  else if f.type.isErasure "Map" then
    unlessNull [.assign (targetField f)
      (.newObject (.named "java.util.HashMap" (typeArgs f.type)) [mine])]
  else .assign (targetField f) (copyOf runtime m f.type mine)

private theorem copyField_byName (runtime : RuntimeClasses) (m : CodeModel) (f : InstanceField) :
    copyField runtime m f = copyWith runtime m f f.byName := by
  unfold copyField copyWith
  split
  · rfl
  · split <;> rfl

private theorem declares_copyWith (mine : Expr) : (copyWith runtime m f mine).declares = [] := by
  unfold copyWith
  split
  · rfl
  · split <;> rfl

/-- The variables of a copied list are in scope only where no field is mentioned. -/
theorem readIn_copyWith (hret : "ret" ∈ scope) (mine : Expr) :
    (copyWith runtime m f mine).readIn scope = copyWith runtime m f (mine.readIn scope) := by
  have htarget : ∀ {names : List String}, "ret" ∈ names →
      (targetField f).readIn names = targetField f := by
    intro names hmem
    simp [targetField, Expr.readIn, hmem]
  unfold copyWith
  split
  · simp [Stmt.declFinal, Stmt.readIn, Stmt.blockReadIn, Stmt.declares, Expr.optionReadIn,
      Expr.isNull, Expr.eq, Expr.readIn, Expr.listReadIn, readIn_copyOf, htarget, hret]
  · split
    · simp [Stmt.readIn, Stmt.blockReadIn, Expr.isNull, Expr.eq, Expr.readIn, Expr.listReadIn,
        htarget, hret]
    · simp [Stmt.readIn, readIn_copyOf, htarget, hret]

private theorem copyWith_inj {mine other : Expr} :
    copyWith runtime m f mine = copyWith runtime m f other ↔ mine = other := by
  unfold copyWith
  split
  · simp [Expr.isNull, Expr.eq]
  · split
    · simp [Expr.isNull, Expr.eq]
    · simp [copyOf_inj]

/-- The call that copies what the superclass knows. -/
def copyInherited : Lineage → Block
  | .root => []
  | .derived => [.expr (Expr.superRef.invoke "cloneTo" [.ident "ret"])]

/-- What copies the inherited part declares no variables. -/
theorem declares_copyInherited (lineage : Lineage) :
    ∀ s ∈ copyInherited lineage, s.declares = [] := by
  cases lineage <;> simp [copyInherited, Stmt.declares]

/-- The body of `cloneTo` where fields are mentioned by name. -/
theorem cloneToBody_byName (runtime : RuntimeClasses) (m : CodeModel)
    (fields : List InstanceField) (lineage : Lineage) : cloneToBody runtime m fields lineage =
      copyInherited lineage ++ fields.map fun f => copyWith runtime m f f.byName := by
  have hfields : fields.map (copyField runtime m) =
      fields.map fun f => copyWith runtime m f f.byName :=
    List.map_congr_left fun f _ => copyField_byName runtime m f
  cases lineage <;> simp [cloneToBody, copyInherited, hfields]

/-- What copies the fields declares no variables to the statements behind it. -/
theorem declares_copyAll (runtime : RuntimeClasses) (m : CodeModel) (fields : List InstanceField)
    (mention : Mention) :
    ∀ s ∈ fields.map fun f => copyWith runtime m f (mention f), s.declares = [] := by
  intro s hs
  obtain ⟨f, -, rfl⟩ := List.mem_map.mp hs
  exact declares_copyWith (mention f)

/-- The draft of `cloneTo`. Its fields stand in the scope of the parameter alone. -/
def cloneToDraft (runtime : RuntimeClasses) (m : CodeModel) (c : BeanClass)
    (fields : List InstanceField) (lineage : Lineage) : Draft where
  method := cloneToMethod runtime m c fields lineage
  body mention := copyInherited lineage ++ fields.map fun f => copyWith runtime m f (mention f)
  mentioned := fields
  scope := ["ret"]
  written := by
    have hfields : fields.map (copyField runtime m) =
        fields.map fun f => copyWith runtime m f f.byName :=
      List.map_congr_left fun f _ => copyField_byName runtime m f
    left
    cases lineage <;> simp [cloneToMethod, cloneToBody, copyInherited, hfields]
  reads mention := by
    change Stmt.blockReadIn ["ret"] _ = _
    have hfirst : ∀ s ∈ copyInherited lineage, s.declares = [] := by
      cases lineage <;> simp [copyInherited, Stmt.declares]
    have hsuper : (copyInherited lineage).map (Stmt.readIn ["ret"]) = copyInherited lineage := by
      cases lineage <;> simp [copyInherited, Stmt.readIn, Expr.readIn, Expr.listReadIn]
    have hnone : ∀ s ∈ fields.map fun f => copyWith runtime m f (mention f), s.declares = [] := by
      intro s hs
      obtain ⟨f, -, rfl⟩ := List.mem_map.mp hs
      exact declares_copyWith (mention f)
    rw [Stmt.blockReadIn_append hfirst, Stmt.blockReadIn_eq_map hfirst,
      Stmt.blockReadIn_eq_map hnone, hsuper]
    simp [readIn_copyWith]
  body_eq_iff mention other := by simp [copyWith_inj]

/-- The draft of `clone`, which mentions no fields. -/
def cloneDraft (runtime : RuntimeClasses) (c : BeanClass) : Draft :=
  .plain (cloneMethod runtime c) (by
    unfold Method.reading cloneMethod
    cases c.isAbstract
    · rfl
    · rfl)

end Copying

/-! ## Accessors -/

namespace ListAccessors

/-- The draft of the setter of a list field. -/
def setterDraft (settings : Settings) (f : InstanceField) : Draft where
  method := setter settings f
  body mention := [.assign (mention f) (.ident "aList")]
  mentioned := [f]
  scope := ["aList"]
  written := .inl rfl
  reads mention := by
    change Stmt.blockReadIn ["aList"] _ = _
    simp [Stmt.blockReadIn, Stmt.readIn, Expr.readIn]
  body_eq_iff mention other := by simp

/-- The drafts of the companions of a list getter, with those of every name that the number of
entries may have. They mention no fields. -/
def companionDrafts (settings : Settings) (g : ListGetter) : List Draft :=
  [.plain g.hasEntries rfl, .plain g.hasNoEntries rfl, .plain (g.atIndex settings) rfl,
    .plain (g.add settings) rfl] ++
    g.countNames.map fun name => .plain (g.count settings name) rfl

/-- The drafts of a list getter are those of its companions. -/
theorem methods_companionDrafts (settings : Settings) (g : ListGetter) :
    (companionDrafts settings g).map (·.method) =
      [g.hasEntries, g.hasNoEntries, g.atIndex settings, g.add settings] ++
        g.countNames.map (g.count settings) := rfl

end ListAccessors

namespace LocalAccessors

variable {scope : List String}

/-- The draft of the getter of a local view. -/
def getterDraft (settings : Settings) (f : InstanceField) (companion : LocalCompanion) : Draft where
  method := getter settings f companion
  body mention := [.give ((mention f).nullOr ((mention f).invoke companion.conversion []))]
  mentioned := [f]
  written := .inl rfl
  reads mention := by
    change Stmt.blockReadIn [] _ = _
    simp [Stmt.give, Expr.nullOr, Expr.isNull, Expr.eq, Stmt.blockReadIn, Stmt.readIn,
      Expr.optionReadIn, Expr.readIn, Expr.listReadIn]
  body_eq_iff mention other := by simp [Stmt.give, Expr.nullOr, Expr.isNull, Expr.eq]

private theorem readIn_offset (companion : LocalCompanion) :
    (offset companion).readIn scope = offset companion := by
  unfold offset
  split
  · rfl
  · rfl

/-- The draft of the setter of a local view. -/
def setterDraft (settings : Settings) (f : InstanceField) (companion : LocalCompanion) : Draft where
  method := setter settings f companion
  body mention := [.assign (mention f) ((Expr.ident "aValue").nullOr
    (.static (className f.type) "of" [.ident "aValue", offset companion]))]
  mentioned := [f]
  scope := ["aValue"]
  written := .inl rfl
  reads mention := by
    change Stmt.blockReadIn ["aValue"] _ = _
    simp [Expr.static, Expr.nullOr, Expr.isNull, Expr.eq, Stmt.blockReadIn, Stmt.readIn,
      Expr.readIn, Expr.listReadIn, readIn_offset]
  body_eq_iff mention other := by simp

/-- The drafts of the methods for a field. -/
def fieldDrafts (settings : Settings) (f : InstanceField) : List Draft :=
  match localCompanion? f.type with
  | some companion => [getterDraft settings f companion, setterDraft settings f companion]
  | none => []

/-- The drafts of a field are those of its accessors. -/
theorem methods_fieldDrafts (settings : Settings) (f : InstanceField) :
    (fieldDrafts settings f).map (·.method) = fieldMethods settings f := by
  unfold fieldDrafts fieldMethods
  cases localCompanion? f.type <;> rfl

end LocalAccessors

end BeanSynthesis
