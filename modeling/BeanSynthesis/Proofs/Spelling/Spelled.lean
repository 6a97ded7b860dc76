import BeanSynthesis.Proofs.JavaText.Written
import BeanSynthesis.Proofs.Spelling.Units

/-!
# The names that a unit spells

Every class name that stands in the source of a class is among the names that its table is made
from: the pieces of the source and the collected names run over the same syntax, constructor by
constructor. If these names have packages, the table spells no two of them alike, spells a name in
full only where another one has its simple name, and imports the short ones that are not in reach.
-/

namespace BeanSynthesis

open Source

/-! ## Spelled names are collected -/

section

variable {α : Type}

private theorem append_subset_append {as bs cs ds : List α} (has : as ⊆ cs) (hbs : bs ⊆ ds) :
    as ++ bs ⊆ cs ++ ds :=
  List.append_subset.2
    ⟨List.subset_append_of_subset_left _ has, List.subset_append_of_subset_right _ hbs⟩

private theorem flatMap_subset_flatMap {β : Type} {xs : List β} {f g : β → List α}
    (h : ∀ x ∈ xs, f x ⊆ g x) : xs.flatMap f ⊆ xs.flatMap g := by
  intro a ha
  obtain ⟨x, hx, hax⟩ := List.mem_flatMap.1 ha
  exact List.mem_flatMap.2 ⟨x, hx, h x hx hax⟩

end

mutual

/-- A type spells the names in it. -/
theorem TypeExpr.spelledNames_pieces : ∀ t : TypeExpr, spelledNames t.pieces = t.classNames
  | .void => rfl
  | .primitive _ => rfl
  | .named name [] => rfl
  | .named name (arg :: args) => by
    simp [TypeExpr.pieces, TypeExpr.classNames, TypeExpr.listClassNames,
      TypeExpr.spelledNames_pieces arg, TypeExpr.spelledNames_restPieces args]
  | .array element => by
    simp [TypeExpr.pieces, TypeExpr.classNames, TypeExpr.spelledNames_pieces element]
  | .unbounded => rfl
  | .bounded bound => by
    simp [TypeExpr.pieces, TypeExpr.classNames, TypeExpr.spelledNames_pieces bound]

private theorem TypeExpr.spelledNames_restPieces :
    ∀ ts : List TypeExpr, spelledNames (TypeExpr.restPieces ts) = TypeExpr.listClassNames ts
  | [] => rfl
  | t :: ts => by
    simp [TypeExpr.restPieces, TypeExpr.listClassNames, TypeExpr.spelledNames_pieces t,
      TypeExpr.spelledNames_restPieces ts]

end

mutual

/-- The names that an expression spells are collected from it. Not all that are collected are
spelled: the type arguments of the class before a static member are left out. -/
theorem Expr.spelledNames_subset : ∀ e : Expr, spelledNames e.pieces ⊆ e.classNames
  | .thisRef | .superRef | .nullLit | .boolLit _ | .intLit _ | .strLit _ | .ident _ =>
    List.nil_subset _
  | .field target _ => by
    simpa [Expr.pieces, Expr.classNames] using Expr.spelledNames_subset target
  | .call _ args => by
    simpa [Expr.pieces, Expr.classNames] using Expr.spelledNames_argPieces args
  | .invoke target _ args => by
    simpa [Expr.pieces, Expr.classNames] using
      append_subset_append (Expr.spelledNames_subset target) (Expr.spelledNames_argPieces args)
  | .staticCall owner _ args => by
    have hargs := Expr.spelledNames_argPieces args
    simpa [Expr.pieces, Expr.classNames, ClassRef.classNames] using
      List.cons_subset_cons owner.name (List.subset_append_of_subset_right _ hargs)
  | .staticField owner _ => by
    simp [Expr.pieces, Expr.classNames, ClassRef.classNames]
  | .newObject type args => by
    simpa [Expr.pieces, Expr.classNames, TypeExpr.spelledNames_pieces] using
      append_subset_append (List.Subset.refl type.classNames) (Expr.spelledNames_argPieces args)
  | .cast type operand => by
    simpa [Expr.pieces, Expr.classNames, TypeExpr.spelledNames_pieces] using
      append_subset_append (List.Subset.refl type.classNames) (Expr.spelledNames_subset operand)
  | .not operand => by
    simpa [Expr.pieces, Expr.classNames] using Expr.spelledNames_subset operand
  | .binary _ lhs rhs => by
    simpa [Expr.pieces, Expr.classNames] using
      append_subset_append (Expr.spelledNames_subset lhs) (Expr.spelledNames_subset rhs)
  | .instanceOf operand type => by
    have hoperand := Expr.spelledNames_subset operand
    simpa [Expr.pieces, Expr.classNames, TypeExpr.spelledNames_pieces] using
      List.subset_append_of_subset_right type.classNames hoperand
  | .cond test yes no => by
    simpa [Expr.pieces, Expr.classNames] using append_subset_append (Expr.spelledNames_subset test)
      (append_subset_append (Expr.spelledNames_subset yes) (Expr.spelledNames_subset no))

private theorem Expr.spelledNames_argPieces :
    ∀ es : List Expr, spelledNames (Expr.argPieces es) ⊆ Expr.listClassNames es
  | [] => List.nil_subset _
  | e :: es => by
    simpa [Expr.argPieces, Expr.listClassNames] using
      append_subset_append (Expr.spelledNames_subset e) (Expr.spelledNames_argRestPieces es)

private theorem Expr.spelledNames_argRestPieces :
    ∀ es : List Expr, spelledNames (Expr.argRestPieces es) ⊆ Expr.listClassNames es
  | [] => List.nil_subset _
  | e :: es => by
    simpa [Expr.argRestPieces, Expr.listClassNames] using
      append_subset_append (Expr.spelledNames_subset e) (Expr.spelledNames_argRestPieces es)

end

mutual

/-- The names that a statement spells are collected from it. -/
theorem Stmt.spelledNames_subset :
    ∀ (depth : Nat) (s : Stmt), spelledNames (s.pieces depth) ⊆ s.classNames
  | _, .ret (some value) => by
    simpa [Stmt.pieces, Stmt.classNames, Expr.optionClassNames] using value.spelledNames_subset
  | _, .ret none => by simp [Stmt.pieces, Stmt.classNames, Expr.optionClassNames]
  | _, .expr e => by simpa [Stmt.pieces, Stmt.classNames] using e.spelledNames_subset
  | _, .decl _ type _ none => by
    simp [Stmt.pieces, Stmt.classNames, Expr.optionClassNames, TypeExpr.spelledNames_pieces]
  | _, .decl _ type _ (some init) => by
    simpa [Stmt.pieces, Stmt.classNames, Expr.optionClassNames, TypeExpr.spelledNames_pieces] using
      append_subset_append (List.Subset.refl type.classNames) init.spelledNames_subset
  | _, .assign target value => by
    simpa [Stmt.pieces, Stmt.classNames] using
      append_subset_append target.spelledNames_subset value.spelledNames_subset
  | depth, .ifThen test body => by
    simpa [Stmt.pieces, Stmt.classNames] using
      append_subset_append test.spelledNames_subset (Stmt.spelledNames_blockPieces (depth + 1) body)
  | depth, .ifElse test body otherwise => by
    have hbody := Stmt.spelledNames_blockPieces (depth + 1) body
    have hotherwise := Stmt.spelledNames_blockPieces (depth + 1) otherwise
    simpa [Stmt.pieces, Stmt.classNames] using
      append_subset_append test.spelledNames_subset (append_subset_append hbody hotherwise)
  | depth, .forEach type _ iterable body => by
    have hbody := Stmt.spelledNames_blockPieces (depth + 1) body
    simpa [Stmt.pieces, Stmt.classNames, TypeExpr.spelledNames_pieces] using
      append_subset_append (List.Subset.refl type.classNames)
        (append_subset_append iterable.spelledNames_subset hbody)

private theorem Stmt.spelledNames_blockPieces : ∀ (depth : Nat) (body : List Stmt),
    spelledNames (Stmt.blockPieces depth body) ⊆ Stmt.listClassNames body
  | _, [] => List.nil_subset _
  | depth, s :: rest => by
    simpa [Stmt.blockPieces, Stmt.listClassNames] using
      append_subset_append (Stmt.spelledNames_subset depth s)
        (Stmt.spelledNames_blockPieces depth rest)

end

private theorem Annotation.spelledNames_linePieces (depth : Nat) (annotations : List Annotation) :
    spelledNames (linePieces depth annotations) = Annotation.listClassNames annotations := by
  simp [linePieces, Annotation.pieces, Annotation.listClassNames, List.map_eq_flatMap]

private theorem ClassRef.spelledNames_pieces (c : ClassRef) :
    spelledNames c.pieces = c.classNames :=
  TypeExpr.spelledNames_pieces (.ofClass c)

private theorem ClassRef.spelledNames_clausePieces (keyword : String) (refs : List ClassRef) :
    spelledNames (clausePieces keyword refs) = refs.flatMap ClassRef.classNames := by
  unfold clausePieces
  split
  case isTrue hempty => simp [List.isEmpty_iff.1 hempty]
  case isFalse _ => simp [listPieces, ClassRef.spelledNames_pieces, List.flatMap_map]

private theorem Param.spelledNames_listPieces (params : List Param) :
    spelledNames (listPieces params) ⊆ Param.listClassNames params := by
  simp only [listPieces, spelledNames_commaPieces, List.flatMap_map, Param.listClassNames]
  refine flatMap_subset_flatMap fun p _ => ?_
  have hmarks : spelledNames (p.annotations.flatMap fun a => a.pieces ++ [.text " "]) =
      Annotation.listClassNames p.annotations := by
    simp [List.map_eq_flatMap, Annotation.pieces, Annotation.listClassNames]
  have hpieces : spelledNames p.pieces =
      Annotation.listClassNames p.annotations ++ p.type.classNames := by
    rw [Param.pieces, List.append_assoc, spelledNames_append, hmarks]
    simp [TypeExpr.spelledNames_pieces]
  rw [hpieces]
  exact List.append_subset.2 ⟨List.subset_append_right _ _, List.subset_append_left _ _⟩

private theorem Field.spelledNames_pieces (f : Field) : spelledNames f.pieces =
    Annotation.listClassNames f.annotations ++ f.type.classNames := by
  simp [Field.pieces, Annotation.spelledNames_linePieces, TypeExpr.spelledNames_pieces]

private theorem Source.spelledNames_docSegments (lines : List String) :
    (docSegments lines).flatMap Segment.spelledNames = [] := by
  unfold docSegments
  split <;> rfl

private theorem Javadoc.spelledNames_segments (doc : Javadoc) :
    doc.segments.flatMap Segment.spelledNames = [] := by
  unfold Javadoc.segments
  split <;> rfl

private theorem Constructor.spelledNames_subset (className : String) (c : Constructor) :
    (c.segments className).flatMap Segment.spelledNames ⊆ className :: c.classNames := by
  have hinside := append_subset_append (Param.spelledNames_listPieces c.params)
    (Stmt.spelledNames_blockPieces 2 c.body)
  simpa [Constructor.segments, Javadoc.spelledNames_segments, Constructor.classNames] using
    List.cons_subset_cons className hinside

private theorem Method.spelledNames_headerPieces (m : Method) : spelledNames m.headerPieces ⊆
    m.returnType.classNames ++ Param.listClassNames m.params ++
      m.throws.flatMap ClassRef.classNames := by
  have hparams := Param.spelledNames_listPieces m.params
  simpa [Method.headerPieces, TypeExpr.spelledNames_pieces,
    ClassRef.spelledNames_clausePieces] using
    append_subset_append (List.Subset.refl m.returnType.classNames)
      (append_subset_append hparams (List.Subset.refl (m.throws.flatMap ClassRef.classNames)))

private theorem Method.spelledNames_declPieces (m : Method) : spelledNames m.declPieces ⊆
    spelledNames m.headerPieces ++ Stmt.listClassNames (m.body.getD []) := by
  unfold Method.declPieces
  cases m.body with
  | none => simp
  | some body =>
    dsimp only
    split
    · simp
    · simpa using List.subset_append_of_subset_right (spelledNames m.headerPieces)
        (Stmt.spelledNames_blockPieces 2 body)

private theorem Method.spelledNames_subset (m : Method) :
    m.segments.flatMap Segment.spelledNames ⊆ m.classNames := by
  have hdecl := List.Subset.trans m.spelledNames_declPieces
    (append_subset_append m.spelledNames_headerPieces (List.Subset.refl _))
  intro name hname
  simp only [Method.segments, List.flatMap_append, Javadoc.spelledNames_segments, List.nil_append,
    List.flatMap_singleton, Segment.spelledNames_code, spelledNames_append,
    Annotation.spelledNames_linePieces, List.mem_append] at hname
  simp only [Method.classNames, List.mem_append]
  rcases hname with hmark | hrest
  · exact .inl (.inl (.inr hmark))
  · have hcollected := hdecl hrest
    simp only [List.mem_append] at hcollected
    rcases hcollected with ((hreturn | hparam) | hthrows) | hbody
    · exact .inl (.inl (.inl (.inl hreturn)))
    · exact .inl (.inl (.inl (.inr hparam)))
    · exact .inl (.inr hthrows)
    · exact .inr hbody

private theorem BeanClass.spelledNames_headerPieces (c : BeanClass) : spelledNames c.headerPieces ⊆
    c.name :: (c.parent.toList.flatMap ClassRef.classNames ++
      c.interfaces.flatMap ClassRef.classNames) := by
  unfold BeanClass.headerPieces
  cases c.kind with
  | enumeration => simp [ClassRef.spelledNames_clausePieces]
  | plain =>
    cases c.parent with
    | none => simp [ClassRef.spelledNames_clausePieces]
    | some parent =>
      simp [ClassRef.spelledNames_clausePieces, ClassRef.spelledNames_pieces]

/-- The class names that the unit of a class spells. -/
def BeanClass.spelledNames (c : BeanClass) : List String :=
  c.segments.flatMap Segment.spelledNames

/-- Every name that the unit of a class spells is collected from the class. -/
theorem BeanClass.spelledNames_subset (c : BeanClass) : c.spelledNames ⊆ c.classNames := by
  intro name hname
  simp only [BeanClass.spelledNames, BeanClass.segments, List.flatMap_append, List.flatMap_cons,
    List.flatMap_nil, List.flatMap_assoc, List.append_nil, List.nil_append, List.cons_append,
    Segment.spelledNames_code, spelledNames_docSegments, spelledNames_append, spelledNames_text,
    spelledNames_nil, spelledNames_onLine, Annotation.spelledNames_linePieces,
    spelledNames_flatMap, Field.spelledNames_pieces, List.mem_append] at hname
  simp only [List.mem_flatMap (l := c.fields), List.mem_flatMap (l := c.constructors),
    List.mem_flatMap (l := c.methods), List.mem_append] at hname
  simp only [BeanClass.classNames, List.mem_cons, List.mem_append, List.mem_flatMap]
  rcases hname with (((hmark | hheader) | hfield) | hconstructor) | hmethod
  · exact .inr (.inl (.inl (.inl (.inr hmark))))
  · have hcollected := c.spelledNames_headerPieces hheader
    simp only [List.mem_cons, List.mem_append, List.mem_flatMap] at hcollected
    rcases hcollected with hself | hclause
    · exact .inl hself
    · exact .inr (.inl (.inl (.inl (.inl hclause))))
  · obtain ⟨f, hf, hname⟩ := hfield
    exact .inr (.inl (.inl (.inr ⟨f, hf, hname.symm⟩)))
  · obtain ⟨k, hk, hname⟩ := hconstructor
    rcases List.mem_cons.1 (k.spelledNames_subset c.name hname) with hself | hcollected
    · exact .inl hself
    · exact .inr (.inl (.inr ⟨k, hk, hcollected⟩))
  · obtain ⟨m, hm, hname⟩ := hmethod
    exact .inr (.inr ⟨m, hm, m.spelledNames_subset hname⟩)

/-! ## Spellings are told apart -/

namespace Source

/-- The collected names increase. -/
theorem sortedNames_increase (names : List String) : (sortedNames names).Pairwise (· < ·) := by
  rw [sortedNames, Dict.names, List.pairwise_map]
  exact (Dict.ofList _).increasing

namespace NameTable

variable {self : String} {used : List String} {a b name : String}

/-- Of several names with one simple name all but the first come after another. -/
theorem exists_smaller (hused : used.Pairwise (· < ·)) (hmem : name ∈ used)
    (hfirst : ¬ isFirst used name) :
    ∃ smaller ∈ used, smaller < name ∧ simpleName smaller = simpleName name := by
  obtain ⟨first, hfind⟩ := Option.isSome_iff_exists.1
    (List.find?_isSome.2 ⟨name, hmem, beq_self_eq_true _⟩ :
      (used.find? (simpleName · == simpleName name)).isSome)
  obtain ⟨hsimple, before, after, rfl, hbefore⟩ := List.find?_eq_some_iff_append.1 hfind
  have hne : first ≠ name := by
    rintro rfl
    exact hfirst (by rw [isFirst, hfind]; exact beq_self_eq_true _)
  have hafter : name ∈ after := by
    rcases List.mem_append.1 hmem with hmem | hmem
    · simpa using hbefore name hmem
    · exact (List.mem_cons.1 hmem).resolve_left hne.symm
  have hless := List.rel_of_pairwise_cons (List.pairwise_append.1 hused).2.1 hafter
  exact ⟨first, by simp, hless, by simpa using hsimple⟩

/-- A spelling is the simple name or the name in full. -/
theorem spell_cases (table : NameTable) (name : String) :
    name ∈ table.shortened ∧ table.spell name = simpleName name ∨
      name ∉ table.shortened ∧ table.spell name = name := by
  unfold spell
  split
  case isTrue hmem => exact .inl ⟨hmem, rfl⟩
  case isFalse hmem => exact .inr ⟨hmem, rfl⟩

/-- Names with packages, and the name of the class, are not spelled alike. -/
theorem eq_of_spell_eq (hself : self ∈ used)
    (ha : a ≠ self → packageName a ≠ "") (hb : b ≠ self → packageName b ≠ "")
    (h : (ofNames self used).spell a = (ofNames self used).spell b) : a = b := by
  have hshort : self ∈ (ofNames self used).shortened :=
    mem_shortened_ofNames.2 ⟨hself, .inl rfl⟩
  -- What is spelled in full has a package, and so a dot, which no simple name has.
  have hdot : ∀ {c d}, (d ≠ self → packageName d ≠ "") → d ∉ (ofNames self used).shortened →
      simpleName c ≠ d := by
    rintro c d hd hnot rfl
    have hne : simpleName c ≠ self := fun heq => hnot (heq ▸ hshort)
    exact dot_not_mem_simpleName c (dot_mem_of_packageName (hd hne))
  rcases spell_cases (ofNames self used) a with ⟨hamem, haspell⟩ | ⟨hamem, haspell⟩ <;>
    rcases spell_cases (ofNames self used) b with ⟨hbmem, hbspell⟩ | ⟨hbmem, hbspell⟩ <;>
    rw [haspell, hbspell] at h
  · exact eq_of_mem_shortened hamem hbmem h
  · exact absurd h (hdot hb hbmem)
  · exact absurd h.symm (hdot ha hamem)
  · exact h

/-- The simple names of imports are different. -/
theorem imports_apart (hused : used.Pairwise (· < ·)) :
    (ofNames self used).imports.Pairwise (simpleName · ≠ simpleName ·) := by
  have hincreasing : (ofNames self used).imports.Pairwise (· < ·) := (hused.filter _).filter _
  refine hincreasing.imp_of_mem fun {a b} ha hb hless hsimple => ?_
  have heq : a = b := eq_of_mem_shortened (mem_imports.1 ha).1 (mem_imports.1 hb).1 hsimple
  exact String.lt_irrefl b (heq ▸ hless)

end NameTable

end Source

mutual

/-- A written type is the written form of the type with its names spelled so. -/
theorem TypeExpr.render_eq_toText (spell : String → String) :
    ∀ t : TypeExpr, t.render spell = (t.spelled spell).toText
  | .void => rfl
  | .primitive _ => rfl
  | .named _ [] => rfl
  | .named name (arg :: args) => by
    have harg := TypeExpr.render_eq_toText spell arg
    have hargs := TypeExpr.renderRest_eq_toText spell args
    rw [TypeExpr.toText] at harg ⊢
    simp [TypeExpr.spelled, TypeExpr.listSpelled, TypeExpr.render, harg, hargs]
  | .array element => by
    have helement := TypeExpr.render_eq_toText spell element
    rw [TypeExpr.toText] at helement ⊢
    simp [TypeExpr.spelled, TypeExpr.render, helement]
  | .unbounded => rfl
  | .bounded bound => by
    have hbound := TypeExpr.render_eq_toText spell bound
    rw [TypeExpr.toText] at hbound ⊢
    simp [TypeExpr.spelled, TypeExpr.render, hbound]

private theorem TypeExpr.renderRest_eq_toText (spell : String → String) : ∀ ts : List TypeExpr,
    TypeExpr.renderRest spell ts = TypeExpr.renderRest id (TypeExpr.listSpelled spell ts)
  | [] => rfl
  | t :: ts => by
    have hfirst := TypeExpr.render_eq_toText spell t
    rw [TypeExpr.toText] at hfirst
    simp [TypeExpr.listSpelled, TypeExpr.renderRest, hfirst,
      TypeExpr.renderRest_eq_toText spell ts]

end

/-! ## The table of a class -/

/-- The names in the unit of a class are collected, and spelled apart and in reach. -/
structure SpelledApart (c : BeanClass) : Prop where
  /-- The unit consists of its segments, with names spelled as the table has them. -/
  source : renderClass c = unitSource (NameTable.ofClass c).spell c.segments
  collected : ∀ name ∈ c.spelledNames, name ∈ sortedNames c.classNames
  apart : ∀ a ∈ sortedNames c.classNames, ∀ b ∈ sortedNames c.classNames,
    (NameTable.ofClass c).spell a = (NameTable.ofClass c).spell b → a = b
  /-- What is not spelled short clashes with the class or with a name before it. -/
  clash : ∀ name ∈ sortedNames c.classNames,
    (NameTable.ofClass c).spell name ≠ simpleName name →
      (NameTable.ofClass c).spell name = name ∧ (simpleName name = c.simpleName ∨
        ∃ smaller ∈ sortedNames c.classNames, smaller < name ∧
          simpleName smaller = simpleName name)
  reach : ∀ name ∈ sortedNames c.classNames,
    (NameTable.ofClass c).spell name = simpleName name →
      name = c.name ∨ packageName name = c.packageName ∨ packageName name = "java.lang" ∨
        name ∈ (NameTable.ofClass c).imports
  importsApart : (NameTable.ofClass c).imports.Pairwise (simpleName · ≠ simpleName ·)
  importsOthers : ∀ name ∈ (NameTable.ofClass c).imports, simpleName name ≠ c.simpleName
  types : ∀ t, (NameTable.ofClass c).type t = (t.spelled (NameTable.ofClass c).spell).toText

/-- If the classes that a class refers to have packages, its unit spells them apart. -/
theorem spelledApart_of_packages (c : BeanClass)
    (h : ∀ name ∈ c.classNames, name ≠ c.name → packageName name ≠ "") : SpelledApart c where
  source := c.unitSource_segments.symm
  collected name hname := mem_sortedNames.2 (c.spelledNames_subset hname)
  apart a ha b hb := NameTable.eq_of_spell_eq (by simp [BeanClass.classNames])
    (h a (mem_sortedNames.1 ha)) (h b (mem_sortedNames.1 hb))
  clash name hname hspell := by
    rcases NameTable.spell_cases (NameTable.ofClass c) name with ⟨-, hshort⟩ | ⟨hnot, hfull⟩
    · exact absurd hshort hspell
    · refine ⟨hfull, or_iff_not_imp_left.2 fun hne => ?_⟩
      refine NameTable.exists_smaller (sortedNames_increase _) hname fun hfirst => hnot ?_
      exact NameTable.mem_shortened_ofNames.2 ⟨hname, .inr ⟨hne, hfirst⟩⟩
  reach name hname hspell := by
    by_cases hself : name = c.name
    · exact .inl hself
    have hpackage := h name (mem_sortedNames.1 hname) hself
    have hshort := (NameTable.spell_eq_simpleName_iff hpackage).1 hspell
    by_cases hown : packageName name = c.packageName
    · exact .inr (.inl hown)
    by_cases hlang : packageName name = "java.lang"
    · exact .inr (.inr (.inl hlang))
    · exact .inr (.inr (.inr (NameTable.mem_imports.2 ⟨hshort, hself, hpackage, hlang, hown⟩)))
  importsApart := NameTable.imports_apart (sortedNames_increase _)
  importsOthers name hname := by
    obtain ⟨hshort, hself, -⟩ := NameTable.mem_imports.1 hname
    exact ((NameTable.mem_shortened_ofNames.1 hshort).2.resolve_left hself).1
  types := TypeExpr.render_eq_toText _

/-- A class with two types of one simple name, and one that is called like the class. -/
def nodeOrder : BeanClass :=
  { name := "shop.Order"
    fields := [{ name := "tree", type := .ofName "org.w3c.dom.Node" },
      { name := "node", type := .ofName "com.acme.Node" },
      { name := "origin", type := .ofName "stock.Order" },
      { name := "note", type := .ofName "java.lang.String" }] }

/-- The first of the types in the order of names is short, the others are written in full. -/
theorem nodeOrder_spelledApart :
    (∀ name ∈ nodeOrder.classNames, name ≠ nodeOrder.name → packageName name ≠ "") ∧
      SpelledApart nodeOrder ∧
      nodeOrder.spelledNames = ["shop.Order", "org.w3c.dom.Node", "com.acme.Node",
        "stock.Order", "java.lang.String"] ∧
      nodeOrder.spelledNames.map (NameTable.ofClass nodeOrder).spell =
        ["Order", "org.w3c.dom.Node", "Node", "stock.Order", "String"] := by
  have hpackages : ∀ name ∈ nodeOrder.classNames, name ≠ nodeOrder.name →
      packageName name ≠ "" := by decide +kernel
  exact ⟨hpackages, spelledApart_of_packages nodeOrder hpackages, by decide +kernel,
    by decide +kernel⟩

end BeanSynthesis
