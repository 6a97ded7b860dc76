import BeanSynthesis.Proofs.Carrying.Companions

/-!
# What list accessors mean

The companions of a list getter are called after its property, and two properties may give one
name: `hasNoItemsEntries` asks whether there are no `Items`, and whether there are `NoItems`. Of the
methods with one name and one signature a class gets the one that is queued first. So a companion
tells about the list of its own property if and only if that is the first one to give the name.
-/

namespace BeanSynthesis

/-- Some occurrence of `x` in the list stands before every rival of it. -/
def Leads {α : Type} (xs : List α) (x : α) (rival : α → Prop) : Prop :=
  ∃ earlier later, xs = earlier ++ x :: later ∧ ∀ y ∈ earlier, ¬rival y

private theorem leads_cons {α : Type} {xs : List α} {x y : α} {rival : α → Prop} :
    Leads (y :: xs) x rival ↔ y = x ∨ ¬rival y ∧ Leads xs x rival := by
  constructor
  · rintro ⟨earlier, later, heq, hearlier⟩
    cases earlier with
    | nil => exact .inl (List.cons.inj heq).1
    | cons first earlier =>
      obtain ⟨rfl, rfl⟩ := List.cons.inj heq
      obtain ⟨hfirst, hrest⟩ := List.forall_mem_cons.mp hearlier
      exact .inr ⟨hfirst, earlier, later, rfl, hrest⟩
  · rintro (rfl | ⟨hfirst, earlier, later, rfl, hearlier⟩)
    · exact ⟨[], xs, rfl, List.forall_mem_nil _⟩
    · exact ⟨y :: earlier, later, rfl, List.forall_mem_cons.mpr ⟨hfirst, hearlier⟩⟩

/-- The method has parameters of these names and types, and this body. -/
def Method.Does (x : Method) (params : List (String × TypeExpr)) (body : Block) : Prop :=
  x.params.map (fun p => (p.name, p.type)) = params ∧ x.body = some body

/-- The class has a method of this name with these parameters, and the first such one has this
body. -/
def BeanClass.Does (d : BeanClass) (name : String) (params : List (String × TypeExpr))
    (body : Block) : Prop :=
  ∃ x, d.method? name (params.map Prod.snd) = some x ∧ x.Does params body

namespace ListAccessors

variable {settings : Settings} {context : PassContext} {m : CodeModel} {c : BeanClass}
  {g : ListGetter} {gs : List ListGetter} {queued : List Method} {report : PassReport}
  {property : String}

/-! ## The first method of a key -/

/-- The body of the method that asks a list. -/
def asks (method property : String) (args : List Expr) : Expr :=
  (Expr.call ("get" ++ property) []).invoke method args

/-- What has been queued stays, and comes before all that is queued later. -/
theorem prefix_foldl_queue (settings : Settings) (c : BeanClass) (gs : List ListGetter)
    (queued : List Method) :
    queued <+: gs.foldl (queue settings c) queued := by
  induction gs generalizing queued with
  | nil => exact List.prefix_rfl
  | cons g rest ih =>
    have hfirst : queued <+: queue settings c queued g := by
      simp only [queue, List.append_assoc]
      exact List.prefix_append _ _
    exact hfirst.trans (ih (queue settings c queued g))

/-- The first method of a key that is no setter's and no count's is a companion of the first getter
that gives the key. -/
theorem find?_foldl_queue {p : Method → Bool}
    (hcount : ∀ g : ListGetter, ∀ name ∈ g.countNames, ¬p (g.count settings name)) :
    (gs.foldl (queue settings c) queued).find? p =
      (queued.find? p).or (gs.findSome? fun g => (companions settings g).find? p) := by
  induction gs generalizing queued with
  | nil => simp
  | cons g rest ih =>
    have hnone : ((g.freeCountName? c (tested queued g)).map (g.count settings)).toList.find? p =
        none := by
      refine List.find?_eq_none.mpr fun x hx => ?_
      simp only [Option.mem_toList, Option.map_eq_some_iff] at hx
      obtain ⟨name, hname, rfl⟩ := hx
      exact hcount g name (List.mem_of_find?_eq_some hname)
    have hqueue : (queue settings c queued g).find? p =
        (queued.find? p).or ((companions settings g).find? p) := by
      have hparts : companions settings g =
          [g.hasEntries, g.hasNoEntries] ++ [g.atIndex settings, g.add settings] := rfl
      simp only [queue, tested] at hnone ⊢
      rw [hparts]
      simp only [List.find?_append, hnone, Option.or_none, Option.or_assoc]
    rw [List.foldl_cons, ih, hqueue, Option.or_assoc, List.findSome?_cons]
    cases (companions settings g).find? p with
    | none => simp
    | some x => simp

/-! ## Names of companions -/

private theorem hasEntries_name_eq_iff {x y : String} :
    "has" ++ x ++ "Entries" = "has" ++ y ++ "Entries" ↔ x = y := by
  simp [String.ext_iff, String.toList_append]

private theorem hasNoEntries_name_eq_iff {x y : String} :
    "hasNo" ++ x ++ "Entries" = "has" ++ y ++ "Entries" ↔ "No" ++ x = y := by
  have hsplit : "hasNo" ++ x = "has" ++ ("No" ++ x) := by
    rw [← String.append_assoc]
    rfl
  rw [hsplit, hasEntries_name_eq_iff]

private theorem answers_count {name : String} (hname : name.toList.head? ≠ some 'g')
    (settings : Settings) (signature : List TypeExpr) (g : ListGetter) :
    ∀ other ∈ g.countNames, ¬(g.count settings other).answers name signature := by
  have hne : ∀ rest, "get" ++ rest ≠ name := append_ne_of_head rfl hname
  intro other hother
  have hother : other ≠ name := by
    rcases List.mem_pair.mp hother with rfl | rfl
    · rw [String.append_assoc]
      exact hne _
    · rw [String.append_assoc]
      exact hne _
  simp [Method.answers, ListGetter.count, hother]

/-- Whether a list has entries is asked by its own companion, and by the one that asks whether the
list of a shorter name has none. -/
theorem find?_companions_hasEntries (settings : Settings) (g : ListGetter) (property : String) :
    (companions settings g).find? (·.answers ("has" ++ property ++ "Entries") []) =
      if g.property = property then some g.hasEntries
      else if "No" ++ g.property = property then some g.hasNoEntries else none := by
  simp only [companions, List.find?_cons, Method.answers, Method.hasSignature, haveTypes,
    ListGetter.hasEntries, ListGetter.hasNoEntries, ListGetter.atIndex, ListGetter.add,
    beq_eq_decide, hasEntries_name_eq_iff, hasNoEntries_name_eq_iff]
  by_cases hown : g.property = property
  · simp [hown]
  · by_cases hother : "No" ++ g.property = property
    · simp [hown, hother]
    · simp [hown, hother]

/-- Whether a list has no entries is asked by its own companion, and by the one that asks whether
the list of a longer name has some. -/
theorem find?_companions_hasNoEntries (settings : Settings) (g : ListGetter) (property : String) :
    (companions settings g).find? (·.answers ("hasNo" ++ property ++ "Entries") []) =
      if g.property = "No" ++ property then some g.hasEntries
      else if g.property = property then some g.hasNoEntries else none := by
  have hsplit : "hasNo" ++ property ++ "Entries" = "has" ++ ("No" ++ property) ++ "Entries" :=
    hasNoEntries_name_eq_iff.mpr rfl
  rw [hsplit, find?_companions_hasEntries]
  simp only [String.ext_iff, String.toList_append, List.append_cancel_left_eq]

private theorem find?_companions_atIndex (settings : Settings) (g : ListGetter)
    (property : String) :
    (companions settings g).find? (·.answers ("get" ++ property ++ "AtIndex") [.primitive .int]) =
      if g.property = property then some (g.atIndex settings) else none := by
  have hadd : "add" ++ g.property ≠ "get" ++ property ++ "AtIndex" :=
    append_ne_of_head (show "add".toList.head? = some 'a' from rfl)
      (by simp [String.toList_append]) _
  have hname : "get" ++ g.property ++ "AtIndex" = "get" ++ property ++ "AtIndex" ↔
      g.property = property := by
    simp [String.ext_iff, String.toList_append]
  simp only [companions, List.find?_cons, Method.answers, Method.hasSignature, haveTypes,
    ListGetter.hasEntries, ListGetter.hasNoEntries, ListGetter.atIndex, ListGetter.add,
    beq_eq_decide, hname, hadd]
  by_cases hown : g.property = property
  · simp [hown, Param.annotate, Param.final]
  · simp [hown]

private theorem find?_companions_add (settings : Settings) (g : ListGetter) (property : String)
    (element : TypeExpr) :
    (companions settings g).find? (·.answers ("add" ++ property) [element]) =
      if g.property = property ∧ g.element = element then some (g.add settings) else none := by
  have hindex : "get" ++ (g.property ++ "AtIndex") ≠ "add" ++ property :=
    append_ne_of_head (show "get".toList.head? = some 'g' from rfl)
      (by simp [String.toList_append]) _
  have hname : "add" ++ g.property = "add" ++ property ↔ g.property = property := by
    simp [String.ext_iff, String.toList_append]
  simp only [companions, List.find?_cons, Method.answers, Method.hasSignature, haveTypes,
    ListGetter.hasEntries, ListGetter.hasNoEntries, ListGetter.atIndex, ListGetter.add,
    beq_eq_decide, hname, String.append_assoc, hindex]
  by_cases hown : g.property = property
  · by_cases helement : g.element = element
    · simp [hown, helement, Param.final]
    · simp [hown, helement, Param.final]
  · simp [hown]

/-! ## What the methods of a class do after the pass -/

private theorem getter_of_mem_getters (hg : g ∈ getters c) : g.getter = "get" ++ g.property := by
  obtain ⟨n, -, hn⟩ := List.mem_filterMap.mp hg
  unfold listGetter? at hn
  split at hn
  · obtain ⟨property, hproperty, rfl⟩ := Option.map_eq_some_iff.mp hn
    exact (Naming.propertyPart?_eq_some_iff.mp hproperty).2
  · cases hn

/-- A method that the class has not had is the first one of its key that is queued. -/
theorem does_made_iff {name : String} {params : List (String × TypeExpr)} {body : Block}
    (hnew : ¬c.hasMethod name (params.map Prod.snd)) :
    (made settings c).Does name params body ↔
      ∃ x, ((getters c).foldl (queue settings c) (setters settings c)).find?
        (·.answers name (params.map Prod.snd)) = some x ∧ x.Does params body := by
  have hfound : (made settings c).method? name (params.map Prod.snd) =
      (((getters c).foldl (queue settings c) (setters settings c)).find?
        (·.answers name (params.map Prod.snd))).map (·.stamp settings option) := by
    rw [BeanClass.method?, made, ClassEdit.apply_methods,
      BeanClass.find?_newMethods_of_not_hasMethod hnew]
    exact List.find?_map
  unfold BeanClass.Does
  rw [hfound]
  constructor
  · rintro ⟨y, hy, hdoes⟩
    obtain ⟨x, hx, rfl⟩ := Option.map_eq_some_iff.mp hy
    exact ⟨x, hx, hdoes⟩
  · rintro ⟨x, hx, hdoes⟩
    exact ⟨x.stamp settings option, by rw [hx, Option.map_some], hdoes⟩

private theorem find?_setters {name : String} (hname : name.toList.head? ≠ some 's')
    (settings : Settings) (c : BeanClass) (signature : List TypeExpr) :
    (setters settings c).find? (·.answers name signature) = none := by
  refine List.find?_eq_none.mpr fun x hx => ?_
  obtain ⟨f, -, rfl⟩ := List.mem_map.mp hx
  have hne : Naming.setterName f.accessor ≠ name := append_ne_of_head rfl hname _
  simp [Method.answers, setter, hne]

/-- A companion that the class has not had is that of the first getter that gives its key. -/
theorem does_made_iff_companion {name : String} {params : List (String × TypeExpr)} {body : Block}
    (hnew : ¬c.hasMethod name (params.map Prod.snd)) (hset : name.toList.head? ≠ some 's')
    (hcount : ∀ g : ListGetter, ∀ other ∈ g.countNames,
      ¬(g.count settings other).answers name (params.map Prod.snd)) :
    (made settings c).Does name params body ↔
      ∃ x, ((getters c).findSome? fun g =>
        (companions settings g).find? (·.answers name (params.map Prod.snd))) = some x ∧
          x.Does params body := by
  rw [does_made_iff hnew, find?_foldl_queue hcount, find?_setters hset, Option.none_or]

section

variable {f : ListGetter → Option Method} {rival : String → Prop}
  {params : List (String × TypeExpr)} {body : Block}

/-- If getters of one property give a key as it should be, and its rivals give it otherwise, then
the first one to give it is right if and only if the property leads. -/
theorem findSome?_does_iff_leads
    (hown : ∀ g ∈ gs, g.property = property → ∃ x, f g = some x ∧ x.Does params body)
    (hrival : ∀ g ∈ gs, g.property ≠ property → rival g.property →
      ∃ x, f g = some x ∧ ¬x.Does params body)
    (hother : ∀ g ∈ gs, g.property ≠ property → ¬rival g.property → f g = none) :
    (∃ x, gs.findSome? f = some x ∧ x.Does params body) ↔
      Leads (gs.map (·.property)) property rival := by
  induction gs with
  | nil => simp [Leads]
  | cons g rest ih =>
    obtain ⟨hg, hrest⟩ := List.forall_mem_cons.mp hown
    obtain ⟨hg', hrest'⟩ := List.forall_mem_cons.mp hrival
    obtain ⟨hg'', hrest''⟩ := List.forall_mem_cons.mp hother
    rw [List.map_cons, leads_cons, List.findSome?_cons, ← ih hrest hrest' hrest'']
    by_cases hproperty : g.property = property
    · obtain ⟨x, hx, hdoes⟩ := hg hproperty
      simp [hproperty, hx, hdoes]
    · by_cases hrivals : rival g.property
      · obtain ⟨x, hx, hdoes⟩ := hg' hproperty hrivals
        simp [hproperty, hrivals, hx, hdoes]
      · simp [hproperty, hrivals, hg'' hproperty hrivals]

/-- A key that is given, and never otherwise than it should be, is right. -/
theorem findSome?_does (hg : g ∈ gs) (hown : ∃ x, f g = some x)
    (hall : ∀ g ∈ gs, ∀ x, f g = some x → x.Does params body) :
    ∃ x, gs.findSome? f = some x ∧ x.Does params body := by
  obtain ⟨x, hx⟩ := hown
  obtain ⟨y, hy⟩ : ∃ y, gs.findSome? f = some y :=
    Option.isSome_iff_exists.mp (List.findSome?_isSome_iff.mpr ⟨g, hg, by rw [hx]; rfl⟩)
  obtain ⟨g', hg', hfound⟩ := List.exists_of_findSome?_eq_some hy
  exact ⟨y, hy, hall g' hg' y hfound⟩

end

/-- The companion that asks whether a list has entries is right if and only if no companion that
asks whether there are none comes first. -/
theorem hasEntries_made_iff (hnew : ¬c.hasMethod ("has" ++ property ++ "Entries") []) :
    (made settings c).Does ("has" ++ property ++ "Entries") []
        [.give (.not (asks "isEmpty" property []))] ↔
      Leads ((getters c).map (·.property)) property (fun other => "No" ++ other = property) := by
  have hname : ("has" ++ property ++ "Entries").toList.head? = some 'h' := by
    simp [String.toList_append]
  rw [does_made_iff_companion hnew (by rw [hname]; decide)
    (answers_count (by rw [hname]; decide) settings [])]
  simp only [List.map_nil, find?_companions_hasEntries]
  refine findSome?_does_iff_leads ?_ ?_ ?_
  · intro g hg hproperty
    refine ⟨g.hasEntries, if_pos hproperty, rfl, ?_⟩
    simp [ListGetter.hasEntries, ListGetter.list, asks, getter_of_mem_getters hg, hproperty]
  · intro g _ hproperty hrival
    refine ⟨g.hasNoEntries, by rw [if_neg hproperty, if_pos hrival], fun hdoes => ?_⟩
    simp [Method.Does, ListGetter.hasNoEntries, Stmt.give] at hdoes
  · intro g _ hproperty hrival
    rw [if_neg hproperty, if_neg hrival]

/-- The companion that asks whether a list has no entries is right if and only if no companion that
asks whether there are some comes first. -/
theorem hasNoEntries_made_iff (hnew : ¬c.hasMethod ("hasNo" ++ property ++ "Entries") []) :
    (made settings c).Does ("hasNo" ++ property ++ "Entries") []
        [.give (asks "isEmpty" property [])] ↔
      Leads ((getters c).map (·.property)) property (fun other => other = "No" ++ property) := by
  have hname : ("hasNo" ++ property ++ "Entries").toList.head? = some 'h' := by
    simp [String.toList_append]
  have hne : property ≠ "No" ++ property := by
    intro heq
    have hlength := congrArg (·.toList.length) heq
    simp only [String.toList_append, List.length_append] at hlength
    simp at hlength
  rw [does_made_iff_companion hnew (by rw [hname]; decide)
    (answers_count (by rw [hname]; decide) settings [])]
  simp only [List.map_nil, find?_companions_hasNoEntries]
  refine findSome?_does_iff_leads ?_ ?_ ?_
  · intro g hg hproperty
    refine ⟨g.hasNoEntries, by rw [if_neg (hproperty ▸ hne), if_pos hproperty], rfl, ?_⟩
    simp [ListGetter.hasNoEntries, ListGetter.list, asks, getter_of_mem_getters hg, hproperty]
  · intro g _ hproperty hrival
    refine ⟨g.hasEntries, if_pos hrival, fun hdoes => ?_⟩
    simp [Method.Does, ListGetter.hasEntries, Stmt.give, asks] at hdoes
  · intro g _ hproperty hrival
    rw [if_neg hrival, if_neg hproperty]

private theorem atIndex_made (hg : g ∈ getters c)
    (hnew : ¬c.hasMethod ("get" ++ g.property ++ "AtIndex") [.primitive .int]) :
    (made settings c).Does ("get" ++ g.property ++ "AtIndex") [("index", .primitive .int)]
      [.give (asks "get" g.property [.ident "index"])] := by
  have hname : ("get" ++ g.property ++ "AtIndex").toList.head? ≠ some 's' := by
    simp [String.toList_append]
  rw [does_made_iff_companion hnew hname (by
    simp [Method.answers, ListGetter.count, Method.hasSignature, haveTypes])]
  simp only [List.map_cons, List.map_nil, find?_companions_atIndex]
  refine findSome?_does hg ⟨g.atIndex settings, if_pos rfl⟩ fun g' hg' x hx => ?_
  obtain ⟨hproperty, hx⟩ := Option.ite_none_right_eq_some.mp hx
  obtain rfl := Option.some.inj hx
  refine ⟨rfl, ?_⟩
  simp [ListGetter.atIndex, ListGetter.list, asks, getter_of_mem_getters hg', hproperty]

private theorem add_made (hg : g ∈ getters c)
    (hnew : ¬c.hasMethod ("add" ++ g.property) [g.element]) :
    (made settings c).Does ("add" ++ g.property) [("elem", g.element)]
      [.expr (asks "add" g.property [.ident "elem"])] := by
  have hname : ("add" ++ g.property).toList.head? ≠ some 's' := by
    simp [String.toList_append]
  rw [does_made_iff_companion hnew hname (by
    simp [Method.answers, ListGetter.count, Method.hasSignature, haveTypes])]
  simp only [List.map_cons, List.map_nil, find?_companions_add]
  refine findSome?_does hg ⟨g.add settings, if_pos ⟨rfl, rfl⟩⟩ fun g' hg' x hx => ?_
  obtain ⟨⟨hproperty, helement⟩, hx⟩ := Option.ite_none_right_eq_some.mp hx
  obtain rfl := Option.some.inj hx
  refine ⟨by rw [← helement]; rfl, ?_⟩
  simp [ListGetter.add, ListGetter.list, asks, getter_of_mem_getters hg', hproperty]

/-! ## Counts -/

private theorem queue_eq (settings : Settings) (c : BeanClass) (queued : List Method)
    (g : ListGetter) :
    queue settings c queued g = tested queued g ++
      (((g.freeCountName? c (tested queued g)).map (g.count settings)).toList ++
        [g.atIndex settings, g.add settings]) :=
  List.append_assoc _ _ _

/-- A getter counts under one of its two names, unless both have been taken. -/
theorem find?_count_or_taken (settings : Settings) (c : BeanClass) (queued : List Method)
    (hg : g ∈ gs) :
    (∃ name ∈ g.countNames, ¬c.hasMethodWithoutParams name ∧
      (gs.foldl (queue settings c) queued).find? (·.answers name []) =
        some (g.count settings name)) ∨
    ∀ name ∈ g.countNames, isTaken c (gs.foldl (queue settings c) queued) name := by
  induction gs generalizing queued with
  | nil => cases hg
  | cons g' rest ih =>
    rw [List.foldl_cons]
    rcases List.mem_cons.mp hg with rfl | hrest
    · have hlater := prefix_foldl_queue settings c rest (queue settings c queued g)
      cases hfree : g.freeCountName? c (tested queued g) with
      | some name =>
        have hname : ¬isTaken c (tested queued g) name := by
          simpa [isTaken] using List.find?_some hfree
        refine .inl ⟨name, List.mem_of_find?_eq_some hfree, ?_, hlater.find?_eq_some ?_⟩
        · exact fun hold => hname (isTaken_iff.mpr (.inl hold))
        · have hnone : (tested queued g).find? (·.answers name []) = none := by
            refine List.find?_eq_none.mpr fun x hx hkey => hname ?_
            refine isTaken_iff.mpr (.inr ⟨x, hx, ?_⟩)
            simpa [Method.answers, Method.hasSignature, haveTypes, and_comm] using hkey
          have hcount : (g.count settings name).answers name [] = true := by
            simp [Method.answers, ListGetter.count, Method.hasSignature, haveTypes]
          rw [queue_eq, hfree, List.find?_append, hnone]
          simp [hcount]
      | none =>
        refine .inr fun name hname => ?_
        have htaken : isTaken c (tested queued g) name := by
          simpa [isTaken, or_iff_not_imp_left] using List.find?_eq_none.mp hfree name hname
        exact isTaken_mono htaken fun x hx => hlater.subset (mem_queue_of_tested hx)
    · exact ih _ hrest

/-- If a count name is taken, the class has had it, or a list is counted under it. -/
theorem does_made_of_isTaken {name : String} (hget : name.toList.head? = some 'g')
    (h : isTaken c ((getters c).foldl (queue settings c) (setters settings c)) name) :
    c.hasMethodWithoutParams name ∨ ∃ g ∈ getters c,
      (made settings c).Does name [] [.give (asks "size" g.property [])] := by
  by_cases hold : c.hasMethodWithoutParams name
  · exact .inl hold
  obtain ⟨x, hx, hparams, rfl⟩ := (isTaken_iff.mp h).resolve_left hold
  have hkey : x.answers x.name [] := by
    simp [Method.answers, Method.hasSignature, haveTypes, hparams]
  obtain ⟨y, hy⟩ : ∃ y, ((getters c).foldl (queue settings c) (setters settings c)).find?
      (·.answers x.name []) = some y :=
    Option.isSome_iff_exists.mp (List.find?_isSome.mpr ⟨x, hx, hkey⟩)
  refine .inr ?_
  have hyname : y.name = x.name ∧ y.params = [] := by
    simpa [Method.answers, Method.hasSignature, haveTypes] using List.find?_some hy
  rcases mem_foldl_queue (List.mem_of_find?_eq_some hy) with hsetter | ⟨g, hg, hfixed | hcount⟩
  · obtain ⟨f, -, rfl⟩ := List.mem_map.mp hsetter
    exact absurd hyname.2 (List.cons_ne_nil _ _)
  · have hhas : ∀ rest, "has" ++ rest ≠ x.name := append_ne_of_head rfl (by rw [hget]; decide)
    simp only [companions, List.mem_cons, List.not_mem_nil, or_false] at hfixed
    rcases hfixed with rfl | rfl | rfl | rfl
    · exact absurd hyname.1 (by rw [ListGetter.hasEntries, String.append_assoc]; exact hhas _)
    · have hsplit : g.hasNoEntries.name = "has" ++ ("No" ++ g.property ++ "Entries") := by
        simp [ListGetter.hasNoEntries, String.ext_iff, String.toList_append]
      exact absurd hyname.1 (by rw [hsplit]; exact hhas _)
    · exact absurd hyname.2 (List.cons_ne_nil _ _)
    · exact absurd hyname.2 (List.cons_ne_nil _ _)
  · obtain ⟨name, -, -, rfl⟩ := hcount
    have hnew : ¬c.hasMethod x.name (([] : List (String × TypeExpr)).map Prod.snd) := hold
    refine ⟨g, hg, (does_made_iff hnew).mpr ⟨_, hy, rfl, ?_⟩⟩
    simp [ListGetter.count, ListGetter.list, asks, getter_of_mem_getters hg]

/-- A list is counted under one of its two names, unless both have been in use. -/
theorem count_made (hg : g ∈ getters c) :
    (∃ name ∈ g.countNames,
      (made settings c).Does name [] [.give (asks "size" g.property [])]) ∨
    ∀ name ∈ g.countNames, c.hasMethodWithoutParams name ∨ ∃ other ∈ getters c,
      other.property ≠ g.property ∧
        (made settings c).Does name [] [.give (asks "size" other.property [])] := by
  refine or_iff_not_imp_left.mpr fun hown name hname => ?_
  rcases find?_count_or_taken settings c (setters settings c) hg with
    ⟨free, hfree, hold, hfound⟩ | htaken
  · have hnew : ¬c.hasMethod free (([] : List (String × TypeExpr)).map Prod.snd) := hold
    refine absurd ⟨free, hfree, (does_made_iff hnew).mpr ⟨_, hfound, rfl, ?_⟩⟩ hown
    simp [ListGetter.count, ListGetter.list, asks, getter_of_mem_getters hg]
  · have hget : name.toList.head? = some 'g' := by
      rcases List.mem_pair.mp hname with rfl | rfl
      · simp [String.toList_append]
      · simp [String.toList_append]
    refine (does_made_of_isTaken hget (htaken name hname)).imp_right ?_
    rintro ⟨other, hother, hdoes⟩
    exact ⟨other, hother, fun heq => hown ⟨name, hname, heq ▸ hdoes⟩, hdoes⟩

/-! ## After the pass -/

/-- After the pass each getter of a list has accessors over this very list, except for the methods
that the class has had. Those for an entry and for adding one are always right, and the list is
counted under one of two names unless both are in use. The one that asks whether there are entries
is right if and only if no getter of a property without the leading `No` comes before, and the one
that asks whether there are none if and only if no getter of a property with one more `No` does. -/
theorem accessors_mean_their_list (hm : m.validate = .ok ())
    (h : (run context m).outcome = .ok report) (hc : c ∈ m.classes) (hplain : ¬c.isEnum)
    {n : Method} {property : String} (hn : n ∈ c.methods) (hname : n.name = "get" ++ property)
    (hproperty : property ≠ "") (hparams : n.params = [])
    (hlist : n.returnType.isErasure "List") :
    ∃ d, (run context m).model.class? c.name = some d ∧
      (¬c.hasMethod ("has" ++ property ++ "Entries") [] →
        (d.Does ("has" ++ property ++ "Entries") []
            [.give (.not (asks "isEmpty" property []))] ↔
          Leads ((getters c).map (·.property)) property fun other => "No" ++ other = property)) ∧
      (¬c.hasMethod ("hasNo" ++ property ++ "Entries") [] →
        (d.Does ("hasNo" ++ property ++ "Entries") [] [.give (asks "isEmpty" property [])] ↔
          Leads ((getters c).map (·.property)) property fun other => other = "No" ++ property)) ∧
      (¬c.hasMethod ("get" ++ property ++ "AtIndex") [.primitive .int] →
        d.Does ("get" ++ property ++ "AtIndex") [("index", .primitive .int)]
          [.give (asks "get" property [.ident "index"])]) ∧
      (¬c.hasMethod ("add" ++ property) [n.returnType.elementOrObject] →
        d.Does ("add" ++ property) [("elem", n.returnType.elementOrObject)]
          [.expr (asks "add" property [.ident "elem"])]) ∧
      ((∃ name ∈ ["get" ++ property ++ "Count", "get" ++ property ++ "ListCount"],
          d.Does name [] [.give (asks "size" property [])]) ∨
        ∀ name ∈ ["get" ++ property ++ "Count", "get" ++ property ++ "ListCount"],
          c.hasMethodWithoutParams name ∨ ∃ other ∈ getters c, other.property ≠ property ∧
            d.Does name [] [.give (asks "size" other.property [])]) := by
  have hfound : Naming.propertyPart? n.name "get" = some property :=
    Naming.propertyPart?_eq_some_iff.mpr ⟨hproperty, hname⟩
  have hgetter : listGetter? n = some ⟨n.name, property, n.returnType.elementOrObject⟩ := by
    simp [listGetter?, hparams, hlist, hfound]
  have hg : ⟨n.name, property, n.returnType.elementOrObject⟩ ∈ getters c :=
    List.mem_filterMap.mpr ⟨n, hn, hgetter⟩
  have hgrows : m.Grows context.settings [option] (run context m).model :=
    Pass.listAccessors.run_grows context m
  have hmem : made context.settings c ∈ (run context m).model.classes := by
    rw [run_model h]
    exact List.mem_map.mpr ⟨c, hc, if_neg hplain⟩
  have hclass : (run context m).model.class? c.name = some (made context.settings c) :=
    (hgrows.wellFormed (CodeModel.wellFormed_of_validate hm)).class?_name hmem
  exact ⟨made context.settings c, hclass, hasEntries_made_iff, hasNoEntries_made_iff,
    atIndex_made hg, add_made hg, count_made hg⟩

/-- A class with a list of items, and one of what are no items. -/
def stockOrder : BeanClass :=
  { name := "shop.Order"
    methods := [
      { name := "getItems", returnType := .listOf (.ofName "java.lang.String") },
      { name := "getNoItems", returnType := .listOf (.ofName "java.lang.String") }] }

/-- The list of items is the first one to give its two names, so both of its companions are about
it. The list of what are no items is the second one to give `hasNoItemsEntries`, and gets none of
that name. -/
theorem stockOrder_asks_first :
    let context : PassContext := { settings := {}, active := [option] }
    let m : CodeModel := { classes := [stockOrder] }
    m.validate = .ok () ∧ (∃ report, (run context m).outcome = .ok report) ∧
      ∃ d, (run context m).model.class? "shop.Order" = some d ∧
        d.Does "hasItemsEntries" [] [.give (.not (asks "isEmpty" "Items" []))] ∧
        d.Does "hasNoItemsEntries" [] [.give (asks "isEmpty" "Items" [])] ∧
        ¬d.Does "hasNoItemsEntries" [] [.give (.not (asks "isEmpty" "NoItems" []))] ∧
        d.Does "hasNoNoItemsEntries" [] [.give (asks "isEmpty" "NoItems" [])] := by
  intro context m
  have hvalid : m.validate = .ok () := rfl
  have hok : ∃ report, (run context m).outcome = .ok report := ⟨_, rfl⟩
  obtain ⟨report, hreport⟩ := hok
  have hgetters : (getters stockOrder).map (·.property) = ["Items", "NoItems"] := by decide +kernel
  obtain ⟨d, hd, hsome, hnone, -⟩ := accessors_mean_their_list (c := stockOrder) hvalid hreport
    List.mem_cons_self (by decide) List.mem_cons_self
    (show "getItems" = "get" ++ "Items" from rfl) (by decide) rfl (by decide +kernel)
  obtain ⟨d', hd', hsome', hnone', -⟩ := accessors_mean_their_list (c := stockOrder) hvalid hreport
    List.mem_cons_self (by decide) (List.mem_cons_of_mem _ List.mem_cons_self)
    (show "getNoItems" = "get" ++ "NoItems" from rfl) (by decide) rfl (by decide +kernel)
  obtain rfl : d = d' := Option.some.inj (hd.symm.trans hd')
  rw [hgetters] at hsome hnone hsome' hnone'
  refine ⟨hvalid, ⟨report, hreport⟩, d, hd, (hsome (by decide +kernel)).mpr ?_,
    (hnone (by decide +kernel)).mpr ?_, fun hdoes => ?_, (hnone' (by decide +kernel)).mpr ?_⟩
  · exact leads_cons.mpr (.inl rfl)
  · exact leads_cons.mpr (.inl rfl)
  · rcases leads_cons.mp ((hsome' (by decide +kernel)).mp hdoes) with heq | ⟨hrival, -⟩
    · exact absurd heq (by decide)
    · exact hrival rfl
  · exact leads_cons.mpr (.inr ⟨by decide, leads_cons.mpr (.inl rfl)⟩)

/-- Whether there are some of what are no items is not asked by the method that is called so, which
asks whether there are no items. -/
theorem stockOrder_asks_items_only :
    let context : PassContext := { settings := {}, active := [option] }
    let m : CodeModel := { classes := [stockOrder] }
    m.validate = .ok () ∧ (∃ report, (run context m).outcome = .ok report) ∧
      ¬stockOrder.hasMethod "hasNoItemsEntries" [] ∧
      ∃ d, (run context m).model.class? "shop.Order" = some d ∧
        ¬d.Does "hasNoItemsEntries" [] [.give (.not (asks "isEmpty" "NoItems" []))] := by
  intro context m
  have hnew : ¬stockOrder.hasMethod ("has" ++ "NoItems" ++ "Entries") [] := by decide +kernel
  have hgetters : (getters stockOrder).map (·.property) = ["Items", "NoItems"] := by decide +kernel
  refine ⟨rfl, ⟨_, rfl⟩, hnew, made context.settings stockOrder, rfl, fun hdoes => ?_⟩
  have hleads := (hasEntries_made_iff hnew).mp hdoes
  rw [hgetters, leads_cons] at hleads
  rcases hleads with heq | ⟨hrival, -⟩
  · exact absurd heq (by decide)
  · exact hrival rfl

end ListAccessors

end BeanSynthesis
