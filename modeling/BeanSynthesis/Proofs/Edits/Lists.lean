import BeanSynthesis.Proofs.Edits.Repetition

/-!
# List accessors a second time

For the number of entries the pass takes the first of two names that is free. In a class that the
pass has treated the first name is taken, if only by the pass itself, so a second run takes the
other one. After that a further run changes nothing.
-/

namespace BeanSynthesis.ListAccessors

variable {settings : Settings} {context : PassContext} {m : CodeModel} {c : BeanClass}
  {g : ListGetter} {gs : List ListGetter} {queued : List Method} {x : Method} {report : PassReport}

/-! ## What is queued -/

/-- The companions of a list getter that have one name only. -/
def companions (settings : Settings) (g : ListGetter) : List Method :=
  [g.hasEntries, g.hasNoEntries, g.atIndex settings, g.add settings]

/-- The name under which the number of entries is asked for. -/
def countName (g : ListGetter) : String := "get" ++ g.property ++ "Count"

/-- The other name for it, for a class in which the first one is taken. -/
def listCountName (g : ListGetter) : String := "get" ++ g.property ++ "ListCount"

/-- Whether a method without parameters is called so, in the class or among those to be added. -/
def isTaken (c : BeanClass) (queued : List Method) (name : String) : Bool :=
  c.hasMethodWithoutParams name || queued.any fun m => m.params.isEmpty && m.name == name

/-- A name is taken by a method of the class or by one that is queued. -/
theorem isTaken_iff {name : String} : isTaken c queued name ↔
    c.hasMethodWithoutParams name ∨ ∃ x ∈ queued, x.params = [] ∧ x.name = name := by
  simp [isTaken]

/-- With more methods queued a taken name stays taken. -/
theorem isTaken_mono {queued' : List Method} {name : String} (h : isTaken c queued name)
    (hsub : ∀ x ∈ queued, x ∈ queued') : isTaken c queued' name := by
  rw [isTaken_iff] at h ⊢
  rcases h with hold | ⟨x, hx, hmatch⟩
  · exact .inl hold
  · exact .inr ⟨x, hsub x hx, hmatch⟩

/-- The second name is taken only if the first one is not free. -/
theorem freeCountName?_eq (g : ListGetter) (c : BeanClass) (queued : List Method) :
    g.freeCountName? c queued =
      if isTaken c queued (countName g) then
        if isTaken c queued (listCountName g) then none else some (listCountName g)
      else some (countName g) := by
  have hfind : g.freeCountName? c queued =
      [countName g, listCountName g].find? fun name => !isTaken c queued name := by
    simp only [isTaken, Bool.not_or]
    rfl
  rw [hfind]
  cases hfirst : isTaken c queued (countName g) with
  | false => simp [hfirst]
  | true =>
    cases hsecond : isTaken c queued (listCountName g) with
    | false => simp [hfirst, hsecond]
    | true => simp [hfirst, hsecond]

/-- The methods that are queued before the one for the number of entries. -/
def tested (queued : List Method) (g : ListGetter) : List Method :=
  queued ++ [g.hasEntries, g.hasNoEntries]

private theorem mem_queue : x ∈ queue settings c queued g ↔ x ∈ queued ∨ x ∈ companions settings g ∨
    ∃ name, g.freeCountName? c (tested queued g) = some name ∧ x = g.count settings name := by
  simp only [queue, tested, companions, List.mem_append, List.mem_cons, List.not_mem_nil, or_false,
    Option.mem_toList, Option.map_eq_some_iff, eq_comm (a := x) (b := g.count _ _)]
  generalize (∃ name, _ ∧ _) = counted
  simp only [or_assoc, or_comm (b := counted), or_left_comm (b := counted)]

/-- What is queued before the count is queued. -/
theorem mem_queue_of_tested (h : x ∈ tested queued g) : x ∈ queue settings c queued g := by
  rcases List.mem_append.mp h with hold | hfixed
  · exact mem_queue.mpr (.inl hold)
  · exact mem_queue.mpr (.inr (.inl (List.mem_append_left _ hfixed)))

/-- After a getter its first count name is taken, and so is the other one if the first one has been
taken in the class. -/
theorem isTaken_queue (settings : Settings) (c : BeanClass) (queued : List Method)
    (g : ListGetter) :
    isTaken c (queue settings c queued g) (countName g) ∧
      (c.hasMethodWithoutParams (countName g) →
        isTaken c (queue settings c queued g) (listCountName g)) := by
  have hkept : ∀ {name}, isTaken c (tested queued g) name →
      isTaken c (queue settings c queued g) name :=
    fun h => isTaken_mono h fun _ => mem_queue_of_tested
  have hcounted : ∀ {name}, g.freeCountName? c (tested queued g) = some name →
      isTaken c (queue settings c queued g) name := fun {name} h =>
    isTaken_iff.mpr
      (.inr ⟨g.count settings name, mem_queue.mpr (.inr (.inr ⟨name, h, rfl⟩)), rfl, rfl⟩)
  have hfree := freeCountName?_eq g c (tested queued g)
  by_cases hfirst : isTaken c (tested queued g) (countName g)
  · rw [if_pos hfirst] at hfree
    refine ⟨hkept hfirst, fun _ => ?_⟩
    by_cases hsecond : isTaken c (tested queued g) (listCountName g)
    · exact hkept hsecond
    · rw [if_neg hsecond] at hfree
      exact hcounted hfree
  · rw [if_neg hfirst] at hfree
    exact ⟨hcounted hfree, fun hold => absurd (isTaken_iff.mpr (.inl hold)) hfirst⟩

private theorem mem_foldl_queue_of_mem (gs : List ListGetter) (h : x ∈ queued) :
    x ∈ gs.foldl (queue settings c) queued := by
  induction gs generalizing queued with
  | nil => exact h
  | cons g rest ih => exact ih (mem_queue.mpr (.inl h))

/-- What is queued has been queued before, or is a companion of a getter under its only name or
under one that is free. -/
theorem mem_foldl_queue (h : x ∈ gs.foldl (queue settings c) queued) : x ∈ queued ∨
    ∃ g ∈ gs, x ∈ companions settings g ∨ ∃ name ∈ [countName g, listCountName g],
      ¬c.hasMethodWithoutParams name ∧ x = g.count settings name := by
  induction gs generalizing queued with
  | nil => exact .inl h
  | cons g rest ih =>
    rcases ih h with hqueued | ⟨g', hg', hx⟩
    · rcases mem_queue.mp hqueued with hold | hfixed | ⟨name, hname, rfl⟩
      · exact .inl hold
      · exact .inr ⟨g, List.mem_cons_self, .inl hfixed⟩
      · have hfree : ¬isTaken c (tested queued g) name := by
          simpa [isTaken] using List.find?_some hname
        refine .inr ⟨g, List.mem_cons_self, .inr ⟨name, List.mem_of_find?_eq_some hname, ?_, rfl⟩⟩
        exact fun hold => hfree (isTaken_iff.mpr (.inl hold))
    · exact .inr ⟨g', List.mem_cons_of_mem g hg', hx⟩

/-- In the end all companions of a getter are queued, and its count names are taken as after it. -/
theorem foldl_queue_of_mem (settings : Settings) (c : BeanClass) (hg : g ∈ gs) :
    (∀ x ∈ companions settings g, x ∈ gs.foldl (queue settings c) queued) ∧
      isTaken c (gs.foldl (queue settings c) queued) (countName g) ∧
        (c.hasMethodWithoutParams (countName g) →
          isTaken c (gs.foldl (queue settings c) queued) (listCountName g)) := by
  induction gs generalizing queued with
  | nil => cases hg
  | cons g' rest ih =>
    rw [List.foldl_cons]
    rcases List.mem_cons.mp hg with rfl | hrest
    · obtain ⟨hfirst, hsecond⟩ := isTaken_queue settings c queued g
      have hlater : ∀ x ∈ queue settings c queued g, x ∈ rest.foldl (queue settings c) _ :=
        fun x hx => mem_foldl_queue_of_mem rest hx
      refine ⟨fun x hx => hlater x (mem_queue.mpr (.inr (.inl hx))), ?_, fun hold => ?_⟩
      · exact isTaken_mono hfirst hlater
      · exact isTaken_mono (hsecond hold) hlater
    · exact ih hrest

/-! ## A class after the pass -/

/-- What the pass makes of a class. -/
def made (settings : Settings) (c : BeanClass) : BeanClass := (edit settings c).apply c

private theorem listGetter?_companion (h : x ∈ companions settings g) : listGetter? x = none := by
  simp only [companions, List.mem_cons, List.not_mem_nil, or_false] at h
  rcases h with rfl | rfl | rfl | rfl
  · rfl
  · rfl
  · rfl
  · rfl

/-- Nothing that the pass makes is a getter of a list. -/
theorem listGetter?_of_mem_edit (h : x ∈ (edit settings c).methods) : listGetter? x = none := by
  obtain ⟨y, hy, rfl⟩ := List.mem_map.mp h
  change listGetter? y = none
  rcases mem_foldl_queue hy with hsetter | ⟨g, -, hfixed | ⟨name, -, -, rfl⟩⟩
  · obtain ⟨f, -, rfl⟩ := List.mem_map.mp hsetter
    rfl
  · exact listGetter?_companion hfixed
  · rfl

private theorem getters_made (settings : Settings) (c : BeanClass) :
    getters (made settings c) = getters c := by
  have hnone : (c.newMethods (edit settings c).methods).filterMap listGetter? = [] :=
    List.filterMap_eq_nil_iff.mpr fun x hx => listGetter?_of_mem_edit (mem_of_mem_newcomers hx)
  rw [getters, made, ClassEdit.apply_methods, List.filterMap_append, hnone, List.append_nil,
    getters]

/-- What is queued for a class the class has after the pass. -/
theorem hasMethod_made (h : x ∈ (getters c).foldl (queue settings c) (setters settings c)) :
    (made settings c).hasMethod x.name x.signature := by
  have hstamped : x.stamp settings option ∈ (edit settings c).methods := List.mem_map_of_mem h
  have hhas := ClassEdit.hasMethod_apply (c := c) hstamped
  exact hhas

private theorem hasMethod_made_of_isTaken {name : String}
    (h : isTaken c ((getters c).foldl (queue settings c) (setters settings c)) name) :
    (made settings c).hasMethodWithoutParams name := by
  rcases isTaken_iff.mp h with hold | ⟨x, hx, hparams, rfl⟩
  · exact ClassEdit.hasMethod_apply_of_hasMethod hold
  · have hnone : x.signature = [] := by rw [Method.signature, hparams, List.map_nil]
    rw [BeanClass.hasMethodWithoutParams, ← hnone]
    exact hasMethod_made hx

private theorem hasCount_made (hg : g ∈ getters c) :
    (made settings c).hasMethodWithoutParams (countName g) :=
  hasMethod_made_of_isTaken (foldl_queue_of_mem settings c hg).2.1

private theorem hasListCount_made (hg : g ∈ getters c)
    (h : c.hasMethodWithoutParams (countName g)) :
    (made settings c).hasMethodWithoutParams (listCountName g) :=
  hasMethod_made_of_isTaken ((foldl_queue_of_mem settings c hg).2.2 h)

/-! ## A class after the pass has run twice -/

section

variable {options : List String} (hgrows : c.Grows settings options (made settings c))

include hgrows

/-- Of what the pass offers again, only the second methods for the number can be missing. -/
theorem offered_again (hx : x ∈ (edit settings (made settings c)).methods) :
    (made settings c).hasMethod x.name x.signature ∨ ∃ g ∈ getters (made settings c),
      ¬(made settings c).hasMethodWithoutParams (listCountName g) ∧
        x = (g.count settings (listCountName g)).stamp settings option := by
  have hsetters : setters settings (made settings c) = setters settings c := by
    rw [setters, hgrows.instances_eq, setters]
  obtain ⟨y, hy, rfl⟩ := List.mem_map.mp hx
  rcases mem_foldl_queue hy with hsetter | ⟨g, hg, hy⟩
  · rw [hsetters] at hsetter
    have hhas : (made settings c).hasMethod y.name y.signature :=
      hasMethod_made (mem_foldl_queue_of_mem (getters c) hsetter)
    exact .inl hhas
  · rw [getters_made] at hg ⊢
    rcases hy with hfixed | ⟨name, hname, hfree, rfl⟩
    · have hhas : (made settings c).hasMethod y.name y.signature :=
        hasMethod_made ((foldl_queue_of_mem settings c hg).1 y hfixed)
      exact .inl hhas
    · rcases List.mem_pair.mp hname with rfl | rfl
      · exact absurd (hasCount_made hg) hfree
      · exact .inr ⟨g, hg, hfree, rfl⟩

/-- Only a second method for the number of entries of a list can be added again. -/
theorem newMethods_again
    (hx : x ∈ (made settings c).newMethods (edit settings (made settings c)).methods) :
    ∃ g ∈ getters (made settings c),
      x = (g.count settings (listCountName g)).stamp settings option := by
  rcases offered_again hgrows (mem_of_mem_newcomers hx) with hold | ⟨g, hg, -, hcount⟩
  · have hseen : x.key ∉ (made settings c).methods.map Method.key := not_mem_of_mem_newcomers hx
    exact absurd (BeanClass.hasMethod_iff.mp hold) hseen
  · exact ⟨g, hg, hcount⟩

/-- A class stays the same if and only if it has both methods for the number of entries of each
list. -/
theorem made_made_eq_iff : made settings (made settings c) = made settings c ↔
    ∀ g ∈ getters (made settings c),
      (made settings c).hasMethodWithoutParams (listCountName g) := by
  constructor
  · intro h g hg
    rw [← h]
    rw [getters_made] at hg
    refine hasListCount_made ?_ (hasCount_made hg)
    rwa [getters_made]
  · intro h
    refine ClassEdit.apply_eq_self_iff.mpr ⟨List.forall_mem_nil _, fun x hx => ?_, rfl, rfl, rfl⟩
    rcases offered_again hgrows hx with hold | ⟨g, hg, hfree, -⟩
    · exact hold
    · exact absurd (h g hg) hfree

end

/-- After two runs a class has both methods for the number of entries of each list. -/
theorem made_three_times {options : List String}
    (hgrows : (made settings c).Grows settings options (made settings (made settings c))) :
    made settings (made settings (made settings c)) = made settings (made settings c) := by
  rw [made_made_eq_iff hgrows]
  intro g hg
  rw [getters_made, getters_made] at hg
  refine hasListCount_made ?_ (hasCount_made hg)
  rwa [getters_made]

/-! ## Runs -/

/-- What the pass makes of a class, which it leaves alone if it is an enumeration. -/
def madeOf (settings : Settings) (c : BeanClass) : BeanClass :=
  if c.isEnum then c else made settings c

/-- When it succeeds, the pass leaves the edited classes. -/
theorem run_model (h : (run context m).outcome = .ok report) :
    (run context m).model = { m with classes := m.classes.map (madeOf context.settings) } := by
  have hperformed : Pass.listAccessors.Performed context m (Pass.listAccessors.run context m)
      report :=
    Pass.run_performed h
  have happly : ∀ c, (Pass.listAccessors.editOf context m c).apply c = madeOf context.settings c :=
    Pass.editOf_apply rfl
  have hmodel : (run context m).model = Pass.listAccessors.edited context m := hperformed.model
  rw [hmodel, Pass.edited_of_classes (fun _ => rfl) fun _ => rfl]
  simp only [happly]

private theorem run_model_eq_iff (h : (run context m).outcome = .ok report) :
    (run context m).model = m ↔ ∀ c ∈ m.classes, ¬c.isEnum → made context.settings c = c := by
  have henums : ∀ c, c.isEnum → madeOf context.settings c = c := fun _ henum => if_pos henum
  rw [run_model h, CodeModel.map_classes_eq_self_iff henums]
  refine forall₂_congr fun c _ => forall_congr' fun hplain => ?_
  rw [madeOf, if_neg hplain]

/-- A class of a model that the pass has made, unless it is an enumeration, is one that the pass has
made of a class. -/
theorem exists_made (h : (run context m).outcome = .ok report)
    (hc : c ∈ (run context m).model.classes) (hplain : ¬c.isEnum) :
    ∃ b ∈ m.classes, ¬b.isEnum ∧ c = made context.settings b ∧
      b.Grows context.settings [option] (made context.settings b) := by
  rw [run_model h] at hc
  obtain ⟨b, hb, rfl⟩ := List.mem_map.mp hc
  have happly : (Pass.listAccessors.editOf context m b).apply b = madeOf context.settings b :=
    Pass.editOf_apply rfl b
  have hgrows : b.Grows context.settings [option] (madeOf context.settings b) := by
    rw [← happly]
    have hrun : (Pass.listAccessors.run context m).outcome = .ok report := h
    exact Pass.grows_editOf hrun hb
  have hb' : ¬b.isEnum := by
    rwa [hgrows.isEnum_eq] at hplain
  rw [madeOf, if_neg hb'] at hgrows
  exact ⟨b, hb, hb', if_neg hb', hgrows⟩

/-- The pass succeeds on a grown model if it succeeds on the model. -/
theorem run_ok_of_grows {options : List String} {n : CodeModel}
    (hgrows : m.Grows context.settings options n) (h : (run context m).outcome = .ok report) :
    ∃ again, (run context n).outcome = .ok again := by
  have hrun : (Pass.listAccessors.run context m).outcome = .ok report := h
  exact Pass.run_ok_of_grows hgrows hrun

/-- On a model that the pass has made it succeeds again. What it then adds are second methods for
the number of entries of lists, so the model stays the same if and only if both methods are there
for every list. After that the pass changes nothing. -/
theorem second_run_adds_counts (h : (run context m).outcome = .ok report) :
    let first := (run context m).model
    let second := run context first
    (∃ again, second.outcome = .ok again) ∧
      List.Forall₂ (fun c d => ∃ added, d.methods = c.methods ++ added ∧
        ∀ x ∈ added, ∃ g ∈ getters c,
          x = (g.count context.settings (listCountName g)).stamp context.settings option)
        first.classes second.model.classes ∧
      (second.model = first ↔ ∀ c ∈ first.classes, ¬c.isEnum → ∀ g ∈ getters c,
        c.hasMethodWithoutParams (listCountName g)) ∧
      (run context second.model).model = second.model := by
  intro first second
  have hfirst : m.Grows context.settings [option] first := Pass.listAccessors.run_grows context m
  obtain ⟨again, hagain⟩ : ∃ again, second.outcome = .ok again := run_ok_of_grows hfirst h
  have hsecond : first.Grows context.settings [option] second.model :=
    Pass.listAccessors.run_grows context first
  obtain ⟨third, hthird⟩ := run_ok_of_grows hsecond hagain
  refine ⟨⟨again, hagain⟩, ?_, ?_, ?_⟩
  · rw [show second.model.classes = first.classes.map (madeOf context.settings) from
      congrArg CodeModel.classes (run_model hagain), List.forall₂_map_right_iff, List.forall₂_same]
    intro c hc
    by_cases henum : c.isEnum
    · exact ⟨[], by rw [madeOf, if_pos henum, List.append_nil], List.forall_mem_nil _⟩
    · obtain ⟨b, -, -, rfl, hgrows⟩ := exists_made h hc henum
      refine ⟨_, ?_, fun x => newMethods_again hgrows⟩
      rw [madeOf, if_neg henum]
      rfl
  · rw [run_model_eq_iff hagain]
    constructor
    · intro hsame c hc hplain
      obtain ⟨b, -, -, rfl, hgrows⟩ := exists_made h hc hplain
      exact (made_made_eq_iff hgrows).mp (hsame _ hc hplain)
    · intro hall c hc hplain
      obtain ⟨b, -, -, rfl, hgrows⟩ := exists_made h hc hplain
      exact (made_made_eq_iff hgrows).mpr (hall _ hc hplain)
  · rw [run_model_eq_iff hthird]
    intro d hd hplain
    obtain ⟨c, hc, hplain', rfl, hgrows⟩ := exists_made hagain hd hplain
    obtain ⟨b, -, -, rfl, -⟩ := exists_made h hc hplain'
    exact made_three_times hgrows

/-- A class with a list of items. -/
def itemsOrder : BeanClass :=
  { name := "shop.Order"
    methods := [{ name := "getItems", returnType := .listOf (.ofName "java.lang.String") }] }

/-- The class gets `getItemsCount` in the first run and `getItemsListCount` in the second one. -/
theorem itemsOrder_counted_twice :
    let context : PassContext := { settings := {}, active := [option] }
    let m : CodeModel := { classes := [itemsOrder] }
    let first := (run context m).model
    let second := (run context first).model
    (∃ report, (run context m).outcome = .ok report) ∧ second ≠ first ∧
      second.classes.map (·.methods.map (·.name)) =
        first.classes.map (fun c => c.methods.map (·.name) ++ ["getItemsListCount"]) ∧
      (run context second).model = second := by
  intro context m first second
  have hok : ∃ report, (run context m).outcome = .ok report := ⟨_, rfl⟩
  obtain ⟨report, hreport⟩ := hok
  obtain ⟨-, -, hiff, hthird⟩ := second_run_adds_counts hreport
  refine ⟨⟨report, hreport⟩, ?_, by decide +kernel, hthird⟩
  intro hsame
  have hcounted := hiff.mp hsame
  have hmissing : ¬∀ c ∈ first.classes, ¬c.isEnum → ∀ g ∈ getters c,
      c.hasMethodWithoutParams (listCountName g) := by decide +kernel
  exact hmissing hcounted

end BeanSynthesis.ListAccessors
