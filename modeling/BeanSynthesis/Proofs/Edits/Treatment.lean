import BeanSynthesis.Proofs.Edits.ClassEdit
import BeanSynthesis.Proofs.Edits.Fields

/-!
# Treatments as edits

The treatment of a class by a pass, if it succeeds, is an edit that can be read off the model before
any pass: what the pass offers hangs on the instance fields, the lineage and the methods of the
class. What a pass reports as added is what the edit adds.
-/

namespace BeanSynthesis

/-- The value of a step, or another one if it fails. -/
def Step.getD {α : Type} (s : Step α) (a : α) : α :=
  match s.outcome with
  | .ok b => b
  | .error _ => a

/-- A step that succeeds has its result. -/
theorem Step.getD_of_ok {α : Type} {s : Step α} {a b : α} (h : s.outcome = .ok b) :
    s.getD a = b := by
  simp only [getD, h]

/-- The instance fields of a class, none if one of them belongs to no property. -/
def BeanClass.instances (c : BeanClass) : List InstanceField := c.instanceFields.getD []

variable {settings : Settings} {m : CodeModel} {c added after : BeanClass}
  {tally tally' total : Tally}

/-! ## Sweeps -/

/-- A treatment that makes a certain class of each class, and counts a certain number of members. -/
def Makes (f : BeanClass → Step Changed) (g : BeanClass → BeanClass) (count : BeanClass → Nat) :
    Prop :=
  ∀ c after tally, (f c).outcome = .ok (after, tally) → after = g c ∧ tally.membersAdded = count c

namespace Makes

variable {f : BeanClass → Step Changed} {g : BeanClass → BeanClass} {count : BeanClass → Nat}

/-- A sweep that succeeds has made of each class what its treatment makes, and has counted what its
treatment counts. -/
theorem sweep (h : Makes f g count) {classes : List BeanClass}
    (hok : (sweep f classes).outcome = .ok tally) :
    (BeanSynthesis.sweep f classes).classes = classes.map g ∧
      tally.membersAdded = (classes.map count).sum := by
  induction classes generalizing tally with
  | nil =>
    obtain rfl := Except.ok.inj hok
    exact ⟨rfl, rfl⟩
  | cons c rest ih =>
    cases hc : (f c).outcome with
    | error e =>
      rw [sweep_cons_of_error hc] at hok
      cases hok
    | ok changed =>
      obtain ⟨hafter, hcount⟩ := h c changed.1 changed.2 hc
      rw [sweep_cons_of_ok hc] at hok ⊢
      cases hrest : (BeanSynthesis.sweep f rest).outcome with
      | error e => simp [hrest, Except.map] at hok
      | ok others =>
        obtain ⟨hclasses, hsum⟩ := ih hrest
        simp only [hrest, Except.map, Except.ok.injEq] at hok
        subst hok
        refine ⟨by rw [hclasses, hafter, List.map_cons], ?_⟩
        rw [List.map_cons, List.sum_cons, ← hcount, ← hsum]
        rfl

/-- Enumerations are left as they are. -/
theorem exceptEnums (h : Makes f g count) :
    Makes (exceptEnums f) (fun c => if c.isEnum then c else g c)
      (fun c => if c.isEnum then 0 else count c) := by
  intro c after tally hok
  dsimp only
  unfold BeanSynthesis.exceptEnums at hok
  split at hok
  case isTrue henum =>
    obtain ⟨rfl, rfl⟩ := Prod.mk.inj (Except.ok.inj hok)
    rw [if_pos henum, if_pos henum]
    exact ⟨rfl, rfl⟩
  case isFalse hplain =>
    rw [if_neg hplain, if_neg hplain]
    exact h c after tally hok

end Makes

/-! ## Adding members under a note -/

private theorem Changed.noted_eq (changed : Changed) (note : String) :
    (changed.noted note).1 = { changed.1 with
      javadoc := if 0 < changed.2.membersAdded then addOnce note changed.1.javadoc
        else changed.1.javadoc } := by
  unfold Changed.noted
  split
  · simp only [BeanClass.addNote_eq]
  · rfl

/-- A touched class is not counted as a member. -/
@[simp] theorem Tally.membersAdded_touchIf (tally : Tally) (received : Bool) :
    (tally ++ Tally.touchIf received).membersAdded = tally.membersAdded := by
  unfold Tally.touchIf
  split
  · rfl
  · rfl

@[simp] private theorem Changed.noted_membersAdded (changed : Changed) (note : String) :
    (changed.noted note).2.membersAdded = changed.2.membersAdded := by
  unfold Changed.noted
  split
  · rfl
  · rfl

namespace ClassEdit

variable {note : String}

/-- Adding methods and then a note is an edit. -/
theorem noted_addMethods {ms : List Method} (h : (c.addMethods ms).outcome = .ok (added, tally))
    (hcount : tally'.membersAdded = tally.membersAdded)
    (hnoted : Changed.noted (added, tally') note = (after, total)) :
    after = (ofMembers note [] ms).apply c ∧
      total.membersAdded = (ofMembers note [] ms).count c := by
  obtain ⟨tally'', hadd, hlength⟩ := c.addMethods_eq ms
  obtain ⟨rfl, rfl⟩ := Prod.mk.inj (Except.ok.inj (hadd.symm.trans h))
  have hnone : (ofMembers note [] ms).count c = (c.newMethods ms).length := by
    simp [count, ofMembers, BeanClass.newConstructors, newcomers]
  refine ⟨(congrArg Prod.fst hnoted).symm.trans ?_,
    (congrArg (·.2.membersAdded) hnoted).symm.trans ?_⟩
  · rw [Changed.noted_eq]
    simp only [apply, hnone, hcount, hlength]
    simp [ofMembers, BeanClass.newConstructors, newcomers]
  · rw [Changed.noted_membersAdded, hnone, hcount, hlength]

/-- Adding constructors and then a note is an edit. -/
theorem noted_addConstructors {ks : List Constructor}
    (hnoted : Changed.noted (c.addConstructors ks) note = (after, total)) :
    after = (ofMembers note ks []).apply c ∧
      total.membersAdded = (ofMembers note ks []).count c := by
  obtain ⟨tally, hadd, hlength⟩ := c.addConstructors_eq ks
  have hnone : (ofMembers note ks []).count c = (c.newConstructors ks).length := by
    simp [count, ofMembers, BeanClass.newMethods, newcomers]
  rw [hadd] at hnoted
  refine ⟨(congrArg Prod.fst hnoted).symm.trans ?_,
    (congrArg (·.2.membersAdded) hnoted).symm.trans ?_⟩
  · rw [Changed.noted_eq]
    simp only [apply, hnone, hlength]
    simp [ofMembers, BeanClass.newMethods, newcomers]
  · rw [Changed.noted_membersAdded, hnone, hlength]

end ClassEdit

/-! ## Passes that add methods -/

namespace LocalAccessors

/-- What the pass does to a class. -/
def edit (settings : Settings) (c : BeanClass) : ClassEdit :=
  .ofMembers (settings.classNote option) []
    ((c.instances.flatMap (fieldMethods settings)).map (·.stamp settings option))

/-- The treatment makes the class with the accessors of its fields, and counts those that are
new. -/
theorem onClass_makes : Makes (onClass settings) (fun c => (edit settings c).apply c)
    (fun c => (edit settings c).count c) := by
  intro c after tally h
  dsimp only
  obtain ⟨fields, hfields, h⟩ := Step.bind_eq_ok.mp h
  obtain ⟨changed, hadd, h⟩ := Step.bind_eq_ok.mp h
  rw [edit, BeanClass.instances, Step.getD_of_ok hfields]
  exact ClassEdit.noted_addMethods hadd rfl (Except.ok.inj h)

end LocalAccessors

namespace ListAccessors

/-- The methods that are to be added, with the companions of one more list getter. -/
def queue (settings : Settings) (c : BeanClass) (queued : List Method) (g : ListGetter) :
    List Method :=
  let tested := queued ++ [g.hasEntries, g.hasNoEntries]
  tested ++ ((g.freeCountName? c tested).map (g.count settings)).toList ++
    [g.atIndex settings, g.add settings]

/-- The getters of lists among the methods of a class. -/
def getters (c : BeanClass) : List ListGetter := c.methods.filterMap listGetter?

/-- The setters for the list fields of a class. -/
def setters (settings : Settings) (c : BeanClass) : List Method :=
  (c.instances.filter (·.type.isErasure "List")).map (setter settings)

/-- What the pass does to a class. -/
def edit (settings : Settings) (c : BeanClass) : ClassEdit :=
  .ofMembers (settings.classNote option) []
    (((getters c).foldl (queue settings c) (setters settings c)).map (·.stamp settings option))

private theorem planGetter_eq (settings : Settings) (c : BeanClass) (plan : Plan) (g : ListGetter) :
    ∃ plan', (planGetter settings c plan g).outcome = .ok plan' ∧
      plan'.methods = queue settings c plan.methods g := by
  unfold planGetter queue
  dsimp only
  split
  case h_1 name hname => exact ⟨_, rfl, by simp [hname]⟩
  case h_2 hnone =>
    refine ⟨{
      methods := plan.methods ++ [g.hasEntries, g.hasNoEntries] ++
        [g.atIndex settings, g.add settings]
      skipped := plan.skipped ++ [.collision c.name ("get" ++ g.property ++ "Count")] }, rfl, ?_⟩
    simp [hnone]

/-- The companions of the list getters are planned one after the other. -/
theorem foldlM_planGetter_eq (settings : Settings) (c : BeanClass) (gs : List ListGetter)
    (plan : Plan) : ∃ plan', (gs.foldlM (planGetter settings c) plan).outcome = .ok plan' ∧
      plan'.methods = gs.foldl (queue settings c) plan.methods := by
  induction gs generalizing plan with
  | nil => exact ⟨plan, rfl, rfl⟩
  | cons g rest ih =>
    obtain ⟨next, hnext, hmethods⟩ := planGetter_eq settings c plan g
    obtain ⟨last, hlast, hall⟩ := ih next
    refine ⟨last, Step.bind_eq_ok.mpr ⟨next, hnext, hlast⟩, ?_⟩
    rw [List.foldl_cons, ← hmethods, hall]

/-- The treatment makes the class with the companions of its list getters, and counts those that are
new. -/
theorem onClass_makes : Makes (onClass settings) (fun c => (edit settings c).apply c)
    (fun c => (edit settings c).count c) := by
  intro c after tally h
  dsimp only
  obtain ⟨fields, hfields, h⟩ := Step.bind_eq_ok.mp h
  obtain ⟨plan, hplan, h⟩ := Step.bind_eq_ok.mp h
  obtain ⟨⟨added, first⟩, hadd, h⟩ := Step.bind_eq_ok.mp h
  obtain ⟨plan', hplan', hmethods⟩ := foldlM_planGetter_eq settings c (getters c)
    { methods := (fields.filter (·.type.isErasure "List")).map (setter settings) }
  obtain rfl : plan' = plan := Except.ok.inj (hplan'.symm.trans hplan)
  have hskipped : (first ++ { skipped := plan'.skipped } : Tally).membersAdded =
      first.membersAdded :=
    Nat.add_zero _
  rw [edit, setters, BeanClass.instances, Step.getD_of_ok hfields, ← hmethods]
  exact ClassEdit.noted_addMethods hadd hskipped (Except.ok.inj h)

end ListAccessors

namespace Equality

/-- What the pass does to a class. -/
def edit (settings : Settings) (m : CodeModel) (c : BeanClass) : ClassEdit :=
  .ofMembers (settings.classNote option) []
    [(equalsMethod settings.runtime m c c.instances (m.lineageOf c)).stamp settings option,
      (hashCodeMethod settings.runtime m c.instances (m.lineageOf c)).stamp settings option]

/-- The treatment makes the class with `equals` and `hashCode`, and counts those that are new. -/
theorem onClass_makes : Makes (onClass settings m) (fun c => (edit settings m c).apply c)
    (fun c => (edit settings m c).count c) := by
  intro c after tally h
  dsimp only
  obtain ⟨fields, hfields, h⟩ := Step.bind_eq_ok.mp h
  obtain ⟨-, -, h⟩ := Step.bind_eq_ok.mp h
  obtain ⟨-, -, h⟩ := Step.bind_eq_ok.mp h
  obtain ⟨changed, hadd, h⟩ := Step.bind_eq_ok.mp h
  obtain ⟨-, -, h⟩ := Step.bind_eq_ok.mp h
  rw [edit, BeanClass.instances, Step.getD_of_ok hfields]
  exact ClassEdit.noted_addMethods hadd rfl (Except.ok.inj h)

end Equality

namespace Description

/-- The methods that the pass adds to a class. -/
def methods (settings : Settings) (m : CodeModel) (c : BeanClass) : List Method :=
  if m.lineageOf c == .derived && c.instances.isEmpty then []
  else [(toStringMethod settings.runtime c.instances (m.lineageOf c)).stamp settings option]

/-- What the pass does to a class. -/
def edit (settings : Settings) (m : CodeModel) (c : BeanClass) : ClassEdit :=
  .ofMembers (settings.classNote option) [] (methods settings m c)

/-- The treatment makes the class with `toString`, and counts it if it is new. -/
theorem onClass_makes : Makes (onClass settings m) (fun c => (edit settings m c).apply c)
    (fun c => (edit settings m c).count c) := by
  intro c after tally h
  dsimp only
  obtain ⟨fields, hfields, h⟩ := Step.bind_eq_ok.mp h
  rw [edit, methods, BeanClass.instances, Step.getD_of_ok hfields]
  split at h
  case isTrue hnone =>
    obtain ⟨rfl, rfl⟩ := Prod.mk.inj (Except.ok.inj h)
    rw [if_pos hnone]
    have hsettled : (ClassEdit.ofMembers (settings.classNote option) [] []).Settled c :=
      ⟨List.forall_mem_nil _, List.forall_mem_nil _, rfl, rfl, rfl⟩
    exact hsettled.makes
  case isFalse hsome =>
    obtain ⟨changed, hadd, h⟩ := Step.bind_eq_ok.mp h
    have hall : (c.addMethods
        [(toStringMethod settings.runtime fields (m.lineageOf c)).stamp settings option]).outcome =
          .ok (changed.1, changed.2 ++ {}) :=
      Step.bind_eq_ok.mpr ⟨changed, hadd, rfl⟩
    rw [if_neg hsome]
    exact ClassEdit.noted_addMethods hall (Nat.add_zero _).symm (Except.ok.inj h)

end Description

namespace Copying

/-- What the pass does to the interfaces of a class. -/
def editInterfaces (settings : Settings) (lineage : Lineage) (xs : List ClassRef) : List ClassRef :=
  if lineage = .root then addOnce (.ofName settings.runtime.cloneableInterface) xs else xs

/-- What the pass does to a class. -/
def edit (settings : Settings) (m : CodeModel) (c : BeanClass) : ClassEdit where
  methods :=
    [(cloneToMethod settings.runtime m c c.instances (m.lineageOf c)).stamp settings option,
      (cloneMethod settings.runtime c).stamp settings option]
  note := settings.classNote option
  interfaces := editInterfaces settings (m.lineageOf c)

private theorem withInterface_eq (settings : Settings) (lineage : Lineage) (c : BeanClass) :
    withInterface (.ofName settings.runtime.cloneableInterface) lineage c =
      { c with interfaces := editInterfaces settings lineage c.interfaces } := by
  cases lineage with
  | derived => rfl
  | root =>
    unfold withInterface editInterfaces addOnce
    by_cases hlists : ClassRef.ofName settings.runtime.cloneableInterface ∈ c.interfaces
    · simp [hlists]
    · simp [hlists]

/-- The treatment makes the class with the methods of cloning, and counts those that are new. -/
theorem onClass_makes : Makes (onClass settings m) (fun c => (edit settings m c).apply c)
    (fun c => (edit settings m c).count c) := by
  intro c after tally h
  dsimp only
  obtain ⟨fields, hfields, h⟩ := Step.bind_eq_ok.mp h
  obtain ⟨-, -, h⟩ := Step.bind_eq_ok.mp h
  obtain ⟨changed, hadd, h⟩ := Step.bind_eq_ok.mp h
  obtain ⟨-, -, h⟩ := Step.bind_eq_ok.mp h
  obtain ⟨hafter, hcount⟩ := ClassEdit.noted_addMethods hadd rfl (Except.ok.inj h)
  rw [withInterface_eq] at hafter hcount
  rw [edit, BeanClass.instances, Step.getD_of_ok hfields]
  exact ⟨hafter, hcount⟩

end Copying

/-! ## Passes that change lists in place -/

/-- What the passes for constraints do to the fields of a class. -/
def Constraints.editFields (settings : Settings) (dialect : ValidationDialect) (m : CodeModel)
    (c : BeanClass) : List Field → List Field :=
  constrainAll settings.validation dialect m (constraining c)

/-- The treatment makes the class with the constrained fields, and counts the new annotations. -/
theorem Constraints.onClass_makes {dialect : ValidationDialect} :
    Makes (onClass settings dialect m)
      (fun c => { c with fields := editFields settings dialect m c c.fields })
      (fun c => annotationCount (editFields settings dialect m c c.fields) -
        annotationCount c.fields) := by
  intro c after tally h
  dsimp only
  unfold onClass at h
  dsimp only at h
  split at h
  · cases h
  · obtain ⟨changed, happly, h⟩ := Step.bind_eq_ok.mp h
    obtain ⟨-, -, h⟩ := Step.bind_eq_ok.mp h
    obtain ⟨first, hfirst, hcount⟩ :=
      applyProperties_eq settings.validation dialect m c (constraining c)
    obtain rfl : _ = changed := Except.ok.inj (hfirst.symm.trans happly)
    obtain ⟨rfl, rfl⟩ := Prod.mk.inj (Except.ok.inj h)
    refine ⟨rfl, ?_⟩
    rw [Tally.membersAdded_touchIf, editFields, hcount, Nat.add_sub_cancel_left]

namespace Interfaces

/-- The interfaces of these names that an enumeration or a class may list. -/
def listable (isEnum : Bool) (names : List String) : List ClassRef :=
  (names.filter fun name => !(isEnum && name == serializable)).map ClassRef.ofName

/-- The interfaces among these that are not listed yet. -/
def newInterfaces (xs interfaces : List ClassRef) : List ClassRef :=
  newcomers ClassRef.name (xs.map ClassRef.name) interfaces

/-- What the pass does to the interfaces of a class. -/
def editInterfaces (settings : Settings) (m : CodeModel) (c : BeanClass) (xs : List ClassRef) :
    List ClassRef :=
  if isTarget m c then
    xs ++ newInterfaces xs (listable c.isEnum (interfaceNames settings.implements))
  else xs

/-- Adding interfaces appends those that are new, and counts them. -/
theorem addInterfaces_eq (c : BeanClass) (names : List String) :
    ∃ tally, (addInterfaces c names).outcome = .ok ({ c with
      interfaces := c.interfaces ++ newInterfaces c.interfaces (listable c.isEnum names) }, tally) ∧
      tally.membersAdded = (newInterfaces c.interfaces (listable c.isEnum names)).length := by
  induction names generalizing c with
  | nil => exact ⟨{}, by simp [addInterfaces, newInterfaces, listable, newcomers], rfl⟩
  | cons name rest ih =>
    unfold addInterfaces
    by_cases hserial : c.isEnum && name == serializable
    · have hsame : listable c.isEnum (name :: rest) = listable c.isEnum rest := by
        rw [listable, List.filter_cons_of_neg (by simp [hserial]), listable]
      rw [if_pos hserial, hsame]
      exact ih c
    · have hfirst : listable c.isEnum (name :: rest) = .ofName name :: listable c.isEnum rest := by
        rw [listable, List.filter_cons_of_pos (by simp [hserial]), List.map_cons, listable]
      rw [if_neg hserial, hfirst]
      by_cases hlists : c.implements name
      · have hmem : (ClassRef.ofName name).name ∈ c.interfaces.map ClassRef.name := by
          simpa [BeanClass.implements, ClassRef.ofName] using hlists
        rw [if_pos hlists, newInterfaces, newcomers_cons_of_mem hmem]
        obtain ⟨tally, hrest, hcount⟩ := ih c
        exact ⟨tally, Step.bind_eq_ok.mpr ⟨(), rfl, hrest⟩, hcount⟩
      · have hmem : (ClassRef.ofName name).name ∉ c.interfaces.map ClassRef.name := by
          simpa [BeanClass.implements, ClassRef.ofName] using hlists
        rw [if_neg hlists, newInterfaces, newcomers_cons_of_not_mem hmem]
        obtain ⟨tally, hrest, hcount⟩ :=
          ih { c with interfaces := c.interfaces ++ [.ofName name] }
        simp only [newInterfaces, List.map_append, List.map_cons, List.map_nil, List.append_assoc,
          List.singleton_append] at hrest hcount
        refine ⟨.synthesized ++ tally, Step.bind_eq_ok.mpr ⟨_, hrest, rfl⟩, ?_⟩
        exact (congrArg (1 + ·) hcount).trans (Nat.add_comm 1 _)

/-- The treatment makes the class with the interfaces, and counts those that are new. -/
theorem onClass_makes : Makes (onClass m (interfaceNames settings.implements))
    (fun c => { c with interfaces := editInterfaces settings m c c.interfaces })
    (fun c => (editInterfaces settings m c c.interfaces).length - c.interfaces.length) := by
  intro c after tally h
  dsimp only
  unfold onClass at h
  unfold editInterfaces
  split at h
  case isTrue htarget =>
    obtain ⟨changed, hadd, h⟩ := Step.bind_eq_ok.mp h
    obtain ⟨first, hfirst, hcount⟩ := addInterfaces_eq c (interfaceNames settings.implements)
    obtain rfl : _ = changed := Except.ok.inj (hfirst.symm.trans hadd)
    obtain ⟨rfl, rfl⟩ := Prod.mk.inj (Except.ok.inj h)
    rw [if_pos htarget, Tally.membersAdded_touchIf, hcount, List.length_append]
    exact ⟨rfl, by omega⟩
  case isFalse htarget =>
    obtain ⟨rfl, rfl⟩ := Prod.mk.inj (Except.ok.inj h)
    rw [if_neg htarget, Nat.sub_self]
    exact ⟨rfl, rfl⟩

end Interfaces

/-- The treatment makes the class with private fields, and counts those that were not. -/
theorem PrivateFields.onClass_makes : Makes onClass
    (fun c => { c with fields := c.fields.map hide })
    (fun c => c.fields.countP (·.visibility ≠ .priv)) := by
  intro c after tally h
  dsimp only
  obtain ⟨hidden, hhide, h⟩ := Step.bind_eq_ok.mp h
  obtain rfl : _ = hidden := Except.ok.inj ((hideFields_eq c.name c.fields).symm.trans hhide)
  obtain ⟨rfl, rfl⟩ := Prod.mk.inj (Except.ok.inj h)
  exact ⟨rfl, Tally.membersAdded_touchIf _ _⟩

/-- The annotations with the marker, unless there is one already. -/
def StyleMarker.mark (marker : String) (xs : List Annotation) : List Annotation :=
  if hasAnnotation xs marker then xs else xs ++ [.ofName marker]

/-- The treatment makes the class with the marker, and counts it if it is new. -/
theorem StyleMarker.onClass_makes {marker : String} : Makes (onClass marker)
    (fun c => { c with annotations := mark marker c.annotations })
    (fun c => (mark marker c.annotations).length - c.annotations.length) := by
  intro c after tally h
  dsimp only
  unfold onClass BeanClass.hasAnnotation at h
  unfold mark
  split at h
  case isTrue hmarked =>
    obtain ⟨rfl, rfl⟩ := Prod.mk.inj (Except.ok.inj h)
    rw [if_pos hmarked, Nat.sub_self]
    exact ⟨rfl, rfl⟩
  case isFalse hmarked =>
    obtain ⟨rfl, rfl⟩ := Prod.mk.inj (Except.ok.inj h)
    rw [if_neg hmarked, List.length_append, Nat.add_sub_cancel_left]
    exact ⟨rfl, rfl⟩

end BeanSynthesis
