import Mathlib.Data.List.TakeWhile
import BeanSynthesis.Proofs.Carrying.Chains
import BeanSynthesis.Proofs.Problems
import BeanSynthesis.Proofs.Validation
import BeanSynthesis.Synthesis.Carriers

/-!
# The nearest declaration

The scan goes up from each class and stops at a class of the platform, at a name that is not known,
or where an earlier walk has been. It can stop there because the names that have been scanned are
closed under superclasses outside the platform. So what a class carries is what the nearest
declaration says, whatever else there is in the model and in which order.
-/

namespace BeanSynthesis

/-! ## Declarations -/

/-- What the core component type of this name carries. -/
def coreComponentValue? (name : String) : Option TypeExpr :=
  (coreComponents.find? fun component => coreComponentPackage ++ component.1 == name).map (·.2)

namespace CodeModel

/-- The type of the field `value` that the class of this name declares: the generated class, or the
external one if none is generated. -/
def fieldValue? (m : CodeModel) (name : String) : Option TypeExpr :=
  match m.class? name with
  | some c => (c.field? valueField).map (·.type)
  | none => (m.external.get? name).bind (·.fields.get? valueField)

/-- The type that a superclass of this name gives to those below it: that of its field `value`, or
what is known of the core component types. The platform gives none. -/
def declaredValue? (m : CodeModel) (name : String) : Option TypeExpr :=
  if isPlatformClass name then none else (m.fieldValue? name).or (coreComponentValue? name)

/-- The superclasses of the classes of the platform belong to the platform. -/
def PlatformClosed (m : CodeModel) : Prop :=
  ∀ name superclass, isPlatformClass name → m.superclassName? name = some superclass →
    isPlatformClass superclass

end CodeModel

private theorem isPlatformClass_coreComponent (name : String) :
    isPlatformClass (coreComponentPackage ++ name) = false := by
  simp [isPlatformClass, coreComponentPackage, Text.afterStart?]

/-- No core component type belongs to the platform. -/
theorem coreComponentValue?_of_platform {name : String} (h : isPlatformClass name) :
    coreComponentValue? name = none := by
  rw [coreComponentValue?, Option.map_eq_none_iff, List.find?_eq_none]
  intro component _ hname
  have houtside := isPlatformClass_coreComponent component.1
  rw [beq_iff_eq.mp hname, h] at houtside
  cases houtside

namespace Carriers

variable {m n : CodeModel} {c : BeanClass} {carriers : Carriers} {names : List String}

/-! ## One walk -/

/-- Under each name that has been scanned there is what the class of the name declares. -/
def Exact (m : CodeModel) (carriers : Carriers) : Prop :=
  ∀ name, carriers.types.get? name =
    if name ∈ carriers.scanned then m.fieldValue? name else none

/-- What the scan of one class finds. -/
theorem scan_finds (m : CodeModel) (carriers : Carriers) (name : String) :
    ∃ after, (scan m carriers name).outcome = .ok after ∧
      after.scanned = name :: carriers.scanned ∧
      after.types = match m.fieldValue? name with
        | some type => carriers.types.insert name type
        | none => carriers.types := by
  unfold scan CodeModel.fieldValue?
  cases m.class? name with
  | some c =>
    dsimp only
    cases c.field? valueField with
    | some f => exact ⟨_, rfl, rfl, rfl⟩
    | none => exact ⟨_, rfl, rfl, rfl⟩
  | none =>
    dsimp only
    cases m.external.get? name with
    | none => exact ⟨_, rfl, rfl, rfl⟩
    | some external =>
      dsimp only [Option.bind_some]
      cases external.fields.get? valueField with
      | some type => exact ⟨_, rfl, rfl, rfl⟩
      | none => exact ⟨_, rfl, rfl, rfl⟩

private theorem scan_exact (h : carriers.Exact m) (name : String) :
    ∃ after, (scan m carriers name).outcome = .ok after ∧ after.Exact m ∧
      after.scanned = name :: carriers.scanned := by
  obtain ⟨after, hafter, hscanned, htypes⟩ := scan_finds m carriers name
  refine ⟨after, hafter, fun other => ?_, hscanned⟩
  have hbefore := h other
  rw [htypes, hscanned]
  by_cases hsame : other = name
  · subst hsame
    cases hfield : m.fieldValue? other with
    | some type => simp [Dict.get?_insert]
    | none => simpa [hfield] using hbefore
  · cases m.fieldValue? name with
    | some type => simpa [Dict.get?_insert, hsame] using hbefore
    | none => simpa [hsame] using hbefore

private theorem scanAll_exact (h : carriers.Exact m) (path : List String) :
    ∃ after, (path.foldlM (scan m) carriers).outcome = .ok after ∧ after.Exact m ∧
      after.scanned = path.reverse ++ carriers.scanned := by
  induction path generalizing carriers with
  | nil => exact ⟨carriers, rfl, h, rfl⟩
  | cons name rest ih =>
    obtain ⟨first, hfirst, hexact, hscanned⟩ := scan_exact h name
    obtain ⟨after, hafter, hexact', hscanned'⟩ := ih hexact
    refine ⟨after, ?_, hexact', ?_⟩
    · rw [List.foldlM_cons, Step.outcome_bind, hfirst]
      exact hafter
    · rw [hscanned', hscanned, List.reverse_cons, List.append_assoc]
      rfl

/-! ## All walks -/

/-- The name has been scanned, or belongs to the platform. -/
def Covers (carriers : Carriers) (name : String) : Prop :=
  isPlatformClass name ∨ name ∈ carriers.scanned

/-- What holds between two walks: names outside the platform have been scanned, and with each of
them its superclass. -/
structure Closed (m : CodeModel) (carriers : Carriers) : Prop where
  exact : carriers.Exact m
  outside : ∀ name ∈ carriers.scanned, isPlatformClass name = false
  superclasses : ∀ name ∈ carriers.scanned, ∀ superclass ∈ m.superclassName? name,
    carriers.Covers superclass

/-- Before anything is read, the search is closed. -/
theorem Closed.empty (m : CodeModel) : ({} : Carriers).Closed m where
  exact := by simp [Exact]
  outside := by simp
  superclasses := by simp

private theorem Covers.mono {after : Carriers} {name : String} (h : carriers.Covers name)
    (hscanned : carriers.scanned ⊆ after.scanned) : after.Covers name :=
  h.imp_right fun hmem => hscanned hmem

/-- A walk keeps the names closed and covers the superclass that it starts at. -/
theorem scanAncestors_closed (h : carriers.Closed m) (c : BeanClass) :
    ∃ after, (scanAncestors m carriers c).outcome = .ok after ∧ after.Closed m ∧
      carriers.scanned ⊆ after.scanned ∧
      ∀ parent ∈ c.parent.map (·.name), after.Covers parent := by
  unfold scanAncestors
  let p : String → Bool := fun name => !isPlatformClass name && name ∉ carriers.scanned
  obtain ⟨hfirst, hnext⟩ := (CodeModel.Visiting.start m).takeWhile_closed p
    (c.parent.map (·.name))
  obtain ⟨after, hafter, hexact, hscanned⟩ :=
    scanAll_exact h.exact ((m.ancestorNames c).takeWhile p)
  have hsubset : carriers.scanned ⊆ after.scanned := by
    rw [hscanned]
    exact List.subset_append_right _ _
  have hpath : ∀ name, name ∈ (m.ancestorNames c).takeWhile p ∨ p name = false ∨
      name ∈ ([] : List String) → after.Covers name := by
    rintro name (hmem | hrefused | hmem)
    · right
      simp [hscanned, hmem]
    · have hcovered : carriers.Covers name := by
        cases hplatform : isPlatformClass name with
        | true => exact .inl hplatform
        | false => exact .inr (by simpa [p, hplatform] using hrefused)
      exact hcovered.mono hsubset
    · cases hmem
  refine ⟨after, hafter, ⟨hexact, ?_, ?_⟩, hsubset, fun parent hparent => ?_⟩
  · intro name hname
    rw [hscanned, List.mem_append, List.mem_reverse] at hname
    rcases hname with hname | hname
    · have haccepted : p name = true := List.mem_takeWhile_imp hname
      simp only [p, Bool.and_eq_true, Bool.not_eq_true'] at haccepted
      exact haccepted.1
    · exact h.outside name hname
  · intro name hname superclass hsuperclass
    rw [hscanned, List.mem_append, List.mem_reverse] at hname
    rcases hname with hname | hname
    · exact hpath superclass (hnext name hname superclass hsuperclass)
    · exact (h.superclasses name hname superclass hsuperclass).mono hsubset
  · exact hpath parent (hfirst parent hparent)

/-- Reading the classes of a model one by one always succeeds, keeps the search closed and covers
the superclasses of each. -/
theorem scanClasses_closed (h : carriers.Closed m) (classes : List BeanClass) :
    ∃ after, (classes.foldlM (scanAncestors m) carriers).outcome = .ok after ∧ after.Closed m ∧
      carriers.scanned ⊆ after.scanned ∧
      ∀ c ∈ classes, ∀ parent ∈ c.parent.map (·.name), after.Covers parent := by
  induction classes generalizing carriers with
  | nil => exact ⟨carriers, rfl, h, List.Subset.refl _, by simp⟩
  | cons c rest ih =>
    obtain ⟨first, hfirst, hclosed, hsubset, hparent⟩ := scanAncestors_closed h c
    obtain ⟨after, hafter, hclosed', hsubset', hparents⟩ := ih hclosed
    refine ⟨after, ?_, hclosed', List.Subset.trans hsubset hsubset', ?_⟩
    · rw [List.foldlM_cons, Step.outcome_bind, hfirst]
      exact hafter
    · rintro d (_ | ⟨_, hd⟩) parent hd'
      · exact (hparent parent hd').mono hsubset'
      · exact hparents d hd parent hd'

/-! ## The result of the scan -/

private theorem findSome?_congr {α β : Type} {xs : List α} {f g : α → Option β}
    (h : ∀ x ∈ xs, f x = g x) : xs.findSome? f = xs.findSome? g := by
  induction xs with
  | nil => rfl
  | cons x rest ih =>
    rw [List.findSome?_cons, List.findSome?_cons, h x List.mem_cons_self,
      ih fun y hy => h y (.tail _ hy)]

/-- The core components are known besides the types that are found, which come first. -/
theorem get?_withCoreComponents (types : Dict TypeExpr) (name : String) :
    (withCoreComponents types).get? name = (types.get? name).or (coreComponentValue? name) := by
  unfold withCoreComponents coreComponentValue?
  generalize coreComponents = components
  induction components generalizing types with
  | nil => simp
  | cons component rest ih =>
    rw [List.foldl_cons, ih, List.find?_cons]
    dsimp only
    by_cases hname : coreComponentPackage ++ component.1 = name
    · subst hname
      cases hfound : types.get? (coreComponentPackage ++ component.1) with
      | some type => simp [hfound]
      | none => simp [Dict.get?_insert]
    · have hother : ∀ type, (types.insert (coreComponentPackage ++ component.1) type).get? name =
          types.get? name := fun type => by rw [Dict.get?_insert, if_neg (Ne.symm hname)]
      rw [beq_false_of_ne hname]
      split
      · rfl
      · rw [hother]

/-- The scan succeeds, with names that are closed and cover the superclasses of all classes. -/
theorem ofModel_closed (m : CodeModel) :
    ∃ found scanned : Carriers, (ofModel m).outcome = .ok found ∧
      (∀ name, found.types.get? name =
        (scanned.types.get? name).or (coreComponentValue? name)) ∧
      scanned.Closed m ∧
        ∀ c ∈ m.classes, ∀ parent ∈ c.parent.map (·.name), scanned.Covers parent := by
  obtain ⟨scanned, hscanned, hclosed, -, hparents⟩ := scanClasses_closed (.empty m) m.classes
  obtain ⟨found, hfound⟩ := failure?_eq_none.mp (ValueAccessors.succeeds_ofModel m)
  refine ⟨found, scanned, hfound, fun name => ?_, hclosed, hparents⟩
  obtain ⟨scanned', hscanned', hresult⟩ := Step.bind_eq_ok.mp hfound
  obtain rfl := Except.ok.inj (hscanned.symm.trans hscanned')
  rw [Step.outcome_pure, Except.ok.injEq] at hresult
  rw [← hresult, get?_withCoreComponents]

/-- What is known under a name that is covered is what its class declares. -/
theorem Closed.get?_eq (h : carriers.Closed m) {name : String} (hcovers : carriers.Covers name) :
    (carriers.types.get? name).or (coreComponentValue? name) = m.declaredValue? name := by
  rw [h.exact, CodeModel.declaredValue?]
  rcases hcovers with hplatform | hscanned
  · have hunscanned : name ∉ carriers.scanned := by
      intro hmem
      rw [h.outside name hmem] at hplatform
      cases hplatform
    rw [if_neg hunscanned, if_pos hplatform, Option.none_or,
      coreComponentValue?_of_platform hplatform]
  · have houtside := h.outside name hscanned
    rw [if_pos hscanned, if_neg (by simp [houtside])]

/-- Along a chain every name above one that is covered is covered too, if the chain does not leave
the platform again. -/
theorem Closed.covers_linked (h : carriers.Closed m) {bottom : String}
    (hlinked : m.Linked (bottom :: names))
    (hplatform : ∀ name ∈ names, isPlatformClass name → ∀ superclass ∈ m.superclassName? name,
      isPlatformClass superclass)
    (hbottom : ∀ superclass ∈ m.superclassName? bottom, carriers.Covers superclass) :
    ∀ name ∈ names, carriers.Covers name := by
  induction names generalizing bottom with
  | nil => simp
  | cons name rest ih =>
    obtain ⟨hname, hrest⟩ := List.isChain_cons_cons.mp hlinked
    have hcovers := hbottom name hname
    rintro other (_ | ⟨_, hother⟩)
    · exact hcovers
    · refine ih hrest (fun n hn => hplatform n (.tail _ hn)) ?_ other hother
      intro superclass hsuperclass
      rcases hcovers with hinside | hscanned
      · exact .inl (hplatform name List.mem_cons_self hinside superclass hsuperclass)
      · exact h.superclasses name hscanned superclass hsuperclass

/-- The nearest declaration in a chain that does not leave the platform again. -/
theorem valueType?_eq_findSome? {found : Carriers} (hmem : c ∈ m.classes)
    (hc : m.class? c.name = some c) (hchain : m.SuperclassChain c names)
    (hplatform : ∀ name ∈ names, isPlatformClass name → ∀ superclass ∈ m.superclassName? name,
      isPlatformClass superclass)
    (hfound : (ofModel m).outcome = .ok found) :
    valueType? m found c = ((c.field? valueField).map (·.type)).or
      (names.tail.findSome? m.declaredValue?) := by
  obtain ⟨result, scanned, hresult, htypes, hclosed, hparents⟩ := ofModel_closed m
  obtain rfl : result = found := Except.ok.inj (hresult.symm.trans hfound)
  have hcovers : ∀ name ∈ names.tail, scanned.Covers name := by
    obtain ⟨hhead, hlinked, -, -⟩ := hchain
    cases names with
    | nil => simp
    | cons bottom above =>
      obtain rfl : bottom = c.name := by simpa using hhead
      refine hclosed.covers_linked hlinked (fun n hn => hplatform n (.tail _ hn)) ?_
      rw [CodeModel.superclassName?_of_class? hc]
      exact hparents c hmem
  have hlookup : names.tail.findSome? result.types.get? =
      names.tail.findSome? m.declaredValue? := by
    refine findSome?_congr fun name hname => ?_
    rw [htypes, hclosed.get?_eq (hcovers name hname)]
  unfold valueType?
  rw [hchain.findSome?_ancestorNames hc, hlookup]
  cases c.field? valueField <;> rfl

end Carriers

/-! ## Other models -/

namespace CodeModel

variable {m n : CodeModel} {c : BeanClass} {names : List String}

/-- The models say the same about the classes of these names. -/
def AgreeOn (m n : CodeModel) (names : List String) : Prop :=
  ∀ name ∈ names, n.class? name = m.class? name ∧ n.external.get? name = m.external.get? name

namespace AgreeOn

private theorem superclassName?_eq (h : m.AgreeOn n names) :
    ∀ name ∈ names, n.superclassName? name = m.superclassName? name := by
  intro name hname
  obtain ⟨hclass, hexternal⟩ := h name hname
  rw [superclassName?, hclass, hexternal, superclassName?]

private theorem declaredValue?_eq (h : m.AgreeOn n names) :
    ∀ name ∈ names, n.declaredValue? name = m.declaredValue? name := by
  intro name hname
  obtain ⟨hclass, hexternal⟩ := h name hname
  rw [declaredValue?, fieldValue?, hclass, hexternal, declaredValue?, fieldValue?]

/-- A chain is one in every model that says the same about its classes. -/
theorem superclassChain (h : m.AgreeOn n names) (hchain : m.SuperclassChain c names) :
    n.SuperclassChain c names where
  head := hchain.head
  linked := hchain.linked.imp_of_mem_imp fun name _ hname _ hsuperclass =>
    (h.superclassName?_eq name hname).trans hsuperclass
  distinct := hchain.distinct
  ends last hlast := by
    rw [h.superclassName?_eq last (List.mem_of_getLast? hlast)]
    exact hchain.ends last hlast

end AgreeOn

/-! ## Other orders -/

/-- In a list of classes with different names every class is found under its name. -/
theorem class?_eq_some_iff (hnames : (m.classes.map (·.name)).Nodup) {name : String} :
    m.class? name = some c ↔ c ∈ m.classes ∧ c.name = name := by
  constructor
  · intro h
    exact ⟨mem_of_class? h, by simpa using List.find?_some h⟩
  · rintro ⟨hc, rfl⟩
    cases hfound : m.class? c.name with
    | none => exact absurd (List.find?_eq_none.mp hfound c hc) (by simp)
    | some d =>
      have hname : d.name = c.name := by simpa using List.find?_some hfound
      rw [List.inj_on_of_nodup_map hnames (mem_of_class? hfound) hc hname]

variable {classes : List BeanClass}

/-- In another order the same classes are found. -/
theorem class?_perm (hnames : (m.classes.map (·.name)).Nodup) (hperm : classes.Perm m.classes)
    (name : String) : ({ m with classes } : CodeModel).class? name = m.class? name := by
  ext c
  rw [class?_eq_some_iff hnames, class?_eq_some_iff ((hperm.map (·.name)).nodup_iff.mpr hnames),
    hperm.mem_iff]

private theorem endsWithin_congr (h : ∀ name, n.class? name = m.class? name) (steps : Nat)
    (c : BeanClass) : n.endsWithin steps c = m.endsWithin steps c := by
  have hparent : ∀ c, n.parentOf c = m.parentOf c := fun c => by simp only [parentOf, h]
  induction steps generalizing c with
  | zero =>
    unfold endsWithin
    rw [hparent]
  | succ steps ih =>
    unfold endsWithin
    rw [hparent]
    cases m.parentOf c with
    | generated parent => exact ih parent
    | root => rfl
    | external parent => rfl

/-- A well-formed model is so in every order of its classes. -/
theorem WellFormed.of_perm (hm : m.WellFormed) (hperm : classes.Perm m.classes) :
    ({ m with classes } : CodeModel).WellFormed where
  names := (hperm.map (·.name)).nodup_iff.mpr hm.names
  ends c hc := by
    rw [endsWithin_congr (class?_perm hm.names hperm), hperm.length_eq]
    exact hm.ends c (hperm.mem_iff.mp hc)

end CodeModel

namespace Carriers

variable {m : CodeModel} {c : BeanClass}

/-- The value type of a class is that of its own field `value`, or what the nearest of its
superclasses declares. Neither the order of the classes nor a class outside the chain of its
superclasses has a part in it. -/
theorem valueType?_nearest (hvalid : m.validate = .ok ()) (hplatform : m.PlatformClosed)
    (hc : c ∈ m.classes) :
    ∃ found, (ofModel m).outcome = .ok found ∧ (∃ names, m.SuperclassChain c names) ∧
      (∀ names, m.SuperclassChain c names →
        valueType? m found c = ((c.field? valueField).map (·.type)).or
          (names.tail.findSome? m.declaredValue?) ∧
        ∀ n : CodeModel, n.validate = .ok () → c ∈ n.classes → m.AgreeOn n names →
          ∃ foundIn, (ofModel n).outcome = .ok foundIn ∧
            valueType? n foundIn c = valueType? m found c) ∧
      ∀ classes : List BeanClass, classes.Perm m.classes →
        ∃ foundIn, (ofModel { m with classes }).outcome = .ok foundIn ∧
          valueType? { m with classes } foundIn c = valueType? m found c := by
  have hm := CodeModel.wellFormed_of_validate hvalid
  obtain ⟨found, hfound⟩ := failure?_eq_none.mp (ValueAccessors.succeeds_ofModel m)
  have hnearest : ∀ names, m.SuperclassChain c names →
      valueType? m found c = ((c.field? valueField).map (·.type)).or
        (names.tail.findSome? m.declaredValue?) := fun names hchain =>
    valueType?_eq_findSome? hc (hm.class?_name hc) hchain
      (fun name _ hinside superclass => hplatform name superclass hinside) hfound
  have hagree : ∀ names, m.SuperclassChain c names → ∀ n : CodeModel, n.WellFormed →
      c ∈ n.classes → m.AgreeOn n names → ∃ foundIn, (ofModel n).outcome = .ok foundIn ∧
        valueType? n foundIn c = valueType? m found c := by
    intro names hchain n hn hcn h
    obtain ⟨foundIn, hfoundIn⟩ := failure?_eq_none.mp (ValueAccessors.succeeds_ofModel n)
    refine ⟨foundIn, hfoundIn, ?_⟩
    have hinside : ∀ name ∈ names, isPlatformClass name →
        ∀ superclass ∈ n.superclassName? name, isPlatformClass superclass := by
      intro name hname hinside superclass hsuperclass
      rw [h.superclassName?_eq name hname] at hsuperclass
      exact hplatform name superclass hinside hsuperclass
    rw [hnearest names hchain, valueType?_eq_findSome? hcn (hn.class?_name hcn)
      (h.superclassChain hchain) hinside hfoundIn]
    congr 1
    exact findSome?_congr fun name hname =>
      h.declaredValue?_eq name (List.mem_of_mem_tail hname)
  refine ⟨found, hfound, m.exists_superclassChain c, fun names hchain => ⟨hnearest names hchain,
    fun n hn => hagree names hchain n (CodeModel.wellFormed_of_validate hn)⟩, ?_⟩
  intro classes hperm
  obtain ⟨names, hchain⟩ := m.exists_superclassChain c
  refine hagree names hchain _ (hm.of_perm hperm) (hperm.mem_iff.mpr hc) fun name _ => ?_
  exact ⟨CodeModel.class?_perm hm.names hperm name, rfl⟩

/-- A sale is a price, and a price is money from outside, which is an amount. Nothing is known about
the class of amounts but what it carries. -/
def sale : BeanClass := { name := "shop.Sale", parent := some (.ofName "shop.Price") }

/-- The classes of sales and prices, with what is known outside. -/
def sales : CodeModel where
  classes := [sale, { name := "shop.Price", parent := some (.ofName "ext.Money") }]
  external := .ofList [
    ("ext.Money", {
      name := "ext.Money"
      superclass := some "com.helger.xsds.ccts.cct.schemamodule.AmountType" }),
    ("java.lang.Number", { name := "java.lang.Number", superclass := some "java.lang.Object" })]

private theorem sales_platformClosed : sales.PlatformClosed := by
  have hknown : ∀ name ∈ sales.knownNames, isPlatformClass name →
      ∀ superclass ∈ sales.superclassName? name, isPlatformClass superclass := by
    decide
  intro name superclass hinside hsuperclass
  exact hknown name (CodeModel.mem_knownNames hsuperclass) hinside superclass hsuperclass

private theorem sale_chain : sales.SuperclassChain sale ["shop.Sale", "shop.Price", "ext.Money",
    "com.helger.xsds.ccts.cct.schemamodule.AmountType"] where
  head := rfl
  linked := by
    unfold CodeModel.Linked
    decide
  distinct := by decide
  ends := by decide

/-- Through three superclasses a sale carries what an amount carries. -/
theorem sale_carries_amount : sales.validate = .ok () ∧ sales.PlatformClosed ∧
    sale ∈ sales.classes ∧ ∃ found, (ofModel sales).outcome = .ok found ∧
      valueType? sales found sale = some (.ofName "java.math.BigDecimal") := by
  have hvalid : sales.validate = .ok () := rfl
  have hsale : sale ∈ sales.classes := List.mem_cons_self
  obtain ⟨found, hfound, -, hnearest, -⟩ := valueType?_nearest hvalid sales_platformClosed hsale
  refine ⟨hvalid, sales_platformClosed, hsale, found, hfound, ?_⟩
  rw [(hnearest _ sale_chain).1]
  decide

end Carriers

end BeanSynthesis
