import BeanSynthesis.Proofs.Equality.Made
import BeanSynthesis.Proofs.Equality.Helpers

/-!
# The contract of `equals` and `hashCode`

What the pass makes obeys the contract that Java has for the two methods, over hierarchies of any
depth: two objects are equal if they have the same class and related fields all the way up, equal
objects have equal hash codes, and being equal is an equivalence.
-/

namespace BeanSynthesis

/-- The call `x.equals(y)` ends, gives this, and has no effects. -/
def Program.EqualsGives (p : Program) (h : Heap) (x y : Value) (b : Bool) : Prop :=
  p.Yields (fun calls => p.send calls x "equals" [.ofName objectClass]
    [⟨y, some (.ofName objectClass)⟩] h) (⟨.bool b, some (.primitive .boolean)⟩, h)

/-- The call `x.hashCode()` ends, gives this, and has no effects. -/
def Program.HashCodeGives (p : Program) (h : Heap) (x : Value) (i : Int) : Prop :=
  p.Yields (fun calls => p.send calls x "hashCode" [] [] h) (⟨.int i, some (.primitive .int)⟩, h)

/-- What `equals` gives does not hang on how deep calls may go. -/
theorem Program.EqualsGives.unique {p : Program} {h : Heap} {x y : Value} {b b' : Bool}
    (hb : p.EqualsGives h x y b) (hb' : p.EqualsGives h x y b') : b = b' := by
  simpa using Yields.unique hb hb'

namespace Equality

/-- A class for which the pass is responsible: no enumeration, with neither method before, and with
no field that a local variable of `equals` would hide. -/
structure Eligible (c : BeanClass) : Prop where
  plain : ¬c.isEnum
  noEquals : c.hasMethod "equals" [.ofName objectClass] = false
  noHashCode : c.hasMethod "hashCode" [] = false
  free : c.FreeOf ["o", "rhs"]

/-- An object of a class in a hierarchy of eligible classes. -/
def EligibleAt (m : CodeModel) (h : Heap) (x : Value) (c : BeanClass) : Prop :=
  m.Rooted Eligible c ∧ ∃ slots, h.object? x = some (c.name, slots)

/-- The contract of the two methods, for the objects of eligible classes. -/
structure Contract (p : Program) (runtime : RuntimeClasses) (m : CodeModel) (h : Heap) : Prop where
  /-- Two objects are equal if they have the same class, and the values of every field of every
  class in their line are related. -/
  equals : ∀ x y c d, EligibleAt m h x c → EligibleAt m h y d →
    ∃ b, p.EqualsGives h x y b ∧
      (b = true ↔ c = d ∧ ∀ e ∈ m.line c, FieldsRelated p runtime h x y e)
  equals_null : ∀ x c, EligibleAt m h x c → p.EqualsGives h x .null false
  equals_self : ∀ x c, EligibleAt m h x c → p.EqualsGives h x x true
  equals_symm : ∀ x y c d, EligibleAt m h x c → EligibleAt m h y d →
    p.EqualsGives h x y true → p.EqualsGives h y x true
  equals_trans : ∀ x y z c d e, EligibleAt m h x c → EligibleAt m h y d → EligibleAt m h z e →
    p.EqualsGives h x y true → p.EqualsGives h y z true → p.EqualsGives h x z true
  hashCode : ∀ x c, EligibleAt m h x c → ∃ i, p.HashCodeGives h x i
  hashCode_eq : ∀ x y c d, EligibleAt m h x c → EligibleAt m h y d →
    p.EqualsGives h x y true → ∃ i, p.HashCodeGives h x i ∧ p.HashCodeGives h y i

variable {settings : Settings} {options : List String} {m : CodeModel} {p : Program} {h : Heap}
  {context : PassContext} {report : PassReport} {c d : BeanClass} {x y : Value}

private theorem forall_fieldsRelated_iff {runtime : RuntimeClasses} {before after : List BeanClass}
    (hgrows : List.Forall₂ (BeanClass.Grows settings options) before after) :
    (∀ e ∈ after, FieldsRelated p runtime h x y e) ↔
      ∀ e ∈ before, FieldsRelated p runtime h x y e := by
  induction hgrows with
  | nil => simp
  | cons hcd _ ih =>
    rw [List.forall_mem_cons, List.forall_mem_cons, fieldsRelated_iff_of_grows hcd]
    exact and_congr Iff.rfl ih

/-- The hierarchy of an eligible class after the pass, in a model that may have grown further. -/
theorem rooted_of_run (hvalid : m.validate = .ok ())
    (hrun : (run context m).outcome = .ok report)
    (hgrown : (run context m).model.Grows context.settings options p.model)
    (hc : m.Rooted Eligible c) :
    ∃ d ∈ p.model.classes, d.name = c.name ∧
      p.model.Rooted (Comparable context.settings p.model) d ∧
      p.model.Rooted (HasHashCode context.settings p.model) d ∧
      ∀ runtime h x y, (∀ e ∈ p.model.line d, FieldsRelated p runtime h x y e) ↔
        ∀ e ∈ m.line c, FieldsRelated p runtime h x y e := by
  have hm := CodeModel.wellFormed_of_validate hvalid
  have hpass := run_grows context m
  obtain ⟨c', hc', hcc'⟩ := hpass.exists_of_mem_before hc.mem
  obtain ⟨d, hd, hcd⟩ := hgrown.exists_of_mem_before hc'
  have hequals : (run context m).model.Rooted
      (fun d => HasEquals context.settings (run context m).model d ∧ d.FreeOf ["o", "rhs"]) c' :=
    hpass.rooted (fun c d hc hd hcd hel =>
      ⟨hasEquals_of_run hm hrun hc hd hcd hel.plain hel.noEquals, hcd.freeOf hel.free⟩) hc hc'
      hcc'
  have hhash :
      (run context m).model.Rooted (HasHashCode context.settings (run context m).model) c' :=
    hpass.rooted (fun c d hc hd hcd hel =>
      hasHashCode_of_run hm hrun hc hd hcd hel.plain hel.noHashCode) hc hc' hcc'
  refine ⟨d, hd, hcd.name.trans hcc'.name, ?_, ?_, fun runtime h x y => ?_⟩
  · exact hgrown.rooted (fun c d _ _ hcd hP => ⟨hP.1.of_grows hgrown hcd, hcd.freeOf hP.2⟩) hequals
      hd hcd
  · exact hgrown.rooted (fun c d _ _ hcd hP => hP.of_grows hgrown hcd) hhash hd hcd
  · rw [forall_fieldsRelated_iff (hgrown.line_rel (hpass.wellFormed hm) hhash hd hcd),
      forall_fieldsRelated_iff (hpass.line_rel hm hc hc' hcc')]

/-- What `equals` gives for an object of a hierarchy with the method of the pass. -/
theorem equalsGives (hm : p.model.WellFormed) (hp : p.ComparesLawfully settings.runtime h)
    (hc : p.model.Rooted (Comparable settings p.model) c) {slots : Slots}
    (hx : h.object? x = some (c.name, slots)) (hy : h.IsObjectOrNull y) :
    ∃ b, p.EqualsGives h x y b ∧
      (b = true ↔ EqualFrom p settings.runtime h c x y (p.model.line c)) := by
  obtain ⟨b, hyields, hb⟩ := yields_equals hm hp hc hc.mem (fun _ he => he) hx hy
    (some (.ofName objectClass))
  refine ⟨b, ?_, hb⟩
  unfold Program.EqualsGives
  simpa only [Program.send_of_object _ hx, hm.lineNamed_name hc.mem] using hyields

private theorem hashCodeGives (hm : p.model.WellFormed) (hp : p.ComparesLawfully settings.runtime h)
    (hh : p.HashesLawfully settings.runtime h)
    (hc : p.model.Rooted (HasHashCode settings p.model) c) {slots slots' : Slots}
    (hx : h.object? x = some (c.name, slots)) (hy : h.object? y = some (c.name, slots'))
    (hrelated : ∀ e ∈ p.model.line c, FieldsRelated p settings.runtime h x y e) :
    ∃ i, p.HashCodeGives h x i ∧ p.HashCodeGives h y i := by
  obtain ⟨i, hi, hi'⟩ := yields_hashCode hm hp hh hc hx hy hrelated
  refine ⟨i, ?_, ?_⟩
  · unfold Program.HashCodeGives
    simpa only [Program.send_of_object _ hx, hm.lineNamed_name hc.mem] using hi
  · unfold Program.HashCodeGives
    simpa only [Program.send_of_object _ hy, hm.lineNamed_name hc.mem] using hi'

private theorem wellFormed_of_run (hvalid : m.validate = .ok ())
    (hgrown : (run context m).model.Grows context.settings options p.model) :
    p.model.WellFormed :=
  hgrown.wellFormed ((run_grows context m).wellFormed (CodeModel.wellFormed_of_validate hvalid))

section

variable (hvalid : m.validate = .ok ()) (hrun : (run context m).outcome = .ok report)
  (hgrown : (run context m).model.Grows context.settings options p.model)
  (hp : p.ComparesLawfully context.settings.runtime h)
include hvalid hrun hgrown hp

/-- Whether two objects of eligible classes are equal. -/
theorem equalsGives_of_run (hx : EligibleAt m h x c) (hy : EligibleAt m h y d) :
    ∃ b, p.EqualsGives h x y b ∧
      (b = true ↔ c = d ∧ ∀ e ∈ m.line c, FieldsRelated p context.settings.runtime h x y e) := by
  have hm := CodeModel.wellFormed_of_validate hvalid
  obtain ⟨hc, slots, hx⟩ := hx
  obtain ⟨hd, slots', hy⟩ := hy
  obtain ⟨c', hc', hname, hcomparable, -, hline⟩ := rooted_of_run hvalid hrun hgrown hc
  obtain ⟨b, hb, hiff⟩ := equalsGives (wellFormed_of_run hvalid hgrown) hp hcomparable
    (hname ▸ hx) (.inr ⟨_, _, hy⟩)
  refine ⟨b, hb, ?_⟩
  have hclass : p.className? h y = some c'.name ↔ c = d := by
    rw [Program.className?_of_object hy, Option.some.injEq, hname]
    exact ⟨fun heq => (hm.eq_of_name hd.mem hc.mem heq).symm, fun heq => heq ▸ rfl⟩
  rw [hiff, EqualFrom, hclass, hline]

private theorem equalsGives_true_iff (hx : EligibleAt m h x c) (hy : EligibleAt m h y d) :
    p.EqualsGives h x y true ↔
      c = d ∧ ∀ e ∈ m.line c, FieldsRelated p context.settings.runtime h x y e := by
  obtain ⟨b, hb, hiff⟩ := equalsGives_of_run hvalid hrun hgrown hp hx hy
  rw [← hiff]
  exact ⟨fun htrue => hb.unique htrue, fun htrue => htrue ▸ hb⟩

/-- What the pass makes obeys the contract, also in a model that has grown further since. -/
theorem contract_of_run (hh : p.HashesLawfully context.settings.runtime h) :
    Contract p context.settings.runtime m h := by
  have hiff := fun {x y c d} => equalsGives_true_iff (x := x) (y := y) (c := c) (d := d) hvalid
    hrun hgrown hp
  have hwell := wellFormed_of_run hvalid hgrown
  have hhash : ∀ x y c d, EligibleAt m h x c → EligibleAt m h y d → p.EqualsGives h x y true →
      ∃ i, p.HashCodeGives h x i ∧ p.HashCodeGives h y i := by
    intro x y c d hx hy hequal
    obtain ⟨rfl, hrelated⟩ := (hiff hx hy).mp hequal
    obtain ⟨hc, slots, hx⟩ := hx
    obtain ⟨-, slots', hy⟩ := hy
    obtain ⟨c', -, hname, -, hrooted, hline⟩ := rooted_of_run hvalid hrun hgrown hc
    exact hashCodeGives hwell hp hh hrooted (hname ▸ hx) (hname ▸ hy) ((hline _ _ _ _).mpr hrelated)
  have hself : ∀ x c, EligibleAt m h x c → p.EqualsGives h x x true := fun x c hx =>
    (hiff hx hx).mpr ⟨rfl, fun _ _ _ _ _ => hp.related_refl _⟩
  exact {
    equals := fun x y c d => equalsGives_of_run hvalid hrun hgrown hp
    equals_null := fun x c ⟨hc, slots, hx⟩ => by
      obtain ⟨c', -, hname, hcomparable, -, -⟩ := rooted_of_run hvalid hrun hgrown hc
      obtain ⟨b, hb, hfalse⟩ := equalsGives hwell hp hcomparable (hname ▸ hx) (.inl rfl)
      have hne : ¬b = true := fun htrue => by
        have hclass := (hfalse.mp htrue).1
        simp [Program.className?, Value.platformClass?] at hclass
      rwa [Bool.eq_false_iff.mpr hne] at hb
    equals_self := hself
    equals_symm := fun x y c d hx hy hequal => by
      obtain ⟨rfl, hrelated⟩ := (hiff hx hy).mp hequal
      exact (hiff hy hx).mpr ⟨rfl, fun e he f hf hstatic =>
        hp.related_symm (hrelated e he f hf hstatic)⟩
    equals_trans := fun x y z c d e hx hy hz hxy hyz => by
      obtain ⟨rfl, hrelated⟩ := (hiff hx hy).mp hxy
      obtain ⟨rfl, hrelated'⟩ := (hiff hy hz).mp hyz
      exact (hiff hx hz).mpr ⟨rfl, fun e he f hf hstatic =>
        hp.related_trans (hrelated e he f hf hstatic) (hrelated' e he f hf hstatic)⟩
    hashCode := fun x c hx => by
      obtain ⟨i, hi, -⟩ := hhash x x c c hx hx (hself x c hx)
      exact ⟨i, hi⟩
    hashCode_eq := hhash }

end

/-! ## A model of orders -/

/-- A class of things with a label. -/
def labelled : BeanClass where
  name := "shop.Labelled"
  fields := [{ name := "label", type := .ofName "java.lang.String" }]
  properties := [{ name := "label", publicName := "Label", kind := .attr true none }]

/-- A class of orders, which are lists of things with a label. -/
def order : BeanClass where
  name := "shop.Order"
  parent := some (.ofName "shop.Labelled")
  fields := [{ name := "items", type := .listOf (.ofName "shop.Labelled") },
    { name := "seal", type := .array (.primitive .byte) }]
  properties := [{ name := "items", publicName := "Items", kind := .attr true none },
    { name := "seal", publicName := "Seal", kind := .attr false none }]
  methods := [{
    name := "getItems"
    returnType := .listOf (.ofName "shop.Labelled")
    body := some [.give (.ident "items")] }]

/-- A model of orders. -/
def orders : CodeModel where
  classes := [labelled, order]

/-- An order of one thing. -/
def orderHeap : Heap := [
  .object "shop.Labelled" [(("shop.Labelled", "label"), .text "pen")],
  .list [.ref 0],
  .array [.int 1, .int 2],
  .object "shop.Order" [(("shop.Labelled", "label"), .text "monday"),
    (("shop.Order", "items"), .ref 1), (("shop.Order", "seal"), .ref 2)]]

/-- Orders keep the contract of equality, after a run of the pass over a nested order. -/
theorem contract_orders :
    orders.validate = .ok () ∧ ∃ report, (run ⟨{}, []⟩ orders).outcome = .ok report ∧
      EligibleAt orders orderHeap (.ref 3) order ∧
      Contract ⟨(run ⟨{}, []⟩ orders).model, .byOutline fun _ _ => false⟩ {} orders orderHeap := by
  let p : Program := ⟨(run ⟨{}, []⟩ orders).model, .byOutline fun _ _ => false⟩
  have hvalid : orders.validate = .ok () := rfl
  have hgrown : (run ⟨{}, []⟩ orders).model.Grows {} [] p.model := .refl _
  have hhash : p.HashesLawfully {} orderHeap := Outside.byOutline_hashes rfl (by decide)
  have hrooted : orders.Rooted Eligible order :=
    .derived (by simp [orders]) ⟨by decide, rfl, rfl, by decide⟩ rfl
      (.root (by simp [orders]) ⟨by decide, rfl, rfl, by decide⟩ rfl)
  obtain ⟨report, hrun⟩ : ∃ report, (run ⟨{}, []⟩ orders).outcome = .ok report := ⟨_, rfl⟩
  exact ⟨hvalid, report, hrun, ⟨hrooted, _, rfl⟩,
    contract_of_run hvalid hrun hgrown Outside.byOutline_compares hhash⟩

end Equality

end BeanSynthesis
