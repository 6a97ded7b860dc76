import BeanSynthesis.Proofs.Carrying.Companions
import BeanSynthesis.Proofs.Edits.Gains
import BeanSynthesis.Proofs.Instantiation.Bodies
import BeanSynthesis.Proofs.Kinds

/-!
# What a run instantiates

All objects of generated classes that synthesized members create are made by `clone`, of its own
class and without arguments, and by the setters for carried values, which make a carrier out of a
value. In the model at the end a carrier has the constructor for that, but it may be abstract. A
class with `clone` is not abstract, but without the pass for carried values it may have declared
nothing but constructors with parameters.
-/

namespace BeanSynthesis

variable {settings : Settings} {context : PassContext} {options : List String} {m : CodeModel}
  {c d e : BeanClass} {pass : Pass} {x : Method} {n : Instantiation}

/-! ## Classes that can be instantiated -/

/-- Objects of the class can be created with arguments of these types. A class that declares no
constructor has one without parameters. -/
def BeanClass.CanCreate (c : BeanClass) (types : List (Option TypeExpr)) : Prop :=
  ¬c.isAbstract ∧ ¬c.isEnum ∧
    ((∃ k ∈ c.constructors, k.key.map some = types) ∨ c.constructors = [] ∧ types = [])

namespace BeanClass

private theorem canCreate_nil_iff : c.CanCreate [] ↔
    ¬c.isAbstract ∧ ¬c.isEnum ∧ (c.hasConstructor [] ∨ c.constructors = []) := by
  have hkey : (∃ k ∈ c.constructors, k.key.map some = []) ↔ c.hasConstructor [] := by
    simp [hasConstructor_iff]
  rw [CanCreate, hkey]
  simp

private theorem canCreate_singleton_iff {form : TypeExpr} : c.CanCreate [some form] ↔
    ¬c.isAbstract ∧ ¬c.isEnum ∧ c.hasConstructor [form] := by
  have hkey : (∃ k ∈ c.constructors, k.key.map some = [some form]) ↔ c.hasConstructor [form] := by
    rw [hasConstructor_iff, List.mem_map]
    refine exists_congr fun k => and_congr_right fun _ => ?_
    rw [show [some form] = [form].map some from rfl, List.map_inj_right fun _ _ => Option.some.inj]
  rw [CanCreate, hkey]
  simp

private theorem Grows.hasConstructor (h : c.Grows settings options d) {types : List TypeExpr}
    (hc : c.hasConstructor types) : d.hasConstructor types := by
  obtain ⟨added, hadded, -⟩ := h.constructors
  rw [hasConstructor_iff] at hc ⊢
  rw [hadded, List.map_append]
  exact List.mem_append_left _ hc

end BeanClass

/-! ## What passes offer -/

/-- What a pass instantiates in the members for a class, apart from helpers. -/
def Pass.Instantiates (pass : Pass) (context : PassContext) (m : CodeModel) (c : BeanClass)
    (n : Instantiation) : Prop :=
  match pass with
  | copying => ¬c.isAbstract ∧ n = ⟨c.asType, []⟩
  | valueAccessors => ∃ carrier type form,
      ValueAccessors.carried? (ValueAccessors.carriersOf m) carrier = some type ∧
        ValueAccessors.ValueForm context type form ∧ n = ⟨carrier, [some form]⟩
  | _ => False

/-- Only two kinds of methods instantiate more than helpers. -/
theorem Pass.offer_creates (hx : x ∈ (pass.offer context m c).methods)
    (hn : n ∈ x.creates c.asType) : n.IsHelper context.settings.runtime ∨
      x.origin = .synthesized pass.option ∧ pass.Instantiates context m c n := by
  cases Pass.makesMethod_of_mem hx with
  | equals =>
    rw [Method.creates_stamp, Equality.equalsMethod_creates] at hn
    cases hn
  | hashCode => exact .inl (Equality.hashCodeMethod_creates hn)
  | toString => exact .inl (Description.toStringMethod_creates hn)
  | cloneTo => exact .inl (Copying.cloneToMethod_creates hn)
  | clone =>
    rw [Method.creates_stamp] at hn
    exact .inr ⟨rfl, Copying.cloneMethod_creates hn⟩
  | listSetter => cases hn
  | listCompanion _ hcompanion =>
    rw [Method.creates_stamp, ListAccessors.companions_create hcompanion] at hn
    cases hn
  | listCount => cases hn
  | localGetter => cases hn
  | localSetter =>
    rw [Method.creates_stamp, LocalAccessors.setter_creates] at hn
    cases hn
  | valueSetter property _ _ hcarried hform =>
    rw [ValueAccessors.valueSetter_creates, List.mem_singleton] at hn
    exact .inr ⟨rfl, _, _, _, hcarried, ValueAccessors.mem_withCompanion_iff.mp hform, hn⟩
  | valueGetter =>
    rw [ValueAccessors.valueGetter_creates] at hn
    cases hn

/-- No constructor that a pass offers creates other objects. -/
theorem Pass.offer_constructors_create {k : Constructor} {self : TypeExpr}
    (hk : k ∈ (pass.offer context m c).constructors) : k.creates self = [] := by
  obtain ⟨-, rfl | ⟨form, rfl⟩⟩ := Pass.constructor_of_mem hk
  · rfl
  · rfl

/-! ## Constructors at the end of a run -/

section

variable {selected : List String} {passes : List Pass} {report : RunReport}

/-- The pass for carried values gives every class that is no enumeration a constructor without
parameters. -/
theorem EngineRun.hasConstructor_nil {report₀ : RunReport} (hm : m.WellFormed)
    (hpass : .valueAccessors ∈ passes)
    (hrun : (runPasses context m report₀ passes).outcome = .ok report) (hc : c ∈ m.classes)
    (hplain : ¬c.isEnum) (hd : d ∈ (runPasses context m report₀ passes).model.classes)
    (hname : d.name = c.name) : d.hasConstructor [] := by
  refine runPasses_gives .valueAccessors (fun _ c => ¬c.isEnum) (fun _ d => d.hasConstructor [])
    ?_ ?_ ?_ hm hpass hrun hc hd hname hplain
  · intro other m c d _ htreats hplain
    rwa [htreats.grows.isEnum_eq]
  · intro m c d htreats hplain
    obtain ⟨report, hrun⟩ := htreats.succeeds
    have hd := htreats.after
    rw [(Pass.run_performed hrun).model] at hd
    obtain ⟨e, he, rfl⟩ := List.mem_map.mp hd
    obtain rfl : e = c := htreats.wellFormed.eq_of_name he htreats.before htreats.grows.name
    have hoffered : Pass.editOf .valueAccessors context m e = ValueAccessors.edit context m e := by
      rw [Pass.editOf, if_neg (by simp [hplain])]
      rfl
    rw [hoffered]
    exact ClassEdit.hasConstructor_apply (k := ValueAccessors.defaultConstructor context.settings)
      List.mem_cons_self
  · exact fun htreats hconstructor => htreats.grows.hasConstructor hconstructor

/-- Without the pass for carried values all classes keep the constructors that they have. -/
theorem constructors_eq_of_not_mem (hplan : m.plan selected = .ok passes)
    (hok : (synthesize settings m selected).outcome = .ok report)
    (hpass : .valueAccessors ∉ passes) :
    List.Forall₂
      (fun c d => c.Grows settings (passes.map Pass.option) d ∧ d.constructors = c.constructors)
      m.classes (synthesize settings m selected).model.classes := by
  have hgains := synthesize_gains (K := fun _ _ => False) (M := fun _ _ => True) hplan hok
    fun pass hmem now c e _ => by
      refine ⟨fun k hk => ?_, fun _ _ => trivial⟩
      obtain ⟨rfl, -⟩ := Pass.constructor_of_mem hk
      exact hpass hmem
  refine hgains.imp fun c d ⟨hgrows, hgains⟩ => ⟨hgrows, ?_⟩
  obtain ⟨added, hadded, hnone⟩ := hgains.constructors
  rw [hadded, List.eq_nil_iff_forall_not_mem.mpr hnone, List.append_nil]

/-- At the end a class can be created without arguments, as far as its constructors go, unless the
pass for carried values takes no part and all those that it declares have parameters. -/
theorem constructs_nil_iff (hplan : m.plan selected = .ok passes)
    (hok : (synthesize settings m selected).outcome = .ok report) (hc : c ∈ m.classes)
    (hplain : ¬c.isEnum) (he : e ∈ (synthesize settings m selected).model.classes)
    (hname : e.name = c.name) : e.hasConstructor [] ∨ e.constructors = [] ↔
      .valueAccessors ∈ passes ∨ c.hasConstructor [] ∨ c.constructors = [] := by
  have hm := CodeModel.wellFormed_of_validate (CodeModel.validate_of_plan hplan)
  have hm' := (synthesize_grows settings m selected).wellFormed hm
  by_cases hpass : .valueAccessors ∈ passes
  · have hmodel : (synthesize settings m selected).model = _ := synthesize_model hplan
    rw [synthesize_outcome hplan] at hok
    rw [hmodel] at he
    simp [hpass, EngineRun.hasConstructor_nil hm hpass hok hc hplain he hname]
  · obtain ⟨d, hd, hgrows, hconstructors⟩ :=
      exists_of_forall₂ (constructors_eq_of_not_mem hplan hok hpass).flip hc
    obtain rfl := hm'.eq_of_name hd he (hgrows.name.trans hname.symm)
    simp [hpass, hconstructors, BeanClass.hasConstructor]

/-- A carrier for which the pass makes value setters has a constructor for the value at the end. -/
theorem Pass.Offers.carrier_hasConstructor {before now after : CodeModel}
    {carrier type form : TypeExpr} {args : List TypeExpr} (hbefore : before.WellFormed)
    (hafter : after.WellFormed)
    (h : Pass.valueAccessors.Offers context options before now after c d)
    (hcarried : ValueAccessors.carried? (ValueAccessors.carriersOf now) carrier = some type)
    (hform : ValueAccessors.ValueForm context type form) (he : e ∈ after.classes)
    (hname : carrier = .named e.name args) :
    ValueAccessors.NamesCarrier before (ValueAccessors.found before) carrier type ∧ ¬e.isEnum ∧
      e.hasConstructor [form] := by
  obtain ⟨found, hfound⟩ := failure?_eq_none.mp (ValueAccessors.succeeds_ofModel before)
  rw [← ValueAccessors.found_eq_of_ok hfound] at hfound
  rw [ValueAccessors.carriersOf_eq h.grown] at hcarried
  have hcarrier := (ValueAccessors.carried?_eq_some_iff hbefore hfound).mp hcarried
  obtain ⟨first, hfirst, hplain, ⟨others, hothers⟩, htype⟩ := id hcarrier
  obtain ⟨grown, hgrown, hfirst'⟩ := h.grown.exists_of_mem_before hfirst
  have hplain' : ¬grown.isEnum := by rwa [hfirst'.isEnum_eq]
  have hmade : (Pass.valueAccessors.editOf context now grown).apply grown ∈
      (Pass.valueAccessors.edited context now).classes := List.mem_map_of_mem hgrown
  have hconstructor : ((Pass.valueAccessors.editOf context now grown).apply grown).hasConstructor
      [form] := by
    have hoffered : Pass.editOf .valueAccessors context now grown =
        ValueAccessors.edit context now grown := by
      rw [Pass.editOf, if_neg (by simp [hplain'])]
      rfl
    have hcarries : ValueAccessors.carriedBy? now grown = some type := by
      rw [ValueAccessors.carriedBy?_eq h.grown hfirst']
      exact htype
    rw [hoffered]
    refine ClassEdit.hasConstructor_apply
      (k := ValueAccessors.valueConstructor context.settings form) (.tail _ ?_)
    rw [hcarries]
    exact List.mem_map_of_mem (ValueAccessors.mem_withCompanion_iff.mpr hform)
  obtain ⟨last, hlast, hgrows⟩ := h.grows.exists_of_mem_before hmade
  have hsame : last.name = e.name := by
    rw [hgrows.name, ClassEdit.apply_name, hfirst'.name]
    exact (TypeExpr.named.inj (hothers.symm.trans hname)).1
  obtain rfl := hafter.eq_of_name hlast he hsame
  refine ⟨hcarrier, ?_, hgrows.hasConstructor hconstructor⟩
  rwa [hgrows.isEnum_eq, ClassEdit.apply_isEnum]

/-! ## What the members of a run instantiate -/

/-- `clone` creates an object of the class itself without arguments. It can do so if and only if
the pass for carried values takes part, or the class has a constructor without parameters or none
at all. -/
def Copying.CreatesOwn (passes : List Pass) (c e : BeanClass) (n : Instantiation) : Prop :=
  e.name = c.name ∧ n.types = [] ∧
    (e.CanCreate n.types ↔
      .valueAccessors ∈ passes ∨ c.hasConstructor [] ∨ c.constructors = [])

/-- A setter for a carried value creates the carrier out of a value in one of its forms. It can do
so if and only if the carrier is not abstract. -/
def ValueAccessors.CreatesCarrier (context : PassContext) (m : CodeModel) (e : BeanClass)
    (n : Instantiation) : Prop :=
  (∃ type form, NamesCarrier m (found m) n.type type ∧ ValueForm context type form ∧
    n.types = [some form]) ∧ (e.CanCreate n.types ↔ ¬e.isAbstract)

/-- Apart from helpers, the members that a successful run adds instantiate generated classes in two
places. `clone` creates an object of its own class, which is possible unless the class declares
only constructors with parameters and gets no other. A setter for a carried value creates the
carrier, which is possible unless the carrier is abstract. -/
theorem synthesize_creates (hplan : m.plan selected = .ok passes)
    (hok : (synthesize settings m selected).outcome = .ok report) :
    List.Forall₂ (fun c d => c.Gains (fun k => k.creates d.asType = [])
      (fun x => ∀ n ∈ x.creates d.asType, ∀ e ∈ (synthesize settings m selected).model.classes,
        n.Names e.name → n.IsHelper settings.runtime ∨
          x.origin = .synthesized Copying.option ∧ Copying.CreatesOwn passes c e n ∨
          x.origin = .synthesized ValueAccessors.option ∧ ValueAccessors.CreatesCarrier
            { settings, active := passes.map Pass.option } m e n) d)
      m.classes (synthesize settings m selected).model.classes := by
  have hm := CodeModel.wellFormed_of_validate (CodeModel.validate_of_plan hplan)
  have hm' := (synthesize_grows settings m selected).wellFormed hm
  have hgains := synthesize_gains (K := fun c k => k.creates c.asType = [])
    (M := fun c x => ∀ n ∈ x.creates c.asType,
      ∀ e ∈ (synthesize settings m selected).model.classes, n.Names e.name →
        n.IsHelper settings.runtime ∨
          x.origin = .synthesized Copying.option ∧ Copying.CreatesOwn passes c e n ∨
          x.origin = .synthesized ValueAccessors.option ∧ ValueAccessors.CreatesCarrier
            { settings, active := passes.map Pass.option } m e n)
    hplan hok fun pass _ now c first hoffers => by
      refine ⟨fun k hk => Pass.offer_constructors_create hk, ?_⟩
      rintro x hx n hn e he ⟨args, hnames⟩
      rw [← hoffers.grownClass.asType_eq] at hn
      rcases Pass.offer_creates hx hn with hhelper | ⟨horigin, hcreates⟩
      · exact .inl hhelper
      right
      cases pass with
      | copying =>
        left
        obtain ⟨hconcrete, rfl⟩ := hcreates
        have hname : e.name = c.name :=
          (TypeExpr.named.inj hnames).1.symm.trans hoffers.grownClass.name
        have hplain : ¬c.isEnum := by
          rw [← hoffers.grownClass.isEnum_eq]
          exact hoffers.plain
        obtain ⟨last, hlast, hgrows⟩ :=
          (synthesize_grows settings m selected).exists_of_mem_before hoffers.declared
        obtain rfl := hm'.eq_of_name hlast he (hgrows.name.trans hname.symm)
        refine ⟨horigin, hname, rfl, ?_⟩
        rw [BeanClass.canCreate_nil_iff,
          constructs_nil_iff hplan hok hoffers.declared hplain he hname, hgrows.isEnum_eq,
          hgrows.isAbstract, ← hoffers.grownClass.isAbstract]
        simp [hconcrete, hplain]
      | valueAccessors =>
        right
        obtain ⟨carrier, type, form, hcarried, hform, rfl⟩ := hcreates
        obtain ⟨hcarrier, hplain, hconstructor⟩ :=
          hoffers.carrier_hasConstructor hm hm' hcarried hform he hnames
        refine ⟨horigin, ⟨type, form, hcarrier, hform, rfl⟩, ?_⟩
        rw [BeanClass.canCreate_singleton_iff]
        simp [hplain, hconstructor]
      | _ => cases hcreates
  refine hgains.imp fun c d ⟨hgrows, hgains⟩ => ?_
  rwa [hgrows.asType_eq]

end

/-- An abstract class that carries a number. -/
def abstractAmount : BeanClass :=
  { name := "shop.Amount"
    isAbstract := true
    fields := [{ name := "value", type := .ofName "java.math.BigDecimal" }] }

/-- A class with a setter for such objects. -/
def amountInvoice : BeanClass :=
  { name := "shop.Invoice"
    methods := [{
      name := "setAmount"
      returnType := .void
      params := [.final "value" (.ofName "shop.Amount")] }] }

/-- The setter for the number creates an object of the abstract class. -/
theorem amountInvoice_creates_abstract :
    let m : CodeModel := { classes := [abstractAmount, amountInvoice] }
    let run := synthesize {} m [ValueAccessors.option]
    m.plan [ValueAccessors.option] = .ok [.valueAccessors] ∧ (∃ report, run.outcome = .ok report) ∧
      ∃ d ∈ run.model.classes, d.name = "shop.Invoice" ∧ ∃ x ∈ d.methods,
        x.origin = .synthesized ValueAccessors.option ∧ ∃ n ∈ x.creates d.asType,
          ∃ e ∈ run.model.classes, n.Names e.name ∧ e.name = "shop.Amount" ∧
            ¬e.CanCreate n.types := by
  intro m run
  have hplan : m.plan [ValueAccessors.option] = .ok [.valueAccessors] :=
    CodeModel.plan_map_option rfl [.valueAccessors]
  have hok : ∃ report, run.outcome = .ok report := ⟨_, rfl⟩
  obtain ⟨report, hreport⟩ := hok
  have hschema : ∀ c ∈ m.classes, ∀ x ∈ c.methods, x.origin = .schema := by decide
  obtain ⟨d, hd, hname, x, hx, horigin, n, hn, hnames, e, he, hnamed, habstract⟩ :
      ∃ d ∈ run.model.classes, d.name = "shop.Invoice" ∧ ∃ x ∈ d.methods,
        x.origin = .synthesized ValueAccessors.option ∧ ∃ n ∈ x.creates d.asType,
          n.type = .ofName "shop.Amount" ∧ ∃ e ∈ run.model.classes,
            e.name = "shop.Amount" ∧ e.isAbstract := by
    decide +kernel
  have hnames' : n.Names e.name := ⟨[], hnames.trans (hnamed ▸ rfl)⟩
  refine ⟨hplan, ⟨report, hreport⟩, d, hd, hname, x, hx, horigin, n, hn, e, he, hnames', hnamed, ?_⟩
  obtain ⟨c, hc, hgains⟩ := exists_of_forall₂ (synthesize_creates hplan hreport) hd
  obtain ⟨added, hadded, hall⟩ := hgains.methods
  have hnew : x ∈ added := by
    rw [hadded] at hx
    refine (List.mem_append.mp hx).resolve_left fun hold => ?_
    have hother := horigin.symm.trans (hschema c hc x hold)
    cases hother
  rcases hall x hnew n hn e he hnames' with hhelper | ⟨hclone, -⟩ | ⟨-, -, hiff⟩
  · obtain ⟨name, hhelper, args, htype⟩ := hhelper
    obtain rfl : name = "shop.Amount" := (TypeExpr.named.inj (htype.symm.trans hnames)).1
    exact absurd hhelper (by decide)
  · rw [horigin] at hclone
    exact absurd hclone (by decide)
  · rw [hiff]
    exact not_not.mpr habstract

end BeanSynthesis
