import BeanSynthesis.Proofs.Edits.Gains
import BeanSynthesis.Proofs.Kinds
import BeanSynthesis.Proofs.Scoping.WellScoped

/-!
# All that a run adds is well scoped

Every pass offers well-scoped members to a class, and a class keeps its type and the names of its
fields as it grows. So all members that a run adds to a class are well scoped in the class as it is
at the end, whichever passes take part.
-/

namespace BeanSynthesis

variable {settings : Settings} {options : List String} {m : CodeModel} {c d : BeanClass}
  {x : Method} {f : InstanceField} {statics : List (ClassRef × String)}

/-! ## The fields of a class -/

private theorem BeanClass.exists_instanceFields (hf : f ∈ c.instances) :
    ∃ fields, c.instanceFields.outcome = .ok fields ∧ f ∈ fields := by
  unfold instances Step.getD at hf
  cases hfields : c.instanceFields.outcome with
  | error e => simp [hfields] at hf
  | ok fields => exact ⟨fields, rfl, by rwa [hfields] at hf⟩

private theorem BeanClass.name_mem_ownFields (hf : f ∈ c.instances) :
    f.name ∈ (c.ownFields statics).instances := by
  obtain ⟨fields, hfields, hf⟩ := exists_instanceFields hf
  refine (forall_instanceFields (P := fun name _ => name ∈ (c.ownFields statics).instances)
    hfields).mpr ?_ f hf
  intro g hg hstatic
  exact List.mem_map.mpr ⟨g, List.mem_filter.mpr ⟨hg, by simp [hstatic]⟩, rfl⟩

private theorem BeanClass.accessor_ne_empty
    (hnamed : ∀ property ∈ c.properties, property.publicName ≠ "")
    (hf : f ∈ c.instances) : f.accessor ≠ "" := by
  obtain ⟨fields, hfields, hf⟩ := exists_instanceFields hf
  exact Copying.accessor_ne_empty_of_mem hfields hf hnamed

/-- A class keeps its type and the names of its fields. -/
theorem BeanClass.Grows.ownFields_eq (h : c.Grows settings options d)
    (statics : List (ClassRef × String)) : d.ownFields statics = c.ownFields statics := by
  rw [ownFields, h.asType_eq, h.instanceNames_eq, ownFields]

/-! ## What passes offer -/

/-- The static field of the platform for the offset of UTC. -/
def utcField : ClassRef × String := (.ofName "java.time.ZoneOffset", "UTC")

/-- The setter of the local view of a field whose values are made at the offset of UTC. -/
def LocalAccessors.IsUtcSetter (settings : Settings) (c : BeanClass) (x : Method) : Prop :=
  ∃ f ∈ c.instances, ∃ companion, localCompanion? f.type = some companion ∧ companion.usesUtc ∧
    x = (setter settings f companion).stamp settings option

/-- A well-scoped method. It touches no static field, but for that of a setter of a local view. -/
def BeanClass.Scopes (settings : Settings) (c : BeanClass) (x : Method) : Prop :=
  x.WellScoped c.ownFields ∨
    LocalAccessors.IsUtcSetter settings c x ∧ x.WellScoped (c.ownFields [utcField])

/-- All constructors that a pass offers are well scoped, as they touch no fields. -/
theorem Pass.offer_constructors_wellScoped {pass : Pass} {context : PassContext} {k : Constructor}
    {own : OwnFields} (hk : k ∈ (pass.offer context m c).constructors) : k.WellScoped own := by
  obtain ⟨-, rfl | ⟨form, rfl⟩⟩ := Pass.constructor_of_mem hk
  · trivial
  · exact ValueAccessors.valueConstructor_wellScoped form

/-- All methods that a pass offers to a class are well scoped in it. -/
theorem Pass.offer_scopes {pass : Pass} {context : PassContext}
    (hnamed : ∀ property ∈ c.properties, property.publicName ≠ "")
    (hx : x ∈ (pass.offer context m c).methods) : c.Scopes context.settings x := by
  have hfields : ∀ f ∈ c.instances, f.name ∈ c.ownFields.instances := fun f hf =>
    c.name_mem_ownFields hf
  cases Pass.makesMethod_of_mem hx with
  | equals => exact .inl (Equality.equalsMethod_wellScoped rfl hfields _)
  | hashCode => exact .inl (Equality.hashCodeMethod_wellScoped hfields _)
  | toString => exact .inl (Description.toStringMethod_wellScoped hfields _)
  | cloneTo =>
    exact .inl (Copying.cloneToMethod_wellScoped rfl hfields
      (fun f hf => c.accessor_ne_empty hnamed hf) _)
  | clone => exact .inl (Method.wellScoped_stamp.mpr Copying.cloneMethod_wellScoped)
  | listSetter hf => exact .inl (ListAccessors.setter_wellScoped (hfields _ hf))
  | listCompanion _ hcompanion =>
    exact .inl (Method.wellScoped_stamp.mpr (ListAccessors.companions_wellScoped hcompanion))
  | listCount =>
    exact .inl (Method.wellScoped_stamp.mpr (ListAccessors.count_wellScoped _ _))
  | localGetter hf =>
    exact .inl (Method.wellScoped_stamp.mpr (LocalAccessors.getter_wellScoped (hfields _ hf) _))
  | @localSetter f companion hf hcompanion =>
    by_cases hutc : companion.usesUtc
    · exact .inr ⟨⟨f, hf, companion, hcompanion, hutc, rfl⟩,
        LocalAccessors.setter_wellScoped (c.name_mem_ownFields hf) fun _ => List.mem_cons_self⟩
    · exact .inl (LocalAccessors.setter_wellScoped (hfields f hf) fun h => absurd h hutc)
  | valueSetter => exact .inl (ValueAccessors.valueSetter_wellScoped _ _ _ _)
  | valueGetter => exact .inl (ValueAccessors.valueGetter_wellScoped _ _ _ _ _)

/-! ## Runs -/

private theorem BeanClass.Grows.scopes_iff (h : c.Grows settings options d) :
    d.Scopes settings x ↔ c.Scopes settings x := by
  unfold Scopes LocalAccessors.IsUtcSetter
  rw [h.ownFields_eq, h.ownFields_eq, h.instances_eq]

/-- Where all properties have names, a run adds well-scoped members to every class, in which it
touches the fields of no other class, but for the offset of UTC in setters of local views. -/
theorem synthesize_scopes {selected : List String} {report : RunReport}
    (hnamed : ∀ c ∈ m.classes, ∀ property ∈ c.properties, property.publicName ≠ "")
    (hok : (synthesize settings m selected).outcome = .ok report) :
    List.Forall₂ (fun c d => c.Gains (·.WellScoped d.ownFields) (d.Scopes settings) d)
      m.classes (synthesize settings m selected).model.classes := by
  obtain ⟨passes, hplan⟩ := exists_plan_of_ok hok
  have hgains := synthesize_gains (K := fun c k => k.WellScoped c.ownFields)
    (M := fun c => c.Scopes settings) hplan hok fun pass _ now c e hoffers => by
      have hgrown := hoffers.grownClass
      have hnamed' : ∀ property ∈ e.properties, property.publicName ≠ "" := by
        rw [hgrown.properties]
        exact hnamed c hoffers.declared
      exact ⟨fun k hk => Pass.offer_constructors_wellScoped hk,
        fun x hx => hgrown.scopes_iff.mp (Pass.offer_scopes hnamed' hx)⟩
  refine hgains.imp fun c d ⟨hgrows, hgains⟩ => hgains.imp ?_ ?_
  · intro k hk
    rwa [hgrows.ownFields_eq]
  · exact fun x hx => hgrows.scopes_iff.mpr hx

/-- A class with a list. -/
def listedOrder : BeanClass :=
  { name := "shop.Order"
    fields := [{ name := "items", type := .listOf (.ofName "shop.Item") }]
    properties := [{ name := "items", publicName := "Items", kind := .attr false none }] }

/-- The copy of a list is well scoped in a class whose fields are private. -/
theorem listedOrder_scopes :
    let m : CodeModel := { classes := [listedOrder, { name := "shop.Item" }] }
    let run := synthesize {} m [PrivateFields.option, Copying.option]
    (∀ c ∈ m.classes, ∀ property ∈ c.properties, property.publicName ≠ "") ∧
      (∃ report, run.outcome = .ok report) ∧
      ∃ d ∈ run.model.classes, d.name = "shop.Order" ∧
        (∀ f ∈ d.fields, f.visibility = .priv) ∧
        ∃ x ∈ d.methods, x.name = "cloneTo" ∧ d.Scopes {} x := by
  intro m run
  have hnamed : ∀ c ∈ m.classes, ∀ property ∈ c.properties, property.publicName ≠ "" := by
    decide +kernel
  have hok : ∃ report, run.outcome = .ok report := ⟨_, rfl⟩
  obtain ⟨report, hreport⟩ := hok
  have hscopes := synthesize_scopes hnamed hreport
  obtain ⟨d, others, hclasses, hname, hprivate, x, rest, hmethods, hx⟩ :
      ∃ d others, run.model.classes = d :: others ∧ d.name = "shop.Order" ∧
        (∀ f ∈ d.fields, f.visibility = .priv) ∧
          ∃ x rest, d.methods = x :: rest ∧ x.name = "cloneTo" :=
    ⟨_, _, rfl, rfl, by decide +kernel, _, _, rfl, rfl⟩
  change List.Forall₂ _ _ run.model.classes at hscopes
  rw [hclasses] at hscopes ⊢
  obtain ⟨added, hadded, hall⟩ := (List.forall₂_cons.mp hscopes).1.methods
  have hmem : x ∈ added := by
    have hnone : added = x :: rest := hadded.symm.trans hmethods
    exact hnone ▸ List.mem_cons_self
  exact ⟨hnamed, ⟨report, hreport⟩, d, List.mem_cons_self, hname, hprivate, x,
    hmethods ▸ List.mem_cons_self, hx, hall x hmem⟩

/-- The offset of UTC, where the class that declares it is one of the model. -/
def zoneOffset : BeanClass :=
  { name := "java.time.ZoneOffset"
    fields := [{ name := "UTC", type := .ofName "java.time.ZoneOffset", isStatic := true }] }

/-- A class with a date, a time and an offset. -/
def meeting : BeanClass :=
  { name := "shop.Meeting"
    fields := [{ name := "start", type := .ofName "java.time.OffsetDateTime" }]
    properties := [{ name := "start", publicName := "Start", kind := .attr false none }] }

/-- A setter of a local view touches a static field of another class, and a private one at that. -/
theorem meeting_touches_utc :
    let m : CodeModel := { classes := [zoneOffset, meeting] }
    let run := synthesize {} m [LocalAccessors.option, PrivateFields.option]
    m.validate = .ok () ∧ (∀ c ∈ m.classes, ∀ property ∈ c.properties, property.publicName ≠ "") ∧
      (∃ report, run.outcome = .ok report) ∧
      (∃ owner ∈ run.model.classes, owner.name = utcField.1.name ∧
        ∃ f ∈ owner.fields, f.name = utcField.2 ∧ f.isStatic ∧ f.visibility = .priv) ∧
      ∃ d ∈ run.model.classes, d.name = "shop.Meeting" ∧
        ∃ x ∈ d.methods, x.origin = .synthesized LocalAccessors.option ∧
          ¬x.WellScoped d.ownFields := by
  intro m run
  obtain ⟨owner, d, hclasses, howner, f, hfields, hf, hstatic, hprivate, hname, x, y, hmethods,
      horigin, target, test, args, method, hbody⟩ :
      ∃ owner d, run.model.classes = [owner, d] ∧ owner.name = utcField.1.name ∧
        ∃ f, owner.fields = [f] ∧ f.name = utcField.2 ∧ f.isStatic ∧ f.visibility = .priv ∧
        d.name = "shop.Meeting" ∧ ∃ x y, d.methods = [x, y] ∧
          y.origin = .synthesized LocalAccessors.option ∧
          ∃ target test args method, y.body = some [.assign target (.cond test .nullLit
            (.staticCall method args [.ident "aValue", .staticField utcField.1 utcField.2]))] :=
    ⟨_, _, rfl, rfl, _, rfl, rfl, rfl, rfl, rfl, _, _, rfl, rfl, _, _, _, _, rfl⟩
  rw [hclasses]
  refine ⟨rfl, by decide +kernel, ⟨_, rfl⟩, ⟨owner, List.mem_cons_self, howner, f,
    hfields ▸ List.mem_cons_self, hf, hstatic, hprivate⟩, d, .tail _ List.mem_cons_self, hname,
    y, hmethods ▸ .tail _ List.mem_cons_self, horigin, fun hscoped => ?_⟩
  obtain ⟨⟨-, -, -, -, hutc, -⟩, -⟩ := hscoped _ hbody
  exact List.not_mem_nil hutc

end BeanSynthesis
