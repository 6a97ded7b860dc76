import BeanSynthesis.Proofs.Exchange.Fitting
import BeanSynthesis.Proofs.Exchange.Models

/-!
# What makes a model portable

Everything in a model nests a bounded number of levels, but for the bodies of its constructors and
methods. So a well-formed model survives an exchange exactly if the format can hold its parts and no
body nests deeper than the room that is left for bodies.
-/

namespace BeanSynthesis

open Json (nestingLimit)

/-! ## What nests a bounded number of levels -/

private theorem Annotation.depth_listToJson_le (annotations : List Annotation) :
    (listToJson annotations).depth ≤ 4 := by
  have hpair : ∀ param : String × AnnotationValue,
      (Json.array [.str param.1, param.2.toJson]).depth ≤ 1 := by simp
  simp only [listToJson, toJson, Json.depth_items_le_succ, Json.depth_obj_le_succ,
    List.forall_mem_cons]
  exact fun a _ => ⟨Nat.zero_le _, fun param _ => hpair param, List.forall_mem_nil _⟩

private theorem Param.depth_toJson_le (p : Param) : p.toJson.depth ≤ 5 := by
  simp [toJson, Annotation.depth_listToJson_le]

private theorem Field.depth_toJson_le (f : Field) : f.toJson.depth ≤ 5 := by
  simp [toJson, Visibility.toJson, Annotation.depth_listToJson_le]

private theorem Javadoc.depth_toJson_le (doc : Javadoc) : doc.toJson.depth ≤ 3 := by
  have hpair : ∀ pair, (Json.textPair pair).depth ≤ 1 := by simp [Json.textPair]
  have hpairs : ∀ pairs : List (String × String),
      (Json.array (pairs.map Json.textPair)).depth ≤ 2 := fun pairs =>
    Json.depth_items_le_succ.2 fun pair _ => hpair pair
  have hreturns : (Json.option Json.str doc.returns).depth ≤ 2 :=
    Json.depth_option_le.2 fun _ _ => Nat.zero_le _
  simp [toJson, Json.strs, hpairs, hreturns]

private theorem Modifiers.depth_toJson_le (m : Modifiers) : m.toJson.depth ≤ 1 := by simp [toJson]

private theorem Origin.depth_toJson_le (o : Origin) : o.toJson.depth ≤ 1 := by
  cases o <;> simp [toJson]

private theorem SimpleType.depth_toJson_le (t : SimpleType) : t.toJson.depth ≤ 2 := by
  have hname : (Json.option Json.str t.name).depth ≤ 1 :=
    Json.depth_option_le.2 fun _ _ => Nat.zero_le _
  have hfacets : (t.facets.toJson Json.str).depth ≤ 1 :=
    Json.depth_dict_le_succ.2 fun _ _ => Nat.le_refl _
  simp [toJson, hname, hfacets]

private theorem PropertyKind.depth_members_le {kind : PropertyKind} :
    ∀ member ∈ kind.members, member.2.depth ≤ 3 := by
  have hsimple : ∀ t : Option SimpleType, (Json.option SimpleType.toJson t).depth ≤ 2 := fun t =>
    Json.depth_option_le.2 fun t _ => t.depth_toJson_le
  cases kind with
  | element minOccurs maxOccurs required term =>
    have hmax : maxOccurs.toJson.depth ≤ 3 := by
      cases maxOccurs <;> simp [MaxOccurs.toJson]
    have hterm : term.toJson.depth ≤ 3 := by
      cases term <;> simp [ParticleTerm.toJson, hsimple]
    simp [members, hmax, hterm]
  | attr required simpleType => simpa [members] using (hsimple simpleType).trans (by decide)
  | value simpleType => simpa [members] using (hsimple simpleType).trans (by decide)
  | reference => simp [members]

private theorem Property.depth_toJson_le (p : Property) : p.toJson.depth ≤ 4 := by
  rw [toJson, Json.depth_obj_le_succ, List.forall_mem_append]
  exact ⟨by simp, PropertyKind.depth_members_le⟩

private theorem Package.depth_toJson_le (p : Package) : p.toJson.depth ≤ 5 := by
  simp [toJson, Json.strs, Annotation.depth_listToJson_le]

private theorem ExternalClass.depth_toJson_le (c : ExternalClass) : c.toJson.depth ≤ 2 := by
  have hsuperclass : (Json.option Json.str c.superclass).depth ≤ 1 :=
    Json.depth_option_le.2 fun _ _ => Nat.zero_le _
  have hfields : (c.fields.toJson TypeExpr.toJson).depth ≤ 1 :=
    Json.depth_dict_le_succ.2 fun _ _ => Nat.le_refl _
  simp [toJson, hsuperclass, hfields]

/-! ## Members -/

/-- The levels that are left for a body. It stands in a member, which stands in a list of a class,
which stands in a list of the model. -/
def bodyLevels : Nat := 122

private theorem nestingLimit_eq : nestingLimit = bodyLevels + 5 := rfl

namespace Method

/-- The format can hold the method, and there is room for the levels of its body. -/
structure Portable (m : Method) : Prop where
  returnType : m.returnType.WellFormed
  params : ∀ p ∈ m.params, p.Exchangeable
  annotations : ∀ a ∈ m.annotations, a.Exchangeable
  throws : ∀ c ∈ m.throws, c.WellFormed
  body : ∀ b ∈ m.body, Block.Fits bodyLevels b

private theorem depth_toJson_le_iff {m : Method} :
    m.toJson.depth ≤ bodyLevels + 1 ↔ ∀ b ∈ m.body, (Block.toJson b).depth ≤ bodyLevels := by
  have hparams : (Json.array (m.params.map Param.toJson)).depth ≤ 6 :=
    Json.depth_items_le_succ.2 fun p _ => p.depth_toJson_le
  have hannotations := Annotation.depth_listToJson_le m.annotations
  have hmodifiers := m.modifiers.depth_toJson_le
  have hthrows : (Json.array (m.throws.map ClassRef.toJson)).depth ≤ 1 :=
    Json.depth_items_le_succ.2 fun _ _ => Nat.le_refl _
  have hjavadoc := m.javadoc.depth_toJson_le
  have horigin := m.origin.depth_toJson_le
  have hroom : 6 ≤ bodyLevels := by decide
  rw [← Json.depth_option_le]
  simp only [toJson, Json.depth_obj_le_succ, List.forall_mem_cons, List.not_mem_nil,
    IsEmpty.forall_iff, implies_true, and_true, Json.depth_str, TypeExpr.depth_toJson, Nat.zero_le,
    true_and]
  omega

private theorem portable_iff {m : Method} :
    m.Portable ↔ m.Exchangeable ∧ m.toJson.depth ≤ bodyLevels + 1 := by
  rw [depth_toJson_le_iff]
  constructor
  · intro h
    exact ⟨{ h with body := fun b hb => (h.body b hb).1 }, fun b hb => (h.body b hb).2⟩
  · rintro ⟨h, hbody⟩
    exact { h with body := fun b hb => ⟨h.body b hb, hbody b hb⟩ }

end Method

namespace Constructor

/-- The format can hold the constructor, and there is room for the levels of its body. -/
structure Portable (c : Constructor) : Prop where
  params : ∀ p ∈ c.params, p.Exchangeable
  body : Block.Fits bodyLevels c.body

private theorem depth_toJson_le_iff {c : Constructor} :
    c.toJson.depth ≤ bodyLevels + 1 ↔ (Block.toJson c.body).depth ≤ bodyLevels := by
  have hparams : (Json.array (c.params.map Param.toJson)).depth ≤ 6 :=
    Json.depth_items_le_succ.2 fun p _ => p.depth_toJson_le
  have hjavadoc := c.javadoc.depth_toJson_le
  have horigin := c.origin.depth_toJson_le
  have hroom : 6 ≤ bodyLevels := by decide
  simp only [toJson, Json.depth_obj_le_succ, List.forall_mem_cons, List.not_mem_nil,
    IsEmpty.forall_iff, implies_true, and_true]
  omega

private theorem portable_iff {c : Constructor} :
    c.Portable ↔ c.Exchangeable ∧ c.toJson.depth ≤ bodyLevels + 1 := by
  rw [depth_toJson_le_iff]
  exact ⟨fun h => ⟨⟨h.params, h.body.1⟩, h.body.2⟩, fun h => ⟨h.1.params, h.1.body, h.2⟩⟩

end Constructor

/-! ## Classes and models -/

namespace BeanClass

/-- The format can hold all parts of the class, and there is room for the levels of its bodies. -/
structure Portable (c : BeanClass) : Prop where
  parent : ∀ p ∈ c.parent, p.WellFormed
  interfaces : ∀ i ∈ c.interfaces, i.WellFormed
  annotations : ∀ a ∈ c.annotations, a.Exchangeable
  fields : ∀ f ∈ c.fields, f.Exchangeable
  properties : ∀ p ∈ c.properties, p.Exchangeable
  constructors : ∀ k ∈ c.constructors, k.Portable
  methods : ∀ m ∈ c.methods, m.Portable

private theorem depth_toJson_le_iff {c : BeanClass} :
    c.toJson.depth ≤ bodyLevels + 3 ↔
      (∀ k ∈ c.constructors, k.toJson.depth ≤ bodyLevels + 1) ∧
        ∀ m ∈ c.methods, m.toJson.depth ≤ bodyLevels + 1 := by
  have hkind : c.kind.toJson.depth ≤ bodyLevels + 2 := by
    cases c.kind <;> simp [ClassKind.toJson]
  have hparent : (Json.option ClassRef.toJson c.parent).depth ≤ bodyLevels + 2 :=
    Json.depth_option_le.2 fun _ _ => Nat.zero_le _
  have hannotations : Json.depth ( Annotation.listToJson c.annotations) ≤ bodyLevels + 2 :=
    le_trans ( Annotation.depth_listToJson_le _) (by decide)
  have hfields : ∀ f ∈ c.fields, f.toJson.depth ≤ bodyLevels + 1 := fun f _ =>
    f.depth_toJson_le.trans (by decide)
  have hproperties : ∀ p ∈ c.properties, p.toJson.depth ≤ bodyLevels + 1 := fun p _ =>
    p.depth_toJson_le.trans (by decide)
  simp only [toJson, Json.depth_obj_le_succ, List.forall_mem_cons, List.not_mem_nil,
    IsEmpty.forall_iff, implies_true, and_true, Json.depth_array_le_succ, List.forall_mem_map,
    Json.strs, Json.depth_str, Json.depth_bool, ClassRef.depth_toJson, Nat.zero_le, true_and]
  exact ⟨fun h => h.2.2.2.2.2, fun h => ⟨hkind, hparent, hannotations, hfields, hproperties, h⟩⟩

private theorem portable_iff {c : BeanClass} :
    c.Portable ↔ c.Exchangeable ∧ c.toJson.depth ≤ bodyLevels + 3 := by
  rw [depth_toJson_le_iff]
  constructor
  · intro h
    have hconstructors := fun k hk => Constructor.portable_iff.1 (h.constructors k hk)
    have hmethods := fun m hm => Method.portable_iff.1 (h.methods m hm)
    exact ⟨{ h with
      constructors := fun k hk => (hconstructors k hk).1
      methods := fun m hm => (hmethods m hm).1 },
      fun k hk => (hconstructors k hk).2, fun m hm => (hmethods m hm).2⟩
  · rintro ⟨h, hconstructors, hmethods⟩
    exact { h with
      constructors := fun k hk =>
        Constructor.portable_iff.2 ⟨h.constructors k hk, hconstructors k hk⟩
      methods := fun m hm => Method.portable_iff.2 ⟨h.methods m hm, hmethods m hm⟩ }

end BeanClass

namespace CodeModel

/-- The format can hold all parts of the model, and there is room for all its levels. -/
structure Portable (m : CodeModel) : Prop where
  classes : ∀ c ∈ m.classes, c.Portable
  objectFactories : ∀ c ∈ m.objectFactories, c.Portable
  packages : ∀ p ∈ m.packages, p.Exchangeable
  external : ∀ entry ∈ m.external.entries, entry.2.Exchangeable

private theorem portable_iff {m : CodeModel} :
    m.Portable ↔ m.Exchangeable ∧ m.toJson.depth ≤ nestingLimit := by
  have hpackages : ∀ p ∈ m.packages, p.toJson.depth ≤ bodyLevels + 3 := fun p _ =>
    p.depth_toJson_le.trans (by decide)
  have hexternal : (m.external.toJson ExternalClass.toJson).depth ≤ bodyLevels + 4 := by
    rw [Dict.toJson, Json.depth_obj_le_succ, List.forall_mem_map]
    exact fun entry _ => entry.2.depth_toJson_le.trans (by decide)
  have hdepth : m.toJson.depth ≤ nestingLimit ↔
      (∀ c ∈ m.classes, c.toJson.depth ≤ bodyLevels + 3) ∧
        ∀ c ∈ m.objectFactories, c.toJson.depth ≤ bodyLevels + 3 := by
    simp only [nestingLimit_eq, toJson, Json.depth_obj_le_succ, List.forall_mem_cons,
      List.not_mem_nil, IsEmpty.forall_iff, implies_true, and_true, Json.depth_array_le_succ,
      List.forall_mem_map]
    exact ⟨fun h => ⟨h.1, h.2.1⟩, fun h => ⟨h.1, h.2, hpackages, hexternal⟩⟩
  rw [hdepth]
  constructor
  · intro h
    have hclasses := fun c hc => BeanClass.portable_iff.1 (h.classes c hc)
    have hfactories := fun c hc => BeanClass.portable_iff.1 (h.objectFactories c hc)
    exact ⟨{ h with
      classes := fun c hc => (hclasses c hc).1
      objectFactories := fun c hc => (hfactories c hc).1 },
      fun c hc => (hclasses c hc).2, fun c hc => (hfactories c hc).2⟩
  · rintro ⟨h, hclasses, hfactories⟩
    exact { h with
      classes := fun c hc => BeanClass.portable_iff.2 ⟨h.classes c hc, hclasses c hc⟩
      objectFactories := fun c hc =>
        BeanClass.portable_iff.2 ⟨h.objectFactories c hc, hfactories c hc⟩ }

/-- The models that are read from their own text are the well-formed portable ones. -/
theorem ofText_toText_iff_portable {m : CodeModel} :
    ofText m.toText = .ok m ↔ m.validate = .ok () ∧ m.Portable := by
  rw [ofText_toText_iff, portable_iff]

/-- What is read from a text as a model is well-formed and portable. -/
theorem portable_of_ofText {text : String} {m : CodeModel} (h : ofText text = .ok m) :
    m.validate = .ok () ∧ m.Portable :=
  (of_ofText h).imp_right portable_iff.2

end CodeModel

end BeanSynthesis
