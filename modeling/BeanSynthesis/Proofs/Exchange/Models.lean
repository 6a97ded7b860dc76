import Mathlib
import BeanSynthesis.Format.Model
import BeanSynthesis.Proofs.Exchange.Members
import BeanSynthesis.Proofs.Exchange.Properties

/-!
# Exchange of models

What is read as a model can be written, and is then read as the same model. More than that, the
models that survive an exchange are exactly the well-formed ones that the format can hold and that
nest no deeper than a text may.
-/

namespace BeanSynthesis

open Json (Node Fields Codec Record bind_eq_ok pure_eq_ok ok_bind nestingLimit)

/-! ## Classes -/

namespace Visibility

private theorem codec : Codec toJson ofNode (fun _ => True) 0 nestingLimit :=
  .choice nestingLimit fun v => by cases v <;> exact ⟨_, rfl, rfl⟩

end Visibility

namespace ClassKind

private theorem codec : Codec toJson ofNode (fun _ => True) 0 nestingLimit :=
  .choice nestingLimit fun k => by cases k <;> exact ⟨_, rfl, rfl⟩

end ClassKind

namespace Field

/-- The type is well-formed, and the format can hold the annotations. -/
structure Exchangeable (f : Field) : Prop where
  type : f.type.WellFormed
  annotations : ∀ a ∈ f.annotations, a.Exchangeable

private theorem codec : Codec toJson ofNode Exchangeable 4 nestingLimit where
  sound {node f} h := by
    simp only [ofNode, bind_eq_ok, pure_eq_ok] at h
    obtain ⟨fields, hfields, name, -, type, htype, isStatic, -, visibility, hvisibility,
      annotations, hannotations, rfl⟩ := h
    obtain ⟨room, hroom, hwithin⟩ := Json.within_of_record hfields
    have htype := (TypeExpr.codec nestingLimit).of_required hwithin htype
    have hvisibility := Visibility.codec.of_withDefault trivial (Nat.le_refl _) hwithin hvisibility
    have hannotations := Annotation.of_listOfFields hwithin hannotations
    refine ⟨⟨htype.1, hannotations.1⟩, fun hleast => ?_⟩
    rw [hroom] at hleast ⊢
    simp only [toJson, Json.depth_obj_le_succ, List.forall_mem_cons]
    exact ⟨Nat.zero_le _, Nat.zero_le _, Nat.zero_le _, hvisibility.2 (Nat.zero_le _),
      hannotations.2 (by omega), List.forall_mem_nil _⟩
  plain {f} h := by
    simp only [toJson, Json.plain_obj, List.forall_mem_cons]
    exact ⟨Json.plain_str _, TypeExpr.plain_toJson _, Json.plain_bool _,
      Visibility.codec.plain trivial, Annotation.plain_listToJson h.annotations,
      List.forall_mem_nil _⟩
  back {f room whole} h hdepth hlimit := by
    obtain ⟨inner, rfl, hrecord⟩ := Json.exists_record hdepth hlimit (by simp)
    simp only [ofNode, toJson, Json.record_obj, ok_bind,
      (Codec.text _).required hrecord "name" f.name trivial (by simp),
      (TypeExpr.codec _).required hrecord "ty" f.type h.type (by simp),
      (Codec.bool _).withDefault hrecord "is_static" false f.isStatic trivial (by simp),
      Visibility.codec.withDefault hrecord "visibility" .prot f.visibility trivial (by simp),
      Annotation.listOfFields_written hrecord f.annotations h.annotations (by simp)]
    rfl

end Field

namespace BeanClass

/-- The format can hold all parts of the class. Its name need not be a name of a class. -/
structure Exchangeable (c : BeanClass) : Prop where
  parent : ∀ p ∈ c.parent, p.WellFormed
  interfaces : ∀ i ∈ c.interfaces, i.WellFormed
  annotations : ∀ a ∈ c.annotations, a.Exchangeable
  fields : ∀ f ∈ c.fields, f.Exchangeable
  properties : ∀ p ∈ c.properties, p.Exchangeable
  constructors : ∀ k ∈ c.constructors, k.Exchangeable
  methods : ∀ m ∈ c.methods, m.Exchangeable

private theorem codec : Codec toJson ofNode Exchangeable 8 nestingLimit where
  sound {node c} h := by
    simp only [ofNode, bind_eq_ok, pure_eq_ok] at h
    obtain ⟨members, hmembers, name, -, kind, hkind, parent, hparent, isAbstract, -, interfaces,
      hinterfaces, annotations, hannotations, fields, hfields, properties, hproperties,
      constructors, hconstructors, methods, hmethods, javadoc, hjavadoc, constants, hconstants,
      rfl⟩ := h
    obtain ⟨room, hroom, hwithin⟩ := Json.within_of_record hmembers
    have hclassRef := ClassRef.codec nestingLimit
    have htext := Codec.text nestingLimit
    have hkind := ClassKind.codec.of_withDefault trivial (Nat.le_refl _) hwithin hkind
    have hparent := hclassRef.of_optional ClassRef.toJson_ne_null hwithin hparent
    have hinterfaces := hclassRef.of_items hwithin hinterfaces
    have hannotations := Annotation.of_listOfFields hwithin hannotations
    have hfields := Field.codec.of_items hwithin hfields
    have hproperties := Property.codec.of_items hwithin hproperties
    have hconstructors := Constructor.codec.of_items hwithin hconstructors
    have hmethods := Method.codec.of_items hwithin hmethods
    have hjavadoc := htext.of_items hwithin hjavadoc
    have hconstants := htext.of_items hwithin hconstants
    refine ⟨⟨hparent.1, hinterfaces.1, hannotations.1, hfields.1, hproperties.1, hconstructors.1,
      hmethods.1⟩, fun hleast => ?_⟩
    rw [hroom] at hleast ⊢
    simp only [toJson, Json.depth_obj_le_succ, List.forall_mem_cons]
    exact ⟨Nat.zero_le _, hkind.2 (by omega), hparent.2 (by omega), Nat.zero_le _,
      hinterfaces.2 (by omega), hannotations.2 (by omega), hfields.2 (by omega),
      hproperties.2 (by omega), hconstructors.2 (by omega), hmethods.2 (by omega),
      hjavadoc.2 (by omega), hconstants.2 (by omega), List.forall_mem_nil _⟩
  plain {c} h := by
    have hclassRef := ClassRef.codec nestingLimit
    have htext := Codec.text nestingLimit
    simp only [toJson, Json.plain_obj, List.forall_mem_cons]
    exact ⟨Json.plain_str _, ClassKind.codec.plain trivial,
      (hclassRef.nullable ClassRef.toJson_ne_null).plain h.parent,
      Json.plain_bool _, hclassRef.plain_items h.interfaces,
      Annotation.plain_listToJson h.annotations, Field.codec.plain_items h.fields,
      Property.codec.plain_items h.properties, Constructor.codec.plain_items h.constructors,
      Method.codec.plain_items h.methods, htext.plain_items fun _ _ => trivial,
      htext.plain_items fun _ _ => trivial, List.forall_mem_nil _⟩
  back {c room whole} h hdepth hlimit := by
    obtain ⟨inner, rfl, hrecord⟩ := Json.exists_record hdepth hlimit (by simp)
    have hclassRef := ClassRef.codec nestingLimit
    have htext := Codec.text nestingLimit
    simp only [ofNode, toJson, Json.record_obj, ok_bind,
      htext.required hrecord "name" c.name trivial (by simp),
      ClassKind.codec.withDefault hrecord "kind" .plain c.kind trivial (by simp),
      hclassRef.optional hrecord "parent" ClassRef.toJson_ne_null c.parent h.parent (by simp),
      (Codec.bool _).withDefault hrecord "is_abstract" false c.isAbstract trivial (by simp),
      hclassRef.items hrecord "interfaces" c.interfaces h.interfaces (by simp),
      Annotation.listOfFields_written hrecord c.annotations h.annotations (by simp),
      Field.codec.items hrecord "fields" c.fields h.fields (by simp),
      Property.codec.items hrecord "properties" c.properties h.properties (by simp),
      Constructor.codec.items hrecord "constructors" c.constructors h.constructors (by simp),
      Method.codec.items hrecord "methods" c.methods h.methods (by simp),
      htext.items hrecord "javadoc" c.javadoc (fun _ _ => trivial) (by simp [Json.strs]),
      htext.items hrecord "constants" c.constants (fun _ _ => trivial) (by simp [Json.strs])]
    rfl

end BeanClass

/-! ## Packages and external classes -/

namespace Package

/-- The format can hold the annotations. -/
def Exchangeable (p : Package) : Prop := ∀ a ∈ p.annotations, a.Exchangeable

private theorem codec : Codec toJson ofNode Exchangeable 4 nestingLimit where
  sound {node p} h := by
    simp only [ofNode, bind_eq_ok, pure_eq_ok] at h
    obtain ⟨fields, hfields, name, -, annotations, hannotations, javadoc, hjavadoc, rfl⟩ := h
    obtain ⟨room, hroom, hwithin⟩ := Json.within_of_record hfields
    have hannotations := Annotation.of_listOfFields hwithin hannotations
    have hjavadoc := (Codec.text nestingLimit).of_items hwithin hjavadoc
    refine ⟨hannotations.1, fun hleast => ?_⟩
    rw [hroom] at hleast ⊢
    simp only [toJson, Json.depth_obj_le_succ, List.forall_mem_cons]
    exact ⟨Nat.zero_le _, hannotations.2 (by omega), hjavadoc.2 (by omega), List.forall_mem_nil _⟩
  plain {p} h := by
    simp only [toJson, Json.plain_obj, List.forall_mem_cons]
    exact ⟨Json.plain_str _, Annotation.plain_listToJson h,
      (Codec.text nestingLimit).plain_items fun _ _ => trivial, List.forall_mem_nil _⟩
  back {p room whole} h hdepth hlimit := by
    obtain ⟨inner, rfl, hrecord⟩ := Json.exists_record hdepth hlimit (by simp)
    have htext := Codec.text nestingLimit
    simp only [ofNode, toJson, Json.record_obj, ok_bind,
      htext.required hrecord "name" p.name trivial (by simp),
      Annotation.listOfFields_written hrecord p.annotations h (by simp),
      htext.items hrecord "javadoc" p.javadoc (fun _ _ => trivial) (by simp [Json.strs])]
    rfl

end Package

namespace ExternalClass

/-- The types of the fields are well-formed. -/
def Exchangeable (c : ExternalClass) : Prop := ∀ field ∈ c.fields.entries, field.2.WellFormed

private theorem codec : Codec toJson ofNode Exchangeable 2 nestingLimit where
  sound {node c} h := by
    simp only [ofNode, bind_eq_ok, pure_eq_ok] at h
    obtain ⟨members, hmembers, name, -, isEnum, -, isNumber, -, superclass, hsuperclass, fields,
      hfields, rfl⟩ := h
    obtain ⟨room, hroom, hwithin⟩ := Json.within_of_record hmembers
    have hsuperclass := (Codec.text nestingLimit).of_optional Json.str_ne_null hwithin hsuperclass
    have hfields := (TypeExpr.codec nestingLimit).of_entries hwithin hfields
    refine ⟨hfields.1, fun hleast => ?_⟩
    rw [hroom] at hleast ⊢
    simp only [toJson, Json.depth_obj_le_succ, List.forall_mem_cons]
    exact ⟨Nat.zero_le _, Nat.zero_le _, Nat.zero_le _, hsuperclass.2 (by omega),
      hfields.2 (by omega), List.forall_mem_nil _⟩
  plain {c} h := by
    simp only [toJson, Json.plain_obj, List.forall_mem_cons]
    exact ⟨Json.plain_str _, Json.plain_bool _, Json.plain_bool _,
      ((Codec.text nestingLimit).nullable Json.str_ne_null).plain fun _ _ => trivial,
      ((TypeExpr.codec nestingLimit).dict 1 (by decide)).plain h, List.forall_mem_nil _⟩
  back {c room whole} h hdepth hlimit := by
    obtain ⟨inner, rfl, hrecord⟩ := Json.exists_record hdepth hlimit (by simp)
    have htext := Codec.text nestingLimit
    have hbool := Codec.bool nestingLimit
    simp only [ofNode, toJson, Json.record_obj, ok_bind,
      htext.required hrecord "name" c.name trivial (by simp),
      hbool.withDefault hrecord "is_enum" false c.isEnum trivial (by simp),
      hbool.withDefault hrecord "is_number" false c.isNumber trivial (by simp),
      htext.optional hrecord "superclass" Json.str_ne_null c.superclass (fun _ _ => trivial)
        (by simp),
      ((TypeExpr.codec _).dict 1 (by decide)).withDefault hrecord "fields" ∅ c.fields h (by simp)]
    rfl

end ExternalClass

/-! ## Models -/

namespace CodeModel

/-- The format can hold all parts of the model. -/
structure Exchangeable (m : CodeModel) : Prop where
  classes : ∀ c ∈ m.classes, c.Exchangeable
  objectFactories : ∀ c ∈ m.objectFactories, c.Exchangeable
  packages : ∀ p ∈ m.packages, p.Exchangeable
  external : ∀ entry ∈ m.external.entries, entry.2.Exchangeable

private theorem codec : Codec toJson ofNode Exchangeable 10 nestingLimit where
  sound {node m} h := by
    simp only [ofNode, bind_eq_ok, pure_eq_ok] at h
    obtain ⟨fields, hfields, classes, hclasses, objectFactories, hobjectFactories, packages,
      hpackages, external, hexternal, rfl⟩ := h
    obtain ⟨room, hroom, hwithin⟩ := Json.within_of_record hfields
    have hclasses := BeanClass.codec.of_items hwithin hclasses
    have hobjectFactories := BeanClass.codec.of_items hwithin hobjectFactories
    have hpackages := Package.codec.of_items hwithin hpackages
    have hexternal := ExternalClass.codec.of_entries hwithin hexternal
    refine ⟨⟨hclasses.1, hobjectFactories.1, hpackages.1, hexternal.1⟩, fun hleast => ?_⟩
    rw [hroom] at hleast ⊢
    simp only [toJson, Json.depth_obj_le_succ, List.forall_mem_cons]
    exact ⟨hclasses.2 (by omega), hobjectFactories.2 (by omega), hpackages.2 (by omega),
      hexternal.2 (by omega), List.forall_mem_nil _⟩
  plain {m} h := by
    simp only [toJson, Json.plain_obj, List.forall_mem_cons]
    exact ⟨BeanClass.codec.plain_items h.classes, BeanClass.codec.plain_items h.objectFactories,
      Package.codec.plain_items h.packages,
      (ExternalClass.codec.dict 3 (by decide)).plain h.external, List.forall_mem_nil _⟩
  back {m room whole} h hdepth hlimit := by
    obtain ⟨inner, rfl, hrecord⟩ := Json.exists_record hdepth hlimit (by simp)
    simp only [ofNode, toJson, Json.record_obj, ok_bind,
      BeanClass.codec.items hrecord "classes" m.classes h.classes (by simp),
      BeanClass.codec.items hrecord "object_factories" m.objectFactories h.objectFactories
        (by simp),
      Package.codec.items hrecord "packages" m.packages h.packages (by simp),
      (ExternalClass.codec.dict 3 (by decide)).withDefault hrecord "external" ∅ m.external
        h.external (by simp)]
    rfl

private theorem load_eq_ok_iff {node : Node} {m : CodeModel} :
    load node = .ok m ↔ ofNode node = .ok m ∧ m.validate = .ok () := by
  unfold load
  cases ofNode node with
  | error misfit => simp
  | ok given =>
    constructor
    · intro h
      obtain ⟨⟨⟩, hvalid, h⟩ := bind_eq_ok.1 h
      obtain rfl := pure_eq_ok.1 h
      exact ⟨rfl, hvalid⟩
    · rintro ⟨hgiven, hvalid⟩
      obtain rfl := Except.ok.inj hgiven
      exact bind_eq_ok.2 ⟨(), hvalid, rfl⟩

/-- The text of a value is read as the value itself would be. -/
theorem ofText_pretty {value : Json} (h : value.Plain) :
    ofText value.pretty = load (.ofJson value) := by
  simp only [ofText, Json.parse?_pretty h]

/-- What is read from a text as a model is well-formed, and can be written. -/
theorem of_ofText {text : String} {m : CodeModel} (h : ofText text = .ok m) :
    m.validate = .ok () ∧ m.Exchangeable ∧ m.toJson.depth ≤ nestingLimit := by
  unfold ofText at h
  split at h
  case h_1 => cases h
  case h_2 value _ =>
    obtain ⟨hread, hvalid⟩ := load_eq_ok_iff.1 h
    obtain ⟨hfits, hdepth⟩ := codec.sound hread
    exact ⟨hvalid, hfits, hdepth (by decide : 10 ≤ nestingLimit)⟩

/-- A model is read from its own text exactly if it is well-formed, the format can hold all of it,
and it nests no deeper than a text may. -/
theorem ofText_toText_iff {m : CodeModel} :
    ofText m.toText = .ok m ↔
      m.validate = .ok () ∧ m.Exchangeable ∧ m.toJson.depth ≤ nestingLimit := by
  refine ⟨of_ofText, fun ⟨hvalid, hfits, hdepth⟩ => ?_⟩
  have hread : ofNode (.ofJson m.toJson) = .ok m := codec.back hfits hdepth (Nat.le_refl _)
  rw [toText, ofText_pretty (codec.plain hfits)]
  exact load_eq_ok_iff.2 ⟨hread, hvalid⟩

/-- What has been read from a text as a model is read as the same model from its own text. -/
theorem ofText_toText {text : String} {m : CodeModel} (h : ofText text = .ok m) :
    ofText m.toText = .ok m :=
  ofText_toText_iff.2 (of_ofText h)

/-- What a text may give of a class, with the records in both of their forms, and everything else
left to the defaults. -/
def orderRecord : Json :=
  .obj [("name", .str "shop.Order"), ("javadoc", .strs ["An order."]),
    ("annotations", .array [.obj [
      ("class", .str "shop.Marked"), ("params", .array [.strs ["level", "high"]])]]),
    ("fields", .array [.strs ["code", "java.lang.String"]]),
    ("properties", .array [.obj [
      ("name", .str "code"), ("public_name", .str "Code"), ("kind", .str "attribute"),
      ("simple_type", .obj [("facets", .obj [("maxLength", .str "9")])])]]),
    ("constructors", .array [.obj []]),
    ("methods", .array [.obj [
      ("name", .str "getCode"), ("return_type", .str "java.lang.String"),
      ("body", .array [.obj [("stmt", .str "return"), ("value", .strs ["name", "code"])]])]])]

/-- The class of `orderRecord`. -/
def orderRead : BeanClass where
  name := "shop.Order"
  javadoc := ["An order."]
  annotations := [{ type := .ofName "shop.Marked", params := [("level", .str "high")] }]
  fields := [{ name := "code", type := .ofName "java.lang.String" }]
  properties := [{
    name := "code", publicName := "Code"
    kind := .attr false (some (({} : SimpleType).withFacet "maxLength" "9")) }]
  constructors := [{}]
  methods := [{
    name := "getCode", returnType := .ofName "java.lang.String"
    body := some [.give (.ident "code")] }]

private theorem load_orderRecord :
    load (.ofJson (.obj [("classes", .array [orderRecord])])) = .ok { classes := [orderRead] } := by
  cbv

private theorem plain_orderRecord : (Json.obj [("classes", .array [orderRecord])]).Plain := by
  simp [orderRecord, Json.strs]

/-- A class of which a part is given is read with the defaults filled in, and again from the text
that it is written to then. -/
theorem ofText_toText_order :
    ofText (Json.pretty (.obj [("classes", .array [orderRecord])])) =
        .ok { classes := [orderRead] } ∧
      ofText (toText { classes := [orderRead] }) = .ok { classes := [orderRead] } := by
  have htext : ofText (Json.pretty (.obj [("classes", .array [orderRecord])])) =
      .ok { classes := [orderRead] } := by
    rw [ofText_pretty plain_orderRecord, load_orderRecord]
  exact ⟨htext, ofText_toText htext⟩

end CodeModel

end BeanSynthesis
