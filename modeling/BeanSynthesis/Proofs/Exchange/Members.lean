import BeanSynthesis.Format.Member
import BeanSynthesis.Proofs.Exchange.Bodies

/-!
# Exchange of members

Methods, constructors and what they consist of are exchanged as records. A member of a record that
is missing has the default that would be written for it.
-/

namespace BeanSynthesis

open Json (Node Fields Codec Record bind_eq_ok pure_eq_ok ok_bind nestingLimit)

private theorem Json.textPair_codec :
    Codec Json.textPair (Node.pair Node.text) (fun _ => True) 0 nestingLimit :=
  (Codec.text nestingLimit).pair 0 (by decide)

/-! ## Parts of members -/

namespace Origin

private theorem plain_toJson (o : Origin) : o.toJson.Plain := by
  cases o <;> simp [toJson]

private theorem codec : Codec toJson ofNode (fun _ => True) 0 nestingLimit where
  sound {node o} h := by
    refine ⟨trivial, fun _ => ?_⟩
    obtain ⟨⟨name, content⟩, hvariant, h⟩ := bind_eq_ok.1 h
    split at h
    case h_1 heq =>
      obtain ⟨-, -, h⟩ := bind_eq_ok.1 h
      obtain rfl := pure_eq_ok.1 h
      exact Nat.zero_le _
    case h_2 content' heq =>
      obtain ⟨rfl, rfl⟩ := Prod.mk.inj heq
      obtain ⟨option, -, h⟩ := bind_eq_ok.1 h
      obtain rfl := pure_eq_ok.1 h
      obtain ⟨room, hroom, -⟩ := Json.exists_of_variant hvariant
      rw [hroom]
      simp [toJson]
    case h_3 => cases h
  plain _ := plain_toJson _
  back {o room whole} _ hdepth _ := by
    cases o with
    | schema => rfl
    | synthesized option =>
      obtain ⟨inner, rfl, -⟩ := Json.exists_room_of_obj hdepth
      rw [ofNode, toJson, Json.variant_obj]
      rfl

end Origin

namespace Modifiers

private theorem codec : Codec toJson ofNode (fun _ => True) 1 nestingLimit where
  sound {node m} h := by
    simp only [ofNode, bind_eq_ok, pure_eq_ok] at h
    obtain ⟨fields, hfields, isAbstract, -, isStatic, -, isPrivate, -, rfl⟩ := h
    obtain ⟨room, hroom, -⟩ := Json.within_of_record hfields
    rw [hroom]
    exact ⟨trivial, fun _ => by simp [toJson]⟩
  plain _ := by simp [toJson]
  back {m room whole} _ hdepth hlimit := by
    obtain ⟨inner, rfl, hrecord⟩ := Json.exists_record hdepth hlimit (by simp)
    have hbool := Codec.bool nestingLimit
    simp only [ofNode, toJson, Json.record_obj, ok_bind,
      hbool.withDefault hrecord "is_abstract" false m.isAbstract trivial (by simp),
      hbool.withDefault hrecord "is_static" false m.isStatic trivial (by simp),
      hbool.withDefault hrecord "is_private" false m.isPrivate trivial (by simp)]
    rfl

end Modifiers

namespace AnnotationValue

/-- An integer has 64 bits. -/
def Exchangeable : AnnotationValue → Prop
  | int value => -9223372036854775808 ≤ value ∧ value ≤ 9223372036854775807
  | _ => True

private theorem plain_toJson {v : AnnotationValue} (h : v.Exchangeable) : v.toJson.Plain := by
  cases v with
  | int value => exact (Codec.int64 0).plain h
  | bool value => exact Json.plain_bool value
  | str value => exact Json.plain_str value

/-- The value of a parameter is written without nesting. -/
@[simp] theorem depth_toJson (v : AnnotationValue) : v.toJson.depth = 0 := by
  cases v <;> rfl

private theorem codec : Codec toJson ofNode Exchangeable 0 nestingLimit where
  sound {node v} h := by
    refine ⟨?_, fun _ => by simp⟩
    obtain ⟨taken, -, h⟩ := bind_eq_ok.1 h
    split at h
    case h_1 =>
      obtain rfl := pure_eq_ok.1 h
      trivial
    case h_2 =>
      obtain ⟨value, hvalue, h⟩ := bind_eq_ok.1 h
      obtain rfl := pure_eq_ok.1 h
      exact ((Codec.int64 0).sound hvalue).1
    case h_3 =>
      obtain ⟨value, -, h⟩ := bind_eq_ok.1 h
      obtain rfl := pure_eq_ok.1 h
      trivial
  plain := plain_toJson
  back {v room whole} h hdepth hlimit := by
    rw [ofNode, Json.takeWhole_of_plain (plain_toJson h) hdepth, ok_bind]
    cases v with
    | bool value => rfl
    | int value =>
      have hvalue : Node.int64 ⟨.int value, room, true⟩ = .ok value :=
        (Codec.int64 nestingLimit).back h hdepth hlimit
      exact bind_eq_ok.2 ⟨value, hvalue, rfl⟩
    | str value => rfl

end AnnotationValue

namespace Annotation

/-- The class is well-formed, and the format can hold the parameters. -/
structure Exchangeable (a : Annotation) : Prop where
  type : a.type.WellFormed
  params : ∀ param ∈ a.params, param.2.Exchangeable

private theorem codec : Codec toJson ofNode Exchangeable 2 nestingLimit where
  sound {node a} h := by
    simp only [ofNode, bind_eq_ok, pure_eq_ok] at h
    obtain ⟨fields, hfields, type, htype, params, hparams, rfl⟩ := h
    obtain ⟨room, hroom, hwithin⟩ := Json.within_of_record hfields
    have htype := (ClassRef.codec nestingLimit).of_required hwithin htype
    have hparams := (AnnotationValue.codec.pair 0 (by decide)).of_items hwithin hparams
    refine ⟨⟨htype.1, hparams.1⟩, fun hleast => ?_⟩
    rw [hroom] at hleast ⊢
    simpa [toJson] using hparams.2 (by omega)
  plain {a} h := by
    have hparams := (AnnotationValue.codec.pair 0 (by decide)).plain_items h.params
    simpa [toJson] using hparams
  back {a room whole} h hdepth hlimit := by
    obtain ⟨inner, rfl, hrecord⟩ := Json.exists_record hdepth hlimit (by simp)
    have hvalue := AnnotationValue.codec.pair 0 (by decide)
    simp only [ofNode, toJson, Json.record_obj, ok_bind,
      (ClassRef.codec _).required hrecord "class" a.type h.type (by simp),
      hvalue.items hrecord "params" a.params h.params (by simp)]
    rfl

/-- Annotations are written without numbers that are out of range. -/
theorem plain_listToJson {annotations : List Annotation} (h : ∀ a ∈ annotations, a.Exchangeable) :
    (listToJson annotations).Plain :=
  codec.plain_items h

/-- The annotations of a record, of which there may be none. -/
theorem of_listOfFields {fields : Fields} {room : Nat} {annotations : List Annotation}
    (hfields : fields.Within room) (h : listOfFields fields = .ok annotations) :
    (∀ a ∈ annotations, a.Exchangeable) ∧ (2 < room → (listToJson annotations).depth ≤ room) :=
  codec.of_items hfields h

/-- The annotations of a written record are read back. -/
theorem listOfFields_written {members : List (String × Json)} {room : Nat} {whole : Bool}
    (hrecord : Record members room nestingLimit) (annotations : List Annotation)
    (h : ∀ a ∈ annotations, a.Exchangeable)
    (hmem : ("annotations", listToJson annotations) ∈ members) :
    listOfFields (.written members room whole) = .ok annotations :=
  codec.items hrecord "annotations" annotations h hmem

end Annotation

namespace Javadoc

private theorem codec : Codec toJson ofNode (fun _ => True) 2 nestingLimit where
  sound {node doc} h := by
    simp only [ofNode, bind_eq_ok, pure_eq_ok] at h
    obtain ⟨fields, hfields, lines, hlines, params, hparams, returns, hreturns, throws, hthrows,
      rfl⟩ := h
    obtain ⟨room, hroom, hwithin⟩ := Json.within_of_record hfields
    have htext := Codec.text nestingLimit
    have hlines := htext.of_items hwithin hlines
    have hparams := Json.textPair_codec.of_items hwithin hparams
    have hreturns := htext.of_optional Json.str_ne_null hwithin hreturns
    have hthrows := Json.textPair_codec.of_items hwithin hthrows
    refine ⟨trivial, fun hleast => ?_⟩
    rw [hroom] at hleast ⊢
    simp only [toJson, Json.depth_obj_le_succ, List.forall_mem_cons]
    exact ⟨hlines.2 (by omega), hparams.2 (by omega), hreturns.2 (by omega), hthrows.2 (by omega),
      List.forall_mem_nil _⟩
  plain {doc} _ := by
    have htext := Codec.text nestingLimit
    simp only [toJson, Json.plain_obj, List.forall_mem_cons]
    exact ⟨htext.plain_items fun _ _ => trivial, Json.textPair_codec.plain_items fun _ _ => trivial,
      (htext.nullable Json.str_ne_null).plain fun _ _ => trivial,
      Json.textPair_codec.plain_items fun _ _ => trivial, List.forall_mem_nil _⟩
  back {doc room whole} _ hdepth hlimit := by
    obtain ⟨inner, rfl, hrecord⟩ := Json.exists_record hdepth hlimit (by simp)
    have htext := Codec.text nestingLimit
    simp only [ofNode, toJson, Json.record_obj, ok_bind,
      htext.items hrecord "lines" doc.lines (fun _ _ => trivial) (by simp [Json.strs]),
      Json.textPair_codec.items hrecord "params" doc.params (fun _ _ => trivial) (by simp),
      htext.optional hrecord "returns" Json.str_ne_null doc.returns (fun _ _ => trivial) (by simp),
      Json.textPair_codec.items hrecord "throws" doc.throws (fun _ _ => trivial) (by simp)]
    rfl

end Javadoc

/-! ## Members -/

namespace Param

/-- The type is well-formed, and the format can hold the annotations. -/
structure Exchangeable (p : Param) : Prop where
  type : p.type.WellFormed
  annotations : ∀ a ∈ p.annotations, a.Exchangeable

private theorem codec : Codec toJson ofNode Exchangeable 4 nestingLimit where
  sound {node p} h := by
    simp only [ofNode, bind_eq_ok, pure_eq_ok] at h
    obtain ⟨fields, hfields, name, -, type, htype, isFinal, -, annotations, hannotations, rfl⟩ := h
    obtain ⟨room, hroom, hwithin⟩ := Json.within_of_record hfields
    have htype := (TypeExpr.codec nestingLimit).of_required hwithin htype
    have hannotations := Annotation.of_listOfFields hwithin hannotations
    refine ⟨⟨htype.1, hannotations.1⟩, fun hleast => ?_⟩
    rw [hroom] at hleast ⊢
    simpa [toJson] using hannotations.2 (by omega)
  plain {p} h := by simpa [toJson] using Annotation.plain_listToJson h.annotations
  back {p room whole} h hdepth hlimit := by
    obtain ⟨inner, rfl, hrecord⟩ := Json.exists_record hdepth hlimit (by simp)
    simp only [ofNode, toJson, Json.record_obj, ok_bind,
      (Codec.text _).required hrecord "name" p.name trivial (by simp),
      (TypeExpr.codec _).required hrecord "ty" p.type h.type (by simp),
      (Codec.bool _).withDefault hrecord "is_final" false p.isFinal trivial (by simp),
      Annotation.listOfFields_written hrecord p.annotations h.annotations (by simp)]
    rfl

end Param

private theorem Block.toJson_ne_null (b : Block) : Block.toJson b ≠ .null := nofun

namespace Method

/-- The format can hold all parts of the method. -/
structure Exchangeable (m : Method) : Prop where
  returnType : m.returnType.WellFormed
  params : ∀ p ∈ m.params, p.Exchangeable
  annotations : ∀ a ∈ m.annotations, a.Exchangeable
  throws : ∀ c ∈ m.throws, c.WellFormed
  body : ∀ b ∈ m.body, Stmt.AllExchangeable b

/-- Methods are read as they are written. -/
theorem codec : Codec toJson ofNode Exchangeable 6 nestingLimit where
  sound {node m} h := by
    simp only [ofNode, bind_eq_ok, pure_eq_ok] at h
    obtain ⟨fields, hfields, name, -, returnType, hreturnType, params, hparams, modifiers,
      hmodifiers, annotations, hannotations, throws, hthrows, javadoc, hjavadoc, body, hbody,
      origin, horigin, rfl⟩ := h
    obtain ⟨room, hroom, hwithin⟩ := Json.within_of_record hfields
    have hreturnType := (TypeExpr.codec nestingLimit).of_required hwithin hreturnType
    have hparams := Param.codec.of_items hwithin hparams
    have hmodifiers := Modifiers.codec.of_withDefault trivial (Nat.le_refl _) hwithin hmodifiers
    have hannotations := Annotation.of_listOfFields hwithin hannotations
    have hthrows := (ClassRef.codec nestingLimit).of_items hwithin hthrows
    have hjavadoc := Javadoc.codec.of_withDefault trivial (Nat.le_refl _) hwithin hjavadoc
    have hbody := (Block.codec 0).of_optional Block.toJson_ne_null hwithin hbody
    have horigin := Origin.codec.of_withDefault trivial (Nat.le_refl _) hwithin horigin
    refine ⟨⟨hreturnType.1, hparams.1, hannotations.1, hthrows.1, hbody.1⟩, fun hleast => ?_⟩
    rw [hroom] at hleast ⊢
    simp only [toJson, Json.depth_obj_le_succ, List.forall_mem_cons]
    exact ⟨Nat.zero_le _, Nat.zero_le _, hparams.2 (by omega), hmodifiers.2 (by omega),
      hannotations.2 (by omega), hthrows.2 (by omega), hjavadoc.2 (by omega), hbody.2 (by omega),
      horigin.2 (by omega), List.forall_mem_nil _⟩
  plain {m} h := by
    simp only [toJson, Json.plain_obj, List.forall_mem_cons]
    exact ⟨Json.plain_str _, TypeExpr.plain_toJson _, Param.codec.plain_items h.params,
      Modifiers.codec.plain trivial, Annotation.plain_listToJson h.annotations,
      (ClassRef.codec nestingLimit).plain_items h.throws, Javadoc.codec.plain trivial,
      ((Block.codec 0).nullable Block.toJson_ne_null).plain h.body, Origin.codec.plain trivial,
      List.forall_mem_nil _⟩
  back {m room whole} h hdepth hlimit := by
    obtain ⟨inner, rfl, hrecord⟩ := Json.exists_record hdepth hlimit (by simp)
    simp only [ofNode, toJson, Json.record_obj, ok_bind,
      (Codec.text _).required hrecord "name" m.name trivial (by simp),
      (TypeExpr.codec _).required hrecord "return_type" m.returnType h.returnType (by simp),
      Param.codec.items hrecord "params" m.params h.params (by simp),
      Modifiers.codec.withDefault hrecord "modifiers" {} m.modifiers trivial (by simp),
      Annotation.listOfFields_written hrecord m.annotations h.annotations (by simp),
      (ClassRef.codec _).items hrecord "throws" m.throws h.throws (by simp),
      Javadoc.codec.withDefault hrecord "javadoc" {} m.javadoc trivial (by simp),
      (Block.codec 0).optional hrecord "body" Block.toJson_ne_null m.body h.body (by simp),
      Origin.codec.withDefault hrecord "origin" .schema m.origin trivial (by simp)]
    rfl

end Method

namespace Constructor

/-- The format can hold all parts of the constructor. -/
structure Exchangeable (c : Constructor) : Prop where
  params : ∀ p ∈ c.params, p.Exchangeable
  body : Stmt.AllExchangeable c.body

/-- Constructors are read as they are written. -/
theorem codec : Codec toJson ofNode Exchangeable 6 nestingLimit where
  sound {node c} h := by
    simp only [ofNode, bind_eq_ok, pure_eq_ok] at h
    obtain ⟨fields, hfields, params, hparams, javadoc, hjavadoc, body, hbody, origin, horigin,
      rfl⟩ := h
    obtain ⟨room, hroom, hwithin⟩ := Json.within_of_record hfields
    have hparams := Param.codec.of_items hwithin hparams
    have hjavadoc := Javadoc.codec.of_withDefault trivial (Nat.le_refl _) hwithin hjavadoc
    have hnone : Stmt.AllExchangeable [] := trivial
    have hbody := (Block.codec 1).of_withDefault hnone (Nat.le_refl _) hwithin hbody
    have horigin := Origin.codec.of_withDefault trivial (Nat.le_refl _) hwithin horigin
    refine ⟨⟨hparams.1, hbody.1⟩, fun hleast => ?_⟩
    rw [hroom] at hleast ⊢
    simp only [toJson, Json.depth_obj_le_succ, List.forall_mem_cons]
    exact ⟨hparams.2 (by omega), hjavadoc.2 (by omega), hbody.2 (by omega), horigin.2 (by omega),
      List.forall_mem_nil _⟩
  plain {c} h := by
    simp only [toJson, Json.plain_obj, List.forall_mem_cons]
    exact ⟨Param.codec.plain_items h.params, Javadoc.codec.plain trivial,
      (Block.codec 0).plain h.body, Origin.codec.plain trivial, List.forall_mem_nil _⟩
  back {c room whole} h hdepth hlimit := by
    obtain ⟨inner, rfl, hrecord⟩ := Json.exists_record hdepth hlimit (by simp)
    simp only [ofNode, toJson, Json.record_obj, ok_bind,
      Param.codec.items hrecord "params" c.params h.params (by simp),
      Javadoc.codec.withDefault hrecord "javadoc" {} c.javadoc trivial (by simp),
      (Block.codec 0).withDefault hrecord "body" [] c.body h.body (by simp),
      Origin.codec.withDefault hrecord "origin" .schema c.origin trivial (by simp)]
    rfl

end Constructor

end BeanSynthesis
