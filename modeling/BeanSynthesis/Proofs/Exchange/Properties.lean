import BeanSynthesis.Format.Schema
import BeanSynthesis.Proofs.Exchange.Codec

/-!
# Exchange of schema properties

The kind of a property is spread over the record of the property. Its members are those of the
record that are left when the two names are taken away, and each of them has been taken in whole.
-/

namespace BeanSynthesis

open Json (Node Fields Codec Record bind_eq_ok pure_eq_ok ok_bind nestingLimit)

/-! ## Occurrences and types -/

namespace MaxOccurs

/-- A bound has 32 bits. -/
def Exchangeable : MaxOccurs → Prop
  | bounded count => count ≤ 4294967295
  | _ => True

private theorem codec : Codec toJson ofNode Exchangeable 0 nestingLimit where
  sound {node o} h := by
    obtain ⟨⟨name, content⟩, hvariant, h⟩ := bind_eq_ok.1 h
    split at h
    case h_1 | h_2 =>
      obtain ⟨-, -, h⟩ := bind_eq_ok.1 h
      obtain rfl := pure_eq_ok.1 h
      exact ⟨trivial, fun _ => Nat.zero_le _⟩
    case h_3 content' heq =>
      obtain ⟨rfl, rfl⟩ := Prod.mk.inj heq
      obtain ⟨count, hcount, h⟩ := bind_eq_ok.1 h
      obtain rfl := pure_eq_ok.1 h
      obtain ⟨room, hroom, -⟩ := Json.exists_of_variant hvariant
      refine ⟨((Codec.nat32 0).sound hcount).1, fun _ => ?_⟩
      rw [hroom]
      simp [toJson]
    case h_4 => cases h
  plain {o} h := by
    cases o with
    | bounded count => simpa [toJson] using (Codec.nat32 0).plain h
    | _ => exact Json.plain_str _
  back {o room whole} h hdepth hlimit := by
    cases o with
    | bounded count =>
      obtain ⟨inner, rfl, -⟩ := Json.exists_room_of_obj hdepth
      have hcount : Node.nat32 ⟨.nat count, inner, whole⟩ = .ok count :=
        (Codec.nat32 inner).back h (Nat.zero_le _) (Nat.le_refl _)
      rw [ofNode, toJson, Json.variant_obj, ok_bind]
      exact bind_eq_ok.2 ⟨count, hcount, rfl⟩
    | _ => rfl

end MaxOccurs

namespace SimpleType

private theorem toJson_ne_null (t : SimpleType) : t.toJson ≠ .null := nofun

private theorem codec : Codec toJson ofNode (fun _ => True) 2 nestingLimit where
  sound {node t} h := by
    simp only [ofNode, bind_eq_ok, pure_eq_ok] at h
    obtain ⟨fields, hfields, name, hname, facets, hfacets, rfl⟩ := h
    obtain ⟨room, hroom, hwithin⟩ := Json.within_of_record hfields
    have htext := Codec.text nestingLimit
    have hname := htext.of_optional Json.str_ne_null hwithin hname
    have hfacets := htext.of_entries hwithin hfacets
    refine ⟨trivial, fun hleast => ?_⟩
    rw [hroom] at hleast ⊢
    simp only [toJson, Json.depth_obj_le_succ, List.forall_mem_cons]
    exact ⟨hname.2 (by omega), hfacets.2 (by omega), List.forall_mem_nil _⟩
  plain {t} _ := by
    have htext := Codec.text nestingLimit
    simp only [toJson, Json.plain_obj, List.forall_mem_cons]
    exact ⟨(htext.nullable Json.str_ne_null).plain fun _ _ => trivial,
      (htext.dict 1 (by decide)).plain fun _ _ => trivial, List.forall_mem_nil _⟩
  back {t room whole} _ hdepth hlimit := by
    obtain ⟨inner, rfl, hrecord⟩ := Json.exists_record hdepth hlimit (by simp)
    have htext := Codec.text nestingLimit
    simp only [ofNode, toJson, Json.record_obj, ok_bind,
      htext.optional hrecord "name" Json.str_ne_null t.name (fun _ _ => trivial) (by simp),
      (htext.dict 1 (by decide)).withDefault hrecord "facets" ∅ t.facets (fun _ _ => trivial)
        (by simp)]
    rfl

end SimpleType

namespace ParticleTerm

private theorem plain_toJson (t : ParticleTerm) : t.toJson.Plain := by
  cases t with
  | element simpleType =>
    have htype := (SimpleType.codec.nullable SimpleType.toJson_ne_null).plain (a := simpleType)
      fun _ _ => trivial
    simpa [toJson] using htype
  | _ => simp [toJson]

private theorem codec : Codec toJson ofNode (fun _ => True) 3 nestingLimit where
  sound {node t} h := by
    obtain ⟨⟨tag, fields⟩, htagged, h⟩ := bind_eq_ok.1 h
    obtain ⟨room, hroom, hwithin⟩ := Json.within_of_tagged htagged
    refine ⟨trivial, fun hleast => ?_⟩
    rw [hroom] at hleast ⊢
    dsimp only at h
    split at h <;> simp only [bind_eq_ok, pure_eq_ok] at h
    case h_1 =>
      obtain ⟨simpleType, hread, rfl⟩ := h
      have htype := SimpleType.codec.of_optional SimpleType.toJson_ne_null hwithin hread
      simpa [toJson] using htype.2 (by omega)
    case h_2 =>
      subst h
      simp [toJson]
    case h_3 =>
      obtain ⟨description, -, rfl⟩ := h
      simp [toJson]
  plain _ := plain_toJson _
  back {t room whole} _ hdepth hlimit := by
    cases t with
    | element simpleType =>
      obtain ⟨inner, hrecord, htagged⟩ :=
        Json.exists_tagged variants (plain_toJson (element simpleType)) rfl (by simp) (by decide)
          hdepth (Nat.le_succ_of_le hlimit) whole
      simp only [ofNode, htagged, ok_bind,
        SimpleType.codec.optional hrecord "simple_type" SimpleType.toJson_ne_null simpleType
          (fun _ _ => trivial) (by simp)]
      rfl
    | modelGroup =>
      obtain ⟨inner, hrecord, htagged⟩ :=
        Json.exists_tagged variants (plain_toJson modelGroup) rfl (by simp) (by decide) hdepth
          (Nat.le_succ_of_le hlimit) whole
      simp only [ofNode, htagged, ok_bind]
      rfl
    | unsupported description =>
      obtain ⟨inner, hrecord, htagged⟩ :=
        Json.exists_tagged variants (plain_toJson (unsupported description)) rfl (by simp)
          (by decide) hdepth (Nat.le_succ_of_le hlimit) whole
      simp only [ofNode, htagged, ok_bind,
        (Codec.text _).required hrecord "description" description trivial (by simp)]
      rfl

end ParticleTerm

/-! ## Kinds -/

namespace PropertyKind

/-- The numbers of occurrences have 32 bits. -/
def Exchangeable : PropertyKind → Prop
  | element minOccurs maxOccurs _ _ => minOccurs ≤ 4294967295 ∧ maxOccurs.Exchangeable
  | _ => True

private theorem of_fields {fields : Fields} {room : Nat} {k : PropertyKind}
    (hwithin : fields.Within room)
    (h : ofFields fields = .ok k) :
    k.Exchangeable ∧ (3 ≤ room → ∀ member ∈ k.members, member.2.depth ≤ room) := by
  have htype : ∀ {simpleType : Option SimpleType},
      fields.optional "simple_type" SimpleType.ofNode = .ok simpleType →
        (2 ≤ room → (Json.option SimpleType.toJson simpleType).depth ≤ room) := fun hread =>
    (SimpleType.codec.of_optional SimpleType.toJson_ne_null hwithin hread).2
  obtain ⟨tag, -, h⟩ := bind_eq_ok.1 h
  split at h <;> simp only [bind_eq_ok, pure_eq_ok] at h
  case h_1 =>
    obtain ⟨minOccurs, hmin, maxOccurs, hmax, required, -, term, hterm, rfl⟩ := h
    have hone : MaxOccurs.one.Exchangeable := trivial
    have hmin := (Codec.nat32 nestingLimit).of_withDefault (by decide) (Nat.zero_le _) hwithin hmin
    have hmax := MaxOccurs.codec.of_withDefault hone (Nat.zero_le _) hwithin hmax
    have hterm := ParticleTerm.codec.of_required hwithin hterm
    refine ⟨⟨hmin.1, hmax.1⟩, fun hleast => ?_⟩
    simp only [members, List.forall_mem_cons]
    exact ⟨Nat.zero_le _, Nat.zero_le _, hmax.2 (Nat.zero_le _), Nat.zero_le _, hterm.2 hleast,
      List.forall_mem_nil _⟩
  case h_2 =>
    obtain ⟨required, -, simpleType, hread, rfl⟩ := h
    refine ⟨trivial, fun hleast => ?_⟩
    simp only [members, List.forall_mem_cons]
    exact ⟨Nat.zero_le _, Nat.zero_le _, htype hread (by omega), List.forall_mem_nil _⟩
  case h_3 =>
    obtain ⟨simpleType, hread, rfl⟩ := h
    refine ⟨trivial, fun hleast => ?_⟩
    simp only [members, List.forall_mem_cons]
    exact ⟨Nat.zero_le _, htype hread (by omega), List.forall_mem_nil _⟩
  case h_4 =>
    subst h
    exact ⟨trivial, fun _ => by simp [members]⟩

private theorem plain_members {k : PropertyKind} (h : k.Exchangeable) :
    ∀ member ∈ k.members, member.2.Plain := by
  have htype : ∀ simpleType, (Json.option SimpleType.toJson simpleType).Plain := fun _ =>
    (SimpleType.codec.nullable SimpleType.toJson_ne_null).plain fun _ _ => trivial
  cases k with
  | element minOccurs maxOccurs required term =>
    simp only [members, List.forall_mem_cons]
    exact ⟨Json.plain_str _, (Codec.nat32 0).plain h.1, MaxOccurs.codec.plain h.2,
      Json.plain_bool _, term.plain_toJson, List.forall_mem_nil _⟩
  | attr required simpleType => simp [members, htype]
  | value simpleType => simp [members, htype]
  | reference => simp [members]

/-- The names of the members, none of which is a name of the property itself. -/
theorem names_members (k : PropertyKind) :
    ("name" :: "public_name" :: k.members.map (·.1)).Nodup := by
  cases k <;> simp [members]

private theorem ofFields_written {k : PropertyKind} (h : k.Exchangeable) {room : Nat}
    (hrecord : Record k.members room nestingLimit) :
    ofFields (.written k.members room true) = .ok k := by
  have htag : ∀ tag, ("kind", Json.str tag) ∈ k.members → tag ∈ tags →
      (Fields.written k.members room true).required "kind" (Node.tag tags true) = .ok tag :=
    fun tag hmem htag => Json.tag_written hrecord.distinct hmem htag true room true
  cases k with
  | element minOccurs maxOccurs required term =>
    simp only [ofFields, htag "element" (by simp [members]) (by decide), ok_bind,
      (Codec.nat32 _).withDefault hrecord "min_occurs" 1 minOccurs h.1 (by simp [members]),
      MaxOccurs.codec.withDefault hrecord "max_occurs" .one maxOccurs h.2 (by simp [members]),
      (Codec.bool _).withDefault hrecord "required" false required trivial (by simp [members]),
      ParticleTerm.codec.required hrecord "term" term trivial (by simp [members])]
    rfl
  | attr required simpleType =>
    simp only [ofFields, htag "attribute" (by simp [members]) (by decide), ok_bind,
      (Codec.bool _).withDefault hrecord "required" false required trivial (by simp [members]),
      SimpleType.codec.optional hrecord "simple_type" SimpleType.toJson_ne_null simpleType
        (fun _ _ => trivial) (by simp [members])]
    rfl
  | value simpleType =>
    simp only [ofFields, htag "value" (by simp [members]) (by decide), ok_bind,
      SimpleType.codec.optional hrecord "simple_type" SimpleType.toJson_ne_null simpleType
        (fun _ _ => trivial) (by simp [members])]
    rfl
  | reference =>
    simp only [ofFields, htag "reference" (by simp [members]) (by decide), ok_bind]
    rfl

end PropertyKind

namespace Property

/-- The format can hold the kind. -/
def Exchangeable (p : Property) : Prop := p.kind.Exchangeable

/-- Without the two names the members of the kind are left, each of them taken in whole. -/
theorem others_written {p : Property} (h : p.Exchangeable) {room : Nat} (whole : Bool)
    (hdepth : ∀ member ∈ p.kind.members, member.2.depth ≤ room) :
    ((Fields.written ([("name", .str p.name), ("public_name", .str p.publicName)] ++ p.kind.members)
        room whole).members.filter fun (member, _) =>
          member != "name" && member != "public_name").mapM
      (fun (member, content) => return (member, ← content.takeWhole)) =
        .ok (Fields.written p.kind.members room true).members := by
  obtain ⟨hname, hnames⟩ := List.nodup_cons.1 p.kind.names_members
  obtain ⟨hpublic, -⟩ := List.nodup_cons.1 hnames
  have hkept : ∀ member ∈ p.kind.members,
      (member.1 != "name" && member.1 != "public_name") = true := fun member hmem => by
    have hmem' : member.1 ∈ p.kind.members.map (·.1) := List.mem_map_of_mem hmem
    rw [Bool.and_eq_true, bne_iff_ne, bne_iff_ne]
    exact ⟨fun heq => hname (List.mem_cons_of_mem _ (heq ▸ hmem')),
      fun heq => hpublic (heq ▸ hmem')⟩
  have hfilter : ((Fields.written ([("name", .str p.name), ("public_name", .str p.publicName)] ++
        p.kind.members) room whole).members.filter fun (member, _) =>
          member != "name" && member != "public_name") =
      (Fields.written p.kind.members room whole).members := by
    rw [Fields.written, List.map_append, List.filter_append, List.filter_map, List.filter_map]
    exact congrArg (List.map _) (List.filter_eq_self.2 hkept)
  rw [hfilter, Fields.written, List.mapM_map]
  refine Json.mapM_eq_ok fun member hmem => ?_
  have htaken := Json.takeWhole_of_plain (PropertyKind.plain_members h member hmem)
    (hdepth member hmem) whole
  simp only [Function.comp_apply, htaken, ok_bind]
  rfl

/-- Properties are read as they are written. -/
theorem codec : Codec toJson ofNode Exchangeable 4 nestingLimit where
  sound {node p} h := by
    obtain ⟨fields, hfields, h⟩ := bind_eq_ok.1 h
    obtain ⟨name, -, h⟩ := bind_eq_ok.1 h
    obtain ⟨publicName, -, h⟩ := bind_eq_ok.1 h
    obtain ⟨others, hothers, h⟩ := bind_eq_ok.1 h
    obtain ⟨kind, hkind, h⟩ := bind_eq_ok.1 h
    obtain rfl := pure_eq_ok.1 h
    obtain ⟨room, hroom, hwithin⟩ := Json.within_of_fields hfields
    have hothers : Fields.Within ⟨others, false⟩ room := fun member hmem => by
      obtain ⟨given, hgiven, hread⟩ := Json.exists_of_mapM hothers member hmem
      obtain ⟨taken, htaken, hread⟩ := bind_eq_ok.1 hread
      obtain rfl := pure_eq_ok.1 hread
      exact (Json.room_of_takeWhole htaken).trans (hwithin _ (List.mem_filter.1 hgiven).1)
    have hkind := PropertyKind.of_fields hothers hkind
    refine ⟨hkind.1, fun hleast => ?_⟩
    rw [hroom] at hleast ⊢
    simp only [toJson, Json.depth_obj_le_succ, List.forall_mem_append, List.forall_mem_cons]
    exact ⟨⟨Nat.zero_le _, Nat.zero_le _, List.forall_mem_nil _⟩, hkind.2 (by omega)⟩
  plain {p} h := by
    simp only [toJson, Json.plain_obj, List.forall_mem_append, List.forall_mem_cons]
    exact ⟨⟨Json.plain_str _, Json.plain_str _, List.forall_mem_nil _⟩,
      PropertyKind.plain_members h⟩
  back {p room whole} h hdepth hlimit := by
    have hnames := p.kind.names_members
    obtain ⟨inner, rfl, hrecord⟩ := Json.exists_record hdepth hlimit (by simpa using hnames)
    have hkinds : ∀ member ∈ p.kind.members, member.2.depth ≤ inner := fun member hmem =>
      hrecord.depth_le member (List.mem_append_right _ hmem)
    have hkind : Record p.kind.members inner nestingLimit :=
      ⟨(List.nodup_cons.1 (List.nodup_cons.1 hnames).2).2, hkinds, hrecord.room_le⟩
    simp only [ofNode, toJson, Json.fields_obj, ok_bind,
      (Codec.text _).required hrecord "name" p.name trivial (by simp),
      (Codec.text _).required hrecord "public_name" p.publicName trivial (by simp)]
    rw [others_written h whole hkinds, ok_bind]
    exact bind_eq_ok.2 ⟨p.kind, PropertyKind.ofFields_written h hkind, rfl⟩

end Property

end BeanSynthesis
