import BeanSynthesis.Format.Types
import BeanSynthesis.Proofs.Exchange.Nesting

/-!
# Laws of reading and writing

A kind of data is exchanged faithfully if what is read can be written, and what can be written is
read back as itself. How deep a written value nests comes in twice: it never takes more room than
there was when the value was read, and it is read back wherever there is room for it. The members of
a record are looked at one by one.
-/

namespace BeanSynthesis

namespace Dict

variable {α : Type}

private theorem eq_of_entries {d e : Dict α} (h : d.entries = e.entries) : d = e := by
  cases d
  cases e
  cases h
  rfl

private theorem mem_of_mem_ofList {entries : List (String × α)} {entry : String × α}
    (h : entry ∈ (ofList entries).entries) : entry ∈ entries := by
  suffices hfold : ∀ d : Dict α, entry ∈ (entries.foldl (fun d e => d.insert e.1 e.2) d).entries →
      entry ∈ d.entries ∨ entry ∈ entries from (hfold empty h).resolve_left nofun
  clear h
  induction entries with
  | nil => exact fun d h => .inl h
  | cons first rest ih =>
    intro d h
    rcases ih _ h with hmem | hmem
    · rcases mem_insertEntry hmem with rfl | hmem
      · exact .inr List.mem_cons_self
      · exact .inl hmem
    · exact .inr (List.mem_cons_of_mem _ hmem)

/-- An entry behind all others is put there. -/
theorem insertEntry_last {name : String} {value : α} {entries : List (String × α)}
    (h : ∀ entry ∈ entries, entry.1 < name) :
    insertEntry name value entries = entries ++ [(name, value)] := by
  induction entries with
  | nil => rfl
  | cons first rest ih =>
    obtain ⟨hfirst, hrest⟩ := List.forall_mem_cons.1 h
    rw [insertEntry, if_neg (String.lt_asymm hfirst), if_pos hfirst, ih hrest, List.cons_append]

/-- Entries in order make up the dictionary that they are the entries of. -/
theorem ofList_entries (d : Dict α) : ofList d.entries = d := by
  suffices hfold : ∀ (rest : List (String × α)) (before : Dict α),
      NamesIncrease (before.entries ++ rest) →
        (rest.foldl (fun d e => d.insert e.1 e.2) before).entries = before.entries ++ rest by
    exact eq_of_entries (hfold d.entries empty d.increasing)
  intro rest
  induction rest with
  | nil => exact fun before _ => (List.append_nil _).symm
  | cons first rest ih =>
    intro before h
    have hlast : (before.insert first.1 first.2).entries = before.entries ++ [first] :=
      insertEntry_last fun entry hmem =>
        (List.pairwise_append.1 h).2.2 entry hmem first List.mem_cons_self
    rw [List.append_cons, ← hlast] at h
    rw [List.foldl_cons, ih _ h, hlast, ← List.append_cons]

end Dict

namespace Json

/-! ## Results of decoding -/

section Decoded

variable {ε α β : Type}

/-- Two steps in a row succeed if and only if the second one succeeds with what the first one
gives. -/
theorem bind_eq_ok {x : Except ε α} {f : α → Except ε β} {b : β} :
    x >>= f = .ok b ↔ ∃ a, x = .ok a ∧ f a = .ok b := by
  cases x with
  | error e => exact ⟨nofun, fun ⟨_, h, _⟩ => nomatch h⟩
  | ok a => exact ⟨fun h => ⟨a, rfl, h⟩, fun ⟨_, h, hf⟩ => Except.ok.inj h ▸ hf⟩

/-- A step that has succeeded is followed by the next one. -/
@[simp] theorem ok_bind (a : α) (f : α → Except ε β) : (Except.ok a : Except ε α) >>= f = f a := rfl

/-- What does nothing gives its value. -/
theorem pure_eq_ok {a b : α} : (pure a : Except ε α) = .ok b ↔ a = b :=
  ⟨Except.ok.inj, congrArg _⟩

/-- What is made of a result is a result if and only if there is one. -/
theorem map_eq_ok {x : Except ε α} {f : α → β} {b : β} :
    x.map f = .ok b ↔ ∃ a, x = .ok a ∧ f a = b := by
  cases x <;> simp [Except.map]

/-- Whatever is decoded from a list comes from an element of it. -/
theorem exists_of_mapM {f : α → Decoded β} {as : List α} {bs : List β} (h : as.mapM f = .ok bs) :
    ∀ b ∈ bs, ∃ a ∈ as, f a = .ok b := by
  induction as generalizing bs with
  | nil =>
    obtain rfl := Except.ok.inj h
    exact List.forall_mem_nil _
  | cons a as ih =>
    rw [List.mapM_cons] at h
    obtain ⟨b, hb, h⟩ := bind_eq_ok.1 h
    obtain ⟨rest, hrest, h⟩ := bind_eq_ok.1 h
    obtain rfl := pure_eq_ok.1 h
    rw [List.forall_mem_cons]
    refine ⟨⟨a, List.mem_cons_self, hb⟩, fun b hmem => ?_⟩
    obtain ⟨a, hmem, ha⟩ := ih hrest b hmem
    exact ⟨a, List.mem_cons_of_mem _ hmem, ha⟩

/-- What is read one by one is read as a whole. -/
theorem mapM_eq_ok {f : α → Decoded β} {g : α → β} {as : List α}
    (h : ∀ a ∈ as, f a = .ok (g a)) : as.mapM f = .ok (as.map g) := by
  induction as with
  | nil => rfl
  | cons a as ih =>
    rw [List.forall_mem_cons] at h
    rw [List.mapM_cons, h.1, ok_bind, ih h.2]
    rfl

private theorem mapM_map {f : β → Decoded α} {g : α → β} {as : List α}
    (h : ∀ a ∈ as, f (g a) = .ok a) : (as.map g).mapM f = .ok as := by
  have hread := mapM_eq_ok (f := f ∘ g) (g := id) h
  rwa [← List.mapM_map, List.map_id] at hread

end Decoded

/-! ## Faithful exchange -/

/-- Data that `decode` reads has a form that `encode` writes, which `decode` reads again. -/
structure Codec {α : Type} (encode : α → Json) (decode : Node → Decoded α) (Fits : α → Prop)
    (least limit : Nat) : Prop where
  /-- What is read fits, and is written in the room that it was read in, if there is at least the
  room that defaults take. -/
  sound : ∀ {node : Node} {a : α}, decode node = .ok a →
    Fits a ∧ (least ≤ node.room → (encode a).depth ≤ node.room)
  /-- What fits is written with whole numbers and text. -/
  plain : ∀ {a : α}, Fits a → (encode a).Plain
  /-- What fits is read back wherever there is room for it. -/
  back : ∀ {a : α} {room : Nat} {whole : Bool}, Fits a → (encode a).depth ≤ room → room ≤ limit →
    decode ⟨encode a, room, whole⟩ = .ok a

namespace Codec

variable {α : Type} {encode : α → Json} {decode : Node → Decoded α} {Fits : α → Prop}
  {least limit : Nat}

/-! ### Values without parts -/

/-- Texts are read as they are written. -/
theorem text (limit : Nat) : Codec str Node.text (fun _ => True) 0 limit where
  sound _ := ⟨trivial, fun _ => Nat.zero_le _⟩
  plain _ := plain_str _
  back _ _ _ := rfl

/-- Truth values are read as they are written. -/
theorem bool (limit : Nat) : Codec Json.bool Node.bool (fun _ => True) 0 limit where
  sound _ := ⟨trivial, fun _ => Nat.zero_le _⟩
  plain _ := plain_bool _
  back _ _ _ := rfl

private theorem integer (limit : Nat) {low high : Int} (hlow : -18446744073709551616 < low)
    (hhigh : high < 18446744073709551616) :
    Codec int (Node.integer low high) (fun n => low ≤ n ∧ n ≤ high) 0 limit where
  sound {node n} h := by
    refine ⟨?_, fun _ => Nat.zero_le _⟩
    unfold Node.integer at h
    split at h
    case h_2 negative magnitude _ _ =>
      generalize (if negative = true then -(magnitude : Int) else magnitude) = value at h
      dsimp only at h
      split at h
      case isTrue hrange => exact Except.ok.inj h ▸ hrange
      case isFalse => cases h
    all_goals cases h
  plain h := plain_int.2 (by omega)
  back {n room whole} h _ _ := by
    have hvalue : (if decide (n < 0) = true then -(n.natAbs : Int) else n.natAbs) = n := by
      split
      case isTrue hneg =>
        have hlt : n < 0 := of_decide_eq_true hneg
        omega
      case isFalse hnonneg =>
        have hge : ¬ n < 0 := fun hlt => hnonneg (decide_eq_true hlt)
        omega
    unfold Node.integer
    split
    case h_1 heq =>
      simp only [int, Json.number.injEq, NumberLit.integer.injEq, decide_eq_true_eq] at heq
      omega
    case h_2 negative magnitude _ heq =>
      simp only [int, Json.number.injEq, NumberLit.integer.injEq] at heq
      obtain ⟨rfl, rfl⟩ := heq
      simp only [hvalue]
      exact if_pos h
    case h_3 hnone => exact absurd rfl (hnone _ _)

/-- Numbers of 64 bits are read as they are written. -/
theorem int64 (limit : Nat) : Codec int Node.int64
    (fun n => -9223372036854775808 ≤ n ∧ n ≤ 9223372036854775807) 0 limit :=
  integer limit (by decide) (by decide)

/-- Natural numbers of 32 bits are read as they are written. -/
theorem nat32 (limit : Nat) : Codec nat Node.nat32 (· ≤ 4294967295) 0 limit where
  sound {node n} h := by
    obtain ⟨i, hi, rfl⟩ := map_eq_ok.1 h
    have hrange := ((integer limit (by decide) (by decide)).sound hi).1
    exact ⟨by omega, fun _ => Nat.zero_le _⟩
  plain {n} h := plain_nat.2 (by omega)
  back {n room whole} h _ _ := by
    have hread : Node.integer 0 4294967295 ⟨int n, room, whole⟩ = .ok n :=
      (integer room (by decide) (by decide)).back (by omega) (Nat.zero_le _) (Nat.le_refl _)
    have hsame : nat n = int n := by simp [nat, int]
    rw [Node.nat32, hsame, hread]
    rfl

/-- One of several names. -/
theorem choice (limit : Nat) {options : List (String × α)}
    (h : ∀ a, ∃ name, encode a = str name ∧ options.find? (·.1 == name) = some (name, a)) :
    Codec encode (Node.choice options) (fun _ => True) 0 limit where
  sound {node a} _ := by
    obtain ⟨name, hname, -⟩ := h a
    rw [hname]
    exact ⟨trivial, fun _ => Nat.zero_le _⟩
  plain {a} _ := by
    obtain ⟨name, hname, -⟩ := h a
    rw [hname]
    exact plain_str name
  back {a room whole} _ _ _ := by
    obtain ⟨name, hname, hfind⟩ := h a
    simp only [Node.choice, Node.variant, hname, str, ok_bind, hfind]
    rfl

/-! ### Lists, pairs and options -/

private theorem exists_of_items {node : Node} {nodes : List Node} (h : node.items = .ok nodes) :
    ∃ room, node.room = room + 1 ∧ ∀ item ∈ nodes, item.room = room := by
  unfold Node.items at h
  split at h
  case h_2 items room _ hroom =>
    obtain rfl := Except.ok.inj h
    exact ⟨room, hroom, by simp⟩
  all_goals cases h

/-- An array has room for one level at least. -/
theorem exists_room_of_array {items : List Json} {room : Nat} (h : (array items).depth ≤ room) :
    ∃ inner, room = inner + 1 ∧ ∀ item ∈ items, item.depth ≤ inner := by
  obtain ⟨inner, rfl⟩ := Nat.exists_eq_add_one.2 (Nat.lt_of_lt_of_le (depth_array_pos items) h)
  exact ⟨inner, rfl, depth_array_le_succ.1 h⟩

/-- Items stand one level below their array. -/
theorem list (h : Codec encode decode Fits least limit) (more : Nat) (hmore : least ≤ more - 1) :
    Codec (fun as => array (as.map encode)) (Node.list decode) (fun as => ∀ a ∈ as, Fits a)
      more limit where
  sound {node as} hread := by
    obtain ⟨nodes, hnodes, hread⟩ := bind_eq_ok.1 hread
    obtain ⟨room, hroom, hitems⟩ := exists_of_items hnodes
    have hall : ∀ a ∈ as, Fits a ∧ (least ≤ room → (encode a).depth ≤ room) := fun a ha => by
      obtain ⟨item, hmem, hitem⟩ := exists_of_mapM hread a ha
      exact hitems item hmem ▸ h.sound hitem
    refine ⟨fun a ha => (hall a ha).1, fun hleast => ?_⟩
    rw [hroom] at hleast ⊢
    rw [depth_array_le_succ, List.forall_mem_map]
    exact fun a ha => (hall a ha).2 (by omega)
  plain hfits := plain_array.2 (List.forall_mem_map.2 fun a ha => h.plain (hfits a ha))
  back {as room whole} hfits hdepth hlimit := by
    obtain ⟨inner, rfl, hitems⟩ := exists_room_of_array hdepth
    rw [List.forall_mem_map] at hitems
    simp only [Node.list, Node.items, ok_bind, List.map_map]
    exact mapM_map fun a ha => h.back (hfits a ha) (hitems a ha) (Nat.le_of_succ_le hlimit)

/-- Pairs of a name and a value are read as they are written, if the values are. -/
theorem pair (h : Codec encode decode Fits least limit) (more : Nat) (hmore : least ≤ more - 1) :
    Codec (fun p : String × α => array [str p.1, encode p.2]) (Node.pair decode) (fun p => Fits p.2)
      more limit where
  sound {node p} hread := by
    obtain ⟨nodes, hnodes, hread⟩ := bind_eq_ok.1 hread
    obtain ⟨room, hroom, hitems⟩ := exists_of_items hnodes
    split at hread
    case h_1 first second =>
      obtain ⟨name, -, hread⟩ := bind_eq_ok.1 hread
      obtain ⟨a, ha, hread⟩ := bind_eq_ok.1 hread
      obtain rfl := pure_eq_ok.1 hread
      have hsecond := hitems second (by simp) ▸ h.sound ha
      refine ⟨hsecond.1, fun hleast => ?_⟩
      rw [hroom] at hleast ⊢
      simpa using hsecond.2 (by omega)
    case h_2 => cases hread
  plain {p} hfits := by simpa using h.plain hfits
  back {p room whole} hfits hdepth hlimit := by
    obtain ⟨inner, rfl, hitems⟩ := exists_room_of_array hdepth
    have hsecond : decode ⟨encode p.2, inner, whole⟩ = .ok p.2 :=
      h.back hfits (hitems _ (by simp)) (Nat.le_of_succ_le hlimit)
    simp only [Node.pair, Node.items, ok_bind, List.map_cons, List.map_nil, hsecond]
    rfl

/-- What may be missing, where no value is written as nothing. -/
theorem nullable (h : Codec encode decode Fits least limit) (hnull : ∀ a, encode a ≠ null) :
    Codec (option encode) (Node.nullable decode) (fun o => ∀ a ∈ o, Fits a) least limit where
  sound {node o} hread := by
    unfold Node.nullable at hread
    split at hread
    case h_1 =>
      obtain rfl := Except.ok.inj hread
      exact ⟨nofun, fun _ => Nat.zero_le _⟩
    case h_2 =>
      obtain ⟨a, ha, rfl⟩ := map_eq_ok.1 hread
      obtain ⟨hfits, hdepth⟩ := h.sound ha
      refine ⟨?_, hdepth⟩
      rintro _ ⟨⟩
      exact hfits
  plain {o} hfits := by
    cases o with
    | none => exact plain_null
    | some a => exact h.plain (hfits a rfl)
  back {o room whole} hfits hdepth hlimit := by
    cases o with
    | none => rfl
    | some a =>
      rw [option] at hdepth ⊢
      unfold Node.nullable
      split
      case h_1 heq => exact absurd heq (hnull a)
      case h_2 =>
        rw [h.back (hfits a rfl) hdepth hlimit]
        rfl

end Codec

/-! ## Objects -/

private theorem exists_of_members {node : Node} {members : List (String × Node)}
    (h : node.members = .ok members) :
    ∃ room, node.room = room + 1 ∧ ∀ member ∈ members, member.2.room = room := by
  unfold Node.members at h
  split at h
  case h_2 given room _ hroom =>
    refine ⟨room, hroom, fun member hmem => ?_⟩
    obtain ⟨⟨name, value⟩, -, hread⟩ := exists_of_mapM h member hmem
    cases name with
    | none => cases hread
    | some name => exact Except.ok.inj hread ▸ rfl
  all_goals cases h

/-- An object has room for one level at least. -/
theorem exists_room_of_obj {members : List (String × Json)} {room : Nat}
    (h : (obj members).depth ≤ room) :
    ∃ inner, room = inner + 1 ∧ ∀ member ∈ members, member.2.depth ≤ inner := by
  obtain ⟨inner, rfl⟩ := Nat.exists_eq_add_one.2 (Nat.lt_of_lt_of_le (depth_obj_pos members) h)
  exact ⟨inner, rfl, depth_obj_le_succ.1 h⟩

private theorem members_obj (members : List (String × Json)) (room : Nat) (whole : Bool) :
    Node.members ⟨obj members, room + 1, whole⟩ =
      .ok (members.map fun member => (member.1, ⟨member.2, room, whole⟩)) := by
  simp only [Node.members, obj]
  induction members with
  | nil => rfl
  | cons member members ih =>
    rw [List.map_cons, List.mapM_cons, ih]
    rfl

/-! ### Dictionaries -/

/-- Dictionaries are read as they are written, if their values are. -/
theorem Codec.dict {α : Type} {encode : α → Json} {decode : Node → Decoded α} {Fits : α → Prop}
    {least limit : Nat} (h : Codec encode decode Fits least limit) (more : Nat)
    (hmore : least ≤ more - 1) :
    Codec (Dict.toJson encode) (Node.dict decode) (fun d => ∀ entry ∈ d.entries, Fits entry.2)
      more limit where
  sound {node d} hread := by
    obtain ⟨members, hmembers, hread⟩ := bind_eq_ok.1 hread
    obtain ⟨entries, hentries, hread⟩ := bind_eq_ok.1 hread
    obtain rfl := pure_eq_ok.1 hread
    obtain ⟨room, hroom, hwithin⟩ := exists_of_members hmembers
    have hall : ∀ entry ∈ (Dict.ofList entries).entries,
        Fits entry.2 ∧ (least ≤ room → (encode entry.2).depth ≤ room) := fun entry hmem => by
      obtain ⟨member, hmember, hentry⟩ :=
        exists_of_mapM hentries entry (Dict.mem_of_mem_ofList hmem)
      obtain ⟨a, ha, hentry⟩ := bind_eq_ok.1 hentry
      obtain rfl := pure_eq_ok.1 hentry
      exact hwithin member hmember ▸ h.sound ha
    refine ⟨fun entry hmem => (hall entry hmem).1, fun hleast => ?_⟩
    rw [hroom] at hleast ⊢
    rw [Dict.toJson, depth_obj_le_succ, List.forall_mem_map]
    exact fun entry hmem => (hall entry hmem).2 (by omega)
  plain {d} hfits := by
    rw [Dict.toJson, plain_obj, List.forall_mem_map]
    exact fun entry hmem => h.plain (hfits entry hmem)
  back {d room whole} hfits hdepth hlimit := by
    obtain ⟨inner, rfl, hmembers⟩ := exists_room_of_obj hdepth
    rw [List.forall_mem_map] at hmembers
    rw [Node.dict, Dict.toJson, members_obj, ok_bind, List.map_map, mapM_map, ok_bind,
      Dict.ofList_entries]
    · rfl
    · intro entry hmem
      have hentry : decode ⟨encode entry.2, inner, whole⟩ = .ok entry.2 :=
        h.back (hfits entry hmem) (hmembers entry hmem) (Nat.le_of_succ_le hlimit)
      simp only [Function.comp_apply, hentry, ok_bind]
      rfl

/-! ### Records -/

namespace Fields

/-- All members have this room. -/
def Within (fields : Fields) (room : Nat) : Prop := ∀ member ∈ fields.members, member.2.room = room

/-- The members of a written object. -/
def written (members : List (String × Json)) (room : Nat) (whole : Bool) : Fields :=
  ⟨members.map fun member => (member.1, ⟨member.2, room, whole⟩), false⟩

private theorem Within.of_find? {fields : Fields} {room : Nat} {name : String} {node : Node}
    (hfields : fields.Within room) (h : fields.find? name = .ok (some node)) :
    node.room = room := by
  unfold find? at h
  split at h
  case h_2 member hfound =>
    have hmem : member ∈ fields.members :=
      (List.mem_filter.1 (hfound ▸ List.mem_singleton_self member)).1
    obtain rfl := Option.some.inj (Except.ok.inj h)
    exact hfields _ hmem
  case h_1 => simp at h
  case h_3 => cases h

/-- Among members of different names each is found. -/
theorem find?_written {members : List (String × Json)} (hnames : (members.map (·.1)).Nodup)
    {name : String} {value : Json} (h : (name, value) ∈ members) (room : Nat) (whole : Bool) :
    (written members room whole).find? name = .ok (some ⟨value, room, whole⟩) := by
  have hfilter : members.filter (·.1 == name) = [(name, value)] := by
    induction members with
    | nil => cases h
    | cons member members ih =>
      obtain ⟨hfirst, hnames⟩ := List.nodup_cons.1 hnames
      rcases List.mem_cons.1 h with rfl | hmem
      · have hnone : members.filter (·.1 == name) = [] :=
          List.filter_eq_nil_iff.2 fun other hother heq =>
            hfirst (List.mem_map.2 ⟨other, hother, eq_of_beq heq⟩)
        simp [hnone]
      · have hne : member.1 ≠ name := fun heq =>
          hfirst (List.mem_map.2 ⟨(name, value), hmem, heq.symm⟩)
        simp [hne, ih hnames hmem]
  have hfound : (written members room whole).members.filter (·.1 == name) =
      [(name, ⟨value, room, whole⟩)] := by
    rw [written, List.filter_map]
    simp only [Function.comp_def, hfilter, List.map_cons, List.map_nil]
  rw [find?, hfound]

end Fields

/-- The fields of a record are one level deeper. -/
theorem within_of_fields {node : Node} {fields : Fields} (h : node.fields = .ok fields) :
    ∃ room, node.room = room + 1 ∧ fields.Within room := by
  obtain ⟨members, hmembers, h⟩ := bind_eq_ok.1 h
  obtain rfl := pure_eq_ok.1 h
  exact exists_of_members hmembers

private theorem Fields.within_of_items {names : List String} {items : List Node} {fields : Fields}
    {room : Nat} (hitems : ∀ item ∈ items, item.room = room)
    (h : Fields.ofItems names items = .ok fields) : fields.Within room := by
  unfold Fields.ofItems at h
  split at h
  case isTrue =>
    obtain rfl := Except.ok.inj h
    exact fun member hmem => hitems _ (List.of_mem_zip hmem).2
  case isFalse => cases h

/-- The members of a record stand one level below it, however it is written. -/
theorem within_of_record {node : Node} {names : List String} {fields : Fields}
    (h : node.record names = .ok fields) : ∃ room, node.room = room + 1 ∧ fields.Within room := by
  unfold Node.record at h
  split at h
  case h_1 =>
    obtain ⟨items, hitems, h⟩ := bind_eq_ok.1 h
    obtain ⟨room, hroom, hwithin⟩ := Codec.exists_of_items hitems
    exact ⟨room, hroom, Fields.within_of_items hwithin h⟩
  case h_2 => exact within_of_fields h

/-- A written object is read as the record of its members, one level deeper. -/
theorem fields_obj (members : List (String × Json)) (room : Nat) (whole : Bool) :
    Node.fields ⟨obj members, room + 1, whole⟩ = .ok (.written members room whole) := by
  rw [Node.fields, members_obj]
  rfl

/-- A written object is a record of any names. -/
theorem record_obj (names : List String) (members : List (String × Json)) (room : Nat)
    (whole : Bool) :
    Node.record names ⟨obj members, room + 1, whole⟩ = .ok (.written members room whole) :=
  fields_obj members room whole

/-- The array of its members is the same record as the object. -/
theorem record_array {names : List String} {values : List Json}
    (h : values.length ≤ names.length) (room : Nat) (whole : Bool) :
    ∃ fields, Node.record names ⟨.array values, room + 1, whole⟩ = .ok fields ∧
      fields.members = (Fields.written (names.zip values) room whole).members := by
  have hlength : (values.map fun value => Node.mk value room whole).length ≤ names.length := by
    simpa using h
  refine ⟨_, if_pos hlength, ?_⟩
  simp [Fields.written, List.zip_map_right, Prod.map]

/-- A value that is taken as a whole stays at its level. -/
theorem room_of_takeWhole {node taken : Node} (h : node.takeWhole = .ok taken) :
    taken.room = node.room := by
  unfold Node.takeWhole at h
  split at h
  · exact Except.ok.inj h ▸ rfl
  · split at h
    · exact Except.ok.inj h ▸ rfl
    · cases h

/-- The fields of a tagged record are one level deeper. -/
theorem within_of_tagged {node : Node} {member tag : String}
    {variants : List (String × List String)} {fields : Fields}
    (h : node.tagged member variants = .ok (tag, fields)) :
    ∃ room, node.room = room + 1 ∧ fields.Within room := by
  obtain ⟨taken, htaken, h⟩ := bind_eq_ok.1 h
  rw [← room_of_takeWhole htaken]
  split at h
  case h_1 =>
    obtain ⟨items, hitems, h⟩ := bind_eq_ok.1 h
    obtain ⟨room, hroom, hwithin⟩ := Codec.exists_of_items hitems
    cases items with
    | nil => cases h
    | cons first items =>
      obtain ⟨tag', -, h⟩ := bind_eq_ok.1 h
      obtain ⟨fields', hfields, h⟩ := bind_eq_ok.1 h
      obtain ⟨rfl, rfl⟩ := Prod.mk.inj (pure_eq_ok.1 h)
      exact ⟨room, hroom, Fields.within_of_items (List.forall_mem_cons.1 hwithin).2 hfields⟩
  case h_2 =>
    obtain ⟨fields', hfields, h⟩ := bind_eq_ok.1 h
    obtain ⟨tag', -, h⟩ := bind_eq_ok.1 h
    obtain ⟨rfl, rfl⟩ := Prod.mk.inj (pure_eq_ok.1 h)
    exact within_of_fields hfields

/-- The content of a variant stands one level below it. -/
theorem exists_of_variant {node content : Node} {name : String}
    (h : node.variant = .ok (name, some content)) :
    ∃ room, node.room = room + 1 ∧ content.room = room := by
  unfold Node.variant at h
  split at h
  case h_1 => cases h
  case h_2 =>
    obtain ⟨members, hmembers, h⟩ := bind_eq_ok.1 h
    obtain ⟨room, hroom, hwithin⟩ := exists_of_members hmembers
    split at h
    case h_1 name' content' =>
      obtain ⟨rfl, heq⟩ := Prod.mk.inj (pure_eq_ok.1 h)
      obtain rfl := Option.some.inj heq
      exact ⟨room, hroom, hwithin _ List.mem_cons_self⟩
    case h_2 => cases h

/-- A written variant is read as its name and its content. -/
theorem variant_obj (name : String) (content : Json) (room : Nat) (whole : Bool) :
    Node.variant ⟨obj [(name, content)], room + 1, whole⟩ =
      .ok (name, some ⟨content, room, whole⟩) := by
  have hmembers := members_obj [(name, content)] room whole
  unfold Node.variant
  split
  case h_1 heq => cases heq
  case h_2 =>
    rw [hmembers]
    rfl

/-- A written record whose members can be read one by one. -/
structure Record (members : List (String × Json)) (room limit : Nat) : Prop where
  distinct : (members.map (·.1)).Nodup
  depth_le : ∀ member ∈ members, member.2.depth ≤ room
  room_le : room ≤ limit

/-- Where there is room for a written record, its members have the room below it. -/
theorem exists_record {members : List (String × Json)} {room limit : Nat}
    (hdepth : (obj members).depth ≤ room) (hlimit : room ≤ limit)
    (hnames : (members.map (·.1)).Nodup) :
    ∃ inner, room = inner + 1 ∧ Record members inner limit := by
  obtain ⟨inner, rfl, hmembers⟩ := exists_room_of_obj hdepth
  exact ⟨inner, rfl, hnames, hmembers, Nat.le_of_succ_le hlimit⟩

/-- A value without numbers that are out of range is taken as a whole. -/
theorem takeWhole_of_plain {value : Json} {room : Nat} (h : value.Plain)
    (hdepth : value.depth ≤ room) (whole : Bool) :
    Node.takeWhole ⟨value, room, whole⟩ = .ok ⟨value, room, true⟩ := by
  cases whole with
  | true => rfl
  | false =>
    rw [Node.takeWhole, if_neg Bool.false_ne_true, if_pos (isSound_of_plain value h hdepth)]

/-- The tag of a written record is found. -/
theorem tag_written {members : List (String × Json)} (hnames : (members.map (·.1)).Nodup)
    {member tag : String} (hmem : (member, str tag) ∈ members) {names : List String}
    (htag : tag ∈ names) (byPosition : Bool) (room : Nat) (whole : Bool) :
    (Fields.written members room whole).required member (Node.tag names byPosition) =
      .ok tag := by
  rw [Fields.required, Fields.find?_written hnames hmem, ok_bind]
  exact if_pos htag

/-- A written tagged record is read as its tag and its members, wherever there is room for it. -/
theorem exists_tagged (variants : List (String × List String)) {value : Json}
    {member tag : String} {members : List (String × Json)} {room limit : Nat}
    (hplain : value.Plain) (hvalue : value = obj ((member, str tag) :: members))
    (hnames : (member :: members.map (·.1)).Nodup) (htag : tag ∈ variants.map (·.1))
    (hdepth : value.depth ≤ room) (hlimit : room ≤ limit + 1) (whole : Bool) :
    ∃ inner, Record ((member, str tag) :: members) inner limit ∧
      Node.tagged ⟨value, room, whole⟩ member variants =
        .ok (tag, .written ((member, str tag) :: members) inner true) := by
  subst hvalue
  obtain ⟨inner, rfl, hmembers⟩ := exists_room_of_obj hdepth
  have hrecord : Record ((member, str tag) :: members) inner limit :=
    ⟨hnames, hmembers, Nat.le_of_succ_le_succ hlimit⟩
  refine ⟨inner, hrecord, ?_⟩
  rw [Node.tagged, takeWhole_of_plain hplain hdepth, ok_bind]
  change (Node.fields _ >>= _) = _
  rw [fields_obj, ok_bind, tag_written hrecord.distinct List.mem_cons_self htag]
  rfl

namespace Codec

variable {α : Type} {encode : α → Json} {decode : Node → Decoded α} {Fits : α → Prop}
  {least limit room : Nat} {fields : Fields} {name : String} {a : α}

/-- A member that is read fits, and nests no deeper than its record allows. -/
theorem of_required (h : Codec encode decode Fits least limit) (hfields : fields.Within room)
    (hread : fields.required name decode = .ok a) :
    Fits a ∧ (least ≤ room → (encode a).depth ≤ room) := by
  obtain ⟨found, hfind, hread⟩ := bind_eq_ok.1 hread
  cases found with
  | none => cases hread
  | some node => exact hfields.of_find? hfind ▸ h.sound hread

/-- A member that is read, or its default, fits and nests no deeper than its record allows. -/
theorem of_withDefault (h : Codec encode decode Fits least limit) {default : α}
    (hfits : Fits default) (hdefault : (encode default).depth ≤ least)
    (hfields : fields.Within room) (hread : fields.withDefault name default decode = .ok a) :
    Fits a ∧ (least ≤ room → (encode a).depth ≤ room) := by
  obtain ⟨found, hfind, hread⟩ := bind_eq_ok.1 hread
  cases found with
  | none =>
    obtain rfl := pure_eq_ok.1 hread
    exact ⟨hfits, Nat.le_trans hdefault⟩
  | some node => exact hfields.of_find? hfind ▸ h.sound hread

/-- An optional member that is read fits and nests no deeper than its record allows. -/
theorem of_optional (h : Codec encode decode Fits least limit) (hnull : ∀ a, encode a ≠ null)
    {o : Option α} (hfields : fields.Within room) (hread : fields.optional name decode = .ok o) :
    (∀ a ∈ o, Fits a) ∧ (least ≤ room → (option encode o).depth ≤ room) :=
  (h.nullable hnull).of_withDefault (by simp) (Nat.zero_le _) hfields hread

/-- A member that may be null, once read, fits and nests no deeper than its record allows. -/
theorem of_nullable (h : Codec encode decode Fits least limit) (hnull : ∀ a, encode a ≠ null)
    {o : Option α} (hfields : fields.Within room) (hread : fields.nullable name decode = .ok o) :
    (∀ a ∈ o, Fits a) ∧ (least ≤ room → (option encode o).depth ≤ room) := by
  unfold Fields.nullable at hread
  split at hread
  case isTrue => exact (h.nullable hnull).of_required hfields hread
  case isFalse => exact h.of_optional hnull hfields hread

/-- Items that are none where the member is missing. -/
theorem of_items (h : Codec encode decode Fits least limit) {as : List α}
    (hfields : fields.Within room)
    (hread : fields.withDefault name [] (Node.list decode) = .ok as) :
    (∀ a ∈ as, Fits a) ∧ (least < room → (array (as.map encode)).depth ≤ room) :=
  (h.list (least + 1) (Nat.le_refl _)).of_withDefault (by simp) (by simp) hfields hread

/-- Entries that are none where the member is missing. -/
theorem of_entries (h : Codec encode decode Fits least limit) {d : Dict α}
    (hfields : fields.Within room) (hread : fields.withDefault name ∅ (Node.dict decode) = .ok d) :
    (∀ entry ∈ d.entries, Fits entry.2) ∧ (least < room → (d.toJson encode).depth ≤ room) := by
  have hnone : ∀ entry ∈ (∅ : Dict α).entries, Fits entry.2 := List.forall_mem_nil _
  exact (h.dict (least + 1) (Nat.le_refl _)).of_withDefault hnone (Nat.le_add_left 1 least) hfields
    hread

/-- A list is written without numbers that are out of range, if its entries are. -/
theorem plain_items (h : Codec encode decode Fits least limit) {as : List α}
    (hfits : ∀ a ∈ as, Fits a) : (array (as.map encode)).Plain :=
  (h.list (least + 1) (Nat.le_refl _)).plain hfits

variable {members : List (String × Json)} {whole : Bool} (h : Codec encode decode Fits least limit)
  (hrecord : Record members room limit) (name : String)

include h hrecord

/-- A written member is read back. -/
theorem required (a : α) (hfits : Fits a) (hmem : (name, encode a) ∈ members) :
    (Fields.written members room whole).required name decode = .ok a := by
  rw [Fields.required, Fields.find?_written hrecord.distinct hmem, ok_bind]
  exact h.back hfits (hrecord.depth_le _ hmem) hrecord.room_le

/-- A written member is read back, whatever its default. -/
theorem withDefault (default a : α) (hfits : Fits a) (hmem : (name, encode a) ∈ members) :
    (Fields.written members room whole).withDefault name default decode = .ok a := by
  rw [Fields.withDefault, Fields.find?_written hrecord.distinct hmem, ok_bind]
  exact h.back hfits (hrecord.depth_le _ hmem) hrecord.room_le

/-- An optional member is read back. -/
theorem optional (hnull : ∀ a, encode a ≠ null) (o : Option α) (hfits : ∀ a ∈ o, Fits a)
    (hmem : (name, option encode o) ∈ members) :
    (Fields.written members room whole).optional name decode = .ok o :=
  (h.nullable hnull).withDefault hrecord name none o hfits hmem

/-- A member that may be null is read back. -/
theorem nullable_written (hnull : ∀ a, encode a ≠ null) (o : Option α) (hfits : ∀ a ∈ o, Fits a)
    (hmem : (name, option encode o) ∈ members) :
    (Fields.written members room whole).nullable name decode = .ok o :=
  h.optional hrecord name hnull o hfits hmem

/-- A list as a member is read back. -/
theorem items (as : List α) (hfits : ∀ a ∈ as, Fits a)
    (hmem : (name, array (as.map encode)) ∈ members) :
    (Fields.written members room whole).withDefault name [] (Node.list decode) = .ok as :=
  (h.list (least + 1) (Nat.le_refl _)).withDefault hrecord name [] as hfits hmem

end Codec

end Json

end BeanSynthesis
