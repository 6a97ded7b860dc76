import BeanSynthesis.Proofs.Exchange.WellNamed

/-!
# Portable accessors

The accessors of lists, of local views and of carried values are portable, and so are the
constructors that come with the latter. Their types are those of the fields and methods that they
are made for.
-/

namespace BeanSynthesis

open TypeExpr (IsClassName)

variable {settings : Settings} (hsettings : settings.WellNamed)

/-! ## Lists -/

namespace ListAccessors

variable {g : ListGetter}

/-- The test for entries can be exchanged. -/
theorem hasEntries_portable : g.hasEntries.Portable where
  returnType := trivial
  params := List.forall_mem_nil _
  annotations := List.forall_mem_nil _
  throws := List.forall_mem_nil _
  body := by
    rintro _ ⟨⟩
    simp [ListGetter.list, bodyLevels]

/-- The test for no entries can be exchanged. -/
theorem hasNoEntries_portable : g.hasNoEntries.Portable where
  returnType := trivial
  params := List.forall_mem_nil _
  annotations := List.forall_mem_nil _
  throws := List.forall_mem_nil _
  body := by
    rintro _ ⟨⟩
    simp [ListGetter.list, bodyLevels]

/-- A getter of a list with a well-formed type has elements of a well-formed type. -/
theorem element_wellFormed {n : Method} (hn : n.Portable) (h : listGetter? n = some g) :
    g.element.WellFormed := by
  unfold listGetter? at h
  split at h
  · obtain ⟨property, -, rfl⟩ := Option.map_eq_some_iff.1 h
    exact hn.returnType.elementOrObject
  · cases h

include hsettings

/-- The count of a list can be exchanged. -/
theorem count_portable (name : String) : (g.count settings name).Portable where
  returnType := trivial
  params := List.forall_mem_nil _
  annotations := hsettings.marks (by simp [RuntimeClasses.names])
  throws := List.forall_mem_nil _
  body := by
    rintro _ ⟨⟩
    simp [ListGetter.list, bodyLevels]

/-- The getter for an entry can be exchanged, if the type of entries is well-formed. -/
theorem atIndex_portable (hg : g.element.WellFormed) : (g.atIndex settings).Portable where
  returnType := hg
  params := List.forall_mem_singleton.2 ⟨trivial,
    hsettings.marks (by simp [RuntimeClasses.names])⟩
  annotations :=
    exchangeable_nullnessAnnotations _ (hsettings.runtime _ (by simp [RuntimeClasses.names]))
  throws := List.forall_mem_singleton.2 (ClassRef.wellFormed_ofName.2 (by decide))
  body := by
    rintro _ ⟨⟩
    simp [ListGetter.list, bodyLevels]

/-- The method that adds an entry can be exchanged, if the type of entries is well-formed. -/
theorem add_portable (hg : g.element.WellFormed) : (g.add settings).Portable where
  returnType := trivial
  params := List.forall_mem_singleton.2 ⟨hg,
    exchangeable_nullnessAnnotations _ (hsettings.runtime _ (by simp [RuntimeClasses.names]))⟩
  annotations := List.forall_mem_nil _
  throws := List.forall_mem_nil _
  body := by
    rintro _ ⟨⟩
    simp [ListGetter.list, bodyLevels]

/-- The setter of a field with a well-formed type can be exchanged. -/
theorem setter_portable {f : InstanceField} (hf : f.type.WellFormed) :
    (setter settings f).Portable where
  returnType := trivial
  params := List.forall_mem_singleton.2 ⟨hf,
    exchangeable_nullnessAnnotations _ (hsettings.runtime _ (by simp [RuntimeClasses.names]))⟩
  annotations := List.forall_mem_nil _
  throws := List.forall_mem_nil _
  body := by
    rintro _ ⟨⟩
    simp [bodyLevels]

end ListAccessors

/-! ## Local views -/

/-- The type of a local companion is well-formed. -/
theorem LocalCompanion.type_wellFormed {t : TypeExpr} {companion : LocalCompanion}
    (h : localCompanion? t = some companion) : companion.type.WellFormed := by
  unfold localCompanion? at h
  split at h
  · split at h
    case h_7 => cases h
    all_goals
      obtain rfl := Option.some.inj h
      exact TypeExpr.wellFormed_ofName.2 (by decide)
  · cases h

namespace LocalAccessors

/-- Only the class of a date or time has a local companion. -/
theorem className_isClassName {t : TypeExpr} {companion : LocalCompanion} (ht : t.WellFormed)
    (h : localCompanion? t = some companion) : IsClassName (className t) := by
  cases t with
  | named name args => exact ht.1
  | _ => cases h

include hsettings

/-- The accessors of a field with a well-formed type can be exchanged. -/
theorem fieldMethods_portable {f : InstanceField} (hf : f.type.WellFormed) :
    ∀ n ∈ fieldMethods settings f, n.Portable := by
  have hnullable : settings.runtime.nullable ∈ settings.runtime.names := by
    simp [RuntimeClasses.names]
  unfold fieldMethods
  split
  case h_1 companion hcompanion =>
    have htype := LocalCompanion.type_wellFormed hcompanion
    have hclass := className_isClassName hf hcompanion
    have hoffset : ∀ room, (offset companion).Fits (room + 1) := by
      intro room
      unfold offset
      split
      · exact Expr.fits_staticField.2 (ClassRef.wellFormed_ofName.2 (by decide))
      · exact Expr.fits_nullLit
    refine List.forall_mem_cons.2 ⟨?_, List.forall_mem_singleton.2 ?_⟩
    · exact {
        returnType := htype
        params := List.forall_mem_nil _
        annotations := hsettings.marks hnullable
        throws := List.forall_mem_nil _
        body := by
          rintro _ ⟨⟩
          simp [bodyLevels] }
    · exact {
        returnType := trivial
        params := List.forall_mem_singleton.2 ⟨htype, hsettings.marks hnullable⟩
        annotations := List.forall_mem_nil _
        throws := List.forall_mem_nil _
        body := by
          rintro _ ⟨⟩
          simp [bodyLevels, hclass, hoffset] }
  case h_2 => exact List.forall_mem_nil _

end LocalAccessors

/-! ## Carried values -/

namespace ValueAccessors

variable {type carrier : TypeExpr}

/-- A default constructor can be exchanged. -/
theorem defaultConstructor_portable : (defaultConstructor settings).Portable :=
  Constructor.portable_stamp.2 ⟨List.forall_mem_nil _, by simp [bodyLevels]⟩

/-- The forms of a well-formed type are well-formed. -/
theorem withCompanion_wellFormed (withLocal : Bool) (htype : type.WellFormed) :
    ∀ t ∈ withCompanion withLocal type, t.WellFormed := by
  unfold withCompanion
  split
  · refine List.forall_mem_cons.2 ⟨htype, fun t ht => ?_⟩
    obtain ⟨companion, hcompanion, rfl⟩ := Option.map_eq_some_iff.1 (Option.mem_toList.1 ht)
    exact LocalCompanion.type_wellFormed hcompanion
  · exact List.forall_mem_singleton.2 htype

include hsettings

private theorem valueParam_exchangeable (htype : type.WellFormed) :
    (valueParam settings type).Exchangeable :=
  ⟨htype, exchangeable_nullnessAnnotations _
    (hsettings.runtime _ (by simp [RuntimeClasses.names]))⟩

/-- A constructor from a value can be exchanged. -/
theorem valueConstructor_portable (htype : type.WellFormed) :
    (valueConstructor settings type).Portable :=
  Constructor.portable_stamp.2
    ⟨List.forall_mem_singleton.2 (valueParam_exchangeable hsettings htype), by simp [bodyLevels]⟩

/-- A setter for a value can be exchanged. -/
theorem valueSetter_portable (setter property : String) (hcarrier : carrier.WellFormed)
    (htype : type.WellFormed) : (valueSetter settings setter property carrier type).Portable :=
  Method.portable_stamp.2 {
    returnType := hcarrier
    params := List.forall_mem_singleton.2 (valueParam_exchangeable hsettings htype)
    annotations := hsettings.marks (by simp [RuntimeClasses.names])
    throws := List.forall_mem_nil _
    body := by
      rintro _ ⟨⟩
      simp [bodyLevels, hcarrier] }

/-- A getter for a value can be exchanged. -/
theorem valueGetter_portable (name getter read : String) (hcarrier : carrier.WellFormed)
    (htype : type.WellFormed) : (valueGetter settings name getter carrier type read).Portable := by
  have hnullable : settings.runtime.nullable ∈ settings.runtime.names := by
    simp [RuntimeClasses.names]
  unfold valueGetter
  split
  · refine Method.portable_stamp.2 {
      returnType := htype
      params := List.forall_mem_singleton.2 ⟨htype, List.forall_mem_nil _⟩
      annotations := List.forall_mem_nil _
      throws := List.forall_mem_nil _
      body := ?_ }
    rintro _ ⟨⟩
    simp [bodyLevels, hcarrier]
  · refine Method.portable_stamp.2 {
      returnType := htype
      params := List.forall_mem_nil _
      annotations := hsettings.marks hnullable
      throws := List.forall_mem_nil _
      body := ?_ }
    rintro _ ⟨⟩
    simp [bodyLevels, hcarrier]

end ValueAccessors

end BeanSynthesis
