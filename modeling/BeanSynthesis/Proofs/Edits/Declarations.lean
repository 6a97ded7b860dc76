import Mathlib.Algebra.BigOperators.Group.List.Basic
import BeanSynthesis.Proofs.Edits.Treatment

/-!
# Edits of object factories and packages

The passes for object factories and for packages change declarations in place. What they write is
what they look for, so they change a declaration only once.
-/

namespace BeanSynthesis

variable {settings : Settings} {m : CodeModel} {tally : Tally}

/-! ## Object factories -/

namespace FactoryDocs

variable {n x : Method}

/-- The name of an element that is not public. -/
def isHidden (f : Field) : Bool := f.type.erasureName == "QName" && f.visibility != .publ

/-- A field that is public if it is the name of an element. -/
def publish (f : Field) : Field := if isHidden f then { f with visibility := .publ } else f

/-- What the documentation of a method shall say about its result, if it creates something. -/
def creation? (n : Method) : Option String := if isCreator n then resultDoc? n else none

/-- A method with the documentation that it shall have. -/
def document (n : Method) : Method :=
  match creation? n with
  | none => n
  | some doc => { withFinalParam n with javadoc := { n.javadoc with returns := some doc } }

/-- A method that is documented otherwise than it shall be. -/
def isUndocumented (n : Method) : Bool :=
  match creation? n with
  | none => false
  | some doc => n.javadoc.returns != some doc

private theorem publishNames_eq (fields : List Field) :
    publishNames fields = (fields.map publish, fields.countP isHidden) := by
  induction fields with
  | nil => rfl
  | cons f rest ih =>
    simp only [publishNames, ih, List.map_cons]
    by_cases hf : isHidden f
    · rw [List.countP_cons_of_pos hf, publish, if_pos hf]
      exact if_pos hf
    · rw [List.countP_cons_of_neg hf, publish, if_neg hf]
      exact if_neg hf

/-- Making a parameter final changes nothing but parameters. -/
theorem withFinalParam_eq (n : Method) : ∃ params,
    withFinalParam n = { n with params } ∧ params.length = n.params.length := by
  unfold withFinalParam
  split
  · exact ⟨_, rfl, List.length_map _⟩
  · exact ⟨n.params, rfl, rfl⟩

/-- What creates something gets the documentation of its result, and a final parameter. -/
theorem document_of_creation {doc : String} (h : creation? n = some doc) : document n =
    { withFinalParam n with javadoc := { n.javadoc with returns := some doc } } := by
  simp only [document, h]

/-- With the documentation in place only the parameter becomes final. -/
theorem document_of_returns {doc : String} (hcreation : creation? n = some doc)
    (hreturns : n.javadoc.returns = some doc) : document n = withFinalParam n := by
  obtain ⟨params, hparams, -⟩ := withFinalParam_eq n
  rw [document_of_creation hcreation, hparams, ← hreturns]

private theorem documentMethods_eq (factory : String) (methods : List Method) :
    (documentMethods factory methods).outcome =
      .ok (methods.map document, methods.countP isUndocumented) := by
  induction methods with
  | nil => rfl
  | cons n rest ih =>
    unfold documentMethods
    change (match creation? n with
      | none => _
      | some doc => _ : Step (List Method × Nat)).outcome = _
    cases hn : creation? n with
    | none =>
      have hsame : document n = n := by simp only [document, hn]
      have hdone : ¬isUndocumented n := by simp [isUndocumented, hn]
      rw [List.map_cons, hsame, List.countP_cons_of_neg hdone]
      exact Step.bind_eq_ok.mpr ⟨_, ih, rfl⟩
    | some doc =>
      dsimp only
      by_cases hdoc : n.javadoc.returns == some doc
      · have hdone : ¬isUndocumented n := by simpa [isUndocumented, hn] using hdoc
        rw [if_pos hdoc, List.map_cons, document_of_returns hn (beq_iff_eq.mp hdoc),
          List.countP_cons_of_neg hdone]
        exact Step.bind_eq_ok.mpr ⟨_, ih, rfl⟩
      · have hundone : isUndocumented n := by simpa [isUndocumented, hn] using hdoc
        obtain ⟨params, hparams, -⟩ := withFinalParam_eq n
        have hmade : document n =
            { withFinalParam n with
              javadoc := { (withFinalParam n).javadoc with returns := some doc } } := by
          rw [document_of_creation hn, hparams]
        rw [if_neg hdoc, List.map_cons, hmade, List.countP_cons_of_pos hundone]
        exact Step.bind_eq_ok.mpr ⟨(), rfl, Step.bind_eq_ok.mpr ⟨_, ih, rfl⟩⟩

/-- What the pass does to a factory. -/
def edit (c : BeanClass) : BeanClass :=
  { c with fields := c.fields.map publish, methods := c.methods.map document }

/-- A factory becomes the edited one, and what was hidden or undocumented is counted. -/
theorem onFactory_makes : Makes onFactory edit
    (fun c => c.fields.countP isHidden + c.methods.countP isUndocumented) := by
  intro c after tally h
  dsimp only
  obtain ⟨documented, hdocument, h⟩ := Step.bind_eq_ok.mp h
  obtain rfl : _ = documented :=
    Except.ok.inj ((documentMethods_eq c.name c.methods).symm.trans hdocument)
  rw [publishNames_eq] at h
  obtain ⟨rfl, rfl⟩ := Prod.mk.inj (Except.ok.inj h)
  exact ⟨rfl, Tally.membersAdded_touchIf _ _⟩

/-! ### A second run -/

/-- A published field is not hidden. -/
theorem isHidden_publish (f : Field) : isHidden (publish f) = false := by
  unfold publish
  split
  case isTrue _ => simp [isHidden]
  case isFalse hshown => exact Bool.eq_false_iff.mpr hshown

/-- A name is published once. -/
theorem publish_publish (f : Field) : publish (publish f) = publish f := by
  rw [publish, if_neg (Bool.eq_false_iff.mp (isHidden_publish f))]

private theorem wrapsElement_congr (hreturn : x.returnType = n.returnType)
    (hlength : x.params.length = n.params.length) : wrapsElement x = wrapsElement n := by
  rw [wrapsElement, hreturn, hlength, wrapsElement]

/-- What shall be said about a result is read off the name, the return type and the number of
parameters. -/
theorem creation?_congr (hname : x.name = n.name) (hreturn : x.returnType = n.returnType)
    (hlength : x.params.length = n.params.length) : creation? x = creation? n := by
  have hempty : x.params.isEmpty = n.params.isEmpty := by
    rw [Bool.eq_iff_iff, List.isEmpty_iff_length_eq_zero, List.isEmpty_iff_length_eq_zero, hlength]
  unfold creation? isCreator resultDoc?
  rw [hname, wrapsElement_congr hreturn hlength, hempty, hreturn]

private theorem withFinalParam_again (n : Method) (javadoc : Javadoc) :
    withFinalParam { withFinalParam n with javadoc } = { withFinalParam n with javadoc } := by
  by_cases hn : wrapsElement n
  · have hagain : wrapsElement { withFinalParam n with javadoc } := by
      rw [← hn]
      simp only [withFinalParam, if_pos hn]
      exact wrapsElement_congr rfl (List.length_map _)
    rw [withFinalParam, if_pos hagain]
    simp [withFinalParam, hn, List.map_map, Function.comp_def]
  · have hsame : withFinalParam n = n := if_neg hn
    rw [hsame]
    exact if_neg hn

/-- A documented method is documented as it shall be. -/
theorem document_eq_or (n : Method) : creation? n = none ∧ document n = n ∨
    ∃ doc, creation? (document n) = some doc ∧ (document n).javadoc.returns = some doc ∧
      withFinalParam (document n) = document n := by
  cases hn : creation? n with
  | none => exact .inl ⟨rfl, by simp only [document, hn]⟩
  | some doc =>
    obtain ⟨params, hparams, hlength⟩ := withFinalParam_eq n
    rw [document_of_creation hn]
    refine .inr ⟨doc, ?_, rfl, ?_⟩
    · rw [← hn, hparams]
      exact creation?_congr rfl rfl hlength
    · exact withFinalParam_again n _

/-- A method is documented once. -/
theorem document_document (n : Method) : document (document n) = document n := by
  rcases document_eq_or n with ⟨-, hsame⟩ | ⟨doc, hcreation, hreturns, hfinal⟩
  · rw [hsame, hsame]
  · rw [document_of_returns hcreation hreturns, hfinal]

/-- A factory that has been edited is not edited again. -/
theorem edit_edit (c : BeanClass) : edit (edit c) = edit c := by
  simp only [edit, List.map_map]
  rw [show publish ∘ publish = publish from funext publish_publish,
    show document ∘ document = document from funext document_document]

end FactoryDocs

/-! ## Packages -/

namespace NullMarker

variable {packages : List Package} {name other : String} {names : List String}

/-- Whether the package of this name is marked. -/
def isMarkedIn (settings : Settings) (packages : List Package) (name : String) : Bool :=
  match packages.find? (·.name == name) with
  | some p => hasAnnotation p.annotations settings.runtime.nullMarked
  | none => false

/-- The packages, of which the one of this name is marked. -/
def markIn (settings : Settings) (packages : List Package) (name : String) : List Package :=
  if isMarkedIn settings packages name then packages
  else if packages.any (·.name == name) then
    CodeModel.updatePackage.go name (mark settings) packages
  else packages ++ [mark settings { name }]

/-- What the pass does to packages. -/
def edit (settings : Settings) (names : List String) (packages : List Package) : List Package :=
  names.foldl (markIn settings) packages

/-- Marking succeeds, and counts nothing if and only if all packages are marked. -/
theorem markAll_eq (settings : Settings) (m : CodeModel) (names : List String) :
    ∃ tally, (markAll settings m names).outcome =
      .ok ({ m with packages := edit settings names m.packages }, tally) ∧
      (tally.membersAdded = 0 ↔ ∀ name ∈ names, isMarkedIn settings m.packages name) := by
  induction names generalizing m with
  | nil => exact ⟨{}, rfl, iff_of_true rfl (List.forall_mem_nil _)⟩
  | cons name rest ih =>
    unfold markAll
    by_cases hmarked : isMarkedIn settings m.packages name
    · have hsame : markIn settings m.packages name = m.packages := if_pos hmarked
      obtain ⟨tally, hrest, hnone⟩ := ih m
      refine ⟨tally, ?_, ?_⟩
      · rw [if_pos (show isMarked settings m name from hmarked), edit, List.foldl_cons, hsame]
        exact Step.bind_eq_ok.mpr ⟨(), rfl, hrest⟩
      · rw [hnone, List.forall_mem_cons, and_iff_right hmarked]
    · have hupdate : m.updatePackage name (mark settings) =
          { m with packages := markIn settings m.packages name } := by
        simp only [markIn, if_neg hmarked, CodeModel.updatePackage]
        split
        · rfl
        · rfl
      obtain ⟨others, hrest, -⟩ := ih (m.updatePackage name (mark settings))
      refine ⟨.synthesized ++ others, ?_, ?_⟩
      · rw [if_neg (show ¬isMarked settings m name from hmarked)]
        refine Step.bind_eq_ok.mpr ⟨_, hrest, ?_⟩
        rw [hupdate]
        rfl
      · have hcounted : 1 + others.membersAdded ≠ 0 := by omega
        exact iff_of_false hcounted fun hall => hmarked (List.forall_mem_cons.mp hall).1

private theorem find?_updatePackage_go (settings : Settings) (packages : List Package) :
    (CodeModel.updatePackage.go name (mark settings) packages).find? (·.name == other) =
      if other = name then (packages.find? (·.name == other)).map (mark settings)
      else packages.find? (·.name == other) := by
  induction packages with
  | nil => simp [CodeModel.updatePackage.go]
  | cons p rest ih =>
    by_cases hp : p.name = name
    · by_cases hother : other = name
      · simp [CodeModel.updatePackage.go, hp, hother, mark]
      · simp [CodeModel.updatePackage.go, hp, hother, Ne.symm hother, mark]
    · by_cases hfound : p.name = other
      · have hother : other ≠ name := fun heq => hp (hfound.trans heq)
        simp [CodeModel.updatePackage.go, hfound, hother]
      · simpa [CodeModel.updatePackage.go, hp, hfound] using ih

private theorem hasAnnotation_mark (settings : Settings) (p : Package) :
    hasAnnotation (mark settings p).annotations settings.runtime.nullMarked := by
  simp [mark, hasAnnotation, Annotation.ofName, ClassRef.ofName]

private theorem isMarkedIn_markIn (settings : Settings) (packages : List Package) (name : String) :
    isMarkedIn settings (markIn settings packages name) name := by
  unfold markIn
  split
  case isTrue hmarked => exact hmarked
  case isFalse hmarked =>
    split
    case isTrue hany =>
      obtain ⟨p, hp⟩ :=
        Option.isSome_iff_exists.mp (List.find?_isSome.mpr (List.any_eq_true.mp hany))
      rw [isMarkedIn, find?_updatePackage_go, if_pos rfl, hp]
      exact hasAnnotation_mark settings p
    case isFalse hnone =>
      have hfind : packages.find? (·.name == name) = none := by
        simpa [List.find?_eq_none] using hnone
      rw [isMarkedIn, List.find?_append, hfind]
      simpa [mark] using hasAnnotation_mark settings { name }

/-- A mark stays when other packages are marked. -/
theorem isMarkedIn_markIn_of_isMarkedIn (h : isMarkedIn settings packages other) :
    isMarkedIn settings (markIn settings packages name) other := by
  by_cases hother : other = name
  · rw [hother]
    exact isMarkedIn_markIn settings packages name
  · unfold markIn
    split
    · exact h
    · split
      · rw [isMarkedIn, find?_updatePackage_go, if_neg hother]
        exact h
      · unfold isMarkedIn at h ⊢
        rw [List.find?_append]
        cases hfind : packages.find? (·.name == other) with
        | none => simp [hfind] at h
        | some p => simpa [hfind] using h

private theorem isMarkedIn_edit_of_isMarkedIn (h : isMarkedIn settings packages other) :
    isMarkedIn settings (edit settings names packages) other := by
  induction names generalizing packages with
  | nil => exact h
  | cons name rest ih => exact ih (isMarkedIn_markIn_of_isMarkedIn h)

/-- In the end every package is marked. -/
theorem isMarkedIn_edit (h : other ∈ names) :
    isMarkedIn settings (edit settings names packages) other := by
  induction names generalizing packages with
  | nil => cases h
  | cons name rest ih =>
    rcases List.mem_cons.mp h with rfl | hrest
    · have hmarked : isMarkedIn settings (markIn settings packages other) other :=
        isMarkedIn_markIn settings packages other
      rw [edit, List.foldl_cons]
      exact isMarkedIn_edit_of_isMarkedIn hmarked
    · exact ih hrest

/-- Packages that are marked stay as they are. -/
theorem edit_eq_self_iff : edit settings names packages = packages ↔
    ∀ name ∈ names, isMarkedIn settings packages name := by
  constructor
  · intro h name hname
    rw [← h]
    exact isMarkedIn_edit hname
  · intro h
    induction names with
    | nil => rfl
    | cons name rest ih =>
      obtain ⟨hname, hrest⟩ := List.forall_mem_cons.mp h
      have hsame : markIn settings packages name = packages := if_pos hname
      rw [edit, List.foldl_cons, hsame]
      exact ih hrest

/-- Packages are marked once. -/
theorem edit_edit : edit settings names (edit settings names packages) =
    edit settings names packages :=
  edit_eq_self_iff.mpr fun _ hname => isMarkedIn_edit hname

/-- A grown model has its classes in the same packages. -/
theorem packages_eq {options : List String} {m n : CodeModel} (h : m.Grows settings options n) :
    NullMarker.packages n = NullMarker.packages m := by
  have hnames : ∀ {cs ds : List BeanClass}, List.Forall₂ (BeanClass.Grows settings options) cs ds →
      (ds.filter fun c => !c.isEnum).map (·.packageName) =
        (cs.filter fun c => !c.isEnum).map (·.packageName) := by
    intro cs ds hclasses
    induction hclasses with
    | nil => rfl
    | @cons c d cs ds hcd _ ih =>
      have hpackage : d.packageName = c.packageName := by
        rw [BeanClass.packageName, hcd.name, BeanClass.packageName]
      by_cases hc : c.isEnum
      · simp [hcd.isEnum_eq, hc, ih]
      · simp [hcd.isEnum_eq, hc, ih, hpackage]
  rw [NullMarker.packages, hnames h.classes, NullMarker.packages]

end NullMarker

end BeanSynthesis
