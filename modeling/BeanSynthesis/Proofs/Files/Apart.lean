import Mathlib.Data.List.Nodup
import BeanSynthesis.Proofs.Edits.Offers
import BeanSynthesis.Proofs.Exchange.Codec
import BeanSynthesis.Proofs.Files.Places
import BeanSynthesis.Proofs.Growth.Runs

/-!
# Files that overwrite each other

The source files of a model go to different places if and only if the names of its classes, its
object factories and its packages have different addresses. A run keeps the names, and adds at most
packages of classes. For names as they are common in Java, the addresses are different if and only
if the names are.
-/

namespace BeanSynthesis

open Source

variable {settings : Settings} {context : PassContext} {m n : CodeModel} {options : List String}
  {selected : List Pass} {report : RunReport} {start : PlainPath} {output : String}

/-! ## Places of files -/

/-- The place that a file is written to. -/
def SourceFile.place (file : SourceFile) : PlainPath := PlainPath.ofText file.path

/-- The files of a model in a directory. -/
def CodeModel.filesIn (m : CodeModel) (output : String) : List SourceFile :=
  m.sourceFiles.map (·.inDirectory output)

/-- No file of a model is written to the place of another one. -/
def CodeModel.FilesApart (m : CodeModel) (output : String) : Prop :=
  ((m.filesIn output).map (·.place)).Nodup

/-- The names of the classes and object factories, which are written in this order. -/
def CodeModel.fileNames (m : CodeModel) : List String :=
  (m.classes ++ m.objectFactories).map (·.name)

/-- The names of the packages that are declared. -/
def CodeModel.packageNames (m : CodeModel) : List String := m.packages.map (·.name)

/-- The addresses of these classes and packages are all different. -/
structure NamesApart (start : PlainPath) (classNames packageNames : List String) : Prop where
  classes : (classNames.map (classAddress start)).Nodup
  packages : (packageNames.map start.package).Nodup
  between : ∀ c ∈ classNames, ∀ p ∈ packageNames, classAddress start c ≠ packageAddress start p

/-- The places of the files of a model are those of its names and of its packages. -/
theorem CodeModel.places_eq (m : CodeModel) (output : String) :
    (m.filesIn output).map (·.place) =
      (m.fileNames.map (classAddress (PlainPath.ofText output)) ++
        m.packageNames.map (packageAddress (PlainPath.ofText output))).map Address.place := by
  have hclass : ∀ c : BeanClass, ((SourceFile.ofClass c).inDirectory output).place =
      (classAddress (PlainPath.ofText output) c.name).place := by
    intro c
    simp only [SourceFile.place, SourceFile.inDirectory, SourceFile.ofClass, ofText_sourcePath]
  have hpackage : ∀ p : Package, ((SourceFile.ofPackage p).inDirectory output).place =
      (packageAddress (PlainPath.ofText output) p.name).place := by
    intro p
    simp only [SourceFile.place, SourceFile.inDirectory, SourceFile.ofPackage, ofText_packagePath]
  simp only [filesIn, sourceFiles, fileNames, packageNames, List.map_append, List.map_map,
    Function.comp_def, hclass, hpackage]

/-- Files go to different places if and only if the names have different addresses. -/
theorem CodeModel.filesApart_iff_namesApart (m : CodeModel) (output : String) :
    m.FilesApart output ↔ NamesApart (PlainPath.ofText output) m.fileNames m.packageNames := by
  have hpackages : (m.packageNames.map (packageAddress (PlainPath.ofText output))).Nodup ↔
      (m.packageNames.map (PlainPath.ofText output).package).Nodup := by
    let declaration (directory : PlainPath) : Address := { directory, base := "package-info" }
    have hinjective : Function.Injective declaration := fun _ _ h => congrArg Address.directory h
    rw [← List.nodup_map_iff hinjective, List.map_map]
    exact Iff.rfl
  rw [FilesApart, places_eq, List.nodup_map_iff Address.place_injective, List.nodup_append,
    hpackages]
  constructor
  · rintro ⟨hclasses, hpackages, hbetween⟩
    exact ⟨hclasses, hpackages, fun c hc p hp =>
      hbetween _ (List.mem_map_of_mem hc) _ (List.mem_map_of_mem hp)⟩
  · intro h
    refine ⟨h.classes, h.packages, ?_⟩
    rintro _ hclass _ hpackage
    obtain ⟨c, hc, rfl⟩ := List.mem_map.mp hclass
    obtain ⟨p, hp, rfl⟩ := List.mem_map.mp hpackage
    exact h.between c hc p hp

/-! ## Names as in Java -/

/-- A name of which no part is empty or has a slash. -/
def ProperName (name : String) : Prop := ∀ part ∈ pieces '.' name, part ≠ "" ∧ '/' ∉ part.toList

namespace ProperName

variable {name a b : String}

/-- A proper name is a simple name, or its package is proper as well. -/
theorem package_or (h : ProperName name) :
    packageName name = "" ∧ pieces '.' name = [simpleName name] ∨
      pieces '.' name = pieces '.' (packageName name) ++ [simpleName name] ∧
        nameParts (packageName name) = pieces '.' (packageName name) := by
  have hsimple := pieces_of_not_mem (dot_not_mem_simpleName name)
  rcases simple_or_dotted name with ⟨hpackage, hsame⟩ | hdotted
  · rw [hsame] at hsimple
    exact .inl ⟨hpackage, hsame.symm ▸ hsimple⟩
  · have hpieces := pieces_of_toList hdotted
    rw [hsimple] at hpieces
    refine .inr ⟨hpieces, List.filter_eq_self.mpr fun part hpart => ?_⟩
    have hpart' : part ∈ pieces '.' name := by simp [hpieces, hpart]
    simpa using (h part hpart').1

/-- The parts of a proper name are those of its package and its simple name. -/
theorem parts_eq (h : ProperName name) :
    nameParts (packageName name) ++ [simpleName name] = pieces '.' name := by
  rcases h.package_or with ⟨hpackage, hpieces⟩ | ⟨hpieces, hparts⟩
  · rw [hpackage, hpieces]
    rfl
  · rw [hpieces, hparts]

/-- The parts of a proper name are the pieces between its dots. -/
theorem nameParts_eq (h : ProperName name) : nameParts name = pieces '.' name :=
  List.filter_eq_self.mpr fun part hpart => by simpa using (h part hpart).1

/-- The package and the simple name of a proper name tell what it is. -/
theorem eq_of_parts (ha : ProperName a) (hb : ProperName b)
    (hpackage : nameParts (packageName a) = nameParts (packageName b))
    (hsimple : simpleName a = simpleName b) : a = b :=
  pieces_injective '.' (by rw [← ha.parts_eq, ← hb.parts_eq, hpackage, hsimple])

/-- The package of a proper name is proper, if there is one. -/
theorem package (h : ProperName name) (hne : packageName name ≠ "") :
    ProperName (packageName name) := by
  rcases h.package_or with ⟨hnone, -⟩ | ⟨hpieces, -⟩
  · exact absurd hnone hne
  · exact fun part hpart => h part (by simp [hpieces, hpart])

private theorem slash_not_mem_parts (h : ProperName name) :
    ∀ part ∈ nameParts (packageName name) ++ [simpleName name], part ≠ "" ∧ '/' ∉ part.toList := by
  rw [h.parts_eq]
  exact h

end ProperName

/-- Parts without slashes lead on from directory to directory. -/
theorem foldl_follow_of_proper (start : PlainPath) {parts : List String}
    (h : ∀ part ∈ parts, part ≠ "" ∧ '/' ∉ part.toList) :
    parts.foldl PlainPath.follow start = { start with steps := start.steps ++ parts } := by
  induction parts generalizing start with
  | nil => simp
  | cons part rest ih =>
    obtain ⟨⟨hne, hslash⟩, hrest⟩ := List.forall_mem_cons.mp h
    have hrooted : ¬part.startsWith "/" := fun hrooted =>
      hslash (List.mem_of_mem_head? (startsWith_slash_iff.mp hrooted))
    have hpart : start.follow part = { start with steps := start.steps ++ [part] } := by
      have horigin : start.origin part = start := if_neg hrooted
      have hsteps : PlainPath.stepsOf part = [part] := by
        rw [PlainPath.stepsOf, pieces_of_not_mem hslash]
        simpa using hne
      rw [PlainPath.follow, horigin, hsteps]
    rw [List.foldl_cons, hpart, ih _ hrest]
    simp

/-- The file of a proper name is where its parts say. -/
theorem classAddress_of_proper (start : PlainPath) {name : String} (h : ProperName name) :
    classAddress start name =
      { directory := { start with steps := start.steps ++ nameParts (packageName name) }
        base := simpleName name } := by
  obtain ⟨hpackage, hsimple⟩ := List.forall_mem_append.mp h.slash_not_mem_parts
  obtain ⟨-, hslash⟩ := List.forall_mem_singleton.mp hsimple
  obtain ⟨hfolder, hbase⟩ := folder_base_of_not_mem hslash
  rw [classAddress, PlainPath.package, foldl_follow_of_proper start hpackage, PlainPath.address,
    hfolder, hbase, PlainPath.follow_empty]

private theorem package_of_proper (start : PlainPath) {name : String} (h : ProperName name) :
    start.package name = { start with steps := start.steps ++ pieces '.' name } := by
  rw [PlainPath.package, h.nameParts_eq]
  exact foldl_follow_of_proper start h

private theorem nodup_map_iff_of_injOn {α β : Type} {f : α → β} {xs : List α}
    (h : ∀ x ∈ xs, ∀ y ∈ xs, f x = f y → x = y) : (xs.map f).Nodup ↔ xs.Nodup :=
  ⟨List.Nodup.of_map f, List.Nodup.map_on h⟩

/-- Proper names have different addresses if and only if they are different and no class is named
like the declaration of a package. -/
theorem namesApart_iff_of_proper {classNames packageNames : List String}
    (hclasses : ∀ c ∈ classNames, ProperName c) (hpackages : ∀ p ∈ packageNames, ProperName p) :
    NamesApart start classNames packageNames ↔ classNames.Nodup ∧ packageNames.Nodup ∧
      ∀ c ∈ classNames, simpleName c = "package-info" → packageName c ∉ packageNames := by
  have hclassNodup : (classNames.map (classAddress start)).Nodup ↔ classNames.Nodup := by
    refine nodup_map_iff_of_injOn fun a ha b hb heq => ?_
    rw [classAddress_of_proper start (hclasses a ha), classAddress_of_proper start (hclasses b hb)]
      at heq
    obtain ⟨hdirectory, hsimple⟩ := Address.mk.inj heq
    have hpackage := List.append_cancel_left (PlainPath.mk.inj hdirectory).2
    exact (hclasses a ha).eq_of_parts (hclasses b hb) hpackage hsimple
  have hpackageNodup : (packageNames.map start.package).Nodup ↔ packageNames.Nodup := by
    refine nodup_map_iff_of_injOn fun a ha b hb heq => ?_
    rw [package_of_proper start (hpackages a ha), package_of_proper start (hpackages b hb)] at heq
    exact pieces_injective '.' (List.append_cancel_left (PlainPath.mk.inj heq).2)
  have hbetween : ∀ c ∈ classNames, ∀ p ∈ packageNames,
      (classAddress start c = packageAddress start p ↔
        simpleName c = "package-info" ∧ packageName c = p) := by
    intro c hc p hp
    rw [classAddress_of_proper start (hclasses c hc), packageAddress,
      package_of_proper start (hpackages p hp), Address.mk.injEq, PlainPath.mk.injEq,
      List.append_cancel_left_eq, and_comm, and_iff_right rfl]
    refine and_congr_right fun _ => ⟨fun hparts => ?_, fun hpackage => ?_⟩
    · -- A package of a proper name has parts, so it is not where the classes without a package are.
      rcases (hclasses c hc).package_or with ⟨hpackage, -⟩ | ⟨-, hproper⟩
      · rw [hpackage] at hparts
        have hnone : [] = pieces '.' p := hparts
        exact absurd hnone.symm (by simp [pieces, List.splitOn_ne_nil])
      · exact pieces_injective '.' (hproper.symm.trans hparts)
    · rw [hpackage, (hpackages p hp).nameParts_eq]
  constructor
  · intro h
    refine ⟨hclassNodup.mp h.classes, hpackageNodup.mp h.packages, fun c hc hsimple hmem => ?_⟩
    exact h.between c hc _ hmem ((hbetween c hc _ hmem).mpr ⟨hsimple, rfl⟩)
  · rintro ⟨hclassNames, hpackageNames, hdeclared⟩
    refine ⟨hclassNodup.mpr hclassNames, hpackageNodup.mpr hpackageNames, fun c hc p hp heq => ?_⟩
    obtain ⟨hsimple, rfl⟩ := (hbetween c hc p hp).mp heq
    exact hdeclared c hc hsimple hp

/-! ## Writing files -/

/-- What is found at each place after a file has been written. -/
def SourceFile.writeTo (disk : PlainPath → Option String) (file : SourceFile) :
    PlainPath → Option String :=
  Function.update disk file.place (some file.text)

/-- What is found at each place after files have been written one after the other. -/
def onDisk (files : List SourceFile) : PlainPath → Option String :=
  files.foldl SourceFile.writeTo fun _ => none

private theorem foldl_writeTo_of_not_mem {files : List SourceFile} {place : PlainPath}
    (h : place ∉ files.map (·.place)) (disk : PlainPath → Option String) :
    files.foldl SourceFile.writeTo disk place = disk place := by
  induction files generalizing disk with
  | nil => rfl
  | cons file rest ih =>
    rw [List.map_cons, List.mem_cons, not_or] at h
    rw [List.foldl_cons, ih h.2, SourceFile.writeTo, Function.update_of_ne h.1]

/-- Files at different places are all found in the end. -/
theorem onDisk_of_nodup {files : List SourceFile} (h : (files.map (·.place)).Nodup) :
    ∀ file ∈ files, onDisk files file.place = some file.text := by
  unfold onDisk
  generalize (fun _ : PlainPath => (none : Option String)) = disk
  induction files generalizing disk with
  | nil => exact List.forall_mem_nil _
  | cons first rest ih =>
    obtain ⟨hfirst, hrest⟩ := List.nodup_cons.mp h
    refine List.forall_mem_cons.mpr ⟨?_, ih hrest _⟩
    rw [List.foldl_cons, foldl_writeTo_of_not_mem hfirst, SourceFile.writeTo,
      Function.update_self]

/-! ## Names after a run -/

/-- The list with all these entries, each of which it holds at least once. -/
def addAll (names xs : List String) : List String := names.foldl (fun xs name => addOnce name xs) xs

private theorem mem_addAll {names xs : List String} {name : String} :
    name ∈ addAll names xs ↔ name ∈ xs ∨ name ∈ names := by
  induction names generalizing xs with
  | nil => simp [addAll]
  | cons first rest ih =>
    rw [addAll, List.foldl_cons, ← addAll, ih, mem_addOnce, List.mem_cons, or_assoc]

private theorem addAll_of_subset {names xs : List String} (h : ∀ name ∈ names, name ∈ xs) :
    addAll names xs = xs := by
  induction names with
  | nil => rfl
  | cons first rest ih =>
    obtain ⟨hfirst, hrest⟩ := List.forall_mem_cons.mp h
    rw [addAll, List.foldl_cons, addOnce_of_mem hfirst]
    exact ih hrest

private theorem nodup_addAll {names xs : List String} (h : xs.Nodup) : (addAll names xs).Nodup := by
  induction names generalizing xs with
  | nil => exact h
  | cons first rest ih =>
    have hfirst : (addOnce first xs).Nodup := by
      unfold addOnce
      split
      case isTrue => exact h
      case isFalse hnew => exact List.concat_eq_append ▸ List.Nodup.concat hnew h
    exact ih hfirst

private theorem addAll_addAll (names xs : List String) :
    addAll names (addAll names xs) = addAll names xs :=
  addAll_of_subset fun _ hname => mem_addAll.mpr (.inr hname)

namespace NullMarker

private theorem map_name_go (settings : Settings) (name : String) (packages : List Package) :
    (CodeModel.updatePackage.go name (mark settings) packages).map (·.name) =
      packages.map (·.name) := by
  induction packages with
  | nil => rfl
  | cons p rest ih =>
    unfold CodeModel.updatePackage.go
    split
    · rfl
    · rw [List.map_cons, List.map_cons, ih]

/-- A package that is marked is declared. -/
theorem map_name_markIn (settings : Settings) (packages : List Package) (name : String) :
    (markIn settings packages name).map (·.name) = addOnce name (packages.map (·.name)) := by
  have hany : packages.any (·.name == name) ↔ name ∈ packages.map (·.name) := by
    simp [List.any_eq_true]
  unfold markIn
  split
  case isTrue hmarked =>
    refine (addOnce_of_mem (hany.mp ?_)).symm
    unfold isMarkedIn at hmarked
    cases hfind : packages.find? (·.name == name) with
    | none => simp [hfind] at hmarked
    | some p => exact List.any_eq_true.mpr ⟨p, List.mem_of_find?_eq_some hfind, by
        simpa using List.find?_some hfind⟩
  case isFalse =>
    split
    case isTrue hold => rw [map_name_go, addOnce_of_mem (hany.mp hold)]
    case isFalse hnew =>
      have hname : name ∉ packages.map (·.name) := mt hany.mpr hnew
      rw [addOnce, if_neg hname, List.map_append]
      rfl

private theorem map_name_edit (settings : Settings) (names : List String)
    (packages : List Package) :
    (edit settings names packages).map (·.name) = addAll names (packages.map (·.name)) := by
  induction names generalizing packages with
  | nil => rfl
  | cons name rest ih =>
    rw [edit, List.foldl_cons, addAll, List.foldl_cons, ← map_name_markIn]
    exact ih _

end NullMarker

/-- The names of the packages that are declared after passes. -/
def CodeModel.packageNamesAfter (m : CodeModel) (passes : List Pass) : List String :=
  if .nullMarker ∈ passes then addAll (NullMarker.packages m) m.packageNames else m.packageNames

/-- Packages are not repeated after passes, if they are not before. -/
theorem CodeModel.nodup_packageNamesAfter (h : m.packageNames.Nodup) (passes : List Pass) :
    (m.packageNamesAfter passes).Nodup := by
  unfold packageNamesAfter
  split
  · exact nodup_addAll h
  · exact h

/-- A package that is declared in the end was declared before or has a class. -/
theorem CodeModel.mem_packageNamesAfter {passes : List Pass} {name : String}
    (h : name ∈ m.packageNamesAfter passes) :
    name ∈ m.packageNames ∨ name ≠ "" ∧ ∃ c ∈ m.fileNames, packageName c = name := by
  unfold packageNamesAfter at h
  split at h
  case isFalse => exact .inl h
  case isTrue =>
    refine (mem_addAll.mp h).imp_right fun hname => ?_
    have hlisted := Dict.isSome_get?_ofList.mp (Dict.mem_names.mp hname)
    simp only [List.map_map, Function.comp_def, List.map_id_fun', id, List.mem_filter,
      List.mem_map, decide_eq_true_eq] at hlisted
    obtain ⟨⟨c, hc, hpackage⟩, hne⟩ := hlisted
    refine ⟨hne, c.name, ?_, hpackage⟩
    exact List.mem_map_of_mem (List.mem_append_left _ hc.1)

namespace Pass

variable {pass : Pass}

private theorem editFactory_name (pass : Pass) (settings : Settings) (c : BeanClass) :
    (pass.editFactory settings c).name = c.name := by
  cases pass <;> rfl

/-- A pass keeps the names, and the one that marks packages declares those of the classes. -/
theorem names_edited (pass : Pass) (context : PassContext) (m : CodeModel) :
    (pass.edited context m).fileNames = m.fileNames ∧
      (pass.edited context m).packageNames = m.packageNamesAfter [pass] := by
  constructor
  · simp [edited, CodeModel.fileNames, Function.comp_def, editFactory_name]
  · unfold CodeModel.packageNamesAfter
    cases pass with
    | nullMarker => exact NullMarker.map_name_edit _ _ _
    | _ => rfl

end Pass

/-- The names after a run: those before, and the packages of the classes if they are marked. -/
theorem EngineRun.names_runPasses {passes : List Pass} {report₀ : RunReport}
    (hok : (runPasses context m report₀ passes).outcome = .ok report) :
    (runPasses context m report₀ passes).model.fileNames = m.fileNames ∧
      (runPasses context m report₀ passes).model.packageNames = m.packageNamesAfter passes := by
  -- The packages of the classes stay what they are, so marking them later declares the same.
  induction passes generalizing m report₀ with
  | nil => exact ⟨rfl, rfl⟩
  | cons pass rest ih =>
    obtain ⟨passReport, report₁, hpass, hrest, hmodel⟩ := runPasses_cons hok
    have hedited := (Pass.run_performed hpass).model
    have hmarked := NullMarker.packages_eq (Pass.grows_edited hpass)
    obtain ⟨hnames, hpackages⟩ := pass.names_edited context m
    obtain ⟨hnames', hpackages'⟩ := ih hrest
    rw [hedited] at hnames' hpackages'
    rw [hmodel, hedited, hnames', hnames, hpackages']
    refine ⟨rfl, ?_⟩
    unfold CodeModel.packageNamesAfter at hpackages ⊢
    rw [hmarked, hpackages]
    by_cases hfirst : pass = .nullMarker
    · subst hfirst
      simp [addAll_addAll]
    · have hnot : Pass.nullMarker ∉ [pass] := by simpa using Ne.symm hfirst
      simp [hnot, Ne.symm hfirst]

/-- A run changes no names of files, and adds the packages of the passes that mark some. -/
theorem synthesize_names (hplan : m.plan options = .ok selected)
    (hok : (synthesize settings m options).outcome = .ok report) :
    (synthesize settings m options).model.fileNames = m.fileNames ∧
      (synthesize settings m options).model.packageNames = m.packageNamesAfter selected := by
  rw [synthesize_outcome hplan] at hok
  rw [synthesize_model hplan]
  exact EngineRun.names_runPasses hok

/-- The files of a model, and those that a run makes of it, go to different places if and only if
the names have different addresses: those of the classes, of the object factories and of the
packages, with the packages that the run declares. If they do, every file is found at its place in
the end. -/
theorem CodeModel.files_apart_iff (hplan : m.plan options = .ok selected)
    (hok : (synthesize settings m options).outcome = .ok report) (output : String) :
    let start := PlainPath.ofText output
    let after := (synthesize settings m options).model
    (m.FilesApart output ↔ NamesApart start m.fileNames m.packageNames) ∧
      (after.FilesApart output ↔ NamesApart start m.fileNames (m.packageNamesAfter selected)) ∧
      (after.FilesApart output → ∀ file ∈ after.filesIn output,
        onDisk (after.filesIn output) file.place = some file.text) := by
  intro start after
  obtain ⟨hfiles, hpackages⟩ := synthesize_names hplan hok
  refine ⟨m.filesApart_iff_namesApart output, ?_, onDisk_of_nodup⟩
  rw [after.filesApart_iff_namesApart output, hfiles, hpackages]

/-- A class and an object factory of one name, for which a run writes a single file: the second one
of the two. -/
theorem order_overwritten :
    let m : CodeModel :=
      { classes := [{ name := "shop.Order" }], objectFactories := [{ name := "shop.Order" }] }
    let options := [StyleMarker.option]
    let run := synthesize {} m options
    m.validate = .ok () ∧ (∃ report, run.outcome = .ok report) ∧ ¬m.FilesApart "out" ∧
      ¬run.model.FilesApart "out" ∧ (run.model.filesIn "out").map (·.path) =
        ["out/shop/Order.java", "out/shop/Order.java"] := by
  intro m options run
  have hplan : m.plan options = .ok [.styleMarker] := CodeModel.plan_map_option rfl [.styleMarker]
  have hcount : run.outcome.map (·.membersAdded) = .ok 2 := by decide +kernel
  obtain ⟨report, hok, -⟩ := Json.map_eq_ok.mp hcount
  obtain ⟨hbefore, hafter, -⟩ := CodeModel.files_apart_iff hplan hok "out"
  have htwice : m.fileNames = ["shop.Order", "shop.Order"] := rfl
  have hsame : ∀ packages, ¬NamesApart (PlainPath.ofText "out") m.fileNames packages := by
    intro packages h
    have hclasses := h.classes
    simp [htwice] at hclasses
  exact ⟨by decide +kernel, ⟨report, hok⟩, fun h => hsame _ (hbefore.mp h),
    fun h => hsame _ (hafter.mp h), by decide +kernel⟩

end BeanSynthesis
