import BeanSynthesis.Command.Generate
import BeanSynthesis.Proofs.Files.Apart

/-!
# Files outside the directory

Source files go below the directory that is asked for, unless a part of a name begins anew at the
root of the file system: then the directory makes no difference. No other name leads out of the
directory, because there are no two dots between its dots.
-/

namespace BeanSynthesis

open Source

variable {settings : Settings} {m : CodeModel} {options : List String} {selected : List Pass}
  {report : RunReport}

namespace Source

namespace PlainPath

/-- A place lies below a directory. -/
def IsBelow (place directory : PlainPath) : Prop :=
  place.fromRoot = directory.fromRoot ∧ ∃ rest, rest ≠ [] ∧ place.steps = directory.steps ++ rest

variable {start other : PlainPath} {parts : List String} {part : String}

private theorem follow_of_rooted (h : part.startsWith "/") :
    start.follow part = other.follow part := by
  have horigin : ∀ place : PlainPath, place.origin part = root := fun _ => if_pos h
  rw [follow, horigin, follow, horigin]

private theorem fromRoot_foldl_follow (h : start.fromRoot = true) (parts : List String) :
    (parts.foldl follow start).fromRoot = true := by
  induction parts generalizing start with
  | nil => exact h
  | cons part rest ih =>
    refine ih ?_
    change (start.origin part).fromRoot = true
    unfold origin
    split
    · rfl
    · exact h

end PlainPath

/-- One of the parts begins anew at the root of the file system. -/
def BeginsAnew (parts : List String) : Prop := ∃ part ∈ parts, part.startsWith "/"

variable {start : PlainPath} {parts : List String}

/-- Where parts begin anew, it makes no difference from where they are followed. -/
theorem BeginsAnew.foldl_follow (h : BeginsAnew parts) (start other : PlainPath) :
    parts.foldl PlainPath.follow start = parts.foldl PlainPath.follow other := by
  induction parts generalizing start other with
  | nil =>
    obtain ⟨part, hpart, -⟩ := h
    cases hpart
  | cons first rest ih =>
    rw [List.foldl_cons, List.foldl_cons]
    by_cases hfirst : first.startsWith "/"
    · rw [PlainPath.follow_of_rooted hfirst]
    · obtain ⟨part, hpart, hrooted⟩ := h
      have hrest : part ∈ rest := by
        rcases List.mem_cons.mp hpart with rfl | hrest
        · exact absurd hrooted hfirst
        · exact hrest
      exact ih ⟨part, hrest, hrooted⟩ _ _

/-- Other parts lead further down. -/
theorem foldl_follow_of_not (h : ¬BeginsAnew parts) (start : PlainPath) :
    parts.foldl PlainPath.follow start =
      { start with steps := start.steps ++ parts.flatMap PlainPath.stepsOf } := by
  induction parts generalizing start with
  | nil => simp
  | cons first rest ih =>
    have hfirst : ¬first.startsWith "/" := fun hrooted => h ⟨first, List.mem_cons_self, hrooted⟩
    have hrest : ¬BeginsAnew rest := fun ⟨part, hpart, hrooted⟩ =>
      h ⟨part, List.mem_cons_of_mem _ hpart, hrooted⟩
    have horigin : start.origin first = start := if_neg hfirst
    rw [List.foldl_cons, ih hrest, PlainPath.follow, horigin, List.flatMap_cons]
    simp

/-- A file lies below the directory unless its parts begin anew and lead elsewhere. -/
theorem isBelow_iff (start : PlainPath) (parts : List String) (base : String) :
    ({ directory := parts.foldl PlainPath.follow start, base } : Address).place.IsBelow start ↔
      (BeginsAnew parts →
        ({ directory := parts.foldl PlainPath.follow .root, base } : Address).place.IsBelow
          start) := by
  -- Parts that begin anew lead to one place from everywhere; all others only lead further down.
  by_cases hanew : BeginsAnew parts
  · rw [hanew.foldl_follow start .root]
    exact ⟨fun h _ => h, fun h => h hanew⟩
  · refine iff_of_true ?_ fun h => absurd h hanew
    rw [foldl_follow_of_not hanew]
    exact ⟨rfl, parts.flatMap PlainPath.stepsOf ++ [base ++ ".java"], by simp, List.append_assoc ..⟩

/-- The parts of the name of a class, which are followed one after the other. -/
def classParts (name : String) : List String := nameParts (packageName name) ++ [simpleName name]

private theorem startsWith_folderOf (text : String) :
    (folderOf text).startsWith "/" ↔ text.startsWith "/" := by
  have htext := folderOf_append_baseOf text
  rcases folderOf_eq_or text with hnone | ⟨front, hfront⟩
  · rw [hnone, String.empty_append] at htext
    rw [hnone]
    refine iff_of_false (by decide) fun hrooted => slash_not_mem_baseOf text ?_
    rw [htext]
    exact List.mem_of_mem_head? (startsWith_slash_iff.mp hrooted)
  · have hhead : text.toList.head? = (folderOf text).toList.head? := by
      rw [← congrArg String.toList htext, String.toList_append, hfront, String.toList_append]
      cases front.toList with
      | nil => rfl
      | cons first rest => rfl
    rw [startsWith_slash_iff, startsWith_slash_iff, hhead]

/-- The parts that are followed to the directory of the file of a class. -/
def directoryParts (name : String) : List String :=
  nameParts (packageName name) ++ [folderOf (simpleName name)]

private theorem classAddress_eq (start : PlainPath) (name : String) :
    classAddress start name =
      { directory := (directoryParts name).foldl PlainPath.follow start
        base := baseOf (simpleName name) } := by
  rw [directoryParts, List.foldl_append]
  rfl

private theorem beginsAnew_directoryParts (name : String) :
    BeginsAnew (directoryParts name) ↔ BeginsAnew (classParts name) := by
  simp only [BeginsAnew, classParts, directoryParts, List.mem_append, List.mem_singleton,
    or_and_right, exists_or, exists_eq_left, startsWith_folderOf]

private theorem classAddress_isBelow_iff (start : PlainPath) (name : String) :
    (classAddress start name).place.IsBelow start ↔
      (BeginsAnew (classParts name) → (classAddress .root name).place.IsBelow start) := by
  rw [classAddress_eq, classAddress_eq, ← beginsAnew_directoryParts]
  exact isBelow_iff start (directoryParts name) _

private theorem packageAddress_isBelow_iff (start : PlainPath) (name : String) :
    (packageAddress start name).place.IsBelow start ↔
      (BeginsAnew (nameParts name) → (packageAddress .root name).place.IsBelow start) :=
  isBelow_iff start (nameParts name) "package-info"

/-- What is followed from the root does not lie below a directory that does not begin there. -/
theorem not_isBelow_of_root (hrelative : start.fromRoot = false) (parts : List String)
    (base : String) :
    ¬({ directory := parts.foldl PlainPath.follow .root, base } : Address).place.IsBelow start := by
  rintro ⟨hroot, -⟩
  have hrooted : (parts.foldl PlainPath.follow .root).fromRoot = true :=
    PlainPath.fromRoot_foldl_follow rfl parts
  rw [Address.place, hrooted, hrelative] at hroot
  cases hroot

end Source

/-! ## Names -/

/-- Whichever of these classes and packages have a part that begins anew lead below the directory
all the same. -/
structure NamesWithin (start : PlainPath) (classNames packageNames : List String) : Prop where
  classes : ∀ name ∈ classNames, BeginsAnew (classParts name) →
    (classAddress .root name).place.IsBelow start
  packages : ∀ name ∈ packageNames, BeginsAnew (nameParts name) →
    (packageAddress .root name).place.IsBelow start

/-- The files of a model are written below the directory. -/
def CodeModel.FilesBelow (m : CodeModel) (output : String) : Prop :=
  ∀ file ∈ m.filesIn output, file.place.IsBelow (PlainPath.ofText output)

private theorem CodeModel.filesBelow_iff_namesWithin (m : CodeModel) (output : String) :
    m.FilesBelow output ↔ NamesWithin (PlainPath.ofText output) m.fileNames m.packageNames := by
  have hplaces : m.FilesBelow output ↔
      ∀ place ∈ (m.filesIn output).map (·.place), place.IsBelow (PlainPath.ofText output) := by
    simp [FilesBelow]
  rw [hplaces, places_eq, List.forall_mem_map, List.forall_mem_append, List.forall_mem_map,
    List.forall_mem_map]
  simp only [classAddress_isBelow_iff, packageAddress_isBelow_iff]
  exact ⟨fun h => ⟨h.1, h.2⟩, fun h => ⟨h.classes, h.packages⟩⟩

/-- From a directory that does not begin at the root, no part of a name may begin there. -/
theorem namesWithin_iff_of_relative {start : PlainPath} {classNames packageNames : List String}
    (hrelative : start.fromRoot = false) :
    NamesWithin start classNames packageNames ↔
      (∀ name ∈ classNames, ¬BeginsAnew (classParts name)) ∧
        ∀ name ∈ packageNames, ¬BeginsAnew (nameParts name) := by
  have hclass : ∀ name, ¬(classAddress .root name).place.IsBelow start := by
    intro name
    rw [classAddress_eq]
    exact not_isBelow_of_root hrelative _ _
  have hpackage : ∀ name, ¬(packageAddress .root name).place.IsBelow start :=
    fun name => not_isBelow_of_root hrelative (nameParts name) _
  constructor
  · intro h
    exact ⟨fun name hname hanew => hclass name (h.classes name hname hanew),
      fun name hname hanew => hpackage name (h.packages name hname hanew)⟩
  · rintro ⟨hclasses, hpackages⟩
    exact ⟨fun name hname hanew => absurd hanew (hclasses name hname),
      fun name hname hanew => absurd hanew (hpackages name hname)⟩

/-- No part of a proper name begins anew. -/
theorem ProperName.not_beginsAnew {name : String} (h : ProperName name) :
    ¬BeginsAnew (pieces '.' name) := by
  rintro ⟨part, hpart, hrooted⟩
  exact (h part hpart).2 (List.mem_of_mem_head? (startsWith_slash_iff.mp hrooted))

private theorem namesWithin_of_proper {start : PlainPath} {classNames packageNames : List String}
    (hclasses : ∀ c ∈ classNames, ProperName c) (hpackages : ∀ p ∈ packageNames, ProperName p) :
    NamesWithin start classNames packageNames where
  classes c hc hanew := by
    rw [classParts, (hclasses c hc).parts_eq] at hanew
    exact absurd hanew (hclasses c hc).not_beginsAnew
  packages p hp hanew := by
    rw [(hpackages p hp).nameParts_eq] at hanew
    exact absurd hanew (hpackages p hp).not_beginsAnew

/-- The files of a model, and those that a run makes of it, are written below the directory if and
only if no name leads out of it: those of the classes, of the object factories and of the packages,
with the packages that the run declares. -/
theorem CodeModel.files_below_iff (hplan : m.plan options = .ok selected)
    (hok : (synthesize settings m options).outcome = .ok report) (output : String) :
    let start := PlainPath.ofText output
    (m.FilesBelow output ↔ NamesWithin start m.fileNames m.packageNames) ∧
      ((synthesize settings m options).model.FilesBelow output ↔
        NamesWithin start m.fileNames (m.packageNamesAfter selected)) := by
  intro start
  obtain ⟨hfiles, hpackages⟩ := synthesize_names hplan hok
  refine ⟨m.filesBelow_iff_namesWithin output, ?_⟩
  rw [filesBelow_iff_namesWithin, hfiles, hpackages]

/-- A class of which the simple name begins anew: its file goes to the directory of temporary files,
whatever directory is asked for. -/
theorem tmpOrder_outside :
    let m : CodeModel := { classes := [{ name := "shop./tmp/Order" }] }
    let run := synthesize {} m [StyleMarker.option]
    m.validate = .ok () ∧ (∃ report, run.outcome = .ok report) ∧ ¬m.FilesBelow "out" ∧
      ¬run.model.FilesBelow "out" ∧
        (run.model.filesIn "out").map (·.path) = ["/tmp/Order.java"] := by
  intro m run
  have hplan : m.plan [StyleMarker.option] = .ok [.styleMarker] :=
    CodeModel.plan_map_option rfl [.styleMarker]
  have hcount : run.outcome.map (·.membersAdded) = .ok 1 := by decide +kernel
  obtain ⟨report, hok, -⟩ := Json.map_eq_ok.mp hcount
  obtain ⟨hbefore, hafter⟩ := CodeModel.files_below_iff hplan hok "out"
  have hanew : BeginsAnew (classParts "shop./tmp/Order") :=
    ⟨"/tmp/Order", by decide +kernel, by decide +kernel⟩
  have hout : ∀ packages, ¬NamesWithin (PlainPath.ofText "out") m.fileNames packages := by
    intro packages h
    have hnone := ((namesWithin_iff_of_relative (by decide +kernel)).mp h).1
    exact hnone "shop./tmp/Order" (by simp [m, CodeModel.fileNames]) hanew
  exact ⟨by decide +kernel, ⟨report, hok⟩, fun h => hout _ (hbefore.mp h),
    fun h => hout _ (hafter.mp h), by decide +kernel⟩

/-! ## Generating -/

/-- The sources that actions write, in order. -/
def writtenBy (actions : List Action) : List SourceFile :=
  actions.filterMap fun
    | .writeSource file => some file
    | _ => none

private theorem writtenBy_append (actions others : List Action) :
    writtenBy (actions ++ others) = writtenBy actions ++ writtenBy others :=
  List.filterMap_append ..

private theorem writtenBy_logActions (threshold : LogLevel) (entries : List LogEntry) :
    writtenBy (logActions threshold entries) = [] := by
  simp [writtenBy, logActions]

private theorem writtenBy_writeActions (threshold : LogLevel) (files : List SourceFile) :
    writtenBy (writeActions threshold files) = files := by
  induction files with
  | nil => rfl
  | cons file rest ih =>
    rw [writeActions, List.flatMap_cons, writtenBy_append, ← writeActions, ih]
    exact congrArg (file :: · ++ rest) (writtenBy_logActions threshold _)

/-- A command that succeeds has read a model, has run passes over it and has written the files of
the result. -/
theorem generate_written {r : GenerateRequest} {settingsFile modelFile : FileText}
    (h : (generate r settingsFile modelFile).succeeds) :
    ∃ m settings options report, CodeModel.ofFile r.modelPath modelFile = .ok m ∧
      (synthesize settings m options).outcome = .ok report ∧
        (generate r settingsFile modelFile).written =
          (synthesize settings m options).model.filesIn r.output := by
  unfold generate at h ⊢
  dsimp only at h ⊢
  split at h
  · cases h
  case h_2 settings options m hprepared =>
    obtain ⟨settings', -, hprepared⟩ := Json.bind_eq_ok.mp hprepared
    obtain ⟨options', -, hprepared⟩ := Json.bind_eq_ok.mp hprepared
    obtain ⟨m', hmodel, hprepared⟩ := Json.bind_eq_ok.mp hprepared
    cases hprepared
    cases hok : (synthesize settings m options).outcome with
    | error cause =>
      have hfailed : (Session.synthesize { model := m, settings } options).1 = .error cause := hok
      rw [hfailed] at h
      cases h
    | ok report =>
      have hdone : (Session.synthesize { model := m, settings } options).1 = .ok report := hok
      have hafter : (Session.synthesize { model := m, settings } options).2.2.model =
        (synthesize settings m options).model := rfl
      refine ⟨m, settings, options, report, hmodel, hok, ?_⟩
      have hopening : ∀ line threshold entries,
          writtenBy (.print line :: logActions threshold entries) = [] :=
        fun _ => writtenBy_logActions
      have hclosing : ∀ line other, writtenBy [.print line, .print other] = [] := fun _ _ => rfl
      rw [hdone, hafter]
      change writtenBy (_ :: _ ++ _ ++ [_, _] ++ _) = _
      rw [writtenBy_append, writtenBy_append, writtenBy_append, hopening, hclosing,
        writtenBy_writeActions]
      cases r.report with
      | none => simp [writtenBy, CodeModel.filesIn]
      | some path => simp [writtenBy, CodeModel.filesIn]

/-- Of a model with proper names that are all different, a command that succeeds writes files that
are all found in the end, below the directory that was asked for. -/
theorem generate_keeps_files {r : GenerateRequest} {settingsFile modelFile : FileText}
    (hmodel : CodeModel.ofFile r.modelPath modelFile = .ok m)
    (hnames : m.fileNames.Nodup) (hdeclared : m.packageNames.Nodup)
    (hproper : ∀ name ∈ m.fileNames ++ m.packageNames, ProperName name)
    (hinfo : ∀ name ∈ m.fileNames, simpleName name ≠ "package-info")
    (h : (generate r settingsFile modelFile).succeeds) :
    let files := (generate r settingsFile modelFile).written
    ∀ file ∈ files, onDisk files file.place = some file.text ∧
      file.place.IsBelow (PlainPath.ofText r.output) := by
  intro files
  obtain ⟨hclasses, hpackages⟩ := List.forall_mem_append.mp hproper
  obtain ⟨m', settings, options, report, hread, hok, hwritten⟩ := generate_written h
  obtain rfl : m = m' := Except.ok.inj (hmodel.symm.trans hread)
  let after := (synthesize settings m options).model
  obtain ⟨selected, hplan⟩ : ∃ selected, m.plan options = .ok selected := by
    cases hplan : m.plan options with
    | ok selected => exact ⟨selected, rfl⟩
    | error e => simp [synthesize, hplan] at hok
  obtain ⟨hafter, hafterPackages⟩ := synthesize_names hplan hok
  have hproperAfter : ∀ name ∈ after.packageNames, ProperName name := by
    intro name hname
    rw [hafterPackages] at hname
    rcases CodeModel.mem_packageNamesAfter hname with hold | ⟨hne, c, hc, rfl⟩
    · exact hpackages name hold
    · exact (hclasses c hc).package hne
  have happart : after.FilesApart r.output := by
    rw [after.filesApart_iff_namesApart, hafter]
    refine (namesApart_iff_of_proper hclasses hproperAfter).mpr ⟨hnames, ?_, ?_⟩
    · exact hafterPackages ▸ CodeModel.nodup_packageNamesAfter hdeclared selected
    · exact fun c hc hsimple => absurd hsimple (hinfo c hc)
  have hbelow : after.FilesBelow r.output := by
    rw [after.filesBelow_iff_namesWithin, hafter]
    exact namesWithin_of_proper hclasses hproperAfter
  have hfiles : files = after.filesIn r.output := hwritten
  rw [hfiles]
  exact fun file hfile => ⟨onDisk_of_nodup happart file hfile, hbelow file hfile⟩

end BeanSynthesis
