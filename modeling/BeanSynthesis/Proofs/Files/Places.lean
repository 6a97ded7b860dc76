import BeanSynthesis.Proofs.Spelling.Table
import BeanSynthesis.Source.Files

/-!
# Where source files go

The path of a source file is put together from the directory that all files go to, the parts of the
name of a package, and the simple name of a class. The place that it leads to is found by following
them one after the other. None of them goes back, because the parts of a name have no dots, but a
part that starts with a slash begins anew at the root of the file system.
-/

namespace BeanSynthesis.Source

/-! ## Pieces of texts -/

/-- A text starts with a slash if its first character is one. -/
theorem startsWith_slash_iff {text : String} :
    text.startsWith "/" ↔ text.toList.head? = some '/' := by
  rw [String.startsWith_string_iff]
  cases text.toList with
  | nil => simp
  | cons first rest => simp [eq_comm]

private theorem exists_of_endsWith_slash {text : String} (h : text.endsWith "/") :
    ∃ front, text = front ++ "/" := by
  rw [String.endsWith_eq_endsWith_toSlice, String.Slice.endsWith_string_iff] at h
  obtain ⟨front, hfront⟩ := h
  refine ⟨String.ofList front, String.toList_injective ?_⟩
  simpa using hfront.symm

@[simp] private theorem pieces_empty (separator : Char) : pieces separator "" = [""] := rfl

/-- A text is cut into pieces at every separator. -/
theorem pieces_of_toList {separator : Char} {text front rest : String}
    (h : text.toList = front.toList ++ separator :: rest.toList) :
    pieces separator text = pieces separator front ++ pieces separator rest := by
  rw [pieces, h, List.splitOn_append_cons_self, List.map_append, pieces, pieces]

private theorem pieces_append (front rest : String) :
    pieces '/' (front ++ "/" ++ rest) = pieces '/' front ++ pieces '/' rest :=
  pieces_of_toList (by simp [String.toList_append])

/-- A text without separators is its only piece. -/
theorem pieces_of_not_mem {separator : Char} {text : String} (h : separator ∉ text.toList) :
    pieces separator text = [text] := by
  rw [pieces, List.splitOn_eq_singleton h, List.map_singleton, String.ofList_toList]

/-- The pieces of a text tell what it is. -/
theorem pieces_injective (separator : Char) : Function.Injective (pieces separator) := by
  intro text other h
  have hsplit : text.toList.splitOn separator = other.toList.splitOn separator :=
    (List.map_inj_right fun _ _ hlist => String.ofList_injective hlist).mp h
  apply String.toList_injective
  calc
    text.toList = [separator].intercalate (text.toList.splitOn separator) :=
      (List.intercalate_splitOn separator).symm
    _ = other.toList := by rw [hsplit, List.intercalate_splitOn]

private theorem mem_of_mem_splitOn {separator x : Char} {xs ys : List Char}
    (hys : ys ∈ xs.splitOn separator) (hx : x ∈ ys) : x ∈ xs ∧ x ≠ separator := by
  induction xs generalizing ys with
  | nil =>
    rw [List.splitOn_nil, List.mem_singleton] at hys
    rw [hys] at hx
    cases hx
  | cons first rest ih =>
    rw [List.splitOn_cons_eq_if_modifyHead] at hys
    split at hys
    case isTrue hfirst =>
      rcases List.mem_cons.mp hys with rfl | hrest
      · cases hx
      · exact ⟨List.mem_cons_of_mem _ (ih hrest hx).1, (ih hrest hx).2⟩
    case isFalse hfirst =>
      cases hsplit : rest.splitOn separator with
      | nil => exact absurd hsplit (List.splitOn_ne_nil _ _)
      | cons head others =>
        rw [hsplit, List.modifyHead_cons] at hys
        rw [hsplit] at ih
        rcases List.mem_cons.mp hys with rfl | hothers
        · rcases List.mem_cons.mp hx with rfl | hx
          · exact ⟨List.mem_cons_self, by simpa using hfirst⟩
          · have hhead := ih List.mem_cons_self hx
            exact ⟨List.mem_cons_of_mem _ hhead.1, hhead.2⟩
        · have hlater := ih (List.mem_cons_of_mem _ hothers) hx
          exact ⟨List.mem_cons_of_mem _ hlater.1, hlater.2⟩

/-- The characters of a piece are those of the text, without separators. -/
theorem mem_of_mem_pieces {separator char : Char} {text piece : String}
    (hpiece : piece ∈ pieces separator text) (hchar : char ∈ piece.toList) :
    char ∈ text.toList ∧ char ≠ separator := by
  obtain ⟨chars, hchars, rfl⟩ := List.mem_map.mp hpiece
  rw [String.toList_ofList] at hchar
  exact mem_of_mem_splitOn hchars hchar

private theorem dot_not_mem_of_mem_nameParts {name part : String} (h : part ∈ nameParts name) :
    '.' ∉ part.toList := fun hdot => (mem_of_mem_pieces (List.mem_filter.mp h).1 hdot).2 rfl

/-! ## Walking -/

namespace PlainPath

/-- Where nothing has been followed yet. -/
def here : PlainPath := { fromRoot := false, steps := [] }

/-- The root of the file system. -/
def root : PlainPath := { fromRoot := true, steps := [] }

/-- The place from where a path counts: the root, if it says so, and else the place reached. -/
def origin (start : PlainPath) (path : String) : PlainPath :=
  if path.startsWith "/" then root else start

/-- The place that a path leads to. -/
def walk (start : PlainPath) (path : String) : PlainPath :=
  let origin := start.origin path
  { origin with steps := (pieces '/' path).foldl (takeStep origin.fromRoot) origin.steps }

variable {start : PlainPath} {path step : String}

private theorem ofText_eq_walk (path : String) : ofText path = here.walk path := by
  unfold ofText walk origin
  by_cases hrooted : path.startsWith "/"
  · simp only [hrooted, if_true, root]
  · simp only [hrooted, Bool.false_eq_true, if_false, here]

@[simp] private theorem takeStep_empty (fromRoot : Bool) (steps : List String) :
    takeStep fromRoot steps "" = steps := rfl

@[simp] private theorem walk_empty (start : PlainPath) : start.walk "" = start := rfl

private theorem origin_append (h : path ≠ "") (rest : String) :
    start.origin (path ++ rest) = start.origin path := by
  have hhead : (path ++ rest).startsWith "/" ↔ path.startsWith "/" := by
    rw [startsWith_slash_iff, startsWith_slash_iff, String.toList_append]
    cases hpath : path.toList with
    | nil => exact absurd (String.toList_eq_nil_iff.mp hpath) h
    | cons first others => rfl
  simp only [origin, hhead]

private theorem foldl_pieces_slash (fromRoot : Bool) (steps : List String) (path : String) :
    (pieces '/' (path ++ "/")).foldl (takeStep fromRoot) steps =
      (pieces '/' path).foldl (takeStep fromRoot) steps := by
  have hpieces : pieces '/' (path ++ "/") = pieces '/' path ++ [""] := by
    simpa using pieces_append path ""
  rw [hpieces, List.foldl_append, List.foldl_cons, List.foldl_nil, takeStep_empty]

/-- A slash at the end makes no difference. -/
theorem walk_slash (h : path ≠ "") : start.walk (path ++ "/") = start.walk path := by
  rw [walk, origin_append h, foldl_pieces_slash, walk]

/-- What comes behind a slash is followed from where the slash leads to. -/
theorem walk_append (h : ¬step.startsWith "/") :
    start.walk (path ++ "/" ++ step) = (start.walk (path ++ "/")).walk step := by
  have hslash : path ++ "/" ≠ "" := by simp
  have horigin : (start.walk (path ++ "/")).origin step = start.walk (path ++ "/") := if_neg h
  rw [walk, origin_append hslash, pieces_append, List.foldl_append,
    ← foldl_pieces_slash _ _ path, walk.eq_def (start.walk (path ++ "/")), horigin]
  rfl

/-- Going on from a path is going on from where it leads to. -/
theorem walk_descend (start : PlainPath) (path step : String) :
    start.walk (descend path step) = (start.walk path).walk step := by
  unfold descend
  by_cases hstep : step.startsWith "/"
  · rw [if_pos hstep, walk, walk, origin, origin, if_pos hstep, if_pos hstep]
  rw [if_neg hstep]
  by_cases hempty : path = ""
  · subst hempty
    simp
  by_cases hends : path.endsWith "/"
  · rw [if_pos (by simp [hends])]
    obtain ⟨front, rfl⟩ := exists_of_endsWith_slash hends
    exact walk_append hstep
  · rw [if_neg (by simp [hempty, hends]), walk_append hstep, walk_slash hempty]

private theorem walk_foldl_descend (start : PlainPath) (path : String) (steps : List String) :
    start.walk (steps.foldl descend path) = steps.foldl walk (start.walk path) := by
  induction steps generalizing path with
  | nil => rfl
  | cons step rest ih => rw [List.foldl_cons, List.foldl_cons, ih, walk_descend]

/-- The place of what is put into a package directory in the directory that all files go to. -/
theorem ofText_descend (output package step : String) :
    ofText (descend output (descend (packageDirectory package) step)) =
      ((nameParts package).foldl walk (ofText output)).walk step := by
  rw [ofText_eq_walk, walk_descend, ← ofText_eq_walk, walk_descend, packageDirectory,
    walk_foldl_descend, walk_empty]

/-! ## Following parts of names -/

/-- The steps of a text without dots: what stands between its slashes, empty pieces left out. -/
def stepsOf (text : String) : List String := (pieces '/' text).filter (· ≠ "")

/-- The place that a part of a name leads to. -/
def follow (start : PlainPath) (part : String) : PlainPath :=
  { start.origin part with steps := (start.origin part).steps ++ stepsOf part }

/-- Without dots one never goes back. -/
theorem foldl_takeStep (fromRoot : Bool) (steps : List String) {texts : List String}
    (h : ∀ text ∈ texts, '.' ∉ text.toList) :
    texts.foldl (takeStep fromRoot) steps = steps ++ texts.filter (· ≠ "") := by
  induction texts generalizing steps with
  | nil => simp
  | cons text rest ih =>
    obtain ⟨htext, hrest⟩ := List.forall_mem_cons.mp h
    rw [List.foldl_cons, ih _ hrest]
    by_cases hempty : text = ""
    · simp [hempty]
    · have hdot : text ≠ "." := by
        rintro rfl
        exact htext (by decide)
      have hdots : text ≠ ".." := by
        rintro rfl
        exact htext (by decide)
      simp [takeStep, hempty, hdot, hdots]

private theorem walk_eq_follow (start : PlainPath) {part : String} (h : '.' ∉ part.toList) :
    start.walk part = start.follow part := by
  rw [walk, foldl_takeStep _ _ fun piece hpiece hdot => h (mem_of_mem_pieces hpiece hdot).1]
  rfl

private theorem foldl_walk_eq_follow (start : PlainPath) {parts : List String}
    (h : ∀ part ∈ parts, '.' ∉ part.toList) :
    parts.foldl walk start = parts.foldl follow start := by
  induction parts generalizing start with
  | nil => rfl
  | cons part rest ih =>
    obtain ⟨hpart, hrest⟩ := List.forall_mem_cons.mp h
    rw [List.foldl_cons, List.foldl_cons, walk_eq_follow start hpart, ih _ hrest]

/-- The empty text leads nowhere else. -/
@[simp] theorem follow_empty (start : PlainPath) : start.follow "" = start := by
  have hsteps : stepsOf "" = [] := rfl
  have horigin : start.origin "" = start := rfl
  rw [follow, horigin, hsteps, List.append_nil]

end PlainPath

/-! ## Addresses -/

/-- What stands up to the last slash of a text, with the slash. -/
def folderOf (text : String) : String :=
  String.ofList (text.toList.reverse.dropWhile (· ≠ '/')).reverse

/-- What stands behind the last slash of a text. -/
def baseOf (text : String) : String :=
  String.ofList (text.toList.reverse.takeWhile (· ≠ '/')).reverse

/-- A text is its folder and what is called so there. -/
theorem folderOf_append_baseOf (text : String) : folderOf text ++ baseOf text = text := by
  apply String.toList_injective
  rw [folderOf, baseOf, String.toList_append, String.toList_ofList, String.toList_ofList,
    ← List.reverse_append, List.takeWhile_append_dropWhile, List.reverse_reverse]

/-- What is called so in a folder has no slash. -/
theorem slash_not_mem_baseOf (text : String) : '/' ∉ (baseOf text).toList := by
  intro hmem
  have hmem' : '/' ∈ text.toList.reverse.takeWhile (· ≠ '/') := by simpa [baseOf] using hmem
  simpa using List.all_eq_true.1 List.all_takeWhile _ hmem'

/-- A folder is empty or ends with a slash. -/
theorem folderOf_eq_or (text : String) :
    folderOf text = "" ∨ ∃ front, folderOf text = front ++ "/" := by
  unfold folderOf
  rcases dropWhile_ne_cases '/' text.toList.reverse with hnone | ⟨rest, hrest⟩
  · rw [hnone]
    exact .inl rfl
  · rw [hrest]
    exact .inr ⟨String.ofList rest.reverse, String.toList_injective (by simp)⟩

/-- A text without slashes names a file and no folder. -/
theorem folder_base_of_not_mem {text : String} (h : '/' ∉ text.toList) :
    folderOf text = "" ∧ baseOf text = text := by
  have htext := folderOf_append_baseOf text
  rcases folderOf_eq_or text with hnone | ⟨front, hfront⟩
  · rw [hnone, String.empty_append] at htext
    exact ⟨hnone, htext⟩
  · rw [← htext, hfront] at h
    simp [String.toList_append] at h

/-- The directory of a source file and its name without the ending. -/
structure Address where
  directory : PlainPath
  base : String
deriving DecidableEq, Repr

namespace Address

/-- The place of the file. -/
def place (a : Address) : PlainPath :=
  { a.directory with steps := a.directory.steps ++ [a.base ++ ".java"] }

/-- Different addresses are different places. -/
theorem place_injective : Function.Injective place := by
  rintro ⟨⟨fromRoot, steps⟩, base⟩ ⟨⟨fromRoot', steps'⟩, base'⟩ h
  obtain ⟨hroot, hsteps⟩ := PlainPath.mk.inj h
  obtain ⟨hdirectory, hlast⟩ := List.append_inj' hsteps rfl
  have hbase : base = base' := by simpa using hlast
  have hroot : fromRoot = fromRoot' := hroot
  have hdirectory : steps = steps' := hdirectory
  rw [hroot, hdirectory, hbase]

end Address

/-- The address of a file that is named so in a directory; slashes lead to other directories. -/
def PlainPath.address (directory : PlainPath) (text : String) : Address :=
  { directory := directory.follow (folderOf text), base := baseOf text }

/-- The file of a name without dots is at its address. -/
theorem PlainPath.walk_java (start : PlainPath) {text : String} (h : '.' ∉ text.toList) :
    start.walk (text ++ ".java") = (start.address text).place := by
  have hbase : '/' ∉ (baseOf text ++ ".java").toList := by
    simp [String.toList_append, slash_not_mem_baseOf]
  have hrelative : ¬(baseOf text ++ ".java").startsWith "/" := fun hrooted =>
    hbase (List.mem_of_mem_head? (startsWith_slash_iff.mp hrooted))
  have hfile : ∀ directory : PlainPath, directory.walk (baseOf text ++ ".java") =
      { directory with steps := directory.steps ++ [baseOf text ++ ".java"] } := by
    intro directory
    have horigin : directory.origin (baseOf text ++ ".java") = directory := if_neg hrelative
    have hlong : ∀ short : String, short.length < 5 → baseOf text ++ ".java" ≠ short := by
      rintro short hshort rfl
      have hending : ".java".length = 5 := rfl
      rw [String.length_append] at hshort
      omega
    rw [walk, horigin, pieces_of_not_mem hbase, List.foldl_cons, List.foldl_nil, takeStep,
      if_neg (by simp [hlong "." (by decide)]), if_neg (hlong ".." (by decide))]
  have hfolder : '.' ∉ (folderOf text).toList := by
    rw [← folderOf_append_baseOf text, String.toList_append, List.mem_append, not_or] at h
    exact h.1
  have htext : text ++ ".java" = folderOf text ++ (baseOf text ++ ".java") := by
    rw [← String.append_assoc, folderOf_append_baseOf]
  -- Without a folder the file is right here, and behind a folder it is where the slash leads to.
  rw [htext, address, Address.place, ← walk_eq_follow start hfolder, ← hfile]
  rcases folderOf_eq_or text with hnone | ⟨front, hfront⟩
  · simp [hnone]
  · rw [hfront, walk_append hrelative]

/-- The directory of a package. -/
def PlainPath.package (start : PlainPath) (name : String) : PlainPath :=
  (nameParts name).foldl follow start

/-- The address of the source of a class, from the directory that all files go to. -/
def classAddress (start : PlainPath) (name : String) : Address :=
  (start.package (packageName name)).address (simpleName name)

/-- The address of the declaration of a package. -/
def packageAddress (start : PlainPath) (name : String) : Address :=
  { directory := start.package name, base := "package-info" }

private theorem ofText_descend_of_dotFree (output package : String) {text : String}
    (h : '.' ∉ text.toList) :
    PlainPath.ofText (descend output (descend (packageDirectory package) (text ++ ".java"))) =
      (((PlainPath.ofText output).package package).address text).place := by
  rw [PlainPath.ofText_descend, PlainPath.walk_java _ h, PlainPath.package,
    PlainPath.foldl_walk_eq_follow _ fun part => dot_not_mem_of_mem_nameParts]

/-- The source of a class is at the address of the class. -/
theorem ofText_sourcePath (output : String) (c : BeanClass) :
    PlainPath.ofText (descend output (sourcePath c)) =
      (classAddress (PlainPath.ofText output) c.name).place :=
  ofText_descend_of_dotFree output c.packageName (dot_not_mem_simpleName c.name)

/-- The declaration of a package is at the address of the package. -/
theorem ofText_packagePath (output : String) (p : Package) :
    PlainPath.ofText (descend output (packagePath p)) =
      (packageAddress (PlainPath.ofText output) p.name).place := by
  have haddress : ∀ directory : PlainPath, directory.address "package-info" =
      { directory, base := "package-info" } := by
    intro directory
    have hfolder : folderOf "package-info" = "" := by decide
    have hbase : baseOf "package-info" = "package-info" := by decide
    rw [PlainPath.address, hfolder, hbase, PlainPath.follow_empty]
  have hdots : '.' ∉ "package-info".toList := by decide
  have hplace := ofText_descend_of_dotFree output p.name hdots
  rw [haddress] at hplace
  exact hplace

end BeanSynthesis.Source
