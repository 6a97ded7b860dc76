import BeanSynthesis.Source.Render

/-!
# Source files

The files that a model is written to: its classes, its object factories and its package
declarations, in this order. A class goes into a directory for every part of its package. A part
that starts at the root of the file system starts the path anew.
-/

namespace BeanSynthesis.Source

/-- The path one step further down. A step that starts with a slash replaces the path. -/
def descend (path step : String) : String :=
  if step.startsWith "/" then step
  else if path = "" || path.endsWith "/" then path ++ step
  else path ++ "/" ++ step

/-- What stands between the separators of a text. -/
def pieces (separator : Char) (text : String) : List String :=
  (text.toList.splitOn separator).map String.ofList

/-- The parts of a dotted name; empty ones do not count. -/
def nameParts (name : String) : List String := (pieces '.' name).filter (· ≠ "")

/-- The directory of a package. -/
def packageDirectory (package : String) : String := (nameParts package).foldl descend ""

/-- The path of the source of a class. -/
def sourcePath (c : BeanClass) : String :=
  descend (packageDirectory c.packageName) (c.simpleName ++ ".java")

/-- The path of a package declaration. -/
def packagePath (p : Package) : String := descend (packageDirectory p.name) "package-info.java"

/-- A path without detours: its steps from the root of the file system or from where one is. -/
structure PlainPath where
  fromRoot : Bool
  steps : List String
deriving DecidableEq, Repr, Inhabited

/-- The steps after one more step: an empty one and a dot stay, two dots go back. -/
def takeStep (fromRoot : Bool) (steps : List String) (step : String) : List String :=
  if step = "" || step = "." then steps
  else if step = ".." then
    match steps.getLast? with
    | none => if fromRoot then [] else [".."]
    | some ".." => steps ++ [".."]
    | some _ => steps.dropLast
  else steps ++ [step]

/-- A path without its detours. -/
def PlainPath.ofText (path : String) : PlainPath :=
  let fromRoot := path.startsWith "/"
  { fromRoot, steps := (pieces '/' path).foldl (takeStep fromRoot) [] }

/-- The rest of a path that lies below a directory. -/
def below? (directory path : String) : Option String :=
  let directory := PlainPath.ofText directory
  let path := PlainPath.ofText path
  if path.fromRoot = directory.fromRoot && directory.steps.isPrefixOf path.steps then
    some ("/".intercalate (path.steps.drop directory.steps.length))
  else none

end BeanSynthesis.Source

namespace BeanSynthesis

/-- A file with its path. -/
structure SourceFile where
  path : String
  text : String
deriving DecidableEq, Repr, Inhabited

namespace SourceFile

/-- The file of a class. -/
def ofClass (c : BeanClass) : SourceFile :=
  { path := Source.sourcePath c, text := Source.renderClass c }

/-- The file of a package declaration. -/
def ofPackage (p : Package) : SourceFile :=
  { path := Source.packagePath p, text := Source.renderPackage p }

/-- A file in a directory. -/
def inDirectory (directory : String) (file : SourceFile) : SourceFile :=
  { file with path := Source.descend directory file.path }

end SourceFile

/-- The files of a model. -/
def CodeModel.sourceFiles (m : CodeModel) : List SourceFile :=
  (m.classes ++ m.objectFactories).map .ofClass ++ m.packages.map .ofPackage

end BeanSynthesis
