import BeanSynthesis.Synthesis.Sweep

/-!
# Null marker

Every package with a class gets an annotation that its types are not null unless marked. The
package without a name cannot be annotated.
-/

namespace BeanSynthesis.NullMarker

/-- The option of the pass. -/
def option : String := "Xph-package-null-marked"

/-- The packages of the classes of a model, in increasing order. -/
def packages (m : CodeModel) : List String :=
  (Dict.ofList (((m.classes.filter fun c => !c.isEnum).map (·.packageName)).filter (· ≠ "") |>.map
    fun name => (name, ()))).names

/-- Marks a package and notes it. -/
def mark (settings : Settings) (p : Package) : Package :=
  let note := settings.packageNote option
  { p with
    annotations := p.annotations ++ [.ofName settings.runtime.nullMarked]
    javadoc := if note ∈ p.javadoc then p.javadoc else p.javadoc ++ [note] }

/-- Whether the package of this name is marked. -/
def isMarked (settings : Settings) (m : CodeModel) (name : String) : Bool :=
  match m.packages.find? (·.name == name) with
  | some p => hasAnnotation p.annotations settings.runtime.nullMarked
  | none => false

/-- Marks packages one after the other. -/
def markAll (settings : Settings) (m : CodeModel) : List String → Step (CodeModel × Tally)
  | [] => pure (m, {})
  | name :: rest =>
    if isMarked settings m name then do
      Step.log .debug ("Package " ++ name ++ " is already null-marked")
      markAll settings m rest
    else do
      let (m, others) ← markAll settings (m.updatePackage name (mark settings)) rest
      return (m, .synthesized ++ others)

/-- Marks the packages of a model. -/
def run (context : PassContext) (m : CodeModel) : PassRun :=
  let step := markAll context.settings m (packages m)
  { model := match step.outcome with
      | .ok (changed, _) => changed
      | .error _ => m
    outcome := step.outcome.map fun (_, tally) => { option, tally }
    events := step.events }

end BeanSynthesis.NullMarker
