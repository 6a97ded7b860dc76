import BeanSynthesis.Json.Printer

/-!
# Reports

What a pass has done: how many classes it touched, how many members it added, and what it left
out and why.
-/

namespace BeanSynthesis

/-- Why a member or constraint was left out. -/
inductive SkipReason where
  /-- There is such a member already. -/
  | collision (className member : String)
  /-- A schema construct that cannot be expressed. -/
  | unsupported (className field description : String)
  /-- A class outside could not be loaded. -/
  | resolveFailed (className : String)
deriving DecidableEq, Repr, Inhabited

namespace SkipReason

/-- The text of a reason. -/
def text : SkipReason → String
  | collision className member => "'" ++ member ++ "' already exists in " ++ className
  | unsupported className field description =>
    "unsupported construct on " ++ className ++ "." ++ field ++ ": " ++ description
  | resolveFailed className => "failed to load " ++ className

/-- A reason as data. -/
def toJson : SkipReason → Json
  | collision className member =>
    .obj [("reason", .str "collision"), ("class", .str className), ("member", .str member)]
  | unsupported className field description =>
    .obj [("reason", .str "unsupported"), ("class", .str className), ("field", .str field),
      ("description", .str description)]
  | resolveFailed className =>
    .obj [("reason", .str "resolve_failed"), ("class", .str className)]

end SkipReason

/-- The counts of what has been done, in order. -/
structure Tally where
  /-- The classes that received something. -/
  classesTouched : Nat := 0
  /-- The members and constraints added, and the declarations changed in place. -/
  membersAdded : Nat := 0
  skipped : List SkipReason := []
deriving DecidableEq, Repr, Inhabited

namespace Tally

instance : Append Tally where
  append a b := {
    classesTouched := a.classesTouched + b.classesTouched
    membersAdded := a.membersAdded + b.membersAdded
    skipped := a.skipped ++ b.skipped }

/-- One member more. -/
def synthesized : Tally := { membersAdded := 1 }

/-- One member less. -/
def leftOut (reason : SkipReason) : Tally := { skipped := [reason] }

/-- One class more. -/
def touched : Tally := { classesTouched := 1 }

/-- One class more, provided that it received something. -/
def touchIf (received : Bool) : Tally := if received then touched else {}

end Tally

/-- What the pass of an option has done. -/
structure PassReport where
  option : String
  tally : Tally := {}
deriving DecidableEq, Repr, Inhabited

/-- A report of a pass as data. -/
def PassReport.toJson (r : PassReport) : Json :=
  .obj [("option", .str r.option), ("classes_touched", .nat r.tally.classesTouched),
    ("members_added", .nat r.tally.membersAdded),
    ("skipped", .array (r.tally.skipped.map SkipReason.toJson))]

/-- What the passes of a run have done, in order. -/
structure RunReport where
  passes : List PassReport := []
deriving DecidableEq, Repr, Inhabited

namespace RunReport

/-- How many members were added. -/
def membersAdded (r : RunReport) : Nat := r.passes.foldr (fun p n => p.tally.membersAdded + n) 0

/-- All that was left out. -/
def skipped (r : RunReport) : List SkipReason := r.passes.flatMap (·.tally.skipped)

/-- The report of the first pass of this option. -/
def pass? (r : RunReport) (option : String) : Option PassReport :=
  r.passes.find? (·.option == option)

/-- A report with one pass more. -/
def add (r : RunReport) (pass : PassReport) : RunReport := { passes := r.passes ++ [pass] }

/-- Adds to the counts of the last pass; nothing happens if there is none. -/
def record (r : RunReport) (tally : Tally) : RunReport :=
  match r.passes.getLast? with
  | none => r
  | some last => { passes := r.passes.dropLast ++ [{ last with tally := last.tally ++ tally }] }

/-- A report as data. -/
def toJson (r : RunReport) : Json := .obj [("passes", .array (r.passes.map PassReport.toJson))]

/-- The text of a report. -/
def toText (r : RunReport) : String := r.toJson.pretty

end RunReport

end BeanSynthesis
