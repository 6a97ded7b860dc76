import BeanSynthesis.Command.Generate
import BeanSynthesis.Text.Leading

/-!
# Arguments of the command line

An option takes the argument after it, or what follows an equals sign in its own argument.
-/

namespace BeanSynthesis

/-- What the command line asks for. -/
inductive Command where
  | listPasses
  | check (modelPath : String)
  | generate (request : GenerateRequest)
deriving Inhabited

namespace Command

/-- An option with its value; flags have none. -/
structure Setting where
  name : String
  value : Option String := none

/-- The full names of the options that have a short one. -/
def shortNames : List (String × String) :=
  [("-m", "--model"), ("-o", "--output"), ("-c", "--config"), ("-p", "--pass")]

/-- The options that take a value. -/
def valued : List String :=
  ["--model", "--output", "--config", "--pass", "--implements", "--report"]

/-- Splits an argument at its first equals sign. -/
def splitAtEquals (argument : String) : String × Option String :=
  let s := argument.toList
  match s.dropWhile (· ≠ '=') with
  | [] => (argument, none)
  | _ :: value => (String.ofList (s.takeWhile (· ≠ '=')), some (String.ofList value))

/-- The options in the arguments after the name of a command. -/
def readOptions : List String → Except String (List Setting)
  | [] => .ok []
  | argument :: rest =>
    let (written, given) := splitAtEquals argument
    let name := ((shortNames.find? (·.1 == written)).map (·.2)).getD written
    if name == "--debug" && given.isNone then
      return { name } :: (← readOptions rest)
    else if name ∈ valued then
      match given, rest with
      | some value, rest => return { name, value := some value } :: (← readOptions rest)
      | none, value :: rest => return { name, value := some value } :: (← readOptions rest)
      | none, [] => .error ("a value is required for '" ++ argument ++ "'")
    else .error ("unexpected argument '" ++ argument ++ "' found")

/-- The values of an option. -/
def valuesOf (settings : List Setting) (name : String) : List String :=
  (settings.filter (·.name == name)).filterMap (·.value)

/-- The value of an option that may be given once. -/
def valueOf? (settings : List Setting) (name : String) : Except String (Option String) :=
  match valuesOf settings name with
  | [] => .ok none
  | [value] => .ok (some value)
  | _ => .error ("the argument '" ++ name ++ "' cannot be used multiple times")

/-- The value of an option that has to be given. -/
def valueOf (settings : List Setting) (name : String) : Except String String := do
  match ← valueOf? settings name with
  | some value => return value
  | none => .error ("the argument '" ++ name ++ "' is required")

/-- The command that arguments ask for, or what is wrong with them. -/
def ofArguments : List String → Except String Command
  | ["plugins"] => .ok listPasses
  | "check" :: rest => do
    let settings ← readOptions rest
    match settings.find? (·.name != "--model") with
    | some other => .error ("unexpected argument '" ++ other.name ++ "' found")
    | none => return check (← valueOf settings "--model")
  | "generate" :: rest => do
    let settings ← readOptions rest
    return generate {
      modelPath := ← valueOf settings "--model"
      output := ← valueOf settings "--output"
      settingsPath := ← valueOf? settings "--config"
      passes := valuesOf settings "--pass"
      implements := valuesOf settings "--implements"
      debug := settings.any (·.name == "--debug")
      report := ← valueOf? settings "--report" }
  | [] => .error "a command is required: generate, plugins or check"
  | command :: _ => .error ("unrecognized command '" ++ command ++ "'")

end Command

end BeanSynthesis
