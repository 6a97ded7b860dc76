import BeanSynthesis.Text.Blank

/-!
# Log levels

The levels of log messages from the least to the most urgent, and a level above all of them that
turns logging off.
-/

namespace BeanSynthesis

/-- A log level. -/
inductive LogLevel where
  | trace | debug | info | warn | error | off
deriving DecidableEq, Repr, Inhabited

namespace LogLevel

/-- The number of a level. -/
def number : LogLevel → Nat
  | trace => 0
  | debug => 1
  | info => 2
  | warn => 3
  | error => 4
  | off => 5

/-- The level of a number; every number above the last level is the last level. -/
def ofNumber : Nat → LogLevel
  | 0 => trace
  | 1 => debug
  | 2 => info
  | 3 => warn
  | 4 => error
  | _ => off

/-- A level is known by its number. -/
theorem ofNumber_number (level : LogLevel) : ofNumber level.number = level := by
  cases level <;> rfl

/-- The byte that stands for a level, which is its number. -/
def byte (level : LogLevel) : UInt8 := .ofNat level.number

/-- The level that a byte stands for. -/
def ofByte (b : UInt8) : LogLevel := ofNumber b.toNat

/-- A level is known by its byte. -/
@[simp] theorem ofByte_byte (level : LogLevel) : ofByte level.byte = level := by
  cases level <;> rfl

/-- The name of a level. -/
def name : LogLevel → String
  | trace => "TRACE"
  | debug => "DEBUG"
  | info => "INFO"
  | warn => "WARN"
  | error => "ERROR"
  | off => "OFF"

/-- The level of a name in any mixture of small and capital ASCII letters, white space around it
aside. -/
def parse? (text : String) : Option LogLevel :=
  match String.ofList ((Text.trimChars text.toList).map Char.toLower) with
  | "trace" => some trace
  | "debug" => some debug
  | "info" => some info
  | "warn" => some warn
  | "warning" => some warn
  | "error" => some error
  | "off" => some off
  | _ => none

/-- A level is read from its name. -/
theorem parse?_name (level : LogLevel) : parse? level.name = some level := by
  cases level <;> rfl

/-- Whether messages of level `message` pass where `threshold` is in effect. Nothing is ever
logged at the level `off`. -/
def passes (threshold message : LogLevel) : Bool :=
  message != off && threshold.number ≤ message.number

end LogLevel

/-- A log message with its level. -/
structure LogEntry where
  level : LogLevel
  message : String
deriving DecidableEq, Repr, Inhabited

end BeanSynthesis
