import BeanSynthesis.Log.Level

/-!
# Log control

A control governs the threshold of an installed filter. Debug mode is left by going back to the
level that the filter was installed with, whatever came in between. A filter may refuse a new
level; then nothing changes.
-/

namespace BeanSynthesis

/-- Why a level could not be changed. -/
inductive ReloadError where
  /-- No filter has been installed. -/
  | notInstalled
  /-- The filter refused the level. -/
  | refused (reason : String)
deriving DecidableEq, Repr

/-- The text of an error. -/
def ReloadError.message : ReloadError → String
  | notInstalled => "Reload handle not initialized"
  | refused reason => "Failed to reload filter: " ++ reason

/-- A control of the log level. Levels are kept as bytes. -/
structure LogControl where
  /-- The threshold of the installed filter. -/
  filter : Option LogLevel := none
  /-- The level that is in effect as far as the control knows. -/
  levelByte : UInt8 := LogLevel.info.byte
  /-- The level that the filter was installed with. -/
  initialByte : UInt8 := LogLevel.info.byte
deriving DecidableEq, Repr, Inhabited

namespace LogControl

/-- The level that is in effect as far as the control knows. -/
def level (c : LogControl) : LogLevel := .ofByte c.levelByte

/-- The level that the filter was installed with. -/
def initial (c : LogControl) : LogLevel := .ofByte c.initialByte

/-- Whether a filter is installed. -/
def isInstalled (c : LogControl) : Bool := c.filter.isSome

/-- Installs a filter with this threshold. -/
def install (level : LogLevel) : LogControl :=
  { filter := some level, levelByte := level.byte, initialByte := level.byte }

/-- Gives the filter a new threshold, unless it refuses for the reason in `refusal`. -/
def reload (c : LogControl) (level : LogLevel) (refusal : Option String) :
    Except ReloadError LogControl :=
  match c.filter, refusal with
  | none, _ => .error .notInstalled
  | some _, some reason => .error (.refused reason)
  | some _, none => .ok { c with filter := some level, levelByte := level.byte }

/-- Turns debug mode on, or off again. -/
def setDebug (c : LogControl) (on : Bool) (refusal : Option String) :
    Except ReloadError LogControl :=
  c.reload (if on then .debug else c.initial) refusal

/-- Whether a message passes the filter. Without a filter none does. -/
def admits (c : LogControl) (entry : LogEntry) : Bool := c.filter.any (·.passes entry.level)

end LogControl

/-- The log messages that have been captured, the oldest one first. -/
structure LogCapture where
  entries : List LogEntry := []
deriving DecidableEq, Repr, Inhabited

namespace LogCapture

/-- Captures a message if the control lets it through. -/
def record (capture : LogCapture) (c : LogControl) (entry : LogEntry) : LogCapture :=
  if c.admits entry then { entries := capture.entries ++ [entry] } else capture

/-- The captured messages of exactly this level. -/
def messages (capture : LogCapture) (level : LogLevel) : List String :=
  (capture.entries.filter (·.level = level)).map (·.message)

/-- How many messages of exactly this level have been captured. -/
def count (capture : LogCapture) (level : LogLevel) : Nat := (capture.messages level).length

end LogCapture

end BeanSynthesis
