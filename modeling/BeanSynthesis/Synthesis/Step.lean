import BeanSynthesis.Log.Level
import BeanSynthesis.Synthesis.Error
import BeanSynthesis.Synthesis.Report

/-!
# Steps of synthesis

A step has an outcome, a value or an error, and the events that happened on the way. What it
computes never hangs on the events, so the two can be looked at apart.
-/

namespace BeanSynthesis

/-- Something that happens in a step. -/
inductive Event where
  | logged (entry : LogEntry)
  /-- An external class was looked up, to know whether it is an enumeration. -/
  | askedExternal (name : String)
deriving DecidableEq, Repr

/-- A step with its outcome and its events. -/
structure Step (α : Type) where
  outcome : Except SynthError α
  events : List Event := []

namespace Step

instance : Monad Step where
  pure a := { outcome := .ok a }
  bind s f :=
    match s.outcome with
    | .ok a => { outcome := (f a).outcome, events := s.events ++ (f a).events }
    | .error e => { outcome := .error e, events := s.events }

variable {α β : Type}

/-- A step that does nothing has its value as outcome. -/
@[simp] theorem outcome_pure (a : α) : (pure a : Step α).outcome = .ok a := rfl

/-- Two steps in a row end as the second one does, unless the first one fails. -/
@[simp] theorem outcome_bind (s : Step α) (f : α → Step β) :
    (s >>= f).outcome = s.outcome >>= fun a => (f a).outcome := by
  cases s with
  | mk outcome events => cases outcome <;> rfl

/-- Ends with an error. -/
def fail (e : SynthError) : Step α := { outcome := .error e }

/-- Logs a message. -/
def log (level : LogLevel) (message : String) : Step Unit :=
  { outcome := .ok (), events := [.logged ⟨level, message⟩] }

/-- Logs a message if a condition holds. -/
def logIf (condition : Bool) (level : LogLevel) (message : String) : Step Unit :=
  if condition then log level message else pure ()

/-- Asks whether an external class is an enumeration, if there is one to ask about. -/
def ask : Option String → Step Unit
  | some name => { outcome := .ok (), events := [.askedExternal name] }
  | none => pure ()

end Step

end BeanSynthesis
