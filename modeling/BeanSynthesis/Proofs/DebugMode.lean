import BeanSynthesis.Log.Control

/-!
# Debug mode

What a control does in the course of any sequence of calls. Before a filter is installed, every
reload fails. From then on the control stands at the level of its filter, and leaving debug mode
leads to the level of the latest installation, whatever has happened since.
-/

namespace BeanSynthesis

/-- A call on a control. A filter that refuses a new level does so for a reason. -/
inductive ControlCall where
  | install (level : LogLevel)
  | reload (level : LogLevel) (refusal : Option String)
  | setDebug (on : Bool) (refusal : Option String)
deriving DecidableEq, Repr

namespace ControlCall

/-- The level of the filter that a call installs, if it installs one. -/
def installed? : ControlCall → Option LogLevel
  | install level => some level
  | reload .. => none
  | setDebug .. => none

/-- The level of the latest installation among calls, if there is one. -/
def latest? (calls : List ControlCall) : Option LogLevel :=
  (calls.filterMap installed?).getLast?

@[simp] private theorem latest?_nil : latest? [] = none := rfl

/-- A later installation takes precedence. -/
theorem latest?_cons (first : ControlCall) (rest : List ControlCall) :
    latest? (first :: rest) = (latest? rest).or first.installed? := by
  unfold latest?
  cases hfirst : first.installed? with
  | none => simp [hfirst]
  | some level => simp [hfirst, List.getLast?_cons, Option.or_some]

end ControlCall

namespace LogControl

open ControlCall

/-- What a call answers that has come out in this way, and the control after it. A call that fails
leaves the control as it was. -/
def settle (c : LogControl) : Except ReloadError LogControl → Except ReloadError Unit × LogControl
  | .ok changed => (.ok (), changed)
  | .error e => (.error e, c)

/-- What a call answers, and the control after it. -/
def call (c : LogControl) : ControlCall → Except ReloadError Unit × LogControl
  | .install level => (.ok (), install level)
  | .reload level refusal => c.settle (c.reload level refusal)
  | .setDebug on refusal => c.settle (c.setDebug on refusal)

/-- What calls answer, one after the other, and the control after them. -/
def callAll (c : LogControl) : List ControlCall → List (Except ReloadError Unit) × LogControl
  | [] => ([], c)
  | first :: rest =>
    let (answer, c) := c.call first
    let (answers, c) := c.callAll rest
    (answer :: answers, c)

/-- The control and its filter are at this level. -/
def StandsAt (c : LogControl) (level : LogLevel) : Prop :=
  c.filter = some level ∧ c.level = level

variable {c : LogControl} {latest : Option LogLevel} {start : LogLevel}

/-! ## One reload -/

private theorem standsAt_install (level : LogLevel) : (install level).StandsAt level :=
  ⟨rfl, LogLevel.ofByte_byte level⟩

private theorem initial_install (level : LogLevel) : (install level).initial = level :=
  LogLevel.ofByte_byte level

private theorem reload_of_notInstalled (h : c.filter = none) (level : LogLevel)
    (refusal : Option String) : c.reload level refusal = .error .notInstalled := by
  simp [reload, h]

private theorem reload_of_refused {threshold : LogLevel} (h : c.filter = some threshold)
    (level : LogLevel) (reason : String) :
    c.reload level (some reason) = .error (.refused reason) := by
  simp [reload, h]

/-- A filter that accepts a level takes the control along to it. -/
theorem reload_of_accepted {threshold : LogLevel} (h : c.filter = some threshold)
    (level : LogLevel) :
    ∃ changed, c.reload level none = .ok changed ∧ changed.StandsAt level ∧
      changed.initial = c.initial := by
  refine ⟨{ c with filter := some level, levelByte := level.byte }, by simp [reload, h], ?_, rfl⟩
  exact ⟨rfl, LogLevel.ofByte_byte level⟩

/-! ## Sequences of calls -/

/-- What is known of a control after calls with this latest installation. -/
structure Follows (c : LogControl) (latest : Option LogLevel) : Prop where
  filter : c.filter = latest.map fun _ => c.level
  level : latest = none → c.level = .info
  initial : ∀ start ∈ latest, c.initial = start

private theorem follows_empty : Follows {} none where
  filter := rfl
  level _ := rfl
  initial _ h := nomatch h

private theorem follows_install (level : LogLevel) : (install level).Follows (some level) where
  filter := by
    obtain ⟨hfilter, hlevel⟩ := standsAt_install level
    simp [hfilter, hlevel]
  level h := nomatch h
  initial start h := by
    obtain rfl := Option.mem_some.mp h
    exact initial_install level

/-- A reload keeps what is known, whether there is a filter or not and whatever it says. -/
theorem Follows.settle_reload (h : c.Follows latest) (level : LogLevel)
    (refusal : Option String) : (c.settle (c.reload level refusal)).2.Follows latest := by
  cases latest with
  | none =>
    rw [reload_of_notInstalled h.filter]
    exact h
  | some start =>
    cases refusal with
    | some reason =>
      rw [reload_of_refused h.filter]
      exact h
    | none =>
      obtain ⟨changed, hreload, ⟨hfilter, hlevel⟩, hinitial⟩ := reload_of_accepted h.filter level
      rw [hreload]
      exact {
        filter := by simp [settle, hfilter, hlevel]
        level := nofun
        initial := fun start hstart => hinitial.trans (h.initial start hstart) }

private theorem Follows.call (h : c.Follows latest) (made : ControlCall) :
    (c.call made).2.Follows (made.installed?.or latest) := by
  cases made with
  | install level => exact follows_install level
  | reload level refusal => exact h.settle_reload level refusal
  | setDebug on refusal => exact h.settle_reload _ refusal

private theorem Follows.callAll (h : c.Follows latest) (calls : List ControlCall) :
    (c.callAll calls).2.Follows ((latest? calls).or latest) := by
  induction calls generalizing c latest with
  | nil => exact h
  | cons first rest ih =>
    rw [latest?_cons, Option.or_assoc]
    exact ih (h.call first)

/-- Without an installation every call fails, and nothing changes. -/
theorem callAll_of_notInstalled (h : c.filter = none) {calls : List ControlCall}
    (hnone : latest? calls = none) :
    c.callAll calls = (calls.map fun _ => .error .notInstalled, c) := by
  induction calls with
  | nil => rfl
  | cons first rest ih =>
    rw [latest?_cons, Option.or_eq_none_iff] at hnone
    have hfirst : c.call first = (.error .notInstalled, c) := by
      cases first with
      | install level => cases hnone.2
      | reload level refusal => simp [call, settle, reload_of_notInstalled h]
      | setDebug on refusal => simp [call, settle, setDebug, reload_of_notInstalled h]
    rw [LogControl.callAll, hfirst]
    dsimp only
    rw [ih hnone.1, List.map_cons]

/-- A control of a filter that was installed with the level `start`: the control is at the level of
the filter, both go where the filter accepts to go, and a refusal changes nothing. -/
structure Governs (c : LogControl) (start : LogLevel) : Prop where
  level : c.filter = some c.level
  reload : ∀ level, ∃ d, c.call (.reload level none) = (.ok (), d) ∧ d.StandsAt level
  debugOn : ∃ d, c.call (.setDebug true none) = (.ok (), d) ∧ d.StandsAt .debug
  debugOff : ∃ d, c.call (.setDebug false none) = (.ok (), d) ∧ d.StandsAt start
  reload_refused : ∀ level reason,
    c.call (.reload level (some reason)) = (.error (.refused reason), c)
  setDebug_refused : ∀ on reason,
    c.call (.setDebug on (some reason)) = (.error (.refused reason), c)

private theorem Follows.governs (h : c.Follows (some start)) : c.Governs start := by
  have haccepted : ∀ level, ∃ d, c.settle (c.reload level none) = (.ok (), d) ∧
      d.StandsAt level := by
    intro level
    obtain ⟨changed, hreload, hstands, -⟩ := reload_of_accepted h.filter level
    exact ⟨changed, by rw [hreload, settle], hstands⟩
  have hrefused : ∀ level reason,
      c.settle (c.reload level (some reason)) = (.error (.refused reason), c) := by
    intro level reason
    rw [reload_of_refused h.filter, settle]
  exact {
    level := h.filter
    reload := haccepted
    debugOn := haccepted .debug
    debugOff := by
      rw [← h.initial start rfl]
      exact haccepted c.initial
    reload_refused := hrefused
    setDebug_refused := fun on reason => hrefused _ reason }

/-- Until a filter is installed every call fails, and the level is `info`. After that the control
governs the filter that was installed last: it is always at the level of the filter, and leaving
debug mode, if the filter accepts it, leads back to the level of that installation. -/
theorem debug_returns_to_latest (calls : List ControlCall) :
    (latest? calls = none →
      (callAll {} calls).1 = calls.map (fun _ => .error .notInstalled) ∧
        (callAll {} calls).2.isInstalled = false ∧ (callAll {} calls).2.level = .info) ∧
      ∀ start, latest? calls = some start → (callAll {} calls).2.Governs start := by
  have hfollows := follows_empty.callAll calls
  rw [Option.or_none] at hfollows
  refine ⟨fun hnone => ?_, fun start hstart => ?_⟩
  · rw [callAll_of_notInstalled rfl hnone]
    exact ⟨rfl, rfl, rfl⟩
  · rw [hstart] at hfollows
    exact hfollows.governs

/-- A filter is installed twice, accepts two levels and refuses one in between. -/
theorem debug_returns_to_warn :
    let calls : List ControlCall := [.reload .trace none, .install .error, .setDebug true none,
      .install .warn, .setDebug true none, .setDebug false (some "gone"), .reload .trace none]
    latest? (calls.take 1) = none ∧ latest? calls = some .warn ∧
      (callAll {} (calls.take 1)).1 = [.error .notInstalled] ∧
      (callAll {} calls).2.level = .trace ∧
        ∃ d, (callAll {} calls).2.call (.setDebug false none) = (.ok (), d) ∧ d.StandsAt .warn := by
  intro calls
  have hbefore : latest? (calls.take 1) = none := rfl
  have hlatest : latest? calls = some .warn := rfl
  exact ⟨hbefore, hlatest, ((debug_returns_to_latest _).1 hbefore).1, rfl,
    ((debug_returns_to_latest _).2 _ hlatest).debugOff⟩

end LogControl

end BeanSynthesis
