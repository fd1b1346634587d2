import ChatPreferences.Text

/-!
# Log levels

How much is logged can be chosen, and logging can be paused — while a menu is on the screen — and
resumed.  Choosing a level, even during a pause, takes effect at once and is what resuming goes back
to.

* `LogLevel`, `LogLevel.parse?` — the levels and their names.
* `Logging.choose`, `Logging.pause`, `Logging.resume` — the level that is in force, and the one to
  go back to.
-/

namespace ChatPreferences

/-- The levels, from the most to the least that is logged. -/
inductive LogLevel where
  | trace
  | debug
  | info
  | warn
  | error
  | fatal
  | silent
  deriving DecidableEq

namespace LogLevel

/-- The name of a level. -/
def word : LogLevel → Text
  | trace => "trace"
  | debug => "debug"
  | info => "info"
  | warn => "warn"
  | error => "error"
  | fatal => "fatal"
  | silent => "silent"

/-- All levels, in order. -/
def all : List LogLevel := [trace, debug, info, warn, error, fatal, silent]

/-- The level with a name. -/
def parse? (name : Text) : Option LogLevel :=
  all.find? (·.word == name)

end LogLevel

/-- There is no level with the name. -/
structure UnknownLevel where
  name : Text
  deriving DecidableEq

/-- What is shown when there is no level with the name. -/
def UnknownLevel.message (fault : UnknownLevel) : Text :=
  "unknown level ".toList ++ fault.name

/-- The level in force, and the one that resuming goes back to. -/
structure Logging where
  level : LogLevel
  saved : LogLevel
  deriving DecidableEq

namespace Logging

/-- Logging at a level from the start. -/
def initial (level : LogLevel) : Logging :=
  ⟨level, level⟩

/-- Chooses the level with a name. -/
def choose (logging : Logging) (name : Text) : Except UnknownLevel Logging :=
  match LogLevel.parse? name with
  | none => .error ⟨name⟩
  | some level => .ok { logging with level, saved := level }

/-- Nothing is logged until logging is resumed. -/
def pause (logging : Logging) : Logging :=
  { level := .silent, saved := logging.level }

/-- Goes back to the level before the pause. -/
def resume (logging : Logging) : Logging :=
  { logging with level := logging.saved }

end Logging

end ChatPreferences
