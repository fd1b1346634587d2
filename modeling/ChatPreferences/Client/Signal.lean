import ChatPreferences.DayNotice.Schedule
import ChatPreferences.Disk.PreferenceFile
import ChatPreferences.Key.Binding
import ChatPreferences.Store.Reload

/-!
# What the client shows

Setting a setting may show on the screen: windows are laid out anew, colours are rebuilt, the title
of the terminal changes.  A setting says so by its signal, and what the signal means depends at most
on the value that has just been stored.

* `Signal`, `ScreenCall` — what settings signal, and what the screen is told.
* `Happening` — what is seen of the client from outside.
-/

namespace ChatPreferences

/-- What the screen is told. -/
inductive ScreenCall where
  | refreshWindows
  | redrawCurrentBuffer
  | redrawAllBuffers
  | setTitle (on : Bool)
  | rebuildColors
  | rebuildPrefixes
  | resortHotlist
  | notify (message : Text)
  deriving DecidableEq

/-- What the setting of a setting means to the client. -/
inductive Signal where
  /-- The screen is told something, whatever the value. -/
  | screen (call : ScreenCall)
  /-- The title of the terminal is turned on or off. -/
  | title
  /-- Preferences are, or are not, saved at the end. -/
  | saveOnExit
  /-- The day notice is turned on or off. -/
  | dayNotice
  deriving DecidableEq

/-- What is seen of the client from outside. -/
inductive Happening where
  | screen (call : ScreenCall)
  /-- A buffer shows a message. -/
  | printed (buffer message : Text)
  /-- A key calls something. -/
  | called (call : KeyCall)
  /-- A report about the file has led to a reload. -/
  | reloaded (report : Report)
  | reloadFailed (fault : FileFault)
  deriving DecidableEq

/-- Whether a value is the switch turned on. -/
def Value.isOn : Value → Bool
  | .flag on => on
  | _ => false

/-- The reminder that turning off saving at the end is itself not saved at the end. -/
def unsavedWarning : Text :=
  "Warning: you should now issue /save to write \"save_on_exit\" option in configuration file"

/-- **What a signal shows**, where the setting now holds `value`. -/
def Signal.shows (value : Value) : Signal → List Happening
  | .screen call => [.screen call]
  | .title => [.screen (.setTitle value.isOn)]
  | .saveOnExit => if value.isOn then [] else [.screen (.notify unsavedWarning)]
  | .dayNotice => []

/-- What a signal does to the day notice, where the setting now holds `value`. -/
def Signal.schedules (value : Value) (notice : DayNotice) : Signal → DayNotice
  | .dayNotice => notice.apply value.isOn
  | _ => notice

end ChatPreferences
