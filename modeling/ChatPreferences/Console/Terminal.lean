import ChatPreferences.Client
import ChatPreferences.Console.Message

/-!
# The client on a console

On a console there are no windows, and one buffer.  Of all that the client would tell its screen,
only two things show: messages, and the title of the terminal, which is set if there is a terminal.

* `buffers` — the buffers of a client on a console.
* `ScreenCall.shown`, `Happening.shown` — what shows on a console.
-/

namespace ChatPreferences

namespace Console

/-- The buffers of a client on a console. -/
def buffers : List Buffer := [⟨"core", .formatted, []⟩]

/-- What a buffer shows when it prints. -/
def printed (message : Text) : Text :=
  info message

/-- What shows when a line is entered. -/
def entered (line : Text) : Text :=
  info ("> ".toList ++ line)

/-- The control sequence that sets the title of the terminal. -/
def titleSequence : Text :=
  "\u001b]0;parley\u0007"

end Console

/-- **What shows of a screen call** on a console, which may be a terminal. -/
def ScreenCall.shown (terminal : Bool) : ScreenCall → Text
  | .setTitle on => if on && terminal then Console.titleSequence else []
  | .notify message => Console.info message
  | .refreshWindows | .redrawCurrentBuffer | .redrawAllBuffers | .rebuildColors
  | .rebuildPrefixes | .resortHotlist => []

/-- What shows of a happening on a console. -/
def Happening.shown (terminal : Bool) : Happening → Text
  | .screen call => call.shown terminal
  | .printed _ message => Console.printed message
  | .called (.execute line) => Console.entered line
  | .called (.dispatch _ _) => []
  | .reloaded _ => []
  | .reloadFailed _ => []

end ChatPreferences
