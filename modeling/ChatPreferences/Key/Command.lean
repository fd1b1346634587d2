import ChatPreferences.Text

/-!
# Input commands

A key may be bound to a command of the input line.  A binding names the command by an identifier
that stays the same from one version of the client to the next; what the identifier does is up to
the input line, which is told the identifier and the arguments.

* `Commands.register` — adds a command; an identifier is given out once.
* `Commands.run` — what the input line is told.
* `Commands.builtIn` — the commands that the client comes with.
-/

namespace ChatPreferences

/-- A command of the input line. -/
structure Command where
  id : Text
  description : Text
  deriving DecidableEq

/-- What the input line is told: to run a command, or to enter a line. -/
inductive KeyCall where
  | dispatch (id : Text) (arguments : Option Text)
  | execute (line : Text)
  deriving DecidableEq

/-- The commands, in the order in which they were registered. -/
abbrev Commands := List Command

/-- The identifier is taken. -/
structure CommandTaken where
  id : Text
  deriving DecidableEq

/-- What is shown when an identifier is taken. -/
def CommandTaken.message (fault : CommandTaken) : Text :=
  "Command already registered: ".toList ++ fault.id

namespace Commands

/-- The command with an identifier. -/
def get? (commands : Commands) (id : Text) : Option Command :=
  commands.find? (·.id == id)

/-- Whether an identifier is registered. -/
def has (commands : Commands) (id : Text) : Bool :=
  (commands.get? id).isSome

/-- The commands with one more at the end. -/
def register (commands : Commands) (command : Command) : Except CommandTaken Commands :=
  if commands.has command.id then .error ⟨command.id⟩ else .ok (commands ++ [command])

/-- **Running a command**: what the input line is told, if the identifier is registered. -/
def run (commands : Commands) (id : Text) (arguments : Option Text) : Option KeyCall :=
  if commands.has id then some (.dispatch id arguments) else none

/-- The commands that the client comes with. -/
def builtIn : Commands := [
  ⟨"return", "terminate line"⟩,
  ⟨"tab", "complete word"⟩,
  ⟨"backspace", "delete previous char"⟩,
  ⟨"delete", "delete next char"⟩,
  ⟨"delete_end_line", "delete until end of line"⟩,
  ⟨"delete_beginning_line", "delete until beginning of line"⟩,
  ⟨"delete_line", "delete entire line"⟩,
  ⟨"delete_previous_word", "delete previous word"⟩,
  ⟨"delete_next_word", "delete next word"⟩,
  ⟨"clipboard_paste", "paste current clipboard content"⟩,
  ⟨"transpose_chars", "transpose chars"⟩,
  ⟨"home", "go to beginning of line"⟩,
  ⟨"end", "go to end of line"⟩,
  ⟨"left", "move one char left"⟩,
  ⟨"previous_word", "move to previous word"⟩,
  ⟨"right", "move one char right"⟩,
  ⟨"next_word", "move to next word"⟩,
  ⟨"up", "call previous command in history"⟩,
  ⟨"up_global", "call previous command in global history"⟩,
  ⟨"down", "call next command in history"⟩,
  ⟨"down_global", "call next command in global history"⟩,
  ⟨"page_up", "scroll one page up"⟩,
  ⟨"page_down", "scroll one page down"⟩,
  ⟨"scroll_up", "scroll a few lines up"⟩,
  ⟨"scroll_down", "scroll a few lines down"⟩,
  ⟨"scroll_top", "scroll to top of buffer"⟩,
  ⟨"scroll_bottom", "scroll to bottom of buffer"⟩,
  ⟨"nick_beginning", "display beginning of nicklist"⟩,
  ⟨"nick_end", "display end of nicklist"⟩,
  ⟨"nick_page_up", "scroll nicklist one page up"⟩,
  ⟨"nick_page_down", "scroll nicklist one page down"⟩,
  ⟨"jump_smart", "jump to buffer with activity"⟩,
  ⟨"jump_last_buffer", "jump to last buffer"⟩,
  ⟨"jump_previous_buffer", "jump to previous buffer"⟩,
  ⟨"jump_next_visited", "jump to next visited buffer"⟩,
  ⟨"scroll_previous_highlight", "scroll to previous highlight in buffer"⟩,
  ⟨"scroll_next_highlight", "scroll to next highlight in buffer"⟩,
  ⟨"scroll_unread", "scroll to first unread line in buffer"⟩,
  ⟨"set_unread", "set unread marker on all buffers"⟩,
  ⟨"hotlist_clear", "clear hotlist"⟩,
  ⟨"infobar_clear", "clear infobar"⟩,
  ⟨"refresh", "refresh screen"⟩,
  ⟨"grab_key", "grab a key"⟩]

end Commands

end ChatPreferences
