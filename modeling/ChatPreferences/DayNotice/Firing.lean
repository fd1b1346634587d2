import ChatPreferences.DayNotice.Schedule
import ChatPreferences.Text

/-!
# Printing the day notice

A firing prints the notice on every formatted buffer that is open when it begins, one after the
other.  What a buffer does when it prints is not known: it may turn the notice on or off, it may
start another firing in the middle of this one, and it may fail.  A print that fails does not keep
the next buffer from printing.

All that can happen in a firing is therefore a tree: a list of prints, each with the reactions of its
buffer, among which there may be firings again.  `Prints.run` follows such a tree; what is proved of
all trees holds of all buffers.

* `Prints`, `Reactions` — what happens in a firing.
* `DayNotice.fire` — a firing.
-/

namespace ChatPreferences

/-- The two kinds of buffers; only formatted ones show the notice. -/
inductive BufferKind where
  | formatted
  | free
  deriving DecidableEq

/-- What is shown, where `text` is the date. -/
def DayNotice.message (text : Text) : Text :=
  "Day changed to ".toList ++ text

/-! ## What happens in a firing -/

mutual

/-- What a buffer does after it has shown the notice. -/
inductive Reactions where
  /-- Nothing more. -/
  | done
  /-- It fails. -/
  | fail
  /-- It turns the notice on or off. -/
  | apply (on : Bool) (next : Reactions)
  /-- It does something that has nothing to do with the notice. -/
  | other (next : Reactions)
  /-- It starts a firing, which fails if there is no text to show. -/
  | fire (text : Option Text) (prints : Prints) (next : Reactions)

/-- The prints of a firing, in order, with the names of the buffers. -/
inductive Prints where
  | done
  | print (buffer : Text) (reactions : Reactions) (next : Prints)

end

/-- What is seen in a firing. -/
inductive NoticeEvent where
  /-- A buffer shows a message. -/
  | shown (buffer message : Text)
  /-- After a reaction, whether a notice will come. -/
  | observed (armed : Bool)
  deriving DecidableEq

mutual

/-- **Follows the reactions of a buffer** and tells the schedule afterwards, and what was seen. -/
def Reactions.run : Reactions → DayNotice → DayNotice × List NoticeEvent
  | .done, notice => (notice, [])
  | .fail, notice => (notice, [])
  | .apply on next, notice =>
    let applied := notice.apply on
    let (after, seen) := next.run applied
    (after, .observed applied.isArmed :: seen)
  | .other next, notice =>
    let (after, seen) := next.run notice
    (after, .observed notice.isArmed :: seen)
  | .fire none _ _, notice => (notice, [])
  | .fire (some text) prints next, notice =>
    let (printed, inner) := prints.run text notice.beginFiring
    let fired := printed.endFiring
    let (after, seen) := next.run fired
    (after, inner ++ .observed fired.isArmed :: seen)

/-- **Follows the prints of a firing** with the date `text`. -/
def Prints.run (text : Text) : Prints → DayNotice → DayNotice × List NoticeEvent
  | .done, notice => (notice, [])
  | .print buffer reactions next, notice =>
    let (reacted, inner) := reactions.run notice
    let (after, seen) := next.run text reacted
    (after, .shown buffer (DayNotice.message text) :: inner ++ seen)

end

/-- **A firing.**  Without a text to show nothing happens at all. -/
def DayNotice.fire (text : Option Text) (prints : Prints) (notice : DayNotice) :
    DayNotice × List NoticeEvent :=
  match text with
  | none => (notice, [])
  | some text =>
    let (printed, seen) := prints.run text notice.beginFiring
    (printed.endFiring, seen)

end ChatPreferences
