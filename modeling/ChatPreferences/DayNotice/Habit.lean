import ChatPreferences.Calendar.Pattern
import ChatPreferences.DayNotice.Firing

/-!
# Buffers of fixed habits

Some buffers react in the same way each time they print.  With such buffers, the date and the
pattern that it is shown in settle all that happens in a firing, and so all that happens when timers
run.

* `Habit`, `Habit.prints` — a buffer of fixed habits; the firing that such buffers make.
* `NoticeBoard.fire` — a firing on a date.
* `NoticeBoard.tick`, `NoticeBoard.advance` — all timers run once; the clock is moved on.
-/

namespace ChatPreferences

/-- A reaction of a buffer that reacts in the same way each time it prints. -/
inductive HabitStep where
  | apply (on : Bool)
  /-- Starts a firing, unless this print belongs to a firing that was started in this way. -/
  | fire
  | fail
  deriving DecidableEq

/-- A buffer and how it reacts when it prints. -/
structure Habit where
  name : Text
  kind : BufferKind
  steps : List HabitStep

namespace Habit

/-- The reactions that a list of steps stands for, where `inner` is what a step that starts a firing
stands for. -/
def reactions (inner : Reactions → Reactions) : List HabitStep → Reactions
  | [] => .done
  | .fail :: _ => .fail
  | .apply on :: rest => .apply on (reactions inner rest)
  | .fire :: rest => inner (reactions inner rest)

/-- The prints of the formatted ones among some buffers. -/
def printsWith (inner : Reactions → Reactions) : List Habit → Prints
  | [] => .done
  | habit :: rest =>
    match habit.kind with
    | .formatted => .print habit.name (reactions inner habit.steps) (printsWith inner rest)
    | .free => printsWith inner rest

/-- **The prints of a firing** for the date `text`; a firing that a buffer starts has the same date,
and in it no buffer starts another one. -/
def prints (text : Option Text) (habits : List Habit) : Prints :=
  printsWith (.fire text (printsWith .other habits)) habits

end Habit

/-- What a firing depends on: the date, if the present moment has one, the pattern that it is shown
in, and the buffers. -/
structure NoticeBoard where
  date : Option Date
  pattern : Text
  habits : List Habit

namespace NoticeBoard

/-- **A firing on a date.**  Where the date cannot be shown, nothing happens but the fault. -/
def fire (board : NoticeBoard) (notice : DayNotice) :
    RunOutcome DayNotice NoticeEvent InvalidTime :=
  match Pattern.format board.date board.pattern with
  | .error fault => ⟨notice, [], some fault⟩
  | .ok text =>
    let (after, seen) := notice.fire (some text) (Habit.prints (some text) board.habits)
    ⟨after, seen, none⟩

/-- A firing for each of some timers; a fault ends everything. -/
def fireEach (board : NoticeBoard) (notice : DayNotice) :
    List Timer → RunOutcome DayNotice NoticeEvent InvalidTime
  | [] => ⟨notice, [], none⟩
  | _ :: rest =>
    let first := board.fire notice
    match first.fault with
    | some _ => first
    | none =>
      let others := board.fireEach first.state rest
      ⟨others.state, first.seen ++ others.seen, others.fault⟩

/-- All timers run that there are, also those that are cancelled on the way. -/
def tick (board : NoticeBoard) (notice : DayNotice) :
    RunOutcome DayNotice NoticeEvent InvalidTime :=
  board.fireEach notice notice.timers.active

/-- Moves the clock on by some time. -/
def advance (board : NoticeBoard) (time : Rat) (notice : DayNotice) :
    RunOutcome DayNotice NoticeEvent InvalidTime :=
  ChatPreferences.advance (fun _ => board.fire) time notice

end NoticeBoard

end ChatPreferences
