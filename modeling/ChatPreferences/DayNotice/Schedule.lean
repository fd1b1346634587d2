import ChatPreferences.DayNotice.Timers

/-!
# When the day notice is due

The client prints a notice when the day has changed, as long as a setting says so.  The notice hangs
on a timer: the timer is made when the setting is turned on and cancelled when it is turned off, and
the first notice comes one period after that moment.

Printing a notice runs code of the buffers, and that code may change the setting.  A timer that is
asked for while a notice is printed is only noted down, and made when the printing is over.

* `DayNotice.apply` — the setting has been set.
* `DayNotice.beginFiring`, `DayNotice.endFiring` — what a firing does before and after its prints.
* `DayNotice.isArmed` — whether a notice will come.
-/

namespace ChatPreferences

/-- The timers, the period of the notice, the number of its timer, whether a notice is being
printed, and whether a timer is to be made afterwards. -/
structure DayNotice where
  timers : Timers
  period : Rat
  handle : Option Nat
  firing : Bool
  armLater : Bool
  deriving DecidableEq

namespace DayNotice

/-- The period of the notice, in milliseconds. -/
def dayPeriod : Rat := 24 * 3600 * 1000

/-- No notice has been asked for. -/
def initial (clock : Clock) (period : Rat) : DayNotice :=
  ⟨Timers.initial clock, period, none, false, false⟩

instance : HasTimers DayNotice where
  timers := DayNotice.timers
  withTimers := fun notice timers => { notice with timers }

/-- Whether a notice will come: there is a timer, or one will be made. -/
def isArmed (notice : DayNotice) : Bool :=
  notice.handle.isSome || notice.armLater

/-- Asks for a notice. -/
def arm (notice : DayNotice) : DayNotice :=
  if notice.isArmed then notice
  else if notice.firing then { notice with armLater := true }
  else
    { notice with
      timers := notice.timers.every notice.period
      handle := some notice.timers.nextId }

/-- Asks for no notice. -/
def disarm (notice : DayNotice) : DayNotice :=
  match notice.handle with
  | none => { notice with armLater := false }
  | some id =>
    { notice with timers := notice.timers.cancel id, handle := none, armLater := false }

/-- The setting has been set. -/
def apply (notice : DayNotice) (on : Bool) : DayNotice :=
  if on then notice.arm else notice.disarm

/-- A notice begins to be printed. -/
def beginFiring (notice : DayNotice) : DayNotice :=
  { notice with firing := true }

/-- A notice has been printed. -/
def endFiring (notice : DayNotice) : DayNotice :=
  if notice.armLater then arm { notice with firing := false, armLater := false }
  else { notice with firing := false }

end DayNotice

end ChatPreferences
