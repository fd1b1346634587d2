import ChatPreferences.DayNotice.Clock

/-!
# Timers

A timer runs again and again, each time one period after the last, from the moment it is made until
it is cancelled.  Time is counted in milliseconds by a clock that stands still while something runs.
When the clock is moved on, every run that falls due on the way takes place, in the order of time,
and where several fall due at one moment, in the order in which their timers were made.

* `Timers.every`, `Timers.cancel` — making and cancelling a timer.
* `Timers.next?` — the next run that falls due.
* `runDue`, `advance` — moving the clock on, for anything that owns timers.
-/

namespace ChatPreferences

/-- A timer: its number, the period that was asked for, and the moment of its next run. -/
structure Timer where
  id : Nat
  period : Rat
  due : Rat
  deriving DecidableEq

/-- The clock and the moment it shows, the number of timers ever made, and those not cancelled, in
the order in which they were made. -/
structure Timers where
  clock : Clock
  now : Rat
  created : Nat
  active : List Timer
  deriving DecidableEq

namespace Timers

/-- A clock at its beginning, without timers. -/
def initial (clock : Clock) : Timers := ⟨clock, 0, 0, []⟩

/-- The number of the next timer.  Numbers are given out from 1 on, each of them once. -/
def nextId (timers : Timers) : Nat :=
  timers.created + 1

/-- The longest time between two runs. -/
def longestInterval : Nat := 2147483647

/-- **The time between two runs**: the whole milliseconds of the period.  For a period that is too
short or too long it is the shortest time there is. -/
def interval (period : Rat) : Nat :=
  if 1 ≤ period ∧ period ≤ (longestInterval : Rat) then period.floor.toNat else 1

/-- When a timer with a period runs that last ran, or was made, at a moment. -/
def dueAfter (timers : Timers) (moment period : Rat) : Rat :=
  timers.clock.later moment (interval period)

/-- Makes a timer. -/
def every (timers : Timers) (period : Rat) : Timers :=
  { timers with
    created := timers.created + 1
    active := timers.active ++ [⟨timers.nextId, period, timers.dueAfter timers.now period⟩] }

/-- Cancels a timer; a number that is not given out, or no more, does nothing. -/
def cancel (timers : Timers) (id : Nat) : Timers :=
  { timers with active := timers.active.filter (·.id != id) }

/-- How many timers there are. -/
def count (timers : Timers) : Nat :=
  timers.active.length

/-! ## Runs -/

/-- The timer whose next run comes first; of several, the one made first. -/
def earliest : List Timer → Option Timer
  | [] => none
  | t :: rest =>
    match earliest rest with
    | none => some t
    | some u => if u.due < t.due then some u else some t

/-- The next timer to run, if it does so by `limit`. -/
def next? (timers : Timers) (limit : Rat) : Option Timer :=
  (earliest timers.active).filter (·.due ≤ limit)

/-- A run of a timer begins: the clock stands at its moment, and the next run is one period on. -/
def beginRun (timers : Timers) (t : Timer) : Timers :=
  { timers with
    now := t.due
    active := timers.active.map fun u =>
      if u.id = t.id then { u with due := timers.dueAfter t.due u.period } else u }

end Timers

/-! ## Moving the clock on -/

/-- Something that owns timers. -/
class HasTimers (α : Type) where
  timers : α → Timers
  withTimers : α → Timers → α

instance : HasTimers Timers where
  timers := id
  withTimers := fun _ timers => timers

/-- What comes of one or more runs: the state, what was seen, and the fault that ended them. -/
structure RunOutcome (α ε φ : Type) where
  state : α
  seen : List ε
  fault : Option φ

variable {α ε φ : Type} [HasTimers α]

/-- **Runs what falls due by `limit`**, at most `fuel` times, where `call` is what a run of the timer
with a number does.  A fault ends everything. -/
def runDue (call : Nat → α → RunOutcome α ε φ) (limit : Rat) : (fuel : Nat) → α → RunOutcome α ε φ
  | 0, a => ⟨a, [], none⟩
  | fuel + 1, a =>
    match (HasTimers.timers a).next? limit with
    | none => ⟨a, [], none⟩
    | some t =>
      let first := call t.id (HasTimers.withTimers a ((HasTimers.timers a).beginRun t))
      match first.fault with
      | some _ => first
      | none =>
        let others := runDue call limit fuel first.state
        ⟨others.state, first.seen ++ others.seen, others.fault⟩

/-- How many runs there can be by `limit`, where no run makes a timer beyond the first: no timer runs
twice within a millisecond, apart from what the clock rounds away. -/
def runBound (timers : Timers) (limit : Rat) : Nat :=
  (timers.count + 1) * ((limit - timers.now).floor.toNat + 2)

/-- Moves the clock on by some time. -/
def advance (call : Nat → α → RunOutcome α ε φ) (time : Rat) (a : α) : RunOutcome α ε φ :=
  let timers := HasTimers.timers a
  let limit := timers.clock.later timers.now time
  let outcome := runDue call limit (runBound timers limit) a
  match outcome.fault with
  | some _ => outcome
  | none =>
    { outcome with
      state := HasTimers.withTimers outcome.state
        { HasTimers.timers outcome.state with now := limit } }

end ChatPreferences
