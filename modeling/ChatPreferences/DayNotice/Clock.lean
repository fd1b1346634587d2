import ChatPreferences.Number.Nearest

/-!
# Clocks

A moment is a number of milliseconds, and the only thing asked of a clock is which moment comes some
time after another.  An ideal clock adds the two.  A clock that keeps its moments as numbers of 53
bits has to round the sum, so a moment far from the beginning is reached early or late: after
`2 ^ 53` milliseconds it no longer tells one millisecond from the next.

* `Clock.later` — the moment that comes some time after another.
-/

namespace ChatPreferences

/-- How moments are kept: exactly, or with 53 bits. -/
inductive Clock where
  | ideal
  | rounding
  deriving DecidableEq

namespace Clock

/-- **The moment that comes some time after another.**  Where the sum is out of range, the clock
stays where it is. -/
def later : Clock → (moment time : Rat) → Rat
  | ideal, moment, time => moment + time
  | rounding, moment, time => (Number.nearest (moment + time)).getD moment

example : later ideal (2 ^ 53) 1 = 2 ^ 53 + 1 := by decide +kernel
example : later rounding (2 ^ 53) 1 = 2 ^ 53 := by decide +kernel
example : later rounding (2 ^ 53 - 1) 2 = 2 ^ 53 := by decide +kernel

end Clock

end ChatPreferences
