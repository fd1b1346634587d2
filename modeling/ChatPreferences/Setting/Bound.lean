import ChatPreferences.Number.Shortest

/-!
# Bounds

A setting may be bounded: a number from below and from above, a text in its length.  Whoever
declares the setting may leave a bound out, and may also declare that it is nothing; the declaration
is kept as it was made.

* `Bound`, `Bound.value?` — a bound as it is declared, and the number that it is at.
* `Bound.isAbove`, `Bound.isBelow` — whether a number is out of bounds.
-/

namespace ChatPreferences

/-- A bound as it is declared. -/
inductive Bound where
  /-- It is left out, and bounds nothing. -/
  | absent
  /-- It is declared to be nothing, and counts as zero. -/
  | null
  | number (n : Rat)
  deriving DecidableEq

namespace Bound

/-- A numeral stands for the bound at its number. -/
instance (n : Nat) : OfNat Bound n := ⟨.number (n : Rat)⟩

/-- A number may stand where a bound is expected. -/
instance : Coe Rat Bound := ⟨.number⟩

/-- The number that a bound is at. -/
def value? : Bound → Option Rat
  | absent => none
  | null => some 0
  | number n => some n

/-- A bound, as it is shown. -/
def text : Bound → Text
  | absent => []
  | null => "null"
  | number n => Number.text n

/-- Whether a number is below a lower bound. -/
def isAbove (lowest : Bound) (n : Rat) : Bool :=
  lowest.value?.any fun v => n < v

/-- Whether a number is above an upper bound. -/
def isBelow (highest : Bound) (n : Rat) : Bool :=
  highest.value?.any fun v => v < n

end Bound

end ChatPreferences
