import ChatPreferences.Text

/-!
# Numerals

A whole number is written as one or more ASCII digits, with a plus or a minus sign in front if one
likes; leading zeros are allowed.  Nothing else is: no blanks, no point, no digits of other scripts.
A numeral denotes its exact value, however long it is.

* `Text.toNat?`, `Text.toInt?` — the number that a text denotes, where it is a numeral.
* `Text.leadingInt?` — the number that a text begins with.
-/

namespace ChatPreferences.Text

/-- The value of a text of one or more digits. -/
def toNat? (t : Text) : Option Nat :=
  if !t.isEmpty && t.all Char.isDigit then some (Nat.ofDigitChars 10 t 0) else none

/-- The value of a numeral: digits with or without a sign in front. -/
def toInt? : Text → Option Int
  | '+' :: ds => (toNat? ds).map fun n => (n : Int)
  | '-' :: ds => (toNat? ds).map fun n => -(n : Int)
  | ds => (toNat? ds).map fun n => (n : Int)

/-- The longest numeral that a text begins with, read as a number. -/
def leadingInt? : Text → Option Int
  | '+' :: cs => toInt? ('+' :: cs.takeWhile Char.isDigit)
  | '-' :: cs => toInt? ('-' :: cs.takeWhile Char.isDigit)
  | cs => toInt? (cs.takeWhile Char.isDigit)

example : toInt? "-007".toList = some (-7) := by decide
example : toInt? "+-7".toList = none := by decide
example : leadingInt? "2abc".toList = some 2 := by decide

end ChatPreferences.Text
