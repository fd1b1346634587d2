import ChatPreferences.Text

/-!
# Letter case

A switch may be written `on`, `On` or `ON`, and a colour `lightred` or `LightRed`.  All words that
are looked up without regard to case are made of ASCII letters and digits, so only the characters
whose small form is such a letter matter: the capitals `A` to `Z`, and the Kelvin sign, whose small
form is `k`.  Every other character, with a small form or without, matches no letter of these words
in either form, and `Text.small` leaves it alone.
-/

namespace ChatPreferences.Text

/-- The small form of a character, where that is an ASCII letter; otherwise the character. -/
def smallLetter (c : Char) : Char :=
  if c.isUpper then c.toLower else if c.toNat = 0x212A then 'k' else c

/-- A text with its capitals replaced by small letters. -/
def small (t : Text) : Text :=
  t.map smallLetter

example : small "Black" = "black".toList := by decide
example : small [Char.ofNat 0x212A, 'X', '7'] = "kx7".toList := by decide

end ChatPreferences.Text
