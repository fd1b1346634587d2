import ChatPreferences.Text

/-!
# Blank characters

A line of the preference file may be indented, may end in a carriage return, and may have spaces
around its equals sign; a typed answer may have spaces around it.  What counts as blank is one
fixed set of characters, here `Text.isBlank`: the white space and the line ends of Unicode, and the
byte order mark.  The next-line control, the zero-width space and the Mongolian vowel separator are
not in it.

* `Text.trim` — a text without the blanks at either end.
-/

namespace ChatPreferences.Text

/-- The blank characters: tabulator to carriage return, the spaces of Unicode (class `Zs`), its
line and paragraph separators, and the byte order mark. -/
def isBlank (c : Char) : Bool :=
  let n := c.toNat
  (9 ≤ n && n ≤ 13) || n == 0x20 || n == 0xA0 || n == 0x1680 || (0x2000 ≤ n && n ≤ 0x200A)
    || n == 0x2028 || n == 0x2029 || n == 0x202F || n == 0x205F || n == 0x3000 || n == 0xFEFF

/-- A text without the blanks in front. -/
def trimLeft (t : Text) : Text :=
  t.dropWhile isBlank

/-- A text without the blanks at its end. -/
def trimRight : Text → Text
  | [] => []
  | c :: cs =>
    match trimRight cs with
    | [] => if isBlank c then [] else [c]
    | d :: ds => c :: d :: ds

/-- A text without the blanks at either end. -/
def trim (t : Text) : Text :=
  trimRight (trimLeft t)

example : trim "\t a b \r".toList = "a b".toList := by decide
example : isBlank (Char.ofNat 0xFEFF) = true ∧ isBlank (Char.ofNat 0x85) = false ∧
    isBlank (Char.ofNat 0x200B) = false ∧ isBlank (Char.ofNat 0x180E) = false := by decide

end ChatPreferences.Text
