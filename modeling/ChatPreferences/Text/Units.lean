import ChatPreferences.Text

/-!
# Length in 16-bit units

A limit on the length of a value counts the units of the 16-bit encoding of Unicode: a character
above U+FFFF is two units, every other character is one.  The same encoding orders names in a
listing, where a character above U+FFFF comes before those from U+E000 on.

* `Text.units` — the units of a text, in order.
* `Text.unitLength` — how many there are.
* `Text.takeUnits` — a text cut to a number of units.
-/

namespace ChatPreferences.Text

/-- The 16-bit units of a character: itself, or a high and a low surrogate. -/
def charUnits (c : Char) : List Nat :=
  if c.toNat < 0x10000 then [c.toNat]
  else [0xD800 + (c.toNat - 0x10000) / 0x400, 0xDC00 + (c.toNat - 0x10000) % 0x400]

/-- The 16-bit units of a text. -/
def units (t : Text) : List Nat :=
  t.flatMap charUnits

/-- The length of a text in 16-bit units. -/
def unitLength (t : Text) : Nat :=
  t.units.length

/-- The longest beginning of a text that has at most `limit` units. -/
def takeUnits (limit : Nat) : Text → Text
  | [] => []
  | c :: cs =>
    let width := (charUnits c).length
    if width ≤ limit then c :: takeUnits (limit - width) cs else []

/-- Whether `s` stands before `t`, or is `t`, in the order of their units. -/
def unitsLE (s t : Text) : Bool :=
  !(decide (t.units < s.units))

example : unitLength [Char.ofNat 0x1F600, 'a'] = 3 := by decide
example : unitsLE [Char.ofNat 0x1F600] [Char.ofNat 0xE000] = true := by decide

end ChatPreferences.Text
