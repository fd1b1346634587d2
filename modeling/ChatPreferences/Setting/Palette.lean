import ChatPreferences.Text.LetterCase

/-!
# The palette

A colour is stored as its index in the terminal's palette and written as its name.  The index `-1`
stands for the colour that the terminal itself uses; the index 8 has no name.
-/

namespace ChatPreferences.Palette

/-- The colours by name, in the order of the palette. -/
def colors : List (Text × Int) :=
  [("default", -1), ("black", 0), ("red", 1), ("green", 2), ("brown", 3), ("blue", 4),
    ("magenta", 5), ("cyan", 6), ("white", 7), ("lightred", 9), ("lightgreen", 10), ("yellow", 11),
    ("lightblue", 12), ("lightmagenta", 13), ("lightcyan", 14)]

/-- The index of a colour, whose name may be written in capitals. -/
def index? (name : Text) : Option Int :=
  (colors.find? fun color => color.1 == name.small).map (·.2)

/-- The name of the colour with an index; an index without a name is written as the default. -/
def nameOf (index : Rat) : Text :=
  match colors.find? fun color => (color.2 : Rat) == index with
  | some color => color.1
  | none => "default"

end ChatPreferences.Palette
