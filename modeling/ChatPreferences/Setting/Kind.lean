import ChatPreferences.Text.LetterCase
import ChatPreferences.Text.Units
import ChatPreferences.Number.Numeral
import ChatPreferences.Setting.Bound
import ChatPreferences.Setting.Palette

/-!
# Kinds of settings

What may be stored in a setting is a matter of its kind: a switch, a whole number between two
bounds, one of several labels, a text up to a length, a colour.  Raw text — typed by the user or
found in the preference file — is either read as a value of the kind or rejected for a reason that
can be shown, and a value is written back in one spelling.

* `Kind`, `Value`, `Rejection` — the kinds, what they hold, and why a text is turned down.
* `Kind.parse` — reading a raw text.
* `Kind.format` — the one spelling of a value.
-/

namespace ChatPreferences

/-- What kind of value a setting holds. -/
inductive Kind where
  /-- On or off. -/
  | boolean
  /-- A whole number from `lowest` to `highest`. -/
  | integer (lowest highest : Bound)
  /-- One of the labels, held as its position. -/
  | choice (labels : List Text)
  /-- A text; a positive limit bounds its length in 16-bit units. -/
  | string (limit : Bound)
  /-- A colour, held as its index in the palette. -/
  | color
  deriving DecidableEq

/-- What a setting holds. -/
inductive Value where
  | flag (on : Bool)
  | number (n : Rat)
  | text (t : Text)
  deriving DecidableEq

namespace Value

/-- A value by itself, whatever kind it is held under. -/
def plain : Value → Text
  | flag on => if on then "true" else "false"
  | number n => Number.text n
  | text t => t

/-- Whether a value counts as on: all do but the switch turned off, zero, and the empty text. -/
def counts : Value → Bool
  | flag on => on
  | number n => n ≠ 0
  | text t => !t.isEmpty

end Value

/-- Why a raw text is turned down. -/
inductive Rejection where
  /-- The text is no word for on or off. -/
  | notSwitch
  /-- The text is no numeral. -/
  | notNumeral
  /-- The numeral is beyond all numbers that are kept. -/
  | outOfRange
  | below (lowest : Bound)
  | above (highest : Bound)
  | notListed (labels : List Text)
  | tooLong (limit : Rat)
  | unknownColor (raw : Text)
  deriving DecidableEq

/-- The reason, as it is shown. -/
def Rejection.message : Rejection → Text
  | .notSwitch => "expected on/off"
  | .notNumeral => "not a base-10 integer"
  | .outOfRange => "Expected integer, received float"
  | .below lowest => "must be >= ".toList ++ lowest.text
  | .above highest => "must be <= ".toList ++ highest.text
  | .notListed labels => "expected one of ".toList ++ Text.join ['|'] labels
  | .tooLong limit => "longer than ".toList ++ Number.text limit ++ " chars".toList
  | .unknownColor raw => "unknown color ".toList ++ raw.quoted

/-! ## Words for on and off -/

namespace Switch

/-- The words for on. -/
def onWords : List Text := ["on", "yes", "true", "1"]

/-- The words for off. -/
def offWords : List Text := ["off", "no", "false", "0"]

/-- The position that a word stands for; capitals do not matter. -/
def parse? (raw : Text) : Option Bool :=
  if raw.small ∈ onWords then some true
  else if raw.small ∈ offWords then some false
  else none

/-- The word that is written for a position. -/
def word (on : Bool) : Text :=
  if on then "on" else "off"

end Switch

/-! ## Labels -/

/-- The labels of a list written with bars between them; empty ones are left out. -/
def labelsOf (list : Text) : List Text :=
  (list.splitOn '|').filter (!·.isEmpty)

/-- The label at a position, where the number is a position. -/
def labelAt? (labels : List Text) (position : Rat) : Option Text :=
  if position.den = 1 ∧ 0 ≤ position.num then labels[position.num.toNat]? else none

namespace Kind

/-! ## Reading -/

/-- A numeral between two bounds.  The numeral is first rounded to the nearest number that is kept;
that number is then compared with the lower bound, and after it with the upper one. -/
def parseInteger (lowest highest : Bound) (raw : Text) : Except Rejection Value :=
  match raw.toInt? with
  | none => .error .notNumeral
  | some exact =>
    match Number.nearestInt exact with
    | none => .error .outOfRange
    | some n =>
      if lowest.isAbove (n : Rat) then .error (.below lowest)
      else if highest.isBelow (n : Rat) then .error (.above highest)
      else .ok (.number (n : Rat))

/-- The position of the first label that is the text. -/
def parseLabel (labels : List Text) (raw : Text) : Except Rejection Value :=
  match labels.idxOf? raw with
  | some position => .ok (.number (position : Rat))
  | none => .error (.notListed labels)

/-- The text itself, unless a positive limit is exceeded. -/
def parseText (limit : Bound) (raw : Text) : Except Rejection Value :=
  match limit.value? with
  | none => .ok (.text raw)
  | some most =>
    if 0 < most ∧ most < (raw.unitLength : Rat) then .error (.tooLong most)
    else .ok (.text raw)

/-- **Reading a raw text** as a value of a kind. -/
def parse (kind : Kind) (raw : Text) : Except Rejection Value :=
  match kind with
  | .boolean =>
    match Switch.parse? raw with
    | some on => .ok (.flag on)
    | none => .error .notSwitch
  | .integer lowest highest => parseInteger lowest highest raw
  | .choice labels => parseLabel labels raw
  | .string limit => parseText limit raw
  | .color =>
    match Palette.index? raw with
    | some index => .ok (.number (index : Rat))
    | none => .error (.unknownColor raw)

/-! ## Writing -/

/-- **The one spelling of a value** under a kind: a switch as its word, a position as its label, an
index as its colour, and a whole number in its shortest form.  A text stands between quotes, so that
its blanks survive in a line of the preference file. -/
def format (kind : Kind) (value : Value) : Text :=
  match kind, value with
  | .boolean, value => Switch.word value.counts
  | .choice labels, .number n => (labelAt? labels n).getD (Number.text n)
  | .string _, value => value.plain.quoted
  | .color, .number n => Palette.nameOf n
  | .color, _ => Palette.nameOf (-1)
  | _, value => value.plain

end Kind

end ChatPreferences
