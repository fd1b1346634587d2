import ChatPreferences.Calendar.Date
import ChatPreferences.Text

/-!
# Time patterns

How a date is shown is a setting of its own: a text in which a percent sign and the character after
it stand for a part of the date.  A pattern is read from left to right, and each percent sign takes
the next character with it, so `%%a` is a percent sign and an `a`.  A pair that stands for nothing
is shown as it is, and so is a percent sign at the end of the pattern or of a line.

A moment may have no date.  Its numbers are then shown as `NaN`; its names cannot be shown at all,
and a pattern that asks for one fails.

The names of days and months are those of American English.  A schedule can be given another locale
for them, which the client never does; other locales are left out.  So are time zones: a pattern shows
the date that it is given, and `Moment.date?` gives that of universal time.

* `Pattern.conversion` — what a pair stands for.
* `Pattern.format` — a pattern with its pairs replaced.
-/

namespace ChatPreferences

/-- There is no name of a day or month, because there is no date. -/
inductive InvalidTime where
  | noDate
  deriving DecidableEq

/-- What is shown when a name is missing. -/
def InvalidTime.message : InvalidTime → Text
  | .noDate => "Invalid time value"

namespace Pattern

/-- The days of the week, from Sunday. -/
def weekdayNames : List Text :=
  ["Sunday", "Monday", "Tuesday", "Wednesday", "Thursday", "Friday", "Saturday"]

/-- The months, from January. -/
def monthNames : List Text :=
  ["January", "February", "March", "April", "May", "June", "July", "August", "September",
    "October", "November", "December"]

/-- The name at a position, in full or its first three letters. -/
def nameAt (names : List Text) (position : Nat) (short : Bool) : Text :=
  let name := names.getD position []
  if short then name.take 3 else name

/-- The name of the day of the week. -/
def weekdayName (short : Bool) : Option Date → Except InvalidTime Text
  | some date => .ok (nameAt weekdayNames date.weekday short)
  | none => .error .noDate

/-- The name of the month. -/
def monthName (short : Bool) : Option Date → Except InvalidTime Text
  | some date => .ok (nameAt monthNames (date.month - 1) short)
  | none => .error .noDate

/-- A number of the date, filled up on the left. -/
def number (part : Date → Int) (width : Nat) (fill : Char) : Option Date → Text
  | some date => Text.padLeft width fill (Text.ofInt (part date))
  | none => Text.padLeft width fill "NaN"

/-- **What a percent sign with `c` after it stands for.**  The year of the century has the sign of
the year. -/
def conversion (date? : Option Date) (c : Char) : Except InvalidTime Text :=
  match c with
  | 'a' => weekdayName true date?
  | 'A' => weekdayName false date?
  | 'b' => monthName true date?
  | 'B' => monthName false date?
  | 'd' => .ok (number (fun d => (d.day : Int)) 2 '0' date?)
  | 'e' => .ok (number (fun d => (d.day : Int)) 2 ' ' date?)
  | 'm' => .ok (number (fun d => (d.month : Int)) 2 '0' date?)
  | 'y' => .ok (number (fun d => d.year.tmod 100) 2 '0' date?)
  | 'Y' => .ok (number (fun d => d.year) 0 '0' date?)
  | 'H' => .ok (number (fun d => (d.hour : Int)) 2 '0' date?)
  | 'M' => .ok (number (fun d => (d.minute : Int)) 2 '0' date?)
  | 'S' => .ok (number (fun d => (d.second : Int)) 2 '0' date?)
  | '%' => .ok ['%']
  | _ => .ok ['%', c]

/-- The characters that end a line: no percent sign takes one of them with it. -/
def isLineEnd (c : Char) : Bool :=
  c == '\n' || c == '\r' || c.toNat == 0x2028 || c.toNat == 0x2029

/-- **A pattern with its pairs replaced**, for a date or for the lack of one. -/
def format (date? : Option Date) : Text → Except InvalidTime Text
  | [] => .ok []
  | '%' :: c :: rest =>
    if isLineEnd c then (format date? rest).map fun shown => '%' :: c :: shown
    else
      match conversion date? c with
      | .error fault => .error fault
      | .ok part => (format date? rest).map fun shown => part ++ shown
  | c :: rest => (format date? rest).map fun shown => c :: shown

end Pattern

end ChatPreferences
