import ChatPreferences.Document
import ChatPreferences.Number.Nearest
import ChatPreferences.Number.Numeral
import ChatPreferences.Number.Shortest

/-!
# Status bars

A status bar is defined by one line, whose value has five fields between semicolons: what the bar
belongs to, the edge it stands at, its size, whether a separator is drawn, and its items.  The
reader is strict about the first three and easy about the last two, and a line that it cannot read
is left out without a word, so that a file with extra or missing fields still loads.

* `Bar.parse?`, `Bar.format` — a bar and the value of its line.
* `Bars.read` — taking in one line; the first bar of a name stays.
* `Bars.entries` — the lines that the bars are written as.
-/

namespace ChatPreferences

/-- What a bar belongs to. -/
inductive BarScope where
  | root
  | window
  deriving DecidableEq

/-- The edge that a bar stands at. -/
inductive BarEdge where
  | bottom
  | top
  | left
  | right
  deriving DecidableEq

/-- A status bar.  The size 0 lets the bar choose its own. -/
structure Bar where
  name : Text
  scope : BarScope
  edge : BarEdge
  size : Rat
  separator : Bool
  items : Text
  deriving DecidableEq

namespace BarScope

/-- The word for a scope. -/
def word : BarScope → Text
  | root => "root"
  | window => "window"

/-- The scope that a word stands for. -/
def parse? (t : Text) : Option BarScope :=
  [root, window].find? (·.word == t)

end BarScope

namespace BarEdge

/-- The word for an edge. -/
def word : BarEdge → Text
  | bottom => "bottom"
  | top => "top"
  | left => "left"
  | right => "right"

/-- The edge that a word stands for. -/
def parse? (t : Text) : Option BarEdge :=
  [bottom, top, left, right].find? (·.word == t)

end BarEdge

namespace Bar

/-- The greatest size. -/
def greatestSize : Nat := 2147483647

/-- The size that a field stands for: digits, whose number is rounded first and compared with the
greatest size then. -/
def parseSize? (field : Text) : Option Nat :=
  (field.toNat?.bind Number.nearestNat).filter (· ≤ greatestSize)

/-- **The bar of a line**, where the value has five fields of which the first three can be read.
The separator is drawn unless its field begins with `0`; the items are taken as they stand. -/
def parse? (name value : Text) : Option Bar :=
  match value.splitOn ';' with
  | [scope, edge, size, separator, items] =>
    match BarScope.parse? scope, BarEdge.parse? edge, parseSize? size with
    | some s, some e, some n => some ⟨name, s, e, (n : Rat), separator.head? != some '0', items⟩
    | _, _, _ => none
  | _ => none

/-- Five fields as one value, with any words for the scope and the edge. -/
def line (scope edge : Text) (size : Rat) (separator : Bool) (items : Text) : Text :=
  Text.join [';'] [scope, edge, Number.text size, if separator then ['1'] else ['0'], items]

/-- The value of the line that defines a bar. -/
def format (bar : Bar) : Text :=
  line bar.scope.word bar.edge.word bar.size bar.separator bar.items

end Bar

/-- The bars, in the order in which they were made. -/
abbrev Bars := List Bar

namespace Bars

/-- The bar with a name. -/
def get? (bars : Bars) (name : Text) : Option Bar :=
  bars.find? (·.name == name)

/-- Takes in one line.  A line with an empty key or value, a value that is no bar, and a second bar
of a name are left out. -/
def read (bars : Bars) (key value : Text) : Bars :=
  if key.isEmpty || value.isEmpty then bars
  else
    match Bar.parse? key value with
    | none => bars
    | some bar => if (bars.get? key).isSome then bars else bars ++ [bar]

/-- The lines that define the bars. -/
def entries (bars : Bars) : List Entry :=
  bars.map fun bar => ⟨bar.name, bar.format⟩

end Bars

end ChatPreferences
