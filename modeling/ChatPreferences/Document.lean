import ChatPreferences.Text.Blank

/-!
# The preference document

A preference file is a sequence of lines.  A line in brackets opens a section; a line with an equals
sign is an entry of the section that is open; blank lines and lines that begin with `#` say nothing.
Whoever edits the file by hand may indent, leave lines out, or get one wrong, so no line can spoil
another: a line is read on its own, apart from the section it falls in.

* `Entry`, `Block` — a key with its value; a named section with its entries, as they are written.
* `Line`, `Document` — an entry as it was found, with its section and the number of its line; all
  that was found, and how many lines could not be read.
* `Shape.ofLine` — what a line is.
-/

namespace ChatPreferences

/-- A key and its value. -/
structure Entry where
  key : Text
  value : Text
  deriving DecidableEq

/-- A section as it is written: its name and its entries in order. -/
structure Block where
  name : Text
  entries : List Entry
  deriving DecidableEq

/-- An entry as it was found: the section that was open, and the number of the line, from 1. -/
structure Line where
  sectionName : Text
  key : Text
  value : Text
  number : Nat
  deriving DecidableEq

/-- All entries of a text, in order, and the number of lines that are neither an entry in a section
nor anything else that a line may be. -/
structure Document where
  lines : List Line
  malformed : Nat
  deriving DecidableEq

/-- What a line is. -/
inductive Shape where
  /-- Blank, or a comment. -/
  | remark
  /-- The name of the section that begins. -/
  | heading (name : Text)
  | entry (e : Entry)
  /-- None of these. -/
  | unreadable
  deriving DecidableEq

/-- A text without one pair of double quotes around it, where it has one. -/
def unquote (t : Text) : Text :=
  match t with
  | '"' :: rest => if rest.getLast? = some '"' then rest.dropLast else t
  | _ => t

/-- The name between the brackets of a heading.  The name is not empty, at least before it is
trimmed, and holds no closing bracket. -/
def headingName? (line : Text) : Option Text :=
  match line with
  | '[' :: rest =>
    match rest.getLast? with
    | some ']' =>
      let name : Text := rest.dropLast
      if name.isEmpty || name.contains ']' then none else some name.trim
    | _ => none
  | _ => none

/-- The key and the value of a line, taken apart at the first equals sign that stands between two
spaces, or, where there is none, at the first equals sign. -/
def entry? (line : Text) : Option Entry :=
  match Text.cut? " = " line with
  | some (key, value) => some ⟨key.trim, unquote value.trim⟩
  | none => (Text.cut? "=" line).map fun (key, value) => ⟨key.trim, unquote value.trim⟩

/-- What a line is; the blanks around it do not matter. -/
def Shape.ofLine (line : Text) : Shape :=
  let body := line.trim
  if body.isEmpty || body.head? == some '#' then .remark
  else
    match headingName? body with
    | some name => .heading name
    | none =>
      match entry? body with
      | some e => .entry e
      | none => .unreadable

end ChatPreferences
