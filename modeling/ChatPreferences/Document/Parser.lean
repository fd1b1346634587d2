import ChatPreferences.Document

/-!
# Reading a preference document

The lines of a text are the pieces between its line feeds.  A carriage return in front of a line
feed is a blank at the end of its line, so both ways to end a line read alike.

Reading goes down the lines with one piece of memory, the section that is open: a heading opens a
section, an entry belongs to the section that is open, and an entry before the first heading counts
as malformed, as does a line that is nothing that a line may be.

* `Document.ofLines` — the document of numbered lines.
* `Document.parse` — the document of a text.
-/

namespace ChatPreferences.Document

/-- A document with one more entry in front. -/
def withLine (line : Line) (d : Document) : Document :=
  { d with lines := line :: d.lines }

/-- A document with one more malformed line. -/
def withMalformed (d : Document) : Document :=
  { d with malformed := d.malformed + 1 }

/-- **The document of a list of lines**, the first of which has number `number`, where the section
`opened` is open. -/
def ofLines (number : Nat) (opened : Option Text) : List Text → Document
  | [] => ⟨[], 0⟩
  | line :: rest =>
    match Shape.ofLine line with
    | .remark => ofLines (number + 1) opened rest
    | .heading name => ofLines (number + 1) (some name) rest
    | .unreadable => (ofLines (number + 1) opened rest).withMalformed
    | .entry e =>
      match opened with
      | some name =>
        (ofLines (number + 1) opened rest).withLine ⟨name, e.key, e.value, number⟩
      | none => (ofLines (number + 1) opened rest).withMalformed

/-- The document that a text holds. -/
def parse (t : Text) : Document :=
  ofLines 1 none (t.splitOn '\n')

end ChatPreferences.Document
