import ChatPreferences.Text.Units

/-!
# Texts within messages

A message that shows a text which somebody has given puts it between quotes, so that one sees where
it ends, and spells the characters that would not show.  A long text is broken at its line feeds,
and what is then still too long is cut.

* `Text.literal` — a text between quotes.
* `Text.excerpt` — the beginning of a text between quotes, as long as a message may show.
-/

namespace ChatPreferences.Text

/-- The quotes to put a text between: single ones, unless others save spelling a quote inside. -/
def quoteFor (t : Text) : Char :=
  let backquote := Char.ofNat 0x60
  if !t.contains '\'' then '\''
  else if !t.contains '"' then '"'
  else if !t.contains backquote && (cut? "$\x7b" t).isNone then backquote
  else '\''

/-- A character by its number, in two digits of base sixteen. -/
def spelledNumber (c : Char) : Text :=
  '\\' :: 'x' :: padLeft 2 '0' ((Nat.toDigits 16 c.toNat).map Char.toUpper)

/-- **A character as it is written between quotes.**  The quote itself and the backslash have a
backslash in front; control characters have a letter or their number. -/
def spelled (quote c : Char) : Text :=
  if c = quote || c = '\\' then ['\\', c]
  else if c = '\n' then ['\\', 'n']
  else if c = '\r' then ['\\', 'r']
  else if c = '\t' then ['\\', 't']
  else if c = '\x08' then ['\\', 'b']
  else if c = '\x0c' then ['\\', 'f']
  else if c.toNat < 32 || (126 < c.toNat && c.toNat < 160) then spelledNumber c
  else [c]

/-- **A text between quotes.** -/
def literal (t : Text) : Text :=
  let quote := quoteFor t
  quote :: t.flatMap (spelled quote) ++ [quote]

/-- A text, broken after each line feed. -/
def brokenLines : Text → List Text
  | [] => []
  | c :: cs =>
    if c = '\n' then [c] :: brokenLines cs
    else
      match brokenLines cs with
      | [] => [[c]]
      | piece :: pieces => (c :: piece) :: pieces

/-- The greatest length of a text that is not broken. -/
def unbroken : Nat := 124

/-- The greatest length of what a message shows of a text. -/
def excerptLength : Nat := 128

/-- **The beginning of a text between quotes**, as long as a message may show. -/
def excerpt (t : Text) : Text :=
  let shown :=
    if t.unitLength ≤ unbroken then literal t
    else join " +\n  " ((brokenLines t).map literal)
  if shown.unitLength ≤ excerptLength then shown
  else takeUnits excerptLength shown ++ "...".toList

example : literal "it's\x00".toList = "\"it's\\x00\"".toList := by decide
example : brokenLines "a\nb\n".toList = ["a\n".toList, "b\n".toList] := by decide

end ChatPreferences.Text
