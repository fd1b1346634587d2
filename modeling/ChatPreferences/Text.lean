/-!
# Text as a list of characters

Everything that the preference file holds — names, values, whole lines — is taken apart at single
characters: a section name ends at a bracket, a key at the first equals sign, a bar has five fields
between semicolons.  A text is therefore a list of characters, so that each of these readings is a
recursion on the text itself, and a statement about all texts is an induction.

The characters are those that can be written to a file.  A string of 16-bit units in which a surrogate
stands alone is no text, and is left out: in UTF-8 a replacement character would stand for the surrogate,
and such a string would not be read back as it was written.

* `Text.splitOn` — the pieces of a text between the occurrences of one character.
* `Text.cut?` — a text taken apart at the first occurrence of a pattern.
* `Text.join` — the pieces put together again around a separator.
* `Text.ofNat`, `Text.ofInt` — whole numbers in base ten.
-/

namespace ChatPreferences

/-- A text is the list of its characters. -/
abbrev Text := List Char

/-- A string literal may stand where a text is expected. -/
instance : Coe String Text := ⟨String.toList⟩

namespace Text

/-! ## Taking a text apart -/

/-- What follows `lead` in a text that begins with it. -/
def after? : (lead text : Text) → Option Text
  | [], t => some t
  | _ :: _, [] => none
  | l :: ls, c :: cs => if l = c then after? ls cs else none

/-- The text before and the text after the first occurrence of `pattern`, or `none` where the
pattern does not occur. -/
def cut? (pattern : Text) : Text → Option (Text × Text)
  | [] => (after? pattern []).map ([], ·)
  | c :: cs =>
    match after? pattern (c :: cs) with
    | some rest => some ([], rest)
    | none => (cut? pattern cs).map fun (before, rest) => (c :: before, rest)

/-- **The pieces between the occurrences of `separator`.**  There is one piece more than there are
separators, so the empty text has one piece, which is empty. -/
def splitOn (separator : Char) : Text → List Text
  | [] => [[]]
  | c :: cs =>
    if c = separator then [] :: splitOn separator cs
    else
      match splitOn separator cs with
      | [] => [[c]]
      | piece :: pieces => (c :: piece) :: pieces

/-- There is always a first piece. -/
theorem splitOn_ne_nil (separator : Char) (t : Text) : splitOn separator t ≠ [] := by
  cases t with
  | nil => simp [splitOn]
  | cons c cs =>
    rw [splitOn]
    split
    · simp
    · split <;> simp

/-! ## Putting texts together -/

/-- The pieces one after the other, with `separator` between any two of them. -/
def join (separator : Text) : List Text → Text
  | [] => []
  | [piece] => piece
  | piece :: pieces => piece ++ separator ++ join separator pieces

/-- **Joining undoes splitting**: the pieces of a text, put together around the separator, are the
text. -/
theorem join_splitOn (separator : Char) (t : Text) :
    join [separator] (splitOn separator t) = t := by
  induction t with
  | nil => rfl
  | cons c cs ih =>
    obtain ⟨piece, pieces, hp⟩ := List.exists_cons_of_ne_nil (splitOn_ne_nil separator cs)
    rw [hp] at ih
    by_cases hc : c = separator
    · simp [splitOn, hc, hp, join, ih]
    · cases pieces with
      | nil => simp [splitOn, hc, hp, join] at ih ⊢; exact ih
      | cons p ps => simp [splitOn, hc, hp, join] at ih ⊢; exact ih

/-- Each line, ended by a line feed. -/
def unlines (lines : List Text) : Text :=
  lines.flatMap (· ++ ['\n'])

/-- A text between two double quotes. -/
def quoted (t : Text) : Text :=
  '"' :: t ++ ['"']

/-- A text with `fill` put in front of it until it has `width` characters. -/
def padLeft (width : Nat) (fill : Char) (t : Text) : Text :=
  List.replicate (width - t.length) fill ++ t

/-- A text with `fill` put behind it until it has `width` characters. -/
def padRight (width : Nat) (fill : Char) (t : Text) : Text :=
  t ++ List.replicate (width - t.length) fill

/-! ## Whole numbers -/

/-- A natural number in base ten, without leading zeros. -/
def ofNat (n : Nat) : Text :=
  Nat.toDigits 10 n

/-- A whole number in base ten, with a minus sign in front of a negative one. -/
def ofInt : Int → Text
  | .ofNat n => ofNat n
  | .negSucc n => '-' :: ofNat (n + 1)

end Text

end ChatPreferences
