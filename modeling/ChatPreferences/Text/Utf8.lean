import ChatPreferences.Text

/-!
# UTF-8

A preference file may hold any bytes.  Reading it never fails: bytes that are no UTF-8 are replaced,
each longest beginning of a character that cannot go on by one replacement character (U+FFFD), and
so is each byte that cannot begin a character.  A byte order mark stays in the text.

The reader goes byte by byte.  After the first byte of a character it knows how many bytes are
still to come and in which range the next one has to lie; the range is narrower than `80`–`BF` only
for the second byte, where it keeps out over-long forms, surrogates and numbers above U+10FFFF.

* `Utf8.decode` — the text that bytes are read as.
* `Utf8.size` — how many bytes a text takes, which limits the names of files.
-/

namespace ChatPreferences.Text.Utf8

/-- A character that has begun: the bits so far, the bytes still to come (`more` after the next
one), and the range of the next byte. -/
structure Partial where
  bits : Nat
  more : Nat
  lowest : Nat
  highest : Nat

/-- What a byte does where no character has begun. -/
inductive Start where
  /-- The byte is a character. -/
  | whole (c : Char)
  /-- The byte begins a longer character. -/
  | begins (p : Partial)
  /-- No character begins with the byte. -/
  | stray

/-- The sign for what could not be read. -/
def replacement : Char := Char.ofNat 0xFFFD

/-- What byte `b` does where no character has begun. -/
def start (b : Nat) : Start :=
  if b < 0x80 then .whole (Char.ofNat b)
  else if b < 0xC2 then .stray
  else if b < 0xE0 then .begins ⟨b - 0xC0, 0, 0x80, 0xBF⟩
  else if b < 0xF0 then
    .begins ⟨b - 0xE0, 1, if b = 0xE0 then 0xA0 else 0x80, if b = 0xED then 0x9F else 0xBF⟩
  else if b < 0xF5 then
    .begins ⟨b - 0xF0, 2, if b = 0xF0 then 0x90 else 0x80, if b = 0xF4 then 0x8F else 0xBF⟩
  else .stray

/-- The characters read, where `pending` has begun. -/
def decodeFrom (pending : Option Partial) : List UInt8 → Text
  | [] => if pending.isSome then [replacement] else []
  | byte :: bytes =>
    let b := byte.toNat
    let fresh (lost : Text) : Text :=
      match start b with
      | .whole c => lost ++ c :: decodeFrom none bytes
      | .begins p => lost ++ decodeFrom (some p) bytes
      | .stray => lost ++ replacement :: decodeFrom none bytes
    match pending with
    | none => fresh []
    | some p =>
      if p.lowest ≤ b ∧ b ≤ p.highest then
        let bits := p.bits * 64 + (b - 0x80)
        match p.more with
        | 0 => Char.ofNat bits :: decodeFrom none bytes
        | more + 1 => decodeFrom (some ⟨bits, more, 0x80, 0xBF⟩) bytes
      else fresh [replacement]

/-- The text that a sequence of bytes is read as. -/
def decode (bytes : List UInt8) : Text :=
  decodeFrom none bytes

/-- How many bytes a text takes. -/
def size (t : Text) : Nat :=
  t.foldr (fun c n => c.utf8Size + n) 0

example : decode [0xC3, 0xA9, 0xF0, 0x9F, 0x98, 0x80] = [Char.ofNat 0xE9, Char.ofNat 0x1F600] := by
  decide
example : decode [0xE2, 0x82, 0x41, 0xFF, 0xED, 0xA0] =
    [replacement, 'A', replacement, replacement, replacement] := by decide

end ChatPreferences.Text.Utf8
