import ChatPreferences.Text
import ChatPreferences.Number.Nearest

/-!
# The shortest decimal that reads back

A number is written with the fewest significant digits that still denote it, that is, that are read
as the same number of 53 bits; of several such decimals, the one nearest to the number, and of two
equally near, the one whose last digit is even.

* `Number.digits` — these digits, and where the decimal point stands.
* `Number.text` — the written form: with all zeros from `0.000001` up to `10 ^ 21`, and with an
  exponent outside that range.
-/

namespace ChatPreferences.Number

/-! ## Which digits -/

/-- `c * 10 ^ e`. -/
def timesPowerOfTen (c : Nat) (e : Int) : Rat :=
  if 0 ≤ e then ((c * Nat.pow 10 e.toNat : Nat) : Rat) else mkRat c (Nat.pow 10 (-e).toNat)

/-- How many digits `a / b` has in front of the decimal point, for positive `a` and `b`; where it is
below one tenth, less the zeros that follow the point. -/
def pointPosition (a b : Nat) : Int :=
  let n : Int := ((Nat.toDigits 10 a).length : Int) - ((Nat.toDigits 10 b).length : Int)
  let below : Bool :=
    if 0 ≤ n then a < b * Nat.pow 10 n.toNat else a * Nat.pow 10 (-n).toNat < b
  if below then n else n + 1

/-- The decimal of `count` digits that denotes the positive number `v`, as a whole number of units
of its last place; `none` where more digits are needed. -/
def decimalOf (v : Rat) (point : Int) (count : Nat) : Option Nat :=
  let e : Int := count - point
  let a := v.num.natAbs * Nat.pow 10 e.toNat
  let b := v.den * Nat.pow 10 (-e).toNat
  let c := a / b
  let reads (d : Nat) : Bool := nearest (timesPowerOfTen d (-e)) == some v
  match reads c, reads (c + 1) with
  | true, true => some (roundQuotient a b)
  | true, false => some c
  | false, true => some (c + 1)
  | false, false => none

/-- A text without the zeros at its end. -/
def dropZeros (digits : Text) : Text :=
  (digits.reverse.dropWhile (· == '0')).reverse

/-- The digits of a positive number, without zeros at the end, and the number of digits in front of
the decimal point.  Seventeen digits are enough for every number of 53 bits. -/
def digits (v : Rat) : Text × Int :=
  let point := pointPosition v.num.natAbs v.den
  let found := (List.range 17).findSome? fun i =>
    (decimalOf v point (i + 1)).map fun c => (Text.ofNat c, ((i + 1 : Nat) : Int))
  match found with
  | some (ds, count) => (dropZeros ds, point + (ds.length - count))
  | none => (['0'], 1)

/-! ## How they are laid out -/

/-- An exponent, with its sign. -/
def exponentText (e : Int) : Text :=
  'e' :: (if e < 0 then '-' else '+') :: Text.ofNat e.natAbs

/-- **The layout of a positive number** with the given digits and the given number of digits in
front of the point: positional when that number lies between -5 and 21, otherwise one digit, the
others behind a point, and the exponent. -/
def layout (ds : Text) (point : Int) : Text :=
  if (ds.length : Int) ≤ point ∧ point ≤ 21 then
    Text.padRight point.toNat '0' ds
  else if 0 < point ∧ point ≤ 21 then
    ds.take point.toNat ++ '.' :: ds.drop point.toNat
  else if -6 < point ∧ point ≤ 0 then
    '0' :: '.' :: List.replicate (-point).toNat '0' ++ ds
  else
    match ds with
    | [] => []
    | [d] => d :: exponentText (point - 1)
    | d :: rest => d :: '.' :: rest ++ exponentText (point - 1)

/-- Up to here every whole number is kept exactly, and is written with all its digits. -/
def exactBound : Nat := Nat.pow 2 53

/-- The written form of a number. -/
def text (q : Rat) : Text :=
  if q.den = 1 ∧ q.num.natAbs ≤ exactBound then Text.ofInt q.num
  else
    let (ds, point) := digits (if q.num < 0 then -q else q)
    if q.num < 0 then '-' :: layout ds point else layout ds point

end ChatPreferences.Number
