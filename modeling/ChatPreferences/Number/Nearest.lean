/-!
# The nearest number of 53 bits

Numbers are kept with 53 significant bits: a numeral with more is rounded to the nearest number
that has no more, and where two are equally near, to the one whose last bit is zero.  Up to `2 ^ 53`
every whole number is kept exactly.  From the middle between the greatest such number and `2 ^ 1024`
on there is no nearest one, and the numeral is out of range.

* `Number.roundQuotient` — the whole number nearest to a quotient, halves to the even neighbour.
* `Number.nearestNat`, `Number.nearestInt` — the number kept for a whole number.
* `Number.nearest` — the number kept for a fraction; the last place does not go below `2 ^ -1074`.
-/

namespace ChatPreferences.Number

/-- The whole number nearest to `a / b`; of two equally near, the even one. -/
def roundQuotient (a b : Nat) : Nat :=
  let q := a / b
  let r := a % b
  if 2 * r < b then q
  else if b < 2 * r then q + 1
  else if q % 2 = 0 then q else q + 1

/-- No number is kept from here on. -/
def tooGreat : Nat := Nat.pow 2 1024

/-! ## Whole numbers -/

/-- The number kept for a natural number, or `none` where it is out of range. -/
def nearestNat (n : Nat) : Option Nat :=
  let lastPlace := Nat.pow 2 (n.log2 - 52)
  let kept := roundQuotient n lastPlace * lastPlace
  if kept < tooGreat then some kept else none

/-- The number kept for a whole number: its sign, and the number kept for its magnitude. -/
def nearestInt : Int → Option Int
  | .ofNat n => (nearestNat n).map fun m => (m : Int)
  | .negSucc n => (nearestNat (n + 1)).map fun m => -(m : Int)

/-! ## Fractions -/

/-- The exponent of the greatest power of two not above `a / b`, for positive `a` and `b`. -/
def binaryExponent (a b : Nat) : Int :=
  let e : Int := (a.log2 : Int) - (b.log2 : Int)
  if 0 ≤ e then
    if b * Nat.pow 2 e.toNat ≤ a then e else e - 1
  else
    if b ≤ a * Nat.pow 2 (-e).toNat then e else e - 1

/-- `m * 2 ^ e`. -/
def timesPowerOfTwo (m : Nat) (e : Int) : Rat :=
  if 0 ≤ e then ((m * Nat.pow 2 e.toNat : Nat) : Rat) else mkRat m (Nat.pow 2 (-e).toNat)

/-- The number kept for a fraction, or `none` where it is out of range. -/
def nearest (q : Rat) : Option Rat :=
  let a := q.num.natAbs
  let b := q.den
  let lastPlace := max (binaryExponent a b - 52) (-1074)
  let kept :=
    if 0 ≤ lastPlace then roundQuotient a (b * Nat.pow 2 lastPlace.toNat)
    else roundQuotient (a * Nat.pow 2 (-lastPlace).toNat) b
  let v := timesPowerOfTwo kept lastPlace
  if v < (tooGreat : Rat) then some (if q.num < 0 then -v else v) else none

example : nearestNat (2 ^ 53 + 1) = some (2 ^ 53) := by decide +kernel
example : nearestNat (2 ^ 53 + 3) = some (2 ^ 53 + 4) := by decide +kernel
example : nearestNat (2 ^ 1024 - 2 ^ 970) = none := by decide +kernel

end ChatPreferences.Number
