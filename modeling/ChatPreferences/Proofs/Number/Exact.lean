import ChatPreferences.Number.Numeral
import ChatPreferences.Number.Shortest
import ChatPreferences.Proofs.Document.Legible

/-!
# Whole numbers that are kept exactly

A numeral is rounded to 53 bits when it is read, and a number is written with its shortest digits.
Below `2 ^ 53` neither changes anything: every whole number has all its digits and is read back.

* `toInt?_ofInt` — the numeral of a whole number denotes it.
* `nearestInt_eq_self` — a whole number below `2 ^ 53` is kept as it is.
* `text_intCast` — and is written as its numeral.
* `plainValue_ofInt`, `unquote_ofInt` — a numeral stands plainly in a line.
-/

namespace ChatPreferences

open Text

/-- The magnitudes below which every whole number is kept exactly. -/
def exactMagnitude : Nat := Nat.pow 2 53

namespace Text

/-! ## Numerals -/

theorem isDigit_of_mem_ofNat {n : Nat} {c : Char} (h : c ∈ ofNat n) : c.isDigit = true :=
  Nat.isDigit_of_mem_toDigits (by decide) (by decide) h

theorem ofNat_ne_nil (n : Nat) : ofNat n ≠ [] :=
  Nat.toDigits_ne_nil

/-- **The digits of a number denote it.** -/
theorem toNat?_ofNat (n : Nat) : toNat? (ofNat n) = some n := by
  have hall : (ofNat n).all Char.isDigit = true :=
    List.all_eq_true.mpr fun c hc => isDigit_of_mem_ofNat hc
  have hne : (ofNat n).isEmpty = false := by simp [ofNat_ne_nil]
  rw [toNat?, hall, hne]
  simp [ofNat]

/-- **The numeral of a whole number denotes it.** -/
theorem toInt?_ofInt (n : Int) : toInt? (ofInt n) = some n := by
  cases n with
  | negSucc m =>
    rw [ofInt, toInt?, toNat?_ofNat]
    rfl
  | ofNat m =>
    rw [ofInt]
    obtain ⟨d, ds, hd⟩ := List.exists_cons_of_ne_nil (ofNat_ne_nil m)
    have hdigit : d.isDigit = true :=
      isDigit_of_mem_ofNat (n := m) (by rw [hd]; exact List.mem_cons_self)
    have hsigned : toInt? (d :: ds) = (toNat? (d :: ds)).map fun n => (n : Int) := by
      unfold toInt?
      split
      · exact absurd hdigit (by simp_all)
      · exact absurd hdigit (by simp_all)
      · rfl
    rw [hd, hsigned, ← hd, toNat?_ofNat]
    rfl

theorem isDigit_or_eq_minus_of_mem_ofInt {n : Int} {c : Char} (h : c ∈ ofInt n) :
    c.isDigit = true ∨ c = '-' := by
  cases n with
  | ofNat m => exact Or.inl (isDigit_of_mem_ofNat h)
  | negSucc m =>
    rcases List.mem_cons.mp h with h | h
    · exact Or.inr h
    · exact Or.inl (isDigit_of_mem_ofNat h)

theorem ofInt_ne_nil (n : Int) : ofInt n ≠ [] := by
  cases n with
  | ofNat m => exact ofNat_ne_nil m
  | negSucc m => exact List.cons_ne_nil _ _

theorem isBlank_of_digit_or_minus {c : Char} (h : c.isDigit = true ∨ c = '-') :
    isBlank c = false := by
  rcases h with h | rfl
  · have hle := Char.isDigit_iff_toNat.mp h
    simp only [isBlank, Bool.or_eq_false_iff, Bool.and_eq_false_iff, decide_eq_false_iff_not,
      beq_eq_false_iff_ne, ne_eq]
    simp only [Char.reduceToNat] at hle
    omega
  · decide

theorem not_mem_ofInt {n : Int} {c : Char} (hdigit : c.isDigit = false) (hsign : c ≠ '-') :
    c ∉ ofInt n := fun h => by
  rcases isDigit_or_eq_minus_of_mem_ofInt h with h | h
  · rw [hdigit] at h
    cases h
  · exact hsign h

theorem plainValue_ofInt (n : Int) : PlainValue (ofInt n) where
  ne_nil := ofInt_ne_nil n
  trimmed := trim_eq_self_iff.mpr
    ⟨fun _ hc => isBlank_of_digit_or_minus
        (isDigit_or_eq_minus_of_mem_ofInt (List.mem_of_mem_head? hc)),
      fun _ hc => isBlank_of_digit_or_minus
        (isDigit_or_eq_minus_of_mem_ofInt (List.mem_of_getLast? hc))⟩
  one_line := not_mem_ofInt (by decide) (by decide)

theorem unquote_ofInt (n : Int) : unquote (ofInt n) = ofInt n :=
  unquote_eq_self_of_head fun h =>
    not_mem_ofInt (c := '"') (by decide) (by decide) (List.mem_of_mem_head? h)

end Text

namespace Number

/-! ## Rounding changes nothing -/

/-- **A natural number below `2 ^ 53` is kept as it is**: its last place is the one of the units. -/
theorem nearestNat_eq_self {n : Nat} (h : n < exactMagnitude) : nearestNat n = some n := by
  have hlog : n.log2 - 52 = 0 := by
    by_cases hn : n = 0
    · subst hn
      rfl
    · have := (Nat.log2_lt hn).mpr h
      omega
  have hgreat : exactMagnitude ≤ tooGreat := by decide +kernel
  have hkept : n < tooGreat := Nat.lt_of_lt_of_le h hgreat
  simp [nearestNat, hlog, roundQuotient, Nat.mod_one, hkept]

/-- **A whole number below `2 ^ 53` is kept as it is.** -/
theorem nearestInt_eq_self {n : Int} (h : n.natAbs < exactMagnitude) : nearestInt n = some n := by
  cases n with
  | ofNat m =>
    have hm : m < exactMagnitude := h
    rw [nearestInt, nearestNat_eq_self hm]
    rfl
  | negSucc m =>
    have hm : m + 1 < exactMagnitude := h
    rw [nearestInt, nearestNat_eq_self hm]
    rfl

/-- It is written with all its digits. -/
theorem text_intCast {n : Int} (h : n.natAbs < exactMagnitude) : text (n : Rat) = ofInt n := by
  have hle : n.natAbs ≤ exactBound := Nat.le_of_lt h
  simp [text, hle]

end Number

end ChatPreferences
