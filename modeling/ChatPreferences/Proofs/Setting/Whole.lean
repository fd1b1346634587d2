import ChatPreferences.Proofs.Number.Rounding
import ChatPreferences.Proofs.Setting.Spelling

/-!
# Whole numbers between bounds

A setting for a whole number takes any numeral, however many digits it has, and rounds it before it
looks at the bounds.  With bounds that are kept exactly the rounding cannot be noticed: the numbers that
are taken are those between the bounds, each at its exact value, and each text that is refused is refused
for the first thing that is wrong with it.

* `Text.Denotes` — which texts are numerals, and of what; `Text.toInt?_eq_some_iff` — reading finds it.
* `Kind.Verdict` — what is to come of a text where a whole number between bounds is asked for.
* `Kind.verdict_iff` — **this is what comes of it**.
* `Kind.parse_integer` — whole numbers are read exactly, and are read back.
-/

namespace ChatPreferences

open Text

/-! ## Numerals -/

namespace Text

/-- One or more digits. -/
def IsDigits (t : Text) : Prop :=
  t ≠ [] ∧ ∀ c ∈ t, c.isDigit = true

/-- **A numeral and the whole number that it denotes**: digits, with a sign in front or without. -/
inductive Denotes : Text → Int → Prop where
  | plain {ds : Text} (h : IsDigits ds) : Denotes ds (Nat.ofDigitChars 10 ds 0)
  | plus {ds : Text} (h : IsDigits ds) : Denotes ('+' :: ds) (Nat.ofDigitChars 10 ds 0)
  | minus {ds : Text} (h : IsDigits ds) : Denotes ('-' :: ds) (-(Nat.ofDigitChars 10 ds 0 : Nat))

variable {t : Text} {n : Int}

theorem toNat?_eq_some_iff {n : Nat} :
    toNat? t = some n ↔ IsDigits t ∧ Nat.ofDigitChars 10 t 0 = n := by
  have hdigits : (!t.isEmpty && t.all Char.isDigit) = true ↔ IsDigits t := by
    simp [IsDigits]
  rw [toNat?]
  split
  · rename_i h
    simp [hdigits.mp h]
  · rename_i h
    simp [mt hdigits.mpr h]

/-- To count the digits first as a whole number and then to give it a sign is one step. -/
theorem map_natCast (o : Option Nat) (f : Int → Int) :
    (o >>= fun n => pure (n : Int)).map f = o.map fun n : Nat => f n := by
  cases o <;> rfl

/-- **Reading finds what a numeral denotes.** -/
theorem toInt?_eq_some_iff : toInt? t = some n ↔ Denotes t n := by
  unfold toInt?
  simp only [map_natCast]
  constructor
  · intro h
    split at h
    · obtain ⟨k, hk, rfl⟩ := Option.map_eq_some_iff.mp h
      obtain ⟨hdigits, rfl⟩ := toNat?_eq_some_iff.mp hk
      exact .plus hdigits
    · obtain ⟨k, hk, rfl⟩ := Option.map_eq_some_iff.mp h
      obtain ⟨hdigits, rfl⟩ := toNat?_eq_some_iff.mp hk
      exact .minus hdigits
    · obtain ⟨k, hk, rfl⟩ := Option.map_eq_some_iff.mp h
      obtain ⟨hdigits, rfl⟩ := toNat?_eq_some_iff.mp hk
      exact .plain hdigits
  · intro h
    cases h with
    | plus h => simp only [toNat?_eq_some_iff.mpr ⟨h, rfl⟩, Option.map_some]
    | minus h => simp only [toNat?_eq_some_iff.mpr ⟨h, rfl⟩, Option.map_some]
    | plain h =>
      split
      · exact absurd (h.2 '+' List.mem_cons_self) (by decide)
      · exact absurd (h.2 '-' List.mem_cons_self) (by decide)
      · rw [toNat?_eq_some_iff.mpr ⟨h, rfl⟩, Option.map_some]

theorem toInt?_eq_none_iff : toInt? t = none ↔ ∀ n, ¬ Denotes t n := by
  rw [Option.eq_none_iff_forall_ne_some]
  exact forall_congr' fun n => not_congr toInt?_eq_some_iff

end Text

namespace Kind

/-! ## Bounds that are kept exactly -/

/-- **What is to come of a text** where a whole number from `lowest` to `highest` is asked for: it is
refused because it is no numeral; or else because its number is out of range; or else because that is
below the lower bound, or else because it is above the upper one; or else its number is taken. -/
inductive Verdict (lowest highest : Int) (raw : Text) : Except Rejection Value → Prop where
  | notNumeral (none : ∀ n, ¬ Denotes raw n) : Verdict lowest highest raw (.error .notNumeral)
  | outOfRange (n : Int) (denotes : Denotes raw n) (far : Number.outermost ≤ n.natAbs) :
      Verdict lowest highest raw (.error .outOfRange)
  | below (n : Int) (denotes : Denotes raw n) (near : n.natAbs < Number.outermost)
      (low : n < lowest) : Verdict lowest highest raw (.error (.below (lowest : Rat)))
  | above (n : Int) (denotes : Denotes raw n) (near : n.natAbs < Number.outermost)
      (fits : lowest ≤ n) (high : highest < n) :
      Verdict lowest highest raw (.error (.above (highest : Rat)))
  | taken (n : Int) (denotes : Denotes raw n) (low : lowest ≤ n) (high : n ≤ highest) :
      Verdict lowest highest raw (.ok (.number (n : Rat)))

variable {lowest highest : Int} {raw : Text} {r : Except Rejection Value}

theorem isAbove_number (bound n : Int) :
    (Bound.number (bound : Rat)).isAbove (n : Rat) = decide (n < bound) := by
  simp only [Bound.isAbove, Bound.value?, Option.any_some, Rat.intCast_lt_intCast]

theorem isBelow_number (bound n : Int) :
    (Bound.number (bound : Rat)).isBelow (n : Rat) = decide (bound < n) := by
  simp only [Bound.isBelow, Bound.value?, Option.any_some, Rat.intCast_lt_intCast]

/-- A text that is no numeral is refused for that. -/
theorem parseInteger_of_forall_not (lowest highest : Bound) (h : ∀ n, ¬ Denotes raw n) :
    parseInteger lowest highest raw = .error .notNumeral := by
  rw [parseInteger, toInt?_eq_none_iff.mpr h]

section Exact

variable (hl : lowest.natAbs < exactMagnitude) (hh : highest.natAbs < exactMagnitude)
include hl hh

/-- **What comes of a numeral** is up to the number that was written, though it is the rounded one that
is compared with the bounds. -/
theorem parseInteger_of_denotes {n : Int} (h : Denotes raw n) :
    parseInteger (.number (lowest : Rat)) (.number (highest : Rat)) raw =
      if Number.outermost ≤ n.natAbs then .error .outOfRange
      else if n < lowest then .error (.below (lowest : Rat))
      else if highest < n then .error (.above (highest : Rat))
      else .ok (.number (n : Rat)) := by
  simp only [parseInteger, toInt?_eq_some_iff.mpr h]
  cases hm : Number.nearestInt n with
  | none => rw [if_pos (Number.nearestInt_eq_none_iff.mp hm)]
  | some m =>
    have hnear : ¬ Number.outermost ≤ n.natAbs := by
      rw [← Number.nearestInt_eq_none_iff, hm]
      exact Option.some_ne_none m
    -- what is kept is out of bounds only if what was written is
    simp only [isAbove_number, isBelow_number, decide_eq_true_eq, if_neg hnear,
      Number.lt_iff_of_nearestInt hl hm, Number.gt_iff_of_nearestInt hh hm]
    split
    · rfl
    · split
      · rfl
      · have hexact : n.natAbs < exactMagnitude := by omega
        rw [Number.nearestInt_eq_self hexact, Option.some.injEq] at hm
        rw [hm]

/-- **What comes of a text** is the verdict on it. -/
theorem verdict_iff :
    (integer (.number (lowest : Rat)) (.number (highest : Rat))).parse raw = r ↔
      Verdict lowest highest raw r := by
  have hrange : exactMagnitude < Number.outermost := by decide +kernel
  rw [parse]
  constructor
  · rintro rfl
    by_cases hnumeral : ∃ n, Denotes raw n
    · obtain ⟨n, hn⟩ := hnumeral
      rw [parseInteger_of_denotes hl hh hn]
      split
      · exact .outOfRange n hn ‹_›
      · split
        · exact .below n hn (by omega) ‹_›
        · split
          · exact .above n hn (by omega) (by omega) ‹_›
          · exact .taken n hn (by omega) (by omega)
    · rw [parseInteger_of_forall_not _ _ (not_exists.mp hnumeral)]
      exact .notNumeral (not_exists.mp hnumeral)
  · intro h
    cases h with
    | notNumeral hnone => exact parseInteger_of_forall_not _ _ hnone
    | outOfRange n hn far => rw [parseInteger_of_denotes hl hh hn, if_pos far]
    | below n hn near low =>
      rw [parseInteger_of_denotes hl hh hn, if_neg (by omega), if_pos low]
    | above n hn near fits high =>
      rw [parseInteger_of_denotes hl hh hn, if_neg (by omega), if_neg (by omega), if_pos high]
    | taken n hn low high =>
      rw [parseInteger_of_denotes hl hh hn, if_neg (by omega), if_neg (by omega), if_neg (by omega)]

/-- **Whole numbers are read exactly.**  Between bounds that are whole numbers below `2 ^ 53`, in
magnitude, exactly the numerals of the numbers between the bounds are taken, however long they are, and
each as the number that it denotes; what is taken is written so that it is read back.  Any other text is
refused, for the first of these reasons that there is: that it is no numeral, that its number is out of
range, that it is below the lower bound, that it is above the upper one. -/
theorem parse_integer (raw : Text) :
    let kind : Kind := integer (.number (lowest : Rat)) (.number (highest : Rat))
    (∀ v, kind.parse raw = .ok v ↔
        ∃ n, Denotes raw n ∧ lowest ≤ n ∧ n ≤ highest ∧ v = .number (n : Rat)) ∧
      (∀ v, kind.parse raw = .ok v → kind.parse (kind.format v) = .ok v) ∧
      (∀ reason, kind.parse raw = .error reason ↔ Verdict lowest highest raw (.error reason)) ∧
      (Rejection.below (lowest : Rat)).message = "must be >= ".toList ++ ofInt lowest ∧
      (Rejection.above (highest : Rat)).message = "must be <= ".toList ++ ofInt highest := by
  intro kind
  refine ⟨fun v => ?_, fun v hv => ?_, fun reason => verdict_iff hl hh, ?_, ?_⟩
  · rw [verdict_iff hl hh]
    constructor
    · rintro (_ | _ | _ | _ | ⟨n, hn, low, high⟩)
      exact ⟨n, hn, low, high, rfl⟩
    · rintro ⟨n, hn, low, high, rfl⟩
      exact .taken n hn low high
  · have hexact : kind.Exact := ⟨⟨lowest, rfl, hl⟩, ⟨highest, rfl, hh⟩⟩
    exact parse_bare hexact ⟨raw, hv⟩
  · exact congrArg ("must be >= ".toList ++ ·) (Number.text_intCast hl)
  · exact congrArg ("must be <= ".toList ++ ·) (Number.text_intCast hh)

end Exact

/-- The greatest exact bounds, and two numerals: one that is rounded to a number that is nearer to the
bound, but not within it, and one with a sign and leading zeros. -/
theorem parse_integer_rounded :
    let lowest : Int := -9007199254740991
    let highest : Int := 9007199254740991
    let kind : Kind := integer (.number (lowest : Rat)) (.number (highest : Rat))
    lowest.natAbs < exactMagnitude ∧ highest.natAbs < exactMagnitude ∧
      kind.parse "9007199254740993" = .error (.above (highest : Rat)) ∧
      kind.parse "-0009007199254740991" = .ok (.number (lowest : Rat)) := by
  intro lowest highest kind
  have hl : lowest.natAbs < exactMagnitude := by decide +kernel
  have hh : highest.natAbs < exactMagnitude := by decide +kernel
  have hbeyond : Denotes "9007199254740993" 9007199254740993 :=
    toInt?_eq_some_iff.mp (by decide +kernel)
  have hlowest : Denotes "-0009007199254740991" lowest :=
    toInt?_eq_some_iff.mp (by decide +kernel)
  refine ⟨hl, hh, ?_, ?_⟩
  · refine ((parse_integer hl hh _).2.2.1 _).mpr (.above _ hbeyond ?_ ?_ ?_)
    · decide +kernel
    · decide +kernel
    · decide +kernel
  · exact ((parse_integer hl hh _).1 _).mpr ⟨lowest, hlowest, Int.le_refl _, by decide +kernel, rfl⟩

end Kind

end ChatPreferences
