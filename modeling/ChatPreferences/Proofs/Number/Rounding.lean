import Mathlib.Algebra.Group.Nat.Defs
import ChatPreferences.Proofs.Number.Exact

/-!
# Rounding keeps the order

A numeral may have any number of digits, and only the nearest number of 53 bits is kept of it.  A bound
is then compared with the number that was kept, not with the one that was written.  Where the bound is a
whole number that is kept exactly, this makes no difference: rounding keeps the order, so it carries no
number past one that stays where it is.

* `keptNat` — the number that is kept, in range or not; `pow_log2_le_keptNat`, `keptNat_le_pow` — it
  stays between the powers of two that the number is between.
* `keptNat_mono`, `nearestInt_mono` — **rounding keeps the order**.
* `nearestNat_eq_none_iff`, `nearestInt_eq_none_iff` — **which numbers are out of range**.
* `lt_iff_of_nearestInt`, `gt_iff_of_nearestInt` — what is kept is out of exact bounds only if what was
  written is.
-/

namespace ChatPreferences.Number

/-! ## Rounding a quotient -/

theorem roundQuotient_cases (a b : Nat) :
    (roundQuotient a b = a / b ∧ 2 * (a % b) ≤ b) ∨
      (roundQuotient a b = a / b + 1 ∧ b ≤ 2 * (a % b)) := by
  simp only [roundQuotient]
  split
  · exact Or.inl ⟨rfl, by omega⟩
  · split
    · exact Or.inr ⟨rfl, by omega⟩
    · split
      · exact Or.inl ⟨rfl, by omega⟩
      · exact Or.inr ⟨rfl, by omega⟩

theorem div_le_roundQuotient (a b : Nat) : a / b ≤ roundQuotient a b := by
  rcases roundQuotient_cases a b with ⟨h, -⟩ | ⟨h, -⟩ <;> omega

theorem roundQuotient_le (a b : Nat) : roundQuotient a b ≤ a / b + 1 := by
  rcases roundQuotient_cases a b with ⟨h, -⟩ | ⟨h, -⟩ <;> omega

theorem roundQuotient_of_lt {a b : Nat} (h : b < 2 * (a % b)) : roundQuotient a b = a / b + 1 := by
  rcases roundQuotient_cases a b with ⟨-, hhalf⟩ | ⟨h', -⟩
  · omega
  · exact h'

theorem roundQuotient_mono {a a' : Nat} (b : Nat) (h : a ≤ a') :
    roundQuotient a b ≤ roundQuotient a' b := by
  rcases Nat.lt_or_ge (a / b) (a' / b) with hlt | hge
  · calc roundQuotient a b ≤ a / b + 1 := roundQuotient_le a b
      _ ≤ a' / b := hlt
      _ ≤ roundQuotient a' b := div_le_roundQuotient a' b
  · -- the quotients are the same, so it is up to the remainders
    have hdiv : a / b = a' / b := Nat.le_antisymm (Nat.div_le_div_right h) hge
    have ha := Nat.div_add_mod a b
    have ha' := Nat.div_add_mod a' b
    rw [hdiv] at ha
    rcases roundQuotient_cases a b with ⟨hdown, -⟩ | ⟨hup, hhalf⟩
    · rw [hdown, hdiv]
      exact div_le_roundQuotient a' b
    · rcases Nat.eq_or_lt_of_le h with rfl | hlt
      · exact Nat.le_refl _
      · have hmod : b < 2 * (a' % b) := by omega
        rw [hup, roundQuotient_of_lt hmod, hdiv]

/-! ## The number that is kept -/

/-- The number that is kept for a natural number, be it in range or not. -/
def keptNat (n : Nat) : Nat :=
  roundQuotient n (Nat.pow 2 (n.log2 - 52)) * Nat.pow 2 (n.log2 - 52)

theorem nearestNat_eq (n : Nat) :
    nearestNat n = if keptNat n < tooGreat then some (keptNat n) else none := rfl

/-- With 53 bits or less, a number is kept as it is. -/
theorem keptNat_eq_self {n : Nat} (h : n.log2 ≤ 52) : keptNat n = n := by
  have hlog : n.log2 - 52 = 0 := by omega
  simp [keptNat, hlog, roundQuotient, Nat.mod_one]

/-- Of a number with more bits, the last place is that of the 53rd bit. -/
theorem pow_log2_eq {n : Nat} (h : 52 < n.log2) (more : Nat) :
    2 ^ (n.log2 + more) = 2 ^ (52 + more) * 2 ^ (n.log2 - 52) := by
  rw [← Nat.pow_add]
  congr 1
  omega

theorem pow_log2_le_keptNat {n : Nat} (hn : n ≠ 0) : 2 ^ n.log2 ≤ keptNat n := by
  have hle : 2 ^ n.log2 ≤ n := Nat.log2_self_le hn
  rcases Nat.lt_or_ge 52 n.log2 with hlog | hlog
  · have hpow := pow_log2_eq hlog 0
    have hquotient : 2 ^ 52 ≤ n / 2 ^ (n.log2 - 52) := by
      rw [Nat.le_div_iff_mul_le (Nat.two_pow_pos _), ← hpow]
      exact hle
    calc 2 ^ n.log2 = 2 ^ 52 * 2 ^ (n.log2 - 52) := hpow
      _ ≤ keptNat n := Nat.mul_le_mul_right _ (hquotient.trans (div_le_roundQuotient _ _))
  · rwa [keptNat_eq_self hlog]

theorem keptNat_le_pow (n : Nat) : keptNat n ≤ 2 ^ (n.log2 + 1) := by
  have hlt : n < 2 ^ (n.log2 + 1) := Nat.lt_log2_self
  rcases Nat.lt_or_ge 52 n.log2 with hlog | hlog
  · have hpow := pow_log2_eq hlog 1
    have hquotient : n / 2 ^ (n.log2 - 52) < 2 ^ 53 := by
      rw [Nat.div_lt_iff_lt_mul (Nat.two_pow_pos _), ← hpow]
      exact hlt
    calc keptNat n ≤ 2 ^ 53 * 2 ^ (n.log2 - 52) :=
          Nat.mul_le_mul_right _ ((roundQuotient_le _ _).trans hquotient)
      _ = 2 ^ (n.log2 + 1) := hpow.symm
  · rw [keptNat_eq_self hlog]
    exact Nat.le_of_lt hlt

/-- **Rounding keeps the order**: numbers with as many bits have the same last place, and between numbers
with fewer and with more bits there is a power of two, which neither is carried past. -/
theorem keptNat_mono {m n : Nat} (h : m ≤ n) : keptNat m ≤ keptNat n := by
  rcases Nat.eq_zero_or_pos n with rfl | hn
  · rw [Nat.le_zero.mp h]
  have hlog : m.log2 ≤ n.log2 := by
    rcases Nat.eq_zero_or_pos m with rfl | hm
    · exact Nat.zero_le _
    · exact (Nat.le_log2 (Nat.ne_of_gt hn)).mpr ((Nat.log2_self_le (Nat.ne_of_gt hm)).trans h)
  rcases Nat.eq_or_lt_of_le hlog with heq | hlt
  · rw [keptNat, keptNat, heq]
    exact Nat.mul_le_mul_right _ (roundQuotient_mono _ h)
  · calc keptNat m ≤ 2 ^ (m.log2 + 1) := keptNat_le_pow m
      _ ≤ 2 ^ n.log2 := Nat.pow_le_pow_right (by decide) hlt
      _ ≤ keptNat n := pow_log2_le_keptNat (Nat.ne_of_gt hn)

/-! ## What is out of range -/

/-- The middle between the greatest number that is kept and `2 ^ 1024`. -/
def outermost : Nat := Nat.pow 2 1024 - Nat.pow 2 970

/-- **Which natural numbers are out of range**: those from the middle on. -/
theorem nearestNat_eq_none_iff {n : Nat} : nearestNat n = none ↔ outermost ≤ n := by
  have hmiddle : tooGreat ≤ keptNat outermost := by decide +kernel
  have hbelow : keptNat (outermost - 1) < tooGreat := by decide +kernel
  have hnone : nearestNat n = none ↔ tooGreat ≤ keptNat n := by
    rw [nearestNat_eq, ite_eq_right_iff, ← Nat.not_lt]
    exact forall_congr' fun _ => iff_of_false (Option.some_ne_none _) id
  rw [hnone]
  constructor
  · intro h
    by_contra hlt
    have hle := keptNat_mono (show n ≤ outermost - 1 by omega)
    omega
  · intro h
    exact hmiddle.trans (keptNat_mono h)

theorem eq_keptNat_of_nearestNat {n a : Nat} (h : nearestNat n = some a) : a = keptNat n := by
  rw [nearestNat_eq] at h
  split at h
  · exact (Option.some.inj h).symm
  · cases h

/-! ## Either side of zero -/

theorem nearestInt_natCast (n : Nat) :
    nearestInt (n : Int) = (nearestNat n).map fun m : Nat => (m : Int) := by
  rw [← Int.ofNat_eq_natCast, nearestInt]
  cases nearestNat n <;> rfl

theorem nearestInt_negSucc (n : Nat) :
    nearestInt (.negSucc n) = (nearestNat (n + 1)).map fun m : Nat => -(m : Int) := by
  rw [nearestInt]
  cases nearestNat (n + 1) <;> rfl

theorem eq_of_nearestInt_natCast {n : Nat} {a : Int} (h : nearestInt (n : Int) = some a) :
    a = (keptNat n : Int) := by
  rw [nearestInt_natCast, Option.map_eq_some_iff] at h
  obtain ⟨m, hm, rfl⟩ := h
  rw [eq_keptNat_of_nearestNat hm]

theorem eq_of_nearestInt_negSucc {n : Nat} {a : Int} (h : nearestInt (.negSucc n) = some a) :
    a = -(keptNat (n + 1) : Int) := by
  rw [nearestInt_negSucc, Option.map_eq_some_iff] at h
  obtain ⟨m, hm, rfl⟩ := h
  rw [eq_keptNat_of_nearestNat hm]

/-- **Which whole numbers are out of range.** -/
theorem nearestInt_eq_none_iff {n : Int} : nearestInt n = none ↔ outermost ≤ n.natAbs := by
  cases n with
  | ofNat m =>
    rw [Int.ofNat_eq_natCast, nearestInt_natCast, Option.map_eq_none_iff, nearestNat_eq_none_iff,
      Int.natAbs_natCast]
  | negSucc m =>
    rw [nearestInt_negSucc, Option.map_eq_none_iff, nearestNat_eq_none_iff, Int.natAbs_negSucc]

/-- **Rounding keeps the order**, on either side of zero. -/
theorem nearestInt_mono {m n a b : Int} (hm : nearestInt m = some a) (hn : nearestInt n = some b)
    (h : m ≤ n) : a ≤ b := by
  cases m with
  | ofNat m =>
    rw [eq_of_nearestInt_natCast hm]
    cases n with
    | ofNat n =>
      rw [eq_of_nearestInt_natCast hn]
      exact Int.ofNat_le.mpr (keptNat_mono (Int.ofNat_le.mp h))
    | negSucc n =>
      have hpos : (0 : Int) ≤ .negSucc n := Int.le_trans (Int.natCast_nonneg m) h
      exact absurd hpos (Int.not_le.mpr (Int.negSucc_lt_zero n))
  | negSucc m =>
    rw [eq_of_nearestInt_negSucc hm]
    cases n with
    | ofNat n =>
      rw [eq_of_nearestInt_natCast hn]
      exact Int.le_trans (Int.neg_nonpos_of_nonneg (Int.natCast_nonneg _)) (Int.natCast_nonneg _)
    | negSucc n =>
      rw [eq_of_nearestInt_negSucc hn]
      exact Int.neg_le_neg (Int.ofNat_le.mpr (keptNat_mono (by omega)))

/-! ## Comparison with exact bounds -/

/-- `2 ^ 53` itself is kept as it is, too. -/
theorem nearestInt_eq_self_of_le {n : Int} (h : n.natAbs ≤ exactMagnitude) :
    nearestInt n = some n := by
  rcases Nat.eq_or_lt_of_le h with heq | hlt
  · have hend : nearestInt (exactMagnitude : Int) = some (exactMagnitude : Int) ∧
        nearestInt (-(exactMagnitude : Int)) = some (-(exactMagnitude : Int)) := by decide +kernel
    rcases Int.natAbs_eq n with hn | hn <;> rw [heq] at hn <;> rw [hn]
    · exact hend.1
    · exact hend.2
  · exact nearestInt_eq_self hlt

/-- **What is kept is below an exact bound** only if what was written is. -/
theorem lt_iff_of_nearestInt {bound n m : Int} (hbound : bound.natAbs < exactMagnitude)
    (hn : nearestInt n = some m) : m < bound ↔ n < bound := by
  constructor
  · intro h
    by_contra hge
    have hle := nearestInt_mono (nearestInt_eq_self hbound) hn (by omega)
    omega
  · intro h
    have hle := nearestInt_mono hn (nearestInt_eq_self_of_le (n := bound - 1) (by omega)) (by omega)
    omega

/-- **What is kept is above an exact bound** only if what was written is. -/
theorem gt_iff_of_nearestInt {bound n m : Int} (hbound : bound.natAbs < exactMagnitude)
    (hn : nearestInt n = some m) : bound < m ↔ bound < n := by
  constructor
  · intro h
    by_contra hge
    have hle := nearestInt_mono hn (nearestInt_eq_self hbound) (by omega)
    omega
  · intro h
    have hle := nearestInt_mono (nearestInt_eq_self_of_le (n := bound + 1) (by omega)) hn (by omega)
    omega

end ChatPreferences.Number
