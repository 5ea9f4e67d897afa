/-
  Numbers m * 2^e in words of a few bits, and what is left of one in an integer.

  A power supply reports a measurement as a mantissa and an exponent.  `linear11` has both in one word
  of 16 bits, five for the exponent and eleven for the mantissa, each in two's complement; `ulinear16`
  has sixteen bits of mantissa without a sign and the exponent elsewhere.  `value` is the number meant.

  A program that wants it as an integer in thousandths has to drop what comes behind the point.
  `truncate` does so towards zero, and `truncate_value` says which integer arithmetic that is: a shift
  for an exponent that is not negative, a truncating division for one that is not positive.
  `bmod_eq_self_iff` says when arithmetic of a fixed width computes it.
-/
import Mathlib.Data.Rat.Floor
import Mathlib.Tactic.Ring
import Mathlib.Tactic.FieldSimp
import Mathlib.Tactic.Positivity

namespace Linear

/-! ## What comes before the point: a mantissa shifted by its exponent -/

/-- A rational cut to an integer, towards 0. -/
def truncate (q : ℚ) : ℤ := if 0 ≤ q then ⌊q⌋ else ⌈q⌉

/-- From 0 on cutting is rounding down. -/
theorem truncate_of_nonneg {q : ℚ} (h : 0 ≤ q) : truncate q = ⌊q⌋ := if_pos h

/-- Cutting does not see the sign. -/
theorem truncate_neg (q : ℚ) : truncate (-q) = -truncate q := by
  rcases lt_trichotomy q 0 with h | h | h
  · rw [truncate, truncate, if_pos (by linarith), if_neg (by linarith), Int.floor_neg]
  · rw [h, neg_zero]
    decide
  · rw [truncate, truncate, if_neg (by linarith), if_pos h.le, Int.ceil_neg]

/-- Cutting a quotient is dividing as C does. -/
theorem truncate_natCast_div (a b : ℕ) : truncate ((a : ℚ) / b) = (a : ℤ).tdiv b := by
  have hq : (0 : ℚ) ≤ (a : ℚ) / b := by positivity
  rw [truncate_of_nonneg hq, Rat.floor_natCast_div_natCast, Int.tdiv_eq_ediv_of_nonneg (by omega)]

/-- Division of integers drops what comes behind the point. -/
theorem truncate_div (a : ℤ) (b : ℕ) : truncate ((a : ℚ) / b) = a.tdiv b := by
  rcases Int.eq_nat_or_neg a with ⟨n, hn | hn⟩
  · rw [hn, Int.cast_natCast]
    exact truncate_natCast_div n b
  · rw [hn, Int.cast_neg, Int.cast_natCast, neg_div, truncate_neg, truncate_natCast_div, Int.neg_tdiv]

/-- An integer is not cut. -/
theorem truncate_intCast (n : ℤ) : truncate n = n := by
  have h := truncate_div n 1
  rwa [Nat.cast_one, div_one, Nat.cast_one, Int.tdiv_one] at h

/-! ## Mantissa and exponent -/

/-- The number with this mantissa and this exponent. -/
def value (m e : ℤ) : ℚ := m * 2 ^ e

/-- **The integer in units of 1/k**: a shift, or a division, by the power of two. -/
theorem truncate_value (k m e : ℤ) :
    truncate (k * value m e)
      = if 0 ≤ e then m * 2 ^ e.toNat * k else (m * k).tdiv (2 ^ (-e).toNat) := by
  by_cases he : 0 ≤ e
  · obtain ⟨n, rfl⟩ := Int.eq_ofNat_of_zero_le he
    have hv : (k : ℚ) * value m n = ((m * 2 ^ n * k : ℤ) : ℚ) := by
      rw [value, zpow_natCast]
      push_cast
      ring
    rw [if_pos he, hv, truncate_intCast]
    rfl
  · obtain ⟨n, hn⟩ := Int.eq_ofNat_of_zero_le (show 0 ≤ -e by omega)
    have hv : (k : ℚ) * value m e = ((m * k : ℤ) : ℚ) / ((2 ^ n : ℕ) : ℚ) := by
      have he' : e = -(n : ℤ) := by omega
      rw [value, he', zpow_neg, zpow_natCast]
      push_cast
      rw [div_eq_mul_inv]
      ring
    rw [if_neg he, hv, truncate_div, hn, Nat.cast_pow]
    rfl

/-- The exponent may as well be zero in the division. -/
theorem truncate_value_of_nonpos (k m : ℤ) {e : ℤ} (he : e ≤ 0) :
    truncate (k * value m e) = (m * k).tdiv (2 ^ (-e).toNat) := by
  rw [truncate_value]
  by_cases h0 : 0 ≤ e
  · obtain rfl : e = 0 := by omega
    rw [if_pos le_rfl]
    show m * 1 * k = (m * k).tdiv 1
    rw [mul_one, Int.tdiv_one]
  · rw [if_neg h0]

/-- The number in a word of five bits of exponent and eleven of mantissa. -/
def linear11 (w : BitVec 16) : ℚ :=
  value (w.extractLsb' 0 11).toInt (w.extractLsb' 11 5).toInt

/-- The number in a word that is all mantissa, with the exponent in the low bits of `mode`. -/
def ulinear16 (mode : BitVec 8) (w : BitVec 16) : ℚ :=
  value w.toNat (mode.extractLsb' 0 5).toInt

/-! ## A fixed width -/

/-- Arithmetic modulo `2 * n` computes a number exactly when the number fits. -/
theorem bmod_eq_self_iff {n : ℕ} (hn : 0 < n) (x : ℤ) :
    x.bmod (2 * n) = x ↔ -(n : ℤ) ≤ x ∧ x < n := by
  constructor
  · intro h
    have h1 := Int.le_bmod (x := x) (m := 2 * n) (by omega)
    have h2 := Int.bmod_lt (x := x) (m := 2 * n) (by omega)
    push_cast at h1 h2
    omega
  · intro h
    apply Int.bmod_eq_of_le
    · push_cast
      omega
    · push_cast
      omega

end Linear
