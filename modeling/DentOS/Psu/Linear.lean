/-
  What a power supply driver prints for a register.

  The drivers of the Accton and 3Y power supplies (accton_i2c_psu.c, cpr_4011_4mxx.c, dps850.c and
  ym2651y.c) share `two_complement_to_int` and the two expressions that print a measurement in
  thousandths of its unit: `linearValue` for a word with its exponent in it, `voutValue` for the output
  voltage, whose exponent is in another register.  All of it is arithmetic of 32 bits.

  What should be printed is the number in the register, times the multiplier, without what comes behind
  the point.  `linearValue_eq_iff` and `voutValue_eq_iff` say that this is what is printed exactly when it
  fits into an `int`.  Only the last multiplication can overflow, and not where the exponent is negative.
-/
import DentOS.Lib.Linear
import Mathlib.Tactic.IntervalCases

namespace DentOS.Psu

open Linear

/-! ## The code: two's complement of a part of a word -/

/-- `two_complement_to_int`. -/
def twoComplementToInt (data : BitVec 16) (validBit : Nat) (mask : BitVec 32) : Int :=
  let validData : BitVec 16 := (data.setWidth 32 &&& mask).setWidth 16
  let isNegative : Bool := validData >>> (validBit - 1) != 0
  if isNegative then (-((~~~(validData.setWidth 32) &&& mask) + 1)).toInt else validData.toNat

/-- An `int`: 32 bits, of which the first is the sign. -/
def int32 (x : Int) : Int := x.bmod (2 * 2 ^ 31)

/-- The number that `show_linear` prints. -/
def linearValue (value : BitVec 16) (multiplier : Int) : Int :=
  let exponent := twoComplementToInt (value >>> 11) 5 0x1f
  let mantissa := twoComplementToInt (value &&& 0x7ff) 11 0x7ff
  if exponent ≥ 0 then int32 (int32 (mantissa * 2 ^ exponent.toNat) * multiplier)
  else (int32 (mantissa * multiplier)).tdiv (int32 (2 ^ (-exponent).toNat))

/-- The number that `show_vout` prints. -/
def voutValue (voutMode : BitVec 8) (vOut : BitVec 16) (multiplier : Int) : Int :=
  let exponent := twoComplementToInt (voutMode.setWidth 16) 5 0x1f
  let mantissa : Int := vOut.toNat
  if exponent > 0 then int32 (int32 (mantissa * 2 ^ exponent.toNat) * multiplier)
  else (int32 (mantissa * multiplier)).tdiv (int32 (2 ^ (-exponent).toNat))

/-! ## Two's complement, as a number -/

/-- The bits under the mask. -/
theorem toNat_valid (data : BitVec 16) {n : Nat} (hn : n ≤ 16) :
    ((data.setWidth 32 &&& BitVec.ofNat 32 (2 ^ n - 1)).setWidth 16).toNat = data.toNat % 2 ^ n := by
  have hle : (2 : Nat) ^ n ≤ 2 ^ 16 := Nat.pow_le_pow_right (by omega) hn
  have hd := data.isLt
  have hmod : data.toNat % 2 ^ n ≤ data.toNat := Nat.mod_le _ _
  rw [BitVec.toNat_setWidth, BitVec.toNat_and, BitVec.toNat_setWidth, BitVec.toNat_ofNat,
    Nat.mod_eq_of_lt (show data.toNat < 2 ^ 32 by omega),
    Nat.mod_eq_of_lt (show 2 ^ n - 1 < 2 ^ 32 by omega), Nat.and_two_pow_sub_one_eq_mod]
  exact Nat.mod_eq_of_lt (by omega)

/-- The bits under the mask that are not set. -/
theorem toNat_rest {v : BitVec 16} {n : Nat} (hn : n ≤ 16) (hv : v.toNat < 2 ^ n) :
    (~~~(v.setWidth 32) &&& BitVec.ofNat 32 (2 ^ n - 1)).toNat = 2 ^ n - 1 - v.toNat := by
  have hle : (2 : Nat) ^ n ≤ 2 ^ 16 := Nat.pow_le_pow_right (by omega) hn
  rw [BitVec.toNat_and, BitVec.toNat_not, BitVec.toNat_setWidth, BitVec.toNat_ofNat,
    Nat.mod_eq_of_lt (show v.toNat < 2 ^ 32 by omega),
    Nat.mod_eq_of_lt (show 2 ^ n - 1 < 2 ^ 32 by omega), Nat.and_two_pow_sub_one_eq_mod]
  have hsplit : (2 : Nat) ^ 32 = 2 ^ n * 2 ^ (32 - n) := by
    rw [← Nat.pow_add]
    congr 1
    omega
  have hpos : 0 < (2 : Nat) ^ (32 - n) := Nat.pow_pos (by omega)
  have hrest : 2 ^ 32 - 1 - v.toNat = 2 ^ n - 1 - v.toNat + 2 ^ n * (2 ^ (32 - n) - 1) := by
    rw [hsplit, Nat.mul_sub, Nat.mul_one]
    have : 2 ^ n ≤ 2 ^ n * 2 ^ (32 - n) := Nat.le_mul_of_pos_right _ hpos
    omega
  rw [hrest, Nat.add_mul_mod_self_left]
  exact Nat.mod_eq_of_lt (by omega)

/-- **The low `n` bits, with their sign.** -/
theorem twoComplementToInt_eq (data : BitVec 16) {n : Nat} (h1 : 1 ≤ n) (hn : n ≤ 16) :
    twoComplementToInt data n (BitVec.ofNat 32 (2 ^ n - 1)) = (data.setWidth n).toInt := by
  have hle : (2 : Nat) ^ n ≤ 2 ^ 16 := Nat.pow_le_pow_right (by omega) hn
  have hhalf : (2 : Nat) ^ n = 2 * 2 ^ (n - 1) := by
    rw [← Nat.pow_succ']
    congr 1
    omega
  unfold twoComplementToInt
  generalize hv : (data.setWidth 32 &&& BitVec.ofNat 32 (2 ^ n - 1)).setWidth 16 = v
  have hval : v.toNat = data.toNat % 2 ^ n := by rw [← hv, toNat_valid data hn]
  have hlt : v.toNat < 2 ^ n := hval ▸ Nat.mod_lt _ (Nat.pow_pos (by omega))
  have hsign : (v >>> (n - 1) != 0) = true ↔ 2 ^ (n - 1) ≤ v.toNat := by
    rw [bne_iff_ne, ne_eq, ← BitVec.toNat_inj, BitVec.toNat_ushiftRight, Nat.shiftRight_eq_div_pow]
    show ¬ v.toNat / 2 ^ (n - 1) = 0 ↔ _
    rw [Nat.div_eq_zero_iff_lt (Nat.pow_pos (by omega))]
    omega
  rw [BitVec.toInt_eq_toNat_cond, BitVec.toNat_setWidth, ← hval]
  by_cases hneg : 2 ^ (n - 1) ≤ v.toNat
  · have hrest := toNat_rest hn hlt
    have hone : ((~~~(v.setWidth 32) &&& BitVec.ofNat 32 (2 ^ n - 1)) + 1).toNat = 2 ^ n - v.toNat := by
      rw [BitVec.toNat_add, hrest]
      show (2 ^ n - 1 - v.toNat + 1) % 2 ^ 32 = _
      rw [Nat.mod_eq_of_lt (by omega)]
      omega
    simp only [hsign.mpr hneg, if_true]
    rw [if_neg (by omega), BitVec.toInt_neg, BitVec.toInt_eq_toNat_of_lt (by rw [hone]; omega), hone,
      Int.bmod_eq_of_le (by omega) (by omega)]
    push_cast [Nat.cast_sub hlt.le]
    omega
  · have hoff : ¬ (v >>> (n - 1) != 0) = true := fun h => hneg (hsign.mp h)
    simp only [if_neg hoff]
    rw [if_pos (by omega)]

/-- The range of a signed field. -/
theorem twoComplementToInt_range (data : BitVec 16) {n : Nat} (h1 : 1 ≤ n) (hn : n ≤ 16) :
    -2 ^ (n - 1) ≤ twoComplementToInt data n (BitVec.ofNat 32 (2 ^ n - 1))
      ∧ twoComplementToInt data n (BitVec.ofNat 32 (2 ^ n - 1)) < 2 ^ (n - 1) := by
  rw [twoComplementToInt_eq data h1 hn]
  exact ⟨BitVec.le_toInt _, BitVec.toInt_lt⟩

/-- The word's exponent. -/
theorem exponent_eq (w : BitVec 16) :
    twoComplementToInt (w >>> 11) 5 0x1f = (w.extractLsb' 11 5).toInt := by
  rw [show (0x1f : BitVec 32) = BitVec.ofNat 32 (2 ^ 5 - 1) from rfl,
    twoComplementToInt_eq _ (by omega) (by omega)]
  congr 1

/-- The word's mantissa. -/
theorem mantissa_eq (w : BitVec 16) :
    twoComplementToInt (w &&& 0x7ff) 11 0x7ff = (w.extractLsb' 0 11).toInt := by
  rw [show (0x7ff : BitVec 32) = BitVec.ofNat 32 (2 ^ 11 - 1) from rfl,
    twoComplementToInt_eq _ (by omega) (by omega)]
  congr 1
  apply BitVec.eq_of_toNat_eq
  rw [BitVec.toNat_setWidth, BitVec.toNat_and, BitVec.extractLsb'_toNat,
    show (0x7ff : BitVec 16).toNat = 2 ^ 11 - 1 from rfl, Nat.and_two_pow_sub_one_eq_mod, Nat.mod_mod,
    Nat.shiftRight_zero]

/-- The exponent of the output voltage. -/
theorem mode_eq (mode : BitVec 8) :
    twoComplementToInt (mode.setWidth 16) 5 0x1f = (mode.extractLsb' 0 5).toInt := by
  rw [show (0x1f : BitVec 32) = BitVec.ofNat 32 (2 ^ 5 - 1) from rfl,
    twoComplementToInt_eq _ (by omega) (by omega)]
  congr 1

/-! ## What is printed stays in an `int` -/

/-- A number is an `int` as it is exactly in its range. -/
theorem int32_eq_self_iff (x : Int) : int32 x = x ↔ -2 ^ 31 ≤ x ∧ x < 2 ^ 31 := by
  have h := bmod_eq_self_iff (n := 2 ^ 31) (by omega) x
  push_cast at h
  exact h

/-- In the range, the conversion changes nothing. -/
theorem int32_eq {x : Int} (h1 : -2 ^ 31 ≤ x) (h2 : x < 2 ^ 31) : int32 x = x :=
  (int32_eq_self_iff x).mpr ⟨h1, h2⟩

/-- A power of two that an exponent of five bits gives. -/
theorem two_pow_le {e : Int} (h : e ≤ 16) : (2 : Int) ^ e.toNat ≤ 2 ^ 16 :=
  pow_le_pow_right₀ (by omega) (by omega)

/-- **Multiplying last**: a mantissa of at most 16 bits stays in an `int` until the multiplier. -/
theorem int32_shift {m e : Int} (hm : -2 ^ 10 ≤ m) (hm' : m < 2 ^ 16) (he : e ≤ 15) :
    int32 (m * 2 ^ e.toNat) = m * 2 ^ e.toNat := by
  have hp : (2 : Int) ^ e.toNat ≤ 2 ^ 15 := pow_le_pow_right₀ (by omega) (by omega)
  have h0 : (0 : Int) < 2 ^ e.toNat := by positivity
  apply int32_eq
  · nlinarith
  · nlinarith

/-- The division computes no number that does not fit. -/
theorem int32_div {m e : Int} (k : Int) (hk : k = 1 ∨ k = 1000) (hm : -2 ^ 10 ≤ m) (hm' : m < 2 ^ 16)
    (he : -16 ≤ e) :
    (int32 (m * k)).tdiv (int32 (2 ^ (-e).toNat)) = (m * k).tdiv (2 ^ (-e).toNat)
      ∧ -2 ^ 31 ≤ (m * k).tdiv (2 ^ (-e).toNat) ∧ (m * k).tdiv (2 ^ (-e).toNat) < 2 ^ 31 := by
  have hp : (2 : Int) ^ (-e).toNat ≤ 2 ^ 16 := two_pow_le (by omega)
  have h0 : (0 : Int) < 2 ^ (-e).toNat := by positivity
  have hmk : -2 ^ 31 ≤ m * k ∧ m * k < 2 ^ 31 ∧ (m * k).natAbs < 2 ^ 31 := by
    rcases hk with rfl | rfl <;> omega
  have habs := Int.natAbs_tdiv_le_natAbs (m * k) (2 ^ (-e).toNat)
  refine ⟨?_, by omega, by omega⟩
  rw [int32_eq hmk.1 hmk.2.1, int32_eq (by omega) (by omega)]

/-- **A register is printed rightly exactly when its number fits into an `int`.** -/
theorem linearValue_eq_iff (w : BitVec 16) {k : Int} (hk : k = 1 ∨ k = 1000) :
    linearValue w k = truncate (k * linear11 w)
      ↔ -2 ^ 31 ≤ truncate (k * linear11 w) ∧ truncate (k * linear11 w) < 2 ^ 31 := by
  have hm := twoComplementToInt_range (w &&& 0x7ff) (n := 11) (by omega) (by omega)
  have he := twoComplementToInt_range (w >>> 11) (n := 5) (by omega) (by omega)
  rw [show BitVec.ofNat 32 (2 ^ 11 - 1) = 0x7ff from rfl] at hm
  rw [show BitVec.ofNat 32 (2 ^ 5 - 1) = 0x1f from rfl] at he
  unfold linearValue linear11
  rw [truncate_value, ← exponent_eq, ← mantissa_eq]
  generalize twoComplementToInt (w &&& 0x7ff) 11 0x7ff = m at hm ⊢
  generalize twoComplementToInt (w >>> 11) 5 0x1f = e at he ⊢
  by_cases hpos : 0 ≤ e
  · simp only [ge_iff_le, if_pos hpos]
    rw [int32_shift (by omega) (by omega) (by omega)]
    exact int32_eq_self_iff _
  · have hdiv := int32_div (m := m) (e := e) k hk (by omega) (by omega) (by omega)
    simp only [ge_iff_le, if_neg hpos]
    exact ⟨fun _ => hdiv.2, fun _ => hdiv.1⟩

/-- 12 V, and a power that does not fit. -/
theorem linearValue_eq_iff_twelve :
    (linearValue 0x000c 1000 = truncate ((1000 : ℤ) * linear11 0x000c)
        ↔ -2 ^ 31 ≤ truncate ((1000 : ℤ) * linear11 0x000c) ∧ truncate ((1000 : ℤ) * linear11 0x000c) < 2 ^ 31)
      ∧ (linearValue 0x7bff 1000 = truncate ((1000 : ℤ) * linear11 0x7bff)
        ↔ -2 ^ 31 ≤ truncate ((1000 : ℤ) * linear11 0x7bff)
          ∧ truncate ((1000 : ℤ) * linear11 0x7bff) < 2 ^ 31) :=
  ⟨linearValue_eq_iff 0x000c (.inr rfl), linearValue_eq_iff 0x7bff (.inr rfl)⟩

/-- The same for the output voltage. -/
theorem voutValue_eq_iff (mode : BitVec 8) (w : BitVec 16) :
    voutValue mode w 1000 = truncate (1000 * ulinear16 mode w)
      ↔ truncate (1000 * ulinear16 mode w) < 2 ^ 31 := by
  have hw := w.isLt
  have he := twoComplementToInt_range (mode.setWidth 16) (n := 5) (by omega) (by omega)
  rw [show BitVec.ofNat 32 (2 ^ 5 - 1) = 0x1f from rfl] at he
  have hcast : ((1000 : ℚ)) = ((1000 : ℤ) : ℚ) := by norm_num
  unfold voutValue ulinear16
  rw [hcast, ← mode_eq]
  generalize twoComplementToInt (mode.setWidth 16) 5 0x1f = e at he ⊢
  by_cases hpos : 0 < e
  · simp only [gt_iff_lt, if_pos hpos]
    have h0 : (0 : Int) ≤ (w.toNat : Int) * 2 ^ e.toNat * 1000 := by positivity
    rw [truncate_value, if_pos hpos.le, int32_shift (by omega) (by omega) (by omega), int32_eq_self_iff]
    exact ⟨fun h => h.2, fun h => ⟨by omega, h⟩⟩
  · have hdiv := int32_div (m := w.toNat) (e := e) 1000 (.inr rfl) (by omega) (by omega) (by omega)
    simp only [gt_iff_lt, if_neg hpos]
    rw [truncate_value_of_nonpos _ _ (by omega)]
    exact ⟨fun _ => hdiv.2.2, fun _ => hdiv.1⟩

end DentOS.Psu
