/-
  Reflected cyclic redundancy checks, bit by bit and a byte at a time from a table.

  A reflected CRC register of width `w` moves right: one bit step shifts the register down and, when
  the bit that fell out was set, xors the polynomial in (`step`).  Feeding a byte xors it into the
  low end and takes eight bit steps (`byteStep`).  That is the definition of the check; programs
  compute it differently, with one table lookup per byte:

      c'  =  table[(c ^ b) & 0xff]  ^  (c >> 8)

  The equivalence (`byteStep_table`) is linearity: `step` distributes over xor (`step_xor`), so the
  eight steps of a register split into those of its low byte (the table's word) and those of the
  rest, whose low eight bits are clear, so that it only moves down (`steps_of_low_clear`).

  Nothing here fixes a width, a polynomial or an initial value.
-/

namespace ReflectedCrc

variable {w : Nat} (poly : BitVec w)

/-! ## The bit step and its iterates -/

/-- One bit step of the register: shift down, and xor `poly` in when a one fell out. -/
def step (c : BitVec w) : BitVec w :=
  if c.getLsbD 0 then (c >>> 1) ^^^ poly else c >>> 1

/-- `n` bit steps. -/
def steps : Nat → BitVec w → BitVec w
  | 0, c => c
  | n + 1, c => steps n (step poly c)

/-- `step` is linear: it distributes over xor. -/
theorem step_xor (a b : BitVec w) : step poly (a ^^^ b) = step poly a ^^^ step poly b := by
  unfold step
  rw [BitVec.getLsbD_xor, BitVec.ushiftRight_xor_distrib]
  apply BitVec.eq_of_getLsbD_eq
  intro i _
  cases a.getLsbD 0 <;> cases b.getLsbD 0 <;>
    simp only [Bool.xor_false, Bool.xor_true, Bool.not_false, Bool.not_true, Bool.false_eq_true,
      if_true, if_false, BitVec.getLsbD_xor] <;>
    cases (a >>> 1).getLsbD i <;> cases (b >>> 1).getLsbD i <;> cases poly.getLsbD i <;> rfl

/-- The steps are linear, by induction on their number. -/
theorem steps_xor : ∀ (n : Nat) (a b : BitVec w),
    steps poly n (a ^^^ b) = steps poly n a ^^^ steps poly n b
  | 0, _, _ => rfl
  | n + 1, a, b => by
      show steps poly n (step poly (a ^^^ b)) = _
      rw [step_xor, steps_xor n]
      rfl

/-- A register whose low `n` bits are clear only moves down through `n` steps: no bit that falls
    out is set, so `poly` never enters. -/
theorem steps_of_low_clear : ∀ (n : Nat) (y : BitVec w),
    (∀ i, i < n → y.getLsbD i = false) → steps poly n y = y >>> n
  | 0, _, _ => rfl
  | n + 1, y, hy => by
      have hstep : step poly y = y >>> 1 := by
        unfold step
        rw [hy 0 (Nat.succ_pos n)]
        rfl
      have hclear : ∀ i, i < n → (y >>> 1).getLsbD i = false := by
        intro i hi
        rw [BitVec.getLsbD_ushiftRight]
        exact hy (1 + i) (by omega)
      show steps poly n (step poly y) = _
      rw [hstep, steps_of_low_clear n _ hclear, ← BitVec.shiftRight_add, Nat.add_comm]

/-! ## Bytes: the definition, and the table that computes it -/

/-- Feed one byte: xor it into the low end, then eight bit steps. -/
def byteStep (c : BitVec w) (b : UInt8) : BitVec w :=
  steps poly 8 (c ^^^ b.toBitVec.setWidth w)

/-- Feed a byte string, first byte first. -/
def update (c : BitVec w) (bs : List UInt8) : BitVec w := bs.foldl (byteStep poly) c

/-- The check with initial value and final xor all ones. -/
def crc (bs : List UInt8) : BitVec w := ~~~ update poly (~~~ 0#w) bs

/-- The low byte of a register, as a register. -/
def lowByte (x : BitVec w) : BitVec w := (x.setWidth 8).setWidth w

/-- The bits of the lowest byte. -/
theorem getLsbD_lowByte (x : BitVec w) (i : Nat) :
    (lowByte x).getLsbD i = (decide (i < 8) && x.getLsbD i) := by
  unfold lowByte
  rw [BitVec.getLsbD_setWidth, BitVec.getLsbD_setWidth]
  by_cases hw : i < w
  · simp [hw]
  · simp [BitVec.getLsbD_of_ge x i (by omega)]

/-- A byte has nothing above its low eight bits. -/
theorem byte_shift_eight (b : UInt8) : (b.toBitVec.setWidth w) >>> 8 = 0#w := by
  apply BitVec.eq_of_getLsbD_eq
  intro i _
  rw [BitVec.getLsbD_ushiftRight, BitVec.getLsbD_setWidth, BitVec.getLsbD_zero,
    BitVec.getLsbD_of_ge b.toBitVec (8 + i) (by omega), Bool.and_false]

/-- Eight steps of `x` are those of its low byte, and the rest of `x` moved down eight places. -/
theorem steps_eight (x : BitVec w) : steps poly 8 x = steps poly 8 (lowByte x) ^^^ (x >>> 8) := by
  have hsplit : x = lowByte x ^^^ (lowByte x ^^^ x) := by
    rw [← BitVec.xor_assoc, BitVec.xor_self, BitVec.zero_xor]
  have hclear : ∀ i, i < 8 → (lowByte x ^^^ x).getLsbD i = false := by
    intro i hi
    rw [BitVec.getLsbD_xor, getLsbD_lowByte, decide_eq_true hi, Bool.true_and, Bool.xor_self]
  have hhigh : (lowByte x ^^^ x) >>> 8 = x >>> 8 := by
    apply BitVec.eq_of_getLsbD_eq
    intro i _
    rw [BitVec.getLsbD_ushiftRight, BitVec.getLsbD_ushiftRight, BitVec.getLsbD_xor,
      getLsbD_lowByte, decide_eq_false (by omega : ¬ 8 + i < 8), Bool.false_and, Bool.false_xor]
  conv => lhs; rw [hsplit]
  rw [steps_xor, steps_of_low_clear poly 8 _ hclear, hhigh]

/-- **A byte at a time from a table**: feeding `b` is the table's word for the low byte of
    `c ^ b`, with `c` moved down eight places. -/
theorem byteStep_table (c : BitVec w) (b : UInt8) :
    byteStep poly c b
      = steps poly 8 (lowByte (c ^^^ b.toBitVec.setWidth w)) ^^^ (c >>> 8) := by
  unfold byteStep
  rw [steps_eight, BitVec.ushiftRight_xor_distrib, byte_shift_eight, BitVec.xor_zero]

end ReflectedCrc
