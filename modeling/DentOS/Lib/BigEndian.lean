/-
  Big-endian numbers: a byte string as a number (`ofBytes`), a number as a string of `k` bytes
  (`toBytes`), the round trip (`ofBytes_toBytes`), and the shift-and-or expressions by which C code
  puts 16 and 32 bit numbers together from their bytes (`ofBytes_two`, `ofBytes_four`).
-/
import Mathlib.Algebra.Group.Nat.Defs

namespace BigEndian

/-- The number a byte string spells, most significant byte first. -/
def ofBytes : List UInt8 → Nat
  | [] => 0
  | b :: bs => b.toNat * 256 ^ bs.length + ofBytes bs

/-- The low `k` bytes of `n`, most significant byte first. -/
def toBytes : Nat → Nat → List UInt8
  | 0, _ => []
  | k + 1, n => UInt8.ofNat (n / 256 ^ k) :: toBytes k n

@[simp] theorem length_toBytes : ∀ (k n : Nat), (toBytes k n).length = k
  | 0, _ => rfl
  | k + 1, n => congrArg (· + 1) (length_toBytes k n)

/-- `k` bytes hold a number below `256 ^ k`. -/
theorem ofBytes_lt : ∀ bs : List UInt8, ofBytes bs < 256 ^ bs.length
  | [] => Nat.one_pos
  | b :: bs => by
      have hb : b.toNat + 1 ≤ 256 := b.toNat_lt
      have hrec := ofBytes_lt bs
      have hmul : (b.toNat + 1) * 256 ^ bs.length ≤ 256 * 256 ^ bs.length :=
        Nat.mul_le_mul_right _ hb
      rw [Nat.add_mul, Nat.one_mul] at hmul
      show b.toNat * 256 ^ bs.length + ofBytes bs < 256 ^ (bs.length + 1)
      rw [Nat.pow_succ, Nat.mul_comm (256 ^ bs.length)]
      omega

/-- **Round trip**: reading back `k` written bytes gives the number modulo `256 ^ k`. -/
theorem ofBytes_toBytes : ∀ k n : Nat, ofBytes (toBytes k n) = n % 256 ^ k
  | 0, n => (Nat.mod_one n).symm
  | k + 1, n => by
      show (UInt8.ofNat (n / 256 ^ k)).toNat * 256 ^ (toBytes k n).length + ofBytes (toBytes k n)
        = n % 256 ^ (k + 1)
      have hpow : 256 ^ (k + 1) = 256 ^ k * 256 := Nat.pow_succ 256 k
      have hbyte : (UInt8.ofNat (n / 256 ^ k)).toNat = n / 256 ^ k % 256 := UInt8.toNat_ofNat'
      rw [length_toBytes, ofBytes_toBytes k n, hbyte, hpow, Nat.mod_mul, Nat.mul_comm,
        Nat.add_comm]

/-- A number that fits into so many bytes is read back from them. -/
theorem ofBytes_toBytes_of_lt {k n : Nat} (h : n < 256 ^ k) : ofBytes (toBytes k n) = n := by
  rw [ofBytes_toBytes, Nat.mod_eq_of_lt h]

/-! ## The shift-and-or spellings of C -/

/-- `(b0 << 8) | b1`, in 16 bits. -/
theorem ofBytes_two (b0 b1 : UInt8) :
    ((b0.toUInt16 <<< 8) ||| b1.toUInt16).toNat = ofBytes [b0, b1] := by
  have h0 := b0.toNat_lt
  have h1 := b1.toNat_lt
  have hshift : (b0.toUInt16 <<< 8).toNat = b0.toNat <<< 8 := by
    rw [UInt16.toNat_shiftLeft, UInt8.toNat_toUInt16]
    show b0.toNat <<< 8 % 65536 = _
    rw [Nat.shiftLeft_eq, Nat.mod_eq_of_lt (by omega)]
  rw [UInt16.toNat_or, hshift, UInt8.toNat_toUInt16, ← Nat.shiftLeft_add_eq_or_of_lt h1,
    Nat.shiftLeft_eq]
  simp only [ofBytes, List.length_cons, List.length_nil]
  omega

/-- `(b0 << 24) | (b1 << 16) | (b2 << 8) | b3`, in 32 bits. -/
theorem ofBytes_four (b0 b1 b2 b3 : UInt8) :
    ((b0.toUInt32 <<< 24) ||| (b1.toUInt32 <<< 16) ||| (b2.toUInt32 <<< 8) ||| b3.toUInt32).toNat
      = ofBytes [b0, b1, b2, b3] := by
  have h0 := b0.toNat_lt
  have h1 := b1.toNat_lt
  have h2 := b2.toNat_lt
  have h3 := b3.toNat_lt
  have hs0 : (b0.toUInt32 <<< 24).toNat = b0.toNat <<< 24 := by
    rw [UInt32.toNat_shiftLeft, UInt8.toNat_toUInt32]
    show b0.toNat <<< 24 % 4294967296 = _
    rw [Nat.shiftLeft_eq, Nat.mod_eq_of_lt (by omega)]
  have hs1 : (b1.toUInt32 <<< 16).toNat = b1.toNat <<< 16 := by
    rw [UInt32.toNat_shiftLeft, UInt8.toNat_toUInt32]
    show b1.toNat <<< 16 % 4294967296 = _
    rw [Nat.shiftLeft_eq, Nat.mod_eq_of_lt (by omega)]
  have hs2 : (b2.toUInt32 <<< 8).toNat = b2.toNat <<< 8 := by
    rw [UInt32.toNat_shiftLeft, UInt8.toNat_toUInt32]
    show b2.toNat <<< 8 % 4294967296 = _
    rw [Nat.shiftLeft_eq, Nat.mod_eq_of_lt (by omega)]
  -- the pieces occupy disjoint bit ranges, so each `|` is a `+`
  have hor1 : b0.toNat <<< 24 ||| b1.toNat <<< 16 = (b0.toNat * 256 + b1.toNat) <<< 16 := by
    rw [← Nat.shiftLeft_add_eq_or_of_lt (by rw [Nat.shiftLeft_eq]; omega : b1.toNat <<< 16 < 2 ^ 24)]
    simp only [Nat.shiftLeft_eq]
    omega
  have hor2 : (b0.toNat * 256 + b1.toNat) <<< 16 ||| b2.toNat <<< 8
      = ((b0.toNat * 256 + b1.toNat) * 256 + b2.toNat) <<< 8 := by
    rw [← Nat.shiftLeft_add_eq_or_of_lt (by rw [Nat.shiftLeft_eq]; omega : b2.toNat <<< 8 < 2 ^ 16)]
    simp only [Nat.shiftLeft_eq]
    omega
  rw [UInt32.toNat_or, UInt32.toNat_or, UInt32.toNat_or, hs0, hs1, hs2, UInt8.toNat_toUInt32,
    hor1, hor2, ← Nat.shiftLeft_add_eq_or_of_lt h3, Nat.shiftLeft_eq]
  simp only [ofBytes, List.length_cons, List.length_nil]
  omega

end BigEndian
