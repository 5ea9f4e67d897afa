/-
  The MD5 message digest, as `hashlib.md5` and `md5sum` compute it.

  The message is padded to whole blocks of 64 bytes (`pad`), every block is sixteen words, low byte
  first (`words`), and sixty-four operations on four registers take it in (`operation`, `block`).
  `hexdigest` writes the registers out, low byte first, in lower-case hexadecimal.
-/

namespace Md5

/-- A word of 32 bits. -/
abbrev Word := BitVec 32

/-- The registers `A`, `B`, `C` and `D`. -/
structure Registers where
  a : Word
  b : Word
  c : Word
  d : Word

/-- The registers in the beginning. -/
def initial : Registers := ⟨0x67452301, 0xefcdab89, 0x98badcfe, 0x10325476⟩

/-- The whole part of `2 ^ 32 * abs (sin (i + 1))`, for the operations in their order. -/
def sines : List Word := [
  0xd76aa478, 0xe8c7b756, 0x242070db, 0xc1bdceee, 0xf57c0faf, 0x4787c62a,
  0xa8304613, 0xfd469501, 0x698098d8, 0x8b44f7af, 0xffff5bb1, 0x895cd7be,
  0x6b901122, 0xfd987193, 0xa679438e, 0x49b40821, 0xf61e2562, 0xc040b340,
  0x265e5a51, 0xe9b6c7aa, 0xd62f105d, 0x02441453, 0xd8a1e681, 0xe7d3fbc8,
  0x21e1cde6, 0xc33707d6, 0xf4d50d87, 0x455a14ed, 0xa9e3e905, 0xfcefa3f8,
  0x676f02d9, 0x8d2a4c8a, 0xfffa3942, 0x8771f681, 0x6d9d6122, 0xfde5380c,
  0xa4beea44, 0x4bdecfa9, 0xf6bb4b60, 0xbebfbc70, 0x289b7ec6, 0xeaa127fa,
  0xd4ef3085, 0x04881d05, 0xd9d4d039, 0xe6db99e5, 0x1fa27cf8, 0xc4ac5665,
  0xf4292244, 0x432aff97, 0xab9423a7, 0xfc93a039, 0x655b59c3, 0x8f0ccc92,
  0xffeff47d, 0x85845dd1, 0x6fa87e4f, 0xfe2ce6e0, 0xa3014314, 0x4e0811a1,
  0xf7537e82, 0xbd3af235, 0x2ad7d2bb, 0xeb86d391]

/-- How far an operation rotates: a round has four distances, in turn. -/
def distance (i : Nat) : Nat :=
  if i < 16 then [7, 12, 17, 22].getD (i % 4) 0
  else if i < 32 then [5, 9, 14, 20].getD (i % 4) 0
  else if i < 48 then [4, 11, 16, 23].getD (i % 4) 0
  else [6, 10, 15, 21].getD (i % 4) 0

/-- The function of a round. -/
def mix (i : Nat) (b c d : Word) : Word :=
  if i < 16 then (b &&& c) ||| (~~~ b &&& d)
  else if i < 32 then (b &&& d) ||| (c &&& ~~~ d)
  else if i < 48 then b ^^^ c ^^^ d
  else c ^^^ (b ||| ~~~ d)

/-- The word of the block that an operation takes in. -/
def source (i : Nat) : Nat :=
  if i < 16 then i
  else if i < 32 then (5 * i + 1) % 16
  else if i < 48 then (3 * i + 5) % 16
  else 7 * i % 16

/-- One of the 64 operations of a block. -/
def operation (ws : List Word) (r : Registers) (i : Nat) : Registers :=
  let sum := r.a + mix i r.b r.c r.d + sines.getD i 0 + ws.getD (source i) 0
  ⟨r.d, r.b + sum.rotateLeft (distance i), r.b, r.c⟩

/-- A block of sixteen words. -/
def block (r : Registers) (ws : List Word) : Registers :=
  let s := (List.range 64).foldl (operation ws) r
  ⟨r.a + s.a, r.b + s.b, r.c + s.c, r.d + s.d⟩

/-! ## Bytes -/

/-- The words of a message, low byte first. -/
def words : List UInt8 → List Word
  | b₀ :: b₁ :: b₂ :: b₃ :: m =>
      BitVec.ofNat 32 (b₀.toNat + 2 ^ 8 * b₁.toNat + 2 ^ 16 * b₂.toNat + 2 ^ 24 * b₃.toNat) :: words m
  | _ => []

/-- The low `k` bytes of a number, low byte first. -/
def lowBytes (k n : Nat) : List UInt8 := (List.range k).map fun i => UInt8.ofNat (n >>> (8 * i))

/-- A one, zeros up to eight bytes below a whole block, and the number of bits. -/
def pad (m : List UInt8) : List UInt8 :=
  m ++ 0x80 :: List.replicate ((119 - m.length % 64) % 64) 0 ++ lowBytes 8 (8 * m.length)

/-- The registers after `n` blocks. -/
def blocks : Nat → List Word → Registers → Registers
  | 0, _, r => r
  | n + 1, ws, r => blocks n (ws.drop 16) (block r (ws.take 16))

/-- The 16 bytes of the digest. -/
def digest (m : List UInt8) : List UInt8 :=
  let ws := words (pad m)
  let r := blocks (ws.length / 16) ws initial
  [r.a, r.b, r.c, r.d].flatMap fun w => lowBytes 4 w.toNat

/-- A byte in two digits. -/
def hexByte (b : UInt8) : List Char := [(b.toNat / 16).digitChar, (b.toNat % 16).digitChar]

/-- The digest in digits. -/
def hexdigest (m : List UInt8) : List Char := (digest m).flatMap hexByte

example : hexdigest ("abc".toList.map Char.toUInt8) = "900150983cd24fb0d6963f7d28e17f72".toList := by
  decide +kernel

/-- Two digits for each of the sixteen bytes. -/
theorem length_hexdigest (m : List UInt8) : (hexdigest m).length = 32 := rfl

/-- The digest is made of digits. -/
theorem mem_hexdigest {m : List UInt8} {c : Char} (h : c ∈ hexdigest m) :
    c ∈ "0123456789abcdef".toList := by
  have hdigit : ∀ d, d < 16 → d.digitChar ∈ "0123456789abcdef".toList := by decide
  obtain ⟨b, -, hb⟩ := List.mem_flatMap.mp h
  have hlt : b.toNat < 256 := b.toNat_lt
  rcases List.mem_cons.mp hb with rfl | hb
  · exact hdigit _ (by omega)
  · rw [List.mem_singleton.mp hb]
    exact hdigit _ (by omega)

end Md5
