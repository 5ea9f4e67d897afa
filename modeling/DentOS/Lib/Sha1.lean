/-
  The SHA-1 message digest, as `hashlib.sha1` computes it.

  The message is padded to whole blocks of 64 bytes (`pad`), a block is sixteen words, high byte first
  (`words`), which are extended to eighty (`schedule`), and eighty operations on five registers take them
  in (`operation`, `block`).  `hexdigest` writes the registers out in lower-case hexadecimal.
-/
import DentOS.Lib.Md5

namespace Sha1

open Md5 (Word hexByte lowBytes)

/-- The five registers. -/
structure Registers where
  a : Word
  b : Word
  c : Word
  d : Word
  e : Word

/-- The registers in the beginning. -/
def initial : Registers := ⟨0x67452301, 0xefcdab89, 0x98badcfe, 0x10325476, 0xc3d2e1f0⟩

/-- The function and the constant of a round of twenty operations. -/
def mix (i : Nat) (b c d : Word) : Word :=
  if i < 20 then ((b &&& c) ||| (~~~ b &&& d)) + 0x5a827999
  else if i < 40 then (b ^^^ c ^^^ d) + 0x6ed9eba1
  else if i < 60 then ((b &&& c) ||| (b &&& d) ||| (c &&& d)) + 0x8f1bbcdc
  else (b ^^^ c ^^^ d) + 0xca62c1d6

/-- One more word. -/
def extend (ws : List Word) : List Word :=
  let t := ws.length
  ws ++ [(ws.getD (t - 3) 0 ^^^ ws.getD (t - 8) 0 ^^^ ws.getD (t - 14) 0 ^^^ ws.getD (t - 16) 0).rotateLeft 1]

/-- The eighty words of a block. -/
def schedule (ws : List Word) : List Word := (List.range 64).foldl (fun ws _ => extend ws) ws

/-- One of the 80 operations of a block. -/
def operation (r : Registers) (iw : Word × Nat) : Registers :=
  ⟨r.a.rotateLeft 5 + mix iw.2 r.b r.c r.d + r.e + iw.1, r.a, r.b.rotateLeft 30, r.c, r.d⟩

/-- A block of sixteen words. -/
def block (r : Registers) (ws : List Word) : Registers :=
  let s := (schedule ws).zipIdx.foldl operation r
  ⟨r.a + s.a, r.b + s.b, r.c + s.c, r.d + s.d, r.e + s.e⟩

/-! ## Bytes -/

/-- The words of a message, high byte first. -/
def words : List UInt8 → List Word
  | b₀ :: b₁ :: b₂ :: b₃ :: m =>
      BitVec.ofNat 32 (2 ^ 24 * b₀.toNat + 2 ^ 16 * b₁.toNat + 2 ^ 8 * b₂.toNat + b₃.toNat) :: words m
  | _ => []

/-- The low `k` bytes of a number, high byte first. -/
def highBytes (k n : Nat) : List UInt8 := (lowBytes k n).reverse

/-- A one, zeros up to eight bytes below a whole block, and the number of bits. -/
def pad (m : List UInt8) : List UInt8 :=
  m ++ 0x80 :: List.replicate ((119 - m.length % 64) % 64) 0 ++ highBytes 8 (8 * m.length)

/-- The registers after `n` blocks. -/
def blocks : Nat → List Word → Registers → Registers
  | 0, _, r => r
  | n + 1, ws, r => blocks n (ws.drop 16) (block r (ws.take 16))

/-- The 20 bytes of the digest. -/
def digest (m : List UInt8) : List UInt8 :=
  let ws := words (pad m)
  let r := blocks (ws.length / 16) ws initial
  [r.a, r.b, r.c, r.d, r.e].flatMap fun w => highBytes 4 w.toNat

/-- The digest in digits. -/
def hexdigest (m : List UInt8) : List Char := (digest m).flatMap hexByte

example : hexdigest ("abc".toList.map Char.toUInt8) = "a9993e364706816aba3e25717850c26c9cd0d89d".toList := by
  decide +kernel

/-- Two digits for each of the twenty bytes. -/
theorem length_hexdigest (m : List UInt8) : (hexdigest m).length = 40 := rfl

end Sha1
