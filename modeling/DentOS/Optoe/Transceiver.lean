/-
  The memory of an optical module, as the driver `optoe` finds it on the bus.

  A module answers at one i2c address or at two, with 256 bytes each.  In the upper 128 of them it shows one
  of up to 256 pages; byte 127 of the lower half says which.  It is the page select register, and a module
  that lacks the page asked for shows page 0.

  `linearCell` is the layout that the driver documents: one row of bytes, in which page n of a QSFP begins at
  128 * (n + 1) and page n of an SFP at 128 * (n + 3).  `putAll` writes a stretch of that row; it knows
  nothing of page selection.

  Not modelled: bytes that change on their own, and bytes cleared by a read.
-/
import Mathlib.Logic.Function.Basic
import Mathlib.Data.List.Range

namespace DentOS.Optoe

/-! ## The module: cells, pages, and a register that selects one -/

/-- `client[0]`, at 0x50, and `client[1]`, at 0x51. -/
inductive Client where
  | a0 | a2
  deriving DecidableEq

/-- `ONE_ADDR` and `TWO_ADDR`; one of the two versions of the driver has `CMIS_ADDR` as well. -/
inductive DevClass where
  | oneAddr | twoAddr | cmisAddr
  deriving DecidableEq

/-- Where a byte is kept. -/
inductive Cell where
  | lower (c : Client) (i : Nat)
  | upper (c : Client) (page : UInt8) (i : Nat)
  deriving DecidableEq

/-- `OPTOE_PAGE_SIZE`. -/
def pageSize : Nat := 128

/-- `OPTOE_PAGE_SELECT_REG`. -/
def pageSelectReg : Nat := 0x7f

/-- A module in the cage: its bytes by page, and what of them a write can change. -/
structure Transceiver where
  /-- What is in each cell. -/
  byte : Cell → UInt8
  /-- Whether a write can change it. -/
  writable : Cell → Bool
  /-- Whether the upper half of an address has pages. -/
  switched : Client → Bool
  /-- What the page select register holds when a number is written to it. -/
  settle : UInt8 → UInt8
  /-- Page 0 is there in every module. -/
  settle_zero : settle 0 = 0

namespace Transceiver

variable (m : Transceiver)

/-- The page select register. -/
def select (c : Client) : Cell := .lower c pageSelectReg

/-- The page that an address shows. -/
def shown (c : Client) : UInt8 := if m.switched c then m.byte (select c) else 0

/-- The byte at a register of an address. -/
def cell (c : Client) (o : Nat) : Cell :=
  if o < pageSize then .lower c o else .upper c (m.shown c) (o - pageSize)

/-- A byte is another one. -/
def set (x : Cell) (v : UInt8) : Transceiver := { m with byte := Function.update m.byte x v }

/-- A byte written to a cell: a module keeps those that are read-only. -/
def put (x : Cell) (v : UInt8) : Transceiver := if m.writable x then m.set x v else m

/-- A byte is written over the bus: to the page select register, or to a cell of the page shown. -/
def writeByte (c : Client) (o : Nat) (v : UInt8) : Transceiver :=
  if m.switched c ∧ o = pageSelectReg then m.set (select c) (m.settle v) else m.put (m.cell c o) v

/-- `count` bytes are read, as the address counts up. -/
def readBytes (c : Client) (o count : Nat) : List UInt8 :=
  (List.range' o count).map fun o => m.byte (m.cell c o)

/-- Bytes are written one behind the other. -/
def writeBytes (c : Client) : Nat → List UInt8 → Transceiver → Transceiver
  | _, [], m => m
  | o, v :: vs, m => writeBytes c (o + 1) vs (m.writeByte c o v)

/-! ## The row of bytes that a file shows -/

end Transceiver

/-- The address that has the pages. -/
def DevClass.paged : DevClass → Client
  | .twoAddr => .a2
  | _ => .a0

/-- The address, and the place at the address. -/
def DevClass.place (cls : DevClass) (n : Nat) : Client × Nat :=
  if cls = .twoAddr ∧ 256 ≤ n then (.a2, n - 256) else (.a0, n)

/-- The page that is there when page `page` is asked for. -/
def Transceiver.pageAt (m : Transceiver) (c : Client) (page : UInt8) : UInt8 :=
  if m.switched c then m.settle page else 0

/-- **The documented layout.** -/
def Transceiver.linearCell (m : Transceiver) (cls : DevClass) (n : Nat) : Cell :=
  let c := (cls.place n).1
  let o := (cls.place n).2
  if o < pageSize then .lower c o
  else .upper c (m.pageAt c (UInt8.ofNat (o / pageSize - 1))) (o % pageSize)

/-- A stretch of the row. -/
def Transceiver.linear (m : Transceiver) (cls : DevClass) (off count : Nat) : List UInt8 :=
  (List.range' off count).map fun n => m.byte (m.linearCell cls n)

/-- A stretch of the row is written. -/
def Transceiver.putAll (cls : DevClass) : Nat → List UInt8 → Transceiver → Transceiver
  | _, [], m => m
  | off, v :: vs, m => putAll cls (off + 1) vs (m.put (m.linearCell cls off) v)

/-- How many bytes a module says that it has. -/
def Transceiver.capacity (m : Transceiver) : DevClass → Nat
  | .oneAddr => if m.byte (.lower .a0 0x02) &&& 0x04 ≠ 0 then 256 else (1 + 256) * pageSize
  | .cmisAddr => if m.byte (.lower .a0 0x02) &&& 0x80 ≠ 0 then 256 else (1 + 256) * pageSize
  | .twoAddr =>
      if m.byte (.lower .a0 0x40) &&& 0x10 ≠ 0 then (3 + 256) * pageSize
      else if m.byte (.lower .a0 92) &&& 0x40 ≠ 0 then 512
      else 256

/-- The size without pages. -/
def DevClass.unpaged : DevClass → Nat
  | .twoAddr => 512
  | _ => 256

/-- The bytes in which a module says so. -/
def DevClass.flags : DevClass → List Nat
  | .twoAddr => [0x40, 92]
  | _ => [0x02]

/-- A module that has pages if it says so, of the class that the driver takes it for. -/
structure Transceiver.Conforms (m : Transceiver) (cls : DevClass) : Prop where
  pages : cls.unpaged < m.capacity cls → m.switched cls.paged = true
  flat : cls = .twoAddr → m.switched .a0 = false
  flags : ∀ i ∈ cls.flags, m.writable (.lower .a0 i) = false

/-- Page 0 is shown, as it is when a module gets its power. -/
def Transceiver.AtZero (m : Transceiver) (cls : DevClass) : Prop := m.shown cls.paged = 0

/-- The module with page 0 selected. -/
def Transceiver.reset (m : Transceiver) (cls : DevClass) : Transceiver :=
  if m.switched cls.paged then m.set (select cls.paged) 0 else m

/-! ## Cells and pages: setting, storing, showing -/

namespace Transceiver

variable {m : Transceiver} {c : Client} {cls : DevClass}

@[simp] theorem set_switched (m : Transceiver) (x : Cell) (v : UInt8) :
    (m.set x v).switched = m.switched := rfl
@[simp] theorem set_settle (m : Transceiver) (x : Cell) (v : UInt8) : (m.set x v).settle = m.settle := rfl
@[simp] theorem set_writable (m : Transceiver) (x : Cell) (v : UInt8) :
    (m.set x v).writable = m.writable := rfl

/-- A byte that was set is what it was set to. -/
theorem set_self (m : Transceiver) (x : Cell) (v : UInt8) : (m.set x v).byte x = v := by
  simp [set]

/-- Every other byte is what it was. -/
theorem set_of_ne {x y : Cell} (h : y ≠ x) (m : Transceiver) (v : UInt8) : (m.set x v).byte y = m.byte y := by
  simp [set, h]

/-- Setting a byte twice is setting it to the second value. -/
theorem set_set (m : Transceiver) (x : Cell) (v v' : UInt8) : (m.set x v).set x v' = m.set x v' := by
  rw [set, set, set, Function.update_idem]

/-- Two bytes are set in either order. -/
theorem set_comm {x y : Cell} (h : x ≠ y) (m : Transceiver) (v v' : UInt8) :
    (m.set x v).set y v' = (m.set y v').set x v := by
  rw [set, set, set, set, Function.update_comm h]

/-- Setting a byte to what it is changes nothing. -/
theorem set_byte (m : Transceiver) (x : Cell) : m.set x (m.byte x) = m := by
  rw [set, Function.update_eq_self]

/-- A module with another byte in the place of one is the same kind of module. -/
structure Alike (m m' : Transceiver) : Prop where
  switched : m'.switched = m.switched
  settle : m'.settle = m.settle
  writable : m'.writable = m.writable

/-- A module is alike itself. -/
theorem Alike.refl (m : Transceiver) : Alike m m := ⟨rfl, rfl, rfl⟩

/-- Alike modules of an alike module are alike. -/
theorem Alike.trans {m₁ m₂ : Transceiver} (h : Alike m m₁) (h' : Alike m₁ m₂) : Alike m m₂ :=
  ⟨h'.switched.trans h.switched, h'.settle.trans h.settle, h'.writable.trans h.writable⟩

/-- Setting a byte leaves an alike module. -/
theorem alike_set (m : Transceiver) (x : Cell) (v : UInt8) : Alike m (m.set x v) := ⟨rfl, rfl, rfl⟩

/-- Storing a byte where it can be stored leaves an alike module. -/
theorem alike_put (m : Transceiver) (x : Cell) (v : UInt8) : Alike m (m.put x v) := by
  rw [put]
  split
  · exact alike_set m x v
  · exact .refl m

/-- Storing many bytes leaves an alike module. -/
theorem alike_putAll (cls : DevClass) :
    ∀ (vs : List UInt8) (off : Nat) (m : Transceiver), Alike m (putAll cls off vs m)
  | [], _, m => .refl m
  | _ :: vs, off, m => (alike_put m _ _).trans (alike_putAll cls vs (off + 1) _)

/-- Selecting page 0 leaves an alike module. -/
theorem alike_reset (m : Transceiver) (cls : DevClass) : Alike m (m.reset cls) := by
  rw [reset]
  split
  · exact alike_set m _ _
  · exact .refl m

/-- In alike modules, an offset is the same cell. -/
theorem Alike.linearCell {m' : Transceiver} (h : Alike m m') (n : Nat) :
    m'.linearCell cls n = m.linearCell cls n := by
  rw [Transceiver.linearCell, Transceiver.linearCell, pageAt, pageAt, h.switched, h.settle]

/-- Storing a byte leaves every other one. -/
theorem put_of_ne {x y : Cell} (h : y ≠ x) (m : Transceiver) (v : UInt8) : (m.put x v).byte y = m.byte y := by
  rw [put]
  split
  · exact set_of_ne h m v
  · rfl

/-- Storing one byte and setting another do not depend on their order. -/
theorem put_set {x y : Cell} (h : x ≠ y) (m : Transceiver) (v v' : UInt8) :
    (m.set y v').put x v = (m.put x v).set y v' := by
  rw [put, put, set_writable]
  split
  · exact (set_comm h m v v').symm
  · rfl

/-- Storing a byte twice is storing it once. -/
theorem put_put (m : Transceiver) (x : Cell) (v : UInt8) : (m.put x v).put x v = m.put x v := by
  by_cases hw : m.writable x = true
  · rw [put, put, if_pos hw, set_writable, if_pos hw, set_set]
  · rw [put, put, if_neg hw, if_neg hw]

/-- The page shown is kept by a store that is not to the register. -/
theorem shown_put {x : Cell} (h : m.switched c = true → x ≠ select c) (v : UInt8) :
    (m.put x v).shown c = m.shown c := by
  rw [shown, shown, (alike_put m x v).switched]
  split
  next hs => exact put_of_ne (h hs).symm m v
  next => rfl

/-- A longer stretch of the linear space is two stretches. -/
theorem linear_append (m : Transceiver) (cls : DevClass) (off n k : Nat) :
    m.linear cls off (n + k) = m.linear cls off n ++ m.linear cls (off + n) k := by
  rw [linear, linear, linear, ← List.map_append, List.range'_append_1]

/-- Storing two lists of bytes is storing them one behind the other. -/
theorem putAll_append : ∀ (vs vs' : List UInt8) (off : Nat) (m : Transceiver),
    putAll cls off (vs ++ vs') m = putAll cls (off + vs.length) vs' (putAll cls off vs m)
  | [], _, _, _ => rfl
  | v :: vs, vs', off, m => by
      rw [List.cons_append, putAll, putAll, putAll_append vs vs', List.length_cons]
      congr 1
      omega

/-! ## The page select register, and page 0 -/

/-- Where the upper half has pages, a reset puts 0 into the register. -/
theorem reset_of_switched (h : m.switched cls.paged = true) : m.reset cls = m.set (select cls.paged) 0 :=
    if_pos h

/-- Where the upper half has no pages, a reset does nothing. -/
theorem reset_of_not_switched (h : ¬ m.switched cls.paged = true) : m.reset cls = m := if_neg h

/-- Page 0 is shown: nothing is to be reset. -/
theorem atZero_iff : m.AtZero cls ↔ m.reset cls = m := by
  by_cases h : m.switched cls.paged = true
  · rw [AtZero, shown, if_pos h, reset_of_switched h]
    constructor
    · intro hz
      rw [← hz, set_byte]
    · intro heq
      rw [← heq, set_self]
  · rw [AtZero, shown, if_neg h, reset_of_not_switched h]
    simp

/-- A reset forgets what was in the register. -/
theorem reset_set_select (h : m.switched cls.paged = true) (v : UInt8) :
    (m.set (select cls.paged) v).reset cls = m.reset cls := by
  rw [reset_of_switched h, reset_of_switched (m := m.set _ v) h, set_set]

/-- A reset does not depend on a store elsewhere. -/
theorem reset_put {x : Cell} (h : m.switched cls.paged = true → x ≠ select cls.paged) (v : UInt8) :
    (m.put x v).reset cls = (m.reset cls).put x v := by
  have halike := alike_put m x v
  by_cases hs : m.switched cls.paged = true
  · rw [reset_of_switched hs, reset_of_switched (m := m.put x v) (halike.switched ▸ hs), put_set (h hs)]
  · rw [reset_of_not_switched hs, reset_of_not_switched (m := m.put x v) (halike.switched ▸ hs)]

/-- A reset leaves every byte but the register. -/
theorem reset_byte {x : Cell} (h : m.switched cls.paged = true → x ≠ select cls.paged) :
    (m.reset cls).byte x = m.byte x := by
  by_cases hs : m.switched cls.paged = true
  · rw [reset_of_switched hs, set_of_ne (h hs)]
  · rw [reset_of_not_switched hs]

end Transceiver

end DentOS.Optoe
