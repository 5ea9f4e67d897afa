/-
  The drivers of the power supplies: what they have in common.

  A driver keeps the registers of its power supply in its record, with the time at which they
  were read and a flag that says whether they count.  Whoever reads an attribute in sysfs makes the
  driver refresh the record first, unless it is recent enough: not older than a second and a half by the
  clock of the kernel, `jiffies`, which is a word that wraps around (`timeAfter`).

  The clock and the power supply are outside.  `Outside` numbers the moments at which something
  happens and says of each what the clock shows and what the power supply would answer; a transfer
  that fails has no answer.  Every transfer takes a moment.

  A refresh that gives up jumps to `exit` with what it has read so far, which is why a refresh is a
  program that keeps its state when it raises (`Effects.Prog`).
-/
import DentOS.Lib.Triple
import DentOS.Lib.PyText
import DentOS.Psu.Linear
import DentOS.Psu.Record

namespace DentOS.Psu

open Effects Prog PyText

/-- What the kernel and the power supply do, moment by moment. -/
structure Outside where
  /-- The ticks in a second. -/
  HZ : Nat
  /-- The ticks since the start. -/
  ticks : Nat → Nat
  /-- The answer to a read of a byte or a word. -/
  register : Nat → Nat → Option Nat
  /-- The answer to a block read of some length. -/
  block : Nat → Nat → UInt8 → Option (List UInt8)
  /-- Whether a write of a word succeeds. -/
  written : Nat → Nat → BitVec 16 → Bool
  /-- What a variable on the stack holds that nothing was stored in. -/
  garbage : Nat → UInt8
  /-- The number that a text is read as. -/
  kstrtol : Text → Option Int

/-- A piece of a driver; it raises where the source jumps to `exit`. -/
abbrev Routine (w : Nat) : Type → Type := Prog (Data w) Unit

section

variable (out : Outside) {w : Nat}

/-! ## Transfers, tried ten times -/

/-- The clock. -/
def jiffies (s : Data w) : BitVec w := BitVec.ofNat w (out.ticks s.moment)

/-- A transfer: the answer of this moment, and one call more. -/
def transfer {α : Type} (answer : Nat → Option α) (call : Option α → Call) : Routine w (Option α) :=
  fun s => (.ok (answer s.moment),
    { s with moment := s.moment + 1, calls := call (answer s.moment) :: s.calls })

/-- `i2c_smbus_read_byte_data` and `i2c_smbus_read_word_data`. -/
def smbusRead (reg : Nat) : Routine w (Option Nat) :=
  transfer (fun n => out.register n reg) (.read reg)

/-- `i2c_smbus_write_word_data`. -/
def smbusWriteWord (reg : Nat) (value : BitVec 16) : Routine w (Option Unit) :=
  transfer (fun n => if out.written n reg value then some () else none)
    fun done => .write reg value done.isSome

/-- `i2c_smbus_read_i2c_block_data`, whose length is a byte. -/
def smbusReadBlock (command : Nat) (length : UInt8) : Routine w (Option (List UInt8)) :=
  transfer (fun n => out.block n command length) (.block command length)

/-- The attempts of a transfer, up to the first that succeeds. -/
def retry {α : Type} (attempt : Routine w (Option α)) : Nat → Routine w (Option α)
  | 0 => pure none
  | retries + 1 => do
      match ← attempt with
      | some a => pure (some a)
      | none => retry attempt retries

/-- The `retry_count` of every transfer. -/
def retryCount : Nat := 10

/-- An array read as far as the power supply has it; the result is whether the read succeeded. -/
def readBlock (l : Layout) (command : Nat) (t : Str) (length : Nat) : Routine w Bool := do
  match ← retry (smbusReadBlock out command (UInt8.ofNat length)) retryCount with
  | none => pure false
  | some bytes => do
      modify fun s => s.copy l t 0 bytes
      pure true

/-! ## Is the record recent? -/

/-- `time_after`: the difference is negative as a signed word. -/
def timeAfter (a b : BitVec w) : Bool := decide ((b - a).toInt < 0)

/-- A refresh is due. -/
def due (s : Data w) : Bool :=
  timeAfter (jiffies out s) (s.lastUpdated + BitVec.ofNat w (out.HZ + out.HZ / 2)) || !s.valid

/-- Behind a complete refresh. -/
def stamp (s : Data w) : Data w := { s with lastUpdated := jiffies out s, valid := true }

/-- `update_device`: the refresh, if it is due; behind `exit` nothing more happens. -/
def updateDevice (refresh : Routine w Unit) (s : Data w) : Data w :=
  if due out s then (refresh s).2 else s

/-! ## The refresh that gives up at the first failure -/

/-- A register into its field, or `exit`. -/
def fetch (bits : Nat) (r : Nat × Field) : Routine w Unit := do
  match ← retry (smbusRead out r.1) retryCount with
  | none => throw ()
  | some status => modify fun s => s.setField r.2 ((BitVec.ofNat bits status).setWidth 16)

/-- The strings of a power supply: read up to the end of the array but one, or with a first read that
tells their length; `clear` is a `memset` before it. -/
inductive Block where
  | fixed (command : Nat) (t : Str)
  | counted (command : Nat) (t : Str) (clear : Bool)

/-- `memset` of an array, where a call asks for it. -/
def memset (l : Layout) (t : Str) : Bool → Routine w Unit
  | true => modify fun s => s.copy l t 0 (List.replicate (l.size t) 0)
  | false => pure ()

/-- A variable that was declared and not set. -/
def onStack : Routine w UInt8 := fun s => (.ok (out.garbage s.moment), s)

/-- A string into its array, with a zero behind it, or `exit`. -/
def fetchBlock (l : Layout) : Block → Routine w Unit
  | .fixed command t => do
      let ok ← readBlock out l command t (l.size t - 1)
      modify fun s => s.poke l t (l.size t - 1 : Nat) 0
      if ok then pure () else throw ()
  | .counted command t clear => do
      memset l t clear
      let garbage ← onStack out
      match ← retry (smbusReadBlock out command 1) retryCount with
      | none => throw ()
      | some bytes => do
          let buf := bytes.headD garbage
          let ok ← readBlock out l command t (buf.toNat + 1)
          modify fun s => s.poke l t (buf.toNat + 1 : Nat) 0
          if ok then pure () else throw ()

/-- What a driver reads. -/
structure Table where
  /-- The registers of a byte, with their fields. -/
  regsByte : List (Nat × Field)
  /-- The registers of a word. -/
  regsWord : List (Nat × Field)
  /-- The strings. -/
  blocks : List Block
  /-- The struct that they are stored in. -/
  layout : Layout

/-- The length of an array. -/
def Table.size (tbl : Table) (t : Str) : Nat := tbl.layout.size t

/-- The three loops. -/
def readAll (tbl : Table) : Routine w Unit := do
  forEach (fetch out 8) tbl.regsByte
  forEach (fetch out 16) tbl.regsWord
  forEach (fetchBlock out tbl.layout) tbl.blocks

/-- The refresh of `dps850_update_device` and `ym2651y_update_device`. -/
def refresh (tbl : Table) : Routine w Unit := do
  modify fun s => { s with valid := false }
  readAll out tbl
  modify (stamp out)

/-! ## The refresh that goes on -/

/-- A register into its field, unless the only attempt fails. -/
def fetchOrKeep (bits : Nat) (r : Nat × Field) : Routine w Unit := do
  match ← smbusRead out r.1 with
  | none => pure ()
  | some status => modify fun s => s.setField r.2 ((BitVec.ofNat bits status).setWidth 16)

/-- The refresh of `cpr_4011_4mxx_update_device`, and of `accton_i2c_psu_update_device` with `strings`
for its strings. -/
def keepRefresh (regsByte regsWord : List (Nat × Field)) (strings : Routine w Unit) : Routine w Unit := do
  forEach (fetchOrKeep out 8) regsByte
  forEach (fetchOrKeep out 16) regsWord
  strings
  modify (stamp out)

/-! ## What is printed of a register -/

/-- `sprintf(buf, "%d\n", n)`. -/
def printInt (n : Int) : Text := strInt n ++ ['\n']

/-- `sprintf(buf, "%s\n", ptr)`. -/
def printStr (ptr : List UInt8) : Text :=
  (ptr.takeWhile (· ≠ 0)).map (fun b => Char.ofNat b.toNat) ++ ['\n']

/-- The literal `lit` is at the start of a string. -/
def startsWith (lit : String) (ptr : List UInt8) : Bool :=
  (lit.toList.map fun c => UInt8.ofNat c.toNat).isPrefixOf ptr

/-- `set_fan_duty_cycle` of the first fan; whether the write succeeded is not looked at. -/
def setFanDutyCycle (tries : Nat) (buf : Text) (s : Data w) : Data w :=
  match out.kstrtol buf with
  | none => s
  | some speed =>
      if speed < 0 ∨ speed > 100 then s
      else
        let s := s.setField (.fanDutyCycle 0) (BitVec.ofInt 16 speed)
        (retry (smbusWriteWord out 0x3b (s.field (.fanDutyCycle 0))) tries s).2

end

end DentOS.Psu
