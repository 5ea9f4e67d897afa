/-
  The driver `optoe`, which presents the memory of an optical module as one file (`eeprom` in sysfs).

  A read or a write of the file goes through the memory in chunks of 128 bytes.  For each the driver
  computes the address and the page, selects the page, transfers the chunk in pieces that the bus adapter
  allows (one byte at a time if it writes), and selects page 0 again.

  The clock and the bus are outside.  `Outside` numbers the moments at which a transfer is tried, and says of
  each what the clock shows and what comes of the transfer.  A write that fails may have come to the module
  nevertheless.

  `lost` notes that the driver gave up on a write of the page select register.  It is not in the source.

  Not modelled: the messages, wraparound of the clock (only differences of times are looked at), a transfer
  of several bytes that comes to the module in part (writes are of one byte), and what a read that fails
  leaves in the buffer, of which the caller is told nothing.
-/
import DentOS.Optoe.Transceiver

namespace DentOS.Optoe

/-! ## What is outside: the clock, the bus, and the module -/

/-- What comes of a transfer: it is done, or fails with ENXIO, or else (another error, or too few bytes). -/
inductive Status where
  | done | noModule | failed
  deriving DecidableEq

/-- What the driver is given from outside: the clock, and how often a transfer is tried. -/
structure Outside where
  /-- `jiffies`. -/
  ticks : Nat → Nat
  /-- `msecs_to_jiffies(write_timeout)`. -/
  timeout : Nat
  /-- The tries behind the first that a transfer has from a moment on: the last one begins at the end of its
  time, or later. -/
  retries : Nat → Nat
  /-- No try but the last begins behind the end of the time. -/
  in_time : ∀ n, ∀ k < retries n, ticks (n + k) < ticks n + timeout
  /-- The last one does. -/
  late : ∀ n, ticks n + timeout ≤ ticks (n + retries n)
  /-- How a transfer ends. -/
  status : Nat → Status
  /-- Whether the module takes a write that fails. -/
  reaches : Nat → Bool

/-- A module, the transfers so far, and whether the page select register was given up on. -/
structure World where
  /-- The module in the cage. -/
  module : Transceiver
  /-- The number of transfers so far. -/
  moment : Nat
  /-- The driver has given up on the page select register. -/
  lost : Bool

/-- One more transfer. -/
def World.tick (w : World) : World := { w with moment := w.moment + 1 }

/-- What a function returns, what it has put into the buffer, and the world behind it. -/
structure Res where
  /-- The number of bytes, or an error. -/
  status : Int
  /-- The bytes in the buffer. -/
  got : List UInt8
  /-- What is left. -/
  world : World

def eInval : Int := -22
def eNxio : Int := -6
def eIo : Int := -5
def eTimedOut : Int := -110

/-- `use_smbus`. -/
inductive Mode where
  | i2c | blockData | wordData | byteData
  deriving DecidableEq

def smbusBlockMax : Nat := 32

/-- How many of `count` bytes go into one transfer. -/
def Mode.clip (mode : Mode) (count : Nat) : Nat :=
  match mode with
  | .blockData => if count > smbusBlockMax then smbusBlockMax else count
  | .wordData => if count = 1 then 1 else 2
  | .byteData => 1
  | .i2c => count

section

variable (out : Outside)

/-! ## Transfers of the adapter, with their retries -/

/-- What a call of the bus returns that asked for `count` bytes. -/
def Status.value (count : Nat) : Status → Int
  | .done => count
  | .noModule => eNxio
  | .failed => eIo

/-- `do … while (time_before(read_time, timeout))`, with so many tries left behind this one. -/
def tryLoop (attempt : World → Res) (stop : Int → Bool) : Nat → World → Res
  | 0, w => if stop (attempt w).status then attempt w else ⟨eTimedOut, [], (attempt w).world⟩
  | left + 1, w => if stop (attempt w).status then attempt w else tryLoop attempt stop left (attempt w).world

/-- `optoe_eeprom_read` without its loop: one transfer of the adapter. -/
def readOnce (c : Client) (offset count : Nat) (w : World) : Res where
  status := (out.status w.moment).value count
  got := if out.status w.moment = .done then w.module.readBytes c offset count else []
  world := w.tick

/-- `optoe_eeprom_read`. -/
def eepromRead (mode : Mode) (c : Client) (offset count : Nat) (w : World) : Res :=
  let count := mode.clip count
  tryLoop (readOnce out c offset count) (fun status => status = count || status = eNxio)
    (out.retries w.moment) w

/-- `optoe_eeprom_write` without its loop. -/
def writeOnce (c : Client) (offset : Nat) (bytes : List UInt8) (w : World) : Res where
  status := (out.status w.moment).value bytes.length
  got := []
  world :=
    if out.status w.moment = .done || out.reaches w.moment then
      { w.tick with module := w.module.writeBytes c offset bytes }
    else w.tick

/-- `write_max`. -/
def writeMax : Nat := 1

/-- The kernel's `roundup`. -/
def roundup (x y : Nat) : Nat := (x + (y - 1)) / y * y

/-- How many bytes of `count` a write takes. -/
def writeCount (mode : Mode) (offset count : Nat) : Nat :=
  let count := if count > writeMax then writeMax else count
  let nextPageStart := roundup (offset + 1) pageSize
  let count := if offset + count > nextPageStart then nextPageStart - offset else count
  mode.clip count

/-- `optoe_eeprom_write`. -/
def eepromWrite (mode : Mode) (c : Client) (buf : List UInt8) (offset count : Nat) (w : World) : Res :=
  let bytes := buf.take (writeCount mode offset count)
  tryLoop (writeOnce out c offset bytes) (fun status => status = bytes.length) (out.retries w.moment) w

/-! ## A chunk: select the page, transfer, select page 0 -/

/-- `OPTOE_READ_OP` and `OPTOE_WRITE_OP`. -/
inductive Op where
  | read | write
  deriving DecidableEq

/-- `optoe_translate_offset`: the client, the page, and the offset there. -/
def translateOffset (cls : DevClass) (offset : Nat) : Client × UInt8 × Nat :=
  let (client, offset) := if cls = .twoAddr ∧ offset > 255 then (Client.a2, offset - 256) else (.a0, offset)
  if offset < pageSize then (client, 0, offset)
  else (client, UInt8.ofNat (offset / 128 - 1), pageSize + offset % 128)

/-- One of the two, by the operation. -/
def transfer (mode : Mode) (op : Op) (c : Client) (buf : List UInt8) (offset count : Nat) (w : World) : Res :=
  match op with
  | .read => eepromRead out mode c offset count w
  | .write => eepromWrite out mode c buf offset count w

/-- `while (count)`: every transfer is of a byte at least, so `count` of them are enough. -/
def transferLoop (mode : Mode) (op : Op) (c : Client) : (passes count : Nat) → (offset : Nat) →
    (buf : List UInt8) → (retval : Int) → (got : List UInt8) → World → Res
  | 0, _, _, _, retval, got, w => ⟨retval, got, w⟩
  | passes + 1, count, offset, buf, retval, got, w =>
      if count = 0 then ⟨retval, got, w⟩
      else
        let r := transfer out mode op c buf offset count w
        if r.status ≤ 0 then ⟨if retval = 0 then r.status else retval, got ++ r.got, r.world⟩
        else
          transferLoop mode op c passes (count - r.status.toNat) (offset + r.status.toNat)
            (buf.drop r.status.toNat) (retval + r.status) (got ++ r.got) r.world

/-- A page number into the page select register. -/
def selectPage (mode : Mode) (c : Client) (page : UInt8) (w : World) : Res :=
  let r := eepromWrite out mode c [page] pageSelectReg 1 w
  if r.status < 0 then { r with world := { r.world with lost := true } } else r

/-- Page 0 again; an error counts only if nothing has been transferred. -/
def restorePage (mode : Mode) (c : Client) (r : Res) : Res :=
  let ret := selectPage out mode c 0 r.world
  if ret.status < 0 ∧ r.status = 0 then ⟨ret.status, r.got, ret.world⟩ else ⟨r.status, r.got, ret.world⟩

/-- `optoe_eeprom_update_client`. -/
def eepromUpdateClient (mode : Mode) (cls : DevClass) (op : Op) (buf : List UInt8) (off count : Nat)
    (w : World) : Res :=
  let (c, page, phyOffset) := translateOffset cls off
  if page = 0 then transferLoop out mode op c count count phyOffset buf 0 [] w
  else
    let ret := selectPage out mode c page w
    if ret.status < 0 then ⟨ret.status, [], ret.world⟩
    else restorePage out mode c (transferLoop out mode op c count count phyOffset buf 0 [] ret.world)

/-! ## The file: chunks, and the limits of a request -/

/-- `regval`. -/
def Res.regval (r : Res) : UInt8 := r.got.headD 0

/-- `len = (len > maxlen) ? maxlen : len`. -/
def trim (len : Nat) (maxlen : Int) (w : World) : Res where
  status := if (len : Int) > maxlen then maxlen else len
  got := []
  world := w

/-- `optoe_page_legal`. -/
def pageLegal (mode : Mode) (cls : DevClass) (off : Int) (len : Nat) (w : World) : Res :=
  if off < 0 then ⟨eInval, [], w⟩
  else if cls = .twoAddr then
    if off + len ≤ 256 then ⟨len, [], w⟩
    else if off ≥ 259 * 128 then ⟨0, [], w⟩
    else
      let r := eepromRead out mode .a0 0x40 1 w
      if r.status < 0 then r
      else if r.regval &&& 0x10 ≠ 0 then trim len (259 * 128 - off) r.world
      else if off ≥ 512 then ⟨0, [], r.world⟩
      else
        let r := eepromRead out mode .a0 92 1 r.world
        if r.status < 0 then r
        else if r.regval &&& 0x40 ≠ 0 then trim len (512 - off) r.world
        else if off ≥ 256 then ⟨0, [], r.world⟩
        else trim len (256 - off) r.world
  else
    if off + len ≤ 256 then ⟨len, [], w⟩
    else if off ≥ 257 * 128 then ⟨0, [], w⟩
    else
      let r := eepromRead out mode .a0 0x02 1 w
      let notPageable : UInt8 := if cls = .oneAddr then 0x04 else 0x80
      if r.status < 0 then r
      else if r.regval &&& notPageable ≠ 0 then
        if off ≥ 256 then ⟨0, [], r.world⟩ else trim len (256 - off) r.world
      else trim len (257 * 128 - off) r.world

/-- Where a chunk of `optoe_read_write` begins. -/
def chunkOffset (off chunk : Nat) : Nat := if chunk * pageSize < off then off else chunk * pageSize

/-- How long it is. -/
def chunkLen (off pendingLen chunk : Nat) : Nat :=
  if chunk * pageSize < off then
    if off + pendingLen < chunk * pageSize + pageSize then pendingLen else chunk * pageSize + pageSize - off
  else if pendingLen < pageSize then pendingLen else pageSize

/-- The loop over so many chunks. -/
def chunkLoop (mode : Mode) (cls : DevClass) (op : Op) (off : Nat) : (chunks chunk : Nat) →
    (buf : List UInt8) → (pendingLen : Nat) → (retval : Int) → (got : List UInt8) → World → Res
  | 0, _, _, _, retval, got, w => ⟨retval, got, w⟩
  | chunks + 1, chunk, buf, pendingLen, retval, got, w =>
      let n := chunkLen off pendingLen chunk
      let r := eepromUpdateClient out mode cls op buf (chunkOffset off chunk) n w
      if r.status ≠ n then
        let retval := if r.status > 0 then retval + r.status else retval
        ⟨if retval = 0 then r.status else retval, got ++ r.got, r.world⟩
      else
        chunkLoop mode cls op off chunks (chunk + 1) (buf.drop r.status.toNat) (pendingLen - r.status.toNat)
          (retval + r.status) (got ++ r.got) r.world

/-- `optoe_read_write`. -/
def readWrite (mode : Mode) (cls : DevClass) (op : Op) (buf : List UInt8) (off : Int) (len : Nat)
    (w : World) : Res :=
  if len = 0 then ⟨0, [], w⟩
  else
    let r := pageLegal out mode cls off len w
    if r.status ≤ 0 then ⟨r.status, [], r.world⟩
    else
      let off := off.toNat
      let len := r.status.toNat
      let first := off / pageSize
      chunkLoop out mode cls op off ((off + len - 1) / pageSize + 1 - first) first buf len 0 [] r.world

end

end DentOS.Optoe
