/-
  Transactions on an i2c bus (onlplib, i2c.c): `onlp_i2c_open`, the reads and the writes.

  Every transaction opens the bus device, sets it up by three ioctls, makes its smbus calls and closes
  the device again; a call that fails ends it, with the device closed.  What the kernel answers is a
  parameter: the n-th call of a program gets the n-th answer, so every pattern of failures is one
  choice of `answers`.

  A function of the source that returns a negative number is a program that raises it; what it returns
  otherwise is its result.  Log messages are left out.
-/
import DentOS.Lib.Effects

namespace DentOS.I2c

open Effects Prog

/-! ## Flags, status codes -/

/-- `ONLP_I2C_F_*`, by the bit. -/
structure Flags where
  /-- The address has ten bits. -/
  tenbit : Bool
  /-- The address is taken though a driver has it. -/
  force : Bool
  /-- Packets are checked. -/
  pec : Bool
  /-- The muxes stay selected. -/
  noMuxDeselect : Bool
  /-- They are not selected. -/
  noMuxSelect : Bool
  /-- Reads are I2C block reads. -/
  useBlockRead : Bool
  /-- Reads are SMBus block reads. -/
  useSmbusBlockRead : Bool
  /-- A read is tried once. -/
  disableReadRetries : Bool
  deriving DecidableEq

/-- No flag is set. -/
def Flags.none : Flags where
  tenbit := false
  force := false
  pec := false
  noMuxDeselect := false
  noMuxSelect := false
  useBlockRead := false
  useSmbusBlockRead := false
  disableReadRetries := false

/-- `ONLP_STATUS_E_PARAM` and `ONLP_STATUS_E_I2C`. -/
def statusParam : Int := -14
def statusI2c : Int := -15

/-- `ONLPLIB_CONFIG_I2C_BLOCK_SIZE`. -/
def blockSize : Nat := 32

/-- `ONLPLIB_CONFIG_I2C_READ_RETRY_COUNT`. -/
def readRetryCount : Nat := 16

/-! ## Muxes and their drivers -/

/-- `onlp_i2c_mux_driver_t`: the control register, and the value for each channel. -/
structure MuxDriver where
  /-- The name of the chip. -/
  name : String
  /-- The register that selects the channel. -/
  control : UInt8
  /-- The value for each channel; the one for -1 deselects. -/
  channels : List (Int × UInt8)
  deriving DecidableEq

/-- `onlp_i2c_mux_device_t`. -/
structure MuxDevice where
  /-- The name of the mux. -/
  name : String
  /-- The bus it is on. -/
  bus : Int
  /-- Its address. -/
  devaddr : UInt8
  /-- Its driver. -/
  driver : MuxDriver
  deriving DecidableEq

/-! ## The kernel: one answer to each call -/

/-- A call of the kernel. -/
inductive Call where
  | openBus (bus : Int)
  | close (fd : Int)
  | tenbit (fd : Int) (on : Bool)
  | pec (fd : Int) (on : Bool)
  | slave (fd : Int) (force : Bool) (addr : UInt8)
  | readByte (fd : Int) (offset : UInt8)
  | readBlock (fd : Int) (offset : UInt8)
  | readI2cBlock (fd : Int) (offset : UInt8) (size : Nat)
  | readWord (fd : Int) (offset : UInt8)
  | writeByte (fd : Int) (offset byte : UInt8)
  | writeWord (fd : Int) (offset : UInt8) (word : UInt16)
  deriving DecidableEq

/-- What a call returns, and the bytes that it stores into its buffer. -/
structure Answer where
  /-- What the call returns. -/
  rv : Int
  /-- The bytes that it stores. -/
  data : List UInt8

/-- What happens: a call, and, behind its calls, a request to a mux (`onlp_i2c_mux_select` logs it) with
    the channel asked for and whether the write came through. -/
inductive Event where
  | call (c : Call) (rv : Int)
  | mux (dev : MuxDevice) (channel : Int) (written : Bool)
  deriving DecidableEq

/-- How many calls have been made, and what has happened so far. -/
structure Bus where
  /-- The number of calls so far. -/
  calls : Nat
  /-- What has happened, in order. -/
  trace : List Event

/-- A program that calls the kernel; it may return early, with a status. -/
abbrev OnBus := Prog Bus Int

/-- The bus before the first call. -/
def Bus.fresh : Bus where
  calls := 0
  trace := []

section

variable (answers : Nat → Answer)

/-- A call: it is counted and logged, and gets its answer. -/
def kernel (c : Call) : OnBus Answer := fun s =>
  (.ok (answers s.calls),
    { calls := s.calls + 1, trace := s.trace ++ [.call c (answers s.calls).rv] })

/-- `goto error`: close the device and return `status`. -/
def fail {α : Type} (fd status : Int) : OnBus α := do
  let _ ← kernel answers (.close fd)
  throw status

/-- `onlp_i2c_open`. -/
def onlpI2cOpen (bus : Int) (addr : UInt8) (flags : Flags) : OnBus Int := do
  let fd ← kernel answers (.openBus bus)
  if fd.rv < 0 then throw fd.rv
  else
    let rv ← kernel answers (.tenbit fd.rv flags.tenbit)
    if rv.rv = -1 then fail answers fd.rv statusI2c
    else
      let rv ← kernel answers (.pec fd.rv flags.pec)
      if rv.rv = -1 then fail answers fd.rv statusI2c
      else
        let rv ← kernel answers (.slave fd.rv flags.force addr)
        if rv.rv = -1 then fail answers fd.rv statusI2c
        else pure fd.rv

/-! ## Reads: a byte, a word or a block, tried again where they fail -/

/-- `while(retries-- && rv < 0)`: the call is made again until it succeeds or no try is left. -/
def retry (c : Call) : Nat → Answer → OnBus Answer
  | 0, rv => pure rv
  | retries + 1, rv =>
      if rv.rv < 0 then do
        let rv ← kernel answers c
        retry c retries rv
      else pure rv

/-- How often a byte is tried for: once, where the flag says so. -/
def readTries (flags : Flags) : Nat := if flags.disableReadRetries then 1 else readRetryCount

/-- The loop of `onlp_i2c_read`: `count` bytes from `offset` on. -/
def readBytes (fd : Int) (flags : Flags) : Nat → UInt8 → List UInt8 → OnBus (List UInt8)
  | 0, _, rdata => pure rdata
  | count + 1, offset, rdata => do
      let rv ← retry answers (.readByte fd offset) (readTries flags) ⟨-1, []⟩
      if rv.rv < 0 then fail answers fd statusI2c
      else readBytes fd flags count (offset + 1) (rdata ++ [UInt8.ofNat rv.rv.toNat])

/-- `onlp_i2c_read`: the bytes read. -/
def onlpI2cRead (bus : Int) (addr offset : UInt8) (size : Int) (flags : Flags) :
    OnBus (List UInt8) := do
  let fd ← onlpI2cOpen answers bus addr flags
  let rdata ← readBytes answers fd flags size.toNat offset []
  let _ ← kernel answers (.close fd)
  pure rdata

/-- The loop of `onlp_i2c_block_read`, with `count` bytes to go: at least one is read in a pass, so
    `passes` = `count` of them are enough. -/
def readBlocks (fd : Int) (flags : Flags) : Nat → Nat → UInt8 → List UInt8 → OnBus (List UInt8)
  | 0, _, _, rdata => pure rdata
  | passes + 1, count, offset, rdata =>
      if count = 0 then pure rdata
      else do
        let rsize := if count ≥ blockSize then blockSize else count
        let c :=
          if flags.useSmbusBlockRead then Call.readBlock fd offset
          else Call.readI2cBlock fd offset rsize
        let rv ← retry answers c (readTries flags) ⟨-1, []⟩
        if rv.rv ≠ rsize then fail answers fd statusI2c
        else readBlocks fd flags passes (count - rsize) (offset + UInt8.ofNat rsize) (rdata ++ rv.data)

/-- `onlp_i2c_block_read`. -/
def onlpI2cBlockRead (bus : Int) (addr offset : UInt8) (size : Int) (flags : Flags) :
    OnBus (List UInt8) := do
  let fd ← onlpI2cOpen answers bus addr flags
  let rdata ← readBlocks answers fd flags size.toNat size.toNat offset []
  let _ ← kernel answers (.close fd)
  pure rdata

/-- `onlp_i2c_readb`: the byte read. -/
def onlpI2cReadb (bus : Int) (addr offset : UInt8) (flags : Flags) : OnBus Int := do
  let rdata ← onlpI2cRead answers bus addr offset 1 flags
  pure (rdata.headD 0).toNat

/-- A call between open and close, whose answer is handed on. -/
def transaction (bus : Int) (addr : UInt8) (flags : Flags) (c : Int → Call) : OnBus Int := do
  let fd ← onlpI2cOpen answers bus addr flags
  let rv ← kernel answers (c fd)
  let _ ← kernel answers (.close fd)
  if rv.rv < 0 then throw rv.rv else pure rv.rv

/-- `onlp_i2c_readw`. -/
def onlpI2cReadw (bus : Int) (addr offset : UInt8) (flags : Flags) : OnBus Int :=
  transaction answers bus addr flags fun fd => .readWord fd offset

/-! ## Writes, tried once -/

/-- The loop of `onlp_i2c_write`. -/
def writeBytes (fd : Int) : UInt8 → List UInt8 → OnBus Unit
  | _, [] => pure ()
  | offset, byte :: data => do
      let rv ← kernel answers (.writeByte fd offset byte)
      if rv.rv < 0 then fail answers fd statusI2c
      else writeBytes fd (offset + 1) data

/-- `onlp_i2c_write`, of all the bytes of `data`. -/
def onlpI2cWrite (bus : Int) (addr offset : UInt8) (data : List UInt8) (flags : Flags) :
    OnBus Unit := do
  let fd ← onlpI2cOpen answers bus addr flags
  writeBytes answers fd offset data
  let _ ← kernel answers (.close fd)
  pure ()

/-- `onlp_i2c_writeb`: a write of one byte. -/
def onlpI2cWriteb (bus : Int) (addr offset byte : UInt8) (flags : Flags) : OnBus Unit :=
  onlpI2cWrite answers bus addr offset [byte] flags

/-- `onlp_i2c_writew`. -/
def onlpI2cWritew (bus : Int) (addr offset : UInt8) (word : UInt16) (flags : Flags) : OnBus Int :=
  transaction answers bus addr flags fun fd => .writeWord fd offset word

end

/-! ## Requests to a mux: selecting a channel, and deselecting -/

/-- A request to a mux that was sent: the channel, and whether the write came through. -/
structure Request where
  /-- The mux it was sent to. -/
  mux : MuxDevice
  /-- The channel asked for. -/
  channel : Int
  /-- The write came through. -/
  written : Bool
  deriving DecidableEq

/-- The request to a mux, if the event is one. -/
def Event.request? : Event → Option Request
  | .mux dev channel written => some ⟨dev, channel, written⟩
  | .call _ _ => none

/-- The requests of what has happened on a bus. -/
def Bus.requests (s : Bus) : List Request := s.trace.filterMap Event.request?

/-! ## Transactions send no request -/

/-- The program sends no request to a mux. -/
def Quiet {α : Type} (p : OnBus α) : Prop := ∀ rs, Keeps (fun s : Bus => s.requests = rs) p

section

variable {answers : Nat → Answer} {α : Type}

/-- A call of the kernel is no request to a mux. -/
theorem quiet_kernel (c : Call) : Quiet (kernel answers c) := by
  intro rs s hs
  show (s.trace ++ [Event.call c (answers s.calls).rv]).filterMap Event.request? = rs
  rw [List.filterMap_append]
  exact (List.append_nil _).trans hs

/-- Giving up asks no mux. -/
theorem quiet_fail (fd status : Int) : Quiet (fail answers fd status : OnBus α) := fun rs =>
  keeps_bind (quiet_kernel _ rs) fun _ => keeps_throw _ _

/-- Opening the bus asks no mux. -/
theorem quiet_open (bus : Int) (addr : UInt8) (flags : Flags) :
    Quiet (onlpI2cOpen answers bus addr flags) := by
  intro rs
  refine keeps_bind (quiet_kernel _ rs) fun fd => keeps_ite (keeps_throw _ _) ?_
  refine keeps_bind (quiet_kernel _ rs) fun _ => keeps_ite (quiet_fail _ _ rs) ?_
  refine keeps_bind (quiet_kernel _ rs) fun _ => keeps_ite (quiet_fail _ _ rs) ?_
  exact keeps_bind (quiet_kernel _ rs) fun _ => keeps_ite (quiet_fail _ _ rs) (keeps_pure _ _)

/-- Trying again asks no mux, by induction on the tries. -/
theorem quiet_retry (c : Call) : ∀ (retries : Nat) (rv : Answer), Quiet (retry answers c retries rv)
  | 0, _, _ => keeps_pure _ _
  | retries + 1, _, rs =>
      keeps_ite (keeps_bind (quiet_kernel _ rs) fun rv => quiet_retry c retries rv rs)
        (keeps_pure _ _)

/-- Reading byte by byte asks no mux, by induction on the count. -/
theorem quiet_readBytes (fd : Int) (flags : Flags) : ∀ (count : Nat) (offset : UInt8)
    (rdata : List UInt8), Quiet (readBytes answers fd flags count offset rdata)
  | 0, _, _, _ => keeps_pure _ _
  | count + 1, _, _, rs =>
      keeps_bind (quiet_retry _ _ _ rs) fun _ =>
        keeps_ite (quiet_fail _ _ rs) (quiet_readBytes fd flags count _ _ rs)

/-- Reading in blocks asks no mux, by induction on the passes. -/
theorem quiet_readBlocks (fd : Int) (flags : Flags) : ∀ (passes count : Nat) (offset : UInt8)
    (rdata : List UInt8), Quiet (readBlocks answers fd flags passes count offset rdata)
  | 0, _, _, _, _ => keeps_pure _ _
  | passes + 1, _, _, _, rs =>
      keeps_ite (keeps_pure _ _) <| keeps_bind (quiet_retry _ _ _ rs) fun _ =>
        keeps_ite (quiet_fail _ _ rs) (quiet_readBlocks fd flags passes _ _ _ rs)

/-- Writing byte by byte asks no mux, by induction on the bytes. -/
theorem quiet_writeBytes (fd : Int) : ∀ (offset : UInt8) (data : List UInt8),
    Quiet (writeBytes answers fd offset data)
  | _, [], _ => keeps_pure _ _
  | _, _ :: data, rs =>
      keeps_bind (quiet_kernel _ rs) fun _ =>
        keeps_ite (quiet_fail _ _ rs) (quiet_writeBytes fd _ data rs)

/-- What a transaction does between open and close, and hands on. -/
theorem quiet_closing {β : Type} {p : Int → OnBus α} (hp : ∀ fd, Quiet (p fd)) {f : α → OnBus β}
    (hf : ∀ a, Quiet (f a)) (bus : Int) (addr : UInt8) (flags : Flags) :
    Quiet (onlpI2cOpen answers bus addr flags >>= fun fd =>
      p fd >>= fun a => kernel answers (.close fd) >>= fun _ => f a) := fun rs =>
  keeps_bind (quiet_open bus addr flags rs) fun fd => keeps_bind (hp fd rs) fun a =>
    keeps_bind (quiet_kernel _ rs) fun _ => hf a rs

/-- What calls nothing is quiet. -/
theorem quiet_pure (a : α) : Quiet (pure a : OnBus α) := fun _ => keeps_pure _ _

/-- **A transfer asks no mux**: that of a write. -/
theorem quiet_write (bus : Int) (addr offset : UInt8) (data : List UInt8) (flags : Flags) :
    Quiet (onlpI2cWrite answers bus addr offset data flags) :=
  quiet_closing (fun fd => quiet_writeBytes fd offset data) quiet_pure bus addr flags

/-- The transfer of a read by bytes asks no mux. -/
theorem quiet_read (bus : Int) (addr offset : UInt8) (size : Int) (flags : Flags) :
    Quiet (onlpI2cRead answers bus addr offset size flags) :=
  quiet_closing (fun fd => quiet_readBytes fd flags _ _ _) quiet_pure bus addr flags

/-- The transfer of a read by blocks asks no mux. -/
theorem quiet_blockRead (bus : Int) (addr offset : UInt8) (size : Int) (flags : Flags) :
    Quiet (onlpI2cBlockRead answers bus addr offset size flags) :=
  quiet_closing (fun fd => quiet_readBlocks fd flags _ _ _ _) quiet_pure bus addr flags

/-- The transfer of a word asks no mux. -/
theorem quiet_transaction (bus : Int) (addr : UInt8) (flags : Flags) (c : Int → Call) :
    Quiet (transaction answers bus addr flags c) :=
  quiet_closing (fun fd => quiet_kernel (c fd))
    (fun _ _ => keeps_ite (keeps_throw _ _) (keeps_pure _ _)) bus addr flags

/-- The result of a program may be changed. -/
theorem quiet_bind_pure {β : Type} {p : OnBus α} (hp : Quiet p) (g : α → β) :
    Quiet (p >>= fun a => pure (g a)) := fun rs => keeps_bind (hp rs) fun _ => keeps_pure _ _

end

end DentOS.I2c
