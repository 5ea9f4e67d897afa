/-
  The four drivers: which registers they read, and what they print for an attribute.

  dps850 and ym2651y give a refresh up at the first register that cannot be read and print nothing
  before a complete one (`refresh`).  cpr_4011_4mxx and accton_i2c_psu go on with what they have
  (`keepRefresh`), and print it.  The last of them reads its strings with a function of its own, which
  looks at the length first and leaves the array alone when a transfer fails.

  A driver is put together from its files, from those that can be written, and from the data that
  `probe` allocates (`Driver`); `Driver.Step` is one access to it.  The
  layouts are the members of the structs in their order, so that a byte behind an array is a byte of the
  member that follows.
-/
import DentOS.Psu.Driver

namespace DentOS.Psu

open Effects Prog PyText

section

variable (out : Outside) {w : Nat}

/-! ## dps850 -/

namespace Dps850

/-- The files of `dps850`. -/
inductive Attr where
  | psuVIn | psuVOut | psuIIn | psuIOut | psuPIn | psuPOut | psuTemp1Input | psuTemp2Input
  | psuTemp3Input | psuFan1Speed | psuMfrModel | psuMfrSerial
  deriving DecidableEq

/-- `struct dps850_data`, from `chip` on. -/
def layout : Layout := ⟨[.unused, .u8 .voutMode, .u16 .vIn, .u16 .vOut, .u16 .iIn, .u16 .iOut, .u16 .pIn,
  .u16 .pOut, .u16 (.tempInput 0), .u16 (.tempInput 1), .u16 (.tempInput 2), .u16 (.fanSpeed 0),
  .array .mfrModel 16, .array .mfrSerial 16]⟩

/-- Its registers and blocks. -/
def table : Table where
  regsByte := [(0x20, .voutMode)]
  regsWord := [(0x88, .vIn), (0x8b, .vOut), (0x89, .iIn), (0x8c, .iOut), (0x96, .pOut), (0x97, .pIn),
    (0x8d, .tempInput 0), (0x8e, .tempInput 1), (0x8f, .tempInput 2), (0x90, .fanSpeed 0)]
  blocks := [.counted 0x9a .mfrModel true, .counted 0x9e .mfrSerial true]
  layout := layout

/-- `dps850_update_device`. -/
def update (s : Data w) : Data w := updateDevice out (refresh out table) s

/-- `show_linear`. -/
def showLinear (attr : Attr) (s : Data w) : Text :=
  if !s.valid then []
  else
    let value : BitVec 16 × Int := match attr with
      | .psuVIn => (s.field .vIn, 1000)
      | .psuIIn => (s.field .iIn, 1000)
      | .psuIOut => (s.field .iOut, 1000)
      | .psuPIn => (s.field .pIn, 1000)
      | .psuPOut => (s.field .pOut, 1000)
      | .psuTemp1Input => (s.field (.tempInput 0), 1000)
      | .psuTemp2Input => (s.field (.tempInput 1), 1000)
      | .psuTemp3Input => (s.field (.tempInput 2), 1000)
      | .psuFan1Speed => (s.field (.fanSpeed 0), 1)
      | _ => (0, 1000)
    printInt (linearValue value.1 value.2)

/-- `show_ascii`. -/
def showAscii (attr : Attr) (s : Data w) : Text :=
  if !s.valid then []
  else
    match attr with
    | .psuMfrModel => printStr ((s.text .mfrModel).drop 1)
    | .psuMfrSerial => printStr ((s.text .mfrSerial).drop 1)
    | _ => []

/-- `show_vout_by_mode`. -/
def showVoutByMode (s : Data w) : Text :=
  if !s.valid then []
  else printInt (voutValue ((s.field .voutMode).setWidth 8) (s.field .vOut) 1000)

/-- The file of an attribute read, and the data behind that. -/
def read (attr : Attr) (s : Data w) : Text × Data w :=
  let s := update out s
  match attr with
  | .psuVOut => (showVoutByMode s, s)
  | .psuMfrModel => (showAscii attr s, s)
  | .psuMfrSerial => (showAscii attr s, s)
  | _ => (showLinear attr s, s)

end Dps850

/-! ## ym2651y -/

namespace Ym2651y

/-- The chips that `ym2651y` drives. -/
inductive Chip where
  | ym2651 | ym2401 | ym2851 | ym1921 | ypeb1200am
  deriving DecidableEq

/-- The files of `ym2651y`. -/
inductive Attr where
  | psuPowerOn | psuTempFault | psuPowerGood | psuFan1Fault | psuFanDirection | psuOverTemp
  | psuVIn | psuIIn | psuPIn | psuVOut | psuIOut | psuPOut | psuTemp1Input | psuFan1Speed
  | psuFan1DutyCycle | psuPmbusRevision | psuMfrId | psuMfrModel | psuMfrRevision | psuMfrSerial
  | psuMfrVinMin | psuMfrVinMax | psuMfrVoutMin | psuMfrVoutMax | psuMfrIinMax | psuMfrIoutMax
  | psuMfrPinMax | psuMfrPoutMax | psuMfrModelOption
  deriving DecidableEq

/-- `struct ym2651y_data`, from `chip` on. -/
def layout : Layout := ⟨[.unused, .u8 .capability, .u16 .statusWord, .u8 .fanFault, .u8 .overTemp,
  .u16 .vIn, .u16 .iIn, .u16 .pIn, .u16 .vOut, .u16 .iOut, .u16 .pOut, .u8 .voutMode, .unused, .u16 .temp,
  .u16 (.fanSpeed 0), .u16 (.fanDutyCycle 0), .u16 (.fanDutyCycle 1), .array .fanDir 5,
  .u8 .pmbusRevision, .array .mfrId 10, .array .mfrModel 16, .array .mfrModelOpt 8, .array .mfrRevsion 3,
  .array .mfrSerial 21, .u16 .mfrVinMin, .u16 .mfrVinMax, .u16 .mfrIinMax, .u16 .mfrIoutMax,
  .u16 .mfrPinMax, .u16 .mfrPoutMax, .u16 .mfrVoutMin, .u16 .mfrVoutMax]⟩

/-- The byte behind the serial number belongs to the number that follows. -/
example : layout.place .mfrSerial 21 = .low .mfrVinMin := by decide

/-- The strings are read unless the adapter has no block reads. -/
def table (supportI2cBlock : Bool) : Table where
  regsByte := [(0x19, .capability), (0x20, .voutMode), (0x7d, .overTemp), (0x81, .fanFault),
    (0x98, .pmbusRevision)]
  regsWord := [(0x79, .statusWord), (0x88, .vIn), (0x8b, .vOut), (0x89, .iIn), (0x8c, .iOut),
    (0x97, .pIn), (0x96, .pOut), (0x8d, .temp), (0x3b, .fanDutyCycle 0), (0x3c, .fanDutyCycle 1),
    (0x90, .fanSpeed 0), (0xa0, .mfrVinMin), (0xa1, .mfrVinMax), (0xa2, .mfrIinMax),
    (0xa3, .mfrPinMax), (0xa4, .mfrVoutMin), (0xa5, .mfrVoutMax), (0xa6, .mfrIoutMax),
    (0xa7, .mfrPoutMax)]
  blocks := if supportI2cBlock then
      [.fixed 0xc3 .fanDir, .fixed 0x99 .mfrId, .counted 0x9a .mfrModel false,
        .counted 0xd0 .mfrModelOpt false, .fixed 0x9b .mfrRevsion, .counted 0x9e .mfrSerial false]
    else []
  layout := layout

/-- `ym2651y_update_device`. -/
def update (supportI2cBlock : Bool) (s : Data w) : Data w :=
  updateDevice out (refresh out (table supportI2cBlock)) s

/-- The models whose input is measured and whose output voltage has its exponent in `vout_mode`. -/
def byMode (s : Data w) : Bool :=
  startsWith "DPS-850A" ((s.text .mfrModel).drop 1) || startsWith "YM-2851J" ((s.text .mfrModel).drop 1)

/-- `show_byte`. -/
def showByte (attr : Attr) (s : Data w) : Text :=
  if !s.valid then []
  else if attr = .psuPmbusRevision then printInt (s.field .pmbusRevision).toNat
  else printInt 0

/-- `show_word`. -/
def showWord (attr : Attr) (s : Data w) : Text :=
  if !s.valid then []
  else
    match attr with
    | .psuPowerOn => printInt (if s.field .statusWord &&& 0x40 ≠ 0 then 0 else 1)
    | .psuTempFault => printInt ((s.field .statusWord &&& 0x4) >>> 2).toNat
    | .psuPowerGood => printInt (if s.field .statusWord &&& 0x800 ≠ 0 then 0 else 1)
    | _ => []

/-- The register that `show_linear` prints, with its multiplier. -/
def linearOf (s : Data w) : Attr → Option (BitVec 16 × Int)
  | .psuVIn => some (if byMode s then s.field .vIn else 0, 1000)
  | .psuIIn => some (if byMode s then s.field .iIn else 0, 1000)
  | .psuPIn => some (if byMode s then s.field .pIn else 0, 1000)
  | .psuVOut => some (s.field .vOut, 1000)
  | .psuIOut => some (s.field .iOut, 1000)
  | .psuPOut => some (s.field .pOut, 1000)
  | .psuTemp1Input => some (s.field .temp, 1000)
  | .psuFan1Speed => some (s.field (.fanSpeed 0), 1)
  | .psuFan1DutyCycle => some (s.field (.fanDutyCycle 0), 1)
  | .psuMfrVinMin => some (s.field .mfrVinMin, 1000)
  | .psuMfrVinMax => some (s.field .mfrVinMax, 1000)
  | .psuMfrVoutMin => some (s.field .mfrVoutMin, 1000)
  | .psuMfrVoutMax => some (s.field .mfrVoutMax, 1000)
  | .psuMfrPinMax => some (s.field .mfrPinMax, 1000)
  | .psuMfrPoutMax => some (s.field .mfrPoutMax, 1000)
  | .psuMfrIoutMax => some (s.field .mfrIoutMax, 1000)
  | .psuMfrIinMax => some (s.field .mfrIinMax, 1000)
  | _ => none

/-- `show_linear`. -/
def showLinear (attr : Attr) (s : Data w) : Text :=
  if !s.valid then []
  else
    match linearOf s attr with
    | none => []
    | some (value, multiplier) => printInt (linearValue value multiplier)

/-- `show_fan_fault`. -/
def showFanFault (attr : Attr) (s : Data w) : Text :=
  if !s.valid then []
  else printInt ((s.field .fanFault) >>> (if attr = .psuFan1Fault then 7 else 6)).toNat

/-- `show_over_temp`. -/
def showOverTemp (s : Data w) : Text :=
  if !s.valid then [] else printInt ((s.field .overTemp) >>> 7).toNat

/-- `strcpy` to the second byte of `fan_dir`. -/
def strcpyFanDir (str : List UInt8) (s : Data w) : Data w := s.copy layout .fanDir 1 (str ++ [0])

/-- The direction of the fan is a string, except in one family, which has it in two bits. -/
def fanDirection (s : Data w) : Data w :=
  if startsWith "PTT1600" ((s.text .mfrModel).drop 1) then
    let first := (s.text .fanDir).headD 0
    if (first >>> 3) &&& 1 = 0 ∧ (first >>> 4) &&& 1 = 1 then strcpyFanDir [0x41, 0x46, 0x4f] s
    else if (first >>> 3) &&& 1 = 1 ∧ (first >>> 4) &&& 1 = 0 then strcpyFanDir [0x41, 0x46, 0x49] s
    else s
  else s

/-- `show_ascii`, which writes the letters of a fan direction into the data. -/
def showAscii (attr : Attr) (s : Data w) : Text × Data w :=
  if !s.valid then ([], s)
  else
    match attr with
    | .psuFanDirection =>
        let s := fanDirection s
        (printStr ((s.text .fanDir).drop 1), s)
    | .psuMfrId => (printStr ((s.text .mfrId).drop 1), s)
    | .psuMfrModel => (printStr ((s.text .mfrModel).drop 1), s)
    | .psuMfrModelOption => (printStr ((s.text .mfrModelOpt).drop 1), s)
    | .psuMfrRevision => (printStr ((s.text .mfrRevsion).drop 1), s)
    | .psuMfrSerial => (printStr ((s.text .mfrSerial).drop 1), s)
    | _ => ([], s)

/-- `show_vout_by_mode`. -/
def showVoutByMode (attr : Attr) (s : Data w) : Text :=
  if !s.valid then []
  else
    let mantissa : Option (BitVec 16) := match attr with
      | .psuMfrVoutMin => some (s.field .mfrVoutMin)
      | .psuMfrVoutMax => some (s.field .mfrVoutMax)
      | .psuVOut => some (s.field .vOut)
      | _ => none
    match mantissa with
    | none => []
    | some mantissa => printInt (voutValue ((s.field .voutMode).setWidth 8) mantissa 1000)

/-- Which way the output voltage is printed is decided before the refresh. -/
def showVout (chip : Chip) (supportI2cBlock : Bool) (attr : Attr) (s : Data w) : Text × Data w :=
  let s' := update out supportI2cBlock s
  if chip = .ym2401 then (showVoutByMode attr s', s')
  else if byMode s then (showVoutByMode attr s', s')
  else (showLinear attr s', s')

/-- The file of an attribute read, and the data behind that. -/
def read (chip : Chip) (supportI2cBlock : Bool) (attr : Attr) (s : Data w) : Text × Data w :=
  let s' := update out supportI2cBlock s
  match attr with
  | .psuPowerOn => (showWord attr s', s')
  | .psuTempFault => (showWord attr s', s')
  | .psuPowerGood => (showWord attr s', s')
  | .psuFan1Fault => (showFanFault attr s', s')
  | .psuOverTemp => (showOverTemp s', s')
  | .psuPmbusRevision => (showByte attr s', s')
  | .psuVOut => showVout out chip supportI2cBlock attr s
  | .psuMfrVoutMin => showVout out chip supportI2cBlock attr s
  | .psuMfrVoutMax => showVout out chip supportI2cBlock attr s
  | .psuFanDirection => showAscii attr s'
  | .psuMfrId => showAscii attr s'
  | .psuMfrModel => showAscii attr s'
  | .psuMfrModelOption => showAscii attr s'
  | .psuMfrRevision => showAscii attr s'
  | .psuMfrSerial => showAscii attr s'
  | _ => (showLinear attr s', s')

end Ym2651y

/-! ## cpr_4011_4mxx -/

namespace Cpr40114mxx

/-- The files of `cpr_4011_4mxx`. -/
inductive Attr where
  | psuVIn | psuVOut | psuIIn | psuIOut | psuPIn | psuPOut | psuTemp1Input | psuFan1Fault
  | psuFan1DutyCycle | psuFan1Speed
  deriving DecidableEq

/-- `regs_byte`. -/
def regsByte : List (Nat × Field) := [(0x20, .voutMode), (0x81, .fanFault)]

/-- `regs_word`. -/
def regsWord : List (Nat × Field) :=
  [(0x88, .vIn), (0x8b, .vOut), (0x89, .iIn), (0x8c, .iOut), (0x96, .pOut), (0x97, .pIn),
    (0x8d, .tempInput 0), (0x8e, .tempInput 1), (0x3b, .fanDutyCycle 0), (0x3c, .fanDutyCycle 1),
    (0x90, .fanSpeed 0), (0x91, .fanSpeed 1)]

/-- `cpr_4011_4mxx_update_device`. -/
def update (s : Data w) : Data w := updateDevice out (keepRefresh out regsByte regsWord (pure ())) s

/-- The register of an attribute that `show_linear` prints, with its multiplier. -/
def linearOf (s : Data w) : Attr → BitVec 16 × Int
  | .psuVIn => (s.field .vIn, 1000)
  | .psuIIn => (s.field .iIn, 1000)
  | .psuIOut => (s.field .iOut, 1000)
  | .psuPIn => (s.field .pIn, 1000)
  | .psuPOut => (s.field .pOut, 1000)
  | .psuTemp1Input => (s.field (.tempInput 0), 1000)
  | .psuFan1DutyCycle => (s.field (.fanDutyCycle 0), 1)
  | .psuFan1Speed => (s.field (.fanSpeed 0), 1)
  | _ => (0, 1000)

/-- `show_linear`. -/
def showLinear (attr : Attr) (s : Data w) : Text :=
  printInt (linearValue (linearOf s attr).1 (linearOf s attr).2)

/-- `show_fan_fault`. -/
def showFanFault (attr : Attr) (s : Data w) : Text :=
  printInt ((s.field .fanFault) >>> (if attr = .psuFan1Fault then 7 else 6)).toNat

/-- `show_vout`. -/
def showVout (s : Data w) : Text :=
  printInt (voutValue ((s.field .voutMode).setWidth 8) (s.field .vOut) 1000)

/-- The file of an attribute read, and the data behind that. -/
def read (attr : Attr) (s : Data w) : Text × Data w :=
  let s := update out s
  match attr with
  | .psuVOut => (showVout s, s)
  | .psuFan1Fault => (showFanFault attr s, s)
  | _ => (showLinear attr s, s)

end Cpr40114mxx

/-! ## accton_i2c_psu -/

namespace AcctonI2cPsu

/-- `struct accton_i2c_psu_data`, from `vout_mode` on. -/
def layout : Layout := ⟨[.u8 .voutMode, .unused, .u16 .vIn, .u16 .vOut, .u16 .iIn, .u16 .iOut, .u16 .pIn,
  .u16 .pOut, .u16 (.tempInput 0), .u16 (.tempInput 1), .u8 .fanFault, .unused, .u16 (.fanDutyCycle 0),
  .u16 (.fanDutyCycle 1), .u16 (.fanSpeed 0), .u16 (.fanSpeed 1), .u8 .pmbusRevision, .array .mfrId 10,
  .array .mfrModel 16, .array .mfrRevsion 3, .array .mfrSerial 26]⟩

/-- `regs_byte`. -/
def regsByte : List (Nat × Field) := [(0x20, .voutMode), (0x81, .fanFault)]

/-- `regs_word`. -/
def regsWord : List (Nat × Field) :=
  [(0x88, .vIn), (0x8b, .vOut), (0x89, .iIn), (0x8c, .iOut), (0x96, .pOut), (0x97, .pIn),
    (0x8d, .tempInput 0), (0x8e, .tempInput 1), (0x3b, .fanDutyCycle 0), (0x90, .fanSpeed 0),
    (0x91, .fanSpeed 1)]

/-- A packet of the expected length: as much of what is behind its first byte as leaves room for a
zero; the zero is stored in the last byte copied, and in front of the array if there is none. -/
def storeBlock (t : Str) (length : Nat) : Option (List UInt8) → Routine w Bool
  | none => pure false
  | some bytes =>
      if bytes.length ≠ length then pure false
      else
        let length := min (bytes.length - 1) (layout.size t - 1)
        do
          modify fun s => s.copy layout t 0 ((bytes.drop 1).take length)
          modify fun s => s.poke layout t ((length : Int) - 1) 0
          pure true

/-- `accton_i2c_psu_read_block_data`: the length by itself, then the string with its length in front. -/
def readBlockData (command : Nat) (t : Str) : Routine w Bool := do
  match ← smbusRead out command with
  | none => pure false
  | some status =>
      if status % 256 + 1 > 128 then pure false
      else
        let got ← retry (smbusReadBlock out command (UInt8.ofNat (status % 256 + 1))) retryCount
        storeBlock t (status % 256 + 1) got

/-- A string, or `exit`. -/
def fetchString (r : Nat × Str) : Routine w Unit := do
  let ok ← readBlockData out r.1 r.2
  if ok then pure () else throw ()

/-- The strings, in the order they are read. -/
def strings : List (Nat × Str) :=
  [(0x99, .mfrId), (0x9a, .mfrModel), (0x9b, .mfrRevsion), (0x9e, .mfrSerial)]

/-- `accton_i2c_psu_update_device`. -/
def update (s : Data w) : Data w :=
  updateDevice out (keepRefresh out regsByte regsWord (forEach (fetchString out) strings)) s

/-- The files of `accton_i2c_psu`. -/
inductive Attr where
  | psuVIn | psuVOut | psuIIn | psuIOut | psuPIn | psuPOut | psuTemp1Input | psuFan1Fault
  | psuFan1DutyCycle | psuFan1Speed | psuPmbusRevision | psuMfrId | psuMfrModel | psuMfrRevision
  | psuMfrSerial
  deriving DecidableEq

/-- The register of an attribute that `show_linear` prints, with its multiplier. -/
def linearOf (s : Data w) : Attr → BitVec 16 × Int
  | .psuVIn => (s.field .vIn, 1000)
  | .psuIIn => (s.field .iIn, 1000)
  | .psuIOut => (s.field .iOut, 1000)
  | .psuPIn => (s.field .pIn, 1000)
  | .psuPOut => (s.field .pOut, 1000)
  | .psuTemp1Input => (s.field (.tempInput 0), 1000)
  | .psuFan1DutyCycle => (s.field (.fanDutyCycle 0), 1)
  | .psuFan1Speed => (s.field (.fanSpeed 0), 1)
  | _ => (0, 1000)

/-- `show_linear`. -/
def showLinear (attr : Attr) (s : Data w) : Text :=
  printInt (linearValue (linearOf s attr).1 (linearOf s attr).2)

/-- `show_fan_fault`. -/
def showFanFault (attr : Attr) (s : Data w) : Text :=
  printInt ((s.field .fanFault) >>> (if attr = .psuFan1Fault then 7 else 6)).toNat

/-- `show_vout`. -/
def showVout (s : Data w) : Text :=
  printInt (voutValue ((s.field .voutMode).setWidth 8) (s.field .vOut) 1000)

/-- No register is read into `pmbus_revision`. -/
def showByte (attr : Attr) (s : Data w) : Text :=
  if !s.valid then []
  else if attr = .psuPmbusRevision then printInt (s.field .pmbusRevision).toNat
  else printInt 0

/-- `show_ascii`. -/
def showAscii (attr : Attr) (s : Data w) : Text :=
  if !s.valid then []
  else
    match attr with
    | .psuMfrId => printStr (s.text .mfrId)
    | .psuMfrModel => printStr (s.text .mfrModel)
    | .psuMfrRevision => printStr (s.text .mfrRevsion)
    | .psuMfrSerial => printStr (s.text .mfrSerial)
    | _ => []

/-- The file of an attribute read, and the data behind that. -/
def read (attr : Attr) (s : Data w) : Text × Data w :=
  let s := update out s
  match attr with
  | .psuVOut => (showVout s, s)
  | .psuFan1Fault => (showFanFault attr s, s)
  | .psuPmbusRevision => (showByte attr s, s)
  | .psuMfrId => (showAscii attr s, s)
  | .psuMfrModel => (showAscii attr s, s)
  | .psuMfrRevision => (showAscii attr s, s)
  | .psuMfrSerial => (showAscii attr s, s)
  | _ => (showLinear attr s, s)

end AcctonI2cPsu

/-! ## A driver at work -/

/-- A driver with a power supply: its files, those that can be written, and the data at the start. -/
structure Driver (w : Nat) where
  /-- The names of its files. -/
  Attr : Type
  /-- What a file shows, and the data behind the read. -/
  read : Attr → Data w → Text × Data w
  /-- The files that can be written. -/
  stores : List (Text → Data w → Data w)
  /-- The data that `probe` allocates. -/
  probed : Data w

/-- Time goes by, a file is read, or a file is written. -/
inductive Driver.Step (drv : Driver w) : Data w → Data w → Prop where
  | wait (s : Data w) : drv.Step s { s with moment := s.moment + 1 }
  | read (attr : drv.Attr) (s : Data w) : drv.Step s (drv.read attr s).2
  | store (f : Text → Data w → Data w) (hf : f ∈ drv.stores) (buf : Text) (s : Data w) :
      drv.Step s (f buf s)

/-- The driver `dps850`. -/
def dps850 (w : Nat) : Driver w where
  Attr := Dps850.Attr
  read := Dps850.read out
  stores := []
  probed := Data.zero w Dps850.layout

/-- The driver `ym2651y`, for a chip on a bus with or without block reads. -/
def ym2651y (w : Nat) (chip : Ym2651y.Chip) (supportI2cBlock : Bool) : Driver w where
  Attr := Ym2651y.Attr
  read := Ym2651y.read out chip supportI2cBlock
  stores := [setFanDutyCycle out retryCount]
  probed := Data.zero w Ym2651y.layout

/-- The driver `cpr_4011_4mxx`. -/
def cpr40114mxx (w : Nat) : Driver w where
  Attr := Cpr40114mxx.Attr
  read := Cpr40114mxx.read out
  stores := [setFanDutyCycle out 1]
  probed := Data.zero w ⟨[]⟩

/-- The driver `accton_i2c_psu`. -/
def acctonI2cPsu (w : Nat) : Driver w where
  Attr := AcctonI2cPsu.Attr
  read := AcctonI2cPsu.read out
  stores := [setFanDutyCycle out 1]
  probed := Data.zero w AcctonI2cPsu.layout

end

end DentOS.Psu
