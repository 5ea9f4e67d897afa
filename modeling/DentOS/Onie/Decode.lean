/-
  `onlp_onie_decode` (onlplib/module/src/onie.c): the decoder of the ONIE system EEPROM, a TlvInfo
  header followed by type-length-value entries, the last of which carries a CRC-32.

  The functions are reading programs (`ReadProg.ReadM`) over what lies behind `const uint8_t *data`,
  so the model says both what they return and which bytes they look at.  The short-circuits of the
  source are kept, since they decide which bytes are read: `strcmp` stops at the first difference,
  `&&` and `||` skip their right side, and the value of a TLV is read as its code says, whatever its
  length byte says.

  Not modelled: the log messages, and the null-pointer tests on `rv` and `data`.  `aim_zmalloc` and
  `aim_strdup` succeed.  `list_push` is not part of this repository and is a parameter.
-/
import DentOS.Lib.ReadProg
import DentOS.Onie.Crc32

namespace DentOS.Onie

open ReadProg ReadProg.ReadM

/-! ## Memory blocks of a fixed size -/

/-- A block of `n` bytes. -/
abbrev Block (n : Nat) := { bytes : List UInt8 // bytes.length = n }

/-- A zeroed block of `n` bytes after `memcpy` of `bytes` to its start. -/
def Block.copy (n : Nat) (bytes : List UInt8) : Block n :=
  ⟨(bytes ++ List.replicate n 0).take n, by
    rw [List.length_take, List.length_append, List.length_replicate]
    omega⟩

/-- A heap block that holds a NUL-terminated string. -/
structure CString where
  bytes : List UInt8
  terminated : bytes.getLast? = some 0
  deriving DecidableEq

/-- `aim_zmalloc(length + 1)` and `memcpy` of the `length` bytes of a value. -/
def CString.ofValue (value : List UInt8) : CString := ⟨value ++ [0], List.getLast?_concat⟩

/-! ## The TlvInfo format -/

/-- `TLV_INFO_ID_STRING`, with its NUL. -/
def tlvInfoIdString : List UInt8 := [0x54, 0x6C, 0x76, 0x49, 0x6E, 0x66, 0x6F, 0x00]

/-- The constants of `onie.c`: the version of the block, lengths, and the types that have a field of their
    own. -/
def tlvInfoVersion : UInt8 := 0x01
def tlvInfoMaxLen : Nat := 2048

/-- `sizeof(tlvinfo_header_t)`: signature 0-7, version 8, big-endian totallen 9-10. -/
def sizeofHeader : Nat := 11

/-- `sizeof(tlvinfo_tlv_t)`: type and length; the value follows. -/
def sizeofTlv : Nat := 2

def tlvTotalLenMax : Nat := tlvInfoMaxLen - sizeofHeader

def tlvCodeMacBase : UInt8 := 0x24
def tlvCodeDeviceVersion : UInt8 := 0x26
def tlvCodeMacSize : UInt8 := 0x2A
def tlvCodeVendorExt : UInt8 := 0xFD
def tlvCodeCrc32 : UInt8 := 0xFE

/-- The string members of `onlp_onie_info_t`. -/
inductive OnieString where
  | productName | partNumber | serialNumber | manufactureDate | labelRevision | platformName
  | onieVersion | manufacturer | countryCode | vendor | serviceTag | diagVersion
  deriving DecidableEq

/-- The TLV code of a string member, as its `CASE_TLV_STRING` line pairs them. -/
def OnieString.code : OnieString → UInt8
  | productName => 0x21
  | partNumber => 0x22
  | serialNumber => 0x23
  | manufactureDate => 0x25
  | labelRevision => 0x27
  | platformName => 0x28
  | onieVersion => 0x29
  | manufacturer => 0x2B
  | countryCode => 0x2C
  | vendor => 0x2D
  | serviceTag => 0x2F
  | diagVersion => 0x2E

/-- The `CASE_TLV_STRING` lines, in order. -/
def OnieString.all : List OnieString :=
  [productName, partNumber, serialNumber, manufactureDate, labelRevision, platformName,
    onieVersion, manufacturer, countryCode, vendor, serviceTag, diagVersion]

/-- The string case of the switch that a type selects. -/
def caseTlvString (type : UInt8) : Option OnieString :=
  OnieString.all.find? fun member => member.code == type

/-- `onlp_onie_vx_t`. -/
structure OnieVx where
  /-- The bytes of the extension. -/
  data : Block 256
  /-- How many of them there are. -/
  size : Nat
  deriving DecidableEq

/-- `onlp_onie_info_t`. -/
structure OnieInfo where
  /-- The fields that are strings. -/
  strings : OnieString → Option CString
  /-- The first MAC address. -/
  mac : Block 6
  /-- The version of the device. -/
  deviceVersion : UInt8
  /-- The number of MAC addresses. -/
  macRange : UInt16
  /-- The checksum. -/
  crc : UInt32
  /-- The vendor extensions. -/
  vxList : List OnieVx
  /-- The id string of the header. -/
  hdrIdString : Option CString
  /-- The version of the header. -/
  hdrVersion : UInt8
  /-- The length that is said in it. -/
  hdrLength : UInt8

/-- `memset(rv, 0, sizeof(*rv)); list_init(&rv->vx_list)`. -/
def OnieInfo.zero : OnieInfo where
  strings := fun _ => none
  mac := Block.copy 6 []
  deviceVersion := 0
  macRange := 0
  crc := 0
  vxList := []
  hdrIdString := none
  hdrVersion := 0
  hdrLength := 0

/-- Free a string member and put a new block in its place. -/
def OnieInfo.setString (info : OnieInfo) (member : OnieString) (s : CString) : OnieInfo :=
  { info with strings := fun k => if k = member then some s else info.strings k }

/-! ## The header, and what is asked of it -/

/-- `ntohs(data_hdr->totallen)`. -/
def rdTotallen : ReadM Nat := do
  let hi ← rd 9
  let lo ← rd 10
  pure (hi.toNat * 256 + lo.toNat)

/-- `strcmp(data + i, s) == 0` for a literal `s` given with its NUL. -/
def strcmpEq : Nat → List UInt8 → ReadM Bool
  | _, [] => pure true
  | i, c :: cs => do
      let b ← rd i
      if b = c then strcmpEq (i + 1) cs else pure false

/-- `is_valid_tlvinfo_header`. -/
def isValidTlvinfoHeader : ReadM Bool := do
  if ← strcmpEq 0 tlvInfoIdString then
    let version ← rd 8
    if version = tlvInfoVersion then
      let totallen ← rdTotallen
      pure (totallen ≤ tlvTotalLenMax)
    else pure false
  else pure false

/-! ## One TLV, by its code -/

/-- The type code is not reserved. -/
def isValidTlv (tlv : Nat) : ReadM Bool := do
  let type ← rd tlv
  pure (type ≠ 0x00 ∧ type ≠ 0xFF)

/-- `(v[0] << 24) | (v[1] << 16) | (v[2] << 8) | v[3]`. -/
def rdU32 (i : Nat) : ReadM UInt32 := do
  let v0 ← rd i
  let v1 ← rd (i + 1)
  let v2 ← rd (i + 2)
  let v3 ← rd (i + 3)
  pure ((v0.toUInt32 <<< 24) ||| (v1.toUInt32 <<< 16) ||| (v2.toUInt32 <<< 8) ||| v3.toUInt32)

section

variable (listPush : List OnieVx → OnieVx → List OnieVx)

/-- `decode_tlv`: one TLV into its field. -/
def decodeTlv (info : OnieInfo) (tlv : Nat) : ReadM OnieInfo := do
  let type ← rd tlv
  match caseTlvString type with
  | some member =>
      let length ← rd (tlv + 1)
      let value ← rdBytes (tlv + 2) length.toNat
      pure (info.setString member (CString.ofValue value))
  | none =>
      if type = tlvCodeMacBase then
        let value ← rdBytes (tlv + 2) 6
        pure { info with mac := Block.copy 6 value }
      else if type = tlvCodeDeviceVersion then
        let v0 ← rd (tlv + 2)
        pure { info with deviceVersion := v0 }
      else if type = tlvCodeMacSize then
        let v0 ← rd (tlv + 2)
        let v1 ← rd (tlv + 2 + 1)
        pure { info with macRange := (v0.toUInt16 <<< 8) ||| v1.toUInt16 }
      else if type = tlvCodeVendorExt then
        let length ← rd (tlv + 1)
        let value ← rdBytes (tlv + 2) length.toNat
        let vx : OnieVx := { data := Block.copy 256 value, size := length.toNat }
        pure { info with vxList := listPush info.vxList vx }
      else if type = tlvCodeCrc32 then
        let crc ← rdU32 (tlv + 2)
        pure { info with crc := crc }
      else
        pure info

/-! ## The checksum, the walk over the TLVs, and the decoder -/

/-- `checksum_validate`. -/
def checksumValidate : ReadM Int := do
  if ← isValidTlvinfoHeader then
    let totallen ← rdTotallen
    let crc := sizeofHeader + totallen - (sizeofTlv + 4)
    let type ← rd crc
    -- `type != CRC_32 || length != 4`: the length is read only when the type fits
    let isCrc ← if type = tlvCodeCrc32 then do
        let length ← rd (crc + 1)
        pure (length == 4)
      else pure false
    if isCrc then
      let bytes ← rdBytes 0 (sizeofHeader + totallen - 4)
      let calcCrc := onlpCrc32 0 bytes
      let storedCrc ← rdU32 (crc + 2)
      pure (if calcCrc ≠ storedCrc then -1 else 0)
    else
      -- "ONIE CRC TLV is invalid.", and the same return value as for a good checksum
      pure 0
  else
    pure 0

/-- `while (curr_tlv < tlv_end)`.  A pass moves `curr_tlv` on by at least two, so a bound of
    `tlv_end - curr_tlv` passes is never what stops the loop (`tlvWalk_eq`). -/
def tlvLoop (tlvEnd : Nat) : Nat → Nat → OnieInfo → ReadM (Int × OnieInfo)
  | 0, _, rv => pure (0, rv)
  | fuel + 1, currTlv, rv => do
      if currTlv < tlvEnd then
        if ← isValidTlv currTlv then
          let rv ← decodeTlv listPush rv currTlv
          let length ← rd (currTlv + 1)
          tlvLoop tlvEnd fuel (currTlv + (sizeofTlv + length.toNat)) rv
        else pure (-1, rv)
      else pure (0, rv)

/-- The TLV walk, with as many passes as it can need. -/
def tlvWalk (tlvEnd currTlv : Nat) (rv : OnieInfo) : ReadM (Int × OnieInfo) :=
  tlvLoop listPush tlvEnd (tlvEnd - currTlv) currTlv rv

/-- `size && size < sizeof(*data_hdr)`: the comparison is one of `size_t`, so a negative size is
    not below the header's. -/
def sizeTooSmall (size : Int) : Bool := 0 < size ∧ size < sizeofHeader

/-- `onlp_onie_decode(rv, data, size)`: the return code, and `*rv` after the call. -/
def onlpOnieDecode (rv : OnieInfo) (size : Int) : ReadM (Int × OnieInfo) := do
  if sizeTooSmall size then
    pure (-1, rv)
  else if ← isValidTlvinfoHeader then
    -- `aim_strdup(data_hdr->signature)`: the comparison has just found its NUL at index 7
    let signature ← rdBytes 0 8
    let version ← rd 8
    let totallen ← rdTotallen
    let rv := { OnieInfo.zero with
      hdrIdString := some (CString.ofValue (signature.take 7))
      hdrVersion := version
      hdrLength := UInt8.ofNat totallen }
    if version ≠ 1 then
      pure (-1, rv)
    else if (← checksumValidate) ≠ 0 then
      pure (-1, rv)
    else
      tlvWalk listPush (sizeofHeader + totallen) sizeofHeader rv
  else
    pure (-1, OnieInfo.zero)

end

end DentOS.Onie
