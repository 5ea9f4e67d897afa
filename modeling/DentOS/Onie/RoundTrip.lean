/-
  Encoding a TlvInfo block and decoding it again.

  `encodeBlock` writes a version 1 header, the TLVs in order, and a CRC-32 TLV over everything before
  its value.  The theorem of this file, `decode_encode_iff`, says what `onlp_onie_decode` gets back:
  every member of the info, for every list of TLVs that fits the format, except for one.
  `_hdr_length` is a `uint8_t` that is assigned the 16 bit totallen, so it is right exactly when
  totallen is below 256.

  The induction (`walk_encoded`) is over the list of TLVs: where the memory holds an encoded list,
  the walk decodes the first TLV as `Tlv.apply` says and goes on behind it.  What a list of
  assignments leaves in a member is the last value assigned (`foldl_last`), which gives all members
  but the vendor extensions, which are collected.
-/
import DentOS.Lib.BigEndian
import DentOS.Onie.Bounds

namespace DentOS.Onie

open ReadProg ReadProg.ReadM Relation

/-! ## What is encoded: a list of TLVs, and the block for it -/

/-- A TLV value: its length fits the length byte. -/
abbrev Value := { bytes : List UInt8 // bytes.length ≤ 255 }

/-- A code that is not reserved and that the decoder has no case for. -/
def UnknownCode (code : UInt8) : Prop :=
  ¬ Reserved code ∧ caseTlvString code = none ∧ code ≠ tlvCodeMacBase ∧
    code ≠ tlvCodeDeviceVersion ∧ code ≠ tlvCodeMacSize ∧ code ≠ tlvCodeVendorExt ∧
    code ≠ tlvCodeCrc32

instance (code : UInt8) : Decidable (UnknownCode code) := inferInstanceAs (Decidable (_ ∧ _))

/-- A TLV with a value of the shape that its code asks for. -/
inductive Tlv where
  | string (member : OnieString) (value : Value)
  | macBase (mac : Block 6)
  | macSize (range : UInt16)
  | deviceVersion (version : UInt8)
  | vendorExt (value : Value)
  | unknown (code : { code // UnknownCode code }) (value : Value)

namespace Tlv

/-- The type of a TLV. -/
def code : Tlv → UInt8
  | string member _ => member.code
  | macBase _ => tlvCodeMacBase
  | macSize _ => tlvCodeMacSize
  | deviceVersion _ => tlvCodeDeviceVersion
  | vendorExt _ => tlvCodeVendorExt
  | unknown code _ => code.1

/-- Its value. -/
def value : Tlv → List UInt8
  | string _ value => value.1
  | macBase mac => mac.1
  | macSize range => BigEndian.toBytes 2 range.toNat
  | deviceVersion version => [version]
  | vendorExt value => value.1
  | unknown _ value => value.1

/-- Type, length, value. -/
def encode (t : Tlv) : List UInt8 := t.code :: UInt8.ofNat t.value.length :: t.value

/-- The value a TLV gives a string member. -/
def stringOf (member : OnieString) : Tlv → Option Value
  | string k value => if k = member then some value else none
  | _ => none

/-- The address, if the TLV is one. -/
def macOf : Tlv → Option (Block 6)
  | macBase mac => some mac
  | _ => none

/-- The number of addresses, if the TLV is one. -/
def macSizeOf : Tlv → Option UInt16
  | macSize range => some range
  | _ => none

/-- The device version, if the TLV is one. -/
def deviceVersionOf : Tlv → Option UInt8
  | deviceVersion version => some version
  | _ => none

/-- The vendor extension, if the TLV is one. -/
def vendorExtOf : Tlv → Option (List UInt8)
  | vendorExt value => some value.1
  | _ => none

/-- A value fits behind its length byte. -/
theorem length_value (t : Tlv) : t.value.length ≤ 255 := by
  cases t with
  | string member value => exact value.2
  | macBase mac => exact Nat.le_trans (Nat.le_of_eq mac.2) (by decide)
  | macSize range => exact Nat.le_trans (Nat.le_of_eq (BigEndian.length_toBytes 2 _)) (by decide)
  | deviceVersion version => exact Nat.le_add_left 1 254
  | vendorExt value => exact value.2
  | unknown code value => exact value.2

/-- Type and length, and the value. -/
theorem length_encode (t : Tlv) : t.encode.length = sizeofTlv + t.value.length := by
  rw [encode, List.length_cons, List.length_cons]
  exact Nat.add_comm _ 2

end Tlv

/-- The TLVs in order. -/
def encodeTlvs (tlvs : List Tlv) : List UInt8 := tlvs.flatMap Tlv.encode

/-- totallen: the TLVs and the CRC TLV. -/
def totalLen (tlvs : List Tlv) : Nat := (encodeTlvs tlvs).length + 6

/-- Everything before the stored CRC: header, TLVs, type and length of the CRC TLV. -/
def encodeBody (tlvs : List Tlv) : List UInt8 :=
  (tlvInfoIdString ++ tlvInfoVersion :: BigEndian.toBytes 2 (totalLen tlvs)) ++
    (encodeTlvs tlvs ++ [tlvCodeCrc32, 4])

/-- The whole block, with its CRC-32. -/
def encodeBlock (tlvs : List Tlv) : List UInt8 :=
  encodeBody tlvs ++ BigEndian.toBytes 4 (crc32 (encodeBody tlvs)).toNat

/-! ## What should come back: the assignments, one behind the other -/

/-- The bytes of a vendor extension. -/
def OnieVx.value (vx : OnieVx) : List UInt8 := vx.data.1.take vx.size

/-- The info holds what the TLVs say: for each member the last value of its code, or what the
    zeroed record holds when there is none; the vendor extensions in order; and the CRC. -/
structure Describes (tlvs : List Tlv) (info : OnieInfo) : Prop where
  strings : ∀ member, info.strings member =
    (tlvs.filterMap (Tlv.stringOf member)).getLast?.map fun v => CString.ofValue v.1
  mac : info.mac = (tlvs.filterMap Tlv.macOf).getLast?.getD OnieInfo.zero.mac
  macRange : info.macRange = (tlvs.filterMap Tlv.macSizeOf).getLast?.getD 0
  deviceVersion : info.deviceVersion = (tlvs.filterMap Tlv.deviceVersionOf).getLast?.getD 0
  vxList : info.vxList.map OnieVx.value = tlvs.filterMap Tlv.vendorExtOf
  crc : info.crc.toBitVec = crc32 (encodeBody tlvs)

/-- Decoding the encoded block succeeds, and gives back the TLVs and totallen. -/
def RoundTrips (listPush : List OnieVx → OnieVx → List OnieVx) (rv : OnieInfo) (tlvs : List Tlv)
    (beyond : Mem) : Prop :=
  let r := (onlpOnieDecode listPush rv (encodeBlock tlvs).length).run
    (bufMem (encodeBlock tlvs) beyond)
  r.1 = 0 ∧ Describes tlvs r.2 ∧ r.2.hdrLength.toNat = totalLen tlvs

/-! ## One TLV is decoded to its assignment -/

/-- Every string member has its own line in the switch. -/
theorem caseTlvString_code (member : OnieString) : caseTlvString member.code = some member := by
  cases member <;> rfl

/-- Copying all bytes of a block. -/
theorem Block.copy_self {n : Nat} (b : Block n) : Block.copy n b.1 = b := by
  apply Subtype.ext
  show (b.1 ++ List.replicate n 0).take n = b.1
  rw [List.take_append_of_le_length (Nat.le_of_eq b.2.symm), List.take_of_length_le
    (Nat.le_of_eq b.2)]

/-- The vendor extension that a value is decoded to. -/
def OnieVx.ofValue (value : List UInt8) : OnieVx where
  data := Block.copy 256 value
  size := value.length

/-- A vendor extension keeps its bytes. -/
theorem value_ofValue (v : Value) : (OnieVx.ofValue v.1).value = v.1 := by
  have hv := v.2
  show ((v.1 ++ List.replicate 256 0).take 256).take v.1.length = v.1
  rw [List.take_take, Nat.min_eq_left (by omega), List.take_append_of_le_length (Nat.le_refl _),
    List.take_length]

/-- What decoding a TLV does to the info. -/
def Tlv.apply (listPush : List OnieVx → OnieVx → List OnieVx) (info : OnieInfo) : Tlv → OnieInfo
  | string member value => info.setString member (CString.ofValue value.1)
  | macBase mac => { info with mac := mac }
  | macSize range => { info with macRange := range }
  | deviceVersion version => { info with deviceVersion := version }
  | vendorExt value => { info with vxList := listPush info.vxList (OnieVx.ofValue value.1) }
  | unknown _ _ => info

section

variable (listPush : List OnieVx → OnieVx → List OnieVx) {m : Mem} {tlv : Nat}

/-- Where the memory holds an encoded TLV, its fields are where the decoder looks for them. -/
theorem holds_encode {t : Tlv} (h : Holds m tlv t.encode) :
    m tlv = t.code ∧ (m (tlv + 1)).toNat = t.value.length ∧ Holds m (tlv + 2) t.value := by
  unfold Tlv.encode at h
  rw [holds_cons, holds_cons] at h
  refine ⟨h.1, ?_, h.2.2⟩
  rw [h.2.1, UInt8.toNat_ofNat', Nat.mod_eq_of_lt]
  exact Nat.lt_succ_of_le t.length_value

/-- The types of strings are not reserved. -/
theorem OnieString.not_reserved (member : OnieString) : ¬ Reserved member.code := by
  cases member <;> decide

/-- No TLV of the model has a reserved type. -/
theorem not_reserved_code (t : Tlv) : ¬ Reserved t.code := by
  cases t with
  | string member value => exact member.not_reserved
  | unknown code value => exact code.2.1
  | macBase mac => exact (by decide : ¬ Reserved tlvCodeMacBase)
  | macSize range => exact (by decide : ¬ Reserved tlvCodeMacSize)
  | deviceVersion version => exact (by decide : ¬ Reserved tlvCodeDeviceVersion)
  | vendorExt value => exact (by decide : ¬ Reserved tlvCodeVendorExt)

/-- **Decoding an encoded TLV**, one case for each kind. -/
theorem run_decodeTlv_encode {t : Tlv} (h : Holds m tlv t.encode) (info : OnieInfo) :
    (decodeTlv listPush info tlv).run m = t.apply listPush info := by
  obtain ⟨hcode, hlen, hval⟩ := holds_encode h
  have hvalue : (rdBytes (tlv + 2) (m (tlv + 1)).toNat).run m = t.value := by
    rw [run_rdBytes, hlen]
    exact hval
  rw [decodeTlv, run_rd_bind, hcode]
  cases t with
  | string member value =>
      have hs : caseTlvString (Tlv.string member value).code = some member :=
        caseTlvString_code member
      rw [hs]
      show ReadM.run m (rd (tlv + 1) >>= fun length => rdBytes (tlv + 2) length.toNat >>=
        fun v => pure (info.setString member (CString.ofValue v))) = _
      rw [run_rd_bind, run_bind, hvalue]
      rfl
  | macBase mac =>
      have hmac : (rdBytes (tlv + 2) 6).run m = mac.1 := by
        have hheld : bytesAt m (tlv + 2) mac.1.length = mac.1 := hval
        rwa [mac.2, ← run_rdBytes] at hheld
      show ReadM.run m (rdBytes (tlv + 2) 6 >>= fun v =>
        pure ({ info with mac := Block.copy 6 v } : OnieInfo)) = _
      rw [run_bind, hmac, Block.copy_self]
      rfl
  | macSize range =>
      have hheld : Holds m (tlv + 2) (BigEndian.toBytes 2 range.toNat) := hval
      simp only [BigEndian.toBytes, holds_cons] at hheld
      obtain ⟨h0, h1, -⟩ := hheld
      have hrange : (m (tlv + 2)).toUInt16 <<< 8 ||| (m (tlv + 2 + 1)).toUInt16 = range := by
        apply UInt16.toNat_inj.mp
        rw [BigEndian.ofBytes_two, h0, h1]
        exact BigEndian.ofBytes_toBytes_of_lt (k := 2) range.toNat_lt
      show ({ info with
        macRange := (m (tlv + 2)).toUInt16 <<< 8 ||| (m (tlv + 2 + 1)).toUInt16 } : OnieInfo) = _
      rw [hrange]
      rfl
  | deviceVersion version =>
      have hv : m (tlv + 2) = version := ((holds_cons m _ _ _).mp hval).1
      show ({ info with deviceVersion := m (tlv + 2) } : OnieInfo) = _
      rw [hv]
      rfl
  | vendorExt value =>
      show ReadM.run m (rd (tlv + 1) >>= fun length => rdBytes (tlv + 2) length.toNat >>= fun v =>
        let vx : OnieVx := ⟨Block.copy 256 v, length.toNat⟩
        pure ({ info with vxList := listPush info.vxList vx } : OnieInfo)) = _
      rw [run_rd_bind, run_bind, hvalue, hlen]
      rfl
  | unknown code value =>
      obtain ⟨-, hs, h1, h2, h3, h4, h5⟩ := code.2
      simp only [show (Tlv.unknown code value).code = code.1 from rfl, hs, h1, h2, h3, h4, h5,
        if_false, run_pure]
      rfl

/-! ## The walk over the encoded TLVs -/

/-- **The walk decodes an encoded list** and goes on behind it. -/
theorem walk_encoded (tlvEnd : Nat) : ∀ (tlvs : List Tlv) (tlv : Nat) (rv : OnieInfo),
    Holds m tlv (encodeTlvs tlvs) → tlv + (encodeTlvs tlvs).length ≤ tlvEnd →
    (tlvWalk listPush tlvEnd tlv rv).run m =
      (tlvWalk listPush tlvEnd (tlv + (encodeTlvs tlvs).length)
        (tlvs.foldl (Tlv.apply listPush) rv)).run m := by
  intro tlvs
  induction tlvs with
  | nil => intro tlv rv _ _; rfl
  | cons t ts ih =>
      intro tlv rv hm hend
      have hsplit : encodeTlvs (t :: ts) = t.encode ++ encodeTlvs ts := List.flatMap_cons
      rw [hsplit, holds_append] at hm
      rw [hsplit, List.length_append] at hend ⊢
      obtain ⟨ht, hts⟩ := hm
      obtain ⟨hcode, hlen, -⟩ := holds_encode ht
      have hsz := t.length_encode
      have h2 : sizeofTlv = 2 := rfl
      have hnext : nextTlv m tlv = tlv + t.encode.length := by
        rw [nextTlv, hlen, hsz]
      rw [run_tlvWalk, if_pos (by omega), if_neg (by rw [hcode]; exact not_reserved_code t),
        run_decodeTlv_encode listPush ht, hnext, ih _ _ hts (by omega), List.foldl_cons,
        Nat.add_assoc]

/-! ## What a list of assignments leaves: the last of each field -/

/-- A member that each TLV either assigns or leaves alone ends up with the last value assigned. -/
theorem foldl_last {α : Type} (get : OnieInfo → α) {assigns : Tlv → Option α}
    (h : ∀ info t, get (Tlv.apply listPush info t) = (assigns t).getD (get info)) :
    ∀ (tlvs : List Tlv) (rv : OnieInfo), get (tlvs.foldl (Tlv.apply listPush) rv) =
      (tlvs.filterMap assigns).getLast?.getD (get rv) := by
  intro tlvs
  induction tlvs with
  | nil => intro rv; rfl
  | cons t ts ih =>
      intro rv
      rw [List.foldl_cons, ih, h]
      cases ht : assigns t with
      | none => rw [List.filterMap_cons_none ht, Option.getD_none]
      | some a =>
          rw [List.filterMap_cons_some ht, List.getLast?_cons, Option.getD_some, Option.getD_some]

/-- The last string of a kind counts. -/
theorem foldl_strings (member : OnieString) (tlvs : List Tlv) (rv : OnieInfo)
    (hnone : rv.strings member = none) :
    (tlvs.foldl (Tlv.apply listPush) rv).strings member =
      (tlvs.filterMap (Tlv.stringOf member)).getLast?.map fun v => CString.ofValue v.1 := by
  have hassign : ∀ (info : OnieInfo) (t : Tlv), (t.apply listPush info).strings member =
      ((t.stringOf member).map fun v => some (CString.ofValue v.1)).getD (info.strings member) := by
    intro info t
    cases t with
    | string k value =>
        by_cases hk : k = member
        · rw [hk]
          simp only [Tlv.apply, OnieInfo.setString, Tlv.stringOf, if_true, Option.map_some,
            Option.getD_some]
        · simp only [Tlv.apply, OnieInfo.setString, Tlv.stringOf, if_neg hk,
            if_neg (Ne.symm hk), Option.map_none, Option.getD_none]
    | _ => rfl
  rw [foldl_last listPush (fun info => info.strings member) hassign,
    ← List.map_filterMap, List.getLast?_map, hnone]
  cases (tlvs.filterMap (Tlv.stringOf member)).getLast? <;> rfl

/-- The vendor extensions are collected in order, by induction on the TLVs. -/
theorem foldl_vxList (hpush : ∀ l x, listPush l x = l ++ [x]) : ∀ (tlvs : List Tlv) (rv : OnieInfo),
    (tlvs.foldl (Tlv.apply listPush) rv).vxList.map OnieVx.value =
      rv.vxList.map OnieVx.value ++ tlvs.filterMap Tlv.vendorExtOf := by
  intro tlvs
  induction tlvs with
  | nil => intro rv; exact (List.append_nil _).symm
  | cons t ts ih =>
      intro rv
      rw [List.foldl_cons, ih]
      cases t with
      | vendorExt value =>
          show (listPush rv.vxList (OnieVx.ofValue value.1)).map OnieVx.value ++ _ = _
          rw [hpush, List.map_append, List.map_singleton, value_ofValue, List.append_assoc]
          rfl
      | _ => rfl

/-! ## The encoded block is accepted, and decoded to its list -/

/-- The header, the TLVs, and the two bytes in front of the checksum. -/
theorem length_encodeBody (tlvs : List Tlv) :
    (encodeBody tlvs).length = sizeofHeader + (encodeTlvs tlvs).length + 2 := by
  simp only [encodeBody, List.length_append, List.length_cons, BigEndian.length_toBytes,
    List.length_nil, show tlvInfoIdString.length = 8 from rfl, show sizeofHeader = 11 from rfl]
  omega

/-- The length that is written is the length of what is behind the header. -/
theorem length_encodeBlock (tlvs : List Tlv) :
    (encodeBlock tlvs).length = sizeofHeader + totalLen tlvs := by
  rw [encodeBlock, List.length_append, length_encodeBody, BigEndian.length_toBytes, totalLen,
    Nat.add_assoc, Nat.add_assoc]

/-- What the memory holds where a block has been encoded. -/
structure HoldsBlock (m : Mem) (tlvs : List Tlv) : Prop where
  idString : bytesAt m 0 8 = tlvInfoIdString
  version : m 8 = tlvInfoVersion
  totallen : totallen m = totalLen tlvs
  encoded : Holds m sizeofHeader (encodeTlvs tlvs)
  crcTlv : CrcTlvAt m (sizeofHeader + (encodeTlvs tlvs).length)
  body : bytesAt m 0 (sizeofHeader + (encodeTlvs tlvs).length + 2) = encodeBody tlvs
  storedCrc : (storedCrc m (sizeofHeader + (encodeTlvs tlvs).length)).toBitVec =
    crc32 (encodeBody tlvs)

/-- Four stored big-endian bytes are read back by `rdU32`. -/
theorem storedCrc_of_holds {crc : BitVec 32}
    (h : Holds m (tlv + 2) (BigEndian.toBytes 4 crc.toNat)) : (storedCrc m tlv).toBitVec = crc := by
  have hlt : crc.toNat < 256 ^ 4 := crc.isLt
  rw [← BitVec.toNat_inj, ← BigEndian.ofBytes_toBytes_of_lt hlt]
  simp only [BigEndian.toBytes, holds_cons] at h
  obtain ⟨h0, h1, h2, h3, -⟩ := h
  have hbytes : BigEndian.toBytes 4 crc.toNat =
      [m (tlv + 2), m (tlv + 2 + 1), m (tlv + 2 + 2), m (tlv + 2 + 3)] := by
    rw [h0, h1, show tlv + 2 + 2 = tlv + 2 + 1 + 1 from rfl, h2,
      show tlv + 2 + 3 = tlv + 2 + 1 + 1 + 1 from rfl, h3]
    rfl
  rw [hbytes]
  exact BigEndian.ofBytes_four _ _ _ _

/-- A block in memory holds its parts. -/
theorem holdsBlock {tlvs : List Tlv} (hfit : totalLen tlvs ≤ tlvTotalLenMax)
    (h : Holds m 0 (encodeBlock tlvs)) : HoldsBlock m tlvs := by
  obtain ⟨hbody, hcrc⟩ := (holds_append m _ _ 0).mp h
  rw [length_encodeBody, Nat.zero_add] at hcrc
  have hbody' : bytesAt m 0 (encodeBody tlvs).length = encodeBody tlvs := hbody
  rw [length_encodeBody] at hbody'
  obtain ⟨hheader, hrest⟩ := (holds_append m _ _ 0).mp hbody
  obtain ⟨hid, hversion⟩ := (holds_append m _ _ 0).mp hheader
  obtain ⟨htlvs, hcode⟩ := (holds_append m _ _ _).mp hrest
  rw [holds_cons, holds_cons] at hcode
  rw [holds_cons] at hversion
  obtain ⟨h8, hlen⟩ := hversion
  simp only [BigEndian.toBytes, holds_cons] at hlen
  obtain ⟨h9, h10, -⟩ := hlen
  refine ⟨hid, h8, ?_, htlvs, ⟨hcode.1, hcode.2.1⟩, hbody', storedCrc_of_holds hcrc⟩
  have hmax : tlvTotalLenMax = 2037 := rfl
  have hround : BigEndian.ofBytes (BigEndian.toBytes 2 (totalLen tlvs)) = totalLen tlvs :=
    BigEndian.ofBytes_toBytes_of_lt (k := 2) (by omega)
  simp only [BigEndian.toBytes] at hround
  rw [← h9, ← h10] at hround
  rw [← hround]
  show (m 9).toNat * 256 + (m 10).toNat = (m 9).toNat * 256 ^ 1 + ((m 10).toNat * 256 ^ 0 + 0)
  omega

/-- The last pass of the walk, over the CRC TLV. -/
theorem run_tlvWalk_crc (hcrc : CrcTlvAt m tlv) (rv : OnieInfo) :
    (tlvWalk listPush (tlv + 6) tlv rv).run m = (0, { rv with crc := storedCrc m tlv }) := by
  have hdecode : (decodeTlv listPush rv tlv).run m = { rv with crc := storedCrc m tlv } := by
    rw [decodeTlv, run_rd_bind, hcrc.1]
    rfl
  have hnext : nextTlv m tlv = tlv + 6 := by
    rw [nextTlv, hcrc.2]
    rfl
  have hcode : ¬ Reserved (m tlv) := by
    rw [hcrc.1]
    decide
  rw [run_tlvWalk, if_pos (by omega), if_neg hcode, hdecode, hnext, run_tlvWalk,
    if_neg (Nat.lt_irrefl _)]

/-- **Decoding an encoded block**: success, and the TLVs applied to the header's info. -/
theorem run_onlpOnieDecode_encode {tlvs : List Tlv} (hfit : totalLen tlvs ≤ tlvTotalLenMax)
    (hm : HoldsBlock m tlvs) (rv : OnieInfo) :
    (onlpOnieDecode listPush rv (encodeBlock tlvs).length).run m =
      (0, { tlvs.foldl (Tlv.apply listPush) (headerInfo m) with
        crc := storedCrc m (sizeofHeader + (encodeTlvs tlvs).length) }) := by
  have hsize : sizeTooSmall (encodeBlock tlvs).length = false := by
    rw [length_encodeBlock]
    unfold sizeTooSmall
    exact decide_eq_false (by omega)
  have hheader : HeaderOk m := ⟨hm.idString, hm.version, by rw [hm.totallen]; exact hfit⟩
  have hend : blockEnd m = sizeofHeader + (encodeTlvs tlvs).length + 6 := by
    rw [blockEnd, hm.totallen, totalLen, Nat.add_assoc]
  have hprobe : crcProbe m = sizeofHeader + (encodeTlvs tlvs).length := by
    have := crcProbe_add m
    omega
  have hright : ¬ CrcWrong m := by
    rintro ⟨-, hwrong⟩
    apply hwrong
    rw [hprobe, CrcMatches, hm.storedCrc, hm.body]
  rw [run_onlpOnieDecode listPush rv hsize hheader, if_neg hright, hend,
    walk_encoded listPush _ tlvs _ _ hm.encoded (by omega)]
  exact run_tlvWalk_crc listPush hm.crcTlv _

/-- The last address counts. -/
theorem foldl_mac (tlvs : List Tlv) (rv : OnieInfo) :
    (tlvs.foldl (Tlv.apply listPush) rv).mac = (tlvs.filterMap Tlv.macOf).getLast?.getD rv.mac :=
  foldl_last listPush OnieInfo.mac (fun _ t => by cases t <;> rfl) tlvs rv

/-- The last number of addresses counts. -/
theorem foldl_macRange (tlvs : List Tlv) (rv : OnieInfo) :
    (tlvs.foldl (Tlv.apply listPush) rv).macRange =
      (tlvs.filterMap Tlv.macSizeOf).getLast?.getD rv.macRange :=
  foldl_last listPush OnieInfo.macRange (fun _ t => by cases t <;> rfl) tlvs rv

/-- The last device version counts. -/
theorem foldl_deviceVersion (tlvs : List Tlv) (rv : OnieInfo) :
    (tlvs.foldl (Tlv.apply listPush) rv).deviceVersion =
      (tlvs.filterMap Tlv.deviceVersionOf).getLast?.getD rv.deviceVersion :=
  foldl_last listPush OnieInfo.deviceVersion (fun _ t => by cases t <;> rfl) tlvs rv

/-- Everything but the width of `_hdr_length` comes back. -/
theorem describes_decoded (hpush : ∀ l x, listPush l x = l ++ [x]) {tlvs : List Tlv}
    (hm : HoldsBlock m tlvs) :
    Describes tlvs { tlvs.foldl (Tlv.apply listPush) (headerInfo m) with
      crc := storedCrc m (sizeofHeader + (encodeTlvs tlvs).length) } := by
  constructor
  · intro member
    exact foldl_strings listPush member tlvs (headerInfo m) rfl
  · exact foldl_mac listPush tlvs (headerInfo m)
  · exact foldl_macRange listPush tlvs (headerInfo m)
  · exact foldl_deviceVersion listPush tlvs (headerInfo m)
  · exact foldl_vxList listPush hpush tlvs (headerInfo m)
  · exact hm.storedCrc

/-- No TLV touches `_hdr_length`. -/
theorem foldl_hdrLength (tlvs : List Tlv) (rv : OnieInfo) :
    (tlvs.foldl (Tlv.apply listPush) rv).hdrLength = rv.hdrLength := by
  induction tlvs generalizing rv with
  | nil => rfl
  | cons t ts ih =>
      rw [List.foldl_cons, ih]
      cases t <;> rfl

/-- `_hdr_length` holds the low byte of totallen. -/
theorem hdrLength_decoded {tlvs : List Tlv} (hfit : totalLen tlvs ≤ tlvTotalLenMax)
    (hm : HoldsBlock m tlvs) (rv : OnieInfo) :
    ((onlpOnieDecode listPush rv (encodeBlock tlvs).length).run m).2.hdrLength.toNat =
      totalLen tlvs % 256 := by
  rw [run_onlpOnieDecode_encode listPush hfit hm]
  show (tlvs.foldl (Tlv.apply listPush) (headerInfo m)).hdrLength.toNat = _
  rw [foldl_hdrLength, headerInfo, hm.totallen]
  exact UInt8.toNat_ofNat'

/-- **Decode after encode.**  For every list of TLVs that fits the format, decoding the encoded block
    returns 0 and the info holds what was encoded; `_hdr_length`, a `uint8_t`, holds the totallen
    exactly when that is below 256. -/
theorem decode_encode_iff (hpush : ∀ l x, listPush l x = l ++ [x]) (rv : OnieInfo)
    (tlvs : List Tlv) (beyond : Mem) (hfit : totalLen tlvs ≤ tlvTotalLenMax) :
    RoundTrips listPush rv tlvs beyond ↔ totalLen tlvs < 256 := by
  have hm : HoldsBlock (bufMem (encodeBlock tlvs) beyond) tlvs :=
    holdsBlock hfit (holds_bufMem _ beyond)
  have hlength := hdrLength_decoded listPush hfit hm rv
  constructor
  · rintro ⟨-, -, hback⟩
    rw [hlength] at hback
    have := Nat.mod_lt (totalLen tlvs) (by decide : 0 < 256)
    omega
  · intro hlt
    rw [Nat.mod_eq_of_lt hlt] at hlength
    refine ⟨?_, ?_, hlength⟩
    · rw [run_onlpOnieDecode_encode listPush hfit hm]
    · rw [run_onlpOnieDecode_encode listPush hfit hm]
      exact describes_decoded listPush hpush hm

end

/-- A product name that is given twice, a MAC with its range, a version, two vendor extensions with
    different data, and a code that the format does not know, also twice. -/
def mixedBlock : List Tlv :=
  [.string .productName ⟨[0x41, 0x53], by decide⟩, .macBase ⟨[0x00, 0x11, 0x22, 0x33, 0x44, 0x55], rfl⟩,
    .macSize 256, .vendorExt ⟨[0x01, 0x02, 0x03], by decide⟩, .deviceVersion 7,
    .string .productName ⟨[0x41, 0x53, 0x34], by decide⟩, .unknown ⟨0x50, by decide⟩ ⟨[0xff], by decide⟩,
    .vendorExt ⟨[], by decide⟩, .unknown ⟨0x50, by decide⟩ ⟨[], by decide⟩]

/-- Codes twice, an address, a vendor extension and an unknown code. -/
theorem mixedBlock_roundTrips :
    RoundTrips (fun l x => l ++ [x]) OnieInfo.zero mixedBlock (fun _ => 0) :=
  (decode_encode_iff (fun l x => l ++ [x]) (fun _ _ => rfl) OnieInfo.zero mixedBlock (fun _ => 0)
    (by decide)).mpr (by decide)

/-- One product name, of 248 characters: totallen is 256. -/
def longBlock : List Tlv :=
  [.string .productName ⟨List.replicate 248 0x41, by rw [List.length_replicate]; decide⟩]

/-- A block that fits the format with room to spare, and `_hdr_length` is 0 after decoding it. -/
theorem longBlock_hdrLength : totalLen longBlock ≤ tlvTotalLenMax ∧
    ¬ RoundTrips (fun l x => l ++ [x]) OnieInfo.zero longBlock (fun _ => 0) := by
  have htotal : totalLen longBlock = 256 := by decide +kernel
  have hfit : totalLen longBlock ≤ tlvTotalLenMax := by
    rw [htotal]
    decide
  refine ⟨hfit, ?_⟩
  rintro ⟨-, -, hback⟩
  have hlength := hdrLength_decoded (fun l x => l ++ [x]) hfit
    (holdsBlock hfit (holds_bufMem _ (fun _ => 0))) OnieInfo.zero
  rw [htotal] at hlength hback
  exact absurd (hback.symm.trans hlength) (by decide)

end DentOS.Onie
