/-
  What an accepted ONIE block is known to satisfy.

  `checksum_validate__` is documented to "make sure the last TLV is a CRC-32 TLV" and to compare its
  value with the CRC over the data before it, and the decoder calls it "before attempting to parse".
  The branch that finds no CRC TLV logs an error and then returns 0, the value of a good checksum, so
  a block without a CRC is accepted.  There is a second way past the check: it looks for the CRC TLV
  six bytes before the end of the block, wherever the TLV boundaries are, so that six bytes inside
  the value of a longer TLV can stand in for it.

  `accepts_checksummed_iff` is the exact account: acceptance means what it should precisely for the
  blocks whose walk ends in a CRC TLV (`EndsWithCrcTlv`), or that are rejected for another reason.
-/
import DentOS.Onie.Walk

namespace DentOS.Onie

open ReadProg ReadProg.ReadM Relation

/-- The TLV that ends the block is a CRC-32 TLV of length 4, and its value is the CRC-32 of
    everything from the start of the header up to the stored bytes. -/
def LastTlvChecksummed (m : Mem) : Prop :=
  ∃ tlv, TlvReached m tlv ∧ tlv < blockEnd m ∧ nextTlv m tlv = blockEnd m ∧
    CrcTlvAt m tlv ∧ CrcMatches m tlv

/-- The walk of the block gets to the place where the CRC TLV is looked for, and finds it there. -/
def EndsWithCrcTlv (m : Mem) : Prop := TlvReached m (crcProbe m) ∧ CrcTlvAt m (crcProbe m)

/-- A CRC TLV is six bytes long. -/
theorem nextTlv_of_crcTlvAt {m : Mem} {tlv : Nat} (h : CrcTlvAt m tlv) :
    nextTlv m tlv = tlv + 6 := by
  unfold nextTlv sizeofTlv
  rw [h.2]
  rfl

/-- A CRC TLV that ends the block is where the source looks for it. -/
theorem eq_crcProbe {m : Mem} {tlv : Nat} (hend : nextTlv m tlv = blockEnd m)
    (h : CrcTlvAt m tlv) : tlv = crcProbe m := by
  have hnext := nextTlv_of_crcTlvAt h
  have hprobe := crcProbe_add m
  omega

/-- The property of an accepted block, at the place where the source looks. -/
theorem lastTlvChecksummed_iff (m : Mem) :
    LastTlvChecksummed m ↔ EndsWithCrcTlv m ∧ CrcMatches m (crcProbe m) := by
  constructor
  · rintro ⟨tlv, hreach, -, hend, hcrc, hmatch⟩
    obtain rfl := eq_crcProbe hend hcrc
    exact ⟨⟨hreach, hcrc⟩, hmatch⟩
  · rintro ⟨⟨hreach, hcrc⟩, hmatch⟩
    have hprobe := crcProbe_add m
    exact ⟨crcProbe m, hreach, by omega, by rw [nextTlv_of_crcTlvAt hcrc, hprobe], hcrc, hmatch⟩

/-- **Acceptance means checksummed data exactly when** the block, unless it is rejected for its
    size, its header, a reserved TLV code or a wrong CRC, ends in a CRC TLV. -/
theorem accepts_checksummed_iff (listPush : List OnieVx → OnieVx → List OnieVx) (rv : OnieInfo)
    (size : Int) (m : Mem) :
    (((onlpOnieDecode listPush rv size).run m).1 = 0 → LastTlvChecksummed m) ↔
      (sizeTooSmall size = false → HeaderOk m → NoReservedTlv m →
        CrcWrong m ∨ EndsWithCrcTlv m) := by
  rw [onlpOnieDecode_code_iff, lastTlvChecksummed_iff]
  constructor
  · intro h hs hh hr
    by_cases hc : CrcWrong m
    · exact Or.inl hc
    · exact Or.inr (h ⟨hs, hh, hc, hr⟩).1
  · rintro h ⟨hs, hh, hc, hr⟩
    rcases h hs hh hr with hc' | hends
    · exact absurd hc' hc
    · refine ⟨hends, ?_⟩
      by_cases hm : CrcMatches m (crcProbe m)
      · exact hm
      · exact absurd ⟨hends.2, hm⟩ hc

/-- A header with totallen 3 and one product name TLV, "A": no CRC anywhere. -/
def unchecksummedBlock : List UInt8 :=
  [0x54, 0x6C, 0x76, 0x49, 0x6E, 0x66, 0x6F, 0x00, 0x01, 0x00, 0x03, 0x21, 0x01, 0x41]

/-- The block is as long as its header says, it is accepted, and nothing in it is checksummed: its
    last TLV would have to start inside the header. -/
theorem unchecksummedBlock_accepted :
    let m := bufMem unchecksummedBlock fun _ => 0
    unchecksummedBlock.length = blockEnd m ∧
      ¬ (((onlpOnieDecode (fun l x => l ++ [x]) OnieInfo.zero unchecksummedBlock.length).run m).1 = 0
        → LastTlvChecksummed m) := by
  refine ⟨by decide, fun h => ?_⟩
  have hcode : ((onlpOnieDecode (fun l x => l ++ [x]) OnieInfo.zero unchecksummedBlock.length).run
      (bufMem unchecksummedBlock fun _ => 0)).1 = 0 := by decide
  obtain ⟨tlv, hreach, -, hend, hcrc, -⟩ := h hcode
  have hge : sizeofHeader ≤ tlv := le_of_hops hreach
  have hnext := nextTlv_of_crcTlvAt hcrc
  have hblock : blockEnd (bufMem unchecksummedBlock fun _ => 0) = 14 := by decide
  have h11 : sizeofHeader = 11 := rfl
  omega

end DentOS.Onie
