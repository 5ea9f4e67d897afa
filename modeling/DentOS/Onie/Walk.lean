/-
  What the ONIE decoder computes, read off the memory it decodes.

  `onlp_onie_decode` checks a header, checks a CRC at a place computed from the header's totallen,
  and then walks the TLVs from the end of the header until it has passed totallen bytes.  This file
  says in terms of the memory alone

  * when the header is accepted (`HeaderOk`) and where the block ends (`blockEnd`);
  * where the walk gets to: `TlvHop` is one pass of its loop, and the offsets reached from the end
    of the header are those of the TLVs it decodes (`TlvReached`);
  * what the checksum test finds at the place it looks at (`CrcTlvAt`, `storedCrc`);

  and proves that the return code is 0 exactly when the size and the header pass, no TLV reached has
  a reserved code, and the six bytes before the end of the block are not a CRC TLV with a wrong CRC
  (`onlpOnieDecode_code_iff`).
-/
import DentOS.Lib.Transition
import DentOS.Onie.Decode

namespace DentOS.Onie

open ReadProg ReadProg.ReadM Relation

/-! ## The header in closed form -/

/-- The value of the totallen field. -/
def totallen (m : Mem) : Nat := (m 9).toNat * 256 + (m 10).toNat

/-- The header passes `is_valid_tlvinfo_header__`. -/
def HeaderOk (m : Mem) : Prop :=
  bytesAt m 0 8 = tlvInfoIdString ∧ m 8 = tlvInfoVersion ∧ totallen m ≤ tlvTotalLenMax

instance (m : Mem) : Decidable (HeaderOk m) := inferInstanceAs (Decidable (_ ∧ _ ∧ _))

/-- The first offset behind the TlvInfo block. -/
def blockEnd (m : Mem) : Nat := sizeofHeader + totallen m

@[simp] theorem run_rdTotallen (m : Mem) : rdTotallen.run m = totallen m := rfl

/-- A comparison looks at so many bytes. -/
theorem run_strcmpEq (m : Mem) : ∀ (s : List UInt8) (i : Nat),
    (strcmpEq i s).run m = decide (bytesAt m i s.length = s)
  | [], _ => rfl
  | c :: cs, i => by
      simp only [strcmpEq, run_bind, run_rd, ↓run_ite, run_pure, run_strcmpEq m cs (i + 1),
        List.length_cons, bytesAt_succ, List.cons.injEq]
      by_cases hc : m i = c
      · simp only [hc, if_true, true_and]
      · simp only [hc, if_false, false_and, decide_false]

@[simp] theorem run_isValidTlvinfoHeader (m : Mem) :
    isValidTlvinfoHeader.run m = decide (HeaderOk m) := by
  have hlen : tlvInfoIdString.length = 8 := rfl
  simp only [isValidTlvinfoHeader, run_bind, run_strcmpEq, hlen, ↓run_ite, run_rd, run_rdTotallen,
    run_pure, HeaderOk, decide_eq_true_eq]
  by_cases h1 : bytesAt m 0 8 = tlvInfoIdString
  · by_cases h2 : m 8 = tlvInfoVersion
    · simp only [h1, h2, if_true]
      exact decide_eq_decide.mpr (by simp only [true_and])
    · simp only [h1, h2, if_true, if_false, false_and, and_false, decide_false]
  · simp only [h1, if_false, false_and, decide_false]

/-! ## The hops of the TLV walk: from one code to the next -/

/-- The two type codes `is_valid_tlv__` refuses. -/
def Reserved (type : UInt8) : Prop := type = 0x00 ∨ type = 0xFF

instance (type : UInt8) : Decidable (Reserved type) := inferInstanceAs (Decidable (_ ∨ _))

/-- The offset behind the TLV at `tlv`, by its length byte. -/
def nextTlv (m : Mem) (tlv : Nat) : Nat := tlv + (sizeofTlv + (m (tlv + 1)).toNat)

/-- The next TLV is behind this one. -/
theorem lt_nextTlv (m : Mem) (tlv : Nat) : tlv < nextTlv m tlv := by
  unfold nextTlv sizeofTlv
  omega

/-- One pass of the walk's loop. -/
def TlvHop (m : Mem) (tlvEnd : Nat) (tlv tlv' : Nat) : Prop :=
  tlv < tlvEnd ∧ ¬ Reserved (m tlv) ∧ tlv' = nextTlv m tlv

/-- The walk of the block gets to the offset `tlv`. -/
def TlvReached (m : Mem) (tlv : Nat) : Prop :=
  ReflTransGen (TlvHop m (blockEnd m)) sizeofHeader tlv

/-- No TLV of the walk has a reserved code. -/
def NoReservedTlv (m : Mem) : Prop :=
  ∀ tlv, TlvReached m tlv → tlv < blockEnd m → ¬ Reserved (m tlv)

/-- A hop goes to the next TLV. -/
theorem tlvHop_iff {m : Mem} {tlvEnd tlv : Nat} (hlt : tlv < tlvEnd) (hv : ¬ Reserved (m tlv))
    (tlv' : Nat) : TlvHop m tlvEnd tlv tlv' ↔ tlv' = nextTlv m tlv :=
  ⟨fun h => h.2.2, fun h => ⟨hlt, hv, h⟩⟩

/-- The walk only moves up. -/
theorem le_of_hops {m : Mem} {tlvEnd s tlv : Nat} (h : ReflTransGen (TlvHop m tlvEnd) s tlv) :
    s ≤ tlv := by
  have hkeeps : ∀ o o', s ≤ o → TlvHop m tlvEnd o o' → s ≤ o' := by
    rintro o o' ho ⟨-, -, rfl⟩
    have := lt_nextTlv m o
    omega
  exact Transition.invariant hkeeps h (Nat.le_refl s)

/-! ## The walk accepts exactly where its hops end well -/

@[simp] theorem run_isValidTlv (m : Mem) (tlv : Nat) :
    (isValidTlv tlv).run m = decide (¬ Reserved (m tlv)) := by
  simp only [isValidTlv, run_bind, run_rd, run_pure]
  exact decide_eq_decide.mpr not_or.symm

section

variable (listPush : List OnieVx → OnieVx → List OnieVx)

/-- Any bound that covers the bytes left gives the same walk. -/
theorem tlvLoop_fuel (tlvEnd : Nat) : ∀ (fuel fuel' currTlv : Nat) (rv : OnieInfo),
    tlvEnd - currTlv ≤ fuel → tlvEnd - currTlv ≤ fuel' →
    tlvLoop listPush tlvEnd fuel currTlv rv = tlvLoop listPush tlvEnd fuel' currTlv rv := by
  intro fuel
  induction fuel with
  | zero =>
      intro fuel' currTlv rv h0 _
      cases fuel' with
      | zero => rfl
      | succ f => rw [tlvLoop, tlvLoop, if_neg (by omega : ¬ currTlv < tlvEnd)]
  | succ n ih =>
      intro fuel' currTlv rv h h'
      cases fuel' with
      | zero => rw [tlvLoop, tlvLoop, if_neg (by omega : ¬ currTlv < tlvEnd)]
      | succ f =>
          have hrec : ∀ (rv' : OnieInfo) (length : UInt8),
              tlvLoop listPush tlvEnd n (currTlv + (sizeofTlv + length.toNat)) rv'
                = tlvLoop listPush tlvEnd f (currTlv + (sizeofTlv + length.toNat)) rv' := by
            intro rv' length
            have h2 : sizeofTlv = 2 := rfl
            exact ih f _ rv' (by omega) (by omega)
          simp only [tlvLoop, hrec]

/-- The walk as the `while` loop it is. -/
theorem tlvWalk_eq (tlvEnd currTlv : Nat) (rv : OnieInfo) :
    tlvWalk listPush tlvEnd currTlv rv = (do
      if currTlv < tlvEnd then
        if ← isValidTlv currTlv then
          let rv ← decodeTlv listPush rv currTlv
          let length ← rd (currTlv + 1)
          tlvWalk listPush tlvEnd (currTlv + (sizeofTlv + length.toNat)) rv
        else pure (-1, rv)
      else pure (0, rv)) := by
  by_cases hlt : currTlv < tlvEnd
  · obtain ⟨n, hn⟩ : ∃ n, tlvEnd - currTlv = n + 1 := ⟨tlvEnd - currTlv - 1, by omega⟩
    have hrec : ∀ (rv' : OnieInfo) (length : UInt8),
        tlvLoop listPush tlvEnd n (currTlv + (sizeofTlv + length.toNat)) rv'
          = tlvWalk listPush tlvEnd (currTlv + (sizeofTlv + length.toNat)) rv' := by
      intro rv' length
      have h2 : sizeofTlv = 2 := rfl
      exact tlvLoop_fuel listPush tlvEnd _ _ _ rv' (by omega) (Nat.le_refl _)
    unfold tlvWalk at hrec ⊢
    rw [hn]
    simp only [tlvLoop, hrec]
  · rw [if_neg hlt, tlvWalk, Nat.sub_eq_zero_of_le (Nat.le_of_not_lt hlt)]
    rfl

/-- One pass of the walk, as a value. -/
theorem run_tlvWalk (m : Mem) (tlvEnd currTlv : Nat) (rv : OnieInfo) :
    (tlvWalk listPush tlvEnd currTlv rv).run m =
      if currTlv < tlvEnd then
        if Reserved (m currTlv) then (-1, rv)
        else (tlvWalk listPush tlvEnd (nextTlv m currTlv)
          ((decodeTlv listPush rv currTlv).run m)).run m
      else (0, rv) := by
  rw [tlvWalk_eq]
  by_cases hlt : currTlv < tlvEnd
  · by_cases hv : Reserved (m currTlv)
    · simp only [if_pos hlt, run_bind, run_isValidTlv, ↓run_ite, run_rd, run_pure, hv, not_true,
        decide_false, Bool.false_eq_true, if_true, if_false]
    · simp only [if_pos hlt, run_bind, run_isValidTlv, ↓run_ite, run_rd, run_pure, hv, not_false_iff,
        decide_true, if_true, if_false, nextTlv]
  · simp only [if_neg hlt, run_pure]

/-- The walk returns 0 exactly when it meets no reserved code.  Induction on the bytes left: every
    pass moves up. -/
theorem tlvWalk_code_iff (m : Mem) (tlvEnd : Nat) : ∀ (n currTlv : Nat) (rv : OnieInfo),
    tlvEnd - currTlv ≤ n →
    (((tlvWalk listPush tlvEnd currTlv rv).run m).1 = 0 ↔
      ∀ tlv, ReflTransGen (TlvHop m tlvEnd) currTlv tlv → tlv < tlvEnd → ¬ Reserved (m tlv)) := by
  intro n
  induction n with
  | zero =>
      intro currTlv rv hn
      have hge : ¬ currTlv < tlvEnd := by omega
      rw [run_tlvWalk, if_neg hge]
      refine ⟨fun _ tlv htlv hlt => ?_, fun _ => rfl⟩
      have := le_of_hops htlv
      omega
  | succ n ih =>
      intro currTlv rv hn
      rw [run_tlvWalk]
      by_cases hlt : currTlv < tlvEnd
      · by_cases hv : Reserved (m currTlv)
        · rw [if_pos hlt, if_pos hv]
          exact ⟨fun h => absurd (show (-1 : Int) = 0 from h) (by decide),
            fun h => absurd hv (h currTlv ReflTransGen.refl hlt)⟩
        · have hup := lt_nextTlv m currTlv
          rw [if_pos hlt, if_neg hv, ih _ _ (by omega),
            Transition.forall_reached_of_next (tlvHop_iff hlt hv)]
          exact ⟨fun h => ⟨fun _ => hv, h⟩, fun h => h.2⟩
      · rw [if_neg hlt]
        refine ⟨fun _ tlv htlv hlt' => ?_, fun _ => rfl⟩
        have := le_of_hops htlv
        omega

end

/-! ## The checksum is accepted where it is right, or where there is none -/

/-- The TLV at `tlv` is a CRC-32 TLV of length 4. -/
def CrcTlvAt (m : Mem) (tlv : Nat) : Prop := m tlv = tlvCodeCrc32 ∧ m (tlv + 1) = 4

instance (m : Mem) (tlv : Nat) : Decidable (CrcTlvAt m tlv) :=
  inferInstanceAs (Decidable (_ ∧ _))

/-- Where the source takes the last TLV to be: six bytes before the end of the block. -/
def crcProbe (m : Mem) : Nat := blockEnd m - (sizeofTlv + 4)

/-- The CRC stored in the value of the TLV at `tlv`. -/
def storedCrc (m : Mem) (tlv : Nat) : UInt32 := (rdU32 (tlv + 2)).run m

/-- The CRC stored in the TLV at `tlv` is that of everything before it in the block, from the start
    of the header up to the stored bytes. -/
def CrcMatches (m : Mem) (tlv : Nat) : Prop :=
  (storedCrc m tlv).toBitVec = crc32 (bytesAt m 0 (tlv + 2))

instance (m : Mem) (tlv : Nat) : Decidable (CrcMatches m tlv) :=
  inferInstanceAs (Decidable (_ = _))

/-- The CRC test finds something to compare, and it differs. -/
def CrcWrong (m : Mem) : Prop := CrcTlvAt m (crcProbe m) ∧ ¬ CrcMatches m (crcProbe m)

instance (m : Mem) : Decidable (CrcWrong m) := inferInstanceAs (Decidable (_ ∧ _))

/-- The checksum's TLV is the last six bytes. -/
theorem crcProbe_add (m : Mem) : crcProbe m + 6 = blockEnd m := by
  unfold crcProbe blockEnd sizeofHeader sizeofTlv
  omega

/-- The last comparison of `checksum_validate__`, over `crc32`. -/
theorem calcCrc_ne_iff (m : Mem) :
    onlpCrc32 0 (bytesAt m 0 (blockEnd m - 4)) ≠ storedCrc m (crcProbe m)
      ↔ ¬ CrcMatches m (crcProbe m) := by
  have hlen : blockEnd m - 4 = crcProbe m + 2 := by
    have := crcProbe_add m
    omega
  rw [hlen, CrcMatches, ← onlpCrc32_zero, UInt32.toBitVec_inj]
  exact not_congr ⟨Eq.symm, Eq.symm⟩

/-- `checksum_validate__` objects to a wrong CRC, and to nothing else: a block that has no CRC TLV
    where it looks for one gets the same 0 as a block whose CRC is right. -/
theorem run_checksumValidate {m : Mem} (hh : HeaderOk m) :
    checksumValidate.run m = if CrcWrong m then -1 else 0 := by
  have hprobe : sizeofHeader + totallen m - (sizeofTlv + 4) = crcProbe m := rfl
  have hcalc := calcCrc_ne_iff m
  unfold blockEnd storedCrc at hcalc
  simp only [checksumValidate, run_bind, run_isValidTlvinfoHeader, hh, decide_true, if_true,
    run_rdTotallen, run_rd, ↓run_ite, run_rdBytes, run_pure, hprobe, hcalc]
  unfold CrcWrong CrcTlvAt
  by_cases ht : m (crcProbe m) = tlvCodeCrc32
  · by_cases hl : m (crcProbe m + 1) = 4
    · simp [ht, hl]
    · simp [ht, hl]
  · simp [ht]

/-! ## The decoder accepts exactly under the condition on the bytes -/

/-- `*rv` after the header has been read. -/
def headerInfo (m : Mem) : OnieInfo :=
  { OnieInfo.zero with
    hdrIdString := some (CString.ofValue ((bytesAt m 0 8).take 7))
    hdrVersion := m 8
    hdrLength := UInt8.ofNat (totallen m) }

section

variable (listPush : List OnieVx → OnieVx → List OnieVx)

/-- The decoder up to the walk. -/
theorem run_onlpOnieDecode (rv : OnieInfo) {size : Int} (hs : sizeTooSmall size = false)
    {m : Mem} (hh : HeaderOk m) :
    (onlpOnieDecode listPush rv size).run m =
      if CrcWrong m then (-1, headerInfo m)
      else (tlvWalk listPush (blockEnd m) sizeofHeader (headerInfo m)).run m := by
  have hv : m 8 = 1 := hh.2.1
  unfold onlpOnieDecode
  simp only [hs, Bool.false_eq_true, if_false, run_bind, run_isValidTlvinfoHeader, hh,
    decide_true, if_true, ↓run_ite, run_rdBytes, run_rd, run_rdTotallen, hv, ne_eq,
    not_true_eq_false, run_checksumValidate hh]
  by_cases hc : CrcWrong m
  · simp [hc, headerInfo, hv]
  · simp [hc, headerInfo, hv, blockEnd]

/-- **When the decoder accepts**: the size is not too small, the header is valid, the CRC test does
    not object and no TLV has a reserved code. -/
theorem onlpOnieDecode_code_iff (rv : OnieInfo) (size : Int) (m : Mem) :
    ((onlpOnieDecode listPush rv size).run m).1 = 0 ↔
      sizeTooSmall size = false ∧ HeaderOk m ∧ ¬ CrcWrong m ∧ NoReservedTlv m := by
  cases hs : sizeTooSmall size with
  | true => simp [onlpOnieDecode, hs]
  | false =>
      by_cases hh : HeaderOk m
      · rw [run_onlpOnieDecode listPush rv hs hh]
        by_cases hc : CrcWrong m
        · simp [hc]
        · rw [if_neg hc, tlvWalk_code_iff listPush m _ _ _ _ (Nat.le_refl _)]
          exact ⟨fun h => ⟨rfl, hh, hc, h⟩, fun h => h.2.2.2⟩
      · simp [onlpOnieDecode, hs, hh]

end

end DentOS.Onie
