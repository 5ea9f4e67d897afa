/-
  Which bytes the ONIE decoder reads.

  `onlp_onie_decode` is given the size of its buffer and compares it with the size of the header,
  and with nothing else: totallen decides where the CRC TLV is looked for, the length bytes decide
  where the walk goes, and the codes decide how many bytes are copied out of a value.

  `reads_within_iff` is the exact condition for every read to stay inside a non-empty buffer.  It is
  put together from one statement for each part of the decoder: the header reads fit in any buffer
  that passes the size test (`within_header`), the CRC test reads the TLV in front of the end of the
  block (`ProbeFits`), and the walk reads each TLV it gets to, as far as its code asks
  (`TlvFits`, `within_tlvWalk`).  The condition is one on the buffer: whether a program stays inside
  it cannot depend on what lies behind it (`within_beyond`).
-/
import DentOS.Onie.Checksum

namespace DentOS.Onie

open ReadProg ReadProg.ReadM Relation

/-! ## The header is read inside the buffer -/

/-- A comparison reads no byte behind the string. -/
theorem within_strcmpEq (n : Nat) (m : Mem) : ∀ (s : List UInt8) (i : Nat),
    i + s.length ≤ n → Within n (strcmpEq i s) m
  | [], _, _ => within_pure n true m
  | c :: cs, i, h => by
      rw [List.length_cons] at h
      simp only [strcmpEq, within_bind, within_rd, ↓within_ite, run_rd, within_pure]
      refine ⟨by omega, ?_⟩
      split
      · exact within_strcmpEq n m cs (i + 1) (by omega)
      · trivial

/-- The total length is inside of the header. -/
theorem within_rdTotallen {n : Nat} (h : sizeofHeader ≤ n) (m : Mem) : Within n rdTotallen m := by
  have h11 : sizeofHeader = 11 := rfl
  simp only [rdTotallen, within_bind, within_rd, within_pure, and_true]
  exact ⟨by omega, by omega⟩

/-- The header test reads the header. -/
theorem within_header {n : Nat} (h : sizeofHeader ≤ n) (m : Mem) :
    Within n isValidTlvinfoHeader m := by
  have h11 : sizeofHeader = 11 := rfl
  have hlen : tlvInfoIdString.length = 8 := rfl
  simp only [isValidTlvinfoHeader, within_bind, ↓within_ite, within_rd, within_pure]
  refine ⟨within_strcmpEq n m _ 0 (by omega), ?_⟩
  split
  · refine ⟨by omega, ?_⟩
    split
    · exact ⟨within_rdTotallen h m, trivial⟩
    · trivial
  · trivial

/-! ## The checksum reads what the length says -/

/-- Four bytes are read. -/
theorem within_rdU32 (n i : Nat) (m : Mem) : Within n (rdU32 i) m ↔ i + 4 ≤ n := by
  simp only [rdU32, within_bind, within_rd, within_pure, and_true]
  omega

/-- The CRC TLV, as far as the checksum test reads it: its length only if its type fits, its value
    and the data before it only if its length does too. -/
def ProbeFits (n : Nat) (m : Mem) : Prop :=
  crcProbe m < n ∧
    (m (crcProbe m) = tlvCodeCrc32 → crcProbe m + 1 < n ∧
      (m (crcProbe m + 1) = 4 → blockEnd m ≤ n))

/-- **The check of the checksum** stays inside exactly where the last TLV does. -/
theorem within_checksumValidate {n : Nat} {m : Mem} (hn : sizeofHeader ≤ n) (hh : HeaderOk m) :
    Within n checksumValidate m ↔ ProbeFits n m := by
  have hprobe : sizeofHeader + totallen m - (sizeofTlv + 4) = crcProbe m := rfl
  have hend := crcProbe_add m
  have hdata : sizeofHeader + totallen m - 4 = crcProbe m + 2 := by
    show blockEnd m - 4 = _
    omega
  rw [checksumValidate, within_bind, run_isValidTlvinfoHeader, decide_eq_true hh, if_pos rfl,
    within_bind, run_rdTotallen, within_rd_bind, hprobe, hdata]
  have hheader : Within n isValidTlvinfoHeader m := within_header hn m
  have htotallen : Within n rdTotallen m := within_rdTotallen hn m
  simp only [hheader, htotallen, true_and, ProbeFits]
  by_cases ht : m (crcProbe m) = tlvCodeCrc32
  · rw [if_pos ht, within_rd_bind, within_bind, run_pure]
    by_cases hl : m (crcProbe m + 1) = 4
    · rw [beq_iff_eq.mpr hl, if_pos rfl]
      simp only [ht, hl, within_bind, within_rdBytes, within_rdU32, within_pure, and_true,
        true_and, forall_const]
      omega
    · rw [beq_eq_false_iff_ne.mpr hl, if_neg Bool.false_ne_true]
      simp only [ht, hl, within_pure, and_true, forall_const, false_imp_iff]
  · rw [if_neg ht, within_bind, run_pure, if_neg Bool.false_ne_true]
    simp only [ht, within_pure, and_true, false_imp_iff]

/-! ## The walk over the TLVs, with the values that it reads -/

/-- How many bytes of its value the decoder reads from a TLV: as many as its length says for the
    strings and the vendor extension, and a fixed number for the others. -/
def valueReads (type length : UInt8) : Nat :=
  match caseTlvString type with
  | some _ => length.toNat
  | none =>
      if type = tlvCodeMacBase then 6
      else if type = tlvCodeDeviceVersion then 1
      else if type = tlvCodeMacSize then 2
      else if type = tlvCodeVendorExt then length.toNat
      else if type = tlvCodeCrc32 then 4
      else 0

/-- A TLV of the walk fits below `n`: its type does, and when the type is not reserved, its length
    byte and as much of its value as is read. -/
def TlvFits (n : Nat) (m : Mem) (tlv : Nat) : Prop :=
  tlv < n ∧ (¬ Reserved (m tlv) →
    tlv + (sizeofTlv + valueReads (m tlv) (m (tlv + 1))) ≤ n)

section

variable (listPush : List OnieVx → OnieVx → List OnieVx)

/-- Decoding a TLV, and reading its length to move on. -/
theorem within_decodeTlv (n : Nat) (m : Mem) (info : OnieInfo) (tlv : Nat) :
    (Within n (decodeTlv listPush info tlv) m ∧ tlv + 1 < n) ↔
      tlv + (sizeofTlv + valueReads (m tlv) (m (tlv + 1))) ≤ n := by
  have h2 : sizeofTlv = 2 := rfl
  rw [decodeTlv, within_rd_bind]
  unfold valueReads
  cases hcase : caseTlvString (m tlv) with
  | some member =>
      simp only [↓within_rd_bind, within_bind, within_rdBytes, within_pure, and_true]
      omega
  | none =>
      dsimp only
      split
      · simp only [within_bind, within_rdBytes, within_pure, and_true]
        omega
      split
      · simp only [↓within_rd_bind, within_pure, and_true]
        omega
      split
      · simp only [↓within_rd_bind, within_pure, and_true]
        omega
      split
      · simp only [↓within_rd_bind, within_bind, within_rdBytes, within_pure, and_true]
        omega
      split
      · simp only [within_bind, within_rdU32, within_pure, and_true]
        omega
      · simp only [within_pure, and_true]
        omega

/-- One pass of the walk. -/
theorem within_tlvWalk_step (n : Nat) (m : Mem) (tlvEnd currTlv : Nat) (rv : OnieInfo) :
    Within n (tlvWalk listPush tlvEnd currTlv rv) m ↔
      (currTlv < tlvEnd → TlvFits n m currTlv ∧
        (¬ Reserved (m currTlv) →
          Within n (tlvWalk listPush tlvEnd (nextTlv m currTlv)
            ((decodeTlv listPush rv currTlv).run m)) m)) := by
  rw [tlvWalk_eq]
  by_cases hlt : currTlv < tlvEnd
  · have hvalid : Within n (isValidTlv currTlv) m ↔ currTlv < n := by
      simp only [isValidTlv, within_bind, within_rd, within_pure, and_true]
    have hdec := within_decodeTlv listPush n m rv currTlv
    by_cases hv : Reserved (m currTlv)
    · simp only [hlt, if_true, within_bind, hvalid, run_isValidTlv, hv, not_true_eq_false,
        decide_false, Bool.false_eq_true, if_false, within_pure, and_true, TlvFits, false_imp_iff,
        forall_const]
    · simp only [hlt, if_true, within_bind, hvalid, run_isValidTlv, hv, not_false_eq_true,
        decide_true, within_rd, run_rd, TlvFits, forall_const, ← hdec, nextTlv, and_assoc]
  · simp only [hlt, if_false, within_pure, false_imp_iff]

/-- **The reads of the walk**: every TLV it gets to fits.  Induction on the bytes left, as for its
    return code. -/
theorem within_tlvWalk (n : Nat) (m : Mem) (tlvEnd : Nat) : ∀ (k currTlv : Nat) (rv : OnieInfo),
    tlvEnd - currTlv ≤ k →
    (Within n (tlvWalk listPush tlvEnd currTlv rv) m ↔
      ∀ tlv, ReflTransGen (TlvHop m tlvEnd) currTlv tlv → tlv < tlvEnd → TlvFits n m tlv) := by
  intro k
  induction k with
  | zero =>
      intro currTlv rv hk
      rw [within_tlvWalk_step]
      refine ⟨fun _ tlv htlv hlt => ?_, fun _ hlt => ?_⟩
      · have := le_of_hops htlv
        omega
      · omega
  | succ k ih =>
      intro currTlv rv hk
      have hup := lt_nextTlv m currTlv
      rw [within_tlvWalk_step]
      by_cases hlt : currTlv < tlvEnd
      · by_cases hv : Reserved (m currTlv)
        · have hstuck : ∀ s', ¬ TlvHop m tlvEnd currTlv s' := fun s' h => h.2.1 hv
          rw [Transition.forall_reached_of_stuck hstuck]
          exact ⟨fun h hlt' => (h hlt').1, fun h hlt' => ⟨h hlt', fun hv' => absurd hv hv'⟩⟩
        · rw [Transition.forall_reached_of_next (tlvHop_iff hlt hv), ← ih _ _ (by omega)]
          exact ⟨fun h => ⟨fun _ => (h hlt).1, (h hlt).2 hv⟩,
            fun h _ => ⟨h.1 hlt, fun _ => h.2⟩⟩
      · have hstuck : ∀ s', ¬ TlvHop m tlvEnd currTlv s' := fun s' h => hlt h.1
        rw [Transition.forall_reached_of_stuck hstuck]
        exact ⟨fun _ h => absurd h hlt, fun _ h => absurd h hlt⟩

/-! ## The decoder as a whole: how far it reads -/

/-- The decoder's reads, for a memory that holds more than a header. -/
theorem within_onlpOnieDecode {n : Nat} (hn : sizeofHeader ≤ n) (rv : OnieInfo) (m : Mem) :
    Within n (onlpOnieDecode listPush rv n) m ↔
      (HeaderOk m → ProbeFits n m ∧ (CrcWrong m ∨
        ∀ tlv, TlvReached m tlv → tlv < blockEnd m → TlvFits n m tlv)) := by
  have h11 : sizeofHeader = 11 := rfl
  have hsize : sizeTooSmall (n : Int) = false := by
    unfold sizeTooSmall
    exact decide_eq_false (by omega)
  unfold onlpOnieDecode
  simp only [hsize, Bool.false_eq_true, if_false, within_bind, within_header hn,
    run_isValidTlvinfoHeader, true_and]
  by_cases hh : HeaderOk m
  · have hv : m 8 = 1 := hh.2.1
    have hsig : Within n (rdBytes 0 8) m := (within_rdBytes n 0 8 m).mpr (Or.inr (by omega))
    have h8 : 8 < n := by omega
    simp only [hh, decide_true, if_true, within_bind, hsig, within_rd, h8, run_rd,
      within_rdTotallen hn, hv, ne_eq, not_true_eq_false, if_false, run_checksumValidate hh,
      within_checksumValidate hn hh, true_and, forall_const, run_rdTotallen]
    refine and_congr_right fun _ => ?_
    by_cases hc : CrcWrong m
    · simp only [hc, if_true, true_or, iff_true]
      exact within_pure n _ m
    · simp only [hc, if_false, not_true_eq_false, false_or]
      exact within_tlvWalk listPush n m _ _ _ _ (Nat.le_refl _)
  · simp only [hh, decide_false, Bool.false_eq_true, if_false, within_pure, false_imp_iff]

end

/-- A program that stays inside a buffer reads the same whatever lies behind the buffer. -/
theorem within_beyond {α : Type} (data : List UInt8) (beyond beyond' : Mem) (p : ReadM α) :
    Within data.length p (bufMem data beyond) → Within data.length p (bufMem data beyond') := by
  intro h i hi
  have hagree : ∀ j ∈ p.trace (bufMem data beyond), bufMem data beyond j = bufMem data beyond' j :=
    fun j hj => by rw [bufMem_of_lt (h j hj), bufMem_of_lt (h j hj)]
  rw [← (run_congr p hagree).2] at hi
  exact h i hi

/-- The condition on a buffer: it is shorter than a header, or its header is not valid, or the CRC
    TLV in front of the end of the block fits and, unless its CRC is wrong, every TLV that the walk
    gets to inside the block fits. -/
def ReadsFit (data : List UInt8) : Prop :=
  let m := bufMem data fun _ => 0
  data.length < sizeofHeader ∨ ¬ HeaderOk m ∨
    (ProbeFits data.length m ∧ (CrcWrong m ∨
      ∀ tlv, TlvReached m tlv → tlv < blockEnd m → TlvFits data.length m tlv))

/-- **Every read stays inside the buffer exactly when** `ReadsFit` holds of it. -/
theorem reads_within_iff (listPush : List OnieVx → OnieVx → List OnieVx) (rv : OnieInfo)
    (data : List UInt8) (beyond : Mem) (hpos : 0 < data.length) :
    Within data.length (onlpOnieDecode listPush rv data.length) (bufMem data beyond) ↔
      ReadsFit data := by
  have hbeyond : Within data.length (onlpOnieDecode listPush rv data.length) (bufMem data beyond) ↔
      Within data.length (onlpOnieDecode listPush rv data.length) (bufMem data fun _ => 0) :=
    ⟨within_beyond data beyond _ _, within_beyond data _ beyond _⟩
  rw [hbeyond]
  unfold ReadsFit
  by_cases hn : sizeofHeader ≤ data.length
  · rw [within_onlpOnieDecode listPush hn]
    constructor
    · intro h
      by_cases hh : HeaderOk (bufMem data fun _ => 0)
      · exact Or.inr (Or.inr (h hh))
      · exact Or.inr (Or.inl hh)
    · rintro (hlt | hh | h) hh'
      · omega
      · exact absurd hh' hh
      · exact h
  · have hlt : data.length < sizeofHeader := Nat.lt_of_not_le hn
    have hsize : sizeTooSmall (data.length : Int) = true := by
      unfold sizeTooSmall
      exact decide_eq_true (by omega)
    refine ⟨fun _ => Or.inl hlt, fun _ => ?_⟩
    unfold onlpOnieDecode
    rw [hsize, if_pos rfl]
    exact within_pure _ _ _

/-- A block without a CRC TLV whose reads all fit. -/
theorem unchecksummedBlock_reads :
    Within unchecksummedBlock.length
      (onlpOnieDecode (fun l x => l ++ [x]) OnieInfo.zero unchecksummedBlock.length)
      (bufMem unchecksummedBlock fun _ => 0) := by
  refine (reads_within_iff _ OnieInfo.zero unchecksummedBlock (fun _ => 0) (by decide)).mpr
    (Or.inr (Or.inr ⟨?_, Or.inr ?_⟩))
  · exact ⟨by decide, fun h => absurd h (by decide)⟩
  · have hhop : ∀ tlv', TlvHop (bufMem unchecksummedBlock fun _ => 0) 14 11 tlv' ↔
        tlv' = nextTlv (bufMem unchecksummedBlock fun _ => 0) 11 :=
      tlvHop_iff (by decide) (by decide)
    show ∀ tlv, ReflTransGen (TlvHop (bufMem unchecksummedBlock fun _ => 0) 14) 11 tlv →
      tlv < 14 → TlvFits 14 (bufMem unchecksummedBlock fun _ => 0) tlv
    rw [Transition.forall_reached_of_next hhop]
    refine ⟨fun _ => ⟨by decide, fun _ => by decide⟩, fun tlv htlv hlt => ?_⟩
    have hge := le_of_hops htlv
    have hnext : nextTlv (bufMem unchecksummedBlock fun _ => 0) 11 = 14 := by decide
    omega

/-- A header alone, with totallen 100: the block it announces is not there. -/
def truncatedBlock : List UInt8 :=
  [0x54, 0x6C, 0x76, 0x49, 0x6E, 0x66, 0x6F, 0x00, 0x01, 0x00, 0x64]

/-- The decoder reads the byte at 105 of a buffer of 11. -/
theorem truncatedBlock_reads :
    ¬ ∀ i ∈ (onlpOnieDecode (fun l x => l ++ [x]) OnieInfo.zero truncatedBlock.length).trace
      (bufMem truncatedBlock fun _ => 0), i < truncatedBlock.length := by
  decide

end DentOS.Onie
