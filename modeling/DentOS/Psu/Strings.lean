/-
  The strings of a power supply: model, serial number and the like.

  A string comes in a packet, its length first.  dps850 and ym2651y read the length, then the packet up to
  there into an array of the record, and put a zero behind it, whatever the length is.  `strings_spec`
  says when that goes well: exactly if every length leaves room for the byte in front and the zero
  behind, and then the files of these strings say what the power supply sends.

  `Honest` is a power supply that answers a block read with its packet as far as asked, and at most
  with the 32 bytes of a block; transfers may still fail.  A record that counts is a snapshot
  (`GivesUp.kept`), so what is in the arrays follows from what a block read gives (`holds_of_read`), and
  what is left to show is that strings that fit stay inside their arrays (`inBounds_refresh`).
-/
import DentOS.Psu.LastRead

namespace DentOS.Psu

open Effects Prog PyText Relation

/-- Block reads give the packets. -/
structure Honest (out : Outside) (packet : Nat → List UInt8) : Prop where
  long : ∀ command, 32 ≤ (packet command).length
  block : ∀ n command length bytes, out.block n command length = some bytes →
    bytes = (packet command).take (min length.toNat 32)

/-- The length in front of a packet. -/
def count (packet : Nat → List UInt8) (command : Nat) : Nat := ((packet command).headD 0).toNat

/-- The string in a packet. -/
def name (packet : Nat → List UInt8) (command : Nat) : List UInt8 :=
  ((packet command).drop 1).take (count packet command)

/-- Every string with its length in front leaves room for that and for a zero. -/
def Fits (tbl : Table) (packet : Nat → List UInt8) : Prop :=
  ∀ command t clear, .counted command t clear ∈ tbl.blocks → count packet command + 2 ≤ tbl.size t

variable {out : Outside} {w : Nat} {α : Type} {packet : Nat → List UInt8} {l : Layout}

/-! ## What is in an array behind a block read -/

/-- The array of a string has the packet up to the end of the string, and a zero. -/
def Holds (packet : Nat → List UInt8) (command : Nat) (text : List UInt8) : Prop :=
  text.take (count packet command + 2)
    = (packet command).take (count packet command + 1) ++ [0]

/-- An honest packet begins with its count. -/
theorem exists_cons (hp : Honest out packet) (command : Nat) :
    ∃ first rest, packet command = first :: rest := by
  refine List.exists_cons_of_length_pos ?_
  have hlong := hp.long command
  omega

/-- **What is printed of such an array.** -/
theorem Holds.printed (hp : Honest out packet) {command : Nat} {text : List UInt8}
    (h : Holds packet command text) : printStr (text.drop 1) = printStr (name packet command) := by
  obtain ⟨first, rest, hsplit⟩ := exists_cons hp command
  have htext := List.take_append_drop (count packet command + 2) text
  rw [h, hsplit, List.take_succ_cons] at htext
  rw [← htext, name, hsplit]
  show printStr (((rest.take (count packet command) ++ [0])) ++ text.drop _) = _
  rw [List.append_assoc, List.singleton_append, printStr_zero]
  rfl

/-- A block read of so many bytes, at most 32. -/
theorem packet_read (hp : Honest out packet) {n command length : Nat} {bytes : List UInt8}
    (hlength : length < 256) (h : out.block n command (UInt8.ofNat length) = some bytes) :
    bytes = (packet command).take (min length 32) := by
  have hb := hp.block n command _ bytes h
  rwa [UInt8.toNat_ofNat_of_lt' (by show length < 256; exact hlength)] at hb

/-- A block read of one byte: the length. -/
theorem first_read (hp : Honest out packet) {n command : Nat} {first : List UInt8}
    (h : out.block n command 1 = some first) (garbage : UInt8) :
    (first.headD garbage).toNat = count packet command := by
  obtain ⟨b, rest, hsplit⟩ := exists_cons hp command
  have hb := hp.block n command 1 first h
  rw [hsplit] at hb
  have hone : first = [b] := hb
  rw [hone, count, hsplit]
  rfl

/-- **A counted string that was read** leaves room, and is in its array. -/
theorem holds_of_read (hp : Honest out packet) {start stop command : Nat} {t : Str} {clear : Bool}
    {text : List UInt8} (hsmall : l.size t ≤ 32)
    (h : StringRead out start stop l text (.counted command t clear)) :
    count packet command + 2 ≤ l.size t ∧ Holds packet command text := by
  obtain ⟨m, first, garbage, -, hfirst, hroom, n, bytes, rest, -, -, hbytes, hlength, htext⟩ := h
  rw [first_read hp hfirst] at hroom hbytes htext
  have hlong := hp.long command
  have hpacket := packet_read hp (by omega) hbytes
  rw [show min (count packet command + 1) 32 = count packet command + 1 by omega] at hpacket
  have htake : bytes.length = count packet command + 1 := by
    rw [hpacket, List.length_take]
    omega
  obtain ⟨c, rest', hrest⟩ : ∃ c rest', rest = c :: rest' := List.exists_cons_of_length_pos (by omega)
  refine ⟨by omega, ?_⟩
  rw [Holds, htext, hrest, List.set_append_right _ _ (by omega), htake, Nat.sub_self, List.set_cons_zero,
    List.take_append, htake, List.take_of_length_le (by omega),
    show count packet command + 2 - (count packet command + 1) = 1 by omega, hpacket]
  rfl

/-! ## Staying inside: programs that store in bounds -/

/-- Nothing was stored outside an array so far. -/
def InBounds (l : Layout) (s : Data w) : Prop := s.overrun = false ∧ Sized l s

/-- A text that fits its array is copied in bounds. -/
theorem InBounds.copy {s : Data w} (h : InBounds l s) (t : Str) {bytes : List UInt8}
    (hb : bytes.length ≤ l.size t) : InBounds l (s.copy l t 0 bytes) := by
  refine ⟨?_, fun u => length_copy.trans (h.2 u)⟩
  rw [overrun_copy (Nat.zero_le _), h.1, Bool.false_or, decide_eq_false_iff_not]
  omega

/-- A zero that fits its array is stored in bounds. -/
theorem InBounds.poke {s : Data w} (h : InBounds l s) {t : Str} {i : Nat} (hi : i < l.size t) (b : UInt8) :
    InBounds l (s.poke l t i b) := by
  refine ⟨?_, fun u => length_poke.trans (h.2 u)⟩
  rw [overrun_poke, h.1, Bool.false_or, Bool.not_eq_false', decide_eq_true_eq]
  omega

/-- Programs that leave the strings alone. -/
def SameText (p : Routine w α) : Prop :=
  ∀ s, (p s).2.text = s.text ∧ (p s).2.overrun = s.overrun

/-- What leaves the strings alone stays in bounds. -/
theorem SameText.inBounds {p : Routine w α} (h : SameText p) : Keeps (InBounds l) p := fun s hs =>
  ⟨(h s).2.trans hs.1, fun t => by rw [(h s).1]; exact hs.2 t⟩

/-- Transfers leave the strings alone. -/
theorem sameText_retry (answer : Nat → Option α) (call : Option α → Call) (n : Nat) :
    SameText (retry (transfer answer call) n : Routine w (Option α)) := by
  intro s
  rcases retry_spec answer call n s with ⟨_, hrun⟩ | ⟨k, _, a, _, hrun⟩ <;> rw [hrun] <;> exact ⟨rfl, rfl⟩

/-- The read of a register stays in bounds. -/
theorem inBounds_fetch (out : Outside) (w bits : Nat) (r : Nat × Field) :
    Keeps (InBounds l) (fetch out bits r : Routine w Unit) :=
  keeps_bind (sameText_retry _ _ _).inBounds fun got => by
    cases got with
    | none => exact keeps_throw _ ()
    | some status => exact keeps_modify fun s hs => hs

/-- A loop keeps what its body keeps. -/
theorem keeps_forEach {P : Data w → Prop} {β : Type} {body : β → Routine w Unit} : ∀ {bs : List β},
    (∀ b ∈ bs, Keeps P (body b)) → Keeps P (forEach body bs)
  | [], _ => keeps_pure P ()
  | b :: _, h => keeps_bind (h b List.mem_cons_self) fun _ =>
      keeps_forEach fun b' hb' => h b' (List.mem_cons_of_mem b hb')

/-- The packet's bytes, as far as they were asked for, and a zero behind. -/
theorem inBounds_readBlock (hp : Honest out packet) {command : Nat} {t : Str} {length : Nat}
    (hroom : length < l.size t) (hsmall : l.size t ≤ 32) :
    Keeps (InBounds l) (do
      let ok ← readBlock out l command t length
      modify fun s => s.poke l t length 0
      if ok then pure () else throw () : Routine w Unit) := by
  intro s hs
  rcases retry_spec (fun n => out.block n command (UInt8.ofNat length))
      (.block command (UInt8.ofNat length)) retryCount s with ⟨_, hrun⟩ | ⟨k, _, bytes, hbytes, hrun⟩
  · have hread : readBlock out l command t length s
        = (.ok false, s.failed (.block command (UInt8.ofNat length)) retryCount) := by
      rw [readBlock, smbusReadBlock, bind_of_ok hrun]
      rfl
    have hfailed : InBounds l (s.failed (.block command (UInt8.ofNat length)) retryCount) := hs
    rw [bind_of_ok hread]
    exact hfailed.poke hroom 0
  · have hread : readBlock out l command t length s = (.ok true,
        (s.answered (.block command (UInt8.ofNat length)) k bytes).copy l t 0 bytes) := by
      rw [readBlock, smbusReadBlock, bind_of_ok hrun]
      rfl
    have hanswered : InBounds l (s.answered (.block command (UInt8.ofNat length)) k bytes) := hs
    have hlength : bytes.length ≤ l.size t := by
      rw [packet_read hp (by omega) hbytes, List.length_take]
      omega
    rw [bind_of_ok hread]
    exact (hanswered.copy t hlength).poke hroom 0

/-- **A string that fits** stays in its array; one of a fixed length always does. -/
theorem inBounds_fetchBlock (hp : Honest out packet) (hsmall : ∀ t, l.size t ≤ 32) : ∀ {b : Block},
    0 < l.size b.target →
    (∀ command t clear, b = .counted command t clear → count packet command + 2 ≤ l.size t) →
    Keeps (InBounds l) (fetchBlock out l b : Routine w Unit)
  | .fixed command t, hpos, _ => by
      have hroom : l.size t - 1 < l.size t := Nat.sub_one_lt_of_lt hpos
      exact inBounds_readBlock hp hroom (hsmall t)
  | .counted command t clear, _, hfit => by
      refine keeps_bind ?_ fun _ => keeps_bind (fun s hs => hs) fun garbage => ?_
      · cases clear with
        | true => exact keeps_modify fun s hs => hs.copy t (by rw [List.length_replicate])
        | false => exact keeps_pure _ ()
      · intro s hs
        rcases retry_spec (fun n => out.block n command 1) (.block command 1) retryCount s with
          ⟨_, hrun⟩ | ⟨k, _, first, hfirst, hrun⟩
        · rw [smbusReadBlock, bind_of_ok hrun]
          exact hs
        · have hroom := hfit command t clear rfl
          have hanswered : InBounds l (s.answered (.block command 1) k first) := hs
          rw [smbusReadBlock, bind_of_ok hrun]
          have hlength : (first.headD garbage).toNat + 1 < l.size t := by
            rw [first_read hp hfirst]
            omega
          exact inBounds_readBlock hp hlength (hsmall t) _ hanswered

/-- An array for each string, large enough for its zero and no larger than a block. -/
structure Tidy (tbl : Table) : Prop where
  small : ∀ t, tbl.size t ≤ 32
  room : ∀ b ∈ tbl.blocks, 0 < tbl.size b.target

/-- **A refresh, with strings that fit.** -/
theorem inBounds_refresh (hp : Honest out packet) {tbl : Table} (ht : Tidy tbl) (hfit : Fits tbl packet) :
    Keeps (InBounds tbl.layout) (refresh out tbl : Routine w Unit) := by
  refine keeps_bind (keeps_modify fun s hs => hs) fun _ => keeps_bind (keeps_bind ?_ fun _ =>
    keeps_bind ?_ fun _ => ?_) fun _ => keeps_modify fun s hs => hs
  · exact keeps_forEach fun r _ => inBounds_fetch out w 8 r
  · exact keeps_forEach fun r _ => inBounds_fetch out w 16 r
  · refine keeps_forEach fun b hb => inBounds_fetchBlock hp ht.small (ht.room b hb) ?_
    rintro command t clear rfl
    exact hfit command t clear hb

/-! ## Runs of a driver whose strings fit -/

variable {drv : Driver w} {tbl : Table} {shown : drv.Attr → Data w → Data w → Shown}

/-- The arrays of such a driver are tidy. -/
theorem GivesUp.tidy (h : GivesUp out w drv tbl shown) : Tidy tbl := by
  cases h with
  | dps850 => exact ⟨by intro t; cases t <;> decide, by decide⟩
  | ym2651y chip b =>
      cases b
      · exact ⟨by intro t; cases t <;> decide, by decide⟩
      · exact ⟨by intro t; cases t <;> decide, by decide⟩

/-- The direction of the fan has no length in front. -/
theorem GivesUp.not_fanDir (h : GivesUp out w drv tbl shown) {command : Nat} {t : Str} {clear : Bool}
    (hmem : .counted command t clear ∈ tbl.blocks) : t ≠ .fanDir := by
  rintro rfl
  cases h with
  | dps850 => simp [Dps850.table] at hmem
  | ym2651y chip b => cases b <;> simp [Ym2651y.table] at hmem

/-- **With strings that fit**, no byte ever goes outside. -/
theorem GivesUp.inBounds (h : GivesUp out w drv tbl shown) (hp : Honest out packet)
    (hfit : Fits tbl packet) {s : Data w} (hs : ReflTransGen drv.Step drv.probed s) :
    s.overrun = false := by
  have hstep : ∀ s s', InBounds tbl.layout s → drv.Step s s' → InBounds tbl.layout s' := by
    intro s s' hb hstep
    cases hstep with
    | wait => exact hb
    | read attr =>
        obtain ⟨hsince, hsized, -⟩ := h.read_since attr hb.2
        refine ⟨hsince.overrun.trans ?_, hsized⟩
        unfold updateDevice
        split
        · exact (inBounds_refresh hp h.tidy hfit s hb).1
        · exact hb.1
    | store f hf buf =>
        rw [h.store hf]
        obtain ⟨hsince, htext⟩ := setFanDutyCycle_spec out retryCount buf s
        exact ⟨hsince.overrun.trans hb.1, fun t => htext ▸ hb.2 t⟩
  refine (Transition.invariant hstep hs ?_).1
  rw [h.probed]
  exact ⟨rfl, fun t => List.length_replicate⟩

/-- The strings of a record that counts. -/
theorem Kept.holds (hp : Honest out packet) (ht : Tidy tbl) {s : Data w} (hk : Kept out drv tbl s)
    (hvalid : s.valid = true) (hin : s.overrun = false) {command : Nat} {t : Str} {clear : Bool}
    (hmem : .counted command t clear ∈ tbl.blocks) :
    count packet command + 2 ≤ tbl.size t ∧ (t ≠ .fanDir → Holds packet command (s.text t)) := by
  obtain ⟨start, r, -, -, hsnap, -, hsince⟩ := hk hvalid hin
  obtain ⟨hroom, hholds⟩ := holds_of_read hp (ht.small t) (hsnap.strings _ hmem)
  refine ⟨hroom, fun hne => ?_⟩
  rw [hsince.text t hne]
  exact hholds

/-- **The strings of dps850 and ym2651y**: no byte goes outside an array exactly if each string with its
length in front leaves room for its zero, and then its file says what the power supply sends. -/
theorem strings_spec (h : GivesUp out w drv tbl shown) (hp : Honest out packet) {s : Data w}
    (hs : ReflTransGen drv.Step drv.probed s) :
    (s.valid = true → (s.overrun = false ↔ Fits tbl packet)) ∧
      (Fits tbl packet → ∀ command t clear, .counted command t clear ∈ tbl.blocks →
        ∀ attr, (∀ before r, shown attr before r = .string t) →
          (drv.read attr s).1 = if (drv.read attr s).2.valid then printStr (name packet command) else []) := by
  obtain ⟨hsized, hkept⟩ := h.kept hs
  refine ⟨fun hvalid => ⟨fun hin command t clear hmem => ?_, fun hfit => h.inBounds hp hfit hs⟩, ?_⟩
  · exact (hkept.holds hp h.tidy hvalid hin hmem).1
  · intro hfit command t clear hmem attr hattr
    obtain ⟨hsince, -, -⟩ := h.read_since attr hsized
    have hin := h.inBounds hp hfit (hs.tail (Driver.Step.read attr s))
    rw [h.text attr (sized_update h hsized), fileOf, hattr, hsince.valid]
    cases hvalid : (updateDevice out (refresh out tbl) s).valid with
    | false => rfl
    | true =>
        have hholds := ((kept_update h hs hsized hkept).holds hp h.tidy hvalid (hsince.overrun ▸ hin) hmem).2
          (h.not_fanDir hmem)
        exact hholds.printed hp

/-- A device that always answers with one packet is honest. -/
theorem honest_answering : Honest answering fun _ => List.replicate 32 3 := by
  refine ⟨fun _ => by rw [List.length_replicate], fun n command length bytes h => ?_⟩
  cases h
  rw [List.take_replicate]
  congr 1
  omega

/-- Strings of three characters fit, and are printed. -/
theorem strings_spec_three :
    ((dps850 answering 64).read Dps850.Attr.psuMfrModel (dps850 answering 64).probed).1
      = if ((dps850 answering 64).read Dps850.Attr.psuMfrModel (dps850 answering 64).probed).2.valid
        then printStr (name (fun _ => List.replicate 32 3) 0x9a) else [] := by
  refine (strings_spec GivesUp.dps850 honest_answering ReflTransGen.refl).2 ?_ 0x9a .mfrModel true
    (List.mem_cons_self) Dps850.Attr.psuMfrModel fun _ _ => rfl
  intro command t clear hmem
  rcases List.mem_cons.mp hmem with heq | hmem
  · cases heq
    decide
  · cases List.mem_singleton.mp hmem
    decide

end DentOS.Psu
