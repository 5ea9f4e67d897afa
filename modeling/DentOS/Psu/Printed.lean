/-
  What dps850 and ym2651y print: one snapshot of the power supply, and not an old one.

  `Since` relates the record that a refresh left to the data of the driver later on.  Between two
  refreshes the driver changes two things: the duty cycle of the fan, when it is written, and the
  letters behind the first byte of the fan's direction, when that file is read.  `Kept` says that a record
  that counts is such a later one, and is an invariant of every run (`GivesUp.kept`).

  So a line of text is the line for the record of one refresh (`printed_recent`), with the duty cycle
  written since.  The clock of the kernel is a word, and a record is taken for recent as well when half of
  the range of that word has gone by (`elapsed_le`).
-/
import DentOS.Lib.Transition
import DentOS.Psu.Snapshot

namespace DentOS.Psu

open Effects Prog PyText Relation

variable {out : Outside} {w : Nat}

/-! ## The clock: when a record is due -/

/-- The difference that `time_after` looks at. -/
theorem toInt_difference (L B T : Nat) :
    (BitVec.ofNat w L + BitVec.ofNat w B - BitVec.ofNat w T).toInt
      = ((L : Int) + B - T).bmod (2 ^ w) := by
  have h : BitVec.ofNat w L + BitVec.ofNat w B - BitVec.ofNat w T
      = BitVec.ofInt w ((L : Int) + B - T) := by
    rw [Int.sub_eq_add_neg, BitVec.ofInt_add, BitVec.ofInt_add, BitVec.ofInt_neg, BitVec.ofInt_natCast,
      BitVec.ofInt_natCast, BitVec.ofInt_natCast, BitVec.sub_eq_add_neg]
  rw [h, BitVec.toInt_ofInt]

/-- **The clock**: less than half of its range after `L`, a time that is not after `L + B` is not. -/
theorem elapsed_le {L B T : Nat} (hw : 0 < w) (hB : B < 2 ^ (w - 1)) (hLT : L ≤ T)
    (h : timeAfter (BitVec.ofNat w T) (BitVec.ofNat w L + BitVec.ofNat w B) = false) :
    T - L ≤ B ∨ 2 ^ (w - 1) ≤ T - L := by
  rw [timeAfter, decide_eq_false_iff_not, toInt_difference] at h
  have hpow : (2 : Nat) ^ w = 2 * 2 ^ (w - 1) := by
    rw [← Nat.pow_succ']
    congr 1
    omega
  rw [hpow] at h
  generalize 2 ^ (w - 1) = half at hB h ⊢
  by_cases hhalf : half ≤ T - L
  · exact .inr hhalf
  · rw [Int.bmod_eq_of_le (by push_cast; omega) (by push_cast; omega)] at h
    omega

/-! ## The drivers, and what their files show -/

/-- The drivers that give up, with what they read and what their files show. -/
inductive GivesUp (out : Outside) (w : Nat) :
    (drv : Driver w) → Table → (drv.Attr → Data w → Data w → Shown) → Prop where
  | dps850 : GivesUp out w (dps850 out w) Dps850.table fun attr _ _ => Dps850.shown attr
  | ym2651y (chip : Ym2651y.Chip) (supportI2cBlock : Bool) :
      GivesUp out w (ym2651y out w chip supportI2cBlock) (Ym2651y.table supportI2cBlock) (Ym2651y.shown chip)

variable {drv : Driver w} {tbl : Table} {shown : drv.Attr → Data w → Data w → Shown}

/-- The table of such a driver is sound. -/
theorem GivesUp.sound (h : GivesUp out w drv tbl shown) : tbl.Sound := by
  cases h with
  | dps850 => exact sound_dps850
  | ym2651y chip b => exact sound_ym2651y b

/-- No two strings share an array. -/
theorem GivesUp.apart (h : GivesUp out w drv tbl shown) : (tbl.blocks.map Block.target).Nodup := by
  cases h with
  | dps850 => decide
  | ym2651y chip b => cases b <;> decide

/-- Its only file that is written sets the duty cycle. -/
theorem GivesUp.store (h : GivesUp out w drv tbl shown) {f : Text → Data w → Data w}
    (hf : f ∈ drv.stores) : f = setFanDutyCycle out retryCount := by
  cases h with
  | dps850 => exact absurd hf List.not_mem_nil
  | ym2651y chip b => exact List.mem_singleton.mp hf

/-- `probe` allocates data full of zeros. -/
theorem GivesUp.probed (h : GivesUp out w drv tbl shown) : drv.probed = Data.zero w tbl.layout := by
  cases h <;> rfl

/-- Reading a file refreshes the record, and that of the fan's direction may write letters. -/
theorem GivesUp.read (h : GivesUp out w drv tbl shown) (attr : drv.Attr) (s : Data w) :
    (drv.read attr s).2 = updateDevice out (refresh out tbl) s ∨
      tbl.layout.size .fanDir = 5 ∧
        (drv.read attr s).2 = Ym2651y.fanDirection (updateDevice out (refresh out tbl) s) := by
  cases h with
  | dps850 => exact .inl (Dps850.read_state attr s)
  | ym2651y chip b => exact (Ym2651y.read_state chip b attr s).imp id fun h => ⟨rfl, h⟩

/-- **What is printed** is the line of the file, for the record behind the refresh. -/
theorem GivesUp.text (h : GivesUp out w drv tbl shown) (attr : drv.Attr) {s : Data w}
    (hs : Sized tbl.layout (updateDevice out (refresh out tbl) s)) :
    (drv.read attr s).1 = fileOf (updateDevice out (refresh out tbl) s)
      (shown attr s (updateDevice out (refresh out tbl) s)) := by
  cases h with
  | dps850 => exact Dps850.text_read attr s
  | ym2651y chip b => exact Ym2651y.text_read chip b attr (hs .fanDir)

/-! ## What changes between two refreshes -/

/-- The data is what `r` was, but for the duty cycle, and for letters written for the direction. -/
structure Since (r s : Data w) : Prop where
  valid : s.valid = r.valid
  lastUpdated : s.lastUpdated = r.lastUpdated
  overrun : s.overrun = r.overrun
  time : r.moment ≤ s.moment
  field : ∀ f, f ≠ .fanDutyCycle 0 → s.field f = r.field f
  text : ∀ t, t ≠ .fanDir → s.text t = r.text t
  first : (s.text .fanDir).headD 0 = (r.text .fanDir).headD 0
  letters : Ym2651y.direction r = .string .fanDir → s.text .fanDir = r.text .fanDir

/-- Nothing has changed since. -/
theorem Since.refl (r : Data w) : Since r r :=
  ⟨rfl, rfl, rfl, le_rfl, fun _ _ => rfl, fun _ _ => rfl, rfl, fun _ => rfl⟩

/-- Time goes by, and the duty cycle may be set. -/
theorem Since.later {r s s' : Data w} (h : Since r s) (hvalid : s'.valid = s.valid)
    (hlast : s'.lastUpdated = s.lastUpdated) (hover : s'.overrun = s.overrun) (htime : s.moment ≤ s'.moment)
    (hfield : ∀ f, f ≠ .fanDutyCycle 0 → s'.field f = s.field f) (htext : s'.text = s.text) : Since r s' where
  valid := hvalid.trans h.valid
  lastUpdated := hlast.trans h.lastUpdated
  overrun := hover.trans h.overrun
  time := h.time.trans htime
  field := fun f hf => (hfield f hf).trans (h.field f hf)
  text := fun t ht => htext ▸ h.text t ht
  first := htext ▸ h.first
  letters := fun hdir => htext ▸ h.letters hdir

/-- A direction does not change between two refreshes. -/
theorem Since.direction {r s : Data w} (h : Since r s) : Ym2651y.direction s = Ym2651y.direction r := by
  unfold Ym2651y.direction
  rw [h.text .mfrModel (by decide), h.first]

/-- The direction may be read. -/
theorem Since.fanDirection {r s : Data w} (h : Since r s) (hsize : (s.text .fanDir).length = 5) :
    Since r (Ym2651y.fanDirection s) := by
  rcases Ym2651y.fanDirection_eq hsize with ⟨-, hsame⟩ | ⟨a, b, c, hdir, hset⟩
  · rw [hsame]
    exact h
  · rw [hset]
    refine ⟨h.valid, h.lastUpdated, h.overrun, h.time, h.field, fun t ht => ?_, ?_, fun hr => ?_⟩
    · rw [text_setText_of_ne _ ht]
      exact h.text t ht
    · rw [text_setText]
      exact h.first
    · rw [← h.direction, hdir] at hr
      cases hr

/-- The record of a refresh with the duty cycle that the driver has now. -/
def withDuty (s r : Data w) : Data w := r.setField (.fanDutyCycle 0) (s.field (.fanDutyCycle 0))

/-- The fields are those of the refresh with the duty cycle set. -/
theorem Since.field_eq {r s : Data w} (h : Since r s) : s.field = (withDuty s r).field := by
  funext f
  show s.field f = Function.update r.field (.fanDutyCycle 0) (s.field (.fanDutyCycle 0)) f
  by_cases hf : f = .fanDutyCycle 0
  · subst hf
    rw [Function.update_self]
  · rw [Function.update_of_ne hf]
    exact h.field f hf

/-- **The line is the same** as for the record of the refresh. -/
theorem GivesUp.line (h : GivesUp out w drv tbl shown) (attr : drv.Attr) (before : Data w) {r s : Data w}
    (hsince : Since r s) : (shown attr before s).text s =
      (shown attr before (withDuty s r)).text (withDuty s r) := by
  have htext : ∀ t, t ≠ .fanDir → s.text t = (withDuty s r).text t := hsince.text
  cases h with
  | dps850 =>
      refine Shown.text_congr hsince.field_eq fun t ht => htext t ?_
      rintro rfl
      cases attr <;> cases ht
  | ym2651y chip b =>
      have hmode : Ym2651y.byMode s = Ym2651y.byMode (withDuty s r) := by
        rw [Ym2651y.byMode, htext .mfrModel (by decide), Ym2651y.byMode]
      have hinput : ∀ f, Ym2651y.input s f = Ym2651y.input (withDuty s r) f := fun f => by
        rw [Ym2651y.input, hmode, Ym2651y.input]
      have hdir : Ym2651y.direction s = Ym2651y.direction (withDuty s r) := hsince.direction
      have hshown : Ym2651y.shown chip attr before s = Ym2651y.shown chip attr before (withDuty s r) := by
        cases attr
        case psuVIn | psuIIn | psuPIn => exact hinput _
        case psuFanDirection => exact hdir
        all_goals rfl
      rw [hshown]
      refine Shown.text_congr hsince.field_eq fun t ht => ?_
      by_cases hfan : t = .fanDir
      · -- only the direction shows that array, and then as a string
        subst hfan
        refine hsince.letters ?_
        cases attr
        case psuFanDirection => exact ht
        case psuVIn | psuIIn | psuPIn =>
          exfalso
          revert ht
          show Ym2651y.input _ _ ≠ _
          rw [Ym2651y.input]
          split <;> exact fun h => by cases h
        case psuVOut | psuMfrVoutMin | psuMfrVoutMax =>
          exfalso
          revert ht
          show Ym2651y.voltage _ _ _ ≠ _
          rw [Ym2651y.voltage]
          split <;> exact fun h => by cases h
        all_goals cases ht
      · exact htext t hfan

/-! ## The invariant of a run: the record of one refresh -/

/-- A refresh of a run that began at the moment `start` left the record `r`. -/
def Refreshed (out : Outside) (drv : Driver w) (tbl : Table) (start : Nat) (r : Data w) : Prop :=
  ∃ t, ReflTransGen drv.Step drv.probed t ∧ due out t = true ∧ t.moment = start ∧ r = (refresh out tbl t).2

/-- **The invariant**: a record that counts is the snapshot that a refresh left, which ended when
`last_updated` says. -/
def Kept (out : Outside) (drv : Driver w) (tbl : Table) (s : Data w) : Prop :=
  s.valid = true → s.overrun = false → ∃ start r, Refreshed out drv tbl start r ∧ start ≤ r.moment ∧
    Snapshot out tbl start r ∧ r.lastUpdated = BitVec.ofNat w (out.ticks r.moment) ∧ Since r s

/-- A write to the fan: time goes by, and the duty cycle may be set. -/
theorem setFanDutyCycle_spec (out : Outside) (tries : Nat) (buf : Text) (s : Data w) :
    Since s (setFanDutyCycle out tries buf s) ∧ (setFanDutyCycle out tries buf s).text = s.text := by
  unfold setFanDutyCycle
  split
  · exact ⟨Since.refl s, rfl⟩
  · split
    · exact ⟨Since.refl s, rfl⟩
    · rename_i speed _ _
      have hfield : ∀ f, f ≠ Field.fanDutyCycle 0 →
          (s.setField (.fanDutyCycle 0) (BitVec.ofInt 16 speed)).field f = s.field f := fun f hf =>
        Function.update_of_ne hf _ _
      rcases retry_spec _ _ tries (s.setField (.fanDutyCycle 0) (BitVec.ofInt 16 speed)) with
        ⟨_, hrun⟩ | ⟨k, _, u, _, hrun⟩
      · simp only [smbusWriteWord]
        rw [hrun]
        exact ⟨(Since.refl s).later rfl rfl rfl (Nat.le_add_right _ _) hfield rfl, rfl⟩
      · simp only [smbusWriteWord]
        rw [hrun]
        exact ⟨(Since.refl s).later rfl rfl rfl (by show s.moment ≤ s.moment + k + 1; omega) hfield rfl, rfl⟩

/-- A refresh, if it is due. -/
theorem sized_update (h : GivesUp out w drv tbl shown) {s : Data w} (hs : Sized tbl.layout s) :
    Sized tbl.layout (updateDevice out (refresh out tbl) s) := by
  unfold updateDevice
  split
  · exact (refresh_spec out h.sound h.apart hs).1
  · exact hs

/-- **An update keeps the invariant**, whether it refreshes or not. -/
theorem kept_update (h : GivesUp out w drv tbl shown) {s : Data w}
    (hreached : ReflTransGen drv.Step drv.probed s) (hs : Sized tbl.layout s) (hk : Kept out drv tbl s) :
    Kept out drv tbl (updateDevice out (refresh out tbl) s) := by
  unfold updateDevice
  split
  · next hdue =>
      intro hv hin
      obtain ⟨-, htime, -, ⟨-, hlast, hsnap⟩ | ⟨hnot, -⟩⟩ := refresh_spec out h.sound h.apart hs
      · exact ⟨s.moment, _, ⟨s, hreached, hdue, rfl, rfl⟩, htime, hsnap hin, hlast, Since.refl _⟩
      · rw [hnot] at hv
        cases hv
  · exact hk

/-- Behind the refresh, reading a file changes no more than the letters of the direction. -/
theorem GivesUp.read_since (h : GivesUp out w drv tbl shown) (attr : drv.Attr) {s : Data w}
    (hs : Sized tbl.layout s) : Since (updateDevice out (refresh out tbl) s) (drv.read attr s).2 ∧
      Sized tbl.layout (drv.read attr s).2 ∧
      ∃ text, (drv.read attr s).2 = { updateDevice out (refresh out tbl) s with text := text } := by
  have hu := sized_update h hs
  rcases h.read attr s with heq | ⟨hsize, heq⟩
  · rw [heq]
    exact ⟨Since.refl _, hu, _, rfl⟩
  · have hfan := (hu .fanDir).trans hsize
    rw [heq]
    refine ⟨(Since.refl _).fanDirection hfan, ?_, ?_⟩
    · exact fun t => (Ym2651y.length_fanDirection t).trans (hu t)
    · rcases Ym2651y.fanDirection_eq hfan with ⟨-, hsame⟩ | ⟨a, b, c, -, hset⟩
      · exact ⟨_, hsame⟩
      · exact ⟨_, hset⟩

/-- What is unchanged since a change is unchanged since before it. -/
theorem Since.trans {r s s' : Data w} (h : Since r s) (h' : Since s s') : Since r s' where
  valid := h'.valid.trans h.valid
  lastUpdated := h'.lastUpdated.trans h.lastUpdated
  overrun := h'.overrun.trans h.overrun
  time := h.time.trans h'.time
  field := fun f hf => (h'.field f hf).trans (h.field f hf)
  text := fun t ht => (h'.text t ht).trans (h.text t ht)
  first := h'.first.trans h.first
  letters := fun hdir => (h'.letters (h.direction.trans hdir)).trans (h.letters hdir)

/-- The invariant is kept between two refreshes. -/
theorem Kept.since {s s' : Data w} (hk : Kept out drv tbl s) (h : Since s s') : Kept out drv tbl s' := by
  intro hv hin
  obtain ⟨start, r, hr, hle, hsnap, hlast, hsince⟩ := hk (h.valid ▸ hv) (h.overrun ▸ hin)
  exact ⟨start, r, hr, hle, hsnap, hlast, hsince.trans h⟩

/-- **The invariant.** -/
theorem GivesUp.kept (h : GivesUp out w drv tbl shown) {s : Data w}
    (hs : ReflTransGen drv.Step drv.probed s) : Sized tbl.layout s ∧ Kept out drv tbl s := by
  have hstep : ∀ s s', (ReflTransGen drv.Step drv.probed s ∧ Sized tbl.layout s ∧ Kept out drv tbl s) →
      drv.Step s s' → ReflTransGen drv.Step drv.probed s' ∧ Sized tbl.layout s' ∧ Kept out drv tbl s' := by
    rintro s s' ⟨hreached, hsized, hk⟩ hstep
    refine ⟨hreached.tail hstep, ?_⟩
    cases hstep with
    | wait =>
        exact ⟨hsized, hk.since ((Since.refl s).later rfl rfl rfl (Nat.le_succ _) (fun _ _ => rfl) rfl)⟩
    | read attr =>
        obtain ⟨hsince, hsized', -⟩ := h.read_since attr hsized
        exact ⟨hsized', (kept_update h hreached hsized hk).since hsince⟩
    | store f hf buf =>
        rw [h.store hf]
        obtain ⟨hsince, htext⟩ := setFanDutyCycle_spec out retryCount buf s
        exact ⟨fun t => htext ▸ hsized t, hk.since hsince⟩
  refine (Transition.invariant hstep hs ⟨.refl, ?_, fun hv => ?_⟩).2
  · rw [h.probed]
    exact fun t => List.length_replicate
  · rw [h.probed] at hv
    cases hv

/-- Data that is not due is valid, and young. -/
theorem not_due {s : Data w} (h : due out s = false) :
    s.valid = true ∧
      timeAfter (jiffies out s) (s.lastUpdated + BitVec.ofNat w (out.HZ + out.HZ / 2)) = false := by
  rw [due, Bool.or_eq_false_iff, Bool.not_eq_false'] at h
  exact ⟨h.2, h.1⟩

/-- **What is printed is the line for one snapshot**, a second and a half old at most, or half of the
range of the clock; where nothing is printed, ten transfers in a row have just failed. -/
theorem printed_recent (h : GivesUp out w drv tbl shown) (hw : 0 < w) (hticks : Monotone out.ticks)
    (hHZ : out.HZ + out.HZ / 2 < 2 ^ (w - 1)) {s : Data w} (hs : ReflTransGen drv.Step drv.probed s)
    (attr : drv.Attr) (hin : (drv.read attr s).2.overrun = false) :
    ((drv.read attr s).1 ≠ [] →
        ∃ start r, Refreshed out drv tbl start r ∧ Snapshot out tbl start r ∧ start ≤ r.moment ∧
          r.moment ≤ (drv.read attr s).2.moment ∧
          (drv.read attr s).1 = (shown attr s (withDuty (drv.read attr s).2 r)).text
            (withDuty (drv.read attr s).2 r) ∧
          (out.ticks (drv.read attr s).2.moment - out.ticks r.moment ≤ out.HZ + out.HZ / 2
            ∨ 2 ^ (w - 1) ≤ out.ticks (drv.read attr s).2.moment - out.ticks r.moment))
      ∧ ((drv.read attr s).1 = [] → GaveUp out s.moment (drv.read attr s).2.moment) := by
  obtain ⟨hsized, hkept⟩ := h.kept hs
  obtain ⟨-, -, text, hread⟩ := h.read_since attr hsized
  have hline := h.text attr (sized_update h hsized)
  rw [hread] at hin ⊢
  rw [hline, updateDevice]
  rw [updateDevice] at hin
  by_cases hdue : due out s = true
  · -- a refresh: it has just ended, or has given up
    rw [if_pos hdue] at hin ⊢
    obtain ⟨-, htime, -, ⟨hvalid, -, hsnap⟩ | ⟨hnot, hgave⟩⟩ := refresh_spec out h.sound h.apart hsized
    · refine ⟨fun _ => ⟨s.moment, (refresh out tbl s).2, ⟨s, hs, hdue, rfl, rfl⟩, hsnap hin, htime, le_rfl, ?_,
        .inl ?_⟩, fun hnil => ?_⟩
      · rw [fileOf_valid hvalid]
        exact h.line attr s (Since.refl _)
      · show out.ticks (refresh out tbl s).2.moment - out.ticks (refresh out tbl s).2.moment ≤ _
        omega
      · rw [fileOf_eq_nil.mp hnil] at hvalid
        cases hvalid
    · exact ⟨fun hne => absurd (fileOf_eq_nil.mpr hnot) hne, fun _ => hgave⟩
  · -- no refresh: the record of `s` is what counts
    rw [if_neg hdue] at hin ⊢
    obtain ⟨hvalid, hafter⟩ := not_due (Bool.not_eq_true _ ▸ hdue)
    obtain ⟨start, r, hr, hle, hsnap, hlast, hsince⟩ := hkept hvalid hin
    refine ⟨fun _ => ⟨start, r, hr, hsnap, hle, hsince.time, ?_, ?_⟩, fun hnil => ?_⟩
    · rw [fileOf_valid hvalid]
      exact h.line attr s hsince
    · rw [hsince.lastUpdated, hlast, jiffies] at hafter
      exact elapsed_le hw hHZ (hticks hsince.time) hafter
    · rw [fileOf_eq_nil.mp hnil] at hvalid
      cases hvalid

/-- A power supply that answers everything. -/
def answering : Outside where
  HZ := 250
  ticks := id
  register := fun _ _ => some 0xf003
  block := fun _ _ length => some (List.replicate (min length.toNat 32) 3)
  written := fun _ _ _ => true
  garbage := fun _ => 0
  kstrtol := fun _ => none

/-- The first read of the model. -/
theorem printed_recent_first :
    ∃ start r, Refreshed answering (dps850 answering 64) Dps850.table start r ∧
      Snapshot answering Dps850.table start r ∧ start ≤ r.moment ∧
      r.moment ≤ ((dps850 answering 64).read Dps850.Attr.psuMfrModel (dps850 answering 64).probed).2.moment ∧
      ((dps850 answering 64).read Dps850.Attr.psuMfrModel (dps850 answering 64).probed).1
        = (Shown.string .mfrModel).text
          (withDuty ((dps850 answering 64).read Dps850.Attr.psuMfrModel (dps850 answering 64).probed).2 r) ∧
      (answering.ticks
          ((dps850 answering 64).read Dps850.Attr.psuMfrModel (dps850 answering 64).probed).2.moment
          - answering.ticks r.moment ≤ answering.HZ + answering.HZ / 2
        ∨ 2 ^ (64 - 1) ≤ answering.ticks
            ((dps850 answering 64).read Dps850.Attr.psuMfrModel (dps850 answering 64).probed).2.moment
          - answering.ticks r.moment) :=
  (printed_recent GivesUp.dps850 (by decide) monotone_id (by decide) .refl
    Dps850.Attr.psuMfrModel (by decide +kernel)).1 (by decide +kernel)

end DentOS.Psu
