/-
  Transfers and chunks of `optoe`, whatever the bus does.

  `Did` says what an access to a stretch of the row has done when it ends: it has gone through the first k
  bytes, and if it is a write the module may have taken one more, whose transfer was reported to fail.
  Accesses to adjacent stretches compose (`Did.append`), which carries the loop over a chunk and the loop
  over the chunks.

  `eepromUpdateClient_spec` is about one chunk.  The page select register is left out of account there
  (`Transceiver.reset`), because the driver may fail to put it back; then `lost` is noted.
-/
import DentOS.Optoe.Driver

namespace DentOS.Optoe

open Transceiver

/-! ## What an access does to a module -/

/-- What `k` bytes that were read come to, or that were written as far as the module takes them
    (`taken`). -/
def Effect (op : Op) (cls : DevClass) (m : Transceiver) (off : Nat) (buf : List UInt8) (k taken : Nat)
    (got : List UInt8) (m' : Transceiver) : Prop :=
  match op with
  | .read => got = m.linear cls off k ∧ m' = m
  | .write => got = [] ∧ m' = putAll cls off (buf.take taken) m

/-- An access to `count` bytes went through `k` of them. -/
structure Did (op : Op) (cls : DevClass) (m : Transceiver) (off : Nat) (buf : List UInt8) (count k : Nat)
    (got : List UInt8) (m' : Transceiver) : Prop where
  le : k ≤ count
  effect : ∃ taken, k ≤ taken ∧ taken ≤ k + 1 ∧ taken ≤ count ∧ Effect op cls m off buf k taken got m'

/-- The status: the number of bytes, or an error if there is none. -/
def Served (k : Nat) (status : Int) : Prop := if k = 0 then status < 0 else status = k

section

variable {op : Op} {cls : DevClass} {m m₁ m₂ : Transceiver} {off : Nat} {buf got got' : List UInt8}

/-- A transfer leaves an alike module. -/
theorem Effect.alike {k taken : Nat} (h : Effect op cls m off buf k taken got m₁) : Alike m m₁ := by
  cases op with
  | read => exact h.2 ▸ .refl m
  | write => exact h.2 ▸ alike_putAll _ _ _ _

/-- **Two transfers one behind the other are one transfer of both.** -/
theorem Effect.append {k k' taken : Nat} (h : Effect op cls m off buf k k got m₁)
    (hbuf : op = .write → k ≤ buf.length) (h' : Effect op cls m₁ (off + k) (buf.drop k) k' taken got' m₂) :
    Effect op cls m off buf (k + k') (k + taken) (got ++ got') m₂ := by
  cases op with
  | read =>
      obtain ⟨rfl, rfl⟩ := h
      obtain ⟨rfl, rfl⟩ := h'
      exact ⟨(linear_append _ _ _ _ _).symm, rfl⟩
  | write =>
      obtain ⟨rfl, rfl⟩ := h
      obtain ⟨rfl, rfl⟩ := h'
      refine ⟨rfl, ?_⟩
      rw [List.take_add, putAll_append, List.length_take, Nat.min_eq_left (hbuf rfl)]

/-- A transfer of nothing did nothing. -/
theorem did_nothing (count : Nat) : Did op cls m off buf count 0 [] m := by
  refine ⟨Nat.zero_le _, 0, Nat.le_refl _, Nat.zero_le _, Nat.zero_le _, ?_⟩
  cases op with
  | read => exact ⟨rfl, rfl⟩
  | write => exact ⟨rfl, rfl⟩

/-- A whole stretch, and what came behind it. -/
theorem Did.append {n count k : Nat} (h : Did op cls m off buf n n got m₁)
    (hbuf : op = .write → n ≤ buf.length) (h' : Did op cls m₁ (off + n) (buf.drop n) count k got' m₂) :
    Did op cls m off buf (n + count) (n + k) (got ++ got') m₂ := by
  obtain ⟨taken, hn, -, hle, heffect⟩ := h.effect
  obtain rfl : taken = n := Nat.le_antisymm hle hn
  obtain ⟨taken', hk, hmore, hle', heffect'⟩ := h'.effect
  exact ⟨Nat.add_le_add_left h'.le taken, taken + taken', Nat.add_le_add_left hk taken,
    Nat.add_le_add_left hmore taken, Nat.add_le_add_left hle' taken, heffect.append hbuf heffect'⟩

/-- What was done leaves an alike module. -/
theorem Did.alike {count k : Nat} (h : Did op cls m off buf count k got m₁) : Alike m m₁ := by
  obtain ⟨_, _, _, _, heffect⟩ := h.effect
  exact heffect.alike

/-- A stretch that is part of a longer one. -/
theorem Did.widen {count count' k : Nat} (h : Did op cls m off buf count k got m₁) (hle : count ≤ count') :
    Did op cls m off buf count' k got m₁ := by
  obtain ⟨taken, hk, hmore, hle', heffect⟩ := h.effect
  exact ⟨Nat.le_trans h.le hle, taken, hk, hmore, Nat.le_trans hle' hle, heffect⟩

end

/-! ## Transfers, tried until the time is over -/

/-- Every transfer is done in its time. -/
def Outside.Reliable (out : Outside) : Prop :=
  ∀ n, ∃ k ≤ out.retries n, (∀ j < k, out.status (n + j) = .failed) ∧ out.status (n + k) = .done

section

variable {out : Outside} {mode : Mode} {c : Client} {o : Nat}

/-- **The loop**: what a try keeps as long as another follows. -/
theorem tryLoop_rule {attempt : World → Res} {stop : Int → Bool} (I : World → Prop) (Q : Res → Prop)
    (hstop : ∀ w, I w → stop (attempt w).status = true → Q (attempt w))
    (hgo : ∀ w, I w → stop (attempt w).status = false → I (attempt w).world)
    (hlate : ∀ w, I w → Q ⟨eTimedOut, [], w⟩) :
    ∀ (left : Nat) (w : World), I w → Q (tryLoop attempt stop left w)
  | 0, w, h => by
      rw [tryLoop]
      split
      next hs => exact hstop w h hs
      next hs => exact hlate _ (hgo w h (Bool.not_eq_true _ ▸ hs))
  | left + 1, w, h => by
      rw [tryLoop]
      split
      next hs => exact hstop w h hs
      next hs => exact tryLoop_rule I Q hstop hgo hlate left _ (hgo w h (Bool.not_eq_true _ ▸ hs))

/-- The loop gets as far as the first try that stops it. -/
theorem tryLoop_stops {attempt : World → Res} {stop : Int → Bool}
    (htick : ∀ w, (attempt w).world.moment = w.moment + 1) (good bad : Nat → Prop)
    (hgood : ∀ w, good w.moment → stop (attempt w).status = true)
    (hbad : ∀ w, bad w.moment → stop (attempt w).status = false) :
    ∀ (k left : Nat) (w : World), k ≤ left → (∀ j < k, bad (w.moment + j)) → good (w.moment + k) →
      ∃ w', good w'.moment ∧ tryLoop attempt stop left w = attempt w'
  | 0, left, w, _, _, hk => by
      refine ⟨w, hk, ?_⟩
      cases left <;> rw [tryLoop, if_pos (hgood w hk)]
  | k + 1, left + 1, w, hle, hall, hk => by
      have hfirst := hbad w (hall 0 (Nat.succ_pos k))
      rw [tryLoop, hfirst, if_neg Bool.false_ne_true]
      refine tryLoop_stops htick good bad hgood hbad k left _ (Nat.le_of_succ_le_succ hle) (fun j hj => ?_) ?_
      · rw [htick, Nat.add_assoc, Nat.add_comm 1 j]
        exact hall (j + 1) (Nat.succ_lt_succ hj)
      · rw [htick, Nat.add_assoc, Nat.add_comm 1 k]
        exact hk

/-- A clipped length is positive, and no more than was asked for. -/
theorem clip_bounds (mode : Mode) {count : Nat} (h : 0 < count) :
    0 < mode.clip count ∧ mode.clip count ≤ count := by
  cases mode with
  | i2c => exact ⟨h, Nat.le_refl count⟩
  | blockData =>
      rw [Mode.clip]
      split
      · exact ⟨by decide, by omega⟩
      · exact ⟨h, Nat.le_refl count⟩
  | wordData =>
      rw [Mode.clip]
      split <;> omega
  | byteData => exact ⟨Nat.one_pos, h⟩

/-- A time-out is an error. -/
theorem eTimedOut_neg : eTimedOut < 0 := by decide

/-- A transfer that is not done gives an error. -/
theorem value_neg {s : Status} (count : Nat) (h : s ≠ .done) : s.value count < 0 := by
  cases s with
  | done => exact absurd rfl h
  | noModule => exact (by decide : eNxio < 0)
  | failed => exact (by decide : eIo < 0)

/-- Of a loop that goes on while transfers fail, a reliable bus makes one that is done. -/
theorem tryLoop_reliable (hreliable : out.Reliable) (attempt : World → Res) (stop : Int → Bool) (count : Nat)
    (htick : ∀ w, (attempt w).world.moment = w.moment + 1)
    (hvalue : ∀ w, (attempt w).status = (out.status w.moment).value count)
    (hdone : stop (Status.done.value count) = true) (hfailed : stop (Status.failed.value count) = false)
    (w : World) : (tryLoop attempt stop (out.retries w.moment) w).status = count := by
  obtain ⟨k, hk, hall, hlast⟩ := hreliable w.moment
  have hgood : ∀ w, out.status w.moment = .done → stop (attempt w).status = true := by
    intro w hw
    rw [hvalue, hw, hdone]
  have hbad : ∀ w, out.status w.moment = .failed → stop (attempt w).status = false := by
    intro w hw
    rw [hvalue, hw, hfailed]
  obtain ⟨w', hw', heq⟩ := tryLoop_stops htick (fun n => out.status n = .done)
    (fun n => out.status n = .failed)
    hgood hbad k _ w hk hall hlast
  rw [heq, hvalue, hw']
  rfl

/-- **The loop of a read leaves the module alone, and gives the bytes or an error.** -/
theorem readLoop_spec (out : Outside) (c : Client) (stop : Int → Bool) (o count left : Nat) (w : World) :
    (tryLoop (readOnce out c o count) stop left w).world.module = w.module
      ∧ (tryLoop (readOnce out c o count) stop left w).world.lost = w.lost
      ∧ ((tryLoop (readOnce out c o count) stop left w).status = count
          ∧ (tryLoop (readOnce out c o count) stop left w).got = w.module.readBytes c o count
        ∨ (tryLoop (readOnce out c o count) stop left w).status < 0
          ∧ (tryLoop (readOnce out c o count) stop left w).got = []) := by
  refine tryLoop_rule (fun w' => w'.module = w.module ∧ w'.lost = w.lost)
    (fun r => r.world.module = w.module ∧ r.world.lost = w.lost
      ∧ (r.status = count ∧ r.got = w.module.readBytes c o count ∨ r.status < 0 ∧ r.got = []))
    (fun w' hw' _ => ?_) (fun _ hw' _ => hw') (fun _ hw' => ⟨hw'.1, hw'.2, .inr ⟨eTimedOut_neg, rfl⟩⟩)
    left w ⟨rfl, rfl⟩
  refine ⟨hw'.1, hw'.2, ?_⟩
  by_cases hdone : out.status w'.moment = .done
  · refine .inl ⟨?_, ?_⟩
    · rw [readOnce, hdone]
      rfl
    · rw [readOnce, if_pos hdone, hw'.1]
  · exact .inr ⟨value_neg _ hdone, if_neg hdone⟩

/-- **A read**: some of the bytes, or none. -/
theorem eepromRead_spec (out : Outside) (mode : Mode) (c : Client) (o : Nat) {count : Nat} (h : 0 < count)
    (w : World) :
    ∃ k ≤ count, Served k (eepromRead out mode c o count w).status
      ∧ (eepromRead out mode c o count w).got = w.module.readBytes c o k
      ∧ (eepromRead out mode c o count w).world.module = w.module
      ∧ (eepromRead out mode c o count w).world.lost = w.lost ∧ (out.Reliable → 0 < k) := by
  obtain ⟨hpos, hle⟩ := clip_bounds mode h
  obtain ⟨hmodule, hlost, hcase⟩ := readLoop_spec out c
    (fun status => status = mode.clip count || status = eNxio) o (mode.clip count) (out.retries w.moment) w
  rcases hcase with ⟨hstatus, hgot⟩ | ⟨hstatus, hgot⟩
  · refine ⟨mode.clip count, hle, ?_, hgot, hmodule, hlost, fun _ => hpos⟩
    rw [Served, if_neg (Nat.ne_of_gt hpos)]
    exact hstatus
  · refine ⟨0, Nat.zero_le _, hstatus, hgot, hmodule, hlost, fun hreliable => ?_⟩
    have hcount := tryLoop_reliable hreliable (readOnce out c o (mode.clip count))
      (fun status => status = mode.clip count || status = eNxio) (mode.clip count)
      (fun _ => rfl) (fun _ => rfl) (by simp [Status.value])
      (by simp [Status.value, eIo, eNxio]) w
    rw [hcount] at hstatus
    exact absurd hstatus (by omega)

/-- One byte is written at a time. -/
theorem writeCount_of_pos (mode : Mode) (o : Nat) {count : Nat} (h : 0 < count) :
    writeCount mode o count = 1 := by
  have hone : (if count > writeMax then writeMax else count) = 1 := by
    rw [writeMax]
    split <;> omega
  have hpage : ¬ o + 1 > roundup (o + 1) pageSize := by
    rw [roundup, pageSize]
    omega
  rw [writeCount, hone, if_neg hpage]
  cases mode <;> rfl

/-- A byte that comes twice is a byte that comes once. -/
theorem writeByte_writeByte (m : Transceiver) (c : Client) (o : Nat) (v : UInt8) :
    (m.writeByte c o v).writeByte c o v = m.writeByte c o v := by
  by_cases hsel : m.switched c = true ∧ o = pageSelectReg
  · rw [writeByte, writeByte, if_pos hsel, set_switched, if_pos hsel, set_settle, set_set]
  · have halike := alike_put m (m.cell c o) v
    have hcell : (m.put (m.cell c o) v).cell c o = m.cell c o := by
      rw [cell, shown_put, ← cell]
      intro hs heq
      rw [cell, select] at heq
      split at heq
      · cases heq
        exact hsel ⟨hs, rfl⟩
      · cases heq
    rw [writeByte, writeByte, if_neg hsel, if_neg (halike.switched ▸ hsel), hcell, put_put]

/-- A try of a write stores the byte, or fails and stores nothing. -/
theorem writeOnce_module (out : Outside) (c : Client) (o : Nat) (v : UInt8) (w : World) :
    (writeOnce out c o [v] w).world.module = w.module.writeByte c o v
      ∨ out.status w.moment ≠ .done ∧ (writeOnce out c o [v] w).world.module = w.module := by
  rw [writeOnce]
  split
  next => exact .inl rfl
  next h =>
    rw [Bool.or_eq_true, decide_eq_true_eq, not_or] at h
    exact .inr ⟨h.1, rfl⟩

/-- A try of a write takes one moment, and loses nothing. -/
theorem writeOnce_keeps (out : Outside) (c : Client) (o : Nat) (v : UInt8) (w : World) :
    (writeOnce out c o [v] w).world.lost = w.lost
      ∧ (writeOnce out c o [v] w).world.moment = w.moment + 1 := by
  rw [writeOnce]
  split
  · exact ⟨rfl, rfl⟩
  · exact ⟨rfl, rfl⟩

/-- **The loop of a write stores the byte, or gives an error.** -/
theorem writeLoop_spec (out : Outside) (c : Client) (stop : Int → Bool) (o : Nat) (v : UInt8) (left : Nat)
    (w : World) :
    (tryLoop (writeOnce out c o [v]) stop left w).got = []
      ∧ (tryLoop (writeOnce out c o [v]) stop left w).world.lost = w.lost
      ∧ ((tryLoop (writeOnce out c o [v]) stop left w).status = 1
          ∧ (tryLoop (writeOnce out c o [v]) stop left w).world.module = w.module.writeByte c o v
        ∨ (tryLoop (writeOnce out c o [v]) stop left w).status < 0
          ∧ ((tryLoop (writeOnce out c o [v]) stop left w).world.module = w.module
            ∨ (tryLoop (writeOnce out c o [v]) stop left w).world.module = w.module.writeByte c o v)) := by
  -- a try that failed may have written the byte: writing it again changes nothing
  have hnext : ∀ w' : World, w'.module = w.module ∨ w'.module = w.module.writeByte c o v →
      (writeOnce out c o [v] w').world.module = w.module.writeByte c o v
        ∨ out.status w'.moment ≠ .done ∧ (writeOnce out c o [v] w').world.module = w.module := by
    intro w' hw'
    have honce := writeOnce_module out c o v w'
    rcases hw' with hw' | hw'
    · rwa [hw'] at honce
    · rw [hw', writeByte_writeByte] at honce
      exact honce.elim .inl fun h => .inl h.2
  refine tryLoop_rule
    (fun w' => w'.lost = w.lost ∧ (w'.module = w.module ∨ w'.module = w.module.writeByte c o v))
    (fun r => r.got = [] ∧ r.world.lost = w.lost
      ∧ (r.status = 1 ∧ r.world.module = w.module.writeByte c o v
        ∨ r.status < 0 ∧ (r.world.module = w.module ∨ r.world.module = w.module.writeByte c o v)))
    (fun w' hw' _ => ?_) (fun w' hw' _ => ?_) (fun _ hw' => ⟨rfl, hw'.1, .inr ⟨eTimedOut_neg, hw'.2⟩⟩)
    left w ⟨rfl, .inl rfl⟩
  · refine ⟨rfl, (writeOnce_keeps out c o v w').1.trans hw'.1, ?_⟩
    by_cases hdone : out.status w'.moment = .done
    · refine .inl ⟨?_, (hnext w' hw'.2).elim id fun h => absurd hdone h.1⟩
      rw [writeOnce, hdone]
      rfl
    · exact .inr ⟨value_neg _ hdone, (hnext w' hw'.2).elim .inr fun h => .inl h.2⟩
  · exact ⟨(writeOnce_keeps out c o v w').1.trans hw'.1, (hnext w' hw'.2).elim .inr fun h => .inl h.2⟩

/-- **A write** of one byte. -/
theorem eepromWrite_spec (out : Outside) (mode : Mode) (c : Client) (o : Nat) {count : Nat} (h : 0 < count)
    (v : UInt8) (vs : List UInt8) (w : World) :
    (eepromWrite out mode c (v :: vs) o count w).got = []
      ∧ (eepromWrite out mode c (v :: vs) o count w).world.lost = w.lost
      ∧ ((eepromWrite out mode c (v :: vs) o count w).status = 1
          ∧ (eepromWrite out mode c (v :: vs) o count w).world.module = w.module.writeByte c o v
        ∨ (eepromWrite out mode c (v :: vs) o count w).status < 0
          ∧ ((eepromWrite out mode c (v :: vs) o count w).world.module = w.module
            ∨ (eepromWrite out mode c (v :: vs) o count w).world.module = w.module.writeByte c o v))
      ∧ (out.Reliable → (eepromWrite out mode c (v :: vs) o count w).status = 1) := by
  have hbytes : (v :: vs).take (writeCount mode o count) = [v] := by
    rw [writeCount_of_pos mode o h]
    rfl
  rw [eepromWrite, hbytes]
  obtain ⟨hgot, hlost, hcase⟩ := writeLoop_spec out c
    (fun status => status = ([v] : List UInt8).length) o v (out.retries w.moment) w
  refine ⟨hgot, hlost, hcase, fun hreliable => ?_⟩
  exact tryLoop_reliable hreliable _ _ 1 (fun w => (writeOnce_keeps out c o v w).2) (fun _ => rfl) rfl rfl w

end

/-! ## The pieces of a chunk: as much at a time as the bus takes -/

/-- The registers from `o` on show the row from `off` on, and none that is written selects a page. -/
structure Window (op : Op) (cls : DevClass) (m : Transceiver) (c : Client) (o off count : Nat) : Prop where
  cell : ∀ i < count, m.cell c (o + i) = m.linearCell cls (off + i)
  plain : op = .write → ∀ i < count, m.switched c = true → o + i ≠ pageSelectReg

section

variable {out : Outside} {mode : Mode} {op : Op} {cls : DevClass} {c : Client} {m m' : Transceiver}
    {o off count : Nat}

/-- Behind a part of it, the rest of a window is a window. -/
theorem Window.advance (h : Window op cls m c o off count) (halike : Alike m m')
    (hshown : m'.shown c = m.shown c) (k : Nat) : Window op cls m' c (o + k) (off + k) (count - k) := by
  refine ⟨fun i hi => ?_, fun hop i hi hs => ?_⟩
  · have hcell := h.cell (k + i) (by omega)
    rw [halike.linearCell, Nat.add_assoc, Nat.add_assoc, ← hcell, Transceiver.cell, Transceiver.cell, hshown]
  · rw [Nat.add_assoc]
    exact h.plain hop (k + i) (by omega) (halike.switched ▸ hs)

/-- What a window shows is the linear space behind its offset. -/
theorem Window.readBytes (h : Window op cls m c o off count) {k : Nat} (hk : k ≤ count) :
    m.readBytes c o k = m.linear cls off k := by
  rw [Transceiver.readBytes, linear, List.range'_eq_map_range, List.range'_eq_map_range, List.map_map,
    List.map_map]
  refine List.map_congr_left fun i hi => ?_
  exact congrArg m.byte (h.cell i (Nat.lt_of_lt_of_le (List.mem_range.mp hi) hk))

/-- A byte stored through a window is stored in the linear space, and leaves the window in place. -/
theorem Window.writeByte (h : Window .write cls m c o off count) (hpos : 0 < count) (v : UInt8) :
    m.writeByte c o v = m.put (m.linearCell cls off) v ∧ (m.writeByte c o v).shown c = m.shown c := by
  have hplain : ¬ (m.switched c = true ∧ o = pageSelectReg) := fun hsel => h.plain rfl 0 hpos hsel.1 hsel.2
  have hcell : m.cell c o = m.linearCell cls off := h.cell 0 hpos
  refine ⟨?_, ?_⟩
  · rw [Transceiver.writeByte, if_neg hplain, hcell]
  · rw [Transceiver.writeByte, if_neg hplain]
    refine shown_put (fun hs heq => ?_) v
    rw [Transceiver.cell, select] at heq
    split at heq
    · cases heq
      exact hplain ⟨hs, rfl⟩
    · cases heq

/-- One transfer. -/
theorem transfer_spec (out : Outside) (mode : Mode) (w : World)
    (hwindow : Window op cls w.module c o off count) (hpos : 0 < count)
    {buf : List UInt8} (hbuf : op = .write → count ≤ buf.length) :
    (transfer out mode op c buf o count w).world.module.shown c = w.module.shown c
      ∧ (transfer out mode op c buf o count w).world.lost = w.lost
      ∧ ((∃ k, 0 < k ∧ k ≤ count ∧ (transfer out mode op c buf o count w).status = k
            ∧ Did op cls w.module off buf k k (transfer out mode op c buf o count w).got
              (transfer out mode op c buf o count w).world.module)
        ∨ ¬ out.Reliable ∧ (transfer out mode op c buf o count w).status < 0
            ∧ Did op cls w.module off buf count 0 (transfer out mode op c buf o count w).got
              (transfer out mode op c buf o count w).world.module) := by
  cases op with
  -- a read leaves the module alone, and brings what its window shows
  | read =>
      obtain ⟨k, hk, hserved, hgot, hmodule, hlost, hreliable⟩ :=
        eepromRead_spec out mode c o hpos w
      rw [hwindow.readBytes hk] at hgot
      refine ⟨by rw [transfer, hmodule], hlost, ?_⟩
      rw [Served] at hserved
      split at hserved
      next hzero =>
        refine .inr ⟨fun hrel => absurd (hreliable hrel) (by omega), hserved, ?_⟩
        rw [hzero] at hgot
        exact ⟨Nat.zero_le _, 0, Nat.le_refl _, Nat.zero_le _, Nat.zero_le _, hgot, hmodule⟩
      next hne =>
        refine .inl ⟨k, Nat.pos_of_ne_zero hne, hk, hserved, ?_⟩
        exact ⟨Nat.le_refl _, k, Nat.le_refl _, Nat.le_succ _, Nat.le_refl _, hgot, hmodule⟩
  -- a write is of one byte; if it fails, the byte may be there all the same
  | write =>
      obtain ⟨v, vs, rfl⟩ : ∃ v vs, buf = v :: vs :=
        List.exists_cons_of_length_pos (Nat.lt_of_lt_of_le hpos (hbuf rfl))
      obtain ⟨hgot, hlost, hcase, hreliable⟩ :=
        eepromWrite_spec out mode c o hpos v vs w
      obtain ⟨hput, hshown⟩ := hwindow.writeByte hpos v
      rw [transfer]
      rcases hcase with ⟨hstatus, hmodule⟩ | ⟨hstatus, hmodule⟩
      · refine ⟨hmodule ▸ hshown, hlost, .inl ⟨1, Nat.one_pos, hpos, hstatus, Nat.le_refl _, 1, Nat.le_refl _,
          Nat.le_succ _, Nat.le_refl _, hgot, ?_⟩⟩
        rw [hmodule, hput]
        rfl
      · have hnot : ¬ out.Reliable := fun hrel => by
          rw [hreliable hrel] at hstatus
          exact absurd hstatus (by decide)
        rcases hmodule with hmodule | hmodule
        · refine ⟨by rw [hmodule], hlost, .inr ⟨hnot, hstatus, Nat.zero_le _, 0, Nat.le_refl _, Nat.zero_le _,
            Nat.zero_le _, hgot, ?_⟩⟩
          rw [hmodule]
          rfl
        · refine ⟨hmodule ▸ hshown, hlost, .inr ⟨hnot, hstatus, Nat.zero_le _, 1, Nat.zero_le _,
            Nat.le_refl _, hpos, hgot, ?_⟩⟩
          rw [hmodule, hput]
          rfl

/-- **The loop over a chunk.** -/
theorem transferLoop_spec (out : Outside) (mode : Mode) :
    ∀ (passes count o off k₀ : Nat) (buf got₀ : List UInt8) (w : World),
    Window op cls w.module c o off count → (op = .write → count ≤ buf.length) → count ≤ passes →
    ∃ k g, (transferLoop out mode op c passes count o buf k₀ got₀ w).got = got₀ ++ g
      ∧ (0 < k₀ + count → Served (k₀ + k) (transferLoop out mode op c passes count o buf k₀ got₀ w).status)
      ∧ Did op cls w.module off buf count k g
        (transferLoop out mode op c passes count o buf k₀ got₀ w).world.module
      ∧ (transferLoop out mode op c passes count o buf k₀ got₀ w).world.module.shown c = w.module.shown c
      ∧ (transferLoop out mode op c passes count o buf k₀ got₀ w).world.lost = w.lost
      ∧ (out.Reliable → k = count) := by
  intro passes
  induction passes with
  | zero =>
      intro count o off k₀ buf got₀ w _ _ hle
      obtain rfl : count = 0 := Nat.le_zero.mp hle
      refine ⟨0, [], (List.append_nil _).symm, fun hpos => ?_, did_nothing 0, rfl, rfl, fun _ => rfl⟩
      exact (if_neg (Nat.ne_of_gt hpos)).mpr rfl
  | succ passes ih =>
      intro count o off k₀ buf got₀ w hwindow hbuf hle
      rw [transferLoop]
      split
      next hzero =>
        subst hzero
        refine ⟨0, [], (List.append_nil _).symm, fun hpos => ?_, did_nothing 0, rfl, rfl, fun _ => rfl⟩
        exact (if_neg (Nat.ne_of_gt hpos)).mpr rfl
      next hne =>
        obtain ⟨hshown, hlost, hcase⟩ :=
          transfer_spec out mode w hwindow (Nat.pos_of_ne_zero hne) hbuf
        rcases hcase with ⟨k, hpos, hk, hstatus, hdid⟩ | ⟨hnot, hstatus, hdid⟩
        · have hgo : ¬ (transfer out mode op c buf o count w).status ≤ 0 := by omega
          obtain ⟨k', g, hgot, hserved, hdid', hshown', hlost', hall⟩ := ih (count - k) (o + k) (off + k)
            (k₀ + k) (buf.drop k) (got₀ ++ (transfer out mode op c buf o count w).got) _
            (hwindow.advance hdid.alike hshown k)
            (fun hop => by
              have hlen := hbuf hop
              rw [List.length_drop]
              omega) (by omega)
          have hcount : k + (count - k) = count := Nat.add_sub_of_le hk
          have hdid'' := hdid.append (fun hop => Nat.le_trans hk (hbuf hop)) hdid'
          rw [hcount] at hdid''
          rw [if_neg hgo, hstatus, Int.toNat_natCast, ← Int.natCast_add]
          refine ⟨k + k', _, ?_, fun _ => ?_, hdid'', hshown'.trans hshown, hlost'.trans hlost,
            fun hrel => ?_⟩
          · rw [hgot, List.append_assoc]
          · rw [← Nat.add_assoc]
            exact hserved (by omega)
          · rw [hall hrel, hcount]
        -- `optoe_eeprom_update_client` returns what it has, and the error only where it has nothing
        · rw [if_pos (Int.le_of_lt hstatus)]
          refine ⟨0, _, rfl, fun _ => ?_, hdid, hshown, hlost, fun hrel => absurd hrel hnot⟩
          by_cases hzero : k₀ = 0
          · rw [hzero]
            exact hstatus
          · show Served k₀ (if (k₀ : Int) = 0 then _ else (k₀ : Int))
            rw [Served, if_neg hzero, if_neg (by omega)]

end

/-! ## Where a chunk is: the address, the page, and the offset -/

section

variable {op : Op} {cls : DevClass} {m m' : Transceiver} {off count : Nat}

/-- The page that `optoe_translate_offset` computes. -/
def pageOf (cls : DevClass) (off : Nat) : UInt8 :=
  if (cls.place off).2 < pageSize then 0 else UInt8.ofNat ((cls.place off).2 / pageSize - 1)

/-- The offset that it computes. -/
def phyOffset (cls : DevClass) (off : Nat) : Nat :=
  if (cls.place off).2 < pageSize then (cls.place off).2 else pageSize + (cls.place off).2 % pageSize

/-- The driver's translation is the address of the place, the page and the offset on it. -/
theorem translateOffset_eq (cls : DevClass) (off : Nat) :
    translateOffset cls off = ((cls.place off).1, pageOf cls off, phyOffset cls off) := by
  have hplace : (if cls = .twoAddr ∧ off > 255 then (Client.a2, off - 256) else (.a0, off)) = cls.place off :=
    rfl
  rw [translateOffset, hplace, pageOf, phyOffset]
  dsimp only
  split <;> rfl

/-- Inside a page, places are next to each other. -/
theorem place_add {i : Nat} (h : off % pageSize + i < pageSize) :
    cls.place (off + i) = ((cls.place off).1, (cls.place off).2 + i) := by
  rw [pageSize] at h
  rw [DevClass.place, DevClass.place]
  by_cases htwo : cls = .twoAddr
  · by_cases hoff : 256 ≤ off
    · have hoff' : 256 ≤ off + i := by omega
      rw [if_pos ⟨htwo, hoff'⟩, if_pos ⟨htwo, hoff⟩]
      exact Prod.ext rfl (by simp only; omega)
    · have hoff' : ¬ 256 ≤ off + i := by omega
      rw [if_neg fun h => hoff' h.2, if_neg fun h => hoff h.2]
  · rw [if_neg fun h => htwo h.1, if_neg fun h => htwo h.1]

/-- A place has the offset in its page that it has in the linear space. -/
theorem place_mod (cls : DevClass) (off : Nat) : (cls.place off).2 % pageSize = off % pageSize := by
  rw [DevClass.place, pageSize]
  split
  · simp only
    omega
  · rfl

/-- The cells of a chunk, when its page is shown. -/
theorem cell_eq_linearCell (hfit : off % pageSize + count ≤ pageSize)
    (hshown : pageSize ≤ (cls.place off).2 →
      m.shown (cls.place off).1 = m.pageAt (cls.place off).1 (pageOf cls off)) :
    ∀ i < count, m.cell (cls.place off).1 (phyOffset cls off + i) = m.linearCell cls (off + i) := by
  intro i hi
  have hmod := place_mod cls off
  rw [linearCell, place_add (by omega), phyOffset, Transceiver.cell]
  dsimp only
  rw [pageSize] at *
  by_cases hlow : (cls.place off).2 < 128
  · have hi' : (cls.place off).2 + i < 128 := by omega
    rw [if_pos hlow, if_pos hi', if_pos hi']
  · have hdiv : ((cls.place off).2 + i) / 128 = (cls.place off).2 / 128 := by omega
    have hrest : ((cls.place off).2 + i) % 128 = 128 + (cls.place off).2 % 128 + i - 128 := by omega
    rw [if_neg hlow, if_neg (by omega), if_neg (by omega), hshown (by omega), pageOf, pageSize, if_neg hlow,
      hdiv, hrest]

/-- Behind the lower half no cell is the page select register. -/
theorem linearCell_ne_select (hoff : pageSize ≤ (cls.place off).2) (c : Client) :
    m.linearCell cls off ≠ select c := by
  rw [linearCell, if_neg (Nat.not_lt.mpr hoff)]
  exact fun h => Cell.noConfusion h

/-! ## A chunk, the page select register aside -/

/-- The stretch has no page select register in it. -/
def Misses (m : Transceiver) (cls : DevClass) (off count : Nat) : Prop :=
  m.switched cls.paged = true → ∀ i < count, m.linearCell cls (off + i) ≠ select cls.paged

/-- Bytes that miss the page select register are stored before or after a reset alike. -/
theorem reset_putAll : ∀ (vs : List UInt8) (off : Nat) (m : Transceiver), Misses m cls off vs.length →
    (putAll cls off vs m).reset cls = putAll cls off vs (m.reset cls)
  | [], _, _, _ => rfl
  | v :: vs, off, m, h => by
      have halike := alike_put m (m.linearCell cls off) v
      have hfirst : m.switched cls.paged = true → m.linearCell cls off ≠ select cls.paged :=
        fun hs => h hs 0 (Nat.succ_pos _)
      rw [putAll, putAll, reset_putAll vs, reset_put hfirst, (alike_reset m cls).linearCell]
      intro hs i hi
      rw [halike.linearCell, Nat.add_assoc, Nat.add_comm 1 i]
      exact h (halike.switched ▸ hs) (i + 1) (Nat.succ_lt_succ hi)

/-- A part of a buffer that misses it misses it. -/
theorem Misses.take (h : Misses m cls off count) {taken : Nat} (hle : taken ≤ count) (buf : List UInt8) :
    Misses m cls off (buf.take taken).length := by
  intro hs i hi
  rw [List.length_take] at hi
  exact h hs i (by omega)

/-- An access that leaves the page select register alone. -/
theorem Did.reset {buf got : List UInt8} {k : Nat} (h : Did op cls m off buf count k got m')
    (hclear : Misses m cls off count ∨ op = .read ∧ m.AtZero cls) :
    Did op cls (m.reset cls) off buf count k got (m'.reset cls) := by
  obtain ⟨taken, hk, hmore, hle, heffect⟩ := h.effect
  refine ⟨h.le, taken, hk, hmore, hle, ?_⟩
  cases op with
  | read =>
      obtain ⟨rfl, rfl⟩ := heffect
      refine ⟨?_, rfl⟩
      rcases hclear with hmiss | ⟨-, hzero⟩
      · rw [linear, linear]
        refine List.map_congr_left fun n hn => ?_
        obtain ⟨hlow, hhigh⟩ := List.mem_range'_1.mp hn
        have hcell : (m'.reset cls).linearCell cls n = m'.linearCell cls n :=
          (alike_reset m' cls).linearCell n
        rw [hcell, reset_byte]
        intro hs
        have hne := hmiss hs (n - off) (by have := h.le; omega)
        rwa [Nat.add_sub_of_le hlow] at hne
      · rw [atZero_iff.mp hzero]
  | write =>
      obtain ⟨rfl, rfl⟩ := heffect
      refine ⟨rfl, reset_putAll _ _ _ (Misses.take ?_ hle buf)⟩
      rcases hclear with hmiss | ⟨hop, -⟩
      · exact hmiss
      · cases hop

/-- If page 0 is shown before, it is shown behind. -/
theorem Did.atZero {buf got : List UInt8} {k : Nat} (h : Did op cls m off buf count k got m')
    (hclear : op = .write → Misses m cls off count) (hzero : m.AtZero cls) : m'.AtZero cls := by
  obtain ⟨taken, -, -, hle, heffect⟩ := h.effect
  cases op with
  | read => exact heffect.2 ▸ hzero
  | write =>
      obtain ⟨-, rfl⟩ := heffect
      rw [atZero_iff, reset_putAll _ _ _ ((hclear rfl).take hle buf), atZero_iff.mp hzero]

end

section

variable {out : Outside} {mode : Mode} {op : Op} {cls : DevClass} {off count : Nat} {buf : List UInt8}

/-- A page number for an address that has pages. -/
theorem selectPage_spec (out : Outside) (mode : Mode) {c : Client} (page : UInt8) (w : World)
    (hs : w.module.switched c = true) :
    ((selectPage out mode c page w).status = 1
        ∧ (selectPage out mode c page w).world.module = w.module.set (select c) (w.module.settle page)
        ∧ (selectPage out mode c page w).world.lost = w.lost)
      ∨ ¬ out.Reliable ∧ (selectPage out mode c page w).status < 0
        ∧ (selectPage out mode c page w).world.lost = true
        ∧ ((selectPage out mode c page w).world.module = w.module
          ∨ (selectPage out mode c page w).world.module = w.module.set (select c)
            (w.module.settle page)) := by
  obtain ⟨-, hlost, hcase, hreliable⟩ := eepromWrite_spec out mode c pageSelectReg Nat.one_pos page [] w
  have hbyte : w.module.writeByte c pageSelectReg page = w.module.set (select c) (w.module.settle page) :=
    if_pos ⟨hs, rfl⟩
  rw [hbyte] at hcase
  rw [selectPage]
  rcases hcase with ⟨hstatus, hmodule⟩ | ⟨hstatus, hmodule⟩
  · have hpos : ¬ (eepromWrite out mode c [page] pageSelectReg 1 w).status < 0 := by omega
    rw [if_neg hpos]
    exact .inl ⟨hstatus, hmodule, hlost⟩
  · rw [if_pos hstatus]
    refine .inr ⟨fun hrel => ?_, hstatus, rfl, hmodule⟩
    rw [hreliable hrel] at hstatus
    exact absurd hstatus (by decide)

/-- **Selecting page 0 again keeps the answer, and everything but the register.** -/
theorem restorePage_spec (out : Outside) (mode : Mode) {r : Res}
    (hs : r.world.module.switched cls.paged = true) (hstatus : r.status ≠ 0) :
    (restorePage out mode cls.paged r).status = r.status ∧ (restorePage out mode cls.paged r).got = r.got
      ∧ (restorePage out mode cls.paged r).world.module.reset cls = r.world.module.reset cls
      ∧ Alike r.world.module (restorePage out mode cls.paged r).world.module
      ∧ ((restorePage out mode cls.paged r).world.lost = r.world.lost
          ∧ (restorePage out mode cls.paged r).world.module.AtZero cls
        ∨ ¬ out.Reliable ∧ (restorePage out mode cls.paged r).world.lost = true) := by
  have hset : (r.world.module.set (select cls.paged) (r.world.module.settle 0)).reset cls
      = r.world.module.reset cls :=
    reset_set_select hs _
  have halike := alike_set r.world.module (select cls.paged) (r.world.module.settle 0)
  rw [restorePage, if_neg fun h => hstatus h.2]
  rcases selectPage_spec out mode 0 r.world hs with ⟨-, hmodule, hlost⟩ | ⟨hnot, -, hlost, hmodule⟩
  · refine ⟨rfl, rfl, hmodule ▸ hset, hmodule ▸ halike, .inl ⟨hlost, ?_⟩⟩
    show Transceiver.AtZero (selectPage out mode cls.paged 0 r.world).world.module cls
    rw [hmodule, AtZero, shown, set_switched, if_pos hs, set_self, settle_zero]
  · rcases hmodule with hmodule | hmodule
    · exact ⟨rfl, rfl, by rw [hmodule], hmodule ▸ .refl _, .inr ⟨hnot, hlost⟩⟩
    · exact ⟨rfl, rfl, hmodule ▸ hset, hmodule ▸ halike, .inr ⟨hnot, hlost⟩⟩

/-- What is known behind the access to a chunk. -/
structure Behind (out : Outside) (cls : DevClass) (off : Nat) (w w' : World) : Prop where
  alike : Alike w.module w'.module
  lost : w.lost = true → w'.lost = true
  zero : pageOf cls off = 0 ∨ w'.lost = false → w'.module.AtZero cls
  reliable : out.Reliable → w'.lost = w.lost

/-- What holds before it. -/
structure Before (op : Op) (cls : DevClass) (off count : Nat) (buf : List UInt8) (m : Transceiver) : Prop where
  pos : 0 < count
  fit : off % pageSize + count ≤ pageSize
  room : op = .write → count ≤ buf.length
  flat : cls = .twoAddr → m.switched .a0 = false
  pages : pageOf cls off ≠ 0 → m.switched cls.paged = true
  zero : pageOf cls off = 0 → m.AtZero cls
  miss : op = .write → Misses m cls off count

/-- A place is at the paged address, or at the first of two. -/
theorem place_cases (cls : DevClass) (off : Nat) :
    (cls.place off).1 = cls.paged ∨ cls = .twoAddr ∧ (cls.place off).1 = .a0 ∧ (cls.place off).2 < 256 := by
  rw [DevClass.place]
  split
  next htwo =>
    rw [htwo.1]
    exact .inl rfl
  next hnot =>
    cases cls with
    | oneAddr => exact .inl rfl
    | cmisAddr => exact .inl rfl
    | twoAddr => exact .inr ⟨rfl, rfl, Nat.lt_of_not_le fun hle => hnot ⟨rfl, hle⟩⟩

/-- On a page other than 0, a place is in the upper half. -/
theorem le_of_page (h : pageOf cls off ≠ 0) : pageSize ≤ (cls.place off).2 := by
  by_contra hlt
  exact h (if_pos (Nat.lt_of_not_le hlt))

/-- A place on a page other than 0 is at the paged address. -/
theorem place_paged (h : pageOf cls off ≠ 0) : (cls.place off).1 = cls.paged := by
  rcases place_cases cls off with hpaged | ⟨-, -, hlt⟩
  · exact hpaged
  · -- the 256 bytes at the first of two addresses have no other page
    have hdiv : (cls.place off).2 / pageSize - 1 = 0 := by
      rw [pageSize]
      omega
    rw [pageOf, hdiv] at h
    exact absurd (ite_self _) h

variable {m : Transceiver}

/-- In front of the pages: the lower half, and page 0. -/
theorem window_zero (h : Before op cls off count buf m) (hpage : pageOf cls off = 0) :
    Window op cls m (cls.place off).1 (phyOffset cls off) off count := by
  have hshown : m.shown (cls.place off).1 = 0 := by
    rcases place_cases cls off with hpaged | ⟨htwo, hfirst, -⟩
    · rw [hpaged]
      exact h.zero hpage
    · rw [hfirst, shown, h.flat htwo]
      rfl
  have hcell := cell_eq_linearCell (m := m) h.fit fun _ => by
    have hzero : m.pageAt (cls.place off).1 0 = 0 := by
      rw [pageAt, m.settle_zero, ite_self]
    rw [hshown, hpage, hzero]
  refine ⟨hcell, fun hop i hi hs heq => ?_⟩
  rcases place_cases cls off with hpaged | ⟨htwo, hfirst, -⟩
  · rw [hpaged] at hs
    refine h.miss hop hs i hi ?_
    rw [← hcell i hi, heq, hpaged]
    rfl
  · rw [hfirst, h.flat htwo] at hs
    cases hs

/-- In a page that has been selected. -/
theorem window_page (h : Before op cls off count buf m) (hpage : pageOf cls off ≠ 0) :
    Window op cls (m.set (select cls.paged) (m.settle (pageOf cls off))) cls.paged (phyOffset cls off)
      off count := by
  have hpaged := place_paged hpage
  have hs := h.pages hpage
  have hcell := cell_eq_linearCell (m := m.set (select cls.paged) (m.settle (pageOf cls off))) h.fit
    fun _ => by
    rw [hpaged, shown, pageAt, set_switched, if_pos hs, if_pos hs, set_self, set_settle]
  rw [hpaged] at hcell
  refine ⟨hcell, fun _ i _ _ heq => ?_⟩
  rw [phyOffset, if_neg (Nat.not_lt.mpr (le_of_page hpage)), pageSize, pageSelectReg] at heq
  omega

/-- A transfer on such a page misses the page select register. -/
theorem misses_page (h : Before op cls off count buf m) (hpage : pageOf cls off ≠ 0) :
    Misses m cls off count := by
  intro _ i hi
  have hfit := h.fit
  refine linearCell_ne_select ?_ _
  rw [place_add (by omega)]
  exact Nat.le_trans (le_of_page hpage) (Nat.le_add_right _ i)

/-- What was served is a length or an error, never zero. -/
theorem Served.ne_zero {k : Nat} {status : Int} (h : Served k status) : status ≠ 0 := by
  rw [Served] at h
  split at h <;> omega

/-- **A chunk**, whatever the bus does. -/
theorem eepromUpdateClient_spec (out : Outside) (mode : Mode) (w : World)
    (h : Before op cls off count buf w.module) :
    ∃ k, Served k (eepromUpdateClient out mode cls op buf off count w).status
      ∧ Did op cls (w.module.reset cls) off buf count k
        (eepromUpdateClient out mode cls op buf off count w).got
        ((eepromUpdateClient out mode cls op buf off count w).world.module.reset cls)
      ∧ Behind out cls off w (eepromUpdateClient out mode cls op buf off count w).world
      ∧ (out.Reliable → k = count) := by
  have hpos := h.pos
  rw [eepromUpdateClient, translateOffset_eq]
  dsimp only
  split
  next hpage =>
    obtain ⟨k, g, hgot, hserved, hdid, -, hlost, hall⟩ := transferLoop_spec out mode count
      count (phyOffset cls off) off 0 buf [] w (window_zero h hpage) h.room (Nat.le_refl _)
    rw [List.nil_append] at hgot
    simp only [Nat.zero_add] at hserved
    have hzero := h.zero hpage
    have hzero' := hdid.atZero h.miss hzero
    have hdid' := hdid.reset (by
      cases op with
      | read => exact .inr ⟨rfl, hzero⟩
      | write => exact .inl (h.miss rfl))
    refine ⟨k, hserved (by omega), hgot ▸ hdid', ⟨hdid.alike, fun hw => hlost.trans hw, fun _ => hzero',
      fun _ => hlost⟩, hall⟩
  next hpage =>
    have hs := h.pages hpage
    have hpaged := place_paged hpage
    rw [hpaged]
    -- the page has been selected, or the driver gives the chunk up
    rcases selectPage_spec out mode (pageOf cls off) w hs
      with ⟨hok, hmodule, hlost⟩ | ⟨hnot, hbad, hlost, hmodule⟩
    · have hgo : ¬ (selectPage out mode cls.paged (pageOf cls off) w).status < 0 := by omega
      rw [if_neg hgo]
      have hwindow := window_page h hpage
      rw [← hmodule] at hwindow
      obtain ⟨k, g, hgot, hserved, hdid, -, hlost', hall⟩ := transferLoop_spec out mode count
        count (phyOffset cls off) off 0 buf [] _ hwindow h.room (Nat.le_refl _)
      rw [List.nil_append] at hgot
      simp only [Nat.zero_add] at hserved
      have hserved := hserved hpos
      have halike : Alike w.module (selectPage out mode cls.paged (pageOf cls off) w).world.module :=
        hmodule ▸ alike_set _ _ _
      -- the chunk misses the page select register, so the reset and the effect of the chunk commute
      have hdid' := hdid.reset (.inl (by
        intro hs' i hi
        rw [halike.linearCell]
        exact misses_page h hpage hs i hi))
      rw [hmodule, reset_set_select hs, ← hgot] at hdid'
      have halike' := halike.trans hdid.alike
      obtain ⟨hstatus, hgot', hreset, halike'', hcase⟩ := restorePage_spec out mode
        (halike'.switched ▸ hs) hserved.ne_zero
      refine ⟨k, hstatus ▸ hserved, ?_, ⟨halike'.trans halike'', fun hw => ?_, ?_, fun hrel => ?_⟩, hall⟩
      · rw [← hreset, ← hgot'] at hdid'
        exact hdid'
      · rcases hcase with ⟨hkept, -⟩ | ⟨-, hgone⟩
        · exact hkept.trans (hlost'.trans (hlost.trans hw))
        · exact hgone
      · rintro (hzero | hkept)
        · exact absurd hzero hpage
        · rcases hcase with ⟨-, hzero⟩ | ⟨-, hgone⟩
          · exact hzero
          · exact absurd (hkept.symm.trans hgone) Bool.false_ne_true
      · rcases hcase with ⟨hkept, -⟩ | ⟨hnot, -⟩
        · exact hkept.trans (hlost'.trans hlost)
        · exact absurd hrel hnot
    · rw [if_pos hbad]
      refine ⟨0, hbad, ?_, ⟨?_, fun _ => hlost, ?_, fun hrel => absurd hrel hnot⟩,
        fun hrel => absurd hrel hnot⟩
      · rcases hmodule with hmodule | hmodule
        · rw [hmodule]
          exact did_nothing count
        · rw [hmodule, reset_set_select hs]
          exact did_nothing count
      · rcases hmodule with hmodule | hmodule
        · rw [hmodule]
          exact .refl _
        · rw [hmodule]
          exact alike_set _ _ _
      · rintro (hzero | hkept)
        · exact absurd hzero hpage
        · rw [hlost] at hkept
          cases hkept

end

end DentOS.Optoe
