/-
  The strings of accton_i2c_psu.

  This driver reads a string with a function of its own, which looks at the length before it copies and
  copies no more than the array holds.  But it stores the zero in the last byte it copied instead of
  behind it: every string is printed without the last of its characters, and an empty one has no last
  character, so that the zero goes to the byte before the array (`accton_strings_spec`).

  The flag `valid` is never cleared here, and a refresh that gives up half way leaves some strings from
  now and some from before.  With a power supply that sends the same packets all the time that makes no
  difference: `Strung` is kept by every single string.
-/
import DentOS.Psu.Strings

namespace DentOS.Psu

open Effects Prog PyText Relation

variable {out : Outside} {w : Nat} {packet : Nat → List UInt8}

namespace AcctonI2cPsu

/-- A read of one byte gives the length in front of a packet. -/
def HonestBytes (out : Outside) (packet : Nat → List UInt8) : Prop :=
  ∀ r ∈ strings, ∀ n status, out.register n r.1 = some status → status % 256 = count packet r.1

/-- How much of a string is copied. -/
def copied (packet : Nat → List UInt8) (r : Nat × Str) : Nat := min (count packet r.1) (layout.size r.2 - 1)

/-- The array of a string, its last copied byte overwritten. -/
def Cut (packet : Nat → List UInt8) (r : Nat × Str) (text : List UInt8) : Prop :=
  text.take (copied packet r) = (name packet r.1).take (copied packet r - 1) ++ [0]

/-- **A cut string prints without its last character.** -/
theorem Cut.printed {r : Nat × Str} {text : List UInt8} (h : Cut packet r text) :
    printStr text = printStr ((name packet r.1).take (copied packet r - 1)) := by
  have htext := List.take_append_drop (copied packet r) text
  rw [h, List.append_assoc, List.singleton_append] at htext
  rw [← htext, printStr_zero]

/-- The data behind a string that was read. -/
def stored (packet : Nat → List UInt8) (r : Nat × Str) (s : Data w) : Data w :=
  (s.copy layout r.2 0 ((name packet r.1).take (copied packet r))).poke layout r.2
    ((copied packet r : Int) - 1) 0

/-- The same strings and the same flag. -/
def Alike (s s' : Data w) : Prop := s'.text = s.text ∧ s'.overrun = s.overrun ∧ s'.valid = s.valid

/-- The packet behind its count byte is the name. -/
theorem take_name (packet : Nat → List UInt8) (r : Nat × Str) :
    (((packet r.1).take (count packet r.1 + 1)).drop 1).take (copied packet r)
      = (name packet r.1).take (copied packet r) := by
  rw [name, List.drop_take, Nat.add_sub_cancel]

/-- A block of the length asked for is copied, and its last byte overwritten. -/
theorem storeBlock_some {t : Str} {length : Nat} {bytes : List UInt8} (h : bytes.length = length)
    (s : Data w) : storeBlock t length (some bytes) s = (.ok true,
      (s.copy layout t 0 ((bytes.drop 1).take (min (bytes.length - 1) (layout.size t - 1)))).poke layout t
        ((min (bytes.length - 1) (layout.size t - 1) : Nat) - 1 : Int) 0) := by
  rw [storeBlock, if_neg (by rw [h]; simp)]
  rfl

/-- **A string**: nothing stored, or all that will be copied. -/
theorem readBlockData_run (hp : Honest out packet) (hb : HonestBytes out packet) {r : Nat × Str}
    (hr : r ∈ strings) (s : Data w) : ∃ s₁, Alike s s₁ ∧
      (readBlockData out r.1 r.2 s = (.ok false, s₁)
        ∨ count packet r.1 < 32 ∧ readBlockData out r.1 r.2 s = (.ok true, stored packet r s₁)) := by
  have hread : smbusRead out r.1 s = (.ok (out.register s.moment r.1), _) := transfer_apply _ _ s
  rw [readBlockData, bind_of_ok hread]
  cases hreg : out.register s.moment r.1 with
  | none => exact ⟨s.failed (.read r.1) 1, ⟨rfl, rfl, rfl⟩, .inl rfl⟩
  | some status =>
      simp only [hb r hr _ _ hreg]
      by_cases hbig : count packet r.1 + 1 > 128
      · rw [if_pos hbig]
        exact ⟨s.answered (.read r.1) 0 status, ⟨rfl, rfl, rfl⟩, .inl rfl⟩
      · rw [if_neg hbig]
        rcases retry_spec (fun n => out.block n r.1 (UInt8.ofNat (count packet r.1 + 1)))
            (.block r.1 (UInt8.ofNat (count packet r.1 + 1))) retryCount
            (s.answered (.read r.1) 0 status) with ⟨_, hrun⟩ | ⟨k, _, bytes, hbytes, hrun⟩
        · refine ⟨(s.answered (.read r.1) 0 status).failed
            (.block r.1 (UInt8.ofNat (count packet r.1 + 1))) retryCount, ⟨rfl, rfl, rfl⟩, .inl ?_⟩
          exact (bind_of_ok hrun).trans rfl
        · have hpacket := packet_read hp (show count packet r.1 + 1 < 256 by omega) hbytes
          have hlength : bytes.length = min (count packet r.1 + 1) 32 := by
            have hlong := hp.long r.1
            rw [hpacket, List.length_take]
            omega
          refine ⟨(s.answered (.read r.1) 0 status).answered
            (.block r.1 (UInt8.ofNat (count packet r.1 + 1))) k bytes, ⟨rfl, rfl, rfl⟩, ?_⟩
          by_cases hc : count packet r.1 < 32
          · have heq : bytes.length = count packet r.1 + 1 := by omega
            have hmin : min (bytes.length - 1) (layout.size r.2 - 1) = copied packet r := by
              rw [heq, Nat.add_sub_cancel]
              rfl
            refine .inr ⟨hc, (bind_of_ok hrun).trans ((storeBlock_some heq _).trans ?_)⟩
            have htake : bytes = (packet r.1).take (count packet r.1 + 1) := by
              rw [hpacket]
              congr 1
              omega
            rw [hmin, htake, take_name]
            rfl
          · refine .inl ((bind_of_ok hrun).trans ?_)
            show storeBlock r.2 _ (some bytes) _ = _
            rw [storeBlock, if_pos (by omega)]
            rfl

/-- The fetch of a string stores it, or raises and leaves the strings alone. -/
theorem fetchString_run (hp : Honest out packet) (hb : HonestBytes out packet) {r : Nat × Str}
    (hr : r ∈ strings) (s : Data w) : ∃ s₁, Alike s s₁ ∧
      (fetchString out r s = (.error (), s₁)
        ∨ count packet r.1 < 32 ∧ fetchString out r s = (.ok (), stored packet r s₁)) := by
  obtain ⟨s₁, halike, hrun | ⟨hc, hrun⟩⟩ := readBlockData_run hp hb hr s
  · exact ⟨s₁, halike, .inl (by rw [fetchString, bind_of_ok hrun]; rfl)⟩
  · exact ⟨s₁, halike, .inr ⟨hc, by rw [fetchString, bind_of_ok hrun]; rfl⟩⟩

/-- No array is shorter than a length, a character and a zero. -/
theorem size_ge {r : Nat × Str} (hr : r ∈ strings) : 3 ≤ layout.size r.2 := by
  revert r
  decide

/-- A name of a short packet is as long as its count says. -/
theorem length_name (hp : Honest out packet) {r : Nat × Str} (hc : count packet r.1 < 32) :
    (name packet r.1).length = count packet r.1 := by
  have hlong := hp.long r.1
  rw [name, List.length_take, List.length_drop]
  omega

/-- Nothing is copied only of an empty name. -/
theorem copied_eq_zero {r : Nat × Str} (hr : r ∈ strings) : copied packet r = 0 ↔ count packet r.1 = 0 := by
  have hsize := size_ge hr
  rw [copied]
  omega

/-- **An empty string**: the zero goes to the byte in front of the array. -/
theorem stored_empty {r : Nat × Str} (hr : r ∈ strings) (hc : count packet r.1 = 0) (s : Data w) :
    (stored packet r s).overrun = true := by
  rw [stored, (copied_eq_zero hr).mpr hc, overrun_poke, decide_eq_false (by omega), Bool.not_false, Bool.or_true]

/-- The array of a string with its last copied byte replaced, and no other. -/
theorem stored_eq (hp : Honest out packet) {r : Nat × Str} (hr : r ∈ strings) (hc : count packet r.1 < 32)
    (hne : count packet r.1 ≠ 0) {s : Data w} (hs : Sized layout s) : stored packet r s =
      s.setText r.2 ((name packet r.1).take (copied packet r - 1) ++
        0 :: (s.text r.2).drop (copied packet r)) := by
  have hsize := size_ge hr
  have hname := length_name hp hc
  obtain ⟨k, hk⟩ : ∃ k, copied packet r = k + 1 :=
    Nat.exists_eq_succ_of_ne_zero fun h => hne ((copied_eq_zero hr).mp h)
  have hcopied : copied packet r ≤ count packet r.1 ∧ copied packet r ≤ layout.size r.2 - 1 := by
    rw [copied]
    omega
  have htake : ((name packet r.1).take (k + 1)).length = k + 1 := by
    rw [List.length_take]
    omega
  have hsplit : (name packet r.1).take (k + 1) =
        (name packet r.1).take k ++ [(name packet r.1).get ⟨k, by omega⟩] :=
    List.take_succ_eq_append_getElem (by omega)
  have hk' : ((name packet r.1).take k).length = k := by
    rw [List.length_take]
    omega
  rw [stored, hk, Nat.add_sub_cancel, show ((k + 1 : Nat) : Int) - 1 = (k : Nat) by omega,
    copy_start (by omega) (hs r.2), poke_inside (by omega), setText_setText, text_setText, htake, hsplit,
    List.append_assoc, List.set_append_right _ _ (by omega), hk', Nat.sub_self, List.singleton_append,
    List.set_cons_zero]

/-- What a string that was read leaves: the array it is in, cut, and the others as they were. -/
theorem stored_spec (hp : Honest out packet) {r : Nat × Str} (hr : r ∈ strings)
    (hc : count packet r.1 < 32) (hne : count packet r.1 ≠ 0) {s : Data w} (hs : Sized layout s) :
    (∀ t, t ≠ r.2 → (stored packet r s).text t = s.text t) ∧
      Cut packet r ((stored packet r s).text r.2) ∧ (stored packet r s).overrun = s.overrun := by
  have hname := length_name hp hc
  have hcopied : copied packet r ≤ count packet r.1 := by
    rw [copied]
    omega
  have hpos : copied packet r ≠ 0 := fun h => hne ((copied_eq_zero hr).mp h)
  rw [stored_eq hp hr hc hne hs]
  refine ⟨fun t ht => text_setText_of_ne s ht _, ?_, rfl⟩
  rw [text_setText, Cut, List.take_append, List.length_take, List.take_of_length_le (by
    rw [List.length_take]
    omega), show copied packet r - min (copied packet r - 1) (name packet r.1).length = 1 by omega]
  rfl

/-- Storing a string does not touch the valid flag. -/
theorem valid_stored {r : Nat × Str} (s : Data w) : (stored packet r s).valid = s.valid :=
  valid_poke.trans valid_copy

/-- Storing a string leaves the arrays as long as they are. -/
theorem sized_stored {r : Nat × Str} {s : Data w} (hs : Sized layout s) : Sized layout (stored packet r s) :=
  fun t => length_poke.trans (length_copy.trans (hs t))

/-- A note that a byte went outside stays. -/
theorem overrun_stored {r : Nat × Str} {s : Data w} (hs : s.overrun = true) :
    (stored packet r s).overrun = true := overrun_poke_of (overrun_copy_of hs)

/-! ### The loop over the strings -/

/-- Data with the same strings has arrays of the same size. -/
theorem Alike.sized {s s' : Data w} (h : Alike s s') (hs : Sized layout s) : Sized layout s' := fun t => by
  rw [h.1]
  exact hs t

/-- What no string spoils that is read later. -/
theorem keeps_fetchString (hp : Honest out packet) (hb : HonestBytes out packet) {r : Nat × Str}
    (hr : r ∈ strings) {P : Data w → Prop} (halike : ∀ s s', Alike s s' → P s → P s')
    (hstored : count packet r.1 < 32 → ∀ s, P s → P (stored packet r s)) :
    Keeps P (fetchString out r) := by
  intro s hs
  obtain ⟨s₁, h, hrun | ⟨hc, hrun⟩⟩ := fetchString_run hp hb hr s
  · rw [hrun]
    exact halike s s₁ h hs
  · rw [hrun]
    exact hstored hc s₁ (halike s s₁ h hs)

/-- No two of the strings share an array. -/
theorem str_inj {r r' : Nat × Str} (hr : r ∈ strings) (hr' : r' ∈ strings) (h : r.2 = r'.2) : r = r' := by
  have hall : ∀ r ∈ strings, ∀ r' ∈ strings, r.2 = r'.2 → r = r' := by decide
  exact hall r hr r' hr' h

/-- A string once cut is cut the same way again. -/
theorem keeps_cut (hp : Honest out packet) (hb : HonestBytes out packet)
    (hne : ∀ r ∈ strings, count packet r.1 ≠ 0) {r r' : Nat × Str} (hr : r ∈ strings) (hr' : r' ∈ strings) :
    Keeps (fun s : Data w => Sized layout s ∧ Cut packet r (s.text r.2)) (fetchString out r') := by
  refine keeps_fetchString hp hb hr' (fun s s' h hs => ⟨h.sized hs.1, by rw [h.1]; exact hs.2⟩)
    fun hc s hs => ?_
  obtain ⟨hothers, hcut, -⟩ := stored_spec hp hr' hc (hne r' hr') hs.1
  refine ⟨sized_stored hs.1, ?_⟩
  by_cases heq : r.2 = r'.2
  · rw [str_inj hr hr' heq]
    exact hcut
  · rw [hothers r.2 heq]
    exact hs.2

/-- **The loop, without an empty string.** -/
theorem strings_cut (hp : Honest out packet) (hb : HonestBytes out packet)
    (hne : ∀ r ∈ strings, count packet r.1 ≠ 0) : ∀ {rs : List (Nat × Str)}, (∀ r ∈ rs, r ∈ strings) →
      ∀ {s : Data w}, Sized layout s → (forEach (fetchString out) rs s).1 = .ok () →
        ∀ r ∈ rs, Cut packet r ((forEach (fetchString out) rs s).2.text r.2)
  | [], _, _, _, _, r, hr => absurd hr List.not_mem_nil
  | r₀ :: rs, hrs, s, hs, hok, r, hr => by
      obtain ⟨s₁, h, hrun | ⟨hc, hrun⟩⟩ := fetchString_run hp hb (hrs r₀ List.mem_cons_self) s
      · rw [forEach, bind_of_error hrun] at hok
        cases hok
      · have hr₀ := hrs r₀ List.mem_cons_self
        obtain ⟨-, hcut, -⟩ := stored_spec hp hr₀ hc (hne r₀ hr₀) (h.sized hs)
        have hlen : Sized layout (stored packet r₀ s₁) := sized_stored (h.sized hs)
        rw [forEach, bind_of_ok hrun] at hok ⊢
        rcases List.mem_cons.mp hr with rfl | hr
        · have hkeeps : Keeps (fun s : Data w => Sized layout s ∧ Cut packet r (s.text r.2))
              (forEach (fetchString out) rs) := keeps_forEach fun r' hr' =>
            keeps_cut hp hb hne (hrs r List.mem_cons_self) (hrs r' (List.mem_cons_of_mem r hr'))
          exact (hkeeps _ ⟨hlen, hcut⟩).2
        · exact strings_cut hp hb hne (fun r' hr' => hrs r' (List.mem_cons_of_mem r₀ hr')) hlen hok r hr

/-- The fetch of a string leaves the arrays as long as they are. -/
theorem keeps_sized (hp : Honest out packet) (hb : HonestBytes out packet) {r : Nat × Str}
    (hr : r ∈ strings) : Keeps (Sized (w := w) layout) (fetchString out r) :=
  keeps_fetchString hp hb hr (fun _ _ h hs => h.sized hs)
    fun _ _ hs => sized_stored hs

/-- The fetch of a string keeps the note that a byte went outside. -/
theorem keeps_spilled (hp : Honest out packet) (hb : HonestBytes out packet) {r : Nat × Str}
    (hr : r ∈ strings) : Keeps (fun s : Data w => Sized layout s ∧ s.overrun = true) (fetchString out r) :=
  keeps_fetchString hp hb hr (fun _ _ h hs => ⟨h.sized hs.1, h.2.1.trans hs.2⟩)
    fun _ _ hs => ⟨sized_stored hs.1, overrun_stored hs.2⟩

/-- A name that is not empty is stored inside its array. -/
theorem keeps_dry (hp : Honest out packet) (hb : HonestBytes out packet) {r : Nat × Str}
    (hr : r ∈ strings) (hne : count packet r.1 ≠ 0) :
    Keeps (fun s : Data w => Sized layout s ∧ s.overrun = false) (fetchString out r) :=
  keeps_fetchString hp hb hr (fun _ _ h hs => ⟨h.sized hs.1, h.2.1.trans hs.2⟩)
    fun hc _ hs => ⟨sized_stored hs.1, (stored_spec hp hr hc hne hs.1).2.2.trans hs.2⟩

/-- The flag is not touched. -/
theorem keeps_valid (hp : Honest out packet) (hb : HonestBytes out packet) {r : Nat × Str}
    (hr : r ∈ strings) (v : Bool) : Keeps (fun s : Data w => Sized layout s ∧ s.valid = v) (fetchString out r) :=
  keeps_fetchString hp hb hr (fun _ _ h hs => ⟨h.sized hs.1, h.2.2.trans hs.2⟩)
    fun _ s hs => ⟨sized_stored hs.1, (valid_stored s).trans hs.2⟩

/-- **The loop, with an empty string.** -/
theorem strings_spill (hp : Honest out packet) (hb : HonestBytes out packet) {r : Nat × Str}
    (hempty : count packet r.1 = 0) : ∀ {rs : List (Nat × Str)}, (∀ r' ∈ rs, r' ∈ strings) → r ∈ rs →
      ∀ {s : Data w}, Sized layout s → (forEach (fetchString out) rs s).1 = .ok () →
        (forEach (fetchString out) rs s).2.overrun = true
  | r₀ :: rs, hrs, hr, s, hs, hok => by
      obtain ⟨s₁, h, hrun | ⟨hc, hrun⟩⟩ := fetchString_run hp hb (hrs r₀ List.mem_cons_self) s
      · rw [forEach, bind_of_error hrun] at hok
        cases hok
      · have hlen : Sized layout (stored packet r₀ s₁) := sized_stored (h.sized hs)
        rw [forEach, bind_of_ok hrun] at hok ⊢
        rcases List.mem_cons.mp hr with rfl | hr
        · have hkeeps : Keeps (fun s : Data w => Sized layout s ∧ s.overrun = true)
              (forEach (fetchString out) rs) := keeps_forEach fun r' hr' =>
            keeps_spilled hp hb (hrs r' (List.mem_cons_of_mem r hr'))
          exact (hkeeps _ ⟨hlen, stored_empty (hrs r List.mem_cons_self) hempty _⟩).2
        · exact strings_spill hp hb hempty (fun r' hr' => hrs r' (List.mem_cons_of_mem r₀ hr')) hr hlen hok

/-! ### Runs -/

/-- The registers are read without a change to the strings. -/
theorem fetchOrKeep_run (out : Outside) (bits : Nat) (rs : List (Nat × Field)) : ∀ s : Data w,
    ∃ s₁, Alike s s₁ ∧ forEach (fetchOrKeep out bits) rs s = (.ok (), s₁) := by
  induction rs with
  | nil => exact fun s => ⟨s, ⟨rfl, rfl, rfl⟩, rfl⟩
  | cons r rs ih =>
      intro s
      have hread : smbusRead out r.1 s = (.ok (out.register s.moment r.1), _) := transfer_apply _ _ s
      obtain ⟨s₁, h, hrun⟩ : ∃ s₁, Alike s s₁ ∧ fetchOrKeep out bits r s = (.ok (), s₁) := by
        cases hreg : out.register s.moment r.1 with
        | none =>
            refine ⟨s.failed (.read r.1) 1, ⟨rfl, rfl, rfl⟩, ?_⟩
            rw [fetchOrKeep, bind_of_ok hread, hreg]
            rfl
        | some status =>
            refine ⟨(s.answered (.read r.1) 0 status).setField r.2
              ((BitVec.ofNat bits status).setWidth 16), ⟨rfl, rfl, rfl⟩, ?_⟩
            rw [fetchOrKeep, bind_of_ok hread, hreg]
            rfl
      obtain ⟨s₂, h', hrun'⟩ := ih s₁
      refine ⟨s₂, ⟨h'.1.trans h.1, h'.2.1.trans h.2.1, h'.2.2.trans h.2.2⟩, ?_⟩
      rw [forEach, bind_of_ok hrun]
      exact hrun'

/-- A refresh: the strings behind loops that leave them alone. -/
theorem keepRefresh_run (out : Outside) (s : Data w) : ∃ s₁, Alike s s₁ ∧
    (keepRefresh out regsByte regsWord (forEach (fetchString out) strings) s).2
      = match forEach (fetchString out) strings s₁ with
        | (.ok _, s₂) => stamp out s₂
        | (.error _, s₂) => s₂ := by
  obtain ⟨s₁, h, hrun⟩ := fetchOrKeep_run out 8 regsByte s
  obtain ⟨s₂, h', hrun'⟩ := fetchOrKeep_run out 16 regsWord s₁
  refine ⟨s₂, ⟨h'.1.trans h.1, h'.2.1.trans h.2.1, h'.2.2.trans h.2.2⟩, ?_⟩
  rw [keepRefresh, bind_of_ok hrun, bind_of_ok hrun']
  rcases hloop : forEach (fetchString out) strings s₂ with ⟨e | u, s₃⟩
  · rw [bind_of_error hloop]
  · rw [bind_of_ok hloop]
    rfl

/-- What holds of the strings of a driver at work. -/
structure Strung (packet : Nat → List UInt8) (s : Data w) : Prop where
  sized : Sized layout s
  dry : (∀ r ∈ strings, count packet r.1 ≠ 0) → s.overrun = false
  cut : (∀ r ∈ strings, count packet r.1 ≠ 0) → s.valid = true →
    ∀ r ∈ strings, Cut packet r (s.text r.2)
  spilled : (∃ r ∈ strings, count packet r.1 = 0) → s.valid = true → s.overrun = true

/-- Data with the same strings has them cut alike. -/
theorem Alike.strung {s s' : Data w} (h : Alike s s') (hs : Strung packet s) : Strung packet s' where
  sized := h.sized hs.sized
  dry := fun hne => h.2.1.trans (hs.dry hne)
  cut := fun hne hv r hr => by
    rw [h.1]
    exact hs.cut hne (h.2.2 ▸ hv) r hr
  spilled := fun hempty hv => h.2.1.trans (hs.spilled hempty (h.2.2 ▸ hv))

/-- **A refresh** keeps it. -/
theorem strung_update (hp : Honest out packet) (hb : HonestBytes out packet) {s : Data w}
    (hs : Strung packet s) : Strung packet (update out s) := by
  unfold update updateDevice
  split
  · obtain ⟨s₁, h, hrun⟩ := keepRefresh_run out s
    have hs₁ := h.strung hs
    have hlen := keeps_forEach (fun r hr => keeps_sized (w := w) hp hb (r := r) hr) s₁ hs₁.sized
    have hdry : (∀ r ∈ strings, count packet r.1 ≠ 0) →
        (forEach (fetchString out) strings s₁).2.overrun = false := fun hne =>
      (keeps_forEach (fun r hr => keeps_dry (w := w) hp hb hr (hne r hr)) s₁
        ⟨hs₁.sized, hs₁.dry hne⟩).2
    have hvalid := (keeps_forEach (fun r hr => keeps_valid (w := w) hp hb (r := r) hr s₁.valid) s₁
      ⟨hs₁.sized, rfl⟩).2
    have hcut : (∀ r ∈ strings, count packet r.1 ≠ 0) → s₁.valid = true → ∀ r ∈ strings,
        Cut packet r ((forEach (fetchString out) strings s₁).2.text r.2) := fun hne hv r hr =>
      (keeps_forEach (fun r' hr' => keeps_cut (w := w) hp hb hne hr hr') s₁
        ⟨hs₁.sized, hs₁.cut hne hv r hr⟩).2
    have hspilled : (∃ r ∈ strings, count packet r.1 = 0) → s₁.valid = true →
        (forEach (fetchString out) strings s₁).2.overrun = true := fun hempty hv =>
      (keeps_forEach (fun r hr => keeps_spilled (w := w) hp hb (r := r) hr) s₁
        ⟨hs₁.sized, hs₁.spilled hempty hv⟩).2
    rw [hrun]
    rcases hloop : forEach (fetchString out) strings s₁ with ⟨e | u, s₂⟩
    · -- given up: as before the loop
      rw [hloop] at hlen hdry hvalid hcut hspilled
      exact ⟨hlen, hdry, fun hne hv => hcut hne (hvalid ▸ hv), fun hempty hv => hspilled hempty (hvalid ▸ hv)⟩
    · have hok : (forEach (fetchString out) strings s₁).1 = .ok () := by rw [hloop]
      have hcut' := fun hne => strings_cut hp hb hne (fun r hr => hr) hs₁.sized hok
      have hspilled' : (∃ r ∈ strings, count packet r.1 = 0) →
          (forEach (fetchString out) strings s₁).2.overrun = true := fun ⟨r, hr, hempty⟩ =>
        strings_spill hp hb hempty (fun r hr => hr) hr hs₁.sized hok
      rw [hloop] at hlen hdry hcut' hspilled'
      exact ⟨hlen, hdry, fun hne _ => hcut' hne, fun hempty _ => hspilled' hempty⟩
  · exact hs

/-- **In every state reached, the strings are the cut ones.** -/
theorem strung_reached (hp : Honest out packet) (hb : HonestBytes out packet) {s : Data w}
    (hs : ReflTransGen (acctonI2cPsu out w).Step (acctonI2cPsu out w).probed s) : Strung packet s := by
  have hstep : ∀ s s', Strung packet s → (acctonI2cPsu out w).Step s s' → Strung packet s' := by
    intro s s' hg hstep
    cases hstep with
    | wait => exact Alike.strung (s := s) ⟨rfl, rfl, rfl⟩ hg
    | read attr =>
        refine (AcctonI2cPsu.read_state attr s).symm ▸ ?_
        exact strung_update hp hb hg
    | store f hf buf =>
        rw [List.mem_singleton.mp hf]
        obtain ⟨hsince, htext⟩ := setFanDutyCycle_spec out 1 buf s
        exact Alike.strung ⟨htext, hsince.overrun, hsince.valid⟩ hg
  refine Transition.invariant hstep hs ⟨fun t => List.length_replicate, fun _ => rfl, fun _ hv => ?_,
    fun _ hv => ?_⟩
  · cases hv
  · cases hv

end AcctonI2cPsu

/-- **The strings of accton_i2c_psu**: no byte goes outside an array exactly if no string is empty, and
then the file of each says the string without the last of the characters that were copied. -/
theorem accton_strings_spec (hp : Honest out packet) (hb : AcctonI2cPsu.HonestBytes out packet) {s : Data w}
    (hs : ReflTransGen (acctonI2cPsu out w).Step (acctonI2cPsu out w).probed s) :
    (s.valid = true → (s.overrun = false ↔ ∀ r ∈ AcctonI2cPsu.strings, count packet r.1 ≠ 0)) ∧
      ((∀ r ∈ AcctonI2cPsu.strings, count packet r.1 ≠ 0) → ∀ r ∈ AcctonI2cPsu.strings,
        ∀ attr, AcctonI2cPsu.stringOf attr = some r.2 → (AcctonI2cPsu.read out attr s).1 =
          if (AcctonI2cPsu.read out attr s).2.valid then
            printStr ((name packet r.1).take
              (min (count packet r.1) (AcctonI2cPsu.layout.size r.2 - 1) - 1))
          else []) := by
  have hstrung := AcctonI2cPsu.strung_reached hp hb hs
  refine ⟨fun hvalid => ⟨fun hover r hr hempty => ?_, hstrung.dry⟩, fun hne r hr attr hattr => ?_⟩
  · rw [hstrung.spilled ⟨r, hr, hempty⟩ hvalid] at hover
    cases hover
  · rw [AcctonI2cPsu.text_read hattr, AcctonI2cPsu.read_state]
    cases hvalid : (AcctonI2cPsu.update out s).valid with
    | false => rfl
    | true => exact ((AcctonI2cPsu.strung_update hp hb hstrung).cut hne hvalid r hr).printed

/-- Strings of three characters, of which the first two are printed. -/
theorem accton_strings_spec_three :
    (AcctonI2cPsu.read answering .psuMfrSerial (acctonI2cPsu answering 64).probed).1 =
      if (AcctonI2cPsu.read answering .psuMfrSerial (acctonI2cPsu answering 64).probed).2.valid then
        printStr ((name (fun _ => List.replicate 32 3) 0x9e).take
          (min (count (fun _ => List.replicate 32 3) 0x9e) (AcctonI2cPsu.layout.size .mfrSerial - 1) - 1))
      else [] := by
  refine (accton_strings_spec honest_answering (fun r _ n status h => ?_) ReflTransGen.refl).2 (by decide)
    (0x9e, .mfrSerial) (by decide) .psuMfrSerial rfl
  cases h
  rfl

end DentOS.Psu
