/-
  What a field of a power supply driver holds: the last value its register gave.

  `lastValue` reads that off the calls that were made.  A read that fails has no value, so a field
  keeps an old one however often its register cannot be read; a write to the fan is followed by its own
  value, whether it succeeds or not.  A field that never had a value is zero.  This holds of all four
  drivers (`field_eq_last`), in every state of a run in which no byte was stored outside of its array:
  those that give up differ in what they print, not in what they keep.

  A step either makes calls without a value and leaves the fields alone (`Silent`), or stores the value
  of the last call it made.
-/
import DentOS.Psu.Printed

namespace DentOS.Psu

open Effects Prog PyText Relation

variable {out : Outside} {w : Nat} {α : Type}

/-- The value a call gives to a field. -/
def Call.value? (tbl : Table) (f : Field) : Call → Option (BitVec 16)
  | .read reg (some status) =>
      match tbl.source f with
      | some (bits, reg') => if reg = reg' then some ((BitVec.ofNat bits status).setWidth 16) else none
      | none => none
  | .write _ value _ => if f = .fanDutyCycle 0 then some value else none
  | _ => none

/-- The last one; zero if there is none. -/
def lastValue (tbl : Table) (calls : List Call) (f : Field) : BitVec 16 :=
  (calls.findSome? (Call.value? tbl f)).getD 0

/-- **The invariant**: as long as no byte went outside its array, each field has its last value. -/
def Latest (tbl : Table) (s : Data w) : Prop :=
  s.overrun = false → ∀ f, s.field f = lastValue tbl s.calls f

/-! ## Calls without a value: failed reads, strings, writes -/

/-- More calls, none with a value, and the same fields, unless a byte was stored outside of its array. -/
structure Silent (tbl : Table) (s s' : Data w) : Prop where
  noted : s'.overrun = false → s.overrun = false
  field : s'.overrun = false → s'.field = s.field
  calls : ∃ cs, s'.calls = cs ++ s.calls ∧ ∀ c ∈ cs, ∀ f, Call.value? tbl f c = none

/-- **Calls without a value keep the last values.** -/
theorem Silent.latest {tbl : Table} {s s' : Data w} (h : Silent tbl s s') (hs : Latest tbl s) :
    Latest tbl s' := by
  obtain ⟨hnoted, hfield, cs, hcalls, hnone⟩ := h
  intro hin f
  have hcs : cs.findSome? (Call.value? tbl f) = none := by
    rw [List.findSome?_eq_none_iff]
    exact fun c hc => hnone c hc f
  rw [hfield hin, hs (hnoted hin) f, lastValue, lastValue, hcalls, List.findSome?_append, hcs, Option.none_or]

/-- No calls, and the fields as they were. -/
theorem Silent.of_field {tbl : Table} {s s' : Data w} (hnoted : s'.overrun = false → s.overrun = false)
    (hfield : s'.overrun = false → s'.field = s.field) (hcalls : s'.calls = s.calls) : Silent tbl s s' :=
  ⟨hnoted, hfield, [], hcalls, fun _ hc => absurd hc List.not_mem_nil⟩

/-- No call at all is silent. -/
theorem Silent.refl {tbl : Table} (s : Data w) : Silent tbl s s :=
  Silent.of_field id (fun _ => rfl) rfl

/-- Storing a string is silent. -/
theorem silent_copy {tbl : Table} (s : Data w) (l : Layout) (t : Str) (i : Nat) (bytes : List UInt8) :
    Silent tbl s (s.copy l t i bytes) :=
  Silent.of_field overrun_of_copy (fun hin => (kept_of_copy hin).1) calls_copy

/-- Storing its zero is. -/
theorem silent_poke {tbl : Table} (s : Data w) (l : Layout) (t : Str) (i : Int) (b : UInt8) :
    Silent tbl s (s.poke l t i b) :=
  Silent.of_field (fun hin => (inside_of_poke hin).1) (fun hin => (kept_of_poke hin).1) calls_poke

/-- Transfers that failed are. -/
theorem silent_failed {tbl : Table} (s : Data w) (call : Option α → Call) (k : Nat)
    (hcall : ∀ f, Call.value? tbl f (call none) = none) : Silent tbl s (s.failed call k) := by
  refine ⟨id, fun _ => rfl, _, rfl, fun c hc f => ?_⟩
  rw [(List.mem_replicate.mp hc).2]
  exact hcall f

/-- A transfer that no field has its value from is silent. -/
theorem silent_answered {tbl : Table} (s : Data w) {call : Option α → Call} (k : Nat) (a : α)
    (hcall : ∀ got f, Call.value? tbl f (call got) = none) : Silent tbl s (s.answered call k a) := by
  refine ⟨id, fun _ => rfl, call (some a) :: List.replicate k (call none), rfl, fun c hc f => ?_⟩
  rcases List.mem_cons.mp hc with rfl | hc
  · exact hcall _ f
  · rw [(List.mem_replicate.mp hc).2]
    exact hcall _ f

/-! ## A register: its field has the value of the last read -/

/-- No register is read into two fields. -/
def Table.Distinct (tbl : Table) : Prop := ((tbl.regsByte ++ tbl.regsWord).map Prod.fst).Nodup

instance (tbl : Table) : Decidable tbl.Distinct := inferInstanceAs (Decidable (List.Nodup _))

/-- The register of a field is in one of the two lists. -/
theorem mem_of_source {tbl : Table} {f : Field} {bits reg : Nat} (h : tbl.source f = some (bits, reg)) :
    (reg, f) ∈ tbl.regsByte ++ tbl.regsWord := by
  rw [Table.source, List.lookup_eq_some_iff] at h
  obtain ⟨before, behind, hsplit, _⟩ := h
  have hmem := hsplit ▸ List.mem_append_right before List.mem_cons_self
  rcases List.mem_append.mp hmem with hm | hm
  · obtain ⟨⟨reg', f'⟩, hr, heq⟩ := List.mem_map.mp hm
    cases heq
    exact List.mem_append_left _ hr
  · obtain ⟨⟨reg', f'⟩, hr, heq⟩ := List.mem_map.mp hm
    cases heq
    exact List.mem_append_right _ hr

/-- The field that a register is read into is the only one. -/
theorem field_of_source {tbl : Table} (h : tbl.Distinct) {f f' : Field} {bits bits' reg : Nat}
    (hf : tbl.source f = some (bits, reg)) (hf' : tbl.source f' = some (bits', reg)) : f = f' := by
  have hinj := List.inj_on_of_nodup_map h (mem_of_source hf) (mem_of_source hf') rfl
  exact congrArg Prod.snd hinj

/-- A read of its register has the value of a field. -/
theorem value_read {tbl : Table} {f : Field} {bits reg status : Nat}
    (h : tbl.source f = some (bits, reg)) :
    Call.value? tbl f (.read reg (some status)) = some ((BitVec.ofNat bits status).setWidth 16) := by
  simp only [Call.value?, h, if_true]

/-- A read of its register has the value of no other field. -/
theorem value_read_of_ne {tbl : Table} (h : tbl.Distinct) {f f' : Field} {bits reg status : Nat}
    (hf : tbl.source f = some (bits, reg)) (hne : f' ≠ f) :
    Call.value? tbl f' (.read reg (some status)) = none := by
  unfold Call.value?
  cases hsrc : tbl.source f' with
  | none => rfl
  | some src =>
      obtain ⟨bits', reg'⟩ := src
      by_cases hreg : reg = reg'
      · subst hreg
        exact absurd (field_of_source h hsrc hf) hne
      · exact if_neg hreg

/-- **A register that gave a value.** -/
theorem latest_answered {tbl : Table} (h : tbl.Distinct) {s : Data w} (hs : Latest tbl s) {f : Field}
    {bits reg : Nat} (hf : tbl.source f = some (bits, reg)) (k status : Nat) :
    Latest tbl ((s.answered (.read reg) k status).setField f ((BitVec.ofNat bits status).setWidth 16)) := by
  intro hin f'
  show Function.update s.field f _ f' = lastValue tbl (Call.read reg (some status) ::
    (List.replicate k (.read reg none) ++ s.calls)) f'
  by_cases hf' : f' = f
  · subst hf'
    rw [Function.update_self, lastValue, List.findSome?_cons_of_isSome]
    · rw [value_read hf]
      rfl
    · rw [value_read hf]
      rfl
  · rw [Function.update_of_ne hf', lastValue, List.findSome?_cons_of_isNone]
    · exact (silent_failed s (Call.read reg) k fun _ => rfl).latest hs hin f'
    · rw [value_read_of_ne h hf hf']
      rfl

/-- A piece of a refresh that leaves each field with its last value. -/
def Follows (tbl : Table) (p : Routine w α) : Prop := Keeps (Latest tbl) p

/-- **The read of a register leaves each field with its last value.** -/
theorem follows_fetch {tbl : Table} (h : tbl.Distinct) {bits : Nat} (r : Nat × Field)
    (hr : tbl.source r.2 = some (bits, r.1)) : Follows tbl (fetch out bits r : Routine w Unit) := by
  intro s hs
  rcases retry_spec (fun n => out.register n r.1) (.read r.1) retryCount s with
    ⟨_, hrun⟩ | ⟨k, _, status, _, hrun⟩
  · rw [fetch, smbusRead, bind_of_ok hrun]
    exact (silent_failed s (Call.read r.1) _ fun _ => rfl).latest hs
  · rw [fetch, smbusRead, bind_of_ok hrun]
    exact latest_answered h hs hr k status

/-- The read of a register that is skipped where it fails leaves each field with its last value. -/
theorem follows_fetchOrKeep {tbl : Table} (h : tbl.Distinct) {bits : Nat} (r : Nat × Field)
    (hr : tbl.source r.2 = some (bits, r.1)) : Follows tbl (fetchOrKeep out bits r : Routine w Unit) := by
  intro s hs
  have hrun : smbusRead out r.1 s = (.ok (out.register s.moment r.1), _) := transfer_apply _ _ s
  rw [fetchOrKeep, bind_of_ok hrun]
  cases hreg : out.register s.moment r.1 with
  | none => exact (silent_failed s (Call.read r.1) 1 fun _ => rfl).latest hs
  | some status => exact latest_answered h hs hr 0 status

/-- A loop over registers. -/
theorem follows_forEach {tbl : Table} {β : Type} {body : β → Routine w Unit} : ∀ {bs : List β},
    (∀ b ∈ bs, Follows tbl (body b)) → Follows tbl (forEach body bs)
  | [], _ => keeps_pure _ ()
  | b :: _, h => keeps_bind (h b List.mem_cons_self) fun _ =>
      follows_forEach fun b' hb' => h b' (List.mem_cons_of_mem b hb')

/-! ## Strings leave the fields alone -/

/-- A piece of a refresh that reads no register. -/
def Strings (tbl : Table) (p : Routine w α) : Prop := ∀ s, Silent tbl s (p s).2

/-- Silent calls behind silent calls are silent. -/
theorem Silent.trans {tbl : Table} {s s' s'' : Data w} (h : Silent tbl s s') (h' : Silent tbl s' s'') :
    Silent tbl s s'' := by
  obtain ⟨hn, hf, cs, hcs, hnone⟩ := h
  obtain ⟨hn', hf', cs', hcs', hnone'⟩ := h'
  refine ⟨fun hin => hn (hn' hin), fun hin => (hf' hin).trans (hf (hn' hin)), cs' ++ cs,
    by rw [hcs', hcs, List.append_assoc], fun c hc => ?_⟩
  rcases List.mem_append.mp hc with hc | hc
  · exact hnone' c hc
  · exact hnone c hc

/-- Doing nothing reads no field. -/
theorem strings_pure {tbl : Table} (a : α) : Strings tbl (pure a : Routine w α) := Silent.refl

/-- Raising reads no field. -/
theorem strings_throw {tbl : Table} : Strings tbl (throw () : Routine w α) := Silent.refl

/-- A silent change reads no field. -/
theorem strings_modify {tbl : Table} {g : Data w → Data w} (h : ∀ s, Silent tbl s (g s)) :
    Strings tbl (modify g : Routine w Unit) := h

/-- Two pieces that read no field read none. -/
theorem strings_bind {β : Type} {tbl : Table} {p : Routine w β} {f : β → Routine w α}
    (hp : Strings tbl p) (hf : ∀ b, Strings tbl (f b)) : Strings tbl (p >>= f) := by
  intro s
  have hs := hp s
  rcases hrun : p s with ⟨_ | b, s₁⟩
  · rw [hrun] at hs
    rw [bind_of_error hrun]
    exact hs
  · rw [hrun] at hs
    rw [bind_of_ok hrun]
    exact hs.trans (hf b s₁)

/-- What reads no field leaves each with its last value. -/
theorem Strings.follows {tbl : Table} {p : Routine w α} (h : Strings tbl p) : Follows tbl p :=
  fun s hs => (h s).latest hs

/-- The transfer of a block reads no field. -/
theorem strings_block {tbl : Table} (command : Nat) (length : UInt8) :
    Strings tbl (retry (smbusReadBlock out command length) retryCount : Routine w _) := by
  intro s
  rcases retry_spec (fun n => out.block n command length) (.block command length) retryCount s with
    ⟨_, hrun⟩ | ⟨k, _, bytes, _, hrun⟩
  · rw [smbusReadBlock, hrun]
    exact silent_failed s _ _ fun _ => rfl
  · rw [smbusReadBlock, hrun]
    exact silent_answered s _ _ fun _ _ => rfl

/-- The read of a string reads no field. -/
theorem strings_readBlock {tbl : Table} (l : Layout) (command : Nat) (t : Str) (length : Nat) :
    Strings tbl (readBlock out l command t length : Routine w Bool) := by
  refine strings_bind (strings_block _ _) fun got => ?_
  cases got with
  | none => exact strings_pure _
  | some bytes => exact strings_bind (strings_modify fun s => silent_copy s _ _ _ _) fun _ => strings_pure _

/-- Raising behind a failure reads no field. -/
theorem strings_close {tbl : Table} (ok : Bool) :
    Strings tbl (if ok then pure () else throw () : Routine w Unit) := by
  cases ok with
  | true => exact strings_pure _
  | false => exact strings_throw

/-- The fetch of a string reads no field. -/
theorem strings_fetchBlock {tbl : Table} (l : Layout) :
    ∀ b : Block, Strings tbl (fetchBlock out l b : Routine w Unit)
  | .fixed command t => strings_bind (strings_readBlock l command t _) fun _ =>
      strings_bind (strings_modify fun s => silent_poke s _ _ _ _) fun _ => strings_close _
  | .counted command t clear => by
      refine strings_bind ?_ fun _ => strings_bind (fun s => Silent.refl s) fun garbage =>
        strings_bind (strings_block _ _) fun got => ?_
      · cases clear with
        | true => exact strings_modify fun s => silent_copy s _ _ _ _
        | false => exact strings_pure _
      · cases got with
        | none => exact strings_throw
        | some bytes => exact strings_bind (strings_readBlock l command t _) fun _ =>
            strings_bind (strings_modify fun s => silent_poke s _ _ _ _) fun _ => strings_close _

/-- Storing a string reads no field. -/
theorem strings_storeBlock {tbl : Table} (t : Str) (length : Nat) : ∀ got : Option (List UInt8),
    Strings tbl (AcctonI2cPsu.storeBlock t length got : Routine w Bool)
  | none => strings_pure _
  | some bytes => by
      by_cases h : bytes.length ≠ length
      · rw [AcctonI2cPsu.storeBlock, if_pos h]
        exact strings_pure _
      · rw [AcctonI2cPsu.storeBlock, if_neg h]
        exact strings_bind (strings_modify fun s => silent_copy s _ _ _ _) fun _ =>
          strings_bind (strings_modify fun s => silent_poke s _ _ _ _) fun _ => strings_pure _

/-- The string function of accton_i2c_psu reads a byte that is no register of the table. -/
theorem strings_fetchString {tbl : Table} {r : Nat × Str}
    (hr : ∀ f bits, tbl.source f ≠ some (bits, r.1)) :
    Strings tbl (AcctonI2cPsu.fetchString out r : Routine w Unit) := by
  have hcall : ∀ got f, Call.value? tbl f (.read r.1 got) = none := by
    intro got f
    cases got with
    | none => rfl
    | some status =>
        unfold Call.value?
        cases hsrc : tbl.source f with
        | none => rfl
        | some src => exact if_neg fun heq => hr f src.1 (by rw [hsrc, heq])
  refine strings_bind (strings_bind (fun s => ?_) fun got => ?_) fun ok => strings_close ok
  · exact ⟨id, fun _ => rfl, [_], rfl, fun c hc f => by rw [List.mem_singleton.mp hc]; exact hcall _ f⟩
  · cases got with
    | none => exact strings_pure _
    | some status =>
        dsimp only
        split
        · exact strings_pure _
        · exact strings_bind (strings_block _ _) fun got => strings_storeBlock _ _ got

/-! ## The four drivers keep the invariant -/

/-- A driver with the registers it reads. -/
inductive Drives (out : Outside) (w : Nat) : Driver w → Table → Prop where
  | givesUp {drv : Driver w} {tbl : Table} {shown : drv.Attr → Data w → Data w → Shown}
      (h : GivesUp out w drv tbl shown) : Drives out w drv tbl
  | cpr40114mxx : Drives out w (cpr40114mxx out w)
      ⟨Cpr40114mxx.regsByte, Cpr40114mxx.regsWord, [], ⟨[]⟩⟩
  | acctonI2cPsu : Drives out w (acctonI2cPsu out w)
      ⟨AcctonI2cPsu.regsByte, AcctonI2cPsu.regsWord, [], AcctonI2cPsu.layout⟩

/-- No register of such a driver has two fields, and no field two registers. -/
theorem GivesUp.distinct {drv : Driver w} {tbl : Table} {shown : drv.Attr → Data w → Data w → Shown}
    (h : GivesUp out w drv tbl shown) : tbl.Distinct := by
  cases h with
  | dps850 => decide
  | ym2651y chip b => cases b <;> decide

/-- **A refresh leaves each field with its last value.** -/
theorem follows_refresh {tbl : Table} (hs : tbl.Sound) (hd : tbl.Distinct) :
    Follows tbl (refresh out tbl : Routine w Unit) := by
  refine keeps_bind (keeps_modify fun s h => h) fun _ => keeps_bind (keeps_bind ?_ fun _ =>
    keeps_bind ?_ fun _ => ?_) fun _ => keeps_modify fun s h => h
  · exact follows_forEach fun r hr => follows_fetch hd r (hs.1 r hr)
  · exact follows_forEach fun r hr => follows_fetch hd r (hs.2 r hr)
  · exact follows_forEach fun b _ => (strings_fetchBlock _ b).follows

/-- **A refresh that goes on behind a failure** leaves each field with its last value. -/
theorem follows_keepRefresh (tbl : Table) (hs : tbl.Sound) (hd : tbl.Distinct) {strings : Routine w Unit}
    (h : Follows tbl strings) : Follows tbl (keepRefresh out tbl.regsByte tbl.regsWord strings) := by
  refine keeps_bind ?_ fun _ => keeps_bind ?_ fun _ => keeps_bind h fun _ => keeps_modify fun s h => h
  · exact follows_forEach fun r hr => follows_fetchOrKeep hd r (hs.1 r hr)
  · exact follows_forEach fun r hr => follows_fetchOrKeep hd r (hs.2 r hr)

/-- **An update keeps the invariant.** -/
theorem latest_updateDevice {tbl : Table} {p : Routine w Unit} (h : Follows tbl p) {s : Data w}
    (hs : Latest tbl s) : Latest tbl (updateDevice out p s) := by
  unfold updateDevice
  split
  · exact h s hs
  · exact hs

/-- The letters of the direction. -/
theorem silent_fanDirection {tbl : Table} (s : Data w) : Silent tbl s (Ym2651y.fanDirection s) := by
  unfold Ym2651y.fanDirection
  split
  · dsimp only
    split
    · exact silent_copy _ _ _ _ _
    · split
      · exact silent_copy _ _ _ _ _
      · exact Silent.refl s
  · exact Silent.refl s

/-- The commands of the strings are no registers. -/
theorem AcctonI2cPsu.string_not_register {r : Nat × Str} (hr : r ∈ AcctonI2cPsu.strings) (f : Field)
    (bits : Nat) : Table.source ⟨regsByte, regsWord, [], layout⟩ f ≠ some (bits, r.1) := by
  intro hsrc
  have hmem : r.1 ∈ (regsByte ++ regsWord).map Prod.fst :=
    List.mem_map.mpr ⟨_, mem_of_source hsrc, rfl⟩
  have hall : ∀ r ∈ AcctonI2cPsu.strings, r.1 ∉ (regsByte ++ regsWord).map Prod.fst := by decide
  exact hall r hr hmem

/-- A file that is read keeps it. -/
theorem Drives.read {drv : Driver w} {tbl : Table} (h : Drives out w drv tbl) (attr : drv.Attr)
    {s : Data w} (hs : Latest tbl s) : Latest tbl (drv.read attr s).2 := by
  cases h with
  | givesUp h =>
      have hupdate : Latest tbl (updateDevice out (refresh out tbl) s) :=
        latest_updateDevice (follows_refresh h.sound h.distinct) hs
      rcases h.read attr s with heq | ⟨-, heq⟩
      · rw [heq]
        exact hupdate
      · rw [heq]
        exact (silent_fanDirection _).latest hupdate
  | cpr40114mxx =>
      refine (Cpr40114mxx.read_state attr s).symm ▸ ?_
      refine latest_updateDevice (follows_keepRefresh ⟨_, _, [], ⟨[]⟩⟩ ?_ ?_ ?_) hs
      · decide
      · decide
      · exact keeps_pure _ ()
  | acctonI2cPsu =>
      refine (AcctonI2cPsu.read_state attr s).symm ▸ ?_
      refine latest_updateDevice (follows_keepRefresh ⟨_, _, [], AcctonI2cPsu.layout⟩ ?_ ?_ ?_) hs
      · decide
      · decide
      · exact follows_forEach fun r hr =>
          (strings_fetchString (AcctonI2cPsu.string_not_register hr)).follows

/-- A file that is written sets the duty cycle. -/
theorem Drives.store {drv : Driver w} {tbl : Table} (h : Drives out w drv tbl)
    {f : Text → Data w → Data w} (hf : f ∈ drv.stores) :
    ∃ tries, 0 < tries ∧ f = setFanDutyCycle out tries := by
  cases h with
  | givesUp h => exact ⟨retryCount, by decide, h.store hf⟩
  | cpr40114mxx => exact ⟨1, by decide, List.mem_singleton.mp hf⟩
  | acctonI2cPsu => exact ⟨1, by decide, List.mem_singleton.mp hf⟩

/-- **A write**: the duty cycle, and calls that have it as their value. -/
theorem latest_write {tbl : Table} {s s' : Data w} (hs : Latest tbl s) {v : BitVec 16} (cs : List Call)
    (hcs : cs ≠ []) (hwrite : ∀ c ∈ cs, ∃ reg ok, c = .write reg v ok) (hcalls : s'.calls = cs ++ s.calls)
    (hover : s'.overrun = s.overrun) (hfield : s'.field = (s.setField (.fanDutyCycle 0) v).field) :
    Latest tbl s' := by
  intro hin f
  rw [hfield, hcalls, lastValue]
  show Function.update s.field (.fanDutyCycle 0) v f = _
  by_cases hf : f = .fanDutyCycle 0
  · subst hf
    obtain ⟨c, cs', rfl⟩ := List.exists_cons_of_ne_nil hcs
    obtain ⟨reg, ok, rfl⟩ := hwrite c List.mem_cons_self
    rw [Function.update_self]
    rfl
  · have hnone : cs.findSome? (Call.value? tbl f) = none := by
      rw [List.findSome?_eq_none_iff]
      intro c hc
      obtain ⟨reg, ok, rfl⟩ := hwrite c hc
      exact if_neg hf
    rw [Function.update_of_ne hf, hs (hover ▸ hin) f, List.findSome?_append, hnone, Option.none_or]
    rfl

/-- Setting the duty cycle keeps it. -/
theorem latest_setFanDutyCycle {tbl : Table} {tries : Nat} (ht : 0 < tries) (buf : Text) {s : Data w}
    (hs : Latest tbl s) : Latest tbl (setFanDutyCycle out tries buf s) := by
  unfold setFanDutyCycle
  split
  · exact hs
  · split
    · exact hs
    · rename_i speed _ _
      have hself : (s.setField (.fanDutyCycle 0) (BitVec.ofInt 16 speed)).field (.fanDutyCycle 0)
          = BitVec.ofInt 16 speed := Function.update_self (Field.fanDutyCycle 0) _ s.field
      simp only [hself, smbusWriteWord]
      rcases retry_spec (fun n => if out.written n 0x3b (BitVec.ofInt 16 speed) then some () else none)
        (fun done => .write 0x3b (BitVec.ofInt 16 speed) done.isSome) tries
        (s.setField (.fanDutyCycle 0) (BitVec.ofInt 16 speed)) with ⟨_, hrun⟩ | ⟨k, _, u, _, hrun⟩
      · rw [hrun]
        refine latest_write hs (List.replicate tries (.write 0x3b (BitVec.ofInt 16 speed) false))
          (fun hnil => ?_) (fun c hc => ?_) rfl rfl rfl
        · rw [List.replicate_eq_nil_iff] at hnil
          omega
        · exact ⟨_, _, (List.mem_replicate.mp hc).2⟩
      · rw [hrun]
        refine latest_write hs (.write 0x3b (BitVec.ofInt 16 speed) true ::
          List.replicate k (.write 0x3b (BitVec.ofInt 16 speed) false)) (List.cons_ne_nil _ _)
          (fun c hc => ?_) rfl rfl rfl
        rcases List.mem_cons.mp hc with rfl | hc
        · exact ⟨_, _, rfl⟩
        · exact ⟨_, _, (List.mem_replicate.mp hc).2⟩

/-- The data that `probe` allocates has nothing but what was read last. -/
theorem Drives.probed {drv : Driver w} {tbl : Table} (h : Drives out w drv tbl) :
    Latest tbl drv.probed := by
  cases h with
  | givesUp h => cases h <;> exact fun _ _ => rfl
  | cpr40114mxx => exact fun _ _ => rfl
  | acctonI2cPsu => exact fun _ _ => rfl

/-- **Every field holds the last value of its register**, or what was written to the fan behind that, as
long as no byte was stored outside of its array. -/
theorem field_eq_last {drv : Driver w} {tbl : Table} (h : Drives out w drv tbl) {s : Data w}
    (hs : ReflTransGen drv.Step drv.probed s) (hin : s.overrun = false) (f : Field) :
    s.field f = lastValue tbl s.calls f := by
  have hstep : ∀ s s', Latest tbl s → drv.Step s s' → Latest tbl s' := by
    intro s s' hl hstep
    cases hstep with
    | wait => exact hl
    | read attr => exact h.read attr hl
    | store g hg buf =>
        obtain ⟨tries, ht, rfl⟩ := h.store hg
        exact latest_setFanDutyCycle ht buf hl
  exact Transition.invariant hstep hs h.probed hin f

/-- Behind one read of a file. -/
theorem field_eq_last_once :
    ((dps850 answering 64).read Dps850.Attr.psuVIn (dps850 answering 64).probed).2.field Field.vIn
      = lastValue Dps850.table
        ((dps850 answering 64).read Dps850.Attr.psuVIn (dps850 answering 64).probed).2.calls Field.vIn := by
  have hstep : (dps850 answering 64).Step (dps850 answering 64).probed _ := .read Dps850.Attr.psuVIn _
  exact field_eq_last (Drives.givesUp GivesUp.dps850) (ReflTransGen.single hstep) (by decide +kernel) Field.vIn

end DentOS.Psu
