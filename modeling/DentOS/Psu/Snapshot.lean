/-
  A refresh that gives up, or leaves a snapshot.

  dps850 and ym2651y clear the flag `valid` before they read the first register and set it behind the
  last string, so a refresh that gives up leaves a record that does not count.  `Snapshot` says of the
  record behind a refresh that every number is what its register gave, and every string what a block
  read gave, between the moment the refresh began and the moment it ended (`refresh_spec`).

  `forward_fetch` says once what reading one register does.  A loop over registers then only has to know
  that a field once read is read again from the same register, if at all (`Table.source`); a loop over
  strings, that no two of them share an array (`blocks_read`).  All of it is about runs in which no byte
  was stored outside of its array: what lies beside an array is then not what was read for it.
-/
import DentOS.Lib.Forward
import DentOS.Psu.Files

namespace DentOS.Psu

open Effects Prog PyText

variable {out : Outside} {w : Nat} {α : Type}

/-! ## Attempts: the first that is answered ends them -/

/-- Behind `k` transfers that failed. -/
def Data.failed (s : Data w) (call : Option α → Call) (k : Nat) : Data w :=
  { s with moment := s.moment + k, calls := List.replicate k (call none) ++ s.calls }

/-- Behind `k` transfers that failed and one that did not. -/
def Data.answered (s : Data w) (call : Option α → Call) (k : Nat) (a : α) : Data w :=
  { s with moment := s.moment + k + 1, calls := call (some a) :: (List.replicate k (call none) ++ s.calls) }

/-- What a transfer gives, and what it leaves. -/
theorem transfer_apply (answer : Nat → Option α) (call : Option α → Call) (s : Data w) :
    transfer answer call s = (.ok (answer s.moment),
      { s with moment := s.moment + 1, calls := call (answer s.moment) :: s.calls }) := rfl

/-- **Attempts**: all of them fail, or so many fail and the next one does not. -/
theorem retry_spec (answer : Nat → Option α) (call : Option α → Call) : ∀ (n : Nat) (s : Data w),
    ((∀ i < n, answer (s.moment + i) = none) ∧
        retry (transfer answer call) n s = (.ok none, s.failed call n))
      ∨ ∃ k < n, ∃ a, answer (s.moment + k) = some a ∧
        retry (transfer answer call) n s = (.ok (some a), s.answered call k a)
  | 0, s => .inl ⟨fun i hi => by omega, rfl⟩
  | n + 1, s => by
      cases hans : answer s.moment with
      | some a =>
          refine .inr ⟨0, by omega, a, hans, ?_⟩
          rw [retry, bind_of_ok (transfer_apply answer call s), hans]
          rfl
      | none =>
          -- the tries that are left start a moment later, with one call more on record
          set s₁ : Data w := { s with moment := s.moment + 1, calls := call none :: s.calls } with hs₁
          have hnext : retry (transfer answer call) (n + 1) s = retry (transfer answer call) n s₁ := by
            rw [retry, bind_of_ok (transfer_apply answer call s), hans]
          have hmoment : ∀ i, s₁.moment + i = s.moment + (i + 1) := fun i => by
            show s.moment + 1 + i = _
            omega
          have hcalls : ∀ k, List.replicate k (call none) ++ s₁.calls
              = List.replicate (k + 1) (call none) ++ s.calls := fun k => by
            rw [List.replicate_succ', List.append_assoc]
            rfl
          rw [hnext]
          rcases retry_spec answer call n s₁ with ⟨hall, hrun⟩ | ⟨k, hk, a, ha, hrun⟩
          · refine .inl ⟨fun i hi => ?_, ?_⟩
            · cases i with
              | zero => exact hans
              | succ i => rw [← hmoment]; exact hall i (by omega)
            · rw [hrun, Data.failed, Data.failed, hcalls, hmoment]
          · refine .inr ⟨k + 1, by omega, a, by rw [← hmoment]; exact ha, ?_⟩
            rw [hrun, Data.answered, Data.answered, hcalls, hmoment]

/-! ## One register is read in the refresh -/

/-- The register `reg` gave `v` at some moment from `start` on and before `stop`. -/
def ReadIn (out : Outside) (start stop bits reg : Nat) (v : BitVec 16) : Prop :=
  ∃ n, start ≤ n ∧ n < stop ∧ ∃ status, out.register n reg = some status ∧
    v = (BitVec.ofNat bits status).setWidth 16

/-- A read in a stretch of time is one in every longer stretch. -/
theorem ReadIn.mono {start stop start' stop' bits reg : Nat} {v : BitVec 16}
    (h : ReadIn out start stop bits reg v) (h1 : start' ≤ start) (h2 : stop ≤ stop') :
    ReadIn out start' stop' bits reg v := by
  obtain ⟨n, hn, hn', hv⟩ := h
  exact ⟨n, by omega, by omega, hv⟩

/-- The register of a field, with its bits. -/
def Table.source (tbl : Table) (f : Field) : Option (Nat × Nat) :=
  (tbl.regsByte.map (fun r : Nat × Field => (r.2, 8, r.1))
    ++ tbl.regsWord.map (fun r : Nat × Field => (r.2, 16, r.1))).lookup f

/-- Transfers, reads of registers and stores into arrays: time goes by, and a field changes to what its
register gives, unless a byte was stored outside of its array. -/
structure Reads (out : Outside) (tbl : Table) (s s' : Data w) : Prop where
  time : s.moment ≤ s'.moment
  valid : s'.valid = s.valid
  noted : s.overrun = true → s'.overrun = true
  length : ∀ t, (s'.text t).length = (s.text t).length
  field : s'.overrun = false → ∀ f, s'.field f = s.field f ∨
    ∃ bits reg, tbl.source f = some (bits, reg) ∧ ReadIn out s.moment s'.moment bits reg (s'.field f)

/-- No note now, none before. -/
theorem Reads.inside {tbl : Table} {s s' : Data w} (h : Reads out tbl s s') (hin : s'.overrun = false) :
    s.overrun = false := by
  cases hs : s.overrun with
  | false => rfl
  | true =>
      rw [h.noted hs] at hin
      cases hin

/-- Whatever leaves the numbers alone. -/
theorem Reads.of_field {tbl : Table} {s s' : Data w} (htime : s.moment ≤ s'.moment)
    (hvalid : s'.valid = s.valid) (hnoted : s.overrun = true → s'.overrun = true)
    (hlength : ∀ t, (s'.text t).length = (s.text t).length)
    (hfield : s'.overrun = false → s'.field = s.field) : Reads out tbl s s' :=
  ⟨htime, hvalid, hnoted, hlength, fun hin f => .inl (congrFun (hfield hin) f)⟩

/-- No transfer at all. -/
theorem Reads.refl {tbl : Table} (s : Data w) : Reads out tbl s s :=
  Reads.of_field le_rfl rfl id (fun _ => rfl) fun _ => rfl

/-- Reads behind reads are reads. -/
theorem Reads.trans {tbl : Table} (s s' s'' : Data w) (h : Reads out tbl s s')
    (h' : Reads out tbl s' s'') : Reads out tbl s s'' := by
  refine ⟨h.time.trans h'.time, h'.valid.trans h.valid, fun hs => h'.noted (h.noted hs),
    fun t => (h'.length t).trans (h.length t), fun hin f => ?_⟩
  rcases h'.field hin f with heq | ⟨bits, reg, hsrc, hread⟩
  · rw [heq]
    rcases h.field (h'.inside hin) f with heq' | ⟨bits, reg, hsrc, hread⟩
    · exact .inl heq'
    · exact .inr ⟨bits, reg, hsrc, hread.mono le_rfl h'.time⟩
  · exact .inr ⟨bits, reg, hsrc, hread.mono h.time le_rfl⟩

/-- Transfers that failed are reads. -/
theorem reads_failed {tbl : Table} (s : Data w) (call : Option α → Call) (k : Nat) :
    Reads out tbl s (s.failed call k) :=
  Reads.of_field (Nat.le_add_right _ _) rfl id (fun _ => rfl) fun _ => rfl

/-- Transfers that were answered at last are reads. -/
theorem reads_answered {tbl : Table} (s : Data w) (call : Option α → Call) (k : Nat) (a : α) :
    Reads out tbl s (s.answered call k a) :=
  Reads.of_field (by show s.moment ≤ s.moment + k + 1; omega) rfl id (fun _ => rfl) fun _ => rfl

/-- A field that has been read since `start`. -/
def FieldRead (out : Outside) (tbl : Table) (start : Nat) (f : Field) (s : Data w) : Prop :=
  start ≤ s.moment ∧ (s.overrun = false → ∃ bits reg, tbl.source f = some (bits, reg) ∧
    ReadIn out start s.moment bits reg (s.field f))

/-- A field that was read in the refresh stays so. -/
theorem FieldRead.keep {tbl : Table} {start : Nat} (f : Field) (s s' : Data w) (h : Reads out tbl s s')
    (hs : FieldRead out tbl start f s) : FieldRead out tbl start f s' := by
  obtain ⟨hstart, hread⟩ := hs
  refine ⟨hstart.trans h.time, fun hin => ?_⟩
  obtain ⟨bits, reg, hsrc, hread⟩ := hread (h.inside hin)
  rcases h.field hin f with heq | ⟨bits', reg', hsrc', hread'⟩
  · exact ⟨bits, reg, hsrc, heq ▸ hread.mono le_rfl h.time⟩
  · exact ⟨bits', reg', hsrc', hread'.mono hstart le_rfl⟩

/-- **One register.** -/
theorem forward_fetch (out : Outside) {tbl : Table} {bits : Nat} (r : Nat × Field) (start : Nat)
    (hsrc : tbl.source r.2 = some (bits, r.1)) :
    Forward (Reads out tbl) (fun s : Data w => start ≤ s.moment) (fetch out bits r)
      fun _ => FieldRead out tbl start r.2 := by
  intro s hs
  rcases retry_spec (fun n => out.register n r.1) (.read r.1) retryCount s with
    ⟨_, hrun⟩ | ⟨k, _, status, hstatus, hrun⟩
  · have hfetch : fetch out bits r s = (.error (), s.failed (.read r.1) retryCount) := by
      rw [fetch, smbusRead, bind_of_ok hrun]
      rfl
    rw [hfetch]
    exact ⟨reads_failed _ _ _, fun a ha => by cases ha⟩
  · have hfetch : fetch out bits r s = (.ok (), (s.answered (.read r.1) k status).setField r.2
        ((BitVec.ofNat bits status).setWidth 16)) := by
      rw [fetch, smbusRead, bind_of_ok hrun]
      rfl
    have htime : s.moment + k < s.moment + k + 1 := by omega
    have hread : ReadIn out s.moment (s.moment + k + 1) bits r.1
        ((BitVec.ofNat bits status).setWidth 16) :=
      ⟨s.moment + k, by omega, htime, status, hstatus, rfl⟩
    rw [hfetch]
    refine ⟨⟨by show s.moment ≤ s.moment + k + 1; omega, rfl, id, fun _ => rfl, fun _ f => ?_⟩, fun a _ => ?_⟩
    · by_cases hf : f = r.2
      · subst hf
        refine .inr ⟨bits, r.1, hsrc, ?_⟩
        show ReadIn out s.moment (s.moment + k + 1) bits r.1 (Function.update s.field r.2 _ r.2)
        rw [Function.update_self]
        exact hread
      · exact .inl (Function.update_of_ne hf _ _)
    · refine ⟨by show start ≤ s.moment + k + 1; omega, fun _ => ⟨bits, r.1, hsrc, ?_⟩⟩
      show ReadIn out start (s.moment + k + 1) bits r.1 (Function.update s.field r.2 _ r.2)
      rw [Function.update_self]
      exact hread.mono hs le_rfl

/-! ## Giving up: ten failures in a row -/

/-- Ten transfers in a row that failed, from `start` on and before `stop`. -/
def GaveUp (out : Outside) (start stop : Nat) : Prop :=
  ∃ n, start ≤ n ∧ n + retryCount ≤ stop ∧
    ((∃ reg, ∀ i < retryCount, out.register (n + i) reg = none)
      ∨ ∃ command length, ∀ i < retryCount, out.block (n + i) command length = none)

/-- Giving up in a stretch of time is giving up in every longer one. -/
theorem GaveUp.mono {start stop start' : Nat} (h : GaveUp out start stop) (hle : start' ≤ start) :
    GaveUp out start' stop := by
  obtain ⟨n, hn, hstop, hfail⟩ := h
  exact ⟨n, by omega, hstop, hfail⟩

/-- A piece of a refresh: it only reads, and raises only behind ten failures. -/
def Refreshes (out : Outside) (tbl : Table) (p : Routine w α) : Prop :=
  Exits (Reads out tbl) (fun s s' => GaveUp out s.moment s'.moment) p

/-- Giving up behind some reads is giving up since they began. -/
theorem gaveUp_behind {tbl : Table} (s s' s'' : Data w) (h : Reads out tbl s s')
    (h' : GaveUp out s'.moment s''.moment) : GaveUp out s.moment s''.moment := h'.mono h.time

/-- Two pieces of a refresh are a piece of a refresh. -/
theorem refreshes_bind {β : Type} {tbl : Table} {p : Routine w β} {f : β → Routine w α}
    (hp : Refreshes out tbl p) (hf : ∀ b, Refreshes out tbl (f b)) : Refreshes out tbl (p >>= f) :=
  exits_bind Reads.trans gaveUp_behind hp hf

/-- Doing nothing is one. -/
theorem refreshes_pure {tbl : Table} (a : α) : Refreshes out tbl (pure a : Routine w α) :=
  exits_pure Reads.refl a

/-- A change that keeps what the reads keep is a piece of a refresh. -/
theorem refreshes_modify {tbl : Table} {g : Data w → Data w} (h : ∀ s, Reads out tbl s (g s)) :
    Refreshes out tbl (modify g : Routine w Unit) := exits_modify h

/-- A string's bytes stored. -/
theorem reads_copy {tbl : Table} (s : Data w) (l : Layout) (t : Str) (i : Nat) (bytes : List UInt8) :
    Reads out tbl s (s.copy l t i bytes) :=
  Reads.of_field (by rw [moment_copy]) valid_copy overrun_copy_of (fun _ => length_copy)
    fun hin => (kept_of_copy hin).1

/-- Storing a zero keeps it. -/
theorem reads_poke {tbl : Table} (s : Data w) (l : Layout) (t : Str) (i : Int) (b : UInt8) :
    Reads out tbl s (s.poke l t i b) :=
  Reads.of_field (by rw [moment_poke]) valid_poke overrun_poke_of (fun _ => length_poke)
    fun hin => (kept_of_poke hin).1

/-- A register: read, or given up behind ten failures. -/
theorem refreshes_fetch {tbl : Table} {bits : Nat} (r : Nat × Field)
    (hsrc : tbl.source r.2 = some (bits, r.1)) : Refreshes out tbl (fetch out bits r : Routine w Unit) := by
  intro s
  refine ⟨(forward_fetch out r s.moment hsrc s le_rfl).1, fun e he => ?_⟩
  rcases retry_spec (fun n => out.register n r.1) (.read r.1) retryCount s with
    ⟨hall, hrun⟩ | ⟨k, _, status, _, hrun⟩
  · have hfetch : fetch out bits r s = (.error (), s.failed (.read r.1) retryCount) := by
      rw [fetch, smbusRead, bind_of_ok hrun]
      rfl
    rw [hfetch]
    exact ⟨s.moment, le_rfl, le_rfl, .inl ⟨r.1, hall⟩⟩
  · rw [fetch, smbusRead, bind_of_ok hrun] at he
    cases he

/-- A block read: no block only behind ten failures. -/
theorem blockRead_spec (out : Outside) (tbl : Table) (command : Nat) (length : UInt8) (s : Data w) :
    ∃ got s', retry (smbusReadBlock out command length) retryCount s = (.ok got, s') ∧
      Reads out tbl s s' ∧ (got = none → GaveUp out s.moment s'.moment) := by
  rcases retry_spec (fun n => out.block n command length) (.block command length) retryCount s with
    ⟨hall, hrun⟩ | ⟨k, _, bytes, _, hrun⟩
  · exact ⟨none, _, hrun, reads_failed _ _ _, fun _ =>
      ⟨s.moment, le_rfl, le_rfl, .inr ⟨command, length, hall⟩⟩⟩
  · exact ⟨some bytes, _, hrun, reads_answered _ _ _ _, fun h => by cases h⟩

/-- A string read into its array, then closed, or given up. -/
theorem readBlock_then (out : Outside) (tbl : Table) (l : Layout) (command : Nat) (t : Str)
    (length : Nat) (i : Int) :
    Refreshes out tbl (do
      let ok ← readBlock out l command t length
      modify fun s => s.poke l t i 0
      if ok then pure () else throw () : Routine w Unit) := by
  intro s
  obtain ⟨got, s', hrun, hreads, hgave⟩ :=
    blockRead_spec out tbl command (UInt8.ofNat length) s
  cases got with
  | none =>
      have hread : readBlock out l command t length s = (.ok false, s') := by
        rw [readBlock, bind_of_ok hrun]
        rfl
      rw [bind_of_ok hread]
      refine ⟨Reads.trans _ _ _ hreads (reads_poke _ _ _ _ _), fun _ _ => ?_⟩
      show GaveUp out s.moment (s'.poke l t i 0).moment
      rw [moment_poke]
      exact hgave rfl
  | some bytes =>
      have hread : readBlock out l command t length s = (.ok true, s'.copy l t 0 bytes) := by
        rw [readBlock, bind_of_ok hrun]
        rfl
      rw [bind_of_ok hread]
      refine ⟨Reads.trans _ _ _ (Reads.trans _ _ _ hreads (reads_copy _ _ _ _ _)) (reads_poke _ _ _ _ _),
        fun e he => ?_⟩
      cases he

/-- The fetch of a string is a piece of a refresh. -/
theorem refreshes_fetchBlock (out : Outside) (tbl : Table) (l : Layout) :
    ∀ b : Block, Refreshes out tbl (fetchBlock out l b : Routine w Unit)
  | .fixed command t => readBlock_then out tbl l command t _ _
  | .counted command t clear => by
      refine refreshes_bind ?_ fun _ => refreshes_bind ?_ fun garbage => ?_
      · cases clear with
        | true => exact refreshes_modify fun s => reads_copy _ _ _ _ _
        | false => exact refreshes_pure ()
      · exact fun s => ⟨Reads.refl s, fun e he => by cases he⟩
      · intro s
        obtain ⟨got, s', hrun, hreads, hgave⟩ := blockRead_spec out tbl command 1 s
        rw [bind_of_ok hrun]
        cases got with
        | none => exact ⟨hreads, fun _ _ => hgave rfl⟩
        | some bytes =>
            have hrest := readBlock_then out tbl l command t
              ((bytes.headD garbage).toNat + 1) ((bytes.headD garbage).toNat + 1 : Nat) s'
            exact ⟨Reads.trans _ _ _ hreads hrest.1, fun e he => (hrest.2 e he).mono hreads.time⟩

/-! ## Strings are read in the refresh too -/

/-- The array has the bytes of a block read between two moments, at their start, and a zero behind the
length that was asked for, all inside. -/
def Stored (out : Outside) (start stop : Nat) (l : Layout) (command length : Nat) (t : Str)
    (text : List UInt8) : Prop :=
  length < l.size t ∧ ∃ n bytes rest, start ≤ n ∧ n < stop ∧
    out.block n command (UInt8.ofNat length) = some bytes ∧ bytes.length + rest.length = l.size t ∧
    text = (bytes ++ rest).set length 0

/-- The array of a string was read between two moments.  The length of a counted string comes from a
block read of one byte; where that gave no byte it is what was on the stack. -/
def StringRead (out : Outside) (start stop : Nat) (l : Layout) (text : List UInt8) : Block → Prop
  | .fixed command t => Stored out start stop l command (l.size t - 1) t text
  | .counted command t _ => ∃ m first garbage, start ≤ m ∧ out.block m command 1 = some first ∧
      Stored out m stop l command ((first.headD garbage).toNat + 1) t text

/-- A string stored in a stretch of time is stored in every longer one. -/
theorem Stored.mono {start stop start' stop' : Nat} {l : Layout} {command length : Nat} {t : Str}
    {text : List UInt8} (h : Stored out start stop l command length t text) (h1 : start' ≤ start)
    (h2 : stop ≤ stop') : Stored out start' stop' l command length t text := by
  obtain ⟨hlen, n, bytes, rest, hn, hn', hread⟩ := h
  exact ⟨hlen, n, bytes, rest, by omega, by omega, hread⟩

/-- A string that was read in a stretch of time was read in every longer one. -/
theorem StringRead.mono {start stop start' stop' : Nat} {l : Layout} {text : List UInt8} :
    ∀ {b : Block}, StringRead out start stop l text b → start' ≤ start → stop ≤ stop' →
      StringRead out start' stop' l text b
  | .fixed _ _, h, h1, h2 => Stored.mono h h1 h2
  | .counted _ _ _, ⟨m, first, garbage, hm, hfirst, hread⟩, h1, h2 =>
      ⟨m, first, garbage, h1.trans hm, hfirst, hread.mono le_rfl h2⟩

/-- The array that a block goes to. -/
def Block.target : Block → Str
  | .fixed _ t => t
  | .counted _ t _ => t

/-- The arrays have the sizes that the struct gives them. -/
def Sized (l : Layout) (s : Data w) : Prop := ∀ t, (s.text t).length = l.size t

/-- Reads leave the arrays as long as they are. -/
theorem Sized.reads {tbl : Table} {l : Layout} {s s' : Data w} (h : Reads out tbl s s') (hs : Sized l s) :
    Sized l s' := fun t => (h.length t).trans (hs t)

/-- **A string that was read**: what is in its array, if that was long enough. -/
theorem readBlock_stored {l : Layout} {command length : Nat} {t : Str} {s s' : Data w} (hs : Sized l s)
    (hrun : (do
      let ok ← readBlock out l command t length
      modify fun s => s.poke l t length 0
      if ok then pure () else throw () : Routine w Unit) s = (.ok (), s')) (hin : s'.overrun = false) :
    Stored out s.moment s'.moment l command length t (s'.text t) ∧ ∀ u, u ≠ t → s'.text u = s.text u := by
  rcases retry_spec (fun n => out.block n command (UInt8.ofNat length))
      (.block command (UInt8.ofNat length)) retryCount s with ⟨_, hblock⟩ | ⟨k, _, bytes, hbytes, hblock⟩
  · have hread : readBlock out l command t length s
        = (.ok false, s.failed (.block command (UInt8.ofNat length)) retryCount) := by
      rw [readBlock, smbusReadBlock, bind_of_ok hblock]
      rfl
    rw [bind_of_ok hread] at hrun
    cases hrun
  · set s₁ := s.answered (.block command (UInt8.ofNat length)) k bytes with hs₁
    have hread : readBlock out l command t length s = (.ok true, s₁.copy l t 0 bytes) := by
      rw [readBlock, smbusReadBlock, bind_of_ok hblock]
      rfl
    rw [bind_of_ok hread] at hrun
    cases hrun
    have hin' : ((s₁.copy l t 0 bytes).poke l t length 0).overrun = false := hin
    obtain ⟨hcopy, -, hlt⟩ := inside_of_poke hin'
    have hlength : length < l.size t := by omega
    have hsize : (s₁.text t).length = l.size t := hs t
    have hbytes' : bytes.length ≤ l.size t := by
      have := inside_of_copy (Nat.zero_le _) hcopy
      omega
    have hend : (s₁.copy l t 0 bytes).poke l t length 0
        = (s₁.setText t (bytes ++ (s₁.text t).drop bytes.length)).setText t
          ((bytes ++ (s₁.text t).drop bytes.length).set length 0) := by
      rw [poke_inside hlength, copy_start hbytes' hsize, text_setText]
    show Stored out s.moment ((s₁.copy l t 0 bytes).poke l t length 0).moment l command length t
      (((s₁.copy l t 0 bytes).poke l t length 0).text t) ∧ _
    rw [hend]
    refine ⟨⟨hlength, s.moment + k, bytes, (s₁.text t).drop bytes.length, by omega, ?_, hbytes, ?_,
      text_setText _ _ _⟩, fun u hu => ?_⟩
    · show s.moment + k < s.moment + k + 1
      omega
    · rw [List.length_drop, hsize]
      omega
    · show (((s₁.copy l t 0 bytes).poke l t length 0)).text u = _
      rw [hend, text_setText_of_ne _ hu, text_setText_of_ne _ hu]
      rfl

/-- **One string.** -/
theorem fetchBlock_read {l : Layout} {s s' : Data w} (hs : Sized l s) : ∀ {b : Block},
    fetchBlock out l b s = (.ok (), s') → s'.overrun = false →
    StringRead out s.moment s'.moment l (s'.text b.target) b ∧ ∀ u, u ≠ b.target → s'.text u = s.text u
  | .fixed command t, hrun, hin => readBlock_stored hs hrun hin
  | .counted command t clear, hrun, hin => by
      -- the array may be cleared first, which keeps its size
      obtain ⟨s₀, hs₀, hmoment, hothers, hclear⟩ : ∃ s₀ : Data w, Sized l s₀ ∧ s₀.moment = s.moment ∧
          (∀ u, u ≠ t → s₀.text u = s.text u) ∧ memset l t clear s = (.ok (), s₀) := by
        cases clear with
        | false => exact ⟨s, hs, rfl, fun _ _ => rfl, rfl⟩
        | true =>
            refine ⟨s.copy l t 0 (List.replicate (l.size t) 0), fun u => length_copy.trans (hs u), moment_copy,
              fun u hu => ?_, rfl⟩
            rw [copy_start (by rw [List.length_replicate]) (hs t), text_setText_of_ne _ hu]
      have hstack : onStack out s₀ = (.ok (out.garbage s₀.moment), s₀) := rfl
      rw [fetchBlock, bind_of_ok hclear, bind_of_ok hstack] at hrun
      rcases retry_spec (fun n => out.block n command 1) (.block command 1) retryCount s₀ with
        ⟨_, hcount⟩ | ⟨k, _, first, hfirst, hcount⟩
      · rw [smbusReadBlock, bind_of_ok hcount] at hrun
        cases hrun
      · rw [smbusReadBlock, bind_of_ok hcount] at hrun
        have hs₁ : Sized l (s₀.answered (.block command 1) k first) := hs₀
        obtain ⟨hstored, hrest⟩ := readBlock_stored hs₁ hrun hin
        refine ⟨⟨s₀.moment + k, first, out.garbage s₀.moment, by omega, hfirst, ?_⟩, fun u hu => ?_⟩
        · refine hstored.mono ?_ le_rfl
          show s₀.moment + k ≤ s₀.moment + k + 1
          omega
        · exact (hrest u hu).trans (hothers u hu)

/-- **The loop over the strings.** -/
theorem blocks_read (tbl : Table) {l : Layout} : ∀ {bs : List Block} {s s' : Data w},
    (bs.map Block.target).Nodup → Sized l s → forEach (fetchBlock out l) bs s = (.ok (), s') →
    s'.overrun = false →
    (∀ b ∈ bs, StringRead out s.moment s'.moment l (s'.text b.target) b) ∧
      ∀ u, u ∉ bs.map Block.target → s'.text u = s.text u
  | [], s, s', _, _, hrun, _ => by
      cases hrun
      exact ⟨fun b hb => absurd hb List.not_mem_nil, fun _ _ => rfl⟩
  | b :: bs, s, s', hdistinct, hs, hrun, hin => by
      rw [List.map_cons, List.nodup_cons] at hdistinct
      have hone := (refreshes_fetchBlock out tbl l b s).1
      rw [forEach] at hrun
      rcases hfirst : fetchBlock out l b s with ⟨e | u, s₁⟩
      · rw [bind_of_error hfirst] at hrun
        cases hrun
      · rw [bind_of_ok hfirst] at hrun
        rw [hfirst] at hone
        have hrest := (exits_forEach Reads.trans Reads.refl gaveUp_behind
          (refreshes_fetchBlock (w := w) out tbl l) bs s₁).1
        rw [hrun] at hrest
        obtain ⟨hread, hothers⟩ := fetchBlock_read hs hfirst (hrest.inside hin)
        obtain ⟨hreads, hkept⟩ := blocks_read tbl hdistinct.2 (hs.reads hone) hrun hin
        refine ⟨fun b' hb' => ?_, fun u hu => ?_⟩
        · rcases List.mem_cons.mp hb' with rfl | hb'
          · -- the strings behind it have other arrays
            rw [hkept _ hdistinct.1]
            exact hread.mono le_rfl hrest.time
          · exact (hreads b' hb').mono hone.time le_rfl
        · rw [List.map_cons, List.mem_cons, not_or] at hu
          exact (hkept u hu.2).trans (hothers u hu.1)

/-! ## The refresh: every field and every string is from it, or it gave up -/

/-- Every field has one register. -/
def Table.Sound (tbl : Table) : Prop :=
  (∀ r ∈ tbl.regsByte, tbl.source r.2 = some (8, r.1))
    ∧ ∀ r ∈ tbl.regsWord, tbl.source r.2 = some (16, r.1)

instance (tbl : Table) : Decidable tbl.Sound := inferInstanceAs (Decidable (_ ∧ _))

/-- The table of `dps850` is sound. -/
theorem sound_dps850 : Dps850.table.Sound := by decide

/-- The table of `ym2651y` is sound. -/
theorem sound_ym2651y (b : Bool) : (Ym2651y.table b).Sound := by cases b <;> decide

/-- The registers that are fetched with these bits. -/
theorem exits_fetchAll {tbl : Table} {bits : Nat} : ∀ {rs : List (Nat × Field)},
    (∀ r ∈ rs, tbl.source r.2 = some (bits, r.1)) →
    Refreshes out tbl (forEach (fetch out bits) rs : Routine w Unit)
  | [], _ => refreshes_pure ()
  | r :: _, h => refreshes_bind (refreshes_fetch r (h r List.mem_cons_self)) fun _ =>
      exits_fetchAll fun r' hr' => h r' (List.mem_cons_of_mem r hr')

/-- **All registers and blocks of a sound table are a piece of a refresh.** -/
theorem refreshes_readAll (out : Outside) {tbl : Table} (h : tbl.Sound) :
    Refreshes out tbl (readAll out tbl : Routine w Unit) :=
  refreshes_bind (exits_fetchAll h.1) fun _ => refreshes_bind (exits_fetchAll h.2) fun _ =>
    exits_forEach Reads.trans Reads.refl gaveUp_behind (refreshes_fetchBlock out tbl tbl.layout) _

/-- A loop over registers behind which each has been read. -/
theorem forward_fetchAll {tbl : Table} {bits : Nat} (start : Nat) {rs : List (Nat × Field)}
    (h : ∀ r ∈ rs, tbl.source r.2 = some (bits, r.1)) :
    Forward (Reads out tbl) (fun s : Data w => start ≤ s.moment) (forEach (fetch out bits) rs)
      fun _ s => start ≤ s.moment ∧ ∀ r ∈ rs, FieldRead out tbl start r.2 s :=
  forward_forEach Reads.trans Reads.refl (fun r => FieldRead out tbl start r.2)
    (fun _ _ hrel hs => le_trans hs hrel.time) (fun r => FieldRead.keep r.2)
    fun r hr => forward_fetch out r start (h r hr)

/-- **All of the registers.** -/
theorem forward_readAll (out : Outside) {tbl : Table} (start : Nat) (h : tbl.Sound) :
    Forward (Reads out tbl) (fun s : Data w => start ≤ s.moment) (readAll out tbl)
      fun _ s => ∀ r ∈ tbl.regsByte ++ tbl.regsWord, FieldRead out tbl start r.2 s := by
  refine forward_bind Reads.trans _ (forward_fetchAll start h.1) fun _ => ?_
  refine forward_bind Reads.trans (fun _ s => (start ≤ s.moment ∧ ∀ r ∈ tbl.regsWord,
      FieldRead out tbl start r.2 s) ∧ start ≤ s.moment ∧ ∀ r ∈ tbl.regsByte, FieldRead out tbl start r.2 s)
    ?_ fun _ => ?_
  · exact forward_keep
      (fun s s' hrel hs => ⟨le_trans hs.1 hrel.time, fun r hr => (hs.2 r hr).keep r.2 s s' hrel⟩)
      (forward_pre (forward_fetchAll start h.2) fun _ hs => hs.1)
  · intro s hs
    have hblocks := exits_forEach Reads.trans Reads.refl gaveUp_behind
      (refreshes_fetchBlock (w := w) out tbl tbl.layout) tbl.blocks s
    refine ⟨hblocks.1, fun _ _ r hr => ?_⟩
    rcases List.mem_append.mp hr with hr | hr
    · exact (hs.2.2 r hr).keep r.2 _ _ hblocks.1
    · exact (hs.1.2 r hr).keep r.2 _ _ hblocks.1

/-- The strings of a refresh that reads all. -/
theorem readAll_strings {tbl : Table} (h : tbl.Sound) (hd : (tbl.blocks.map Block.target).Nodup)
    {s s' : Data w} (hs : Sized tbl.layout s) (hrun : readAll out tbl s = (.ok (), s'))
    (hin : s'.overrun = false) :
    ∀ b ∈ tbl.blocks, StringRead out s.moment s'.moment tbl.layout (s'.text b.target) b := by
  have hbytes : Reads out tbl s (forEach (fetch out 8) tbl.regsByte s).2 := (exits_fetchAll h.1 s).1
  rw [readAll] at hrun
  rcases hrun₁ : forEach (fetch out 8) tbl.regsByte s with ⟨e | u, s₁⟩
  · rw [bind_of_error hrun₁] at hrun
    cases hrun
  · rw [hrun₁] at hbytes
    rw [bind_of_ok hrun₁] at hrun
    have hwords : Reads out tbl s₁ (forEach (fetch out 16) tbl.regsWord s₁).2 :=
      (exits_fetchAll h.2 s₁).1
    rcases hrun₂ : forEach (fetch out 16) tbl.regsWord s₁ with ⟨e | u, s₂⟩
    · rw [bind_of_error hrun₂] at hrun
      cases hrun
    · rw [hrun₂] at hwords
      rw [bind_of_ok hrun₂] at hrun
      have hreads := Reads.trans _ _ _ hbytes hwords
      obtain ⟨hstrings, -⟩ := blocks_read tbl hd (hs.reads hreads) hrun hin
      exact fun b hb => (hstrings b hb).mono hreads.time le_rfl

/-- **A snapshot**: what the record holds was read between the moment `start` and its own. -/
structure Snapshot (out : Outside) (tbl : Table) (start : Nat) (r : Data w) : Prop where
  bytes : ∀ p ∈ tbl.regsByte, ReadIn out start r.moment 8 p.1 (r.field p.2)
  words : ∀ p ∈ tbl.regsWord, ReadIn out start r.moment 16 p.1 (r.field p.2)
  strings : ∀ b ∈ tbl.blocks, StringRead out start r.moment tbl.layout (r.text b.target) b

/-- **A refresh**: a record that counts and is a snapshot, or ten failures in a row and a record that does
not count. -/
theorem refresh_spec (out : Outside) {tbl : Table} (h : tbl.Sound)
    (hd : (tbl.blocks.map Block.target).Nodup) {s : Data w} (hs : Sized tbl.layout s) :
    Sized tbl.layout (refresh out tbl s).2 ∧ s.moment ≤ (refresh out tbl s).2.moment ∧
      (s.overrun = true → (refresh out tbl s).2.overrun = true) ∧
      (((refresh out tbl s).2.valid = true ∧
          (refresh out tbl s).2.lastUpdated = BitVec.ofNat w (out.ticks (refresh out tbl s).2.moment) ∧
          ((refresh out tbl s).2.overrun = false → Snapshot out tbl s.moment (refresh out tbl s).2))
        ∨ (refresh out tbl s).2.valid = false ∧ GaveUp out s.moment (refresh out tbl s).2.moment) := by
  have hs₀ : Sized tbl.layout { s with valid := false } := hs
  obtain ⟨hreads, hall⟩ := forward_readAll out s.moment h { s with valid := false } le_rfl
  have hgave := (refreshes_readAll out h { s with valid := false }).2
  rw [refresh, modify_bind_apply]
  rcases hrun : readAll out tbl { s with valid := false } with ⟨e | u, s₁⟩
  · rw [hrun] at hreads hgave
    rw [bind_of_error hrun]
    exact ⟨hs₀.reads hreads, hreads.time, hreads.noted, .inr ⟨hreads.valid, hgave e rfl⟩⟩
  · have hstrings := readAll_strings h hd hs₀ hrun
    rw [hrun] at hreads hall
    rw [bind_of_ok hrun]
    have hsized : Sized tbl.layout s₁ := hs₀.reads hreads
    refine ⟨hsized, hreads.time, hreads.noted, .inl ⟨rfl, rfl, fun hin => ⟨fun p hp => ?_,
      fun p hp => ?_, hstrings hin⟩⟩⟩
    · obtain ⟨-, hread⟩ := hall u rfl p (List.mem_append_left _ hp)
      obtain ⟨bits, reg, hsrc, hread⟩ := hread hin
      rw [h.1 p hp] at hsrc
      cases hsrc
      exact hread
    · obtain ⟨-, hread⟩ := hall u rfl p (List.mem_append_right _ hp)
      obtain ⟨bits, reg, hsrc, hread⟩ := hread hin
      rw [h.2 p hp] at hsrc
      cases hsrc
      exact hread

end DentOS.Psu
