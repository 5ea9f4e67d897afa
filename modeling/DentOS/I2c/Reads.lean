/-
  The block read and the byte read of one device (onlplib, i2c.c).

  A device has 256 registers.  A byte read gives one of them, a block read the ones from its offset on,
  modulo 256, and any call may fail: `faulty` says of the n-th call that it fails, whatever it is.  The
  two reads make different calls, so one pattern of failures strikes them at different places; each
  has the registers in order as its result as long as none of its own transfers fails as often as it
  is tried (`reads_agree`).

  The answers of the kernel are numbered, not addressed to calls.  `Answered` ties them together: the
  n-th answer is what the device says to the n-th call that was made.  That is a property of a whole
  run, and `answered_kernel` brings it back to the step at which a call is made, because no program
  forgets a call (`Grows`).  From there on both loops are inductions on what is left to read.
-/
import DentOS.I2c.Bus

namespace DentOS.I2c

open Effects Prog

/-! ## The calls of a run: what was asked of the kernel, in order -/

/-- The call, if the event is one. -/
def Event.call? : Event → Option Call
  | .call c _ => some c
  | .mux _ _ _ => none

/-- The calls made, in order. -/
def Bus.callsMade (s : Bus) : List Call := s.trace.filterMap Event.call?

/-- The n-th answer is `answer`'s to the n-th call. -/
def Answered (answer : Nat → Call → Answer) (answers : Nat → Answer) (s : Bus) : Prop :=
  ∀ n c, s.callsMade[n]? = some c → answers n = answer n c

/-- As many calls are in the trace as were counted. -/
def Bus.Logged (s : Bus) : Prop := s.callsMade.length = s.calls

/-- The program forgets no call. -/
def Grows {α : Type} (p : OnBus α) : Prop := ∀ cs, Keeps (fun s : Bus => cs <+: s.callsMade) p

section

variable {answers : Nat → Answer} {α β : Type}

/-- The bus behind a call. -/
def Bus.after (answers : Nat → Answer) (c : Call) (s : Bus) : Bus where
  calls := s.calls + 1
  trace := s.trace ++ [.call c (answers s.calls).rv]

/-- What a call does, as one state. -/
theorem kernel_apply (c : Call) (s : Bus) :
    kernel answers c s = (.ok (answers s.calls), s.after answers c) := rfl

/-- One more call has been made. -/
theorem callsMade_after (c : Call) (s : Bus) :
    (s.after answers c).callsMade = s.callsMade ++ [c] := by
  show (s.trace ++ [Event.call c _]).filterMap Event.call? = _
  rw [List.filterMap_append]
  rfl

/-- The log goes with the count. -/
theorem Bus.Logged.after {s : Bus} (h : s.Logged) (c : Call) : (s.after answers c).Logged := by
  show (s.after answers c).callsMade.length = s.calls + 1
  rw [callsMade_after, List.length_append, List.length_singleton, h]

/-- At first both are empty. -/
theorem logged_fresh : Bus.fresh.Logged := rfl

/-- A call forgets none of those in front of it. -/
theorem grows_kernel (c : Call) : Grows (kernel answers c) := by
  intro cs s hs
  show cs <+: (s.after answers c).callsMade
  rw [callsMade_after]
  exact hs.trans (List.prefix_append _ _)

/-- What calls nothing forgets no call. -/
theorem grows_pure (a : α) : Grows (pure a : OnBus α) := fun _ => keeps_pure _ a

/-- Two programs that forget no call, one behind the other. -/
theorem grows_bind {p : OnBus α} {f : α → OnBus β} (hp : Grows p) (hf : ∀ a, Grows (f a)) :
    Grows (p >>= f) := fun cs => keeps_bind (hp cs) fun a => hf a cs

/-- Giving up forgets no call. -/
theorem grows_fail (fd status : Int) : Grows (fail answers fd status : OnBus α) := fun cs =>
  keeps_bind (grows_kernel _ cs) fun _ => keeps_throw _ _

/-- Trying again forgets no call, by induction on the tries. -/
theorem grows_retry (c : Call) : ∀ (retries : Nat) (rv : Answer), Grows (retry answers c retries rv)
  | 0, _ => grows_pure _
  | retries + 1, _ => fun cs =>
      keeps_ite (keeps_bind (grows_kernel _ cs) fun rv => grows_retry c retries rv cs)
        (keeps_pure _ _)

/-- Reading by bytes forgets no call, by induction on the count. -/
theorem grows_readBytes (fd : Int) (flags : Flags) : ∀ (count : Nat) (offset : UInt8)
    (rdata : List UInt8), Grows (readBytes answers fd flags count offset rdata)
  | 0, _, _ => grows_pure _
  | count + 1, _, _ => fun cs => keeps_bind (grows_retry _ _ _ cs) fun _ =>
      keeps_ite (grows_fail _ _ cs) (grows_readBytes fd flags count _ _ cs)

/-- Reading by blocks forgets no call, by induction on the passes. -/
theorem grows_readBlocks (fd : Int) (flags : Flags) : ∀ (passes count : Nat) (offset : UInt8)
    (rdata : List UInt8), Grows (readBlocks answers fd flags passes count offset rdata)
  | 0, _, _, _ => grows_pure _
  | passes + 1, _, _, _ => fun cs => keeps_ite (keeps_pure _ _) <|
      keeps_bind (grows_retry _ _ _ cs) fun _ =>
        keeps_ite (grows_fail _ _ cs) (grows_readBlocks fd flags passes _ _ _ cs)

/-- **A call that was made was answered as such**, whatever came behind it. -/
theorem answered_kernel {answer : Nat → Call → Answer} {c : Call} {f : Answer → OnBus β} {s : Bus}
    (hs : s.Logged) (hf : ∀ a, Grows (f a))
    (h : Answered answer answers ((kernel answers c >>= f) s).2) :
    answers s.calls = answer s.calls c := by
  have hrun : (kernel answers c >>= f) s = f (answers s.calls) (s.after answers c) :=
    bind_of_ok (kernel_apply c s)
  rw [hrun] at h
  -- The call is in the trace right behind it, and in every trace that follows.
  have hthere : s.callsMade ++ [c] <+: (s.after answers c).callsMade :=
    ⟨[], by rw [List.append_nil, callsMade_after]⟩
  obtain ⟨later, hlater⟩ := hf (answers s.calls) (s.callsMade ++ [c]) (s.after answers c) hthere
  refine h s.calls c ?_
  rw [← hlater, List.append_assoc, ← hs, List.getElem?_append_right (Nat.le_refl _), Nat.sub_self]
  rfl

end

/-! ## The device: its registers, and how it answers -/

/-- A device with these registers, on a bus on which the calls that are `faulty` fail. -/
structure Device (registers : UInt8 → UInt8) (faulty : Nat → Bool) (answer : Nat → Call → Answer) :
    Prop where
  readByte : ∀ n fd offset, faulty n = false →
    answer n (.readByte fd offset) = ⟨(registers offset).toNat, []⟩
  readI2cBlock : ∀ n fd offset size, size ≤ blockSize → faulty n = false →
    answer n (.readI2cBlock fd offset size) =
      ⟨size, (List.range size).map fun i => registers (offset + UInt8.ofNat i)⟩
  byteFails : ∀ n fd offset, faulty n = true → (answer n (.readByte fd offset)).rv < 0
  blockFails : ∀ n fd offset size, faulty n = true →
    (answer n (.readI2cBlock fd offset size)).rv < 0

/-- The registers from an offset on, modulo 256. -/
def registersFrom (registers : UInt8 → UInt8) (offset : UInt8) (size : Nat) : List UInt8 :=
  (List.range size).map fun i => registers (offset + UInt8.ofNat i)

/-- A transfer that is tried from the n-th call on: the call behind it, if one of its tries comes
    through. -/
def recovers (faulty : Nat → Bool) : Nat → Nat → Option Nat
  | 0, _ => none
  | tries + 1, n => if faulty n then recovers faulty tries (n + 1) else some (n + 1)

/-- Transfers one behind the other, from the n-th call on. -/
def allRecover (faulty : Nat → Bool) (tries : Nat) : Nat → Nat → Option Nat
  | 0, n => some n
  | transfers + 1, n => (recovers faulty tries n).bind (allRecover faulty tries transfers)

/-- What `onlp_i2c_open` comes to, on a bus of its own. -/
def opened (answer : Nat → Call → Answer) (bus : Int) (addr : UInt8) (flags : Flags) :
    Except Int Int :=
  let fd := (answer 0 (.openBus bus)).rv
  if fd < 0 then .error fd
  else if (answer 1 (.tenbit fd flags.tenbit)).rv = -1 then .error statusI2c
  else if (answer 2 (.pec fd flags.pec)).rv = -1 then .error statusI2c
  else if (answer 3 (.slave fd flags.force addr)).rv = -1 then .error statusI2c
  else .ok fd

/-- What a read should come to, when the bus was opened or not, and every transfer came through or not. -/
def readResult (registers : UInt8 → UInt8) (offset : UInt8) (size : Nat) (opened : Except Int Int)
    (recovered : Bool) : Except Int (List UInt8) :=
  match opened with
  | .error e => .error e
  | .ok _ =>
      if recovered then .ok (registersFrom registers offset size) else .error statusI2c

section

variable {registers : UInt8 → UInt8} {faulty : Nat → Bool} {answer : Nat → Call → Answer}
variable {answers : Nat → Answer} {β : Type}

/-! ## One transfer gives the registers that it asked for -/

/-- What succeeded is not tried again. -/
theorem retry_done (c : Call) {rv : Answer} (h : 0 ≤ rv.rv) : ∀ tries,
    retry answers c tries rv = pure rv
  | 0 => rfl
  | tries + 1 => by rw [retry, if_neg (by omega)]

/-- **A transfer**: the good answer goes on if one of the tries comes through, and a bad one if none does. -/
theorem retry_run {c : Call} {good : Answer} (hgood : 0 ≤ good.rv)
    (hok : ∀ n, faulty n = false → answer n c = good)
    (hbad : ∀ n, faulty n = true → (answer n c).rv < 0) {f : Answer → OnBus β}
    (hf : ∀ a, Grows (f a)) : ∀ (tries : Nat) (rv : Answer) (s : Bus), rv.rv < 0 → s.Logged →
      Answered answer answers ((retry answers c tries rv >>= f) s).2 →
      (∀ n, recovers faulty tries s.calls = some n →
        ∃ s₁, s₁.Logged ∧ s₁.calls = n ∧ (retry answers c tries rv >>= f) s = f good s₁) ∧
      (recovers faulty tries s.calls = none →
        ∃ a s₁, a.rv < 0 ∧ (retry answers c tries rv >>= f) s = f a s₁) := by
  intro tries
  induction tries with
  | zero =>
      intro rv s hrv _ _
      exact ⟨fun n h => (nomatch h), fun _ => ⟨rv, s, hrv, rfl⟩⟩
  | succ tries ih =>
      intro rv s hrv hs hA
      have hstep : retry answers c (tries + 1) rv >>= f =
          kernel answers c >>= fun rv => retry answers c tries rv >>= f := by
        rw [retry, if_pos hrv, Prog.bind_assoc]
      rw [hstep] at hA ⊢
      have hanswer : answers s.calls = answer s.calls c :=
        answered_kernel hs (fun a => grows_bind (grows_retry c tries a) hf) hA
      have hrun : (kernel answers c >>= fun rv => retry answers c tries rv >>= f) s =
          (retry answers c tries (answer s.calls c) >>= f) (s.after answers c) := by
        rw [bind_of_ok (kernel_apply c s), hanswer]
      rw [hrun] at hA ⊢
      have hafter : (s.after answers c).Logged := hs.after c
      cases hfault : faulty s.calls with
      | true =>
          -- The try failed: the others are left.
          have hrec : recovers faulty (tries + 1) s.calls = recovers faulty tries (s.calls + 1) := by
            rw [recovers, if_pos hfault]
          rw [hrec]
          exact ih _ _ (hbad s.calls hfault) hafter hA
      | false =>
          have hrec : recovers faulty (tries + 1) s.calls = some (s.calls + 1) := by
            rw [recovers, if_neg (by rw [hfault]; decide)]
          rw [hrec, hok s.calls hfault, retry_done c hgood]
          refine ⟨fun n hn => ?_, fun h => nomatch h⟩
          cases hn
          exact ⟨_, hafter, rfl, rfl⟩

/-! ## Registers in order, one behind the other -/

/-- The registers from an offset on: one, and those behind it. -/
theorem registersFrom_succ (offset : UInt8) (size : Nat) :
    registersFrom registers offset (size + 1) =
      registers offset :: registersFrom registers (offset + 1) size := by
  rw [registersFrom, registersFrom, List.range_succ_eq_map, List.map_cons, List.map_map]
  have hzero : offset + UInt8.ofNat 0 = offset := UInt8.add_zero offset
  rw [hzero]
  congr 1
  refine List.map_congr_left fun i _ => ?_
  show registers (offset + UInt8.ofNat (i + 1)) = registers (offset + 1 + UInt8.ofNat i)
  rw [UInt8.ofNat_add, UInt8.add_comm (UInt8.ofNat i), ← UInt8.add_assoc]
  rfl

/-- Some registers, and those behind them; the offset goes round at 256. -/
theorem registersFrom_append : ∀ (m n : Nat) (offset : UInt8),
    registersFrom registers offset (m + n) =
      registersFrom registers offset m ++ registersFrom registers (offset + UInt8.ofNat m) n
  | 0, n, offset => by
      have hzero : offset + UInt8.ofNat 0 = offset := UInt8.add_zero offset
      rw [Nat.zero_add, hzero]
      rfl
  | m + 1, n, offset => by
      have hsum : m + 1 + n = m + n + 1 := by omega
      have hoffset : offset + 1 + UInt8.ofNat m = offset + UInt8.ofNat (m + 1) := by
        rw [UInt8.ofNat_add, UInt8.add_comm (UInt8.ofNat m), ← UInt8.add_assoc]
        rfl
      rw [hsum, registersFrom_succ, registersFrom_append m n, registersFrom_succ, hoffset,
        List.cons_append]

/-! ## The loops over blocks of 32 bytes and over single bytes -/

/-- Giving up closes the bus. -/
theorem fail_run (fd status : Int) (f : List UInt8 → OnBus β) (s : Bus) :
    (fail answers fd status >>= f) s = (.error status, s.after answers (.close fd)) := rfl

/-- A pass of a loop: a transfer, which ends the program when what it gave is `bad`. -/
theorem pass_run {c : Call} {good : Answer} (hgood : 0 ≤ good.rv)
    (hok : ∀ n, faulty n = false → answer n c = good)
    (hfail : ∀ n, faulty n = true → (answer n c).rv < 0) {fd : Int} {bad : Answer → Prop}
    [DecidablePred bad] (hbad : ∀ a : Answer, a.rv < 0 → bad a) (hnot : ¬ bad good)
    {next : Answer → OnBus (List UInt8)} (hnext : ∀ a, Grows (next a)) {f : List UInt8 → OnBus β}
    (hf : ∀ a, Grows (f a)) {tries : Nat} {s : Bus} (hs : s.Logged)
    (hA : Answered answer answers ((retry answers c tries ⟨-1, []⟩ >>= fun rv =>
      (if bad rv then fail answers fd statusI2c else next rv) >>= f) s).2) :
    (∀ n, recovers faulty tries s.calls = some n →
      ∃ s₁, s₁.Logged ∧ s₁.calls = n ∧ (retry answers c tries ⟨-1, []⟩ >>= fun rv =>
        (if bad rv then fail answers fd statusI2c else next rv) >>= f) s = (next good >>= f) s₁) ∧
    (recovers faulty tries s.calls = none →
      ∃ s₁, (retry answers c tries ⟨-1, []⟩ >>= fun rv =>
        (if bad rv then fail answers fd statusI2c else next rv) >>= f) s =
          (.error statusI2c, s₁)) := by
  have hgrows : ∀ rv : Answer,
      Grows ((if bad rv then fail answers fd statusI2c else next rv) >>= f) := fun rv =>
    grows_bind (fun cs => keeps_ite (grows_fail _ _ cs) (hnext rv cs)) hf
  obtain ⟨hcame, hnone⟩ := retry_run hgood hok hfail hgrows tries ⟨-1, []⟩ s (by decide) hs hA
  constructor
  · intro n hn
    obtain ⟨s₁, hs₁, hcalls, hrun⟩ := hcame n hn
    refine ⟨s₁, hs₁, hcalls, ?_⟩
    rw [hrun, if_neg hnot]
  · intro hn
    obtain ⟨a, s₁, ha, hrun⟩ := hnone hn
    refine ⟨s₁.after answers (.close fd), ?_⟩
    rw [hrun, if_pos (hbad a ha)]
    exact fail_run fd statusI2c f s₁

/-- `readBytes` with `count` bytes to go: all of them, or the error of a transfer that did not come
    through. -/
theorem readBytes_run (hdev : Device registers faulty answer) (fd : Int) (flags : Flags)
    {f : List UInt8 → OnBus β} (hf : ∀ a, Grows (f a)) :
    ∀ (count : Nat) (offset : UInt8) (rdata : List UInt8) (s : Bus), s.Logged →
      Answered answer answers ((readBytes answers fd flags count offset rdata >>= f) s).2 →
      (∀ n, allRecover faulty (readTries flags) count s.calls = some n →
        ∃ s₁, (readBytes answers fd flags count offset rdata >>= f) s =
          f (rdata ++ registersFrom registers offset count) s₁) ∧
      (allRecover faulty (readTries flags) count s.calls = none →
        ∃ s₁, (readBytes answers fd flags count offset rdata >>= f) s = (.error statusI2c, s₁)) := by
  intro count
  induction count with
  | zero =>
      intro offset rdata s _ _
      refine ⟨fun n _ => ⟨s, ?_⟩, fun h => nomatch h⟩
      rw [registersFrom, List.range_zero, List.map_nil, List.append_nil]
      rfl
  | succ count ih =>
      intro offset rdata s hs hA
      rw [readBytes, Prog.bind_assoc] at hA ⊢
      have hpos : ¬ (((registers offset).toNat : Nat) : Int) < 0 := by omega
      have hbyte : UInt8.ofNat (((registers offset).toNat : Nat) : Int).toNat = registers offset := by
        rw [Int.toNat_natCast, UInt8.ofNat_toNat]
      obtain ⟨hcame, hnone⟩ := pass_run (Int.natCast_nonneg _)
        (fun n => hdev.readByte n fd offset) (fun n => hdev.byteFails n fd offset) (fun _ ha => ha)
        hpos (fun rv => grows_readBytes fd flags count (offset + 1) _) hf hs hA
      cases hrec : recovers faulty (readTries flags) s.calls with
      | none =>
          have hall : allRecover faulty (readTries flags) (count + 1) s.calls = none := by
            rw [allRecover, hrec, Option.bind_none]
          rw [hall]
          exact ⟨fun n h => (nomatch h), fun _ => hnone hrec⟩
      | some m =>
          obtain ⟨s₁, hs₁, hm, hrun⟩ := hcame m hrec
          have hall : allRecover faulty (readTries flags) (count + 1) s.calls =
              allRecover faulty (readTries flags) count s₁.calls := by
            rw [allRecover, hrec, Option.bind_some, hm]
          rw [hrun, hbyte] at hA
          obtain ⟨hgood, hbad⟩ := ih (offset + 1) (rdata ++ [registers offset]) s₁ hs₁ hA
          rw [hall, hrun, hbyte]
          refine ⟨fun n hn => ?_, hbad⟩
          obtain ⟨s₂, hrun₂⟩ := hgood n hn
          refine ⟨s₂, ?_⟩
          rw [hrun₂, registersFrom_succ, List.append_assoc, List.singleton_append]

/-- The transfers of a block read of `count` bytes. -/
def blocks (count : Nat) : Nat := (count + 31) / 32

/-- The same for `readBlocks`. -/
theorem readBlocks_run (hdev : Device registers faulty answer) (fd : Int) {flags : Flags}
    (hflags : flags.useSmbusBlockRead = false) {f : List UInt8 → OnBus β} (hf : ∀ a, Grows (f a)) :
    ∀ (passes count : Nat) (offset : UInt8) (rdata : List UInt8) (s : Bus), count ≤ passes →
      s.Logged →
      Answered answer answers ((readBlocks answers fd flags passes count offset rdata >>= f) s).2 →
      (∀ n, allRecover faulty (readTries flags) (blocks count) s.calls = some n →
        ∃ s₁, (readBlocks answers fd flags passes count offset rdata >>= f) s =
          f (rdata ++ registersFrom registers offset count) s₁) ∧
      (allRecover faulty (readTries flags) (blocks count) s.calls = none →
        ∃ s₁, (readBlocks answers fd flags passes count offset rdata >>= f) s =
          (.error statusI2c, s₁)) := by
  intro passes
  induction passes with
  | zero =>
      intro count offset rdata s hle _ _
      have hzero : count = 0 := by omega
      subst hzero
      refine ⟨fun n _ => ⟨s, ?_⟩, fun h => nomatch h⟩
      rw [registersFrom, List.range_zero, List.map_nil, List.append_nil]
      rfl
  | succ passes ih =>
      intro count offset rdata s hle hs hA
      by_cases hcount : count = 0
      · subst hcount
        refine ⟨fun n _ => ⟨s, ?_⟩, fun h => nomatch h⟩
        rw [readBlocks, if_pos rfl, registersFrom, List.range_zero, List.map_nil, List.append_nil]
        rfl
      · -- A full block, or the rest.
        obtain ⟨rsize, hrsize⟩ : ∃ rsize, rsize = if count ≥ blockSize then blockSize else count :=
          ⟨_, rfl⟩
        have hsize : 0 < rsize ∧ rsize ≤ count ∧ rsize ≤ blockSize ∧
            blocks count = blocks (count - rsize) + 1 := by
          rw [hrsize]
          unfold blocks blockSize
          split <;> omega
        obtain ⟨hpos, hrest, hblock, hblocks⟩ := hsize
        rw [readBlocks, if_neg hcount, hflags] at hA ⊢
        simp only [← hrsize, Bool.false_eq_true, if_false] at hA ⊢
        rw [Prog.bind_assoc] at hA ⊢
        obtain ⟨hcame, hnone⟩ := pass_run (Int.natCast_nonneg _)
          (fun n => hdev.readI2cBlock n fd offset rsize hblock)
          (fun n => hdev.blockFails n fd offset rsize)
          (fun a ha => by omega) (fun h => h rfl)
          (fun rv => grows_readBlocks fd flags passes _ _ _) hf hs hA
        cases hrec : recovers faulty (readTries flags) s.calls with
        | none =>
            have hall : allRecover faulty (readTries flags) (blocks count) s.calls = none := by
              rw [hblocks, allRecover, hrec, Option.bind_none]
            rw [hall]
            exact ⟨fun n h => (nomatch h), fun _ => hnone hrec⟩
        | some m =>
            obtain ⟨s₁, hs₁, hm, hrun⟩ := hcame m hrec
            have hall : allRecover faulty (readTries flags) (blocks count) s.calls =
                allRecover faulty (readTries flags) (blocks (count - rsize)) s₁.calls := by
              rw [hblocks, allRecover, hrec, Option.bind_some, hm]
            rw [hrun] at hA
            obtain ⟨hgood, hbad⟩ := ih (count - rsize) (offset + UInt8.ofNat rsize)
              (rdata ++ registersFrom registers offset rsize) s₁ (by omega) hs₁ hA
            rw [hall, hrun]
            refine ⟨fun n hn => ?_, hbad⟩
            obtain ⟨s₂, hrun₂⟩ := hgood n hn
            refine ⟨s₂, hrun₂.trans ?_⟩
            have hsplit : count = rsize + (count - rsize) := by omega
            rw [List.append_assoc, ← registersFrom_append, ← hsplit]

/-! ## The two reads: with blocks, and without -/

/-- A call of the set-up: the device is closed again, or the set-up goes on. -/
def setup (answers : Nat → Answer) (c : Call) (fd : Int) (next : OnBus Int) : OnBus Int := do
  let rv ← kernel answers c
  if rv.rv = -1 then fail answers fd statusI2c else next

/-- `onlp_i2c_open` sets up three things, one behind the other. -/
theorem open_setups (bus : Int) (addr : UInt8) (flags : Flags) :
    onlpI2cOpen answers bus addr flags = kernel answers (.openBus bus) >>= fun fd =>
      if fd.rv < 0 then throw fd.rv
      else setup answers (.tenbit fd.rv flags.tenbit) fd.rv
        (setup answers (.pec fd.rv flags.pec) fd.rv
          (setup answers (.slave fd.rv flags.force addr) fd.rv (pure fd.rv))) := rfl

/-- Setting up forgets no call. -/
theorem grows_setup (c : Call) (fd : Int) {next : OnBus Int} (hnext : Grows next) :
    Grows (setup answers c fd next) :=
  grows_bind (grows_kernel c) fun _ cs => keeps_ite (grows_fail _ _ cs) (hnext cs)

/-- **Setting up** one thing: it fails, and so does the whole, or the rest goes on. -/
theorem setup_run {c : Call} {fd : Int} {next : OnBus Int} (hnext : Grows next)
    {g : Int → OnBus β} (hg : ∀ a, Grows (g a)) {s : Bus} (hs : s.Logged)
    (hA : Answered answer answers ((setup answers c fd next >>= g) s).2) :
    ((answer s.calls c).rv = -1 →
      ∃ s₁, (setup answers c fd next >>= g) s = (.error statusI2c, s₁)) ∧
    ((answer s.calls c).rv ≠ -1 →
      (setup answers c fd next >>= g) s = (next >>= g) (s.after answers c)) := by
  rw [setup, Prog.bind_assoc] at hA ⊢
  have hanswer : answers s.calls = answer s.calls c :=
    answered_kernel hs (fun rv => grows_bind
      (fun cs => keeps_ite (grows_fail _ _ cs) (hnext cs)) hg) hA
  rw [bind_of_ok (kernel_apply c s), hanswer]
  constructor
  · intro hrv
    rw [if_pos hrv]
    exact ⟨_, rfl⟩
  · intro hrv
    rw [if_neg hrv]

/-- `onlp_i2c_open` in front of a program. -/
theorem open_run (bus : Int) (addr : UInt8) (flags : Flags) {g : Int → OnBus β}
    (hg : ∀ a, Grows (g a))
    (hA : Answered answer answers ((onlpI2cOpen answers bus addr flags >>= g) Bus.fresh).2) :
    (∀ e, opened answer bus addr flags = .error e →
      ∃ s₁, (onlpI2cOpen answers bus addr flags >>= g) Bus.fresh = (.error e, s₁)) ∧
    (∀ fd, opened answer bus addr flags = .ok fd →
      ∃ s₁ : Bus, s₁.Logged ∧ s₁.calls = 4 ∧
        (onlpI2cOpen answers bus addr flags >>= g) Bus.fresh = g fd s₁) := by
  have hslave : ∀ fd, Grows (setup answers (.slave fd flags.force addr) fd (pure fd)) := fun fd =>
    grows_setup _ fd (grows_pure fd)
  have hpec : ∀ fd, Grows (setup answers (.pec fd flags.pec) fd
      (setup answers (.slave fd flags.force addr) fd (pure fd))) := fun fd =>
    grows_setup _ fd (hslave fd)
  rw [open_setups, Prog.bind_assoc] at hA ⊢
  have hanswer : answers 0 = answer 0 (.openBus bus) := by
    refine answered_kernel logged_fresh (fun rv => grows_bind (fun cs => ?_) hg) hA
    exact keeps_ite (keeps_throw _ _) (grows_setup _ rv.rv (hpec rv.rv) cs)
  obtain ⟨fd, hfd⟩ : ∃ fd, fd = (answer 0 (.openBus bus)).rv := ⟨_, rfl⟩
  have hfresh : answers Bus.fresh.calls = answer 0 (.openBus bus) := hanswer
  rw [bind_of_ok (kernel_apply _ _), hfresh, ← hfd] at hA ⊢
  have hs₁ : (Bus.fresh.after answers (.openBus bus)).Logged := logged_fresh.after _
  unfold opened
  rw [← hfd]
  by_cases hneg : fd < 0
  · simp only [if_pos hneg]
    refine ⟨fun e he => ?_, fun fd he => nomatch he⟩
    cases he
    exact ⟨_, rfl⟩
  · simp only [if_neg hneg] at hA ⊢
    obtain ⟨hbad, hgood⟩ := setup_run (hpec fd) hg hs₁ hA
    by_cases hrv : (answer 1 (.tenbit fd flags.tenbit)).rv = -1
    · simp only [if_pos hrv]
      refine ⟨fun e he => ?_, fun fd he => nomatch he⟩
      cases he
      exact hbad hrv
    · rw [hgood hrv] at hA ⊢
      simp only [if_neg hrv]
      obtain ⟨hbad, hgood⟩ := setup_run (hslave fd) hg (hs₁.after _) hA
      by_cases hrv : (answer 2 (.pec fd flags.pec)).rv = -1
      · simp only [if_pos hrv]
        refine ⟨fun e he => ?_, fun fd he => nomatch he⟩
        cases he
        exact hbad hrv
      · rw [hgood hrv] at hA ⊢
        simp only [if_neg hrv]
        obtain ⟨hbad, hgood⟩ := setup_run (grows_pure fd) hg ((hs₁.after _).after _) hA
        by_cases hrv : (answer 3 (.slave fd flags.force addr)).rv = -1
        · simp only [if_pos hrv]
          refine ⟨fun e he => ?_, fun fd he => nomatch he⟩
          cases he
          exact hbad hrv
        · rw [hgood hrv]
          simp only [if_neg hrv]
          refine ⟨fun e he => (nomatch he), fun fd' he => ?_⟩
          cases he
          exact ⟨_, ((hs₁.after _).after _).after _, rfl, rfl⟩

/-- What closes a read. -/
theorem close_run (fd : Int) (rdata : List UInt8) (s : Bus) :
    (kernel answers (.close fd) >>= fun _ => (pure rdata : OnBus (List UInt8))) s =
      (.ok rdata, s.after answers (.close fd)) := rfl

/-- Closing forgets no call. -/
theorem grows_close (fd : Int) (rdata : List UInt8) :
    Grows (kernel answers (.close fd) >>= fun _ => (pure rdata : OnBus (List UInt8))) :=
  grows_bind (grows_kernel _) fun _ => grows_pure rdata

/-- A read whose loop gives all registers, or fails, gives them or fails. -/
theorem read_result {loop : Int → OnBus (List UInt8)} (hloop : ∀ fd, Grows (loop fd)) {bus : Int}
    {addr : UInt8} {flags : Flags} {offset : UInt8} {size transfers : Nat}
    (hrun : ∀ (fd : Int) (s : Bus), s.Logged →
      Answered answer answers ((loop fd >>= fun rdata =>
        kernel answers (.close fd) >>= fun _ => pure rdata) s).2 →
      (∀ n, allRecover faulty (readTries flags) transfers s.calls = some n →
        ∃ s₁, (loop fd >>= fun rdata => kernel answers (.close fd) >>= fun _ => pure rdata) s =
          (kernel answers (.close fd) >>= fun _ => pure (registersFrom registers offset size)) s₁) ∧
      (allRecover faulty (readTries flags) transfers s.calls = none →
        ∃ s₁, (loop fd >>= fun rdata => kernel answers (.close fd) >>= fun _ => pure rdata) s =
          (.error statusI2c, s₁)))
    (hA : Answered answer answers ((onlpI2cOpen answers bus addr flags >>= fun fd =>
      loop fd >>= fun rdata => kernel answers (.close fd) >>= fun _ => pure rdata) Bus.fresh).2) :
    ((onlpI2cOpen answers bus addr flags >>= fun fd =>
      loop fd >>= fun rdata => kernel answers (.close fd) >>= fun _ => pure rdata) Bus.fresh).1 =
      readResult registers offset size (opened answer bus addr flags)
        (allRecover faulty (readTries flags) transfers 4).isSome := by
  have hgrows : ∀ fd, Grows (loop fd >>= fun rdata =>
      kernel answers (.close fd) >>= fun _ => pure rdata) := fun fd =>
    grows_bind (hloop fd) fun rdata => grows_close fd rdata
  obtain ⟨hnot, hopen⟩ := open_run bus addr flags hgrows hA
  cases hopened : opened answer bus addr flags with
  | error e =>
      obtain ⟨s₁, hs₁⟩ := hnot e hopened
      rw [hs₁]
      rfl
  | ok fd =>
      obtain ⟨s₁, hlogged, hcalls, hs₁⟩ := hopen fd hopened
      rw [hs₁] at hA ⊢
      obtain ⟨hgood, hbad⟩ := hrun fd s₁ hlogged hA
      rw [hcalls] at hgood hbad
      cases hrec : allRecover faulty (readTries flags) transfers 4 with
      | none =>
          obtain ⟨s₂, hs₂⟩ := hbad hrec
          rw [hs₂]
          rfl
      | some n =>
          obtain ⟨s₂, hs₂⟩ := hgood n hrec
          rw [hs₂, close_run]
          rfl

end

/-- **The two reads agree**: each gives the registers from the offset on, and nothing behind them, when all
    of its transfers come through, and the i2c error when one does not.  On a bus that does not open both
    give the error of that. -/
theorem reads_agree {registers : UInt8 → UInt8} {faulty : Nat → Bool}
    {answer : Nat → Call → Answer} (hdev : Device registers faulty answer)
    {readAnswers blockAnswers : Nat → Answer} (bus : Int) (addr offset : UInt8) (size : Int)
    {flags : Flags} (hflags : flags.useSmbusBlockRead = false)
    (hread : Answered answer readAnswers
      (onlpI2cRead readAnswers bus addr offset size flags Bus.fresh).2)
    (hblock : Answered answer blockAnswers
      (onlpI2cBlockRead blockAnswers bus addr offset size flags Bus.fresh).2) :
    (onlpI2cRead readAnswers bus addr offset size flags Bus.fresh).1 =
        readResult registers offset size.toNat (opened answer bus addr flags)
          (allRecover faulty (readTries flags) size.toNat 4).isSome ∧
      (onlpI2cBlockRead blockAnswers bus addr offset size flags Bus.fresh).1 =
        readResult registers offset size.toNat (opened answer bus addr flags)
          (allRecover faulty (readTries flags) (blocks size.toNat) 4).isSome := by
  constructor
  · refine read_result (fun fd => grows_readBytes fd flags _ _ _) (fun fd s hs hA => ?_) hread
    exact readBytes_run hdev fd flags (grows_close fd) size.toNat offset [] s hs hA
  · refine read_result (fun fd => grows_readBlocks fd flags _ _ _ _) (fun fd s hs hA => ?_) hblock
    exact readBlocks_run hdev fd hflags (grows_close fd) _ size.toNat offset [] s (Nat.le_refl _) hs hA

/-! ## A device that fails now and then -/

/-- The answers to these calls. -/
def answersTo (answer : Nat → Call → Answer) (cs : List Call) (n : Nat) : Answer :=
  (cs[n]?.map (answer n)).getD ⟨0, []⟩

/-- A list of calls is answered by a device. -/
theorem answered_answersTo {answer : Nat → Call → Answer} {cs : List Call} {s : Bus}
    (h : s.callsMade = cs) : Answered answer (answersTo answer cs) s := by
  intro n c hc
  rw [h] at hc
  rw [answersTo, hc]
  rfl

/-- Each register holds its own number; the call behind the set-up fails. -/
def numbered (n : Nat) : Call → Answer
  | .openBus _ => ⟨3, []⟩
  | .readByte _ offset => if n == 4 then ⟨-5, []⟩ else ⟨offset.toNat, []⟩
  | .readI2cBlock _ offset size =>
      if n == 4 then ⟨-5, []⟩
      else ⟨size, (List.range size).map fun i => offset + UInt8.ofNat i⟩
  | _ => ⟨0, []⟩

/-- The example's registers hold their own numbers. -/
theorem numbered_device : Device (fun r => r) (fun n => n == 4) numbered where
  readByte n fd offset h := by rw [numbered, h]; rfl
  readI2cBlock n fd offset size _ h := by rw [numbered, h]; rfl
  byteFails n fd offset h := by rw [numbered, h, if_pos rfl]; decide
  blockFails n fd offset size h := by rw [numbered, h, if_pos rfl]; decide

/-- The calls that open the bus. -/
def setupCalls : List Call := [.openBus 0, .tenbit 3 false, .pec 3 false, .slave 3 false 80]

/-- Two bytes one by one, the first of which is tried for twice. -/
def byteCalls : List Call :=
  setupCalls ++ [.readByte 3 255, .readByte 3 255, .readByte 3 0, .close 3]

/-- The same two in blocks. -/
def blockCalls : List Call :=
  setupCalls ++ [.readI2cBlock 3 255 2, .readI2cBlock 3 255 2, .close 3]

/-- Both ways read the same two bytes, around the end of the registers. -/
theorem reads_agree_numbered :
    (onlpI2cRead (answersTo numbered byteCalls) 0 80 255 2 Flags.none Bus.fresh).1 = .ok [255, 0] ∧
      (onlpI2cBlockRead (answersTo numbered blockCalls) 0 80 255 2 Flags.none Bus.fresh).1 =
        .ok [255, 0] :=
  reads_agree numbered_device 0 80 255 2 rfl
    (answered_answersTo rfl) (answered_answersTo rfl)

end DentOS.I2c
