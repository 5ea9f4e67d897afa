/-
  Readers and the updater keep out of each other's way.

  The hand-off is one flag.  The update thread gets past its check only while `restructure_trigger` is
  false, and sets it when it is done; the main thread restructures only while it is true, and clears it
  when it is done.  So the two are never both at work on the lists (`Exclusive.critical`,
  `Exclusive.restructuring`).

  A handler may see the buffers swapped under it.  But then the update thread is about to set the
  trigger, or has set it, and only the main thread, which is still in the handler, can clear it: until
  the handler is done the update thread does not write again (`Exclusive.held`).
-/
import DentOS.Lib.Transition
import DentOS.Snmp.Tables
import DentOS.Snmp.Threads

namespace DentOS.Snmp

open Effects Relation

section

variable {Data : Type}

/-! ## Work on an element: which buffer it may write -/

/-- A program that begins with a load keeps what the rest keeps of the sensor loaded. -/
theorem keeps_load_bind {α : Type} {inv : Agent Data → Prop} {p : Ptr} {f : Sensor Data → Run Data α}
    (h : ∀ s ss, inv s → s.heap p = some ss → inv (f ss s).2) : Prog.Keeps inv (load p >>= f) := by
  intro s hs
  cases hp : s.heap p with
  | some ss =>
      rw [load_bind_apply hp]
      exact h s ss hs hp
  | none =>
      have hload : load p s = (.error .useAfterFree, s) := by
        unfold load
        rw [Prog.get_bind_apply, hp]
        rfl
      rw [Prog.bind_of_error hload]
      exact hs

/-- Of the state `s`, only the next buffer of `p` has been written. -/
structure Written (p : Ptr) (s s' : Agent Data) : Prop where
  currInfo : s'.currInfo = s.currInfo
  trigger : s'.restructureTrigger = s.restructureTrigger
  sensors : s'.sensors = s.sensors
  table : s'.sensorTable = s.sensorTable
  brk : s'.brk = s.brk
  free : ∀ q, s.heap q = none → s'.heap q = none
  buffers : ∀ q b ss, ¬ (p = q ∧ s.nextInfo = b) → s.heap q = some ss →
    ∃ ss', s'.heap q = some ss' ∧ ss'.sensorInfo b = ss.sensorInfo b

/-- Nothing written. -/
theorem Written.refl (p : Ptr) (s : Agent Data) : Written p s s :=
  ⟨rfl, rfl, rfl, rfl, rfl, fun _ h => h, fun _ _ ss _ h => ⟨ss, h, rfl⟩⟩

/-- A write of the next buffer, behind others. -/
theorem Written.write {p : Ptr} {s s' : Agent Data} {ss : Sensor Data} (h : Written p s s')
    (hp : s'.heap p = some ss) (info : SensorInfo Data) :
    Written p s (s'.write p (some (ss.setInfo s'.nextInfo info))) where
  currInfo := h.currInfo
  trigger := h.trigger
  sensors := h.sensors
  table := h.table
  brk := h.brk
  free q hq := by
    have hnone := h.free q hq
    have hne : q ≠ p := by
      rintro rfl
      rw [hp] at hnone
      cases hnone
    rw [Agent.write_of_ne s' _ hne, hnone]
  buffers q b ss₀ hother hq := by
    obtain ⟨ss', hheap', hinfo⟩ := h.buffers q b ss₀ hother hq
    obtain ⟨ss'', hheap'', -, -, hsame⟩ := heap_setInfo (b := s'.nextInfo) info hp hheap'
    by_cases hb : b = s'.nextInfo
    · have hne : q ≠ p := by
        rintro rfl
        refine hother ⟨rfl, ?_⟩
        rw [hb, Agent.nextInfo, Agent.nextInfo, h.currInfo]
      exact ⟨ss', by rw [Agent.write_of_ne s' _ hne, hheap'], hinfo⟩
    · exact ⟨ss'', hheap'', by rw [hsame b hb, hinfo]⟩

/-- Marking a sensor writes its next buffer only. -/
theorem written_setNextValid (valid : Bool) (p : Ptr) (s : Agent Data) :
    Prog.Keeps (Written p s) (setNextValid valid p) :=
  keeps_load_bind fun _ _ hs hp => hs.write hp _

/-- The call of a handler writes the next buffer of its sensor only. -/
theorem written_updateHandler (infoGet : Oid → Data → Bool × Data) (p : Ptr) (s : Agent Data) :
    Prog.Keeps (Written p s) (updateHandler infoGet p) :=
  keeps_load_bind fun _ _ hs hp => hs.write hp _

/-- The update of a sensor writes its next buffer only. -/
theorem written_updateSensor (sweep : Sweep Data) (t : SensorType) (p : Ptr) (s : Agent Data) :
    Prog.Keeps (Written p s) (updateSensor sweep t p) := by
  have hhandler : ∀ infoGet : Oid → Data → Bool × Data, Prog.Keeps (Written p s) (do
      let ok ← updateHandler infoGet p
      if ok then pure () else setNextValid false p) := fun infoGet =>
    Prog.keeps_bind (written_updateHandler infoGet p s) fun _ =>
      Prog.keeps_ite (Prog.keeps_pure _ _) (written_setNextValid false p s)
  refine keeps_load_bind fun s' ss hs hp => ?_
  rw [Prog.get_bind_apply]
  refine Prog.keeps_ite ?_ (Prog.keeps_pure _ _) s' hs
  cases t with
  | temp => exact hhandler sweep.thermalInfoGet
  | fan => exact hhandler sweep.fanInfoGet
  | psu => exact hhandler sweep.psuInfoGet
  | led => exact Prog.keeps_throw _ _
  | misc => exact Prog.keeps_throw _ _

/-- **Both passes over the sensors write next buffers only.** -/
theorem written_body (phase : Phase) (sweep : Sweep Data) (t : SensorType) (p : Ptr)
    (s : Agent Data) : Prog.Keeps (Written p s) (phase.body sweep t p) := by
  cases phase with
  | mark => exact written_setNextValid false p s
  | update => exact written_updateSensor sweep t p s

/-- A program that returned, of which only the next buffer of `p` has been written. -/
theorem written_of_keeps {p : Ptr} {prog : Run Data Unit} {s s' : Agent Data}
    (hkeeps : Prog.Keeps (Written p s) prog) (h : prog s = (.ok (), s')) : Written p s s' := by
  have hs := hkeeps s (Written.refl p s)
  rwa [h] at hs

/-! ## Addresses: nothing is allocated twice -/

/-- Everything that exists is below `brk`. -/
structure Below (s : Agent Data) : Prop where
  fresh : ∀ p, s.brk ≤ p → s.heap p = none
  rows : ∀ t, ∀ r ∈ s.rows t, r.data < s.brk

/-- A sensor that is allocated is below the break. -/
theorem Below.lt_brk {s : Agent Data} (h : Below s) {p : Ptr} {ss : Sensor Data}
    (hp : s.heap p = some ss) : p < s.brk := by
  refine Nat.lt_of_not_le fun hle => ?_
  rw [h.fresh p hle] at hp
  cases hp

/-- Writes keep all of them below it. -/
theorem Written.below {p : Ptr} {s s' : Agent Data} (h : Written p s s') (hs : Below s) :
    Below s' where
  fresh q hq := h.free q (hs.fresh q (by rw [← h.brk]; exact hq))
  rows t r hr := by
    rw [h.brk]
    refine hs.rows t r ?_
    unfold Agent.rows at hr ⊢
    rwa [h.table] at hr

/-- What the restructuring of a sensor leaves alone. -/
structure Restructured (s s' : Agent Data) : Prop where
  currInfo : s'.currInfo = s.currInfo
  trigger : s'.restructureTrigger = s.restructureTrigger
  brk : s'.brk = s.brk
  below : Below s'

/-- The rows of a table that is set. -/
theorem rows_setTable (s : Agent Data) (t u : SensorType) (table : Tdata) :
    (s.setTable t table).rows u = if u = t then table.rows else s.rows u := by
  unfold Agent.rows Agent.setTable
  by_cases hu : u = t
  · rw [if_pos hu]
    dsimp only
    rw [if_pos hu]
  · rw [if_neg hu]
    dsimp only
    rw [if_neg hu]

/-- A table that is set, behind other restructuring. -/
theorem Restructured.setTable {s s' : Agent Data} (h : Restructured s s') (t : SensorType)
    {table : Tdata} (htable : ∀ r ∈ table.rows, r.data < s'.brk) :
    Restructured s (s'.setTable t table) where
  currInfo := h.currInfo
  trigger := h.trigger
  brk := h.brk
  below := by
    refine ⟨h.below.fresh, fun u r hr => ?_⟩
    rw [rows_setTable] at hr
    split at hr
    · exact htable r hr
    · exact h.below.rows u r hr

/-- Adding a row is restructuring. -/
theorem restructured_addTableRow (t : SensorType) (p : Ptr) (s : Agent Data) :
    Prog.Keeps (Restructured s) (addTableRow t p) := by
  refine keeps_load_bind fun s' ss hs hp => ?_
  rw [Prog.get_bind_apply]
  cases htable : s'.sensorTable t with
  | none => exact hs
  | some table =>
      dsimp only
      cases hadd : table.addRow ⟨ss.index, p⟩ with
      | none => exact hs
      | some table' =>
          refine hs.setTable t fun r hr => ?_
          rcases (Tdata.mem_addRow hadd r).mp hr with rfl | hr
          · exact hs.below.lt_brk hp
          · refine hs.below.rows t r ?_
            unfold Agent.rows
            rw [htable]
            exact hr

/-- Removing a row is restructuring. -/
theorem restructured_deleteTableRow (t : SensorType) (index : UInt32) (s : Agent Data) :
    Prog.Keeps (Restructured s) (deleteTableRow t index) := by
  intro s' hs
  unfold deleteTableRow
  rw [Prog.get_bind_apply]
  cases htable : s'.sensorTable t with
  | none => exact hs
  | some table =>
      refine hs.setTable t fun r hr => hs.below.rows t r ?_
      unfold Agent.rows
      rw [htable]
      exact ((Tdata.mem_deleteRow table index r).mp hr).1

/-- Freeing a sensor is restructuring. -/
theorem restructured_aimFree (p : Ptr) (s : Agent Data) :
    Prog.Keeps (Restructured s) (aimFree p) := by
  refine keeps_load_bind fun s' ss hs hp => ?_
  rw [Prog.get_bind_apply]
  refine Prog.keeps_ite (Prog.keeps_throw _ _) (Prog.keeps_modify fun s₁ h₁ => ?_) s' hs
  refine ⟨h₁.currInfo, h₁.trigger, h₁.brk, fun q hq => ?_, h₁.below.rows⟩
  by_cases hqp : q = p
  · rw [hqp, Agent.write_self]
  · rw [Agent.write_of_ne s₁ _ hqp]
    exact h₁.below.fresh q hq

/-- What is done for one sensor is restructuring. -/
theorem restructured_restructureSensor (t : SensorType) (p : Ptr) (s : Agent Data) :
    Prog.Keeps (Restructured s) (restructureSensor t p) := by
  refine keeps_load_bind fun s' ss hs hp => ?_
  rw [Prog.get_bind_apply]
  refine Prog.keeps_ite (restructured_addTableRow t p s) (Prog.keeps_ite ?_ (Prog.keeps_pure _ _)) s' hs
  refine Prog.keeps_bind (restructured_deleteTableRow t ss.index s) fun _ => ?_
  refine Prog.keeps_bind (Prog.keeps_modify fun s₁ h₁ => ?_) fun _ => restructured_aimFree p s
  exact ⟨h₁.currInfo, h₁.trigger, h₁.brk, h₁.below.fresh, h₁.below.rows⟩

/-- The invariant has every sensor below the break. -/
theorem Inv.below {s : Agent Data} (h : Inv s) : Below s where
  fresh := h.core.fresh
  rows t r hr := by
    obtain ⟨p, hp, ss, hheap, -, rfl⟩ := (mem_rows_iff h.rows h.core).mp hr
    exact h.core.lt_brk hheap

/-! ## The invariant: who uses a sensor, and which buffer -/

/-- A handler works on the sensor `p`. -/
def MainPc.Uses (p : Ptr) : MainPc Data → Prop
  | .idle => False
  | .called q => q = p
  | .handling q _ => q = p
  | .reading q _ _ => q = p
  | .restructuring _ => False

/-- A thread that holds a buffer of a sensor uses the sensor. -/
theorem MainPc.uses_of_holds {p : Ptr} {b : Fin 2} : ∀ {pc : MainPc Data}, pc.Holds p b → pc.Uses p
  | .handling _ _, h => h.1
  | .reading _ _ _, h => h.1

/-- What holds whenever, however the threads are interleaved. -/
structure Exclusive (sys : System Data) : Prop where
  below : Below sys.agent
  uses : ∀ p, sys.main.Uses p → p < sys.agent.brk
  critical : sys.update.Critical → sys.agent.restructureTrigger = false
  restructuring : ∀ c, sys.main = .restructuring c → sys.agent.restructureTrigger = true
  held : ∀ p b, sys.main.Holds p b → b = sys.agent.currInfo ∨ sys.update = .triggering ∨
    sys.agent.restructureTrigger = true

/-! ## What a step of the update thread can do -/

section

variable [Inhabited Data] {aim : AimList} {s s' : Agent Data} {a : Access}

/-- What a step of the update thread does to the flags. -/
inductive UpdateFlags (s : Agent Data) (pc : UpdatePc Data) (s' : Agent Data) (pc' : UpdatePc Data) :
    Prop where
  | keeps (hcurr : s'.currInfo = s.currInfo) (htrigger : s'.restructureTrigger = s.restructureTrigger)
      (hpc : pc ≠ .triggering) (hcritical : pc'.Critical → pc.Critical ∨ s.restructureTrigger = false)
  | swaps (hpc : pc.Critical) (hpc' : pc' = .triggering)
      (htrigger : s'.restructureTrigger = s.restructureTrigger)
  | triggers (hpc' : pc' = .asleep) (hcurr : s'.currInfo = s.currInfo)
      (htrigger : s'.restructureTrigger = true)

/-- What a step of the update thread does to the flags. -/
theorem UpdateStep.flags {pc pc' : UpdatePc Data} (h : UpdateStep aim s pc a s' pc') :
    UpdateFlags s pc s' pc' := by
  cases h with
  | wake now =>
      refine .keeps rfl rfl nofun fun h => ?_
      split at h <;> exact h.elim
  | checkTrigger =>
      refine .keeps rfl rfl nofun fun h => Or.inr ?_
      split at h
      · exact h.elim
      · exact Bool.eq_false_iff.mpr ‹_›
  | stamp => exact .keeps rfl rfl nofun fun _ => Or.inl trivial
  | loop sweep h =>
      cases h with
      | visit h =>
          have hw := written_of_keeps (written_body _ sweep _ _ s) h
          exact .keeps hw.currInfo hw.trigger nofun fun _ => Or.inl trivial
      | nextList => exact .keeps rfl rfl nofun fun _ => Or.inl trivial
  | loopEnd => exact .keeps rfl rfl nofun fun _ => Or.inl trivial
  | collect h => exact .keeps rfl rfl nofun fun _ => Or.inl trivial
  | skip h => exact .keeps rfl rfl nofun fun _ => Or.inl trivial
  | found hp hid h =>
      have hw := written_of_keeps (written_setNextValid true _ s) h
      exact .keeps hw.currInfo hw.trigger nofun fun _ => Or.inl trivial
  | other hp hid => exact .keeps rfl rfl nofun fun _ => Or.inl trivial
  | push h =>
      rw [pushSensor_apply] at h
      cases h
      exact .keeps rfl rfl nofun fun _ => Or.inl trivial
  | discovered => exact .keeps rfl rfl nofun fun _ => Or.inl trivial
  | swap h =>
      cases h
      exact .swaps trivial rfl rfl
  | trigger => exact .triggers rfl rfl rfl

/-- What a step of the update thread may write. -/
theorem UpdateStep.access {pc pc' : UpdatePc Data} (h : UpdateStep aim s pc a s' pc') :
    a = .none ∨ (pc.Critical ∧ pc ≠ .triggering ∧ ∃ p, a = .write p s.nextInfo) ∨
      ∃ t, a = .alloc t s.brk := by
  cases h with
  | loop sweep h =>
      cases h with
      | visit h => exact Or.inr (Or.inl ⟨trivial, nofun, _, rfl⟩)
      | nextList => exact Or.inl rfl
  | found hp hid h => exact Or.inr (Or.inl ⟨trivial, nofun, _, rfl⟩)
  | push h => exact Or.inr (Or.inr ⟨_, rfl⟩)
  | _ => exact Or.inl rfl

/-- **An access says what is written**: a step of the update thread leaves every other buffer. -/
theorem UpdateStep.buffers {pc pc' : UpdatePc Data} (h : UpdateStep aim s pc a s' pc') {p : Ptr}
    {b : Fin 2} (hnot : ¬ a.Writes p b) {ss : Sensor Data} (hp : s.heap p = some ss) :
    ∃ ss', s'.heap p = some ss' ∧ ss'.sensorInfo b = ss.sensorInfo b := by
  cases h with
  | loop sweep h =>
      cases h with
      | visit h => exact (written_of_keeps (written_body _ sweep _ _ s) h).buffers p b ss hnot hp
      | nextList => exact ⟨ss, hp, rfl⟩
  | found hq hid h => exact (written_of_keeps (written_setNextValid true _ s) h).buffers p b ss hnot hp
  | push h =>
      rw [pushSensor_apply] at h
      cases h
      exact ⟨ss, (pushed_heap_of_ne aim _ fun heq => hnot heq.symm).trans hp, rfl⟩
  | swap h =>
      cases h
      exact ⟨ss, hp, rfl⟩
  | _ => exact ⟨ss, hp, rfl⟩

/-- A step of the update thread keeps the sensors below the break, which does not go down. -/
theorem UpdateStep.below {pc pc' : UpdatePc Data} (h : UpdateStep aim s pc a s' pc') (hs : Below s) :
    Below s' ∧ s.brk ≤ s'.brk := by
  cases h with
  | loop sweep h =>
      cases h with
      | visit h =>
          have hw := written_of_keeps (written_body _ sweep _ _ s) h
          exact ⟨hw.below hs, Nat.le_of_eq hw.brk.symm⟩
      | nextList => exact ⟨hs, Nat.le_refl _⟩
  | found hq hid h =>
      have hw := written_of_keeps (written_setNextValid true _ s) h
      exact ⟨hw.below hs, Nat.le_of_eq hw.brk.symm⟩
  | push h =>
      rw [pushSensor_apply] at h
      cases h
      refine ⟨⟨fun q hq => ?_, fun t r hr => Nat.lt_succ_of_lt (hs.rows t r hr)⟩, Nat.le_succ _⟩
      have hlt : s.brk < q := hq
      rw [pushed_heap_of_ne aim _ (Nat.ne_of_gt hlt)]
      exact hs.fresh q (Nat.le_of_lt hlt)
  | swap h =>
      cases h
      exact ⟨⟨hs.fresh, hs.rows⟩, Nat.le_refl _⟩
  | stamp => exact ⟨⟨hs.fresh, hs.rows⟩, Nat.le_refl _⟩
  | trigger => exact ⟨⟨hs.fresh, hs.rows⟩, Nat.le_refl _⟩
  | _ => exact ⟨hs, Nat.le_refl _⟩

/-- **A step of the update thread keeps the exclusion.** -/
theorem exclusive_update {pc pc' : UpdatePc Data} {main : MainPc Data}
    (hs : Exclusive ⟨s, pc, main⟩) (h : UpdateStep aim s pc a s' pc') :
    Exclusive ⟨s', pc', main⟩ := by
  obtain ⟨hbelow, hbrk⟩ := h.below hs.below
  have huses : ∀ p, main.Uses p → p < s'.brk := fun p hp => Nat.lt_of_lt_of_le (hs.uses p hp) hbrk
  cases h.flags with
  | keeps hcurr htrigger hpc hcritical =>
      refine ⟨hbelow, huses, fun hc => ?_, fun c hc => ?_, fun p b hp => ?_⟩
      · show s'.restructureTrigger = false
        rw [htrigger]
        exact (hcritical hc).elim hs.critical id
      · show s'.restructureTrigger = true
        rw [htrigger]
        exact hs.restructuring c hc
      · show b = s'.currInfo ∨ pc' = .triggering ∨ s'.restructureTrigger = true
        rw [hcurr, htrigger]
        exact (hs.held p b hp).imp_right fun h => Or.inr (h.resolve_left hpc)
  | swaps hpc hpc' htrigger =>
      refine ⟨hbelow, huses, fun _ => ?_, fun c hc => ?_, fun p b hp => Or.inr (Or.inl hpc')⟩
      · show s'.restructureTrigger = false
        rw [htrigger]
        exact hs.critical hpc
      · show s'.restructureTrigger = true
        rw [htrigger]
        exact hs.restructuring c hc
  | triggers hpc' hcurr htrigger =>
      refine ⟨hbelow, huses, fun hc => ?_, fun _ _ => htrigger, fun _ _ _ => Or.inr (Or.inr htrigger)⟩
      have hasleep : pc'.Critical := hc
      rw [hpc'] at hasleep
      exact hasleep.elim

end

/-! ## What a step of the main thread can do -/

section

variable {s s' : Agent Data} {a : Access}

/-- What a step of the main thread does to the flags. -/
inductive MainFlags (s : Agent Data) (pc : MainPc Data) (s' : Agent Data) (pc' : MainPc Data) :
    Prop where
  | keeps (htrigger : s'.restructureTrigger = s.restructureTrigger)
      (hloop : ∀ c, pc' = .restructuring c → (∃ c₀, pc = .restructuring c₀) ∨
        s.restructureTrigger = true)
      (hheld : ∀ p b, pc'.Holds p b → pc.Holds p b ∨ b = s.currInfo)
  | clears (hpc : ∃ c, pc = .restructuring c) (hpc' : pc' = .idle)
      (htrigger : s'.restructureTrigger = false)

/-- A run that restructures one sensor. -/
theorem restructured_of_run {t : SensorType} {p : Ptr} (hs : Below s)
    (h : restructureSensor t p s = (.ok (), s')) : Restructured s s' := by
  have hr := restructured_restructureSensor t p s s ⟨rfl, rfl, rfl, hs⟩
  rwa [h] at hr

/-- What a step of the main thread does to the flags. -/
theorem MainStep.flags {pc pc' : MainPc Data} (h : MainStep s pc a s' pc') (hs : Below s) :
    MainFlags s pc s' pc' ∧ s'.currInfo = s.currInfo := by
  cases h with
  | getCurrInfo => exact ⟨.keeps rfl nofun fun _ _ h => Or.inr h.2.symm, rfl⟩
  | valid hp h => exact ⟨.keeps rfl nofun fun _ _ h => Or.inl h, rfl⟩
  | read hp => exact ⟨.keeps rfl nofun fun _ _ h => Or.inl h, rfl⟩
  | alarm =>
      refine ⟨.keeps rfl (fun c hc => Or.inr ?_) (fun p b h => ?_), rfl⟩
      · split at hc
        · assumption
        · cases hc
      · split at h <;> exact h.elim
  | loop h =>
      cases h with
      | visit h =>
          have hr := restructured_of_run hs h
          exact ⟨.keeps hr.trigger (fun _ _ => Or.inl ⟨_, rfl⟩) fun _ _ h => h.elim, hr.currInfo⟩
      | nextList => exact ⟨.keeps rfl (fun _ _ => Or.inl ⟨_, rfl⟩) fun _ _ h => h.elim, rfl⟩
  | done => exact ⟨.clears ⟨_, rfl⟩ rfl rfl, rfl⟩
  | _ => exact ⟨.keeps rfl nofun fun _ _ h => h.elim, rfl⟩

/-- What a step of the main thread may write. -/
theorem MainStep.access {pc pc' : MainPc Data} (h : MainStep s pc a s' pc') :
    a = .none ∨ ∃ c, pc = .restructuring c := by
  cases h with
  | loop h => exact Or.inr ⟨_, rfl⟩
  | _ => exact Or.inl rfl

/-- A step of the main thread that does not restructure leaves the lists and the sensors. -/
theorem MainStep.lists {pc pc' : MainPc Data} (h : MainStep s pc a s' pc') (hnot : ¬ a.Restructures) :
    s'.sensors = s.sensors ∧ s'.heap = s.heap := by
  cases h with
  | loop h =>
      cases h with
      | visit h => exact absurd trivial hnot
      | nextList => exact ⟨rfl, rfl⟩
  | _ => exact ⟨rfl, rfl⟩

/-- A step of the main thread keeps the sensors below the break, and does not move it. -/
theorem MainStep.below {pc pc' : MainPc Data} (h : MainStep s pc a s' pc') (hs : Below s) :
    Below s' ∧ s'.brk = s.brk := by
  cases h with
  | loop h =>
      cases h with
      | visit h =>
          have hr := restructured_of_run hs h
          exact ⟨hr.below, hr.brk⟩
      | nextList => exact ⟨hs, rfl⟩
  | done => exact ⟨⟨hs.fresh, hs.rows⟩, rfl⟩
  | _ => exact ⟨hs, rfl⟩

/-- The sensor of a handler is the one of a row. -/
theorem MainStep.uses {pc pc' : MainPc Data} (h : MainStep s pc a s' pc') {p : Ptr}
    (hp : pc'.Uses p) : pc.Uses p ∨ ∃ t, ∃ r ∈ s.rows t, r.data = p := by
  cases h with
  | request hr => exact Or.inr ⟨_, _, hr, hp⟩
  | getCurrInfo => exact Or.inl hp
  | valid hp' h => exact Or.inl hp
  | read hp' => exact Or.inl hp
  | alarm => split at hp <;> exact hp.elim
  | _ => exact hp.elim

/-- **A step of the main thread keeps the exclusion.** -/
theorem exclusive_main {pc : UpdatePc Data} {main main' : MainPc Data}
    (hs : Exclusive ⟨s, pc, main⟩) (h : MainStep s main a s' main') :
    Exclusive ⟨s', pc, main'⟩ := by
  obtain ⟨hbelow, hbrk⟩ := h.below hs.below
  obtain ⟨hflags, hcurr⟩ := h.flags hs.below
  have huses : ∀ p, main'.Uses p → p < s'.brk := by
    intro p hp
    rw [hbrk]
    rcases h.uses hp with hold | ⟨t, r, hr, rfl⟩
    · exact hs.uses p hold
    · exact hs.below.rows t r hr
  cases hflags with
  | keeps htrigger hloop hheld =>
      refine ⟨hbelow, huses, fun hc => htrigger.trans (hs.critical hc), fun c hc => ?_, fun p b hp => ?_⟩
      · refine htrigger.trans ((hloop c hc).elim (fun ⟨c₀, hc₀⟩ => hs.restructuring c₀ hc₀) id)
      · show b = s'.currInfo ∨ pc = .triggering ∨ s'.restructureTrigger = true
        rw [hcurr, htrigger]
        exact (hheld p b hp).elim (hs.held p b) Or.inl
  | clears hpc hpc' htrigger =>
      refine ⟨hbelow, huses, fun _ => htrigger, fun c hc => ?_, fun p b hp => ?_⟩
      · have hidle : main' = .restructuring c := hc
        rw [hpc'] at hidle
        cases hidle
      · have hidle : main'.Holds p b := hp
        rw [hpc'] at hidle
        exact hidle.elim

/-- While the update thread is behind its check, the main thread does not restructure. -/
theorem not_restructures {sys : System Data} (hex : Exclusive sys) (hcritical : sys.update.Critical)
    {a : Access} {s' : Agent Data} {pc' : MainPc Data}
    (hstep : MainStep sys.agent sys.main a s' pc') : ¬ a.Restructures := by
  intro hrestructures
  rcases hstep.access with rfl | ⟨c, hc⟩
  · exact hrestructures
  · have htrue := hex.restructuring c hc
    rw [hex.critical hcritical] at htrue
    cases htrue

end

/-! ## Runs: the threads keep out of each other's way -/

section

variable [Inhabited Data] {aim : AimList}

/-- A step of either thread keeps the exclusion. -/
theorem exclusive_step {sys sys' : System Data} (hs : Exclusive sys) (h : Step aim sys sys') :
    Exclusive sys' := by
  cases h with
  | update h => exact exclusive_update hs h
  | main h => exact exclusive_main hs h

/-- What the start-up leaves satisfies the invariant. -/
theorem onlpSnmpSensorsInit_spec (aim : AimList) (sweep : Sweep Data) :
    Prog.Triple (· = Agent.static) (onlpSnmpSensorsInit aim sweep) fun _ => Inv := by
  refine Prog.triple_seq initAllTables_spec (Prog.triple_seq (updateTables_spec aim sweep) ?_)
  exact restructureTables_spec

/-- The exclusion holds when the threads start. -/
theorem exclusive_started {sys : System Data} (h : Started aim sys) : Exclusive sys := by
  obtain ⟨hupdate, hmain, sweep, hinit⟩ := h
  obtain ⟨⟨⟩, s, hrun, hs⟩ := onlpSnmpSensorsInit_spec aim sweep Agent.static rfl
  rw [hinit] at hrun
  cases hrun
  refine ⟨hs.below, fun p hp => ?_, fun hc => ?_, fun c hc => ?_, fun p b hp => ?_⟩
  · rw [hmain] at hp
    exact hp.elim
  · rw [hupdate] at hc
    exact hc.elim
  · rw [hmain] at hc
    cases hc
  · rw [hmain] at hp
    exact hp.elim

/-- A state that the two threads reach. -/
def Reachable (aim : AimList) (sys : System Data) : Prop :=
  ∃ start, Started aim start ∧ ReflTransGen (Step aim) start sys

/-- **The exclusion holds in every state reached.** -/
theorem exclusive_of_reachable {sys : System Data} (h : Reachable aim sys) : Exclusive sys := by
  obtain ⟨start, hstart, hrun⟩ := h
  have hstep : ∀ sys sys' : System Data, Exclusive sys → Step aim sys sys' → Exclusive sys' :=
    fun _ _ => exclusive_step
  exact Transition.invariant hstep hrun (exclusive_started hstart)

/-- The update thread does not write a buffer that is held. -/
theorem not_writes_held {sys : System Data} (hex : Exclusive sys) {p : Ptr} {b : Fin 2}
    (hp : sys.main.Holds p b) {a : Access} {s' : Agent Data} {pc' : UpdatePc Data}
    (hstep : UpdateStep aim sys.agent sys.update a s' pc') : ¬ a.Writes p b := by
  intro hwrites
  rcases hstep.access with rfl | ⟨hcritical, hpc, q, rfl⟩ | ⟨t, rfl⟩
  · exact hwrites
  · -- the trigger is false, so the buffer is still the current one
    have htrigger := hex.critical hcritical
    rcases hex.held p b hp with hb | hswapped | htrue
    · exact nextInfo_ne_currInfo sys.agent (hwrites.2.trans hb)
    · exact hpc hswapped
    · rw [htrigger] at htrue
      cases htrue
  · -- a sensor that is new is none that a row points to
    have hlt := hex.uses p (MainPc.uses_of_holds hp)
    have hbrk : sys.agent.brk = p := hwrites
    exact absurd hbrk (Nat.ne_of_gt hlt)

/-- **Readers and the updater exclude each other**, in every state that the two threads reach.  The
    update thread does not write the buffer that a running handler holds; and while it is behind its
    check of the trigger, the main thread modifies no list and frees no sensor. -/
theorem threads_exclusive (aim : AimList) (sys : System Data) (h : Reachable aim sys) :
    (∀ p b, sys.main.Holds p b → ∀ a s' pc', UpdateStep aim sys.agent sys.update a s' pc' →
        ¬ a.Writes p b ∧ ∀ ss, sys.agent.heap p = some ss →
          ∃ ss', s'.heap p = some ss' ∧ ss'.sensorInfo b = ss.sensorInfo b) ∧
      (sys.update.Critical → ∀ a s' pc', MainStep sys.agent sys.main a s' pc' →
        ¬ a.Restructures ∧ s'.sensors = sys.agent.sensors ∧ s'.heap = sys.agent.heap) := by
  have hex := exclusive_of_reachable h
  constructor
  · intro p b hp a s' pc' hstep
    have hnot := not_writes_held hex hp hstep
    exact ⟨hnot, fun ss hheap => hstep.buffers hnot hheap⟩
  · intro hcritical a s' pc' hstep
    have hnot := not_restructures hex hcritical hstep
    exact ⟨hnot, hstep.lists hnot⟩

/-! ## What a reader sees: a buffer that does not change -/

/-- What a handler has read is what the buffer holds. -/
def SeesBuffer (sys : System Data) : Prop :=
  ∀ p b seen, sys.main = .reading p b seen → ∃ ss, sys.agent.heap p = some ss ∧
    (ss.sensorInfo b).valid = true ∧ ∀ d ∈ seen, d = (ss.sensorInfo b).data

/-- What a handler sees stays as it is over every step. -/
theorem seesBuffer_step {sys sys' : System Data} (hex : Exclusive sys) (hsees : SeesBuffer sys)
    (h : Step aim sys sys') : SeesBuffer sys' := by
  intro p b seen hmain
  cases h with
  | update h =>
      obtain ⟨ss, hheap, hvalid, hseen⟩ := hsees p b seen hmain
      have hp : (MainPc.reading p b seen).Holds p b := ⟨rfl, rfl⟩
      rw [← hmain] at hp
      obtain ⟨ss', hheap', hsame⟩ := h.buffers (not_writes_held hex hp h) hheap
      exact ⟨ss', hheap', by rw [hsame, hvalid], by rw [hsame]; exact hseen⟩
  | main h =>
      cases h with
      | valid hp hvalid =>
          cases hmain
          exact ⟨_, hp, hvalid, fun _ hd => absurd hd List.not_mem_nil⟩
      | read hp =>
          cases hmain
          obtain ⟨ss', hheap', hvalid, hseen⟩ := hsees _ _ _ rfl
          rw [show _ = some _ from hp] at hheap'
          cases hheap'
          refine ⟨_, hp, hvalid, fun d hd => ?_⟩
          rcases List.mem_append.mp hd with hd | hd
          · exact hseen d hd
          · exact List.mem_singleton.mp hd
      | alarm =>
          have hnot : (if _ then MainPc.restructuring _ else MainPc.idle) =
            MainPc.reading p b seen := hmain
          split at hnot <;> cases hnot
      | _ => cases hmain

/-- **A handler reads one sample.**  All that it reads of the data, over however many steps, is what
    its buffer holds, and that is valid. -/
theorem reader_sees_one_sample (aim : AimList) (sys : System Data) (h : Reachable aim sys) :
    SeesBuffer sys := by
  obtain ⟨start, hstart, hrun⟩ := h
  have hstep : ∀ sys sys' : System Data, Exclusive sys ∧ SeesBuffer sys → Step aim sys sys' →
      Exclusive sys' ∧ SeesBuffer sys' := fun _ _ hs h =>
    ⟨exclusive_step hs.1 h, seesBuffer_step hs.1 hs.2 h⟩
  have hsees : SeesBuffer start := by
    intro p b seen hmain
    rw [hstart.2.1] at hmain
    cases hmain
  exact (Transition.invariant hstep hrun ⟨exclusive_started hstart, hsees⟩).2

end

end

/-! ## A handler beside an update -/

/-- `list_push` at the end. -/
def pushBack : AimList where
  push p list := list ++ [p]
  perm _ _ := List.perm_append_comm

/-- A thermal sensor is found, and answers. -/
def oneSensor : Sweep Nat where
  now := 6000000
  oids := [0x02000001]
  thermalInfoGet _ data := (true, data + 1)
  fanInfoGet _ data := (true, data)
  psuInfoGet _ data := (true, data)

/-- The agent behind `onlp_snmp_sensors_init`. -/
def oneSensorAgent : Agent Nat := (onlpSnmpSensorsInit pushBack oneSensor Agent.static).2

/-- The example starts with one sensor. -/
theorem oneSensor_started : Started pushBack ⟨oneSensorAgent, .asleep, .idle⟩ :=
  ⟨rfl, rfl, oneSensor, rfl⟩

/-- A handler holds the current buffer, and the update thread is about to go through the lists. -/
def besideUpdate : System Nat where
  agent := { oneSensorAgent with lastSensorUpdateTime := 12000000 }
  update := .looping .mark (oneSensorAgent.enter sensorTypes)
  main := .handling 0 oneSensorAgent.currInfo

/-- The state in which a handler runs beside the update is reached. -/
theorem besideUpdate_reachable : Reachable pushBack besideUpdate := by
  refine ⟨_, oneSensor_started, ?_⟩
  have hrow : (⟨1, 0⟩ : Row) ∈ oneSensorAgent.rows .temp := by decide +kernel
  have hwake : (if (12000000 : UInt64) - oneSensorAgent.lastSensorUpdateTime < updatePeriod
      then .asleep else .checkTrigger 12000000 : UpdatePc Nat) = .checkTrigger 12000000 :=
    if_neg (by decide +kernel)
  have hcheck : (if oneSensorAgent.restructureTrigger then .asleep else .stamp 12000000 :
      UpdatePc Nat) = .stamp 12000000 := if_neg (by decide +kernel)
  have h₁ := ReflTransGen.refl (r := Step pushBack) (a := ⟨oneSensorAgent, .asleep, .idle⟩)
  have h₂ := h₁.tail (.main (.request hrow))
  have h₃ := h₂.tail (.main .getCurrInfo)
  have h₄ := h₃.tail (.update (.wake 12000000))
  rw [hwake] at h₄
  have h₅ := h₄.tail (.update .checkTrigger)
  rw [hcheck] at h₅
  exact h₅.tail (.update .stamp)

/-- In that state, neither thread disturbs the other. -/
theorem besideUpdate_exclusive :
    (∀ a s' pc', UpdateStep pushBack besideUpdate.agent besideUpdate.update a s' pc' →
        ¬ a.Writes 0 1 ∧ ∀ ss, besideUpdate.agent.heap 0 = some ss →
          ∃ ss', s'.heap 0 = some ss' ∧ ss'.sensorInfo 1 = ss.sensorInfo 1) ∧
      ∀ a s' pc', MainStep besideUpdate.agent besideUpdate.main a s' pc' →
        ¬ a.Restructures ∧ s'.sensors = besideUpdate.agent.sensors ∧
          s'.heap = besideUpdate.agent.heap :=
  ⟨(threads_exclusive pushBack besideUpdate besideUpdate_reachable).1 0 1 ⟨rfl, rfl⟩,
    (threads_exclusive pushBack besideUpdate besideUpdate_reachable).2 trivial⟩

end DentOS.Snmp
