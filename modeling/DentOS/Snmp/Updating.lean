/-
  What an update of the sensors keeps.

  Whether a sensor has a row is not stored anywhere: the code infers it from the `valid` bits of the
  two buffers.  `RowsBy` is the invariant behind that: a sensor has a row exactly when a certain one of
  its buffers is valid.  `Core` is what else every step keeps: lists of live sensors of the right type,
  no OID twice, tables where there are sensors.

  While an update runs, the current buffer tells about rows (`Updating`).  Its steps write to the next
  buffer only (`Updating.setInfo`), or add a sensor whose current buffer is invalid
  (`Updating.pushed`).  The swap at the end makes the next buffer the one that tells
  (`Updating.swap`).
-/
import DentOS.Snmp.Sensors
import Mathlib.Algebra.Group.Nat.Defs

namespace DentOS.Snmp

open Effects

/-! ## OIDs: an id and a type -/

/-- The id of an oid is its low 24 bits. -/
theorem toNat_oidIdGet (oid : Oid) : (oidIdGet oid).toNat = oid.toNat % 2 ^ 24 := by
  rw [oidIdGet, UInt32.toNat_and]
  exact Nat.and_two_pow_sub_one_eq_mod oid.toNat 24

/-- The type is what is above them. -/
theorem toNat_oidTypeGet (oid : Oid) : (oidTypeGet oid).toNat = oid.toNat / 2 ^ 24 := by
  rw [oidTypeGet, UInt32.toNat_shiftRight]
  exact Nat.shiftRight_eq_div_pow oid.toNat 24

/-- An OID is its type and its id. -/
theorem oid_eq {a b : Oid} (htype : oidTypeGet a = oidTypeGet b) (hid : oidIdGet a = oidIdGet b) :
    a = b := by
  have ht := congrArg UInt32.toNat htype
  have hi := congrArg UInt32.toNat hid
  rw [toNat_oidTypeGet, toNat_oidTypeGet] at ht
  rw [toNat_oidIdGet, toNat_oidIdGet] at hi
  refine UInt32.toNat.inj ?_
  calc a.toNat = 2 ^ 24 * (a.toNat / 2 ^ 24) + a.toNat % 2 ^ 24 := (Nat.div_add_mod _ _).symm
    _ = 2 ^ 24 * (b.toNat / 2 ^ 24) + b.toNat % 2 ^ 24 := by rw [ht, hi]
    _ = b.toNat := Nat.div_add_mod _ _

/-- The types of the oids that are sensors. -/
theorem oidSensorType_cases {oid : Oid} {t : SensorType} (h : oidSensorType oid = some t) :
    (t = .temp ∧ oidTypeGet oid = 2) ∨ (t = .fan ∧ oidTypeGet oid = 3) ∨
      (t = .psu ∧ oidTypeGet oid = 4) := by
  unfold oidSensorType at h
  split at h
  · injection h with h
    exact Or.inl ⟨h.symm, ‹_›⟩
  split at h
  · injection h with h
    exact Or.inr (Or.inl ⟨h.symm, ‹_›⟩)
  split at h
  · injection h with h
    exact Or.inr (Or.inr ⟨h.symm, ‹_›⟩)
  · cases h

/-- Within a list, the id tells sensors apart. -/
theorem oid_eq_of_sensorType {a b : Oid} {t : SensorType} (ha : oidSensorType a = some t)
    (hb : oidSensorType b = some t) (hid : oidIdGet a = oidIdGet b) : a = b := by
  refine oid_eq ?_ hid
  rcases oidSensorType_cases ha with ⟨rfl, hta⟩ | ⟨rfl, hta⟩ | ⟨rfl, hta⟩ <;>
    rcases oidSensorType_cases hb with ⟨h, htb⟩ | ⟨h, htb⟩ | ⟨h, htb⟩ <;>
      first
        | exact hta.trans htb.symm
        | cases h

/-- Such a type has a table. -/
theorem initialTable_of_oid {oid : Oid} {t : SensorType} (h : oidSensorType oid = some t) :
    (initialTable t).isSome = true := by
  rcases oidSensorType_cases h with ⟨rfl, -⟩ | ⟨rfl, -⟩ | ⟨rfl, -⟩ <;> rfl

/-! ## Tables as maps from indices to sensors -/

/-- Behind an insertion, a table has one more row. -/
theorem Tdata.mem_addRow {table table' : Tdata} {row : Row} (h : table.addRow row = some table')
    (r : Row) : r ∈ table'.rows ↔ r = row ∨ r ∈ table.rows := by
  unfold Tdata.addRow at h
  split at h
  · injection h with h
    rw [← h]
    exact List.mem_cons
  · cases h

/-- A row with a free index can be inserted. -/
theorem Tdata.addRow_of_free {table : Tdata} (row : Row) (h : ∀ q ∈ table.rows, row.index ≠ q.index) :
    ∃ table', table.addRow row = some table' := ⟨_, dif_pos h⟩

/-- Behind a removal, it has the rows with another index. -/
theorem Tdata.mem_deleteRow (table : Tdata) (index : UInt32) (r : Row) :
    r ∈ (table.deleteRow index).rows ↔ r ∈ table.rows ∧ r.index ≠ index := by
  show r ∈ table.rows.filter _ ↔ _
  rw [List.mem_filter, decide_eq_true_iff]

/-! ## Invariants: in an update, and between calls -/

section

variable {Data : Type}

/-- What every step keeps. -/
structure Core (s : Agent Data) : Prop where
  sound : ∀ t p, p ∈ s.sensors t → ∃ ss, s.heap p = some ss ∧ oidSensorType ss.sensorId = some t ∧
    ss.index = oidIdGet ss.sensorId
  nodup : ∀ t, (s.sensors t).Nodup
  unique : ∀ t p q ss ss', p ∈ s.sensors t → q ∈ s.sensors t → s.heap p = some ss →
    s.heap q = some ss' → ss.sensorId = ss'.sensorId → p = q
  fresh : ∀ p, s.brk ≤ p → s.heap p = none
  tables : ∀ t, (s.sensorTable t).isSome = (initialTable t).isSome

/-- The row of a sensor whose buffer `b p` is valid. -/
def RowOf (b : Ptr → Fin 2) (s : Agent Data) (t : SensorType) (r : Row) : Prop :=
  ∃ p ∈ s.sensors t, ∃ ss, s.heap p = some ss ∧ (ss.sensorInfo (b p)).valid = true ∧ r = ⟨ss.index, p⟩

/-- A sensor has a row exactly when its buffer `b p` is valid. -/
def RowsBy (b : Ptr → Fin 2) (s : Agent Data) : Prop :=
  ∀ t table, s.sensorTable t = some table → ∀ r, r ∈ table.rows ↔ RowOf b s t r

/-- Between two restructurings, up to the swap of the buffers. -/
structure Updating (s : Agent Data) : Prop where
  core : Core s
  notTriggered : s.restructureTrigger = false
  rows : RowsBy (fun _ => s.currInfo) s

/-- Between two calls. -/
structure Inv (s : Agent Data) : Prop where
  core : Core s
  rows : RowsBy (fun _ => if s.restructureTrigger then s.nextInfo else s.currInfo) s

/-- **The buffer that is written is not the one that is read.** -/
theorem nextInfo_ne_currInfo (s : Agent Data) : s.nextInfo ≠ s.currInfo := by
  have h : ∀ b : Fin 2, b + 1 ≠ b := by decide
  exact h s.currInfo

/-! ## Following pointers to sensors that are there -/

variable {s : Agent Data} {t : SensorType} {p : Ptr} {ss : Sensor Data}

/-- A program that begins with a load, where there is something to load. -/
theorem load_bind_apply {α : Type} (h : s.heap p = some ss) (f : Sensor Data → Run Data α) :
    (load p >>= f) s = f ss s := by
  refine Prog.bind_of_ok ?_
  unfold load
  rw [Prog.get_bind_apply, h]
  rfl

@[simp] theorem Agent.write_self (s : Agent Data) (p : Ptr) (o : Option (Sensor Data)) :
    (s.write p o).heap p = o := if_pos rfl

/-- A write leaves every other sensor. -/
theorem Agent.write_of_ne (s : Agent Data) {p q : Ptr} (o : Option (Sensor Data)) (h : q ≠ p) :
    (s.write p o).heap q = s.heap q := if_neg h

/-- A sensor in memory, behind a write to one of its buffers. -/
theorem heap_of_setInfo {b : Fin 2} {info : SensorInfo Data} {q : Ptr} {ss' : Sensor Data}
    (hp : s.heap p = some ss) (hq : (s.write p (some (ss.setInfo b info))).heap q = some ss') :
    ∃ ss₀, s.heap q = some ss₀ ∧ ss'.sensorId = ss₀.sensorId ∧ ss'.index = ss₀.index ∧
      ∀ c, c ≠ b → ss'.sensorInfo c = ss₀.sensorInfo c := by
  by_cases hqp : q = p
  · rw [hqp, Agent.write_self] at hq
    injection hq with hq
    rw [hqp, ← hq]
    exact ⟨ss, hp, rfl, rfl, fun c hc => Sensor.setInfo_of_ne ss b info hc⟩
  · rw [Agent.write_of_ne s _ hqp] at hq
    exact ⟨ss', hq, rfl, rfl, fun _ _ => rfl⟩

/-- What is in memory behind a buffer that was set. -/
theorem heap_setInfo {b : Fin 2} (info : SensorInfo Data) {q : Ptr} {ss₀ : Sensor Data}
    (hp : s.heap p = some ss) (hq : s.heap q = some ss₀) :
    ∃ ss', (s.write p (some (ss.setInfo b info))).heap q = some ss' ∧ ss'.sensorId = ss₀.sensorId ∧
      ss'.index = ss₀.index ∧ ∀ c, c ≠ b → ss'.sensorInfo c = ss₀.sensorInfo c := by
  by_cases hqp : q = p
  · rw [hqp, hp] at hq
    injection hq with hq
    rw [hqp, Agent.write_self, ← hq]
    exact ⟨_, rfl, rfl, rfl, fun c hc => Sensor.setInfo_of_ne ss b info hc⟩
  · rw [Agent.write_of_ne s _ hqp]
    exact ⟨ss₀, hq, rfl, rfl, fun _ _ => rfl⟩

/-- A sensor that is allocated is below the break. -/
theorem Core.lt_brk (h : Core s) (hp : s.heap p = some ss) : p < s.brk := by
  refine Nat.lt_of_not_le fun hle => ?_
  rw [h.fresh p hle] at hp
  cases hp

/-- Writing to a buffer keeps `Core`. -/
theorem Core.setInfo (h : Core s) (hp : s.heap p = some ss) (b : Fin 2) (info : SensorInfo Data) :
    Core (s.write p (some (ss.setInfo b info))) where
  sound u q hq := by
    obtain ⟨ss₀, hheap, htype, hindex⟩ := h.sound u q hq
    obtain ⟨ss', hheap', hid, hindex', -⟩ := heap_setInfo (b := b) info hp hheap
    exact ⟨ss', hheap', by rw [hid, htype], by rw [hindex', hid, hindex]⟩
  nodup := h.nodup
  unique u q q' ss₁ ss₂ hq hq' h₁ h₂ heq := by
    obtain ⟨ss₁', h₁', hid₁, -⟩ := heap_of_setInfo hp h₁
    obtain ⟨ss₂', h₂', hid₂, -⟩ := heap_of_setInfo hp h₂
    rw [hid₁, hid₂] at heq
    exact h.unique u q q' ss₁' ss₂' hq hq' h₁' h₂' heq
  fresh q hq := by
    have hlt := h.lt_brk hp
    rw [Agent.write_of_ne s _ (by intro heq; rw [heq] at hq; exact absurd hlt (Nat.not_lt.mpr hq))]
    exact h.fresh q hq
  tables := h.tables

/-- Writing to a buffer that does not tell about rows keeps them right. -/
theorem RowsBy.setInfo {bs : Ptr → Fin 2} (h : RowsBy bs s) (hp : s.heap p = some ss) {b : Fin 2}
    (hb : ∀ q, bs q ≠ b) (info : SensorInfo Data) :
    RowsBy bs (s.write p (some (ss.setInfo b info))) := by
  intro u table htable r
  rw [h u table htable r]
  constructor
  · rintro ⟨q, hq, ss₀, hheap, hvalid, hr⟩
    obtain ⟨ss', hheap', -, hindex, hother⟩ := heap_setInfo (b := b) info hp hheap
    exact ⟨q, hq, ss', hheap', by rw [hother _ (hb q), hvalid], by rw [hindex, hr]⟩
  · rintro ⟨q, hq, ss', hheap', hvalid, hr⟩
    obtain ⟨ss₀, hheap, -, hindex, hother⟩ := heap_of_setInfo hp hheap'
    exact ⟨q, hq, ss₀, hheap, by rw [← hother _ (hb q), hvalid], by rw [hr, hindex]⟩

/-- **Writing to the next buffer** keeps everything. -/
theorem Updating.setInfo (h : Updating s) (hp : s.heap p = some ss) (info : SensorInfo Data) :
    Updating (s.write p (some (ss.setInfo s.nextInfo info))) where
  core := h.core.setInfo hp _ info
  notTriggered := h.notTriggered
  rows := h.rows.setInfo hp (fun _ => (nextInfo_ne_currInfo s).symm) info

/-! ## The steps of an update, on one sensor -/

/-- The lists are as they were. -/
def SameLists (lists : SensorType → List Ptr) (s : Agent Data) : Prop :=
  Updating s ∧ s.sensors = lists

/-- Marking a sensor leaves the lists. -/
theorem setNextValid_spec {lists : SensorType → List Ptr} (valid : Bool) (hp : p ∈ lists t) :
    Prog.Triple (SameLists lists) (setNextValid valid p : Run Data Unit) fun _ => SameLists lists := by
  rintro s ⟨hupd, rfl⟩
  obtain ⟨ss, hheap, -⟩ := hupd.core.sound t p hp
  refine ⟨(), _, load_bind_apply hheap _, ?_⟩
  exact ⟨hupd.setInfo hheap _, rfl⟩

/-- The call of a handler leaves the lists. -/
theorem updateHandler_spec {lists : SensorType → List Ptr} (infoGet : Oid → Data → Bool × Data)
    (hp : p ∈ lists t) :
    Prog.Triple (SameLists lists) (updateHandler infoGet p) fun _ => SameLists lists := by
  rintro s ⟨hupd, rfl⟩
  obtain ⟨ss, hheap, -⟩ := hupd.core.sound t p hp
  refine ⟨(infoGet ss.sensorId (s.getNextInfo ss).data).1, _, load_bind_apply hheap _, ?_⟩
  exact ⟨hupd.setInfo hheap _, rfl⟩

/-- There is an update handler for every list that has sensors. -/
theorem handler_of_oid (sweep : Sweep Data) {oid : Oid} (h : oidSensorType oid = some t) :
    ∃ infoGet, allUpdateHandlerFns sweep t = some (updateHandler infoGet) := by
  rcases oidSensorType_cases h with ⟨rfl, -⟩ | ⟨rfl, -⟩ | ⟨rfl, -⟩
  · exact ⟨_, rfl⟩
  · exact ⟨_, rfl⟩
  · exact ⟨_, rfl⟩

/-- The update of a sensor leaves the lists. -/
theorem updateSensor_spec {lists : SensorType → List Ptr} (sweep : Sweep Data) (hp : p ∈ lists t) :
    Prog.Triple (SameLists lists) (updateSensor sweep t p) fun _ => SameLists lists := by
  rintro s ⟨hupd, rfl⟩
  obtain ⟨ss, hheap, htype, -⟩ := hupd.core.sound t p hp
  obtain ⟨infoGet, hhandler⟩ := handler_of_oid sweep htype
  unfold updateSensor
  rw [load_bind_apply hheap, Prog.get_bind_apply, hhandler]
  have hthen : Prog.Triple (SameLists s.sensors) (do
      let ok ← updateHandler infoGet p
      if ok then pure () else setNextValid false p : Run Data Unit)
      fun _ => SameLists s.sensors := by
    refine Prog.triple_bind (updateHandler_spec infoGet hp) fun ok => ?_
    exact Prog.triple_ite (fun _ => Prog.triple_pure fun _ h => h) fun _ => setNextValid_spec false hp
  exact Prog.triple_ite (fun _ => hthen) (fun _ => Prog.triple_pure fun _ h => h) s ⟨hupd, rfl⟩

/-- A loop whose body keeps the lists. -/
theorem forEachSensor_spec {body : SensorType → Ptr → Run Data Unit}
    (hbody : ∀ lists t p, p ∈ lists t →
      Prog.Triple (SameLists lists) (body t p) fun _ => SameLists lists) :
    Prog.Triple Updating (forEachSensor body) fun _ => Updating := by
  intro s hs
  have hloop : Prog.Triple (SameLists s.sensors) (forEachSensor body) fun _ => SameLists s.sensors := by
    refine Prog.triple_forEach_of_mem fun t _ => Prog.triple_get fun s₁ hs₁ => ?_
    refine Prog.triple_pre (Prog.triple_forEach_of_mem fun p hp => hbody s.sensors t p ?_) ?_
    · rw [← hs₁.2]
      exact hp
    · rintro s' rfl
      exact hs₁
  obtain ⟨a, s', hrun, hsame⟩ := hloop s ⟨hs, rfl⟩
  exact ⟨a, s', hrun, hsame.1⟩

/-! ## Discovery: sensors that are new -/

/-- **The search finds a sensor with the id, or there is none.** -/
theorem findSensor_spec (sensorId : Oid) : ∀ {list : List Ptr},
    (∀ p ∈ list, ∃ ss, s.heap p = some ss) →
      ∃ r, findSensor sensorId list s = (.ok r, s) ∧ (∀ p, r = some p → p ∈ list) ∧
        (r = none → ∀ p ∈ list, ∀ ss, s.heap p = some ss → sensorId ≠ ss.sensorId)
  | [], _ => ⟨none, rfl, fun _ h => (nomatch h), fun _ _ h => absurd h List.not_mem_nil⟩
  | p :: rest, hlive => by
      obtain ⟨ss, hheap⟩ := hlive p List.mem_cons_self
      rw [findSensor, load_bind_apply hheap]
      by_cases hid : sensorId = ss.sensorId
      · rw [if_pos hid]
        refine ⟨some p, rfl, fun q hq => ?_, nofun⟩
        cases hq
        exact List.mem_cons_self
      · rw [if_neg hid]
        obtain ⟨r, hrun, hsome, hnone⟩ :=
          findSensor_spec sensorId fun q hq => hlive q (List.mem_cons_of_mem p hq)
        refine ⟨r, hrun, fun q hq => List.mem_cons_of_mem p (hsome q hq), fun hr q hq ss' hq' => ?_⟩
        rcases List.mem_cons.mp hq with rfl | hq
        · rw [hheap] at hq'
          cases hq'
          exact hid
        · exact hnone hr q hq ss' hq'

/-- The sensor that `add_sensor__` puts into a list. -/
def Agent.added (s : Agent Data) (t : SensorType) (new : Sensor Data) : Sensor Data :=
  let ss := { new with sensorType := some t }
  ss.setInfo s.nextInfo { s.getNextInfo ss with valid := true }

/-- The state behind `add_sensor__`, when it adds a sensor. -/
def pushed (aim : AimList) (t : SensorType) (new : Sensor Data) (s : Agent Data) : Agent Data :=
  ((({ s with brk := s.brk + 1 } : Agent Data).write s.brk (some (s.added t new))).setSensors t
    (aim.push s.brk (s.sensors t)))

/-- What a new sensor leaves. -/
theorem pushSensor_apply (aim : AimList) (t : SensorType) (new : Sensor Data) :
    pushSensor aim t new s = (.ok (), pushed aim t new s) := rfl

/-- A new sensor is in no list before. -/
theorem Core.brk_not_mem (h : Core s) (t : SensorType) : s.brk ∉ s.sensors t := by
  intro hmem
  obtain ⟨ss, hheap, -⟩ := h.sound t s.brk hmem
  exact absurd (h.lt_brk hheap) (Nat.lt_irrefl _)

/-- The lists of the other types stay. -/
theorem pushed_sensors_of_ne (aim : AimList) (new : Sensor Data) {u : SensorType} (h : u ≠ t) :
    (pushed aim t new s).sensors u = s.sensors u := if_neg h

/-- The lists have one sensor more. -/
theorem mem_pushed (aim : AimList) (new : Sensor Data) {u : SensorType} {q : Ptr} :
    q ∈ (pushed aim t new s).sensors u ↔ (u = t ∧ q = s.brk) ∨ q ∈ s.sensors u := by
  by_cases hu : u = t
  · subst hu
    have hself : (pushed aim u new s).sensors u = aim.push s.brk (s.sensors u) := if_pos rfl
    rw [hself, (aim.perm _ _).mem_iff, List.mem_cons]
    exact or_congr_left ⟨fun h => ⟨rfl, h⟩, fun h => h.2⟩
  · rw [pushed_sensors_of_ne aim new hu]
    exact ⟨Or.inr, fun h => h.resolve_left fun ⟨he, _⟩ => hu he⟩

/-- The memory of every other sensor stays. -/
theorem pushed_heap_of_ne (aim : AimList) (new : Sensor Data) {q : Ptr} (h : q ≠ s.brk) :
    (pushed aim t new s).heap q = s.heap q := if_neg h

/-- The memory of every sensor in a list stays. -/
theorem pushed_heap_of_mem (h : Core s) (aim : AimList) (new : Sensor Data) {u : SensorType} {q : Ptr}
    (hq : q ∈ s.sensors u) : (pushed aim t new s).heap q = s.heap q :=
  pushed_heap_of_ne aim new fun he => h.brk_not_mem u (by rw [← he]; exact hq)

@[simp] theorem pushed_heap_brk (aim : AimList) (new : Sensor Data) :
    (pushed aim t new s).heap s.brk = some (s.added t new) := if_pos rfl

/-- A sensor that is new to its list. -/
structure NewTo (s : Agent Data) (t : SensorType) (new : Sensor Data) : Prop where
  type : oidSensorType new.sensorId = some t
  index : new.index = oidIdGet new.sensorId
  invalid : ∀ b, (new.sensorInfo b).valid = false
  missing : ∀ p ∈ s.sensors t, ∀ ss, s.heap p = some ss → new.sensorId ≠ ss.sensorId

variable {new : Sensor Data}

/-- **A new sensor keeps the core of the invariant.** -/
theorem Core.pushed (h : Core s) (hnew : NewTo s t new) (aim : AimList) :
    Core (pushed aim t new s) where
  sound u q hq := by
    rcases (mem_pushed aim new).mp hq with ⟨rfl, rfl⟩ | hq
    · exact ⟨_, pushed_heap_brk aim new, hnew.type, hnew.index⟩
    · rw [pushed_heap_of_mem h aim new hq]
      exact h.sound u q hq
  nodup u := by
    by_cases hu : u = t
    · subst hu
      have hself : (DentOS.Snmp.pushed aim u new s).sensors u = aim.push s.brk (s.sensors u) :=
        if_pos rfl
      rw [hself, (aim.perm _ _).nodup_iff]
      exact List.nodup_cons.mpr ⟨h.brk_not_mem u, h.nodup u⟩
    · rw [pushed_sensors_of_ne aim new hu]
      exact h.nodup u
  unique u q q' ss ss' hq hq' hheap hheap' hid := by
    rcases (mem_pushed aim new).mp hq with ⟨rfl, rfl⟩ | hold
    · rcases (mem_pushed aim new).mp hq' with ⟨-, rfl⟩ | hold'
      · rfl
      · rw [pushed_heap_brk] at hheap
        rw [pushed_heap_of_mem h aim new hold'] at hheap'
        cases hheap
        exact absurd hid (hnew.missing q' hold' ss' hheap')
    · rw [pushed_heap_of_mem h aim new hold] at hheap
      rcases (mem_pushed aim new).mp hq' with ⟨rfl, rfl⟩ | hold'
      · rw [pushed_heap_brk] at hheap'
        cases hheap'
        exact absurd hid.symm (hnew.missing q hold ss hheap)
      · rw [pushed_heap_of_mem h aim new hold'] at hheap'
        exact h.unique u q q' ss ss' hold hold' hheap hheap' hid
  fresh q hq := by
    have hlt : s.brk < q := hq
    rw [pushed_heap_of_ne aim new (Nat.ne_of_gt hlt)]
    exact h.fresh q (Nat.le_of_lt hlt)
  tables := h.tables

/-- The current buffer of a sensor that is added is invalid, so it has no row yet. -/
theorem Updating.pushed (h : Updating s) (hnew : NewTo s t new) (aim : AimList) :
    Updating (pushed aim t new s) where
  core := h.core.pushed hnew aim
  notTriggered := h.notTriggered
  rows u table htable r := by
    rw [h.rows u table htable r]
    constructor
    · rintro ⟨q, hq, hrow⟩
      refine ⟨q, (mem_pushed aim new).mpr (Or.inr hq), ?_⟩
      rw [pushed_heap_of_mem h.core aim new hq]
      exact hrow
    · rintro ⟨q, hq, ss, hheap, hvalid, hr⟩
      rcases (mem_pushed aim new).mp hq with ⟨rfl, rfl⟩ | hq
      · rw [pushed_heap_brk] at hheap
        cases hheap
        have hcurr : ((s.added u new).sensorInfo s.currInfo).valid = false := by
          rw [Agent.added, Sensor.setInfo_of_ne _ _ _ (nextInfo_ne_currInfo s).symm]
          exact hnew.invalid _
        exact absurd (hvalid.symm.trans hcurr) (by decide)
      · rw [pushed_heap_of_mem h.core aim new hq] at hheap
        exact ⟨q, hq, ss, hheap, hvalid, hr⟩

/-- Adding a sensor keeps the invariant of an update. -/
theorem addSensor_spec (aim : AimList) (htype : oidSensorType new.sensorId = some t)
    (hindex : new.index = oidIdGet new.sensorId) (hinvalid : ∀ b, (new.sensorInfo b).valid = false) :
    Prog.Triple Updating (addSensor aim t new) fun _ => Updating := by
  intro s hs
  have hlive : ∀ p ∈ s.sensors t, ∃ ss, s.heap p = some ss := fun p hp => by
    obtain ⟨ss, hheap, -⟩ := hs.core.sound t p hp
    exact ⟨ss, hheap⟩
  obtain ⟨r, hfind, hsome, hnone⟩ := findSensor_spec new.sensorId hlive
  unfold addSensor
  rw [Prog.get_bind_apply, Prog.bind_of_ok hfind]
  cases r with
  | some p =>
      obtain ⟨a, s', hrun, hsame⟩ := setNextValid_spec true (hsome p rfl) s ⟨hs, rfl⟩
      exact ⟨a, s', hrun, hsame.1⟩
  | none => exact ⟨(), _, pushSensor_apply aim t new, hs.pushed ⟨htype, hindex, hinvalid, hnone rfl⟩ aim⟩

/-- What is done for one oid keeps the invariant of an update. -/
theorem collectSensors_spec [Inhabited Data] (aim : AimList) (oid : Oid) :
    Prog.Triple Updating (collectSensors aim oid : Run Data Unit) fun _ => Updating := by
  unfold collectSensors
  cases htype : oidSensorType oid with
  | none => exact Prog.triple_pure fun _ h => h
  | some t => exact addSensor_spec aim htype rfl fun _ => rfl

/-! ## update_tables__ -/

/-- **The swap**: what told about rows was the current buffer, and is now the next one. -/
theorem Updating.swap (h : Updating s) :
    Inv { s with currInfo := s.nextInfo, restructureTrigger := true } where
  core := ⟨h.core.sound, h.core.nodup, h.core.unique, h.core.fresh, h.core.tables⟩
  rows := by
    have hback : ∀ b : Fin 2, b + 1 + 1 = b := by decide
    have hnext : ({ s with currInfo := s.nextInfo, restructureTrigger := true } : Agent Data).nextInfo
        = s.currInfo := hback s.currInfo
    intro u table htable r
    rw [h.rows u table htable r, if_pos rfl, hnext]
    rfl

/-- **A sweep keeps the invariant.** -/
theorem sweepTables_spec [Inhabited Data] (aim : AimList) (sweep : Sweep Data) :
    Prog.Triple Updating (sweepTables aim sweep) fun _ => Inv := by
  have hstamp : ∀ s : Agent Data, Updating s →
      Updating { s with lastSensorUpdateTime := sweep.now } := fun s h =>
    ⟨⟨h.core.sound, h.core.nodup, h.core.unique, h.core.fresh, h.core.tables⟩, h.notTriggered, h.rows⟩
  refine Prog.triple_seq (Prog.triple_modify hstamp) ?_
  refine Prog.triple_seq (forEachSensor_spec fun _ _ _ hp => setNextValid_spec false hp) ?_
  refine Prog.triple_seq (Prog.triple_forEach_of_mem fun oid _ => collectSensors_spec aim oid) ?_
  refine Prog.triple_seq (forEachSensor_spec fun _ _ _ hp => updateSensor_spec sweep hp) ?_
  intro s hs
  exact ⟨(), _, rfl, hs.swap⟩

/-- **A call of `update_tables__` keeps the invariant**, also where it is too early to sweep. -/
theorem updateTables_spec [Inhabited Data] (aim : AimList) (sweep : Sweep Data) :
    Prog.Triple Inv (updateTables aim sweep) fun _ => Inv := by
  refine Prog.triple_get fun s hs => Prog.triple_ite (fun _ => ?_) fun _ => Prog.triple_ite (fun _ => ?_)
    fun htrigger => ?_
  · exact Prog.triple_pure fun s' h => h ▸ hs
  · exact Prog.triple_pure fun s' h => h ▸ hs
  · refine Prog.triple_pre (sweepTables_spec aim sweep) ?_
    rintro s' rfl
    refine ⟨hs.core, Bool.eq_false_iff.mpr htrigger, ?_⟩
    have hrows := hs.rows
    simp only [if_neg htrigger] at hrows
    exact hrows

end

end DentOS.Snmp
