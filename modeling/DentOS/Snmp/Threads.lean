/-
  The two threads of onlp_snmpd.

  The update thread runs `do_update`: it calls `update_tables__` over and over, with sleeps of any
  length.  The main thread of the agent answers requests, by table handlers that fetch a buffer with
  `get_curr_info` and then read it, and runs `restructure_tables__` from its alarms.  There is no lock.
  `Step` interleaves the two: one step is one access to a flag, or to one element of a list.

  A loop over the lists keeps a `Cursor`, and finds the next element in the list as it stands at that
  moment.  The work on an element is the same program that the sequential functions run
  (`setNextValid`, `updateSensor`, `pushSensor`, `restructureSensor`).

  An `Access` says which part of a sensor or of a list a step may write.
-/
import DentOS.Snmp.Sensors

namespace DentOS.Snmp

open Effects

/-! ## Loops, as a place in the lists -/

/-- A loop over the lists of `types`, at the element `curr` of the first, or at its end. -/
structure Cursor where
  /-- The types that are still to come. -/
  types : List SensorType
  /-- The element that is next. -/
  curr : Option Ptr

/-- The link behind an element. -/
def linkBehind (p : Ptr) : List Ptr → Option Ptr
  | [] => none
  | q :: rest => if q = p then rest.head? else linkBehind p rest

section

variable {Data : Type}

/-- The loop goes to the head of its next list. -/
def Agent.enter (s : Agent Data) : List SensorType → Cursor
  | [] => ⟨[], none⟩
  | t :: types => ⟨t :: types, (s.sensors t).head?⟩

/-- One step of a loop: the element it visits, if any, is in the middle. -/
inductive LoopStep (body : SensorType → Ptr → Run Data Unit) :
    Agent Data → Cursor → Option (SensorType × Ptr) → Agent Data → Cursor → Prop where
  | visit {s s' : Agent Data} {t : SensorType} {types : List SensorType} {p : Ptr}
      (h : body t p s = (.ok (), s')) :
      LoopStep body s ⟨t :: types, some p⟩ (some (t, p)) s' ⟨t :: types, linkBehind p (s.sensors t)⟩
  | nextList {s : Agent Data} {t : SensorType} {types : List SensorType} :
      LoopStep body s ⟨t :: types, none⟩ none s (s.enter types)

/-! ## What a step may write: one buffer, a new sensor, or rows -/

/-- What one step touches of the memory that the threads share. -/
inductive Access where
  /-- Nothing of a sensor or a list. -/
  | none
  /-- One buffer of a sensor. -/
  | write (p : Ptr) (b : Fin 2)
  /-- A sensor that is new, which is put into a list. -/
  | alloc (t : SensorType) (p : Ptr)
  /-- A row of a sensor, which may be removed from its list and freed. -/
  | restructure (t : SensorType) (p : Ptr)

/-- The buffer `b` of the sensor `p` is written. -/
def Access.Writes (p : Ptr) (b : Fin 2) : Access → Prop
  | .none => False
  | .write q c => q = p ∧ c = b
  | .alloc _ q => q = p
  | .restructure _ _ => False

/-- A list is modified by the main thread, or a sensor freed. -/
def Access.Restructures : Access → Prop
  | .restructure _ _ => True
  | _ => False

/-! ## The update thread -/

/-- The two loops of `update_tables__`. -/
inductive Phase where
  | mark
  | update

/-- What each pass does with a sensor. -/
def Phase.body (phase : Phase) (sweep : Sweep Data) (t : SensorType) (p : Ptr) : Run Data Unit :=
  match phase with
  | .mark => setNextValid false p
  | .update => updateSensor sweep t p

/-- Where the update thread is. -/
inductive UpdatePc (Data : Type) where
  | asleep
  | checkTrigger (now : UInt64)
  | stamp (now : UInt64)
  | looping (phase : Phase) (at_ : Cursor)
  | discovering
  | adding (t : SensorType) (new : Sensor Data) (curr : Option Ptr)
  | swapping
  | triggering

/-- What follows a loop. -/
def Phase.next : Phase → UpdatePc Data
  | .mark => .discovering
  | .update => .swapping

/-- Behind the check of the trigger, up to setting it. -/
def UpdatePc.Critical : UpdatePc Data → Prop
  | .asleep => False
  | .checkTrigger _ => False
  | _ => True

/-- The access of a step of a loop of the update thread. -/
def visitAccess (s : Agent Data) : Option (SensorType × Ptr) → Access
  | some (_, p) => .write p s.nextInfo
  | none => .none

/-- One step of the update thread, with what it touches. -/
inductive UpdateStep [Inhabited Data] (aim : AimList) :
    Agent Data → UpdatePc Data → Access → Agent Data → UpdatePc Data → Prop where
  | wake {s : Agent Data} (now : UInt64) :
      UpdateStep aim s .asleep .none s
        (if now - s.lastSensorUpdateTime < updatePeriod then .asleep else .checkTrigger now)
  | checkTrigger {s : Agent Data} {now : UInt64} :
      UpdateStep aim s (.checkTrigger now) .none s
        (if s.restructureTrigger then .asleep else .stamp now)
  | stamp {s : Agent Data} {now : UInt64} :
      UpdateStep aim s (.stamp now) .none { s with lastSensorUpdateTime := now }
        (.looping .mark (s.enter sensorTypes))
  | loop {s s' : Agent Data} {phase : Phase} (sweep : Sweep Data) {c c' : Cursor}
      {visited : Option (SensorType × Ptr)}
      (h : LoopStep (phase.body sweep) s c visited s' c') :
      UpdateStep aim s (.looping phase c) (visitAccess s visited) s' (.looping phase c')
  | loopEnd {s : Agent Data} {phase : Phase} {curr : Option Ptr} :
      UpdateStep aim s (.looping phase ⟨[], curr⟩) .none s phase.next
  -- `onlp_oid_iterate` reports an OID
  | collect {s : Agent Data} {oid : Oid} {t : SensorType} (h : oidSensorType oid = some t) :
      UpdateStep aim s .discovering .none s (.adding t (newSensor oid) (s.sensors t).head?)
  | skip {s : Agent Data} {oid : Oid} (h : oidSensorType oid = none) :
      UpdateStep aim s .discovering .none s .discovering
  | found {s s' : Agent Data} {t : SensorType} {new ss : Sensor Data} {p : Ptr}
      (hp : s.heap p = some ss) (hid : new.sensorId = ss.sensorId)
      (h : setNextValid true p s = (.ok (), s')) :
      UpdateStep aim s (.adding t new (some p)) (.write p s.nextInfo) s' .discovering
  | other {s : Agent Data} {t : SensorType} {new ss : Sensor Data} {p : Ptr}
      (hp : s.heap p = some ss) (hid : new.sensorId ≠ ss.sensorId) :
      UpdateStep aim s (.adding t new (some p)) .none s
        (.adding t new (linkBehind p (s.sensors t)))
  | push {s s' : Agent Data} {t : SensorType} {new : Sensor Data}
      (h : pushSensor aim t new s = (.ok (), s')) :
      UpdateStep aim s (.adding t new none) (.alloc t s.brk) s' .discovering
  | discovered {s : Agent Data} :
      UpdateStep aim s .discovering .none s (.looping .update (s.enter sensorTypes))
  | swap {s s' : Agent Data} (h : swapCurrNextInfo s = (.ok (), s')) :
      UpdateStep aim s .swapping .none s' .triggering
  | trigger {s : Agent Data} :
      UpdateStep aim s .triggering .none { s with restructureTrigger := true } .asleep

/-! ## The main thread -/

/-- Where the main thread is.  A handler is called with the sensor of a row; when it has called
    `get_curr_info` it holds a buffer, and behind the check of `valid` it has read some of the data. -/
inductive MainPc (Data : Type) where
  | idle
  | called (p : Ptr)
  | handling (p : Ptr) (b : Fin 2)
  | reading (p : Ptr) (b : Fin 2) (seen : List Data)
  | restructuring (at_ : Cursor)

/-- A running handler has fetched the buffer `b` of the sensor `p`. -/
def MainPc.Holds (p : Ptr) (b : Fin 2) : MainPc Data → Prop
  | .idle => False
  | .called _ => False
  | .handling q c => q = p ∧ c = b
  | .reading q c _ => q = p ∧ c = b
  | .restructuring _ => False

/-- The access of a step of the loop of `restructure_tables__`. -/
def restructureAccess : Option (SensorType × Ptr) → Access
  | some (t, p) => .restructure t p
  | none => .none

/-- One step of the main thread. -/
inductive MainStep :
    Agent Data → MainPc Data → Access → Agent Data → MainPc Data → Prop where
  -- a request for a row of a table
  | request {s : Agent Data} {t : SensorType} {r : Row} (h : r ∈ s.rows t) :
      MainStep s .idle .none s (.called r.data)
  | getCurrInfo {s : Agent Data} {p : Ptr} :
      MainStep s (.called p) .none s (.handling p s.currInfo)
  | invalid {s : Agent Data} {p : Ptr} {b : Fin 2} {ss : Sensor Data} (hp : s.heap p = some ss)
      (h : (ss.sensorInfo b).valid = false) :
      MainStep s (.handling p b) .none s .idle
  | valid {s : Agent Data} {p : Ptr} {b : Fin 2} {ss : Sensor Data} (hp : s.heap p = some ss)
      (h : (ss.sensorInfo b).valid = true) :
      MainStep s (.handling p b) .none s (.reading p b [])
  | read {s : Agent Data} {p : Ptr} {b : Fin 2} {seen : List Data} {ss : Sensor Data}
      (hp : s.heap p = some ss) :
      MainStep s (.reading p b seen) .none s (.reading p b (seen ++ [(ss.sensorInfo b).data]))
  | answer {s : Agent Data} {p : Ptr} {b : Fin 2} {seen : List Data} :
      MainStep s (.reading p b seen) .none s .idle
  -- an alarm calls `restructure_tables__`
  | alarm {s : Agent Data} :
      MainStep s .idle .none s
        (if s.restructureTrigger then .restructuring (s.enter sensorTypes) else .idle)
  | loop {s s' : Agent Data} {c c' : Cursor} {visited : Option (SensorType × Ptr)}
      (h : LoopStep restructureSensor s c visited s' c') :
      MainStep s (.restructuring c) (restructureAccess visited) s' (.restructuring c')
  | done {s : Agent Data} {curr : Option Ptr} :
      MainStep s (.restructuring ⟨[], curr⟩) .none { s with restructureTrigger := false } .idle

/-! ## The two together: a step of either -/

/-- The memory, and where each thread is. -/
structure System (Data : Type) where
  /-- The memory. -/
  agent : Agent Data
  /-- Where the update thread is. -/
  update : UpdatePc Data
  /-- Where the main thread is. -/
  main : MainPc Data

/-- A step of either thread. -/
inductive Step [Inhabited Data] (aim : AimList) : System Data → System Data → Prop where
  | update {s s' : Agent Data} {pc pc' : UpdatePc Data} {main : MainPc Data} {a : Access}
      (h : UpdateStep aim s pc a s' pc') : Step aim ⟨s, pc, main⟩ ⟨s', pc', main⟩
  | main {s s' : Agent Data} {pc : UpdatePc Data} {main main' : MainPc Data} {a : Access}
      (h : MainStep s main a s' main') : Step aim ⟨s, pc, main⟩ ⟨s', pc, main'⟩

/-- The agent as it is when the update thread is started, behind `onlp_snmp_sensors_init`. -/
def Started [Inhabited Data] (aim : AimList) (sys : System Data) : Prop :=
  sys.update = .asleep ∧ sys.main = .idle ∧
    ∃ sweep, onlpSnmpSensorsInit aim sweep Agent.static = (.ok (), sys.agent)

end

end DentOS.Snmp
