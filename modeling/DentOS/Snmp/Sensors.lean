/-
  The sensor lists and SNMP tables of onlp_snmpd (onlp_snmp_sensors.c).

  Every sensor has two buffers for what is known of it.  `update_tables__` fills the one that
  `next_info()` names and then swaps the two; `restructure_tables__` compares the two `valid` bits,
  adds and deletes rows, and frees sensors.

  Sensors live on a heap, and a pointer stands for one `malloc` for good: an address is not used twice,
  so that a pointer to a freed sensor is never mistaken for one to a later sensor.  The model stops
  with a `Fault` where the C code would follow a pointer to freed memory, free memory that a row still
  points to, fail an assertion or call a missing handler.

  What the code gets from elsewhere is a parameter: AIM's `list_push`, which puts the element
  somewhere in the list (`AimList`), and the time, the OIDs and the `info_get` functions of ONLP
  (`Sweep`).  A table of net-snmp is a map keyed by index (`Tdata`).  `Data` is the union of the three
  `info` structures.  A sensor's name and description go to log messages and to one column of a table,
  and are left out.
-/
import DentOS.Lib.Triple

namespace DentOS.Snmp

open Effects

/-! ## Sensors, with two buffers each -/

/-- `onlp_oid_t`. -/
abbrev Oid := UInt32

/-- `ONLP_OID_TYPE_GET`. -/
def oidTypeGet (oid : Oid) : UInt32 := oid >>> 24

/-- `ONLP_OID_ID_GET`. -/
def oidIdGet (oid : Oid) : UInt32 := oid &&& 0xFFFFFF

/-- `onlp_snmp_sensor_type_t`. -/
inductive SensorType where
  | temp
  | fan
  | psu
  | led
  | misc
  deriving DecidableEq

/-- From `ONLP_SNMP_SENSOR_TYPE_TEMP` to `ONLP_SNMP_SENSOR_TYPE_MAX`. -/
def sensorTypes : List SensorType := [.temp, .fan, .psu, .led, .misc]

/-- `sensor_info_t`. -/
structure SensorInfo (Data : Type) where
  /-- The last `info_get` succeeded. -/
  valid : Bool
  /-- What it gave. -/
  data : Data

/-- `onlp_snmp_sensor_t`; a `sensor_type` of zero is `none`. -/
structure Sensor (Data : Type) where
  /-- The object. -/
  sensorId : Oid
  /-- Its type. -/
  sensorType : Option SensorType
  /-- The index of its row. -/
  index : UInt32
  /-- The two buffers. -/
  sensorInfo : Fin 2 → SensorInfo Data

section

variable {Data : Type}

/-- One of the two buffers is written. -/
def Sensor.setInfo (ss : Sensor Data) (b : Fin 2) (info : SensorInfo Data) : Sensor Data :=
  { ss with sensorInfo := fun c => if c = b then info else ss.sensorInfo c }

variable (ss : Sensor Data) (b : Fin 2) (info : SensorInfo Data)

@[simp] theorem Sensor.setInfo_sensorId : (ss.setInfo b info).sensorId = ss.sensorId := rfl
@[simp] theorem Sensor.setInfo_index : (ss.setInfo b info).index = ss.index := rfl
@[simp] theorem Sensor.setInfo_self : (ss.setInfo b info).sensorInfo b = info := if_pos rfl

/-- The other buffer stays as it is. -/
theorem Sensor.setInfo_of_ne {c : Fin 2} (h : c ≠ b) :
    (ss.setInfo b info).sensorInfo c = ss.sensorInfo c := if_neg h

end

/-! ## Tables: rows with different indices -/

/-- The address of a sensor. -/
abbrev Ptr := Nat

/-- `netsnmp_tdata_row`, with its index. -/
structure Row where
  /-- The index of the row. -/
  index : UInt32
  /-- The sensor that it shows. -/
  data : Ptr
  deriving DecidableEq

/-- `netsnmp_tdata`: a map keyed by index. -/
structure Tdata where
  /-- The rows. -/
  rows : List Row
  /-- No two rows have one index. -/
  keyed : rows.Pairwise fun r q => r.index ≠ q.index

/-- A table without rows. -/
def Tdata.empty : Tdata := ⟨[], List.Pairwise.nil⟩

/-- `netsnmp_tdata_add_row`, which refuses an index that is taken. -/
def Tdata.addRow (table : Tdata) (row : Row) : Option Tdata :=
  if h : ∀ q ∈ table.rows, row.index ≠ q.index then
    some ⟨row :: table.rows, List.pairwise_cons.mpr ⟨h, table.keyed⟩⟩
  else none

/-- `netsnmp_tdata_remove_and_delete_row` of the row with an index, if there is one. -/
def Tdata.deleteRow (table : Tdata) (index : UInt32) : Tdata :=
  ⟨table.rows.filter fun r => r.index ≠ index, table.keyed.filter _⟩

/-! ## The agent: the heap, the lists and the tables -/

/-- Where `list_push` puts an element. -/
structure AimList where
  /-- The list with one element more. -/
  push : Ptr → List Ptr → List Ptr
  /-- It has every element that it had. -/
  perm : ∀ p l, (push p l).Perm (p :: l)

/-- The static variables of the module, and the heap: `brk` is the next pointer that `malloc` gives. -/
structure Agent (Data : Type) where
  /-- The sensors that are allocated. -/
  heap : Ptr → Option (Sensor Data)
  /-- The pointer that `malloc` gives next. -/
  brk : Ptr
  /-- The list of each type. -/
  sensors : SensorType → List Ptr
  /-- The table of each type. -/
  sensorTable : SensorType → Option Tdata
  /-- The buffer that is read. -/
  currInfo : Fin 2
  /-- The time of the last sweep. -/
  lastSensorUpdateTime : UInt64
  /-- The tables are to be restructured. -/
  restructureTrigger : Bool

/-- What can go wrong in memory or in a table. -/
inductive Fault where
  | useAfterFree
  | freedWithRow
  | noTable
  | duplicateRow
  | noHandler
  deriving DecidableEq

/-- A computation of the agent, which may end in a fault. -/
abbrev Run (Data : Type) := Prog (Agent Data) Fault

section

variable {Data : Type}

/-- `next_info`. -/
def Agent.nextInfo (s : Agent Data) : Fin 2 := s.currInfo + 1

/-- `get_curr_info`. -/
def Agent.getCurrInfo (s : Agent Data) (ss : Sensor Data) : SensorInfo Data :=
  ss.sensorInfo s.currInfo

/-- `get_next_info`. -/
def Agent.getNextInfo (s : Agent Data) (ss : Sensor Data) : SensorInfo Data :=
  ss.sensorInfo s.nextInfo

/-- `swap_curr_next_info`. -/
def swapCurrNextInfo : Run Data Unit := Prog.modify fun s => { s with currInfo := s.nextInfo }

/-- Follow a pointer. -/
def load (p : Ptr) : Run Data (Sensor Data) := do
  let s ← Prog.get
  match s.heap p with
  | some ss => pure ss
  | none => Prog.throw .useAfterFree

/-- The heap with something else where a pointer points to. -/
def Agent.write (s : Agent Data) (p : Ptr) (ss : Option (Sensor Data)) : Agent Data :=
  { s with heap := fun q => if q = p then ss else s.heap q }

/-- Write to what a pointer points to. -/
def store (p : Ptr) (ss : Sensor Data) : Run Data Unit := Prog.modify fun s => s.write p (some ss)

/-- The rows of a type. -/
def Agent.rows (s : Agent Data) (t : SensorType) : List Row :=
  match s.sensorTable t with
  | some table => table.rows
  | none => []

/-- A row of some table points to `p`. -/
def Agent.hasRow (s : Agent Data) (p : Ptr) : Bool :=
  sensorTypes.any fun t => (s.sensorTable t).any fun table => table.rows.any fun r => r.data == p

/-- `aim_free`. -/
def aimFree (p : Ptr) : Run Data Unit := do
  let _ ← load p
  let s ← Prog.get
  if s.hasRow p then Prog.throw .freedWithRow
  else Prog.modify fun s => s.write p none

/-- Another list of sensors of a type. -/
def Agent.setSensors (s : Agent Data) (t : SensorType) (list : List Ptr) : Agent Data :=
  { s with sensors := fun u => if u = t then list else s.sensors u }

/-- Another table of a type. -/
def Agent.setTable (s : Agent Data) (t : SensorType) (table : Tdata) : Agent Data :=
  { s with sensorTable := fun u => if u = t then some table else s.sensorTable u }

/-- `list_remove`. -/
def listRemove (t : SensorType) (p : Ptr) : Run Data Unit :=
  Prog.modify fun s => s.setSensors t ((s.sensors t).erase p)

/-! ## Rows: added, found, removed -/

/-- `add_table_row__`; its assertion is that `netsnmp_tdata_add_row` succeeds. -/
def addTableRow (t : SensorType) (p : Ptr) : Run Data Unit := do
  let ss ← load p
  let s ← Prog.get
  match s.sensorTable t with
  | none => Prog.throw .noTable
  | some table =>
      match table.addRow ⟨ss.index, p⟩ with
      | none => Prog.throw .duplicateRow
      | some table' => Prog.modify fun s => s.setTable t table'

/-- `delete_table_row__`. -/
def deleteTableRow (t : SensorType) (index : UInt32) : Run Data Unit := do
  let s ← Prog.get
  match s.sensorTable t with
  | none => Prog.throw .noTable
  | some table => Prog.modify fun s => s.setTable t (table.deleteRow index)

/-! ## Updating: discovery, and a sweep over the lists -/

/-- What one call of `update_tables__` meets: the time, the OIDs that `onlp_oid_iterate` reports, and
    the `info_get` functions, which return a status and may write to the buffer either way. -/
structure Sweep (Data : Type) where
  /-- The time. -/
  now : UInt64
  /-- The OIDs that are reported. -/
  oids : List Oid
  /-- `onlp_thermal_info_get`. -/
  thermalInfoGet : Oid → Data → Bool × Data
  /-- `onlp_fan_info_get`. -/
  fanInfoGet : Oid → Data → Bool × Data
  /-- `onlp_psu_info_get`. -/
  psuInfoGet : Oid → Data → Bool × Data

/-- `get_next_info(ss)->valid = valid`. -/
def setNextValid (valid : Bool) (p : Ptr) : Run Data Unit := do
  let ss ← load p
  let s ← Prog.get
  store p (ss.setInfo s.nextInfo { s.getNextInfo ss with valid := valid })

/-- The update handlers: `info_get` writes to the next buffer. -/
def updateHandler (infoGet : Oid → Data → Bool × Data) (p : Ptr) : Run Data Bool := do
  let ss ← load p
  let s ← Prog.get
  let (ok, data) := infoGet ss.sensorId (s.getNextInfo ss).data
  store p (ss.setInfo s.nextInfo { s.getNextInfo ss with data := data })
  pure ok

/-- `temp_update_handler__`. -/
def tempUpdateHandler (sweep : Sweep Data) : Ptr → Run Data Bool :=
  updateHandler sweep.thermalInfoGet

/-- `fan_update_handler__`. -/
def fanUpdateHandler (sweep : Sweep Data) : Ptr → Run Data Bool :=
  updateHandler sweep.fanInfoGet

/-- `psu_update_handler__`. -/
def psuUpdateHandler (sweep : Sweep Data) : Ptr → Run Data Bool :=
  updateHandler sweep.psuInfoGet

/-- `all_update_handler_fns__`, which ends with the one for PSUs. -/
def allUpdateHandlerFns (sweep : Sweep Data) : SensorType → Option (Ptr → Run Data Bool)
  | .temp => some (tempUpdateHandler sweep)
  | .fan => some (fanUpdateHandler sweep)
  | .psu => some (psuUpdateHandler sweep)
  | .led => none
  | .misc => none

/-- One pass of the loop of `update_tables__` that updates the sensors. -/
def updateSensor (sweep : Sweep Data) (t : SensorType) (p : Ptr) : Run Data Unit := do
  let ss ← load p
  let s ← Prog.get
  if (s.getNextInfo ss).valid then
    match allUpdateHandlerFns sweep t with
    | none => Prog.throw .noHandler
    | some handler => do
        let ok ← handler p
        if ok then pure () else setNextValid false p
  else pure ()

/-- The loop of `add_sensor__`. -/
def findSensor (sensorId : Oid) : List Ptr → Run Data (Option Ptr)
  | [] => pure none
  | p :: rest => do
      let ss ← load p
      if sensorId = ss.sensorId then pure (some p) else findSensor sensorId rest

/-- The end of `add_sensor__`, from `AIM_MALLOC` on. -/
def pushSensor (aim : AimList) (t : SensorType) (new : Sensor Data) : Run Data Unit := do
  let s ← Prog.get
  let p := s.brk
  Prog.modify fun s => { s with brk := p + 1 }
  let ss := { new with sensorType := some t }
  store p (ss.setInfo s.nextInfo { s.getNextInfo ss with valid := true })
  Prog.modify fun s => s.setSensors t (aim.push p (s.sensors t))

/-- `add_sensor__`. -/
def addSensor (aim : AimList) (t : SensorType) (new : Sensor Data) : Run Data Unit := do
  let s ← Prog.get
  match ← findSensor new.sensorId (s.sensors t) with
  | some p => setNextValid true p
  | none => pushSensor aim t new

/-- Of which list a sensor with an OID is. -/
def oidSensorType (oid : Oid) : Option SensorType :=
  if oidTypeGet oid = 2 then some .temp
  else if oidTypeGet oid = 3 then some .fan
  else if oidTypeGet oid = 4 then some .psu
  else none

/-- The sensor that `collect_sensors__` makes, in zeroed memory. -/
def newSensor [Inhabited Data] (oid : Oid) : Sensor Data where
  sensorId := oid
  sensorType := none
  index := oidIdGet oid
  sensorInfo _ := ⟨false, default⟩

/-- `collect_sensors__`. -/
def collectSensors [Inhabited Data] (aim : AimList) (oid : Oid) : Run Data Unit :=
  match oidSensorType oid with
  | some t => addSensor aim t (newSensor oid)
  | none => pure ()

/-- `LIST_FOREACH` over the list of every type.  No body changes a list but by removing the element it
    has been given, which is behind the loop by then (`LIST_FOREACH_SAFE`). -/
def forEachSensor (body : SensorType → Ptr → Run Data Unit) : Run Data Unit :=
  Prog.forEach (fun t => do
    let s ← Prog.get
    Prog.forEach (body t) (s.sensors t)) sensorTypes

/-- `ONLP_SNMP_CONFIG_UPDATE_PERIOD`, in microseconds. -/
def updatePeriod : UInt64 := 5 * 1000 * 1000

/-- `update_tables__`, behind its two checks. -/
def sweepTables [Inhabited Data] (aim : AimList) (sweep : Sweep Data) : Run Data Unit := do
  Prog.modify fun s => { s with lastSensorUpdateTime := sweep.now }
  forEachSensor fun _ => setNextValid false
  Prog.forEach (collectSensors aim) sweep.oids
  forEachSensor (updateSensor sweep)
  swapCurrNextInfo
  Prog.modify fun s => { s with restructureTrigger := true }

/-- `update_tables__`. -/
def updateTables [Inhabited Data] (aim : AimList) (sweep : Sweep Data) : Run Data Unit := do
  let s ← Prog.get
  if sweep.now - s.lastSensorUpdateTime < updatePeriod then pure ()
  else if s.restructureTrigger then pure ()
  else sweepTables aim sweep

/-! ## Restructuring: the tables follow the buffers -/

/-- One pass of the loop of `restructure_tables__`. -/
def restructureSensor (t : SensorType) (p : Ptr) : Run Data Unit := do
  let ss ← load p
  let s ← Prog.get
  let previouslyValid := (s.getNextInfo ss).valid
  let nowValid := (s.getCurrInfo ss).valid
  if !previouslyValid && nowValid then addTableRow t p
  else if previouslyValid && !nowValid then do
    deleteTableRow t ss.index
    listRemove t p
    aimFree p
  else pure ()

/-- `restructure_tables__`. -/
def restructureTables : Run Data Unit := do
  let s ← Prog.get
  if s.restructureTrigger then do
    forEachSensor restructureSensor
    Prog.modify fun s => { s with restructureTrigger := false }
  else pure ()

/-! ## Starting: the tables of each type -/

/-- The static variables as the program starts. -/
def Agent.static : Agent Data where
  heap _ := none
  brk := 0
  sensors _ := []
  sensorTable _ := none
  currInfo := 0
  lastSensorUpdateTime := 0
  restructureTrigger := false

/-- The table that `init_all_tables__` registers for a type. -/
def initialTable : SensorType → Option Tdata
  | .temp => some .empty
  | .fan => some .empty
  | .psu => some .empty
  | .led => none
  | .misc => none

/-- `init_all_tables__`. -/
def initAllTables : Run Data Unit :=
  Prog.modify fun s => { s with sensors := fun _ => [], sensorTable := initialTable }

/-- `setup_alarm__`. -/
def setupAlarm [Inhabited Data] (aim : AimList) (sweep : Sweep Data) : Run Data Unit := do
  updateTables aim sweep
  restructureTables

/-- `onlp_snmp_sensors_init`. -/
def onlpSnmpSensorsInit [Inhabited Data] (aim : AimList) (sweep : Sweep Data) : Run Data Unit := do
  initAllTables
  setupAlarm aim sweep

end

end DentOS.Snmp
