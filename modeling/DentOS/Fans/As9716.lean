/-
  The fans of the AS9716-32D: `onlp_sysi_platform_manage_fans`, which ONLP calls every ten seconds.

  The fans blow at 50, 75 or 100 percent (`Level`).  Every third call is a check: it reads eight
  thermometers, the power supplies and the fans, and changes the level by one.  At full speed, and with the
  air from front to back, it also goes through the alarms, up to the shutdown.

  What the files of the kernel hold while a call runs is a parameter (`Inputs`), the register of the duty
  cycle is not: it keeps what the last write put in.

  The limits of each thermometer are in two tables, one for each direction of the air.  A reading that fails
  sets full speed at once and ends the call, with the level as it was.  A fan that is missing or has failed
  sets `fan_fail`, which nothing clears.
-/
import Mathlib.Data.Fin.VecNotation

namespace DentOS.As9716

/-- `ONLP_STATUS_OK`, and two that are not. -/
def statusOk : Int := 0
def statusInvalid : Int := -12
def statusInternal : Int := -13

/-- The `enum` of `sysi.c`, for the speeds and for the alarms. -/
inductive Level where
  | init | min | mid | max | yellowAlarm | redAlarm | shutdown
  deriving DecidableEq, Repr

/-! ## What comes from outside in one call: sensors, fans, and the fate of writes -/

/-- The files of a fan: what `onlp_file_read_int` reads, if it can. -/
structure FanFiles where
  /-- `fan<id>_present`. -/
  present : Option Int
  /-- `fan<id>_fault`. -/
  fault : Option Int
  /-- `fan<id>_direction`. -/
  direction : Option Int
  /-- The speed of the front rotor. -/
  frontSpeed : Option Int
  /-- The speed of the rear rotor. -/
  rearSpeed : Option Int

/-- What becomes of a write to `fan_duty_cycle_percentage`.  It fails, it fails in the second of the two
    writes to the CPLD, whose status the driver drops, or it takes. -/
inductive Write where
  | fails | dropped | takes
  deriving DecidableEq, Repr

/-- What the outside answers while one call runs. -/
structure Inputs where
  /-- The direction that the policy is chosen by. -/
  direction : Option Int
  /-- The readings of the four cores. -/
  coretemp : Fin 4 → Option Int
  /-- The readings of the board's thermometers, by their number. -/
  lm75 : Nat → Option Int
  /-- The file of the duty cycle can be opened for reading. -/
  dutyOpens : Bool
  /-- A byte can be read from it. -/
  dutyReads : Bool
  /-- `psu_power_good`, by the power supply. -/
  powerGood : Nat → Option Int
  /-- The input power. -/
  pIn : Nat → Option Int
  /-- The output power. -/
  pOut : Nat → Option Int
  /-- The files of each fan. -/
  fan : Nat → FanFiles
  /-- What becomes of a write to the file of the duty cycle. -/
  write : Write
  /-- Whether a write to the power supply's fan succeeds. -/
  psuWrite : Bool

/-- What the policy says or orders: a duty cycle, that of a power supply, an alarm or its end, a
    shutdown. -/
inductive Event where
  | duty (percent : Int)
  | psuDuty (psu : Nat) (percent : Int)
  | yellow
  | red
  | clear
  | shutdown
  deriving DecidableEq, Repr

/-- The variables of `sysi.c`, the register of the duty cycle, and what has been done. -/
structure State where
  /-- The level at which the fans are. -/
  fanState : Level
  /-- A fan has failed since the program was started: nothing takes it back. -/
  fanFail : Bool
  /-- The level of the alarms. -/
  fanAlarmState : Level
  /-- The yellow alarm has been sent. -/
  sendYellowAlarm : Bool
  /-- The red alarm has been sent. -/
  sendRedAlarm : Bool
  /-- The calls since the last check. -/
  countCheck : Nat
  /-- The duty cycle as it was read. -/
  currentDutyCycle : Int
  /-- The duty cycle to be set. -/
  newDutyCycle : Int
  /-- The register of the duty cycle. -/
  pwm : UInt8
  /-- What has been done, in order. -/
  log : List Event

/-- The process starts, with the fans as they are. -/
def State.start (pwm : UInt8) : State where
  fanState := .init
  fanFail := false
  fanAlarmState := .init
  sendYellowAlarm := false
  sendRedAlarm := false
  countCheck := 0
  currentDutyCycle := 0
  newDutyCycle := 0
  pwm := pwm
  log := []

/-- One more event in the log. -/
def State.say (s : State) (e : Event) : State := { s with log := s.log ++ [e] }

/-! ## x86-64-accton-as9716-32d-fan.c -/

/-- `reg_val_to_duty_cycle`, of the CPLD's register. -/
def regValToDutyCycle (r : UInt8) : Int := ((((r &&& 0xF).toUInt32 + 1) * 625 + 75) / 100).toNat

/-- `duty_cycle_to_reg_val`, in the widths of the C code. -/
def dutyCycleToRegVal (dutyCycle : UInt8) : UInt8 := (dutyCycle.toUInt32 * 100 / 625 - 1).toUInt8

/-- `set_duty_cycle`: the status, and the register. -/
def setDutyCycle (value : Int) : Write → State → Bool × State
  | .fails, s => (false, s)
  | .dropped, s => (decide (0 ≤ value ∧ value ≤ 100), s)
  | .takes, s =>
      if 0 ≤ value ∧ value ≤ 100 then
        (true, { s with pwm := dutyCycleToRegVal (UInt8.ofNat value.toNat) }.say (.duty value))
      else (false, s)

/-! ## fani.c, thermali.c -/

/-- What `onlp_fani_info_get` tells of a fan. -/
structure FanInfo where
  /-- The fan is in its place. -/
  present : Bool
  /-- It has failed. -/
  failed : Bool
  /-- Its air goes from front to back. -/
  f2b : Bool
  /-- Its air goes from back to front. -/
  b2f : Bool
  /-- The speed of its slower rotor. -/
  rpm : Int
  /-- Its speed in percent of `maxFanSpeed`. -/
  percentage : Int

/-- `MAX_FAN_SPEED`, in turns a minute. -/
def maxFanSpeed : Int := 25500

/-- `_onlp_fani_info_get_fan`. -/
def faniInfoGet (fan : FanFiles) : Option FanInfo := do
  let present ← fan.present
  if present = 0 then
    return ⟨false, false, false, false, 0, 0⟩
  let fault ← fan.fault
  let direction ← fan.direction
  let front ← fan.frontSpeed
  let rear ← fan.rearSpeed
  let rpm := if rear < front then rear else front
  return ⟨true, decide (0 < fault), decide (direction ≠ 0), decide (direction = 0), rpm,
    (rpm * 100).tdiv maxFanSpeed⟩

/-- `onlp_fani_percentage_set`: the fans 1 to 6 have one register, 7 and 8 are those of the power supplies. -/
def faniPercentageSet (inp : Inputs) (fid : Nat) (p : Int) (s : State) : Int × State :=
  if p = 0 then (statusInvalid, s)
  else if fid = 7 ∨ fid = 8 then
    if inp.psuWrite then (statusOk, s.say (.psuDuty (fid - 6) p)) else (statusInternal, s)
  else if 1 ≤ fid ∧ fid ≤ 6 then
    ((if (setDutyCycle p inp.write s).1 then statusOk else statusInternal), (setDutyCycle p inp.write s).2)
  else (statusInvalid, s)

/-- `onlp_file_read_int_max`. -/
def fileReadIntMax (max : Int) : List (Option Int) → Option Int
  | [] => some max
  | none :: _ => none
  | some value :: files => fileReadIntMax (if max < value then value else max) files

/-- `onlp_thermali_info_get`. -/
def thermaliInfoGet (inp : Inputs) (tid : Nat) : Option Int :=
  if tid = 1 then fileReadIntMax 0 ((List.finRange 4).map inp.coretemp) else inp.lm75 tid

/-! ## The policy: the limits of each thermometer, and the levels -/

/-- The temperatures at which the speed changes, with the air from back to front. -/
structure AfiTempRange where
  /-- From here on the fans go up, by the thermometer. -/
  midToMaxTemp : Fin 8 → Int
  /-- From here down they may go down again. -/
  maxToMidTemp : Fin 8 → Int

/-- `afi_thermal_spec`, in thousandths of a degree. -/
def afiThermalSpec : AfiTempRange where
  midToMaxTemp := ![61500, 51500, 49400, 49400, 45100, 46750, 48000, 38500]
  maxToMidTemp := ![57000, 47300, 45000, 45100, 40750, 42100, 44000, 35000]

/-- The temperatures at which speeds and alarms change, with the air from front to back. -/
structure AfoTempRange where
  minToMidTemp : Fin 8 → Int
  midToMaxTemp : Fin 8 → Int
  maxToMidTemp : Fin 8 → Int
  midToMinTemp : Fin 8 → Int
  maxToYellowAlarmTemp : Fin 8 → Int
  yellowToRedAlarmTemp : Fin 8 → Int
  redAlarmToShutdownTemp : Fin 8 → Int

/-- `afo_thermal_spec`, in thousandths of a degree. -/
def afoThermalSpec : AfoTempRange where
  minToMidTemp := ![70000, 66000, 68000, 62000, 62000, 67000, 77000, 50000]
  midToMaxTemp := ![67000, 62000, 65000, 59000, 58500, 63000, 69000, 49000]
  maxToMidTemp := ![59000, 53500, 55300, 50300, 50000, 52500, 59000, 41100]
  midToMinTemp := ![55800, 50500, 51100, 47600, 45750, 50100, 57000, 36600]
  maxToYellowAlarmTemp := ![68000, 64000, 65000, 61000, 60000, 64000, 70000, 68000]
  yellowToRedAlarmTemp := ![72000, 68000, 69000, 65000, 64000, 68000, 74000, 72000]
  redAlarmToShutdownTemp := ![77000, 73000, 74000, 70000, 69000, 73000, 79000, 77000]

/-- One speed of a policy: the duty cycle, its value in the register, and the level. -/
structure FanCtrlPolicy where
  /-- The duty cycle, in percent. -/
  dutyCycle : Int
  /-- What is in the register then. -/
  pwm : UInt8
  /-- The level that it belongs to. -/
  state : Level

/-- `fan_thermal_policy_f2b`: three speeds. -/
def fanThermalPolicyF2b : List FanCtrlPolicy := [⟨50, 0x7, .min⟩, ⟨75, 0xb, .mid⟩, ⟨100, 0xf, .max⟩]

/-- `fan_thermal_policy_b2f`: two speeds. -/
def fanThermalPolicyB2f : List FanCtrlPolicy := [⟨75, 0xb, .mid⟩, ⟨100, 0xf, .max⟩]

/-- `onlp_sysi_get_duty_cycle_by_fan_state`. -/
def getDutyCycleByFanState (state : Level) (direction : Int) : Int :=
  match (if direction ≠ 0 then fanThermalPolicyB2f else fanThermalPolicyF2b).find? (·.state = state) with
  | some policy => policy.dutyCycle
  | none => 0

/-- More than 800 W. -/
def overload : Option Int → Bool
  | some power => decide (800 < power.tdiv 1000)
  | none => false

/-- `onlp_sysi_check_psu_loading`: one power supply is out, and the other has much to do. -/
def checkPsuLoading (inp : Inputs) : Bool :=
  let good := fun id => decide ((inp.powerGood id).getD 0 = 1)
  (!good 1 || !good 2) && [1, 2].any fun id => good id && (overload (inp.pIn id) || overload (inp.pOut id))

/-- "Alarm-Yellow for temperature high is detected". -/
def yellowAlarm (s : State) : State :=
  if s.sendYellowAlarm then { s with fanAlarmState := .yellowAlarm }
  else { s with fanAlarmState := .yellowAlarm, sendYellowAlarm := true }.say .yellow

/-- "Alarm-Red for temperature high is detected". -/
def redAlarm (s : State) : State :=
  if s.sendRedAlarm then { s with fanAlarmState := .redAlarm }
  else { s with fanAlarmState := .redAlarm, sendRedAlarm := true }.say .red

/-- The alarms, for one thermometer. -/
def alarm (i : Fin 8) (t : Int) (s : State) : State :=
  if s.fanAlarmState = .init then
    if afoThermalSpec.maxToYellowAlarmTemp i ≤ t then yellowAlarm s else s
  else if s.fanAlarmState = .yellowAlarm then
    if afoThermalSpec.yellowToRedAlarmTemp i ≤ t then redAlarm s else s
  else if s.fanAlarmState = .redAlarm then
    if afoThermalSpec.redAlarmToShutdownTemp i ≤ t then { s with fanAlarmState := .shutdown }.say .shutdown
    else s
  else s

/-- The variables of the loop over the thermometers. -/
structure Scan where
  /-- The level when the loop began. -/
  currentState : Level
  /-- The thermometers that let the fans go down from the highest level. -/
  maxToMid : Nat
  /-- Those that let them go down from the middle one. -/
  midToMin : Nat
  /-- The variables of the program, as the loop changes them. -/
  state : State

/-- The loop for AFI. -/
def scanAfi (ori : Level) (t : Fin 8 → Int) : List (Fin 8) → Scan → Scan
  | [], c => c
  | i :: is, c =>
      if ori = .mid then
        if afiThermalSpec.midToMaxTemp i ≤ t i then { c with currentState := .max }
        else scanAfi ori t is c
      else
        scanAfi ori t is
          (if t i ≤ afiThermalSpec.maxToMidTemp i then { c with maxToMid := c.maxToMid + 1 } else c)

/-- The loop for AFO. -/
def scanAfo (ori : Level) (full : Bool) (t : Fin 8 → Int) : List (Fin 8) → Scan → Scan
  | [], c => c
  | i :: is, c =>
      if ori = .mid then
        if afoThermalSpec.midToMaxTemp i ≤ t i then { c with currentState := .max }
        else
          scanAfo ori full t is
            (if t i ≤ afoThermalSpec.midToMinTemp i then { c with midToMin := c.midToMin + 1 } else c)
      else if ori = .min then
        scanAfo ori full t is
          (if full ∨ afoThermalSpec.minToMidTemp i ≤ t i then { c with currentState := .mid } else c)
      else
        scanAfo ori full t is { c with
          maxToMid := if t i ≤ afoThermalSpec.maxToMidTemp i then c.maxToMid + 1 else c.maxToMid
          state := alarm i (t i) c.state }

/-- The alarms are over. -/
def clearAlarms (s : State) : State :=
  if s.fanAlarmState = .init then s
  else { s with fanAlarmState := .init, sendYellowAlarm := false, sendRedAlarm := false }.say .clear

/-- "Check thermal is in which range", AFI. -/
def rangeAfi (t : Fin 8 → Int) (s : State) : Level × State :=
  let c := scanAfi s.fanState t (List.finRange 8) ⟨s.fanState, 0, 0, s⟩
  if c.maxToMid = 8 ∧ s.fanState = .max then (.mid, c.state) else (c.currentState, c.state)

/-- "Check thermal is in which range", AFO. -/
def rangeAfo (full : Bool) (t : Fin 8 → Int) (s : State) : Level × State :=
  let c := scanAfo s.fanState full t (List.finRange 8) ⟨s.fanState, 0, 0, s⟩
  let c := if c.maxToMid = 8 ∧ s.fanState = .max then
      { c with currentState := .mid, state := clearAlarms c.state } else c
  let c := if c.midToMin = 8 ∧ s.fanState = .mid ∧ ¬ full then { c with currentState := .min } else c
  (c.currentState, c.state)

/-- A fan whose files cannot be read, that has failed, or that is not there. -/
def badFan (inp : Inputs) (i : Nat) : Bool :=
  match faniInfoGet (inp.fan i) with
  | some info => info.failed || !info.present
  | none => true

/-- "Try to set the other fans as full speed". -/
def fullSpeed (inp : Inputs) (s : State) : State :=
  if s.currentDutyCycle ≠ 100 then (faniPercentageSet inp 1 100 s).2 else s

/-- "Get each fan status".  `fan_fail` is never taken back. -/
def checkFans (inp : Inputs) (s : State) : State :=
  if (List.range' 1 6).any (badFan inp) then { fullSpeed inp s with fanFail := true } else s

/-- The level has changed. -/
def changeLevel (inp : Inputs) (direction : Int) (level : Level) (s : State) : State :=
  let duty := getDutyCycleByFanState level direction
  let s' := { s with fanState := level, newDutyCycle := duty }
  if duty ≠ s.currentDutyCycle ∧ ¬ s.fanFail then (faniPercentageSet inp 1 duty s').2
  else if duty = 0 ∧ ¬ s.fanFail then (faniPercentageSet inp 1 100 s').2
  else s'

/-- The order in which the thermometers are read, and the places they are kept in. -/
def thermalIds : Fin 8 → Nat := ![2, 3, 4, 6, 7, 8, 1, 5]

/-- The temperatures that are used, 0 for one that cannot be read. -/
def temps (inp : Inputs) (i : Fin 8) : Int := (thermaliInfoGet inp (thermalIds i)).getD 0

/-- `direction_val`. -/
def Inputs.directionVal (inp : Inputs) : Int := inp.direction.getD 1

/-- The level that the readings ask for, and the state with the alarms. -/
def range (inp : Inputs) (s : State) : Level × State :=
  if inp.directionVal = 1 then rangeAfi (temps inp) s else rangeAfo (checkPsuLoading inp) (temps inp) s

/-- All is read. -/
def evaluate (inp : Inputs) (s : State) : State :=
  let r := range inp s
  let s' := checkFans inp r.2
  if r.1 ≠ s.fanState then changeLevel inp inp.directionVal r.1 s' else s'

/-- A check. -/
def check (inp : Inputs) (s : State) : Int × State :=
  match (List.finRange 8).find? fun i => (thermaliInfoGet inp (thermalIds i)).isNone with
  | some i => (statusInternal, (faniPercentageSet inp (thermalIds i) 100 s).2)
  | none =>
      if inp.dutyOpens && inp.dutyReads then
        (statusOk, evaluate inp { s with currentDutyCycle := regValToDutyCycle s.pwm })
      else (statusInternal, s)

/-- `CHECK_TIMES`: the policy is applied at every third call. -/
def checkTimes : Nat := 3

/-- `onlp_sysi_platform_manage_fans`.  The first call asks for full speed of the fan 0, which there is not. -/
def manageFans (inp : Inputs) (s : State) : Int × State :=
  if s.fanState = .init then (statusOk, (faniPercentageSet inp 0 100 { s with fanState := .max }).2)
  else if s.countCheck + 1 < checkTimes then (statusOk, { s with countCheck := s.countCheck + 1 })
  else check inp { s with countCheck := 0 }

/-- Calls, the first first. -/
def run (calls : List Inputs) (s : State) : State := calls.foldl (fun s inp => (manageFans inp s).2) s

end DentOS.As9716
