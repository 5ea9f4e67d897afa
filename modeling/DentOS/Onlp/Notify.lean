/-
  The event logs of the platform manager (onlp, platform_manager.c): `platform_psus_notify__` and
  `platform_fans_notify__`.

  Both go over a table of OIDs, read the status of each and log what has changed against the status
  they have stored.  They differ in the type of the OIDs and in what they log, so the loop is one
  definition (`platformNotify`) with the report of a slot as a parameter.  On the first reading of a
  slot two blocks log: the one for the initial state, and the one for transitions, with 0 for the old
  status.

  The law of a log is `announce`: a slot is unknown, empty, or holds a unit with its conditions, and a
  message that announces no change of that is not a message of a faithful log.  A log is `Faithful`
  when its messages, one after another, lead from what was known to what was read.  Which readings
  get such a log is decided by each two readings that follow one another (`notify_faithful_iff`).
-/
import DentOS.Snmp.Sensors

namespace DentOS.Onlp

open Snmp (Oid oidTypeGet oidIdGet)

/-! ## Messages, one for each change of a bit -/

/-- What is logged about a unit.  That it is "not present", and that its "power cord [is] not plugged",
    belongs to the initial state. -/
inductive Message where
  | notPresent
  | failed
  | notPlugged
  | inserted
  | removed
  | recovered
  | pluggedIn
  | unplugged
  deriving DecidableEq

/-- A message under a condition. -/
def log (c : Bool) (m : Message) : List Message := if c then [m] else []

/-! ## Reports: what is compared, and what is said -/

/-- `ONLP_PSU_STATUS_PRESENT` and `ONLP_FAN_STATUS_PRESENT`. -/
def statusPresent : UInt32 := 1

/-- `ONLP_PSU_STATUS_FAILED` and `ONLP_FAN_STATUS_FAILED`. -/
def statusFailed : UInt32 := 2

/-- `ONLP_PSU_STATUS_UNPLUGGED`. -/
def statusUnplugged : UInt32 := 4

/-- A bit is set. -/
def has (status bit : UInt32) : Bool := status &&& bit != 0

/-- `flag[i]` and the stored status of a slot. -/
structure Slot where
  /-- Something has been stored. -/
  flag : Bool
  /-- What it is. -/
  status : UInt32

/-- Static storage is zero. -/
def Slot.start : Slot := ⟨false, 0⟩

/-- The initial state of a PSU. -/
def psuInitial (new : UInt32) : List Message :=
  log (!has new statusPresent) .notPresent ++
  log (has new statusFailed) .failed ++
  log (has new statusPresent && !has new statusFailed && has new statusUnplugged) .notPlugged

/-- The transitions of a PSU. -/
def psuTransitions (old new : UInt32) : List Message :=
  log (!has old statusPresent && has new statusPresent) .inserted ++
  log (has old statusPresent && !has new statusPresent) .removed ++
  log (has new statusPresent && has old statusFailed && !has new statusFailed) .recovered ++
  log (!has old statusFailed && has new statusFailed) .failed ++
  (if !has new statusFailed && has new statusPresent then
    log (has old statusUnplugged && !has new statusUnplugged) .pluggedIn ++
    log (!has old statusUnplugged && has new statusUnplugged) .unplugged
  else [])

/-- What `platform_psus_notify__` logs for a slot. -/
def psuReport (slot : Slot) (new : UInt32) : List Message :=
  (if !slot.flag then psuInitial new else []) ++
  (if new ≠ slot.status then psuTransitions slot.status new else [])

/-- The initial state of a fan. -/
def fanInitial (new : UInt32) : List Message :=
  log (!has new statusPresent) .notPresent ++
  log (has new statusFailed) .failed

/-- The transitions of a fan.  A fan that has been removed recovers too. -/
def fanTransitions (old new : UInt32) : List Message :=
  log (!has old statusPresent && has new statusPresent) .inserted ++
  log (has old statusPresent && !has new statusPresent) .removed ++
  log (has old statusFailed && !has new statusFailed) .recovered ++
  log (!has old statusFailed && has new statusFailed) .failed

/-- What `platform_fans_notify__` logs for a slot. -/
def fanReport (slot : Slot) (new : UInt32) : List Message :=
  (if !slot.flag then fanInitial new else []) ++
  (if new ≠ slot.status then fanTransitions slot.status new else [])

/-! ## A call: the table is built once, and every entry reported -/

/-- What a call reads: the children of the system, and the status for the entries of the table.  A
    negative status of a function is an error. -/
structure Call where
  /-- The children of the system, or an error. -/
  sysInfoGet : Except Int (List Oid)
  /-- The status of an entry of the table, or an error. -/
  infoGet : Nat → Oid → Except Int UInt32

/-- A line of the log. -/
inductive Line where
  | sysInfoFailed
  | readFailed (id : UInt32)
  | event (i : Nat) (id : UInt32) (m : Message)

/-- The static tables. -/
structure Reporter where
  /-- The OIDs that are watched. -/
  oidTable : List Oid
  /-- What was last seen of each. -/
  slots : Nat → Slot

/-- Nothing has been read. -/
def Reporter.start : Reporter := ⟨List.replicate 128 0, fun _ => .start⟩

/-- The OIDs of a type among the children of the system are put into an empty table. -/
def retrieve (type : UInt32) (table : List Oid) (sysInfoGet : Except Int (List Oid)) :
    Except Int (List Oid) :=
  if table.headD 0 = 0 then do
    let coids ← sysInfoGet
    let oids := coids.filter fun oid => oid ≠ 0 && oidTypeGet oid == type
    return oids ++ table.drop oids.length
  else .ok table

section

variable (type : UInt32) (report : Slot → UInt32 → List Message)

/-- One slot: what is logged, and what is stored.  A status that could not be read is `none`. -/
def notifySlot (slot : Slot) : Option UInt32 → Slot × List Message
  | none => (slot, [])
  | some new =>
      (⟨true, if new ≠ slot.status then new else slot.status⟩, report slot new)

/-- The loop over the table, from the entry `i`. -/
def notifyTable (infoGet : Nat → Oid → Except Int UInt32) :
    Nat → List Oid → (Nat → Slot) → (Nat → Slot) × List Line
  | _, [], slots => (slots, [])
  | i, oid :: oids, slots =>
      let id := oidIdGet oid
      if oid = 0 then (slots, [])
      else
        match infoGet i oid with
        | .error _ =>
            let (slots, lines) := notifyTable infoGet (i + 1) oids slots
            (slots, .readFailed id :: lines)
        | .ok new =>
            let (slot, messages) := notifySlot report (slots i) (some new)
            let (slots, lines) := notifyTable infoGet (i + 1) oids fun j =>
              if j = i then slot else slots j
            (slots, messages.map (.event i id) ++ lines)

/-- A call of `platform_psus_notify__` or `platform_fans_notify__`. -/
def platformNotify (r : Reporter) (call : Call) : Int × Reporter × List Line :=
  match retrieve type r.oidTable call.sysInfoGet with
  | .error _ => (-1, r, [.sysInfoFailed])
  | .ok table =>
      let (slots, lines) := notifyTable report call.infoGet 0 table r.slots
      (0, ⟨table, slots⟩, lines)

end

/-- `platform_psus_notify__`. -/
def platformPsusNotify : Reporter → Call → Int × Reporter × List Line := platformNotify 4 psuReport

/-- `platform_fans_notify__`. -/
def platformFansNotify : Reporter → Call → Int × Reporter × List Line := platformNotify 3 fanReport

/-! ## Readings and messages of a slot, taken out of a log -/

/-- The status read for the entry `i` of a table; none when there is no such entry in front of the
    end of the table, or when it could not be read. -/
def entryReading (table : List Oid) (call : Call) (i : Nat) : Option UInt32 :=
  (table.takeWhile (· ≠ 0))[i]?.bind fun oid => (call.infoGet i oid).toOption

/-- The readings of a slot, call by call. -/
def slotReadings (type : UInt32) (i : Nat) : List Oid → List Call → List (Option UInt32)
  | _, [] => []
  | table, call :: calls =>
      match retrieve type table call.sysInfoGet with
      | .error _ => none :: slotReadings type i table calls
      | .ok table => entryReading table call i :: slotReadings type i table calls

/-- The messages about a slot. -/
def events (i : Nat) (lines : List Line) : List Message :=
  lines.filterMap fun line =>
    match line with
    | .event j _ m => if j = i then some m else none
    | _ => none

/-- The messages about a slot, call by call. -/
def slotLog (notify : Reporter → Call → Int × Reporter × List Line) (i : Nat) :
    Reporter → List Call → List (List Message)
  | _, [] => []
  | r, call :: calls =>
      let (_, r, lines) := notify r call
      events i lines :: slotLog notify i r calls

/-! ## The law of a log -/

/-- What is known of a slot. -/
inductive View where
  | unknown
  | absent
  | present (failed unplugged : Bool)
  deriving DecidableEq

/-- What a message changes.  A unit that is not there has no conditions, and a message that changes
    nothing is not allowed. -/
def announce : View → Message → Option View
  | .unknown, .notPresent => some .absent
  | .unknown, .inserted => some (.present false false)
  | .absent, .inserted => some (.present false false)
  | .present _ _, .removed => some .absent
  | .present false unplugged, .failed => some (.present true unplugged)
  | .present true unplugged, .recovered => some (.present false unplugged)
  | .present failed false, .notPlugged => some (.present failed true)
  | .present failed false, .unplugged => some (.present failed true)
  | .present failed true, .pluggedIn => some (.present failed false)
  | _, _ => none

/-- The messages, one after the other. -/
def announceAll (v : View) (messages : List Message) : Option View :=
  messages.foldlM announce v

/-- What a status says of a PSU. -/
def psuView (status : UInt32) : View :=
  if has status statusPresent then
    .present (has status statusFailed) (has status statusUnplugged)
  else .absent

/-- What a status says of a fan. -/
def fanView (status : UInt32) : View :=
  if has status statusPresent then .present (has status statusFailed) false else .absent

/-- **A faithful log**: behind each call the messages have led to what was read last. -/
def Faithful (view : UInt32 → View) : View → List (Option UInt32) → List (List Message) → Prop
  | _, [], [] => True
  | v, none :: readings, messages :: log =>
      announceAll v messages = some v ∧ Faithful view v readings log
  | v, some status :: readings, messages :: log =>
      announceAll v messages = some (view status) ∧ Faithful view (view status) readings log
  | _, _, _ => False

/-! ## Where a log is faithful: what is asked of the readings -/

/-- The first status that is read is of one kind, and each two that follow one another are of another.
    Readings that fail are passed over. -/
def Regular (first : UInt32 → Prop) (step : UInt32 → UInt32 → Prop) :
    Option UInt32 → List (Option UInt32) → Prop
  | _, [] => True
  | last, none :: readings => Regular first step last readings
  | none, some new :: readings => first new ∧ Regular first step (some new) readings
  | some old, some new :: readings => step old new ∧ Regular first step (some new) readings

/-- A PSU that is there or not, and has no condition. -/
def PsuFirst (new : UInt32) : Prop :=
  has new statusFailed = false ∧
    (has new statusPresent = true → has new statusUnplugged = false)

/-- A slot without a PSU does not fail, a PSU is inserted behind a status that did not say failed (nor,
    unless it is failed now, unplugged) and is not both failed and unplugged, and the plug of a failed
    PSU is left alone. -/
def PsuStep (old new : UInt32) : Prop :=
  if has new statusPresent then
    if has old statusPresent then
      has new statusFailed = true → has old statusUnplugged = has new statusUnplugged
    else
      has old statusFailed = false ∧
        (if has new statusFailed then has new statusUnplugged = false
          else has old statusUnplugged = false)
  else has new statusFailed = true → has old statusFailed = true

/-- The first report of a fan is right where it has not failed. -/
def FanFirst (new : UInt32) : Prop := has new statusFailed = false

/-- A slot without a fan neither fails nor recovers, and a fan is inserted behind a status that did not
    say failed. -/
def FanStep (old new : UInt32) : Prop :=
  if has new statusPresent then
    has old statusPresent = false → has old statusFailed = false
  else has old statusFailed = has new statusFailed

/-! ## The reports obey the law, under the condition -/

/-- A status that stays is no transition of a PSU. -/
theorem psuTransitions_self (status : UInt32) : psuTransitions status status = [] := by
  unfold psuTransitions
  cases has status statusPresent <;> cases has status statusFailed <;>
    cases has status statusUnplugged <;> rfl

/-- A status that stays is no transition of a fan. -/
theorem fanTransitions_self (status : UInt32) : fanTransitions status status = [] := by
  unfold fanTransitions
  cases has status statusPresent <;> cases has status statusFailed <;> rfl

/-- The test against the stored status only saves time. -/
theorem psuReport_eq (slot : Slot) (new : UInt32) :
    psuReport slot new =
      (if !slot.flag then psuInitial new else []) ++ psuTransitions slot.status new := by
  unfold psuReport
  by_cases h : new = slot.status
  · rw [if_neg (not_not_intro h), h, psuTransitions_self]
  · rw [if_pos h]

/-- A fan's report: what is said at first, and the transitions. -/
theorem fanReport_eq (slot : Slot) (new : UInt32) :
    fanReport slot new =
      (if !slot.flag then fanInitial new else []) ++ fanTransitions slot.status new := by
  unfold fanReport
  by_cases h : new = slot.status
  · rw [if_neg (not_not_intro h), h, fanTransitions_self]
  · rw [if_pos h]

@[simp] theorem has_zero (bit : UInt32) : has 0 bit = false := by simp [has]

/-- **The first report of a PSU**: the initial state, and transitions from 0. -/
theorem psu_first (new : UInt32) :
    announceAll .unknown (psuReport .start new) = some (psuView new) ↔ PsuFirst new := by
  rw [psuReport_eq]
  simp only [Slot.start, psuInitial, psuTransitions, psuView, PsuFirst, has_zero]
  -- only three bits matter
  generalize has new statusPresent = p, has new statusFailed = f, has new statusUnplugged = u
  revert p f u
  decide

/-- **A later report of a PSU.** -/
theorem psu_step (old new : UInt32) :
    announceAll (psuView old) (psuReport ⟨true, old⟩ new) = some (psuView new) ↔ PsuStep old new := by
  rw [psuReport_eq]
  simp only [Bool.not_true, Bool.false_eq_true, if_false, List.nil_append, psuTransitions, psuView, PsuStep]
  generalize has old statusPresent = p, has old statusFailed = f, has old statusUnplugged = u
  generalize has new statusPresent = p', has new statusFailed = f', has new statusUnplugged = u'
  revert p f u p' f' u'
  decide

/-- **The first report of a fan.** -/
theorem fan_first (new : UInt32) :
    announceAll .unknown (fanReport .start new) = some (fanView new) ↔ FanFirst new := by
  rw [fanReport_eq]
  simp only [Slot.start, fanInitial, fanTransitions, fanView, FanFirst, has_zero]
  generalize has new statusPresent = p, has new statusFailed = f
  revert p f
  decide

/-- **A later report of a fan.** -/
theorem fan_step (old new : UInt32) :
    announceAll (fanView old) (fanReport ⟨true, old⟩ new) = some (fanView new) ↔ FanStep old new := by
  rw [fanReport_eq]
  simp only [Bool.not_true, Bool.false_eq_true, if_false, List.nil_append, fanTransitions, fanView, FanStep]
  generalize has old statusPresent = p, has old statusFailed = f
  generalize has new statusPresent = p', has new statusFailed = f'
  revert p f p' f'
  decide

/-! ## A slot, in the loop over the table -/

section

variable {report : Slot → UInt32 → List Message}

/-- A slot behind the status that was read last. -/
def Slot.behind : Option UInt32 → Slot
  | none => .start
  | some status => ⟨true, status⟩

/-- A status that was read is reported. -/
theorem notifySlot_some (slot : Slot) (new : UInt32) :
    notifySlot report slot (some new) = (.behind (some new), report slot new) := by
  show (Slot.mk true (if new ≠ slot.status then new else slot.status), _) = (Slot.mk true new, _)
  by_cases h : new = slot.status
  · rw [if_neg (not_not_intro h), h]
  · rw [if_pos h]

/-- The events of a slot, in two logs. -/
theorem events_append (i : Nat) (as bs : List Line) :
    events i (as ++ bs) = events i as ++ events i bs := List.filterMap_append

/-- A failure to read is no event. -/
theorem events_readFailed (i : Nat) (id : UInt32) (lines : List Line) :
    events i (.readFailed id :: lines) = events i lines := rfl

/-- The messages of a slot are its events. -/
theorem events_self (i : Nat) (id : UInt32) (ms : List Message) :
    events i (ms.map (.event i id)) = ms := by
  induction ms with
  | nil => rfl
  | cons m ms ih =>
      have hself : events i (.event i id m :: ms.map (.event i id)) = m :: events i (ms.map (.event i id)) :=
        List.filterMap_cons_some (if_pos rfl)
      rw [List.map_cons, hself, ih]

/-- The messages of another slot are not. -/
theorem events_of_ne {i j : Nat} (h : j ≠ i) (id : UInt32) (ms : List Message) :
    events i (ms.map (.event j id)) = [] := by
  rw [events, List.filterMap_map]
  refine List.filterMap_eq_nil_iff.mpr fun m _ => ?_
  exact if_neg h

/-- **What the loop does to a slot**: what the entry of that number is read as, and nothing to the slots
    in front of the entry at which the loop is. -/
theorem notifyTable_spec (call : Call) : ∀ (oids : List Oid) (i : Nat) (slots : Nat → Slot) (j : Nat),
    ((notifyTable report call.infoGet i oids slots).1 j,
        events j (notifyTable report call.infoGet i oids slots).2) =
      if i ≤ j then
        notifySlot report (slots j)
          ((oids.takeWhile (· ≠ 0))[j - i]?.bind fun oid => (call.infoGet j oid).toOption)
      else (slots j, [])
  | [], i, slots, j => by
      show (slots j, []) = if i ≤ j then (slots j, []) else (slots j, [])
      split <;> rfl
  | oid :: oids, i, slots, j => by
      unfold notifyTable
      by_cases hzero : oid = 0
      · -- the end of the table
        subst hzero
        show (slots j, []) = if i ≤ j then (slots j, []) else (slots j, [])
        split <;> rfl
      · rw [List.takeWhile_cons_of_pos (by simpa using hzero)]
        dsimp only
        rw [if_neg hzero]
        have hat : ∀ j, i < j → (oid :: oids.takeWhile (· ≠ 0))[j - i]? =
            (oids.takeWhile (· ≠ 0))[j - (i + 1)]? := by
          intro j hij
          rw [show j - i = j - (i + 1) + 1 by omega, List.getElem?_cons_succ]
        cases hget : call.infoGet i oid with
        | error e =>
            have ih := notifyTable_spec call oids (i + 1) slots j
            dsimp only
            rw [events_readFailed, ih]
            rcases Nat.lt_trichotomy i j with hij | rfl | hij
            · rw [if_pos (by omega), if_pos (by omega), hat j hij]
            · rw [if_neg (by omega), if_pos (by omega), Nat.sub_self, List.getElem?_cons_zero,
                Option.bind_some, hget]
              rfl
            · rw [if_neg (by omega), if_neg (by omega)]
        | ok new =>
            have ih := notifyTable_spec call oids (i + 1) (fun k =>
              if k = i then (notifySlot report (slots i) (some new)).1 else slots k) j
            dsimp only
            rw [events_append]
            rcases Nat.lt_trichotomy i j with hij | rfl | hij
            · rw [if_pos (by omega), if_neg (by omega)] at ih
              rw [if_pos (by omega), hat j hij, events_of_ne (by omega), List.nil_append, ih]
            · rw [if_neg (by omega), if_pos rfl] at ih
              obtain ⟨hslot, hevents⟩ := Prod.mk.inj ih
              rw [if_pos (by omega), Nat.sub_self, List.getElem?_cons_zero, Option.bind_some, hget,
                events_self, hslot, hevents, List.append_nil]
              rfl
            · rw [if_neg (by omega), if_neg (by omega)] at ih
              rw [if_neg (by omega), events_of_ne (by omega), List.nil_append, ih]

/-! ## Whole runs: the log of each slot is faithful -/

/-- What is known of a slot behind the status that was read last. -/
def View.behind (view : UInt32 → View) : Option UInt32 → View
  | none => .unknown
  | some status => view status

/-- A slot over its readings, call by call. -/
def readingsLog (report : Slot → UInt32 → List Message) :
    Slot → List (Option UInt32) → List (List Message)
  | _, [] => []
  | slot, reading :: readings =>
      (notifySlot report slot reading).2 ::
        readingsLog report (notifySlot report slot reading).1 readings

/-- Without the system's info nothing is reported. -/
theorem platformNotify_of_error {type : UInt32} {r : Reporter} {call : Call} {e : Int}
    (h : retrieve type r.oidTable call.sysInfoGet = .error e) :
    platformNotify type report r call = (-1, r, [.sysInfoFailed]) := by
  rw [platformNotify, h]

/-- A call with a table, seen from one slot. -/
theorem platformNotify_of_ok {type : UInt32} {r : Reporter} {call : Call} {table : List Oid}
    (h : retrieve type r.oidTable call.sysInfoGet = .ok table) (i : Nat) :
    ∃ r' lines, platformNotify type report r call = (0, r', lines) ∧ r'.oidTable = table ∧
      (r'.slots i, events i lines) =
        notifySlot report (r.slots i) (entryReading table call i) := by
  have hspec := @notifyTable_spec report call table 0 r.slots i
  rw [if_pos (Nat.zero_le i)] at hspec
  refine ⟨⟨table, (notifyTable report call.infoGet 0 table r.slots).1⟩, _, ?_, rfl, hspec⟩
  rw [platformNotify, h]

/-- The log about a slot depends on its readings only. -/
theorem slotLog_eq (type : UInt32) (i : Nat) : ∀ (calls : List Call) (r : Reporter),
    slotLog (platformNotify type report) i r calls =
      readingsLog report (r.slots i) (slotReadings type i r.oidTable calls)
  | [], r => rfl
  | call :: calls, r => by
      rw [slotLog, slotReadings]
      cases hretrieve : retrieve type r.oidTable call.sysInfoGet with
      | error e =>
          rw [platformNotify_of_error hretrieve]
          dsimp only
          rw [slotLog_eq type i calls r]
          rfl
      | ok table =>
          obtain ⟨r', lines, heq, htable, hslot⟩ := platformNotify_of_ok hretrieve i
          rw [heq]
          dsimp only
          rw [slotLog_eq type i calls r', htable, readingsLog, ← hslot]

/-- **A log is faithful exactly when the readings are regular**, where that is so of a first report and
    of a later one. -/
theorem faithful_readingsLog_iff {view : UInt32 → View} {first : UInt32 → Prop}
    {step : UInt32 → UInt32 → Prop}
    (hfirst : ∀ new, announceAll .unknown (report .start new) = some (view new) ↔ first new)
    (hstep : ∀ old new,
      announceAll (view old) (report ⟨true, old⟩ new) = some (view new) ↔ step old new) :
    ∀ (readings : List (Option UInt32)) (last : Option UInt32),
      Faithful view (.behind view last) readings (readingsLog report (.behind last) readings) ↔
        Regular first step last readings
  | [], last => Iff.rfl
  | none :: readings, last => by
      have ih := faithful_readingsLog_iff hfirst hstep readings last
      show announceAll _ [] = some _ ∧ _ ↔ _
      rw [Regular, ← ih]
      exact and_iff_right rfl
  | some new :: readings, last => by
      have ih := faithful_readingsLog_iff hfirst hstep readings (some new)
      rw [readingsLog, notifySlot_some, Faithful]
      cases last with
      | none => exact and_congr (hfirst new) ih
      | some old => exact and_congr (hstep old new) ih

end

/-- **The logs of the PSUs and of the fans are faithful exactly when** the readings of the slot are
    regular. -/
theorem notify_faithful_iff (calls : List Call) (i : Nat) :
    (Faithful psuView .unknown (slotReadings 4 i Reporter.start.oidTable calls)
        (slotLog platformPsusNotify i .start calls) ↔
      Regular PsuFirst PsuStep none (slotReadings 4 i Reporter.start.oidTable calls)) ∧
    (Faithful fanView .unknown (slotReadings 3 i Reporter.start.oidTable calls)
        (slotLog platformFansNotify i .start calls) ↔
      Regular FanFirst FanStep none (slotReadings 3 i Reporter.start.oidTable calls)) := by
  unfold platformPsusNotify platformFansNotify
  rw [slotLog_eq, slotLog_eq]
  exact ⟨faithful_readingsLog_iff psu_first psu_step _ none,
    faithful_readingsLog_iff fan_first fan_step _ none⟩

/-- A system with one unit, which is read as `status`. -/
def oneUnit (oid : Oid) (status : UInt32) : Call where
  sysInfoGet := .ok [oid]
  infoGet := fun _ _ => .ok status

/-- A PSU that has failed when the platform manager starts is said to have failed, to have been
    inserted, and to have failed again; and a failed fan that is removed recovers. -/
theorem failed_unit_unfaithful :
    ¬ Faithful psuView .unknown (slotReadings 4 0 Reporter.start.oidTable [oneUnit 0x4000001 3])
      (slotLog platformPsusNotify 0 .start [oneUnit 0x4000001 3]) ∧
    ¬ Faithful fanView .unknown
      (slotReadings 3 0 Reporter.start.oidTable
        [oneUnit 0x3000001 1, oneUnit 0x3000001 3, oneUnit 0x3000001 0])
      (slotLog platformFansNotify 0 .start
        [oneUnit 0x3000001 1, oneUnit 0x3000001 3, oneUnit 0x3000001 0]) := by
  constructor
  · intro h
    exact absurd h.1 (by decide +kernel)
  · intro h
    exact absurd h.2.2.1 (by decide +kernel)

end DentOS.Onlp
