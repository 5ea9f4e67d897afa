/-
  What a check of the AS9716-32D asks for, without the loops.

  `nextLevel` is the level that follows, from the readings: up if some thermometer is too hot, down if all are
  cool enough.  `range_eq` says that the loops of the check come to this, with the alarms gone through at full
  speed only.

  The loops count the thermometers that allow a step down, and remember whether one asks for a step up.
  `rangeAfi_eq` does the induction over them for the air from back to front; the other direction has the
  alarms in its loop as well.  `evaluate_spec` is the one lemma about a check that the other modules use: what
  becomes of the level, of the count of calls and of the alarms.  `manageFans_of_not_checks` is the one about
  the calls that only count, and `speed_count_run` carries both over a run.
-/
import Mathlib.Data.List.FinRange
import DentOS.Fans.As9716

namespace DentOS.As9716

/-! ## Closed forms of the next level

  The scan over the thermometers is a fold; what it comes to is said here without one. -/

/-- Some thermometer is at its limit or above. -/
def Hot (limit t : Fin 8 → Int) : Prop := ∃ i, limit i ≤ t i

/-- All thermometers are at their limits or below. -/
def Cool (limit t : Fin 8 → Int) : Prop := ∀ i, t i ≤ limit i

instance (limit t : Fin 8 → Int) : Decidable (Hot limit t) := inferInstanceAs (Decidable (∃ _, _))

instance (limit t : Fin 8 → Int) : Decidable (Cool limit t) := inferInstanceAs (Decidable (∀ _, _))

/-- The level behind a check with these readings. -/
def nextLevel (afi full : Bool) (t : Fin 8 → Int) : Level → Level
  | .mid =>
      if afi then if Hot afiThermalSpec.midToMaxTemp t then .max else .mid
      else if Hot afoThermalSpec.midToMaxTemp t then .max
      else if Cool afoThermalSpec.midToMinTemp t ∧ ¬ full then .min else .mid
  | .min => if ¬ afi ∧ (full ∨ Hot afoThermalSpec.minToMidTemp t) then .mid else .min
  | .max =>
      if Cool (if afi then afiThermalSpec.maxToMidTemp else afoThermalSpec.maxToMidTemp) t then .mid else .max
  | level => level

/-- From full speed the only way is down, when all sensors are cool. -/
theorem nextLevel_afo_max (full : Bool) (t : Fin 8 → Int) : nextLevel false full t .max
    = if Cool afoThermalSpec.maxToMidTemp t then .mid else .max := rfl

/-- The alarms, for all thermometers. -/
def alarms (t : Fin 8 → Int) (s : State) : State := (List.finRange 8).foldl (fun s i => alarm i (t i) s) s

/-- The state with the alarms of a check. -/
def afterAlarms (afi : Bool) (t : Fin 8 → Int) (s : State) : State :=
  if afi ∨ s.fanState ≠ .max then s
  else if Cool afoThermalSpec.maxToMidTemp t then clearAlarms (alarms t s) else alarms t s

/-- The level of a fan: 50, 75 or 100 percent. -/
def Level.Speed (l : Level) : Prop := l = .min ∨ l = .mid ∨ l = .max

/-- The level of the start is no speed. -/
theorem Level.Speed.ne_init {l : Level} (h : l.Speed) : l ≠ .init := by
  rcases h with rfl | rfl | rfl <;> decide

/-- The next level is a speed. -/
theorem nextLevel_speed {l : Level} (h : l.Speed) (afi full : Bool) (t : Fin 8 → Int) :
    (nextLevel afi full t l).Speed := by
  rcases h with rfl | rfl | rfl
  · simp only [nextLevel, Level.Speed]
    split_ifs <;> simp
  · simp only [nextLevel, Level.Speed]
    split_ifs <;> simp
  · simp only [nextLevel, Level.Speed]
    split_ifs <;> simp

/-! ## The limits are ordered as the levels are -/

/-- The way down to the lowest speed is below the way up to full speed. -/
theorem afo_lt_mid (i : Fin 8) : afoThermalSpec.midToMinTemp i < afoThermalSpec.midToMaxTemp i := by
  revert i
  decide

/-- The fans come down from full speed below the yellow alarm. -/
theorem afo_lt_yellow (i : Fin 8) :
    afoThermalSpec.maxToMidTemp i < afoThermalSpec.maxToYellowAlarmTemp i := by
  revert i
  decide

/-- The red alarm is not below the yellow one. -/
theorem afo_yellow_le_red (i : Fin 8) :
    afoThermalSpec.maxToYellowAlarmTemp i ≤ afoThermalSpec.yellowToRedAlarmTemp i := by
  revert i
  decide

/-- The shutdown is not below the red alarm. -/
theorem afo_red_le_shutdown (i : Fin 8) :
    afoThermalSpec.yellowToRedAlarmTemp i ≤ afoThermalSpec.redAlarmToShutdownTemp i := by
  revert i
  decide

/-- Who is hot enough to be shut down is hot enough to leave the lowest speed. -/
theorem afo_min_le_shutdown (i : Fin 8) :
    afoThermalSpec.minToMidTemp i ≤ afoThermalSpec.redAlarmToShutdownTemp i := by
  revert i
  decide

/-- Who is hot enough to be shut down is hot enough to leave the middle speed. -/
theorem afo_mid_le_shutdown (i : Fin 8) :
    afoThermalSpec.midToMaxTemp i ≤ afoThermalSpec.redAlarmToShutdownTemp i := by
  revert i
  decide

/-! ## The loops over the thermometers come to the closed forms -/

variable {t : Fin 8 → Int} {full : Bool} {c : Scan}

/-- A count of eight sensors is a count of all. -/
theorem countP_finRange_eq_iff (p : Fin 8 → Bool) : (List.finRange 8).countP p = 8 ↔ ∀ i, p i = true := by
  have hlen : (List.finRange 8).length = 8 := List.length_finRange
  constructor
  · intro h i
    exact List.countP_eq_length.mp (h.trans hlen.symm) i (List.mem_finRange i)
  · intro h
    exact (List.countP_eq_length.mpr fun i _ => h i).trans hlen

/-- The scan at the middle speed: up with any hot sensor, and the cool ones are counted. -/
theorem scanAfi_mid : ∀ (is : List (Fin 8)) (c : Scan),
    scanAfi .mid t is c
      = if ∃ i ∈ is, afiThermalSpec.midToMaxTemp i ≤ t i then { c with currentState := .max } else c
  | [], c => by simp [scanAfi]
  | i :: is, c => by
      rw [scanAfi, if_pos rfl, scanAfi_mid is c]
      by_cases h : afiThermalSpec.midToMaxTemp i ≤ t i
      · rw [if_pos h, if_pos ⟨i, List.mem_cons_self, h⟩]
      · simp [h]

/-- The scan at another speed only counts. -/
theorem scanAfi_other {ori : Level} (hori : ori ≠ .mid) : ∀ (is : List (Fin 8)) (c : Scan),
    scanAfi ori t is c = { c with
      maxToMid := c.maxToMid + is.countP fun i => t i ≤ afiThermalSpec.maxToMidTemp i }
  | [], c => rfl
  | i :: is, c => by
      rw [scanAfi, if_neg hori, scanAfi_other hori is]
      by_cases h : t i ≤ afiThermalSpec.maxToMidTemp i
      · simp [h, Nat.add_comm, Nat.add_assoc]
      · simp [h]

/-- At 75 percent the loop stops at the first thermometer that is too hot. -/
theorem scanAfo_mid (full : Bool) : ∀ (is : List (Fin 8)) (c : Scan),
    (scanAfo .mid full t is c).currentState
        = (if ∃ i ∈ is, afoThermalSpec.midToMaxTemp i ≤ t i then .max else c.currentState)
      ∧ (scanAfo .mid full t is c).maxToMid = c.maxToMid
      ∧ (scanAfo .mid full t is c).state = c.state
      ∧ (scanAfo .mid full t is c).midToMin
        ≤ c.midToMin + is.countP (fun i => t i ≤ afoThermalSpec.midToMinTemp i)
      ∧ ((∀ i ∈ is, ¬ afoThermalSpec.midToMaxTemp i ≤ t i) → (scanAfo .mid full t is c).midToMin
          = c.midToMin + is.countP fun i => t i ≤ afoThermalSpec.midToMinTemp i)
  | [], c => by simp [scanAfo]
  | i :: is, c => by
      by_cases h : afoThermalSpec.midToMaxTemp i ≤ t i
      · rw [scanAfo, if_pos rfl, if_pos h]
        exact ⟨(if_pos ⟨i, List.mem_cons_self, h⟩).symm, rfl, rfl, Nat.le_add_right _ _,
          fun hall => absurd h (hall i List.mem_cons_self)⟩
      · rw [scanAfo, if_pos rfl, if_neg h]
        obtain ⟨hcur, hmax, hstate, hle, heq⟩ := scanAfo_mid full is
          (if t i ≤ afoThermalSpec.midToMinTemp i then { c with midToMin := c.midToMin + 1 } else c)
        by_cases hmin : t i ≤ afoThermalSpec.midToMinTemp i
        · simp only [if_pos hmin] at hcur hmax hstate hle heq ⊢
          refine ⟨?_, hmax, hstate, ?_, fun hall => ?_⟩
          · rw [hcur]
            simp [h]
          · simp [hmin]
            omega
          · rw [heq fun j hj => hall j (List.mem_cons_of_mem _ hj)]
            simp [hmin]
            omega
        · simp only [if_neg hmin] at hcur hmax hstate hle heq ⊢
          refine ⟨?_, hmax, hstate, ?_, fun hall => ?_⟩
          · rw [hcur]
            simp [h]
          · simpa [List.countP_cons, hmin] using hle
          · rw [heq fun j hj => hall j (List.mem_cons_of_mem _ hj)]
            simp [hmin]

/-- The scan at the lowest speed: up with full power supplies or any hot sensor. -/
theorem scanAfo_min : ∀ (is : List (Fin 8)) (c : Scan),
    scanAfo .min full t is c = if ∃ i ∈ is, full ∨ afoThermalSpec.minToMidTemp i ≤ t i then
      { c with currentState := .mid } else c
  | [], c => by simp [scanAfo]
  | i :: is, c => by
      rw [scanAfo, if_neg (by decide), if_pos rfl, scanAfo_min is]
      by_cases h : full = true ∨ afoThermalSpec.minToMidTemp i ≤ t i
      · simp [h]
      · simp [h]

/-- The scan at full speed goes through the alarms and counts. -/
theorem scanAfo_max : ∀ (is : List (Fin 8)) (c : Scan),
    scanAfo .max full t is c = { c with
      maxToMid := c.maxToMid + is.countP fun i => t i ≤ afoThermalSpec.maxToMidTemp i
      state := is.foldl (fun s i => alarm i (t i) s) c.state }
  | [], c => rfl
  | i :: is, c => by
      rw [scanAfo, if_neg (by decide), if_neg (by decide), scanAfo_max is]
      by_cases h : t i ≤ afoThermalSpec.maxToMidTemp i
      · simp [h, Nat.add_comm, Nat.add_assoc]
      · simp [h]

/-! ## A check: the level behind it, from the readings -/

variable {s : State}

/-- All eight sensors are in the list. -/
theorem exists_mem_finRange_iff {P : Fin 8 → Prop} : (∃ i ∈ List.finRange 8, P i) ↔ ∃ i, P i :=
  ⟨fun ⟨i, _, h⟩ => ⟨i, h⟩, fun ⟨i, h⟩ => ⟨i, List.mem_finRange i, h⟩⟩

/-- Eight cool sensors are all of them. -/
theorem count_eq_eight_iff (limit : Fin 8 → Int) :
    0 + (List.finRange 8).countP (fun i => decide (t i ≤ limit i)) = 8 ↔ Cool limit t := by
  rw [Nat.zero_add, countP_finRange_eq_iff]
  exact forall_congr' fun i => decide_eq_true_iff

/-- **The scan is `nextLevel`** with the air from back to front. -/
theorem rangeAfi_eq (full : Bool) (h : s.fanState.Speed) :
    rangeAfi t s = (nextLevel true full t s.fanState, s) := by
  rcases h with h | h | h
  · rw [rangeAfi, h, scanAfi_other (by decide), if_neg (by simp)]
    simp [nextLevel]
  · rw [rangeAfi, h, scanAfi_mid, if_neg (by split_ifs <;> simp)]
    by_cases hhot : Hot afiThermalSpec.midToMaxTemp t
    · rw [if_pos (exists_mem_finRange_iff.mpr hhot), nextLevel, if_pos rfl, if_pos hhot]
    · rw [if_neg (mt exists_mem_finRange_iff.mp hhot), nextLevel, if_pos rfl, if_neg hhot]
  · rw [rangeAfi, h, scanAfi_other (by decide)]
    simp only [count_eq_eight_iff, and_true, nextLevel, if_true]
    split_ifs <;> rfl

/-- The scan is `nextLevel` at the lowest speed, with the air from front to back. -/
theorem rangeAfo_min (h : s.fanState = .min) :
    rangeAfo full t s = (nextLevel false full t .min, s) := by
  rw [rangeAfo, h, scanAfo_min]
  have hiff : (∃ i ∈ List.finRange 8, full = true ∨ afoThermalSpec.minToMidTemp i ≤ t i)
      ↔ full = true ∨ Hot afoThermalSpec.minToMidTemp t := by
    constructor
    · rintro ⟨i, _, hfull | hle⟩
      · exact .inl hfull
      · exact .inr ⟨i, hle⟩
    · rintro (hfull | ⟨i, hle⟩)
      · exact ⟨0, List.mem_finRange 0, .inl hfull⟩
      · exact ⟨i, List.mem_finRange i, .inr hle⟩
  by_cases hup : full = true ∨ Hot afoThermalSpec.minToMidTemp t
  · rw [if_pos (hiff.mpr hup)]
    simp [nextLevel, hup]
  · rw [if_neg (mt hiff.mp hup)]
    simp [nextLevel, hup]

/-- A thermometer that is too hot has not been counted as cool. -/
theorem rangeAfo_mid (h : s.fanState = .mid) :
    rangeAfo full t s = (nextLevel false full t .mid, s) := by
  obtain ⟨hcur, -, hstate, hle, heq⟩ := scanAfo_mid full (t := t) (List.finRange 8) ⟨.mid, 0, 0, s⟩
  rw [rangeAfo, h]
  generalize scanAfo .mid full t (List.finRange 8) ⟨.mid, 0, 0, s⟩ = c at hcur hstate hle heq ⊢
  dsimp only at hcur hstate hle heq
  have hmax : ¬ (c.maxToMid = 8 ∧ Level.mid = Level.max) := by simp
  rw [if_neg hmax]
  by_cases hhot : Hot afoThermalSpec.midToMaxTemp t
  -- the loop was left early, with fewer than eight counted: the hot one is not cool
  · have hcount : c.midToMin ≠ 8 := by
      intro h8
      obtain ⟨i, hi⟩ := hhot
      have hlen := List.countP_le_length (p := fun i => decide (t i ≤ afoThermalSpec.midToMinTemp i))
        (l := List.finRange 8)
      rw [List.length_finRange] at hlen
      have hcool : Cool afoThermalSpec.midToMinTemp t := (count_eq_eight_iff _).mp (by omega)
      have := afo_lt_mid i
      have := hcool i
      omega
    rw [if_neg fun hc => hcount hc.1, hcur, hstate, if_pos (exists_mem_finRange_iff.mpr hhot)]
    simp [nextLevel, hhot]
  · have hnot : ¬ ∃ i ∈ List.finRange 8, afoThermalSpec.midToMaxTemp i ≤ t i :=
      mt exists_mem_finRange_iff.mp hhot
    have hiff : c.midToMin = 8 ↔ Cool afoThermalSpec.midToMinTemp t := by
      rw [heq fun i hi hge => hnot ⟨i, hi, hge⟩]
      exact count_eq_eight_iff _
    rw [if_neg hnot] at hcur
    simp only [hiff, true_and, nextLevel, if_neg hhot]
    by_cases hcool : Cool afoThermalSpec.midToMinTemp t ∧ ¬ full = true
    · simp [hcool, hstate]
    · rw [if_neg hcool, if_neg (by decide), if_neg hcool, hcur, hstate]

/-- At full speed it goes through the alarms besides. -/
theorem rangeAfo_max (h : s.fanState = .max) :
    rangeAfo full t s = (nextLevel false full t .max, afterAlarms false t s) := by
  rw [rangeAfo, h, scanAfo_max]
  simp only [count_eq_eight_iff, and_true, nextLevel, afterAlarms, h, alarms]
  by_cases hcool : Cool afoThermalSpec.maxToMidTemp t
  · simp [hcool]
  · simp [hcool]

/-- The level that follows, and the alarms. -/
theorem range_eq (inp : Inputs) (h : s.fanState.Speed) : range inp s =
    (nextLevel (inp.directionVal = 1) (checkPsuLoading inp) (temps inp) s.fanState,
      afterAlarms (inp.directionVal = 1) (temps inp) s) := by
  by_cases hafi : inp.directionVal = 1
  · rw [range, if_pos hafi, rangeAfi_eq (checkPsuLoading inp) h]
    simp [hafi, afterAlarms]
  · rw [range, if_neg hafi]
    have hfalse : decide (inp.directionVal = 1) = false := decide_eq_false hafi
    rw [hfalse]
    rcases h with h | h | h
    · rw [rangeAfo_min h, h]
      simp [afterAlarms, h]
    · rw [rangeAfo_mid h, h]
      simp [afterAlarms, h]
    · rw [rangeAfo_max h, h]

/-! ## Writes do not touch the level -/

/-- Two states that differ in what was written only. -/
structure SamePolicy (s s' : State) : Prop where
  fanState : s'.fanState = s.fanState
  fanFail : s'.fanFail = s.fanFail
  fanAlarmState : s'.fanAlarmState = s.fanAlarmState
  countCheck : s'.countCheck = s.countCheck
  orders : s'.log.count .shutdown = s.log.count .shutdown

variable {s' : State} {inp : Inputs}

/-- What is not touched is the same. -/
theorem SamePolicy.refl (s : State) : SamePolicy s s := ⟨rfl, rfl, rfl, rfl, rfl⟩

/-- Other events are not counted. -/
theorem count_say_shutdown {e : Event} (h : e ≠ .shutdown) (s : State) :
    (s.say e).log.count .shutdown = s.log.count .shutdown := by
  rw [State.say, List.count_append, List.count_singleton, if_neg (by simpa using h), Nat.add_zero]

/-- A write to the register is not seen by the policy. -/
theorem samePolicy_setDutyCycle (value : Int) (w : Write) (s : State) :
    SamePolicy s (setDutyCycle value w s).2 := by
  cases w with
  | fails => exact .refl s
  | dropped => exact .refl s
  | takes =>
      rw [setDutyCycle]
      split_ifs
      · exact ⟨rfl, rfl, rfl, rfl, count_say_shutdown
          (s := { s with pwm := dutyCycleToRegVal (UInt8.ofNat value.toNat) }) (by simp)⟩
      · exact .refl s

/-- The duty cycle of a fan is not seen by the policy. -/
theorem samePolicy_percentageSet (inp : Inputs) (fid : Nat) (p : Int) (s : State) :
    SamePolicy s (faniPercentageSet inp fid p s).2 := by
  by_cases hp : p = 0
  · rw [faniPercentageSet, if_pos hp]
    exact .refl s
  by_cases hpsu : fid = 7 ∨ fid = 8
  · rw [faniPercentageSet, if_neg hp, if_pos hpsu]
    split_ifs
    · exact ⟨rfl, rfl, rfl, rfl, count_say_shutdown (by simp) s⟩
    · exact .refl s
  by_cases hfid : 1 ≤ fid ∧ fid ≤ 6
  · rw [faniPercentageSet, if_neg hp, if_neg hpsu, if_pos hfid]
    exact samePolicy_setDutyCycle p inp.write s
  · rw [faniPercentageSet, if_neg hp, if_neg hpsu, if_neg hfid]
    exact .refl s

/-- All fans at full speed are not seen by the policy. -/
theorem samePolicy_fullSpeed (inp : Inputs) (s : State) : SamePolicy s (fullSpeed inp s) := by
  unfold fullSpeed
  split_ifs
  · exact samePolicy_percentageSet inp 1 100 s
  · exact .refl s

/-- The change of a level writes the duty cycle, and leaves all else. -/
theorem samePolicy_changeLevel (inp : Inputs) (direction : Int) (l : Level) (s : State) :
    SamePolicy { s with fanState := l } (changeLevel inp direction l s) := by
  have hset : ∀ p, SamePolicy { s with fanState := l } (faniPercentageSet inp 1 p
      { s with fanState := l, newDutyCycle := getDutyCycleByFanState l direction }).2 := by
    intro p
    have h := samePolicy_percentageSet inp 1 p
      { s with fanState := l, newDutyCycle := getDutyCycleByFanState l direction }
    exact ⟨h.fanState, h.fanFail, h.fanAlarmState, h.countCheck, h.orders⟩
  unfold changeLevel
  dsimp only
  split_ifs
  · exact hset _
  · exact hset _
  · exact ⟨rfl, rfl, rfl, rfl, rfl⟩

/-! ## One call is a check, or leaves the level alone -/

/-- The call is a check, and reads all it needs. -/
structure Checks (inp : Inputs) (s : State) : Prop where
  started : s.fanState ≠ .init
  third : checkTimes ≤ s.countCheck + 1
  temps : ∀ i, (thermaliInfoGet inp (thermalIds i)).isSome
  duty : (inp.dutyOpens && inp.dutyReads) = true

/-- What a check starts with. -/
def State.read (s : State) : State := { s with countCheck := 0, currentDutyCycle := regValToDutyCycle s.pwm }

/-- Where the call gets to its check, it evaluates. -/
theorem manageFans_of_checks (h : Checks inp s) :
    manageFans inp s = (statusOk, evaluate inp s.read) := by
  have hnone : (List.finRange 8).find? (fun i => (thermaliInfoGet inp (thermalIds i)).isNone) = none := by
    refine List.find?_eq_none.mpr fun i _ => ?_
    rw [Option.isNone_eq_false_iff.mpr (h.temps i)]
    decide
  rw [manageFans, if_neg h.started, if_neg (Nat.not_lt.mpr h.third), check, hnone]
  dsimp only
  rw [if_pos h.duty]
  rfl

/-- A check, without the loops. -/
theorem evaluate_eq (hspeed : s.fanState.Speed) :
    let next := nextLevel (inp.directionVal = 1) (checkPsuLoading inp) (temps inp) s.fanState
    let s' := checkFans inp (afterAlarms (inp.directionVal = 1) (temps inp) s)
    evaluate inp s = if next ≠ s.fanState then changeLevel inp inp.directionVal next s' else s' := by
  rw [evaluate, range_eq inp hspeed]

/-- The check of the fans may say that one has failed, and no more. -/
theorem samePolicy_checkFans (inp : Inputs) (s : State) :
    SamePolicy { s with fanFail := (checkFans inp s).fanFail } (checkFans inp s) := by
  unfold checkFans
  split_ifs
  · have h := samePolicy_fullSpeed inp s
    exact ⟨h.fanState, rfl, h.fanAlarmState, h.countCheck, h.orders⟩
  · exact .refl s

/-- An alarm does not change the level. -/
theorem fanState_alarm (i : Fin 8) (t : Int) (s : State) :
    (alarm i t s).fanState = s.fanState ∧ (alarm i t s).countCheck = s.countCheck := by
  unfold alarm yellowAlarm redAlarm
  split_ifs <;> exact ⟨rfl, rfl⟩

/-- What one alarm does not touch, the alarms do not. -/
theorem alarms_keep {R : State → State → Prop} (hrefl : ∀ s, R s s)
    (htrans : ∀ s s' s'', R s s' → R s' s'' → R s s'') (halarm : ∀ i t s, R s (alarm i t s))
    (t : Fin 8 → Int) (s : State) : R s (alarms t s) := by
  have hfold : ∀ (is : List (Fin 8)) (s : State), R s (is.foldl (fun s i => alarm i (t i) s) s) := by
    intro is
    induction is with
    | nil => exact hrefl
    | cons i is ih => exact fun s => htrans s _ _ (halarm i (t i) s) (ih _)
  exact hfold _ s

/-- The alarms of all sensors do not change the level. -/
theorem fanState_alarms (t : Fin 8 → Int) (s : State) :
    (alarms t s).fanState = s.fanState ∧ (alarms t s).countCheck = s.countCheck :=
  alarms_keep (R := fun s s' => s'.fanState = s.fanState ∧ s'.countCheck = s.countCheck)
    (fun _ => ⟨rfl, rfl⟩) (fun _ _ _ h h' => ⟨h'.1.trans h.1, h'.2.trans h.2⟩) fanState_alarm t s

/-- The end of the alarms does not change the level. -/
theorem fanState_clearAlarms (s : State) :
    (clearAlarms s).fanState = s.fanState ∧ (clearAlarms s).countCheck = s.countCheck := by
  unfold clearAlarms
  split_ifs <;> exact ⟨rfl, rfl⟩

/-- The level behind the alarms is the one in front of them. -/
theorem fanState_afterAlarms (afi : Bool) (t : Fin 8 → Int) (s : State) :
    (afterAlarms afi t s).fanState = s.fanState ∧ (afterAlarms afi t s).countCheck = s.countCheck := by
  obtain ⟨hstate, hcount⟩ := fanState_alarms t s
  obtain ⟨hstate', hcount'⟩ := fanState_clearAlarms (alarms t s)
  unfold afterAlarms
  split_ifs
  · exact ⟨rfl, rfl⟩
  · exact ⟨hstate'.trans hstate, hcount'.trans hcount⟩
  · exact ⟨hstate, hcount⟩

/-- **What a check does**: to the level, to the count of calls, and to the alarms. -/
theorem evaluate_spec (inp : Inputs) (hspeed : s.fanState.Speed) :
    (evaluate inp s).fanState
        = nextLevel (inp.directionVal = 1) (checkPsuLoading inp) (temps inp) s.fanState
      ∧ (evaluate inp s).countCheck = s.countCheck
      ∧ (evaluate inp s).fanAlarmState = (afterAlarms (inp.directionVal = 1) (temps inp) s).fanAlarmState
      ∧ (evaluate inp s).log.count .shutdown
        = (afterAlarms (inp.directionVal = 1) (temps inp) s).log.count .shutdown := by
  obtain ⟨hstate, hcount⟩ := fanState_afterAlarms (inp.directionVal = 1) (temps inp) s
  rw [evaluate_eq hspeed]
  generalize afterAlarms (inp.directionVal = 1) (temps inp) s = a at hstate hcount ⊢
  have hfans := samePolicy_checkFans inp a
  split_ifs with hne
  · have hchange := samePolicy_changeLevel inp inp.directionVal
      (nextLevel (inp.directionVal = 1) (checkPsuLoading inp) (temps inp) s.fanState) (checkFans inp a)
    exact ⟨hchange.fanState, hchange.countCheck.trans (hfans.countCheck.trans hcount),
      hchange.fanAlarmState.trans hfans.fanAlarmState, hchange.orders.trans hfans.orders⟩
  · exact ⟨(hfans.fanState.trans hstate).trans (not_not.mp hne).symm, hfans.countCheck.trans hcount,
      hfans.fanAlarmState, hfans.orders⟩

/-- No sensor was found that cannot be read. -/
theorem readable_of_none
    (h : (List.finRange 8).find? (fun i => (thermaliInfoGet inp (thermalIds i)).isNone) = none) (i : Fin 8) :
    (thermaliInfoGet inp (thermalIds i)).isSome := by
  have hi := List.find?_eq_none.mp h i (List.mem_finRange i)
  rwa [Option.isNone_iff_eq_none, ← ne_eq, Option.ne_none_iff_isSome] at hi

/-- **What the other calls do**: they count. -/
theorem manageFans_of_not_checks (hinit : s.fanState ≠ .init) (h : ¬ Checks inp s) :
    ∃ c, SamePolicy { s with countCheck := c } (manageFans inp s).2
      ∧ (s.countCheck + 1 < checkTimes ∧ c = s.countCheck + 1 ∨ checkTimes ≤ s.countCheck + 1 ∧ c = 0) := by
  rw [manageFans, if_neg hinit]
  by_cases hcount : s.countCheck + 1 < checkTimes
  · rw [if_pos hcount]
    exact ⟨s.countCheck + 1, .refl _, .inl ⟨hcount, rfl⟩⟩
  · rw [if_neg hcount]
    refine ⟨0, ?_, .inr ⟨Nat.not_lt.mp hcount, rfl⟩⟩
    unfold check
    split
    · exact samePolicy_percentageSet inp _ _ _
    · next hnone =>
        rw [if_neg fun hduty => h ⟨hinit, Nat.not_lt.mp hcount, readable_of_none hnone, hduty⟩]
        exact .refl _

/-- The call that starts the policy. -/
theorem manageFans_init (h : s.fanState = .init) : (manageFans inp s).2 = { s with fanState := .max } := by
  rw [manageFans, if_pos h]
  rfl

/-- A call leaves a speed. -/
theorem speed_manageFans (h : s.fanState.Speed) : (manageFans inp s).2.fanState.Speed := by
  by_cases hchecks : Checks inp s
  · rw [manageFans_of_checks hchecks, (evaluate_spec (s := s.read) inp h).1]
    exact nextLevel_speed (l := s.read.fanState) h _ _ _
  · obtain ⟨c, hpolicy, -⟩ := manageFans_of_not_checks h.ne_init hchecks
    rw [hpolicy.fanState]
    exact h

/-- A call leaves the count of the calls below its limit. -/
theorem countCheck_manageFans (h : s.fanState.Speed) :
    (manageFans inp s).2.countCheck < checkTimes := by
  by_cases hchecks : Checks inp s
  · rw [manageFans_of_checks hchecks, (evaluate_spec (s := s.read) inp h).2.1]
    show 0 < checkTimes
    decide
  · obtain ⟨c, hpolicy, hc⟩ := manageFans_of_not_checks h.ne_init hchecks
    rw [hpolicy.countCheck]
    show c < checkTimes
    rcases hc with ⟨hlt, rfl⟩ | ⟨-, rfl⟩
    · exact hlt
    · decide

/-! ## Runs: the level follows the readings -/

/-- A run goes on from where another one ended. -/
theorem run_append (calls calls' : List Inputs) (s : State) :
    run (calls ++ calls') s = run calls' (run calls s) := List.foldl_append

/-- The first call decides for full speed, and writes nothing. -/
theorem run_first (inp : Inputs) (calls : List Inputs) (pwm : UInt8) :
    run (inp :: calls) (.start pwm) = run calls { State.start pwm with fanState := .max } := rfl

/-- **A run** keeps to the speeds and the count below its limit. -/
theorem speed_count_run : ∀ (calls : List Inputs) (s : State), s.fanState.Speed → s.countCheck < checkTimes →
    (run calls s).fanState.Speed ∧ (run calls s).countCheck < checkTimes
  | [], _, h, hcount => ⟨h, hcount⟩
  | _ :: calls, _, h, _ => speed_count_run calls _ (speed_manageFans h) (countCheck_manageFans h)

/-- From the first call on the level is a speed. -/
theorem speed_run (first : Inputs) (calls : List Inputs) (pwm : UInt8) :
    (run (first :: calls) (.start pwm)).fanState.Speed := by
  rw [run_first]
  exact (speed_count_run calls _ (.inr (.inr rfl)) (show 0 < checkTimes by decide)).1

/-- From the first call on the count is below its limit. -/
theorem countCheck_run (first : Inputs) (calls : List Inputs) (pwm : UInt8) :
    (run (first :: calls) (.start pwm)).countCheck < checkTimes := by
  rw [run_first]
  exact (speed_count_run calls _ (.inr (.inr rfl)) (show 0 < checkTimes by decide)).2

end DentOS.As9716
