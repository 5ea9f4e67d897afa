/-
  The alarms of the AS9716-32D over whole runs, up to the shutdown.

  The alarms are three tests that the readings pass one after the other, yellow, red, shutdown, and each
  reading is tried on one of them only.  So a switch that gets hot in one place is shut down three checks
  later, but three hot places may shut it down in one check.

  `heat` collects the readings that go through the alarms, since the fans last came down from full speed.
  `shutdown_iff`: the shutdown is ordered by the call that completes a reading for yellow, one for red and one
  for shutdown, in this order.  `shutdown_within`: one thermometer that stays at its limit is enough, in
  fifteen calls.
-/
import DentOS.Lib.Stages
import DentOS.Fans.As9716Levels

namespace DentOS.As9716

open Stages

/-! ## Readings of the thermometers against their alarm limits -/

/-- A thermometer, and what it shows. -/
abbrev Reading := Fin 8 × Int

/-- The tests of the three steps of the alarm, in their order. -/
def alarmTests : List (Reading → Bool) :=
  [fun r => afoThermalSpec.maxToYellowAlarmTemp r.1 ≤ r.2,
    fun r => afoThermalSpec.yellowToRedAlarmTemp r.1 ≤ r.2,
    fun r => afoThermalSpec.redAlarmToShutdownTemp r.1 ≤ r.2]

/-- The temperatures with the number of their sensor. -/
def readings (t : Fin 8 → Int) : List Reading := (List.finRange 8).map fun i => (i, t i)

/-- Three readings, one for each alarm, in this order. -/
def Overheated (hot : List Reading) : Prop :=
  ∃ a b c : Reading, [a, b, c].Sublist hot ∧ afoThermalSpec.maxToYellowAlarmTemp a.1 ≤ a.2
    ∧ afoThermalSpec.yellowToRedAlarmTemp b.1 ≤ b.2 ∧ afoThermalSpec.redAlarmToShutdownTemp c.1 ≤ c.2

instance (inp : Inputs) (s : State) : Decidable (Checks inp s) :=
  decidable_of_iff (s.fanState ≠ .init ∧ checkTimes ≤ s.countCheck + 1
      ∧ (∀ i, (thermaliInfoGet inp (thermalIds i)).isSome) ∧ (inp.dutyOpens && inp.dutyReads) = true)
    ⟨fun h => ⟨h.1, h.2.1, h.2.2.1, h.2.2.2⟩, fun h => ⟨h.started, h.third, h.temps, h.duty⟩⟩

/-- The readings that a call takes through the alarms. -/
def alarmReadings (inp : Inputs) (s : State) : List Reading :=
  if Checks inp s ∧ inp.directionVal ≠ 1 ∧ s.fanState = .max then readings (temps inp) else []

/-- The fans come down from full speed, with the air from front to back. -/
def ComesDown (inp : Inputs) (s : State) : Prop :=
  inp.directionVal ≠ 1 ∧ s.fanState = .max ∧ (manageFans inp s).2.fanState = .mid

instance (inp : Inputs) (s : State) : Decidable (ComesDown inp s) := inferInstanceAs (Decidable (_ ∧ _))

/-- The readings for the alarms, since the fans last came down. -/
def heat : List Inputs → State → List Reading → List Reading
  | [], _, hot => hot
  | inp :: calls, s, hot =>
      heat calls (manageFans inp s).2 (if ComesDown inp s then [] else hot ++ alarmReadings inp s)

/-! ## The test of each limit, and the alarm that it raises -/

variable {hot : List Reading} {s : State} {inp : Inputs}

/-- The alarm behind so many tests. -/
def Level.ofStage : Nat → Level
  | 0 => .init
  | 1 => .yellowAlarm
  | 2 => .redAlarm
  | _ => .shutdown

/-- Whether the shutdown has been ordered. -/
def ordered (hot : List Reading) : Nat := if passed alarmTests hot = 3 then 1 else 0

/-- At most three steps of the alarm are passed. -/
theorem passed_le_three (hot : List Reading) : passed alarmTests hot ≤ 3 := passed_le alarmTests hot

/-- A shutdown is due when all three steps are passed in their order. -/
theorem overheated_iff : Overheated hot ↔ passed alarmTests hot = 3 := by
  have hgreedy : 3 ≤ passed alarmTests hot ↔ InOrder alarmTests hot :=
    le_passed_iff 3 alarmTests hot (Nat.le_refl 3)
  have hle := passed_le_three hot
  rw [show passed alarmTests hot = 3 ↔ 3 ≤ passed alarmTests hot by omega, hgreedy]
  constructor
  · rintro ⟨a, b, c, hsub, ha, hb, hc⟩
    exact ⟨[a, b, c], hsub,
      .cons (decide_eq_true ha) (.cons (decide_eq_true hb) (.cons (decide_eq_true hc) .nil))⟩
  · rintro ⟨ys, hsub, hall⟩
    cases hall with
    | cons ha hall => cases hall with
      | cons hb hall => cases hall with
        | cons hc hall => cases hall with
          | nil => exact ⟨_, _, _, hsub, of_decide_eq_true ha, of_decide_eq_true hb, of_decide_eq_true hc⟩

instance (hot : List Reading) : Decidable (Overheated hot) := decidable_of_iff _ overheated_iff.symm

/-- The alarm is that of the readings, and `n` shutdowns have been ordered without the last. -/
structure Alarmed (hot : List Reading) (n : Nat) (s : State) : Prop where
  alarm : s.fanAlarmState = Level.ofStage (passed alarmTests hot)
  orders : s.log.count .shutdown = n + ordered hot

/-- A reading that passes its test. -/
theorem Alarmed.next {n : Nat} {s' : State} {p : Reading → Bool} {r : Reading} (h : Alarmed hot n s)
    (htest : alarmTests[passed alarmTests hot]? = some p) (hpass : p r = true)
    (hstate : s'.fanAlarmState = Level.ofStage (passed alarmTests hot + 1))
    (horders : s'.log.count .shutdown = s.log.count .shutdown + if passed alarmTests hot = 2 then 1 else 0) :
    Alarmed (hot ++ [r]) n s' := by
  have hp : passed alarmTests (hot ++ [r]) = passed alarmTests hot + 1 := by
    rw [passed_concat, htest, if_pos (by simpa using hpass)]
  have hlt : passed alarmTests hot < 3 := (List.getElem?_eq_some_iff.mp htest).1
  refine ⟨by rw [hstate, hp], ?_⟩
  rw [horders, h.orders, ordered, ordered, hp, if_neg (Nat.ne_of_lt hlt)]
  simp

/-- A reading that does not. -/
theorem Alarmed.same {n : Nat} {p : Reading → Bool} {r : Reading} (h : Alarmed hot n s)
    (htest : alarmTests[passed alarmTests hot]? = some p) (hpass : ¬ p r = true) :
    Alarmed (hot ++ [r]) n s := by
  have hp : passed alarmTests (hot ++ [r]) = passed alarmTests hot := by
    rw [passed_concat, htest, if_neg (by simpa using hpass), Nat.add_zero]
  exact ⟨by rw [h.alarm, hp], by rw [h.orders, ordered, ordered, hp]⟩

/-- The yellow alarm is no shutdown. -/
theorem yellowAlarm_spec (s : State) : (yellowAlarm s).fanAlarmState = .yellowAlarm
    ∧ (yellowAlarm s).log.count .shutdown = s.log.count .shutdown := by
  unfold yellowAlarm
  split_ifs
  · exact ⟨rfl, rfl⟩
  · exact ⟨rfl,
      count_say_shutdown (by simp) { s with fanAlarmState := .yellowAlarm, sendYellowAlarm := true }⟩

/-- The red alarm is no shutdown. -/
theorem redAlarm_spec (s : State) : (redAlarm s).fanAlarmState = .redAlarm
    ∧ (redAlarm s).log.count .shutdown = s.log.count .shutdown := by
  unfold redAlarm
  split_ifs
  · exact ⟨rfl, rfl⟩
  · exact ⟨rfl, count_say_shutdown (by simp) { s with fanAlarmState := .redAlarm, sendRedAlarm := true }⟩

/-- An order to shut down is counted. -/
theorem count_say_self (s : State) : (s.say .shutdown).log.count .shutdown = s.log.count .shutdown + 1 := by
  rw [State.say, List.count_append, List.count_singleton_self]

/-- **One reading.** -/
theorem alarmed_alarm {n : Nat} (i : Fin 8) (t : Int) (h : Alarmed hot n s) :
    Alarmed (hot ++ [(i, t)]) n (alarm i t s) := by
  have hle := passed_le_three hot
  -- the alarm is the number of tests passed, so the reading is tried on one limit only
  rcases hk : passed alarmTests hot with _ | _ | _ | _ | k
  · have hstate : s.fanAlarmState = .init := by rw [h.alarm, hk]; rfl
    have htest : alarmTests[passed alarmTests hot]?
        = some fun r => decide (afoThermalSpec.maxToYellowAlarmTemp r.1 ≤ r.2) := by rw [hk]; rfl
    rw [alarm, if_pos hstate]
    split_ifs with hlimit
    · obtain ⟨hstate', hcount⟩ := yellowAlarm_spec s
      exact h.next htest (decide_eq_true hlimit) (by rw [hstate', hk]; rfl) (by rw [hcount, hk]; rfl)
    · exact h.same htest (by simpa using hlimit)
  · have hstate : s.fanAlarmState = .yellowAlarm := by rw [h.alarm, hk]; rfl
    have htest : alarmTests[passed alarmTests hot]?
        = some fun r => decide (afoThermalSpec.yellowToRedAlarmTemp r.1 ≤ r.2) := by rw [hk]; rfl
    rw [alarm, hstate, if_neg (by decide), if_pos rfl]
    split_ifs with hlimit
    · obtain ⟨hstate', hcount⟩ := redAlarm_spec s
      exact h.next htest (decide_eq_true hlimit) (by rw [hstate', hk]; rfl) (by rw [hcount, hk]; rfl)
    · exact h.same htest (by simpa using hlimit)
  · have hstate : s.fanAlarmState = .redAlarm := by rw [h.alarm, hk]; rfl
    have htest : alarmTests[passed alarmTests hot]?
        = some fun r => decide (afoThermalSpec.redAlarmToShutdownTemp r.1 ≤ r.2) := by rw [hk]; rfl
    rw [alarm, hstate, if_neg (by decide), if_neg (by decide), if_pos rfl]
    split_ifs with hlimit
    · exact h.next htest (decide_eq_true hlimit) (by rw [hk]; rfl) (by rw [hk]; exact count_say_self _)
    · exact h.same htest (by simpa using hlimit)
  · -- all three are passed
    have hstate : s.fanAlarmState = .shutdown := by rw [h.alarm, hk]; rfl
    have hp : passed alarmTests (hot ++ [(i, t)]) = passed alarmTests hot := by
      rw [passed_concat, hk]
      rfl
    rw [alarm, hstate, if_neg (by decide), if_neg (by decide), if_neg (by decide)]
    exact ⟨by rw [h.alarm, hp], by rw [h.orders, ordered, ordered, hp]⟩
  · omega

/-- The loop over the sensors goes through the steps as far as the readings take it. -/
theorem alarmed_alarms {n : Nat} (t : Fin 8 → Int) (h : Alarmed hot n s) :
    Alarmed (hot ++ readings t) n (alarms t s) := by
  have hfold : ∀ (is : List (Fin 8)) (hot : List Reading) (s : State), Alarmed hot n s →
      Alarmed (hot ++ is.map fun i => (i, t i)) n (is.foldl (fun s i => alarm i (t i) s) s) := by
    intro is
    induction is with
    | nil =>
        intro hot s h
        rwa [List.map_nil, List.append_nil]
    | cons i is ih =>
        intro hot s h
        have hnext := ih _ _ (alarmed_alarm i (t i) h)
        rwa [List.append_assoc] at hnext
  exact hfold _ hot s h

/-! ## Calls: what one call orders, against the readings -/

/-- The alarms are cleared without a shutdown. -/
theorem clearAlarms_spec (s : State) : (clearAlarms s).fanAlarmState = .init
    ∧ (clearAlarms s).log.count .shutdown = s.log.count .shutdown := by
  unfold clearAlarms
  split_ifs with h
  · exact ⟨h, rfl⟩
  · exact ⟨rfl, count_say_shutdown (by simp)
      { s with fanAlarmState := .init, sendYellowAlarm := false, sendRedAlarm := false }⟩

/-- What else is in the state does not matter. -/
theorem Alarmed.of_eq {n : Nat} {s' : State} (h : Alarmed hot n s)
    (hstate : s'.fanAlarmState = s.fanAlarmState)
    (horders : s'.log.count .shutdown = s.log.count .shutdown) : Alarmed hot n s' :=
  ⟨hstate.trans h.alarm, horders.trans h.orders⟩

/-- The readings of a check at full speed, with the air from front to back. -/
theorem alarmed_afo {n : Nat} (hchecks : Checks inp s) (h : Alarmed hot n s) (hdir : inp.directionVal ≠ 1)
    (hmax : s.fanState = .max) :
    (∃ n', Alarmed (if ComesDown inp s then [] else hot ++ readings (temps inp)) n' (manageFans inp s).2)
      ∧ (manageFans inp s).2.log.count .shutdown = n + ordered (hot ++ readings (temps inp)) := by
  have hspeed : s.read.fanState.Speed := .inr (.inr hmax)
  obtain ⟨hlevel, -, halarm, horders⟩ := evaluate_spec (s := s.read) inp hspeed
  have hnew : Alarmed (hot ++ readings (temps inp)) n (alarms (temps inp) s.read) :=
    alarmed_alarms (temps inp) (h.of_eq rfl rfl)
  have hafi : decide (inp.directionVal = 1) = false := decide_eq_false hdir
  have hread : s.read.fanState = .max := hmax
  rw [hafi, hread, nextLevel_afo_max] at hlevel
  rw [hafi, afterAlarms, if_neg (by simp [hread])] at halarm horders
  have hstep := manageFans_of_checks hchecks
  by_cases hcool : Cool afoThermalSpec.maxToMidTemp (temps inp)
  · rw [if_pos hcool] at hlevel halarm horders
    obtain ⟨hclear, hcount⟩ := clearAlarms_spec (alarms (temps inp) s.read)
    have hdown : ComesDown inp s := ⟨hdir, hmax, by rw [hstep]; exact hlevel⟩
    rw [if_pos hdown, hstep]
    have horders' : (evaluate inp s.read).log.count .shutdown
        = n + ordered (hot ++ readings (temps inp)) := by
      rw [horders, hcount, hnew.orders]
    exact ⟨⟨_, halarm.trans hclear, horders'⟩, horders'⟩
  · rw [if_neg hcool] at hlevel halarm horders
    have hdown : ¬ ComesDown inp s := by
      rintro ⟨-, -, hmid⟩
      rw [hstep] at hmid
      exact absurd (hlevel.symm.trans hmid) (by decide)
    rw [if_neg hdown, hstep]
    exact ⟨⟨n, hnew.of_eq halarm horders⟩, horders.trans hnew.orders⟩

/-- **One call.** -/
theorem alarmed_manageFans {n : Nat} (hspeed : s.fanState.Speed) (h : Alarmed hot n s) :
    (∃ n', Alarmed (if ComesDown inp s then [] else hot ++ alarmReadings inp s) n' (manageFans inp s).2)
      ∧ (manageFans inp s).2.log.count .shutdown = n + ordered (hot ++ alarmReadings inp s) := by
  by_cases hgo : Checks inp s ∧ inp.directionVal ≠ 1 ∧ s.fanState = .max
  · rw [alarmReadings, if_pos hgo]
    exact alarmed_afo hgo.1 h hgo.2.1 hgo.2.2
  · rw [alarmReadings, if_neg hgo, List.append_nil]
    -- no alarm is gone through, and the level at full speed is not left by it
    have hsame : (manageFans inp s).2.fanAlarmState = s.fanAlarmState
        ∧ (manageFans inp s).2.log.count .shutdown = s.log.count .shutdown ∧ ¬ ComesDown inp s := by
      by_cases hchecks : Checks inp s
      · obtain ⟨-, -, halarm, horders⟩ := evaluate_spec (s := s.read) inp hspeed
        have hskip : afterAlarms (inp.directionVal = 1) (temps inp) s.read = s.read := by
          rw [afterAlarms, if_pos]
          by_cases hdir : inp.directionVal = 1
          · exact .inl (decide_eq_true hdir)
          · exact .inr fun hmax => hgo ⟨hchecks, hdir, hmax⟩
        rw [hskip] at halarm horders
        rw [manageFans_of_checks hchecks]
        exact ⟨halarm, horders, fun hdown => hgo ⟨hchecks, hdown.1, hdown.2.1⟩⟩
      · obtain ⟨c, hpolicy, -⟩ := manageFans_of_not_checks hspeed.ne_init hchecks
        refine ⟨hpolicy.fanAlarmState, hpolicy.orders, fun hdown => ?_⟩
        exact absurd (hpolicy.fanState.symm.trans hdown.2.2) (by rw [hdown.2.1]; decide)
    obtain ⟨halarm, horders, hdown⟩ := hsame
    rw [if_neg hdown]
    exact ⟨⟨n, h.of_eq halarm horders⟩, horders.trans h.orders⟩

/-! ## Runs: the shutdowns that were ordered are those the readings ask for -/

/-- What is known of a state of a run. -/
structure Tracked (hot : List Reading) (s : State) : Prop where
  speed : s.fanState = .init ∨ s.fanState.Speed
  count : s.countCheck < checkTimes
  alarmed : ∃ n, Alarmed hot n s

/-- At the start no step is passed. -/
theorem tracked_start (pwm : UInt8) : Tracked [] (.start pwm) where
  speed := .inl rfl
  count := show 0 < checkTimes by decide
  alarmed := ⟨0, rfl, rfl⟩

/-- At the start no alarm is gone through. -/
theorem alarmReadings_init (inp : Inputs) (h : s.fanState = .init) :
    ¬ ComesDown inp s ∧ alarmReadings inp s = [] := by
  refine ⟨fun hdown => ?_, if_neg fun hgo => hgo.1.started h⟩
  exact absurd (h.symm.trans hdown.2.1) (by decide)

/-- What a call orders. -/
theorem orders_manageFans (inp : Inputs) (h : Tracked hot s) :
    (manageFans inp s).2.log.count .shutdown + ordered hot
    = s.log.count .shutdown + ordered (hot ++ alarmReadings inp s) := by
  obtain ⟨n, halarmed⟩ := h.alarmed
  rcases h.speed with hinit | hspeed
  · rw [manageFans_init hinit, (alarmReadings_init inp hinit).2, List.append_nil]
  · rw [(alarmed_manageFans hspeed halarmed).2, halarmed.orders]
    omega

/-- One call adds its readings, or begins anew where the fans come down. -/
theorem tracked_manageFans (inp : Inputs) (h : Tracked hot s) :
    Tracked (if ComesDown inp s then [] else hot ++ alarmReadings inp s) (manageFans inp s).2 := by
  obtain ⟨n, halarmed⟩ := h.alarmed
  rcases h.speed with hinit | hspeed
  · obtain ⟨hdown, hnone⟩ := alarmReadings_init inp hinit
    rw [manageFans_init hinit, if_neg hdown, hnone, List.append_nil]
    exact ⟨.inr (.inr (.inr rfl)), h.count, ⟨n, halarmed.of_eq rfl rfl⟩⟩
  · exact ⟨.inr (speed_manageFans hspeed), countCheck_manageFans hspeed,
      (alarmed_manageFans hspeed halarmed).1⟩

/-- **A run** is tracked by the readings since the fans last came down. -/
theorem tracked_run : ∀ (calls : List Inputs) (s : State) (hot : List Reading), Tracked hot s →
    Tracked (heat calls s hot) (run calls s)
  | [], _, _, h => h
  | inp :: calls, _, _, h => tracked_run calls _ _ (tracked_manageFans inp h)

/-- **The shutdown** is ordered by the call whose readings complete one for each alarm, and by no other: in
    every run, whatever can be read and whatever writes take. -/
theorem shutdown_iff (pwm : UInt8) (calls : List Inputs) (inp : Inputs) :
    (run (calls ++ [inp]) (.start pwm)).log.count .shutdown
      = (run calls (.start pwm)).log.count .shutdown
        + if Overheated (heat calls (.start pwm) [] ++ alarmReadings inp (run calls (.start pwm)))
            ∧ ¬ Overheated (heat calls (.start pwm) []) then 1 else 0 := by
  have htracked := tracked_run calls (.start pwm) [] (tracked_start pwm)
  have horders := orders_manageFans inp htracked
  have hmono := passed_le_append alarmTests (heat calls (.start pwm) [])
    (alarmReadings inp (run calls (.start pwm)))
  have hle := passed_le_three (heat calls (.start pwm) [] ++ alarmReadings inp (run calls (.start pwm)))
  have hsnoc : run (calls ++ [inp]) (.start pwm) = (manageFans inp (run calls (.start pwm))).2 :=
    List.foldl_concat _ _ _ _
  rw [hsnoc]
  simp only [overheated_iff]
  unfold ordered at horders
  split_ifs at horders ⊢ <;> omega

/-! ## A thermometer that stays at its limit -/

/-- The call can read all it needs, and the thermometer `i` is at its limit for the shutdown. -/
structure Burning (i : Fin 8) (inp : Inputs) : Prop where
  afo : inp.directionVal ≠ 1
  readable : ∀ k, (thermaliInfoGet inp (thermalIds k)).isSome
  duty : (inp.dutyOpens && inp.dutyReads) = true
  hot : afoThermalSpec.redAlarmToShutdownTemp i ≤ temps inp i

/-- The levels up to full speed. -/
def Level.below : Level → Nat
  | .min => 2
  | .mid => 1
  | _ => 0

/-- How many checks are to go, at most. -/
def toGo (hot : List Reading) (s : State) : Nat := s.fanState.below + (3 - passed alarmTests hot)

variable {i : Fin 8}

/-- With a sensor this hot the speed goes up by one, and stays at the top. -/
theorem burning_level (h : Burning i inp) (full : Bool) {l : Level} (hl : l.Speed) :
    (nextLevel (inp.directionVal = 1) full (temps inp) l).below = l.below - 1
      ∧ (l = .max → nextLevel (inp.directionVal = 1) full (temps inp) l = .max) := by
  have hafi : decide (inp.directionVal = 1) = false := decide_eq_false h.afo
  have hlimit := h.hot
  rw [hafi]
  rcases hl with rfl | rfl | rfl
  · have hhot : Hot afoThermalSpec.minToMidTemp (temps inp) :=
      ⟨i, Int.le_trans (afo_min_le_shutdown i) hlimit⟩
    simp [nextLevel, hhot, Level.below]
  · have hhot : Hot afoThermalSpec.midToMaxTemp (temps inp) :=
      ⟨i, Int.le_trans (afo_mid_le_shutdown i) hlimit⟩
    simp [nextLevel, hhot, Level.below]
  · have hcool : ¬ Cool afoThermalSpec.maxToMidTemp (temps inp) := by
      intro hcool
      have := hcool i
      have := afo_lt_yellow i
      have := afo_yellow_le_red i
      have := afo_red_le_shutdown i
      omega
    simp [nextLevel, hcool, Level.below]

/-- The reading at the limit passes whatever test is next. -/
theorem burning_passed (h : Burning i inp) (hmore : passed alarmTests hot < 3) :
    passed alarmTests hot < passed alarmTests (hot ++ readings (temps inp)) := by
  refine lt_passed_append hmore (List.mem_map.mpr ⟨i, List.mem_finRange i, rfl⟩) fun p hp => ?_
  have hlimit := h.hot
  have hred := afo_yellow_le_red i
  have hshut := afo_red_le_shutdown i
  simp only [alarmTests, List.mem_cons, List.not_mem_nil, or_false] at hp
  rcases hp with rfl | rfl | rfl
  · exact decide_eq_true (Int.le_trans hred (Int.le_trans hshut hlimit))
  · exact decide_eq_true (Int.le_trans hshut hlimit)
  · exact decide_eq_true hlimit

/-- **One check, nearer to the shutdown.** -/
theorem toGo_check (hot : List Reading) (h : Burning i inp) (hspeed : s.fanState.Speed)
    (hchecks : Checks inp s) :
    ¬ ComesDown inp s ∧ toGo (hot ++ alarmReadings inp s) (manageFans inp s).2 ≤ toGo hot s - 1 := by
  have hread : s.read.fanState = s.fanState := rfl
  obtain ⟨hbelow, hstays⟩ := burning_level h (checkPsuLoading inp) hspeed
  have hlevel : (manageFans inp s).2.fanState
      = nextLevel (inp.directionVal = 1) (checkPsuLoading inp) (temps inp) s.fanState := by
    rw [manageFans_of_checks hchecks, (evaluate_spec (s := s.read) inp hspeed).1, hread]
  have hdown : ¬ ComesDown inp s := by
    rintro ⟨-, hmax, hmid⟩
    exact absurd (hmid.symm.trans (hlevel.trans (hstays hmax))) (by decide)
  refine ⟨hdown, ?_⟩
  rw [toGo, toGo, hlevel, hbelow]
  -- below full speed the level goes up, at full speed a test is passed
  rcases hspeed with hmin | hmid | hmax
  · have htwo : s.fanState.below = 2 := congrArg Level.below hmin
    rw [alarmReadings, if_neg (by simp [hmin]), List.append_nil]
    omega
  · have hone : s.fanState.below = 1 := congrArg Level.below hmid
    rw [alarmReadings, if_neg (by simp [hmid]), List.append_nil]
    omega
  · have hzero : s.fanState.below = 0 := congrArg Level.below hmax
    rw [alarmReadings, if_pos ⟨hchecks, h.afo, hmax⟩]
    have hle := passed_le_three (hot ++ readings (temps inp))
    by_cases hmore : passed alarmTests hot < 3
    · have := burning_passed h hmore
      omega
    · have := passed_le_append alarmTests hot (readings (temps inp))
      omega

/-- **One call.** -/
theorem toGo_manageFans (hot : List Reading) (h : Burning i inp) (hspeed : s.fanState.Speed)
    (hcount : s.countCheck < checkTimes) :
    ¬ ComesDown inp s ∧ 3 * toGo (hot ++ alarmReadings inp s) (manageFans inp s).2
      ≤ 3 * toGo hot s - (s.countCheck + 1) + (manageFans inp s).2.countCheck := by
  have htimes : checkTimes = 3 := rfl
  by_cases hchecks : Checks inp s
  · obtain ⟨hdown, hgo⟩ := toGo_check hot h hspeed hchecks
    have hthird := hchecks.third
    exact ⟨hdown, by omega⟩
  · obtain ⟨c, hpolicy, hc⟩ := manageFans_of_not_checks hspeed.ne_init hchecks
    -- all can be read, so the call is not the third
    have hless : s.countCheck + 1 < checkTimes :=
      Nat.lt_of_not_le fun hthird => hchecks ⟨hspeed.ne_init, hthird, h.readable, h.duty⟩
    have hdown : ¬ ComesDown inp s := fun hdown =>
      absurd (hpolicy.fanState.symm.trans hdown.2.2) (by rw [hdown.2.1]; decide)
    have hc' : c = s.countCheck + 1 := by omega
    refine ⟨hdown, ?_⟩
    rw [alarmReadings, if_neg fun hgo => hchecks hgo.1, List.append_nil, toGo, toGo, hpolicy.fanState,
      hpolicy.countCheck]
    dsimp only
    omega

/-- Every three hot calls take one step of what is left to go. -/
theorem shutdown_of_toGo : ∀ (more : List Inputs) (s : State) (hot : List Reading),
    (∀ inp ∈ more, Burning i inp) →
    s.fanState.Speed → Tracked hot s → 3 * toGo hot s ≤ s.countCheck + more.length →
    (run more s).fanAlarmState = .shutdown ∧ Event.shutdown ∈ (run more s).log
  | [], s, hot, _, _, htracked, hgo => by
      have htimes : checkTimes = 3 := rfl
      have hcount := htracked.count
      obtain ⟨n, halarmed⟩ := htracked.alarmed
      rw [List.length_nil] at hgo
      have hpassed : passed alarmTests hot = 3 := by
        have hle := passed_le_three hot
        unfold toGo at hgo
        omega
      refine ⟨by rw [run, List.foldl_nil, halarmed.alarm, hpassed]; rfl, List.count_pos_iff.mp ?_⟩
      rw [run, List.foldl_nil, halarmed.orders, ordered, if_pos hpassed]
      exact Nat.succ_pos n
  | inp :: more, s, hot, h, hspeed, htracked, hgo => by
      obtain ⟨hdown, hnext⟩ := toGo_manageFans hot (h inp List.mem_cons_self) hspeed htracked.count
      have htracked' := tracked_manageFans inp htracked
      rw [if_neg hdown] at htracked'
      rw [List.length_cons] at hgo
      have hgo' : 3 * toGo (hot ++ alarmReadings inp s) (manageFans inp s).2
          ≤ (manageFans inp s).2.countCheck + more.length := by omega
      exact shutdown_of_toGo more _ _ (fun inp' hinp' => h inp' (List.mem_cons_of_mem _ hinp'))
        (speed_manageFans hspeed) htracked' hgo'

/-- **One thermometer is enough**: if it stays at its limit, the shutdown has been ordered fifteen calls later,
    from wherever a run has got to. -/
theorem shutdown_within (pwm : UInt8) (first : Inputs) (calls more : List Inputs) (i : Fin 8)
    (hlong : 15 ≤ more.length) (h : ∀ inp ∈ more, Burning i inp) :
    (run (first :: calls ++ more) (.start pwm)).fanAlarmState = .shutdown
      ∧ Event.shutdown ∈ (run (first :: calls ++ more) (.start pwm)).log := by
  have htracked := tracked_run (first :: calls) (.start pwm) [] (tracked_start pwm)
  have hspeed : (run (first :: calls) (.start pwm)).fanState.Speed := speed_run first calls pwm
  rw [run_append]
  refine shutdown_of_toGo more _ _ h hspeed htracked ?_
  have hbelow : (run (first :: calls) (.start pwm)).fanState.below ≤ 2 := by
    rcases hspeed with hl | hl | hl <;> rw [hl] <;> decide
  unfold toGo
  omega

/-- All can be read, and the core of the CPU is at 79 degrees, all else at 30. -/
def glowing : Inputs where
  direction := some 0
  coretemp := fun i => some (if i = 2 then 79000 else 30000)
  lm75 := fun _ => some 30000
  dutyOpens := true
  dutyReads := true
  powerGood := fun _ => some 1
  pIn := fun _ => some 400000
  pOut := fun _ => some 380000
  fan := fun _ => ⟨some 1, some 0, some 0, some 8000, some 7000⟩
  write := .takes
  psuWrite := true

/-- Fifteen calls at a glowing sensor, behind one. -/
theorem shutdown_within_glowing :
    (run (glowing :: [] ++ List.replicate 15 glowing) (.start 0)).fanAlarmState = .shutdown
      ∧ Event.shutdown ∈ (run (glowing :: [] ++ List.replicate 15 glowing) (.start 0)).log := by
  refine shutdown_within 0 glowing [] (List.replicate 15 glowing) 6 (by decide) fun inp hinp => ?_
  rw [List.eq_of_mem_replicate hinp]
  exact ⟨by decide, by decide, rfl, by decide⟩

end DentOS.As9716
