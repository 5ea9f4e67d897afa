/-
  How fast the fans of the AS9716-32D blow, over whole runs.

  `fanState` is what the policy has decided, the register is what the fans do.  The two are brought together
  only when the level changes, so one write that does not take is never made up for.  `speed_covers`: if all
  writes take, then from the first of them on the fans blow at the level's speed or faster, and at full speed
  ever after a fan has failed.

  The invariant (`Covered`) compares the register with the level.  A call that does not change the level does
  not lower the register; a call that changes it writes the register anew, or full speed where a fan is bad.
  `full_after_failure` is the same for full speed once `fan_fail` has been set.
-/
import DentOS.Fans.As9716Levels

namespace DentOS.As9716

/-! ## What the fans do: the duty cycle in their register -/

/-- The duty cycle that the driver shows. -/
def State.shown (s : State) : Int := regValToDutyCycle s.pwm

/-- The duty cycle of a level. -/
def Level.dutyCycle : Level → Int
  | .min => 50
  | .mid => 75
  | .max => 100
  | _ => 0

/-- Some write has taken. -/
def State.Written (s : State) : Prop := ∃ p, Event.duty p ∈ s.log

/-- The two speeds go together: `full`, if the fans were at full speed in the beginning. -/
structure Covered (full : Prop) (s : State) : Prop where
  level : full ∨ s.Written → s.fanState.dutyCycle ≤ s.shown
  failed : s.fanFail = true → s.shown = 100
  speed : s.fanState.Speed

/-! ## Steps that do not touch the fans: sensors and alarms -/

/-- Two states with the same fans. -/
structure SameFans (s s' : State) : Prop where
  fanState : s'.fanState = s.fanState
  fanFail : s'.fanFail = s.fanFail
  pwm : s'.pwm = s.pwm
  currentDutyCycle : s'.currentDutyCycle = s.currentDutyCycle
  written : s'.Written ↔ s.Written

variable {s s' s'' : State} {full : Prop} {inp : Inputs}

/-- What is not touched is the same. -/
theorem SameFans.refl (s : State) : SameFans s s := ⟨rfl, rfl, rfl, rfl, Iff.rfl⟩

/-- Twice untouched is untouched. -/
theorem SameFans.trans (h : SameFans s s') (h' : SameFans s' s'') : SameFans s s'' :=
  ⟨h'.fanState.trans h.fanState, h'.fanFail.trans h.fanFail, h'.pwm.trans h.pwm,
    h'.currentDutyCycle.trans h.currentDutyCycle, h'.written.trans h.written⟩

/-- The duty cycle that the register shows is the same. -/
theorem SameFans.shown (h : SameFans s s') : s'.shown = s.shown := by
  rw [State.shown, h.pwm, State.shown]

/-- What does not touch the fans keeps the invariant. -/
theorem SameFans.covered (h : SameFans s s') (hcovered : Covered full s) : Covered full s' where
  level hfull := by
    rw [h.fanState, h.shown]
    exact hcovered.level (hfull.imp_right h.written.mp)
  failed hfail := by
    rw [h.shown]
    exact hcovered.failed (h.fanFail ▸ hfail)
  speed := h.fanState ▸ hcovered.speed

/-- Only a duty cycle counts as one that was written. -/
theorem written_say {e : Event} (h : ∀ p, e ≠ .duty p) : (s.say e).Written ↔ s.Written := by
  constructor
  · rintro ⟨p, hp⟩
    rcases List.mem_append.mp hp with hp | hp
    · exact ⟨p, hp⟩
    · exact absurd (List.mem_singleton.mp hp).symm (h p)
  · rintro ⟨p, hp⟩
    exact ⟨p, List.mem_append_left _ hp⟩

/-- Other events do not touch the fans. -/
theorem sameFans_say {e : Event} (h : ∀ p, e ≠ .duty p) : SameFans s (s.say e) :=
  ⟨rfl, rfl, rfl, rfl, written_say h⟩

/-- The yellow alarm does not touch the fans. -/
theorem sameFans_yellowAlarm (s : State) : SameFans s (yellowAlarm s) := by
  unfold yellowAlarm
  split_ifs
  · exact ⟨rfl, rfl, rfl, rfl, Iff.rfl⟩
  · exact ⟨rfl, rfl, rfl, rfl,
      written_say (s := { s with fanAlarmState := .yellowAlarm, sendYellowAlarm := true }) (by simp)⟩

/-- The red alarm does not touch the fans. -/
theorem sameFans_redAlarm (s : State) : SameFans s (redAlarm s) := by
  unfold redAlarm
  split_ifs
  · exact ⟨rfl, rfl, rfl, rfl, Iff.rfl⟩
  · exact ⟨rfl, rfl, rfl, rfl,
      written_say (s := { s with fanAlarmState := .redAlarm, sendRedAlarm := true }) (by simp)⟩

/-- The alarm of a sensor does not touch the fans, whichever it is. -/
theorem sameFans_alarm (i : Fin 8) (t : Int) (s : State) : SameFans s (alarm i t s) := by
  unfold alarm
  split_ifs
  · exact sameFans_yellowAlarm s
  · exact .refl s
  · exact sameFans_redAlarm s
  · exact .refl s
  · exact ⟨rfl, rfl, rfl, rfl, written_say (s := { s with fanAlarmState := .shutdown }) (by simp)⟩
  · exact .refl s
  · exact .refl s

/-- The alarms of all sensors do not touch the fans. -/
theorem sameFans_alarms (t : Fin 8 → Int) (s : State) : SameFans s (alarms t s) :=
  alarms_keep SameFans.refl (fun _ _ _ => SameFans.trans) sameFans_alarm t s

/-- The end of the alarms does not touch the fans. -/
theorem sameFans_clearAlarms (s : State) : SameFans s (clearAlarms s) := by
  unfold clearAlarms
  split_ifs
  · exact .refl s
  · exact ⟨rfl, rfl, rfl, rfl, written_say
      (s := { s with fanAlarmState := .init, sendYellowAlarm := false, sendRedAlarm := false }) (by simp)⟩

/-- The fans behind the alarms are those in front of them. -/
theorem sameFans_afterAlarms (afi : Bool) (t : Fin 8 → Int) (s : State) :
    SameFans s (afterAlarms afi t s) := by
  unfold afterAlarms
  split_ifs
  · exact .refl s
  · exact (sameFans_alarms t s).trans (sameFans_clearAlarms _)
  · exact sameFans_alarms t s

/-! ## Writes to the register of the duty cycle -/

/-- The register, written and read again. -/
theorem regVal_dutyCycle {p : Int} (h : p = 50 ∨ p = 75 ∨ p = 100) :
    regValToDutyCycle (dutyCycleToRegVal (UInt8.ofNat p.toNat)) = p := by
  rcases h with rfl | rfl | rfl
  · decide
  · decide
  · decide

/-- A duty cycle that is written is in the register. -/
theorem percentageSet_takes (hwrite : inp.write = .takes) {fid : Nat} (hfid : 1 ≤ fid ∧ fid ≤ 6) {p : Int}
    (hp : p = 50 ∨ p = 75 ∨ p = 100) (s : State) : (faniPercentageSet inp fid p s).2
      = { s with pwm := dutyCycleToRegVal (UInt8.ofNat p.toNat) }.say (.duty p) := by
  rw [faniPercentageSet, if_neg (by omega), if_neg (by omega), if_pos hfid, hwrite]
  show (setDutyCycle p .takes s).2 = _
  rw [setDutyCycle, if_pos (by omega)]

/-- Nothing is written for 0. -/
theorem percentageSet_zero (fid : Nat) (s : State) : (faniPercentageSet inp fid 0 s).2 = s := by
  rw [faniPercentageSet, if_pos rfl]

/-- Full speed. -/
theorem covered_full {p : State} (hshown : p.shown = 100) (hspeed : p.fanState.Speed) : Covered full p where
  level _ := by
    rw [hshown]
    rcases hspeed with h | h | h
    · rw [h]
      decide
    · rw [h]
      decide
    · rw [h]
      decide
  failed _ := hshown
  speed := hspeed

/-- The register shows again what was written, for each of the three duty cycles. -/
theorem shown_set {p : Int} (hp : p = 50 ∨ p = 75 ∨ p = 100) (s : State) :
    ({ s with pwm := dutyCycleToRegVal (UInt8.ofNat p.toNat) }.say (.duty p)).shown = p :=
  regVal_dutyCycle hp

/-! ## One call: the fans are at the speed of the level, unless one has failed -/

/-- Full speed is set, wherever that takes it. -/
theorem covered_percentageSet (hwrite : inp.write = .takes) (fid : Nat) (hspeed : s.fanState.Speed)
    (h : Covered full s) : Covered full (faniPercentageSet inp fid 100 s).2 := by
  by_cases hfid : 1 ≤ fid ∧ fid ≤ 6
  · rw [percentageSet_takes hwrite hfid (by decide)]
    exact covered_full (shown_set (by decide) s) hspeed
  · rw [faniPercentageSet, if_neg (by decide)]
    split_ifs
    · exact (sameFans_say (by simp)).covered h
    · exact h
    · exact h

/-- At full speed the register shows 100, and the level is as it was. -/
theorem fullSpeed_spec (hwrite : inp.write = .takes) (hcurrent : s.currentDutyCycle = s.shown) :
    (fullSpeed inp s).shown = 100 ∧ (fullSpeed inp s).fanState = s.fanState := by
  unfold fullSpeed
  split_ifs with hmax
  · rw [percentageSet_takes hwrite (by decide) (by decide)]
    exact ⟨shown_set (by decide) s, rfl⟩
  · exact ⟨hcurrent.symm.trans (not_not.mp hmax), rfl⟩

/-- A failed fan brings full speed. -/
theorem checkFans_spec (hwrite : inp.write = .takes) (hcurrent : s.currentDutyCycle = s.shown) :
    (checkFans inp s).fanState = s.fanState
      ∧ ((checkFans inp s).fanFail = true ∧ (checkFans inp s).shown = 100 ∨ checkFans inp s = s) := by
  unfold checkFans
  split_ifs with hbad
  · obtain ⟨hshown, hlevel⟩ := fullSpeed_spec hwrite hcurrent
    exact ⟨hlevel, .inl ⟨rfl, hshown⟩⟩
  · exact ⟨rfl, .inr rfl⟩

/-- The tables give a level its speed.  Only the table for AFI has none for 50 percent. -/
theorem getDutyCycle_cases {l : Level} (h : l.Speed) (direction : Int) :
    getDutyCycleByFanState l direction = l.dutyCycle
      ∨ l = .min ∧ getDutyCycleByFanState l direction = 0 := by
  unfold getDutyCycleByFanState
  by_cases hdir : direction ≠ 0
  · rw [if_pos hdir]
    rcases h with rfl | rfl | rfl
    · exact .inr ⟨rfl, rfl⟩
    · exact .inl rfl
    · exact .inl rfl
  · rw [if_neg hdir]
    rcases h with rfl | rfl | rfl
    · exact .inl rfl
    · exact .inl rfl
    · exact .inl rfl

/-- A speed is one of three duty cycles. -/
theorem dutyCycle_cases {l : Level} (h : l.Speed) :
    l.dutyCycle = 50 ∨ l.dutyCycle = 75 ∨ l.dutyCycle = 100 := by
  rcases h with rfl | rfl | rfl
  · exact .inl rfl
  · exact .inr (.inl rfl)
  · exact .inr (.inr rfl)

/-- The fans are at the level's speed. -/
theorem covered_of_eq (hshown : s.shown = s.fanState.dutyCycle) (hspeed : s.fanState.Speed)
    (hfail : ¬ s.fanFail = true) : Covered full s :=
  ⟨fun _ => le_of_eq hshown.symm, fun h => absurd h hfail, hspeed⟩

/-- The level changes, and with it the fans. -/
theorem shown_changeLevel (hwrite : inp.write = .takes) {direction : Int} {l : Level} (hl : l.Speed)
    (hduty : getDutyCycleByFanState l direction = l.dutyCycle) (hfail : ¬ s.fanFail = true)
    (hcurrent : s.currentDutyCycle = s.shown) : (changeLevel inp direction l s).shown = l.dutyCycle := by
  have hcases := dutyCycle_cases hl
  rw [changeLevel, hduty]
  by_cases hne : l.dutyCycle ≠ s.currentDutyCycle
  · rw [if_pos ⟨hne, hfail⟩, percentageSet_takes hwrite (by decide) hcases]
    exact shown_set hcases _
  · rw [if_neg fun hc => hne hc.1, if_neg (by omega)]
    exact hcurrent.symm.trans (not_not.mp hne).symm

/-- No change of level leaves the fans too slow. -/
theorem covered_changeLevel (hwrite : inp.write = .takes) (direction : Int) {l : Level} (hl : l.Speed)
    (hcurrent : s.fanFail = true ∨ s.currentDutyCycle = s.shown) (hmin : l = .min → s.fanState = .mid)
    (h : Covered full s) : Covered full (changeLevel inp direction l s) := by
  by_cases hfail : s.fanFail = true
  · have hsame : changeLevel inp direction l s
        = { s with fanState := l, newDutyCycle := getDutyCycleByFanState l direction } := by
      rw [changeLevel, if_neg fun hc => hc.2 hfail, if_neg fun hc => hc.2 hfail]
    rw [hsame]
    exact covered_full (h.failed hfail) hl
  -- no fan has failed, so the register has been read since it was last written
  · have hcur : s.currentDutyCycle = s.shown := hcurrent.resolve_left hfail
    rcases getDutyCycle_cases hl direction with hduty | ⟨rfl, hduty⟩
    · have hpolicy := samePolicy_changeLevel inp direction l s
      have hshown := shown_changeLevel hwrite hl hduty hfail hcur
      exact covered_of_eq (hshown.trans (congrArg Level.dutyCycle hpolicy.fanState.symm))
        (hpolicy.fanState ▸ hl) (hpolicy.fanFail ▸ hfail)
    · rw [changeLevel, hduty]
      by_cases hne : 0 ≠ s.currentDutyCycle
      · -- the write of 0 is refused, and the fans stay as they are
        rw [if_pos ⟨hne, hfail⟩, percentageSet_zero]
        refine ⟨fun hfull => ?_, fun hf => absurd hf hfail, hl⟩
        have hmid := h.level hfull
        rw [hmin rfl] at hmid
        exact Int.le_trans (show (50 : Int) ≤ 75 by decide) hmid
      · rw [if_neg fun hc => hne hc.1, if_pos ⟨rfl, hfail⟩,
          percentageSet_takes hwrite (by decide) (by decide)]
        exact covered_full (shown_set (by decide) _) hl

/-- Only 75 percent is followed by 50. -/
theorem nextLevel_eq_min {afi psu : Bool} {t : Fin 8 → Int} {l : Level} (hl : l.Speed)
    (h : nextLevel afi psu t l = .min) (hne : l ≠ .min) : l = .mid := by
  rcases hl with rfl | rfl | rfl
  · exact absurd rfl hne
  · rfl
  · rw [nextLevel] at h
    split_ifs at h

/-- The evaluation keeps the invariant. -/
theorem covered_evaluate (hwrite : inp.write = .takes) (hcurrent : s.currentDutyCycle = s.shown)
    (hspeed : s.fanState.Speed) (h : Covered full s) : Covered full (evaluate inp s) := by
  have halarms := sameFans_afterAlarms (inp.directionVal = 1) (temps inp) s
  have hcur : (afterAlarms (inp.directionVal = 1) (temps inp) s).currentDutyCycle
      = (afterAlarms (inp.directionVal = 1) (temps inp) s).shown := by
    rw [halarms.currentDutyCycle, halarms.shown, hcurrent]
  unfold evaluate
  rw [range_eq inp hspeed]
  generalize afterAlarms (inp.directionVal = 1) (temps inp) s = a at halarms hcur
  have ha := halarms.covered h
  dsimp only
  obtain ⟨hlevel, hcheck⟩ := checkFans_spec (s := a) hwrite hcur
  have hcovered : Covered full (checkFans inp a) := by
    rcases hcheck with ⟨_, hshown⟩ | hsame
    · exact covered_full hshown (hlevel ▸ halarms.fanState ▸ hspeed)
    · rw [hsame]
      exact ha
  split_ifs with hne
  · refine covered_changeLevel hwrite _ (nextLevel_speed hspeed _ _ _) ?_ (fun hmin => ?_) hcovered
    -- a fan that is bad has been answered with full speed, which the change of level leaves alone
    · rcases hcheck with ⟨hfail, _⟩ | hsame
      · exact .inl hfail
      · rw [hsame]
        exact .inr hcur
    · rw [hlevel, halarms.fanState]
      exact nextLevel_eq_min hspeed hmin fun hc => hne (hmin.trans hc.symm)
  · exact hcovered

/-- The check of the fans keeps it too. -/
theorem covered_check (hwrite : inp.write = .takes) (h : Covered full s) : Covered full (check inp s).2 := by
  unfold check
  split
  · exact covered_percentageSet hwrite _ h.speed h
  · split_ifs
    · exact covered_evaluate (s := { s with currentDutyCycle := regValToDutyCycle s.pwm }) hwrite rfl h.speed
        ⟨h.level, h.failed, h.speed⟩
    · exact h

/-- **One call.** -/
theorem covered_manageFans (hwrite : inp.write = .takes) (h : Covered full s) :
    Covered full (manageFans inp s).2 := by
  rw [manageFans, if_neg h.speed.ne_init]
  split_ifs
  · exact ⟨h.level, h.failed, h.speed⟩
  · exact covered_check (s := { s with countCheck := 0 }) hwrite ⟨h.level, h.failed, h.speed⟩

/-- **A run** in which every write takes keeps the invariant. -/
theorem covered_run : ∀ (calls : List Inputs) (s : State), (∀ inp ∈ calls, inp.write = .takes) →
    Covered full s → Covered full (run calls s)
  | [], _, _, h => h
  | inp :: calls, _, hwrites, h =>
      covered_run calls _ (fun i hi => hwrites i (List.mem_cons_of_mem _ hi))
        (covered_manageFans (hwrites inp List.mem_cons_self) h)

/-- The first call establishes it. -/
theorem covered_first (pwm : UInt8) :
    Covered (regValToDutyCycle pwm = 100) { State.start pwm with fanState := .max } where
  level := by
    rintro (hfull | ⟨p, hp⟩)
    · exact le_of_eq hfull.symm
    · exact absurd hp List.not_mem_nil
  failed h := absurd h (by simp [State.start])
  speed := .inr (.inr rfl)

/-- **The fans cover the level**, from the first write on, or from the beginning if they were at full speed:
    in every run in which all writes take. -/
theorem speed_covers (pwm : UInt8) (inp : Inputs) (calls : List Inputs)
    (hwrites : ∀ i ∈ inp :: calls, i.write = .takes) :
    (regValToDutyCycle pwm = 100 ∨ (run (inp :: calls) (.start pwm)).Written →
      (run (inp :: calls) (.start pwm)).fanState.dutyCycle ≤ (run (inp :: calls) (.start pwm)).shown)
    ∧ (run (inp :: calls) (.start pwm)).fanState.Speed := by
  have h := covered_run calls _ (fun i hi => hwrites i (List.mem_cons_of_mem _ hi)) (covered_first pwm)
  rw [run_first]
  exact ⟨h.level, h.speed⟩

/-- A fan that is well. -/
def wellFan : FanFiles := ⟨some 1, some 0, some 0, some 8000, some 7000⟩

/-- All can be read, all thermometers are at 30 degrees, the air goes from front to back. -/
def quiet : Inputs where
  direction := some 0
  coretemp := fun _ => some 30000
  lm75 := fun _ => some 30000
  dutyOpens := true
  dutyReads := true
  powerGood := fun _ => some 1
  pIn := fun _ => some 400000
  pOut := fun _ => some 380000
  fan := fun _ => wellFan
  write := .takes
  psuWrite := true

/-- The third call behind the first brings 75 percent, the sixth 50. -/
theorem speed_covers_quiet : (run (List.replicate 7 quiet) (.start 0)).fanState.dutyCycle
    ≤ (run (List.replicate 7 quiet) (.start 0)).shown :=
  (speed_covers 0 quiet (List.replicate 6 quiet) fun i hi => by
    rw [List.eq_of_mem_replicate (n := 7) hi]
    rfl).1
    (.inr ⟨50, by decide⟩)

/-! ## A failed fan: full speed from then on, whatever the level -/

/-- A check that sees a bad fan keeps it in mind. -/
theorem fanFail_evaluate (hspeed : s.fanState.Speed) : (evaluate inp s).fanFail = true ↔
    s.fanFail = true ∨ ∃ i ∈ List.range' 1 6, badFan inp i = true := by
  have hcheck : ∀ a : State, (checkFans inp a).fanFail = true ↔
      a.fanFail = true ∨ ∃ i ∈ List.range' 1 6, badFan inp i = true := by
    intro a
    rw [checkFans, ← List.any_eq_true]
    split_ifs with hbad
    · exact ⟨fun _ => .inr hbad, fun _ => rfl⟩
    · exact ⟨.inl, fun h => h.resolve_right hbad⟩
  rw [evaluate_eq hspeed, ← (sameFans_afterAlarms (inp.directionVal = 1) (temps inp) s).fanFail, ← hcheck]
  split_ifs
  · rw [(samePolicy_changeLevel inp _ _ _).fanFail]
  · rfl

/-- The check does not forget that a fan has failed. -/
theorem fanFail_check (hspeed : s.fanState.Speed) (h : s.fanFail = true) :
    (check inp s).2.fanFail = true := by
  unfold check
  split
  · rw [(samePolicy_percentageSet inp _ _ _).fanFail]
    exact h
  · split_ifs
    · exact (fanFail_evaluate (s := { s with currentDutyCycle := regValToDutyCycle s.pwm }) hspeed).mpr
        (.inl h)
    · exact h

/-- A call does not forget that a fan has failed. -/
theorem fanFail_manageFans (hspeed : s.fanState.Speed) (h : s.fanFail = true) :
    (manageFans inp s).2.fanFail = true := by
  rw [manageFans, if_neg hspeed.ne_init]
  split_ifs
  · exact h
  · exact fanFail_check (s := { s with countCheck := 0 }) hspeed h

/-- **A run behind a failed fan** keeps the register at full speed. -/
theorem full_run : ∀ (calls : List Inputs) (s : State), (∀ inp ∈ calls, inp.write = .takes) →
    Covered full s → s.fanFail = true → (run calls s).shown = 100
  | [], _, _, h, hfail => h.failed hfail
  | inp :: calls, _, hwrites, h, hfail =>
      full_run calls _ (fun i hi => hwrites i (List.mem_cons_of_mem _ hi))
        (covered_manageFans (hwrites inp List.mem_cons_self) h) (fanFail_manageFans h.speed hfail)

/-- **A failed fan is not forgotten**: behind a check that sees a fan that is bad the fans blow at full speed,
    in every run in which all writes take, and also when the fan has been replaced. -/
theorem full_after_failure (pwm : UInt8) (first : Inputs) (calls : List Inputs) (inp : Inputs)
    (calls' : List Inputs) (hwrites : ∀ i ∈ first :: (calls ++ inp :: calls'), i.write = .takes)
    (hchecks : Checks inp (run (first :: calls) (.start pwm))) {i : Nat} (hi : 1 ≤ i ∧ i ≤ 6)
    (hbad : badFan inp i = true) : (run (first :: (calls ++ inp :: calls')) (.start pwm)).shown = 100 := by
  have hrest : ∀ i ∈ calls ++ inp :: calls', i.write = .takes :=
    fun i hi => hwrites i (List.mem_cons_of_mem _ hi)
  have hbefore := covered_run calls _ (fun i hi => hrest i (List.mem_append_left _ hi)) (covered_first pwm)
  rw [← run_first first] at hbefore
  rw [← List.cons_append, run_append]
  show (run calls' (manageFans inp _).2).shown = 100
  refine full_run calls' _ (fun i hi => hrest i (List.mem_append_right _ (List.mem_cons_of_mem _ hi)))
    (covered_manageFans (hrest inp (List.mem_append_right _ List.mem_cons_self)) hbefore) ?_
  rw [manageFans_of_checks hchecks]
  exact (fanFail_evaluate (s := State.read _) hbefore.speed).mpr
    (.inr ⟨i, List.mem_range'_1.mpr (by omega), hbad⟩)

/-- The fan 4 stands still once. -/
def stalled : Inputs :=
  { quiet with fan := fun i => if i = 4 then { wellFan with fault := some 1 } else wellFan }

/-- The third quiet call is one that evaluates. -/
theorem checks_quiet : Checks stalled (run (List.replicate 3 quiet) (.start 0)) where
  started := by decide
  third := by decide
  temps := by decide
  duty := rfl

/-- One stalled fan, and six quiet calls behind it. -/
theorem full_after_failure_stalled :
    (run (quiet :: (List.replicate 2 quiet ++ stalled :: List.replicate 6 quiet)) (.start 0)).shown = 100 :=
  full_after_failure 0 quiet (List.replicate 2 quiet) stalled (List.replicate 6 quiet)
    (by simp [stalled, quiet]) checks_quiet (i := 4) (by decide) (by decide)

end DentOS.As9716
