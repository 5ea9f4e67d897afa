/-
  The fans of the AS9716-32D come down again.

  While all is calm (`Calm`) every check brings the level down by one, so that after six calls it is 50 percent,
  wherever the run has got to (`comes_down_within`).  The fans follow the level only where it changes
  (`Settles`).  So they may stay fast at 50 percent: if a thermometer could not be read once, full speed has
  been set behind the back of the level, and nothing sets less before the level changes again
  (`full_after_unreadable`).

  A call is a check once in three, so `calm_manageFans` counts down the calls to the next check and the levels
  below, and the bound is the largest value that the count can have.
-/
import DentOS.Fans.As9716Speed

namespace DentOS.As9716

/-! ## Calm readings: every thermometer is below where the level falls -/

/-- The two ways down are at temperatures in their order. -/
theorem afo_min_le_mid (i : Fin 8) : afoThermalSpec.midToMinTemp i ≤ afoThermalSpec.maxToMidTemp i := by
  revert i
  decide

/-- The way down to the lowest speed is below the way up from it. -/
theorem afo_lt_min (i : Fin 8) : afoThermalSpec.midToMinTemp i < afoThermalSpec.minToMidTemp i := by
  revert i
  decide

/-- All can be read, the air goes from front to back, nothing is hot, no power supply has much to do, no fan is
    bad, and a write takes. -/
structure Calm (inp : Inputs) : Prop where
  front : inp.directionVal = 0
  readable : ∀ k, (thermaliInfoGet inp (thermalIds k)).isSome
  duty : (inp.dutyOpens && inp.dutyReads) = true
  cool : Cool afoThermalSpec.midToMinTemp (temps inp)
  light : checkPsuLoading inp = false
  fans : ∀ i, 1 ≤ i → i ≤ 6 → badFan inp i = false
  takes : inp.write = .takes

/-- One level down. -/
def Level.down : Level → Level
  | .max => .mid
  | _ => .min

/-- The levels down to 50 percent. -/
def Level.above : Level → Nat
  | .max => 2
  | .mid => 1
  | _ => 0

/-- No fan has failed, and the fans are at the level's speed, unless the level is still to come down. -/
def Settles (s : State) : Prop := s.fanFail = false ∧ (s.fanState ≠ .min ∨ s.shown = s.fanState.dutyCycle)

variable {s : State} {inp : Inputs}

/-- When all is calm the speed goes down by one. -/
theorem nextLevel_calm (h : Calm inp) {l : Level} (hl : l.Speed) :
    nextLevel (inp.directionVal = 1) (checkPsuLoading inp) (temps inp) l = l.down := by
  have hafi : decide (inp.directionVal = 1) = false := by
    rw [h.front]
    rfl
  have hmin : ¬ Hot afoThermalSpec.minToMidTemp (temps inp) := fun ⟨i, hi⟩ => by
    have := h.cool i
    have := afo_lt_min i
    omega
  have hmid : ¬ Hot afoThermalSpec.midToMaxTemp (temps inp) := fun ⟨i, hi⟩ => by
    have := h.cool i
    have := afo_lt_mid i
    omega
  have hmax : Cool afoThermalSpec.maxToMidTemp (temps inp) := fun i =>
    Int.le_trans (h.cool i) (afo_min_le_mid i)
  rw [hafi, h.light]
  rcases hl with rfl | rfl | rfl
  · simp [nextLevel, hmin, Level.down]
  · simp [nextLevel, hmid, h.cool, Level.down]
  · simp [nextLevel, hmax, Level.down]

/-- Fans that are well change nothing. -/
theorem checkFans_of_well (h : Calm inp) (s : State) : checkFans inp s = s := by
  refine if_neg fun hany => ?_
  obtain ⟨i, hi, hbad⟩ := List.any_eq_true.mp hany
  obtain ⟨hle, hlt⟩ := List.mem_range'_1.mp hi
  rw [h.fans i hle (by omega)] at hbad
  cases hbad

/-! ## Checks and calls under calm readings

  Each check takes the level down by one; a call is a check once in every few. -/

/-- **A check** brings the level down by one, and the fans with it. -/
theorem settles_evaluate (h : Calm inp) (hspeed : s.fanState.Speed) (hcurrent : s.currentDutyCycle = s.shown)
    (hsettles : Settles s) : Settles (evaluate inp s) := by
  obtain ⟨hfail, hshown⟩ := hsettles
  have halarms := sameFans_afterAlarms (inp.directionVal = 1) (temps inp) s
  have heq := @evaluate_eq s inp hspeed
  dsimp only at heq
  rw [nextLevel_calm h hspeed, checkFans_of_well h] at heq
  rw [heq]
  generalize afterAlarms (inp.directionVal = 1) (temps inp) s = a at halarms
  have hfail' : ¬ a.fanFail = true := by
    rw [halarms.fanFail, hfail]
    decide
  split_ifs with hne
  · have hpolicy := samePolicy_changeLevel inp inp.directionVal s.fanState.down a
    have hdown : s.fanState.down.Speed := by
      rcases hspeed with hl | hl | hl <;> rw [hl]
      · exact .inl rfl
      · exact .inl rfl
      · exact .inr (.inl rfl)
    have hduty : getDutyCycleByFanState s.fanState.down inp.directionVal = s.fanState.down.dutyCycle := by
      rw [h.front]
      rcases hspeed with hl | hl | hl <;> rw [hl] <;> rfl
    refine ⟨(hpolicy.fanFail.trans halarms.fanFail).trans hfail, .inr ?_⟩
    rw [hpolicy.fanState]
    exact shown_changeLevel h.takes hdown hduty hfail'
      (halarms.currentDutyCycle.trans (hcurrent.trans halarms.shown.symm))
  · -- the level is 50 percent already
    have hmin : s.fanState = .min := by
      rcases hspeed with hl | hl | hl
      · exact hl
      · rw [hl] at hne
        exact absurd (by decide) hne
      · rw [hl] at hne
        exact absurd (by decide) hne
    refine ⟨halarms.fanFail.trans hfail, .inr ?_⟩
    rw [halarms.shown, halarms.fanState]
    exact hshown.resolve_left fun hnot => hnot hmin

/-- One speed down is one less above the lowest. -/
theorem above_down {l : Level} (h : l.Speed) : l.down.above = l.above - 1 := by
  rcases h with rfl | rfl | rfl <;> rfl

/-- **One call, nearer to 50 percent.** -/
theorem calm_manageFans (h : Calm inp) (hspeed : s.fanState.Speed) (hcount : s.countCheck < checkTimes) :
    3 * (manageFans inp s).2.fanState.above
        ≤ 3 * s.fanState.above - (s.countCheck + 1) + (manageFans inp s).2.countCheck
      ∧ (Settles s → Settles (manageFans inp s).2) := by
  have htimes : checkTimes = 3 := rfl
  by_cases hchecks : Checks inp s
  · obtain ⟨hlevel, -⟩ := evaluate_spec (s := s.read) inp hspeed
    have hthird := hchecks.third
    rw [manageFans_of_checks hchecks]
    refine ⟨?_, fun hsettles => settles_evaluate h (s := s.read) hspeed rfl hsettles⟩
    rw [hlevel, show s.read.fanState = s.fanState from rfl, nextLevel_calm h hspeed, above_down hspeed]
    dsimp only
    omega
  · -- all can be read, so the call is not the third, and only counts
    have hless : s.countCheck + 1 < checkTimes :=
      Nat.lt_of_not_le fun hthird => hchecks ⟨hspeed.ne_init, hthird, h.readable, h.duty⟩
    have hstep : (manageFans inp s).2 = { s with countCheck := s.countCheck + 1 } := by
      rw [manageFans, if_neg hspeed.ne_init, if_pos hless]
    rw [hstep]
    refine ⟨?_, fun hsettles => hsettles⟩
    dsimp only
    omega

/-! ## Runs: how many calls it takes to come down -/

/-- Every three calm calls take one step down. -/
theorem calm_run : ∀ (more : List Inputs) (s : State), (∀ inp ∈ more, Calm inp) → s.fanState.Speed →
    s.countCheck < checkTimes → 3 * s.fanState.above ≤ s.countCheck + more.length →
    (run more s).fanState = .min ∧ (Settles s → Settles (run more s))
  | [], s, _, hspeed, hcount, hgo => by
      have htimes : checkTimes = 3 := rfl
      rw [List.length_nil] at hgo
      refine ⟨?_, id⟩
      show s.fanState = .min
      rcases hspeed with hl | hl | hl
      · exact hl
      · rw [hl, show Level.mid.above = 1 from rfl] at hgo
        omega
      · rw [hl, show Level.max.above = 2 from rfl] at hgo
        omega
  | inp :: more, s, h, hspeed, hcount, hgo => by
      obtain ⟨hnearer, hstep⟩ := calm_manageFans (h inp List.mem_cons_self) hspeed hcount
      rw [List.length_cons] at hgo
      obtain ⟨hmin, hrun⟩ := calm_run more (manageFans inp s).2 (fun i hi => h i (List.mem_cons_of_mem _ hi))
        (speed_manageFans hspeed) (countCheck_manageFans hspeed) (by omega)
      exact ⟨hmin, fun hsettles => hrun (hstep hsettles)⟩

/-- **The fans come down**: after six calls in which all is calm the level is 50 percent, from wherever a run
    has got to, and whatever could be read and written before.  The fans are at 50 percent too, if none has
    failed and the level had still to come down: a level that stays is not written again. -/
theorem comes_down_within (pwm : UInt8) (first : Inputs) (calls more : List Inputs)
    (hlong : 6 ≤ more.length) (h : ∀ inp ∈ more, Calm inp) :
    (run (first :: calls ++ more) (.start pwm)).fanState = .min
      ∧ ((run (first :: calls) (.start pwm)).fanFail = false →
        (run (first :: calls) (.start pwm)).fanState ≠ .min →
        (run (first :: calls ++ more) (.start pwm)).shown = 50) := by
  have hspeed : (run (first :: calls) (.start pwm)).fanState.Speed := speed_run first calls pwm
  have habove : (run (first :: calls) (.start pwm)).fanState.above ≤ 2 := by
    rcases hspeed with hl | hl | hl <;> rw [hl] <;> decide
  rw [run_append]
  obtain ⟨hmin, hsettles⟩ := calm_run more _ h hspeed (countCheck_run first calls pwm) (by omega)
  refine ⟨hmin, fun hfail hlevel => ?_⟩
  have hshown := (hsettles ⟨hfail, .inl hlevel⟩).2.resolve_left (not_not.mpr hmin)
  rw [hshown, hmin]
  rfl

/-- A quiet switch is calm. -/
theorem calm_quiet : Calm quiet where
  front := rfl
  readable := by decide
  duty := rfl
  cool := by decide
  light := by decide
  fans _ _ _ := rfl
  takes := rfl

/-- Six quiet calls behind one. -/
theorem comes_down_within_quiet :
    (run (quiet :: [] ++ List.replicate 6 quiet) (.start 0)).fanState = .min
      ∧ ((run (quiet :: []) (.start 0)).fanFail = false → (run (quiet :: []) (.start 0)).fanState ≠ .min →
        (run (quiet :: [] ++ List.replicate 6 quiet) (.start 0)).shown = 50) :=
  comes_down_within 0 quiet [] (List.replicate 6 quiet) (by decide) fun inp hinp => by
    rw [List.eq_of_mem_replicate hinp]
    exact calm_quiet

/-! ## Full speed behind the back of the level -/

/-- Setting full speed does it, or nothing. -/
theorem shown_percentageSet (inp : Inputs) (fid : Nat) (s : State) :
    (faniPercentageSet inp fid 100 s).2.shown = s.shown ∨ (faniPercentageSet inp fid 100 s).2.shown = 100 := by
  by_cases hfid : 1 ≤ fid ∧ fid ≤ 6
  · cases hwrite : inp.write with
    | takes =>
        rw [percentageSet_takes hwrite hfid (by decide)]
        exact .inr (shown_set (by decide) s)
    | fails =>
        rw [faniPercentageSet, if_neg (by decide), if_neg (by omega), if_pos hfid, hwrite]
        exact .inl rfl
    | dropped =>
        rw [faniPercentageSet, if_neg (by decide), if_neg (by omega), if_pos hfid, hwrite]
        exact .inl rfl
  · rw [faniPercentageSet, if_neg (by decide)]
    split_ifs <;> exact .inl rfl

/-- The check of the fans leaves the duty cycle, or sets it to full. -/
theorem shown_checkFans (inp : Inputs) (s : State) :
    (checkFans inp s).shown = s.shown ∨ (checkFans inp s).shown = 100 := by
  unfold checkFans fullSpeed
  split_ifs
  · exact shown_percentageSet inp 1 s
  · exact .inl rfl
  · exact .inl rfl

/-- **A call that leaves the level alone** does not make the fans slower. -/
theorem shown_manageFans (hspeed : s.fanState.Speed) (hstays : (manageFans inp s).2.fanState = s.fanState) :
    (manageFans inp s).2.shown = s.shown ∨ (manageFans inp s).2.shown = 100 := by
  by_cases hchecks : Checks inp s
  · obtain ⟨hlevel, -⟩ := evaluate_spec (s := s.read) inp hspeed
    have halarms := sameFans_afterAlarms (inp.directionVal = 1) (temps inp) s.read
    have heq := @evaluate_eq s.read inp hspeed
    rw [manageFans_of_checks hchecks] at hstays ⊢
    dsimp only at hstays heq ⊢
    rw [heq, if_neg (show ¬ _ ≠ s.read.fanState from not_not.mpr (hlevel.symm.trans hstays))]
    have hfans := shown_checkFans inp (afterAlarms (inp.directionVal = 1) (temps inp) s.read)
    rw [halarms.shown] at hfans
    exact hfans
  · rw [manageFans, if_neg hspeed.ne_init]
    split_ifs with hcount
    · exact .inl rfl
    · unfold check
      split
      · exact shown_percentageSet inp _ { s with countCheck := 0 }
      · next hnone =>
          split_ifs with hduty
          · exact absurd ⟨hspeed.ne_init, Nat.not_lt.mp hcount, readable_of_none hnone, hduty⟩ hchecks
          · exact .inl rfl

/-- The level is the same behind every call. -/
def LevelStays : State → List Inputs → Prop
  | _, [] => True
  | s, inp :: calls => (manageFans inp s).2.fanState = s.fanState ∧ LevelStays (manageFans inp s).2 calls

instance decidableLevelStays : ∀ (s : State) (calls : List Inputs), Decidable (LevelStays s calls)
  | _, [] => inferInstanceAs (Decidable True)
  | s, inp :: calls =>
      have := decidableLevelStays (manageFans inp s).2 calls
      inferInstanceAs (Decidable (_ ∧ _))

/-- At full speed the duty cycle stays there while the level does. -/
theorem full_while_level_stays (calls : List Inputs) (s : State) (hspeed : s.fanState.Speed)
    (hfull : s.shown = 100) (hstays : LevelStays s calls) : (run calls s).shown = 100 := by
  induction calls generalizing s with
  | nil => exact hfull
  | cons inp calls ih =>
      obtain ⟨hstay, hstays⟩ := hstays
      have hshown : (manageFans inp s).2.shown = 100 := by
        rcases shown_manageFans hspeed hstay with h | h
        · exact h.trans hfull
        · exact h
      exact ih (manageFans inp s).2 (speed_manageFans hspeed) hshown hstays

/-- The first thermometer that cannot be read, if there is one. -/
def unreadable (inp : Inputs) : Option (Fin 8) :=
  (List.finRange 8).find? fun i => (thermaliInfoGet inp (thermalIds i)).isNone

/-- **One reading that fails** makes the fans go at full speed until the level changes, however cool all is and
    however well it can be read again: if the thermometer has one of the numbers of the fans, and the write
    takes. -/
theorem full_after_unreadable (pwm : UInt8) (first : Inputs) (calls : List Inputs) (inp : Inputs)
    (more : List Inputs) (hthird : checkTimes ≤ (run (first :: calls) (.start pwm)).countCheck + 1)
    {i : Fin 8} (hi : unreadable inp = some i) (hfan : thermalIds i ≤ 6) (hwrite : inp.write = .takes)
    (hstays : LevelStays (run (first :: (calls ++ [inp])) (.start pwm)) more) :
    (run (first :: (calls ++ inp :: more)) (.start pwm)).shown = 100 := by
  have hspeed := speed_run first calls pwm
  have hone : ∀ k, 1 ≤ thermalIds k := by decide
  have hsplit : first :: (calls ++ inp :: more) = (first :: (calls ++ [inp])) ++ more := by simp
  rw [hsplit, run_append]
  refine full_while_level_stays more _ (speed_run first _ pwm) ?_ hstays
  rw [← List.cons_append, run_append]
  generalize run (first :: calls) (.start pwm) = s at hthird hspeed
  show (manageFans inp s).2.shown = 100
  rw [manageFans, if_neg hspeed.ne_init, if_neg (Nat.not_lt.mpr hthird), check]
  rw [unreadable] at hi
  rw [hi]
  dsimp only
  rw [percentageSet_takes hwrite ⟨hone i, hfan⟩ (by decide)]
  exact shown_set (by decide) _

/-- The thermometer 5 cannot be read. -/
def blinded : Inputs := { quiet with lm75 := fun tid => if tid = 5 then none else some 30000 }

/-- One fan that cannot be read, between quiet calls. -/
theorem full_after_unreadable_blinded :
    (run (quiet :: (List.replicate 8 quiet ++ blinded :: List.replicate 6 quiet)) (.start 0)).shown = 100 :=
  full_after_unreadable 0 quiet (List.replicate 8 quiet) blinded (List.replicate 6 quiet) (by decide)
    (i := 7) (by decide) (by decide) rfl (by decide)

end DentOS.As9716
