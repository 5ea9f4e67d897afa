/-
  The fans of the AS9716-32D do not flutter.

  The temperature at which the fans go up lies above the one at which they come down, for every thermometer
  (`hysteresis_min`, `hysteresis_max`).  So the levels are a ladder with its rungs apart, and the policy walks
  on it (`walk_calls`): `changes_mul_hysteresis_le` bounds the changes of level by the way that the readings
  go.  The load of the power supplies, which counts with the air from front to back only, is one coordinate
  more of a reading, and a change of it is as good as one of a temperature by the hysteresis.

  Nothing here is proved about the loops of the check: `nextLevel` is known from As9716Levels, and the ladder
  from Lib.Ladder, with the readings for its samples.
-/
import Mathlib
import DentOS.Lib.Ladder
import DentOS.Fans.As9716Speed
import DentOS.Fans.As9716Alarms

namespace DentOS.As9716

/-- The temperatures, and the load. -/
abbrev Sample : Type := (Fin 8 → ℤ) × ℤ

/-- How far the limits for up and for down are apart at least, in thousandths of a degree. -/
def hysteresis (afi : Bool) : ℤ := if afi then 3500 else 7900

/-- The readings of a check. -/
def sample (afi : Bool) (inp : Inputs) : Sample :=
  (temps inp, if ¬ afi ∧ checkPsuLoading inp then hysteresis afi else 0)

/-- The rung of a level. -/
def Level.rung : Level → ℕ
  | .min => 0
  | .mid => 1
  | _ => 2

/-- From the middle speed to full speed, in the table of the air's direction. -/
def midToMax (afi : Bool) : Fin 8 → ℤ :=
  if afi then afiThermalSpec.midToMaxTemp else afoThermalSpec.midToMaxTemp

/-- From full speed back to the middle one, in the same table. -/
def maxToMid (afi : Bool) : Fin 8 → ℤ :=
  if afi then afiThermalSpec.maxToMidTemp else afoThermalSpec.maxToMidTemp

/-- The levels as a ladder. -/
def ladder (afi : Bool) : Ladder.Rungs Sample where
  up r x :=
    r = 0 ∧ ¬ afi ∧ (hysteresis afi ≤ x.2 ∨ Hot afoThermalSpec.minToMidTemp x.1)
      ∨ r = 1 ∧ Hot (midToMax afi) x.1
  down r x :=
    r = 0 ∧ ¬ afi ∧ x.2 ≤ 0 ∧ Cool afoThermalSpec.midToMinTemp x.1
      ∨ r = 1 ∧ Cool (maxToMid afi) x.1

/-! ## The limits between which the level can flutter -/

/-- The gap is a gap. -/
theorem hysteresis_nonneg (afi : Bool) : 0 ≤ hysteresis afi := by
  cases afi <;> decide

/-- Between the lowest speed and the middle one the gap is at least the hysteresis. -/
theorem hysteresis_min (i : Fin 8) :
    afoThermalSpec.midToMinTemp i + hysteresis false ≤ afoThermalSpec.minToMidTemp i := by
  revert i
  decide

/-- Between the middle speed and full speed the gap is at least the hysteresis. -/
theorem hysteresis_max (afi : Bool) (i : Fin 8) : maxToMid afi i + hysteresis afi ≤ midToMax afi i := by
  revert i
  cases afi <;> decide

/-- Of two readings one is too hot and the other cool enough. -/
theorem le_dist_of_hot {gap : ℤ} {high low : Fin 8 → ℤ} (hgap : ∀ i, low i + gap ≤ high i) {x y : Sample}
    (hhot : Hot high x.1) (hcool : Cool low y.1) : (gap : ℝ) ≤ dist x y := by
  obtain ⟨i, hi⟩ := hhot
  have hxy : gap ≤ x.1 i - y.1 i := by
    have := hgap i
    have := hcool i
    omega
  calc (gap : ℝ) ≤ ((x.1 i - y.1 i : ℤ) : ℝ) := Int.cast_le.mpr hxy
    _ ≤ dist (x.1 i) (y.1 i) := by
        rw [Int.dist_eq, ← Int.cast_sub]
        exact le_abs_self _
    _ ≤ dist x.1 y.1 := dist_le_pi_dist x.1 y.1 i
    _ ≤ dist x y := le_max_left _ _

/-- Of two readings one has the load and the other has not. -/
theorem le_dist_of_load {gap : ℤ} {x y : Sample} (hx : gap ≤ x.2) (hy : y.2 ≤ 0) : (gap : ℝ) ≤ dist x y :=
  calc (gap : ℝ) ≤ ((x.2 - y.2 : ℤ) : ℝ) := Int.cast_le.mpr (by omega)
    _ ≤ dist x.2 y.2 := by
        rw [Int.dist_eq, ← Int.cast_sub]
        exact le_abs_self _
    _ ≤ dist x y := le_max_right _ _

/-- The thresholds are a ladder with the hysteresis between its rungs. -/
theorem separated (afi : Bool) : Ladder.Separated (ladder afi) (hysteresis afi) := by
  rintro r x y (⟨rfl, hafo, hup⟩ | ⟨rfl, hup⟩) (⟨hr, -, hload, hcool⟩ | ⟨hr, hcool⟩)
  -- between 50 and 75 percent the load alone can be what lifts the level
  · obtain rfl : afi = false := by simpa using hafo
    rcases hup with hup | hup
    · exact le_dist_of_load hup hload
    · exact le_dist_of_hot hysteresis_min hup hcool
  · exact absurd hr (by decide)
  · exact absurd hr (by decide)
  · exact le_dist_of_hot (hysteresis_max afi) hup hcool

/-! ## The walk: a check goes at most one rung of a ladder -/

/-- The highest rung is number 2. -/
theorem rung_le (l : Level) : l.rung ≤ 2 := by
  cases l <;> decide

/-- A speed is known by its rung. -/
theorem rung_injective {l l' : Level} (h : l.Speed) (h' : l'.Speed) (heq : l.rung = l'.rung) : l = l' := by
  rcases h with rfl | rfl | rfl <;> rcases h' with rfl | rfl | rfl <;>
    first | rfl | exact absurd heq (by decide)

/-- A reading without full load does not keep the fans up. -/
theorem load_sample_le {afi : Bool} {inp : Inputs} (h : ¬ checkPsuLoading inp) : (sample afi inp).2 ≤ 0 := by
  rw [sample]
  exact (if_neg fun hload => h hload.2).le

/-- A reading with full load is as hot as the way up from the lowest speed asks for. -/
theorem le_load_sample {inp : Inputs} (h : checkPsuLoading inp) : hysteresis false ≤ (sample false inp).2 := by
  rw [sample]
  exact (if_pos ⟨by decide, h⟩).ge

/-- **A check goes at most one rung**, and only where the ladder lets it. -/
theorem move_nextLevel (afi : Bool) (inp : Inputs) {l : Level} (h : l.Speed) :
    Ladder.Move (ladder afi) (sample afi inp) l.rung
      (nextLevel afi (checkPsuLoading inp) (temps inp) l).rung := by
  rcases h with rfl | rfl | rfl
  · rw [nextLevel]
    split_ifs with hup
    · obtain ⟨hafo, hup⟩ := hup
      obtain rfl : afi = false := by simpa using hafo
      exact .rise (n := 0) (.inl ⟨rfl, hafo, hup.imp_left le_load_sample⟩)
    · exact .stay 0
  · cases afi with
    | true =>
        rw [nextLevel, if_pos rfl]
        split_ifs with hhot
        · exact .rise (n := 1) (.inr ⟨rfl, hhot⟩)
        · exact .stay 1
    | false =>
        rw [nextLevel, if_neg (by decide)]
        split_ifs with hhot hcool
        · exact .rise (n := 1) (.inr ⟨rfl, hhot⟩)
        · exact .fall (n := 0) (.inl ⟨rfl, by decide, load_sample_le hcool.2, hcool.1⟩)
        · exact .stay 1
  · show Ladder.Move _ _ 2 (Level.rung (if Cool (maxToMid afi) (temps inp) then .mid else .max))
    split_ifs with hcool
    · exact .fall (n := 1) (.inr ⟨rfl, hcool⟩)
    · exact .stay 2

/-- The readings of the checks in a run. -/
def samples (afi : Bool) : State → List Inputs → List Sample
  | _, [] => []
  | s, inp :: calls =>
      if Checks inp s then sample afi inp :: samples afi (manageFans inp s).2 calls
      else samples afi (manageFans inp s).2 calls

/-- How often the level changes in a run. -/
def levelChanges : State → List Inputs → ℕ
  | _, [] => 0
  | s, inp :: calls =>
      (if (manageFans inp s).2.fanState = s.fanState then 0 else 1) + levelChanges (manageFans inp s).2 calls

/-- **The policy walks on the ladder.** -/
theorem walk_calls {afi : Bool} : ∀ (calls : List Inputs) (s : State),
    (∀ inp ∈ calls, decide (inp.directionVal = 1) = afi) → s.fanState.Speed →
    ∃ ms, Ladder.Walk (ladder afi) s.fanState.rung (samples afi s calls) ms
      ∧ (∀ m ∈ ms, m ≤ 2) ∧ levelChanges s calls = Ladder.changes s.fanState.rung ms
  | [], s, _, _ => ⟨[], .nil _, by simp, rfl⟩
  | inp :: calls, s, hdir, hspeed => by
      obtain ⟨ms, hwalk, hms, hchanges⟩ := walk_calls calls (manageFans inp s).2
        (fun i hi => hdir i (List.mem_cons_of_mem _ hi)) (speed_manageFans hspeed)
      by_cases hchecks : Checks inp s
      · have hnext : (manageFans inp s).2.fanState
            = nextLevel afi (checkPsuLoading inp) (temps inp) s.fanState := by
          rw [manageFans_of_checks hchecks, ← hdir inp List.mem_cons_self]
          exact (evaluate_spec (s := s.read) inp hspeed).1
        have hmove := move_nextLevel afi inp hspeed
        rw [← hnext] at hmove
        refine ⟨(manageFans inp s).2.fanState.rung :: ms, ?_, ?_, ?_⟩
        · rw [samples, if_pos hchecks]
          exact .cons hmove hwalk
        · rintro m (_ | ⟨_, hm⟩)
          · exact rung_le _
          · exact hms m hm
        -- the policy compares levels, the ladder rungs
        · rw [levelChanges, Ladder.changes, hchanges]
          refine congrArg (· + _) (if_congr ⟨fun heq => congrArg Level.rung heq, ?_⟩ rfl rfl)
          exact rung_injective (speed_manageFans hspeed) hspeed
      -- a call that is no check, or cannot read all, leaves the level alone and adds no sample
      · obtain ⟨c, hpolicy, -⟩ := manageFans_of_not_checks hspeed.ne_init hchecks
        have hstay : (manageFans inp s).2.fanState = s.fanState := hpolicy.fanState
        refine ⟨ms, ?_, hms, ?_⟩
        · rw [samples, if_neg hchecks, ← hstay]
          exact hwalk
        · rw [levelChanges, if_pos hstay, Nat.zero_add, hchanges, hstay]

/-- **The fans do not flutter**: while the air flows in one direction, the changes of level are bounded by the
    way that the readings go, from wherever a run has got to. -/
theorem changes_mul_hysteresis_le (pwm : UInt8) (first : Inputs) (calls more : List Inputs) (afi : Bool)
    (hdir : ∀ inp ∈ more, decide (inp.directionVal = 1) = afi) :
    levelChanges (run (first :: calls) (.start pwm)) more * (hysteresis afi : ℝ)
      ≤ 2 * (Ladder.travel (samples afi (run (first :: calls) (.start pwm)) more) + hysteresis afi) := by
  obtain ⟨ms, hwalk, hms, hchanges⟩ := walk_calls more _ hdir (speed_run first calls pwm)
  rw [hchanges]
  exact Ladder.changes_mul_le (Int.cast_nonneg (hysteresis_nonneg afi)) (separated afi) hwalk (rung_le _) hms

/-- Six quiet calls behind one. -/
theorem changes_mul_hysteresis_le_quiet :
    levelChanges (run (quiet :: []) (.start 0)) (List.replicate 6 quiet) * (hysteresis false : ℝ)
      ≤ 2 * (Ladder.travel (samples false (run (quiet :: []) (.start 0)) (List.replicate 6 quiet))
          + hysteresis false) :=
  changes_mul_hysteresis_le 0 quiet [] (List.replicate 6 quiet) false fun inp hinp => by
    rw [List.eq_of_mem_replicate hinp]
    decide

end DentOS.As9716
