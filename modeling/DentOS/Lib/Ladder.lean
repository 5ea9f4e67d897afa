/-
  A ladder of levels that is climbed on samples.

  Rung `r` lies between the levels `r` and `r + 1`.  A sample may let a level rise over its rung, and another
  may let it fall back.  If no sample that is near to one that lets rise lets fall (`Separated`), then the
  level cannot flutter: `turns_mul_le` bounds the changes of direction by the way that the samples go, and
  `changes_mul_le` all changes of level.
-/
import Mathlib.Tactic.Linarith
import Mathlib.Tactic.Ring
import Mathlib.Topology.MetricSpace.Pseudo.Defs

namespace Ladder

variable {X : Type _}

/-- Which samples let a level rise over a rung, and which let it fall. -/
structure Rungs (X : Type _) where
  /-- The samples that let the level rise over a rung. -/
  up : ℕ → X → Prop
  /-- Those that let it fall. -/
  down : ℕ → X → Prop

/-- What a sample makes of a level. -/
inductive Move (l : Rungs X) (x : X) : ℕ → ℕ → Prop
  | stay (n : ℕ) : Move l x n n
  | rise {n : ℕ} (h : l.up n x) : Move l x n (n + 1)
  | fall {n : ℕ} (h : l.down n x) : Move l x (n + 1) n

/-- The levels behind the samples. -/
inductive Walk (l : Rungs X) : ℕ → List X → List ℕ → Prop
  | nil (n : ℕ) : Walk l n [] []
  | cons {n m : ℕ} {x : X} {xs : List X} {ms : List ℕ} (h : Move l x n m) (h' : Walk l m xs ms) :
      Walk l n (x :: xs) (m :: ms)

/-- How often the level changes. -/
def changes : ℕ → List ℕ → ℕ
  | _, [] => 0
  | n, m :: ms => (if m = n then 0 else 1) + changes m ms

/-- How often the level changes its direction.  The last change was a rise, a fall, or there was none. -/
def turns : Option Bool → ℕ → List ℕ → ℕ
  | _, _, [] => 0
  | last, n, m :: ms =>
      if m = n then turns last n ms
      else (if last = some (decide (m < n)) then 1 else 0) + turns (some (decide (n < m))) m ms

/-! ## Steps of the counts: a sample counts for a rise, or for a fall -/

variable {last : Option Bool} {n : ℕ} {ms : List ℕ}

/-- Where the level stays nothing turns. -/
theorem turns_stay : turns last n (n :: ms) = turns last n ms := by
  rw [turns, if_pos rfl]

/-- A rise turns if the last move was a fall. -/
theorem turns_rise : turns last n ((n + 1) :: ms)
    = (if last = some false then 1 else 0) + turns (some true) (n + 1) ms := by
  rw [turns, if_neg (Nat.succ_ne_self n), decide_eq_false (by omega), decide_eq_true (by omega)]

/-- A fall turns if the last move was a rise. -/
theorem turns_fall : turns last (n + 1) (n :: ms)
    = (if last = some true then 1 else 0) + turns (some false) n ms := by
  rw [turns, if_neg (by omega), decide_eq_true (by omega), decide_eq_false (by omega)]

/-- Where the level stays nothing changes. -/
theorem changes_stay : changes n (n :: ms) = changes n ms := by
  rw [changes, if_pos rfl, Nat.zero_add]

/-- Where it moves there is one change more. -/
theorem changes_move {m : ℕ} (h : m ≠ n) : changes n (m :: ms) = 1 + changes m ms := by
  rw [changes, if_neg h]

/-! ## Changes and turns -/

/-- What is left to go until the next turn, on a ladder of height `h`. -/
def room (h : ℕ) : Option Bool → ℕ → ℕ
  | some true, n => h - n
  | some false, n => n
  | none, _ => h

/-- **Between two turns a level goes one way only.** -/
theorem changes_le {l : Rungs X} {xs : List X} {h : ℕ} (hwalk : Walk l n xs ms) (hn : n ≤ h)
    (hms : ∀ m ∈ ms, m ≤ h) (last : Option Bool) : changes n ms ≤ room h last n + h * turns last n ms := by
  induction hwalk generalizing last with
  | nil n => exact Nat.zero_le _
  | @cons n m x xs ms hmove hrest ih =>
      have hm : m ≤ h := hms m List.mem_cons_self
      have hrest' : ∀ m' ∈ ms, m' ≤ h := fun m' hm' => hms m' (List.mem_cons_of_mem _ hm')
      cases hmove with
      | stay =>
          rw [changes_stay, turns_stay]
          exact ih hn hrest' last
      | rise _ =>
          have hup := ih hm hrest' (some true)
          have hne : n + 1 ≠ n := Nat.succ_ne_self n
          rw [changes_move hne, turns_rise, Nat.mul_add]
          rcases last with _ | _ | _
          · simp only [room, reduceCtorEq, if_false, Nat.mul_zero] at hup ⊢
            omega
          · simp only [room, if_true, Nat.mul_one] at hup ⊢
            omega
          · simp only [room, Option.some.injEq, Bool.true_eq_false, if_false, Nat.mul_zero] at hup ⊢
            omega
      | fall _ =>
          have hdown := ih hm hrest' (some false)
          rw [changes_move (by omega), turns_fall, Nat.mul_add]
          rcases last with _ | _ | _
          · simp only [room, reduceCtorEq, if_false, Nat.mul_zero] at hdown ⊢
            omega
          · simp only [room, Option.some.injEq, Bool.false_eq_true, if_false, Nat.mul_zero] at hdown ⊢
            omega
          · simp only [room, if_true, Nat.mul_one] at hdown ⊢
            omega

/-! ## Turns, and the way that the samples have to go for one -/

section

variable [PseudoMetricSpace X]

/-- The way from sample to sample. -/
noncomputable def travel : List X → ℝ
  | [] => 0
  | [_] => 0
  | x :: y :: xs => dist x y + travel (y :: xs)

/-- A sample that lets rise and one that lets fall are apart. -/
def Separated (l : Rungs X) (gap : ℝ) : Prop := ∀ r x y, l.up r x → l.down r y → gap ≤ dist x y

/-- The way from one point to the next, and on. -/
theorem travel_cons (x y : X) (xs : List X) : travel (x :: y :: xs) = dist x y + travel (y :: xs) := rfl

/-- The way is never negative. -/
theorem travel_nonneg : ∀ xs : List X, 0 ≤ travel xs
  | [] => le_refl 0
  | [_] => le_refl 0
  | _ :: y :: xs => add_nonneg dist_nonneg (travel_nonneg (y :: xs))

/-- A point in front does not shorten the way. -/
theorem travel_tail_le (x : X) : ∀ xs : List X, travel xs ≤ travel (x :: xs)
  | [] => le_refl 0
  | y :: xs => by
      rw [travel_cons]
      exact le_add_of_nonneg_left dist_nonneg

/-- A sample left out makes the way no longer. -/
theorem travel_skip (x y : X) : ∀ xs : List X, travel (x :: xs) ≤ travel (x :: y :: xs)
  | [] => travel_nonneg _
  | z :: xs => by
      rw [travel_cons, travel_cons, travel_cons, ← add_assoc]
      exact add_le_add_left (dist_triangle x y z) _

/-- The sample of the last change, which was a rise or a fall. -/
inductive Since (l : Rungs X) (y : X) : Bool → ℕ → Prop
  | rise {r : ℕ} (h : l.up r y) : Since l y true (r + 1)
  | fall {r : ℕ} (h : l.down r y) : Since l y false r

variable {l : Rungs X} {gap : ℝ} {xs : List X}

/-- Each turn costs the gap. -/
theorem turns_mul_le_since (hsep : Separated l gap) (hwalk : Walk l n xs ms) {y : X} {b : Bool}
    (hsince : Since l y b n) : turns (some b) n ms * gap ≤ travel (y :: xs) := by
  induction hwalk generalizing y b with
  | nil n =>
      rw [turns, Nat.cast_zero, zero_mul]
      exact travel_nonneg _
  | @cons n m x xs ms hmove hrest ih =>
      cases hmove with
      -- the sample of the last change stays, and the one between is left out
      | stay =>
          rw [turns_stay]
          exact (ih hsince).trans (travel_skip y x xs)
      | rise hup =>
          rw [turns_rise, travel_cons]
          have hgo := ih (.rise hup)
          cases hsince with
          | rise _ =>
              rw [if_neg (by decide), Nat.zero_add]
              exact hgo.trans (le_add_of_nonneg_left dist_nonneg)
          | fall hdown =>
              have hgap : gap ≤ dist y x := dist_comm x y ▸ hsep _ _ _ hup hdown
              rw [if_pos rfl, Nat.cast_add, Nat.cast_one, add_mul, one_mul]
              exact add_le_add hgap hgo
      | fall hdown =>
          rw [turns_fall, travel_cons]
          have hgo := ih (.fall hdown)
          cases hsince with
          | rise hup =>
              have hgap : gap ≤ dist y x := hsep _ _ _ hup hdown
              rw [if_pos rfl, Nat.cast_add, Nat.cast_one, add_mul, one_mul]
              exact add_le_add hgap hgo
          | fall _ =>
              rw [if_neg (by decide), Nat.zero_add]
              exact hgo.trans (le_add_of_nonneg_left dist_nonneg)

/-- **The changes of direction** are bounded by the way of the samples. -/
theorem turns_mul_le (hsep : Separated l gap) (hwalk : Walk l n xs ms) :
    turns none n ms * gap ≤ travel xs := by
  induction hwalk with
  | nil n =>
      rw [turns, Nat.cast_zero, zero_mul]
      exact le_refl 0
  | @cons n m x xs ms hmove hrest ih =>
      cases hmove with
      | stay =>
          rw [turns_stay]
          exact ih.trans (travel_tail_le x xs)
      | rise hup =>
          rw [turns_rise, if_neg (by decide), Nat.zero_add]
          exact turns_mul_le_since hsep hrest (.rise hup)
      | fall hdown =>
          rw [turns_fall, if_neg (by decide), Nat.zero_add]
          exact turns_mul_le_since hsep hrest (.fall hdown)

/-- **The changes of level** are bounded by the way of the samples and the height of the ladder. -/
theorem changes_mul_le {h : ℕ} (hgap : 0 ≤ gap) (hsep : Separated l gap) (hwalk : Walk l n xs ms) (hn : n ≤ h)
    (hms : ∀ m ∈ ms, m ≤ h) : changes n ms * gap ≤ h * (travel xs + gap) := by
  have hturns : (turns none n ms : ℝ) * gap ≤ travel xs := turns_mul_le hsep hwalk
  have hchanges : (changes n ms : ℝ) ≤ h + h * turns none n ms := by
    exact_mod_cast changes_le hwalk hn hms none
  calc (changes n ms : ℝ) * gap ≤ (h + h * turns none n ms) * gap :=
        mul_le_mul_of_nonneg_right hchanges hgap
    _ = h * (turns none n ms * gap + gap) := by ring
    _ ≤ h * (travel xs + gap) :=
        mul_le_mul_of_nonneg_left (by linarith) (Nat.cast_nonneg h)

end

end Ladder
