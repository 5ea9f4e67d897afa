/-
  Transition relations: what holds of everything reached from a state.

  `Relation.ReflTransGen` is the reachability of Mathlib; this file adds the two rules by which a
  verification uses it.  `invariant` is the induction over a run: what holds at the start and is
  kept by every step holds wherever the run gets.  `forall_reached_iff` is the same thing read from
  the front, as a loop sees it: a property holds of everything a state reaches when it holds of the
  state and of everything its successors reach.
-/
import Mathlib.Logic.Relation

namespace Transition

open Relation

variable {σ : Type _} {step : σ → σ → Prop}

/-- **The invariant rule.** -/
theorem invariant {inv : σ → Prop} (hstep : ∀ s s', inv s → step s s' → inv s') {s s' : σ}
    (h : ReflTransGen step s s') (hs : inv s) : inv s' := by
  induction h with
  | refl => exact hs
  | tail _ hst ih => exact hstep _ _ ih hst

/-- A property of everything reached, from the front. -/
theorem forall_reached_iff {P : σ → Prop} {s : σ} :
    (∀ t, ReflTransGen step s t → P t)
      ↔ P s ∧ ∀ s', step s s' → ∀ t, ReflTransGen step s' t → P t := by
  constructor
  · intro h
    exact ⟨h s ReflTransGen.refl, fun s' hs' t ht => h t (ReflTransGen.head hs' ht)⟩
  · rintro ⟨hs, hsucc⟩ t ht
    rcases ReflTransGen.cases_head ht with rfl | ⟨s', hs', ht'⟩
    · exact hs
    · exact hsucc s' hs' t ht'

/-- The same for a state with one successor. -/
theorem forall_reached_of_next {P : σ → Prop} {s n : σ} (hn : ∀ s', step s s' ↔ s' = n) :
    (∀ t, ReflTransGen step s t → P t) ↔ P s ∧ ∀ t, ReflTransGen step n t → P t := by
  rw [forall_reached_iff]
  refine and_congr_right fun _ => ⟨fun h => h n ((hn n).mpr rfl), fun h s' hs' => ?_⟩
  rw [(hn s').mp hs']
  exact h

/-- The same for a state with no successor. -/
theorem forall_reached_of_stuck {P : σ → Prop} {s : σ} (hn : ∀ s', ¬ step s s') :
    (∀ t, ReflTransGen step s t → P t) ↔ P s := by
  rw [forall_reached_iff]
  exact ⟨fun h => h.1, fun h => ⟨h, fun s' hs' => absurd hs' (hn s')⟩⟩

end Transition
