/-
  Tests that a stream passes one after the other.

  Each element of the stream is tried on the next test only, and either passes it or is dropped.
  `le_passed_iff`: this loses nothing.  The first `k` tests are passed as soon as any elements of the stream
  pass them in this order.
-/
import Mathlib.Data.List.Forall2
import Mathlib.Data.List.Induction

namespace Stages

variable {α : Type _}

/-- How many tests the stream has passed. -/
def passed : List (α → Bool) → List α → Nat
  | [], _ => 0
  | _ :: _, [] => 0
  | p :: ps, x :: xs => if p x then passed ps xs + 1 else passed (p :: ps) xs

/-- Some elements of the stream pass the tests, in this order. -/
def InOrder (ps : List (α → Bool)) (xs : List α) : Prop :=
  ∃ ys, ys.Sublist xs ∧ List.Forall₂ (fun p y => p y = true) ps ys

variable {p : α → Bool} {ps : List (α → Bool)} {x : α} {xs : List α}

@[simp] theorem passed_no_tests (xs : List α) : passed ([] : List (α → Bool)) xs = 0 := by
  cases xs <;> rfl

@[simp] theorem passed_nil (ps : List (α → Bool)) : passed ps [] = 0 := by
  cases ps <;> rfl

/-- A test that is passed is done with. -/
theorem passed_cons_pos (h : p x = true) : passed (p :: ps) (x :: xs) = passed ps xs + 1 := by
  rw [passed, if_pos h]

/-- One that is not is tried again. -/
theorem passed_cons_neg (h : ¬ p x = true) : passed (p :: ps) (x :: xs) = passed (p :: ps) xs := by
  rw [passed, if_neg h]

/-- No more tests are passed than there are. -/
theorem passed_le : ∀ (ps : List (α → Bool)) (xs : List α), passed ps xs ≤ ps.length
  | [], xs => Nat.le_of_eq (passed_no_tests xs)
  | _ :: _, [] => Nat.zero_le _
  | p :: ps, x :: xs => by
      by_cases h : p x = true
      · rw [passed_cons_pos h]
        exact Nat.succ_le_succ (passed_le ps xs)
      · rw [passed_cons_neg h]
        exact passed_le (p :: ps) xs

/-- The next test, on the next element. -/
theorem passed_concat (ps : List (α → Bool)) (x : α) : ∀ xs : List α,
    passed ps (xs ++ [x]) = passed ps xs + if (ps[passed ps xs]?).any (fun p => p x) then 1 else 0 := by
  intro xs
  induction xs generalizing ps with
  | nil =>
      cases ps with
      | nil => rfl
      | cons p ps =>
          by_cases h : p x = true
          · simp [passed, h]
          · simp [passed, h]
  | cons y ys ih =>
      cases ps with
      | nil => rfl
      | cons p ps =>
          rw [List.cons_append]
          by_cases h : p y = true
          · rw [passed_cons_pos h, passed_cons_pos h, ih ps, List.getElem?_cons_succ]
            omega
          · rw [passed_cons_neg h, passed_cons_neg h, ih (p :: ps)]

/-- More elements pass no fewer tests, by induction on the elements. -/
theorem passed_le_append (ps : List (α → Bool)) (xs : List α) : ∀ ys : List α,
    passed ps xs ≤ passed ps (xs ++ ys) := by
  intro ys
  induction ys using List.reverseRecOn with
  | nil => exact Nat.le_of_eq (by rw [List.append_nil])
  | append_singleton ys y ih =>
      rw [← List.append_assoc, passed_concat]
      exact Nat.le_trans ih (Nat.le_add_right _ _)

/-- What passes all tests adds one, as long as there are tests. -/
theorem lt_passed_append (hmore : passed ps xs < ps.length) {ys : List α} {y : α} (hy : y ∈ ys)
    (hall : ∀ p ∈ ps, p y = true) : passed ps xs < passed ps (xs ++ ys) := by
  obtain ⟨zs, zs', rfl⟩ := List.append_of_mem hy
  have hle := passed_le_append ps xs zs
  have hle' := passed_le_append ps (xs ++ zs ++ [y]) zs'
  have hassoc : xs ++ (zs ++ y :: zs') = xs ++ zs ++ [y] ++ zs' := by simp
  rw [hassoc]
  by_cases hlt : passed ps xs < passed ps (xs ++ zs)
  · exact Nat.lt_of_lt_of_le hlt (Nat.le_trans (passed_le_append ps (xs ++ zs) [y]) hle')
  · have heq : passed ps (xs ++ zs) = passed ps xs := by omega
    have hnext : (ps[passed ps (xs ++ zs)]?).any (fun p => p y) = true := by
      rw [heq, List.getElem?_eq_getElem hmore]
      exact hall _ (List.getElem_mem hmore)
    rw [passed_concat, if_pos hnext] at hle'
    omega

/-- No tests are passed by anything. -/
theorem inOrder_nil (xs : List α) : InOrder [] xs := ⟨[], List.nil_sublist xs, .nil⟩

/-- Without elements no test is passed. -/
theorem not_inOrder_nil (p : α → Bool) (ps : List (α → Bool)) : ¬ InOrder (p :: ps) [] := by
  rintro ⟨ys, hsub, hall⟩
  rw [List.sublist_nil.mp hsub] at hall
  cases hall

/-- The first element passes the first test. -/
theorem inOrder_cons_pos (h : p x = true) : InOrder (p :: ps) (x :: xs) ↔ InOrder ps xs := by
  constructor
  · rintro ⟨_, hsub, hall⟩
    cases hall with
    | cons hy hall =>
        exact ⟨_, hsub.tail, hall⟩
  · rintro ⟨ys, hsub, hall⟩
    exact ⟨x :: ys, hsub.cons_cons x, .cons h hall⟩

/-- The first element does not. -/
theorem inOrder_cons_neg (h : ¬ p x = true) : InOrder (p :: ps) (x :: xs) ↔ InOrder (p :: ps) xs := by
  constructor
  · rintro ⟨_, hsub, hall⟩
    cases hall with
    | cons hy hall =>
        cases hsub with
        | cons _ hsub => exact ⟨_, hsub, .cons hy hall⟩
        | cons_cons _ hsub => exact absurd hy h
  · rintro ⟨ys, hsub, hall⟩
    exact ⟨ys, hsub.cons x, hall⟩

/-- **Greedy trying loses nothing.** -/
theorem le_passed_iff : ∀ (k : Nat) (ps : List (α → Bool)) (xs : List α), k ≤ ps.length →
    (k ≤ passed ps xs ↔ InOrder (ps.take k) xs)
  | 0, _, xs, _ => ⟨fun _ => inOrder_nil xs, fun _ => Nat.zero_le _⟩
  | k + 1, [], _, hk => absurd hk (Nat.not_succ_le_zero k)
  | k + 1, p :: ps, [], _ => by
      rw [passed_nil, List.take_succ_cons]
      exact ⟨fun h => absurd h (Nat.not_succ_le_zero k), fun h => absurd h (not_inOrder_nil p _)⟩
  | k + 1, p :: ps, x :: xs, hk => by
      rw [List.take_succ_cons]
      by_cases h : p x = true
      · rw [passed_cons_pos h, inOrder_cons_pos h, Nat.succ_le_succ_iff]
        exact le_passed_iff k ps xs (Nat.le_of_succ_le_succ hk)
      · rw [passed_cons_neg h, inOrder_cons_neg h, ← List.take_succ_cons]
        exact le_passed_iff (k + 1) (p :: ps) xs hk

end Stages
