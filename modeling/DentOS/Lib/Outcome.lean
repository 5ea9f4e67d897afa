/-
  Outcomes of programs that may not come back.

  A program that is run for a bounded number of loop passes has returned, has raised an exception, or
  is still running.  `Outcome ε α` is that three-way answer; sequencing stops at the first part that
  raises or is still running.  Giving a program more passes can only turn `running` into something
  else: `Approx` is that order, and sequencing respects it (`approx_bind`), so one argument per loop
  shows that an answer, once there, does not depend on the bound.
-/

/-- What a program with fuel comes to. -/
inductive Outcome (ε α : Type) where
  | returned (a : α)
  | raised (e : ε)
  | running
  deriving DecidableEq

namespace Outcome

variable {ε α β : Type}

/-- One program behind the other. -/
def bind : Outcome ε α → (α → Outcome ε β) → Outcome ε β
  | returned a, f => f a
  | raised e, _ => raised e
  | running, _ => running

instance : Monad (Outcome ε) where
  pure := returned
  bind := bind

@[simp] theorem pure_eq (a : α) : (pure a : Outcome ε α) = returned a := rfl

@[simp] theorem returned_bind (a : α) (f : α → Outcome ε β) :
    (returned a : Outcome ε α) >>= f = f a := rfl

@[simp] theorem raised_bind (e : ε) (f : α → Outcome ε β) :
    (raised e : Outcome ε α) >>= f = raised e := rfl

@[simp] theorem running_bind (f : α → Outcome ε β) :
    (running : Outcome ε α) >>= f = running := rfl

/-- What a sequence of two programs returned, the first returned on the way. -/
theorem bind_eq_returned {x : Outcome ε α} {f : α → Outcome ε β} {b : β}
    (h : x >>= f = returned b) : ∃ a, x = returned a ∧ f a = returned b := by
  cases x with
  | returned a => exact ⟨a, rfl, h⟩
  | raised e => exact absurd h (by simp)
  | running => exact absurd h (by simp)

/-- A sequence is still running when its first part is, or when its second part is. -/
theorem bind_eq_running {x : Outcome ε α} {f : α → Outcome ε β} :
    x >>= f = running ↔ x = running ∨ ∃ a, x = returned a ∧ f a = running := by
  cases x with
  | returned a => simp
  | raised e => simp
  | running => simp

/-! ## More passes -/

/-- `x` is `y`, seen before it came to an end or not. -/
def Approx (x y : Outcome ε α) : Prop := x = running ∨ x = y

/-- Every outcome approximates itself. -/
theorem Approx.refl (x : Outcome ε α) : Approx x x := Or.inr rfl

/-- An outcome that is not running approximates itself alone. -/
theorem Approx.eq {x y : Outcome ε α} (h : Approx x y) (hx : x ≠ running) : x = y :=
  h.resolve_left hx

/-- What is still running approximates everything. -/
theorem approx_running (x : Outcome ε α) : Approx running x := Or.inl rfl

/-- **Sequencing respects the order.** -/
theorem approx_bind {x y : Outcome ε α} {f g : α → Outcome ε β} (hxy : Approx x y)
    (hfg : ∀ a, Approx (f a) (g a)) : Approx (x >>= f) (y >>= g) := by
  rcases hxy with rfl | rfl
  · exact approx_running _
  · cases x with
    | returned a => exact hfg a
    | raised e => exact Approx.refl _
    | running => exact Approx.refl _

end Outcome
