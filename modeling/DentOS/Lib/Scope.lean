/-
  `with` statements of programs whose effects outlive their exceptions.

  `bracket enter exit body` runs `exit` behind `body` whatever `body` came to, and only if `enter` returned:
  what an `enter` that raised has done by then stays.  An exception of `exit` takes the place of what
  `body` came to.
-/
import DentOS.Lib.Effects

namespace Effects.Prog

variable {σ ε α β : Type}

/-- `exit` behind `body`, whatever it came to. -/
def during (exit : Prog σ ε Unit) (body : Prog σ ε α) : Prog σ ε α := fun s =>
  match body s with
  | (r, s') =>
      match exit s' with
      | (.ok (), s'') => (r, s'')
      | (.error e, s'') => (.error e, s'')

/-- `with enter … exit: body`. -/
def bracket (enter exit : Prog σ ε Unit) (body : Prog σ ε α) : Prog σ ε α := do
  enter
  during exit body

section

variable {enter exit : Prog σ ε Unit} {body : Prog σ ε α} {s s' s'' : σ}

/-- An exit that succeeds leaves the result of the body. -/
theorem during_of_exit {r : Except ε α} (hbody : body s = (r, s')) (hexit : exit s' = (.ok (), s'')) :
    during exit body s = (r, s'') := by
  unfold during
  rw [hbody]
  show (match exit s' with
    | (.ok (), t) => (r, t)
    | (.error e, t) => (.error e, t)) = _
  rw [hexit]

/-- Where entering fails neither the body nor the exit is run. -/
theorem bracket_of_error {e : ε} (h : enter s = (.error e, s')) :
    bracket enter exit body s = (.error e, s') := bind_of_error h

/-- Behind an entry the body is run, and the exit whatever it comes to. -/
theorem bracket_of_ok (h : enter s = (.ok (), s')) : bracket enter exit body s = during exit body s' :=
  bind_of_ok h

end

end Effects.Prog
