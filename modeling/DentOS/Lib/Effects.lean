/-
  Programs whose effects outlive their exceptions.

  A Python program that raises leaves behind whatever it has done by then.  `Prog σ ε α` takes a state
  and gives a result, or an exception, and in either case the state it leaves.  Sequencing goes on
  only behind a result.

  Two rules carry the arguments about such programs: `bind_returns`, which takes a sequence that
  returned apart into the two parts that returned, and `Keeps`, which says that a program keeps a
  property of the state on every way out and splits along sequencing (`keeps_bind`).
-/

namespace Effects

/-- A program over states `σ` with exceptions `ε`. -/
def Prog (σ ε α : Type) : Type := σ → Except ε α × σ

namespace Prog

variable {σ ε α β : Type}

/-- One program behind the other; the second is not run where the first raises. -/
def bind (p : Prog σ ε α) (f : α → Prog σ ε β) : Prog σ ε β := fun s =>
  match p s with
  | (.ok a, s') => f a s'
  | (.error e, s') => (.error e, s')

instance : Monad (Prog σ ε) where
  pure a := fun s => (.ok a, s)
  bind := bind

/-- The state. -/
def get : Prog σ ε σ := fun s => (.ok s, s)

/-- Change the state. -/
def modify (f : σ → σ) : Prog σ ε Unit := fun s => (.ok (), f s)

/-- Raise an exception. -/
def throw (e : ε) : Prog σ ε α := fun s => (.error e, s)

/-- A call that raises unless it succeeds. -/
def check (succeeds : Bool) (e : ε) : Prog σ ε Unit := if succeeds then pure () else throw e

/-- A value that may have been an exception. -/
def ofExcept : Except ε α → Prog σ ε α
  | .ok a => pure a
  | .error e => throw e

variable {p : Prog σ ε α} {f : α → Prog σ ε β} {s s' : σ}

@[simp] theorem pure_apply (a : α) (s : σ) : (pure a : Prog σ ε α) s = (.ok a, s) := rfl
@[simp] theorem get_apply (s : σ) : (get : Prog σ ε σ) s = (.ok s, s) := rfl
@[simp] theorem modify_apply (g : σ → σ) (s : σ) :
    (modify g : Prog σ ε Unit) s = (.ok (), g s) := rfl
@[simp] theorem throw_apply (e : ε) (s : σ) : (throw e : Prog σ ε α) s = (.error e, s) := rfl

/-- Behind a program that returns the next one goes on from its state. -/
theorem bind_of_ok {a : α} (h : p s = (.ok a, s')) : (p >>= f) s = f a s' := by
  show bind p f s = _
  rw [bind, h]

/-- Behind a program that raises nothing is run. -/
theorem bind_of_error {e : ε} (h : p s = (.error e, s')) : (p >>= f) s = (.error e, s') := by
  show bind p f s = _
  rw [bind, h]

@[simp] theorem pure_bind_apply (a : α) (f : α → Prog σ ε β) (s : σ) :
    (pure a >>= f) s = f a s := rfl
@[simp] theorem get_bind_apply (f : σ → Prog σ ε β) (s : σ) : (get >>= f) s = f s s := rfl
@[simp] theorem modify_bind_apply (g : σ → σ) (f : Unit → Prog σ ε β) (s : σ) :
    (modify g >>= f) s = f () (g s) := rfl
@[simp] theorem throw_bind_apply (e : ε) (f : α → Prog σ ε β) (s : σ) :
    (throw e >>= f) s = (.error e, s) := rfl

/-- Sequencing is associative. -/
theorem bind_assoc {γ : Type} (p : Prog σ ε α) (f : α → Prog σ ε β) (g : β → Prog σ ε γ) :
    p >>= f >>= g = p >>= fun a => f a >>= g := by
  funext s
  rcases hp : p s with ⟨_ | a, s₁⟩
  · rw [bind_of_error hp, bind_of_error (bind_of_error hp)]
  · rw [bind_of_ok hp]
    show bind (p >>= f) g s = bind (f a) g s₁
    rw [bind, bind, bind_of_ok hp]

/-- A check raises unless its condition holds. -/
theorem check_apply (b : Bool) (e : ε) (s : σ) :
    (check b e : Prog σ ε Unit) s = if b then (.ok (), s) else (.error e, s) := by
  cases b <;> rfl

@[simp] theorem check_bind_apply (b : Bool) (e : ε) (f : Unit → Prog σ ε β) (s : σ) :
    (check b e >>= f) s = if b then f () s else (.error e, s) := by
  cases b <;> rfl

/-- A value behind a program does not change the state it leaves. -/
theorem state_bind_pure (p : Prog σ ε α) (g : α → β) (s : σ) :
    ((p >>= fun a => pure (g a)) s).2 = (p s).2 := by
  rcases hp : p s with ⟨_ | a, s₁⟩
  · rw [bind_of_error hp]
  · rw [bind_of_ok hp]
    rfl

/-- **A sequence that returned**: both parts did. -/
theorem bind_returns {b : β} (h : (p >>= f) s = (.ok b, s')) :
    ∃ a s₁, p s = (.ok a, s₁) ∧ f a s₁ = (.ok b, s') := by
  rcases hp : p s with ⟨_ | a, s₁⟩
  · rw [bind_of_error hp] at h
    cases h
  · rw [bind_of_ok hp] at h
    exact ⟨a, s₁, rfl, h⟩

/-! ## Steps with a return code: the first that is not zero ends the list -/

/-- Steps in order, up to the first whose return code is not zero. -/
def steps : List (Prog σ ε Nat) → Prog σ ε Nat
  | [] => pure 0
  | p :: ps => do
      let code ← p
      if code ≠ 0 then pure code else steps ps

/-- A step that returns 0 is followed by the next one. -/
theorem steps_of_zero {p : Prog σ ε Nat} (h : p s = (.ok 0, s')) (ps : List (Prog σ ε Nat)) :
    steps (p :: ps) s = steps ps s' := by
  rw [steps, bind_of_ok h, if_neg (fun hne => hne rfl)]

/-- Steps that returned zero: each of them did. -/
theorem steps_eq_zero {p : Prog σ ε Nat} {ps : List (Prog σ ε Nat)}
    (h : steps (p :: ps) s = (.ok 0, s')) :
    ∃ s₁, p s = (.ok 0, s₁) ∧ steps ps s₁ = (.ok 0, s') := by
  obtain ⟨code, s₁, hp, h⟩ := bind_returns h
  by_cases hcode : code = 0
  · rw [if_neg (fun hne => hne hcode)] at h
    exact ⟨s₁, by rw [hp, hcode], h⟩
  · rw [if_pos hcode] at h
    cases h
    exact absurd rfl hcode

/-- A step that returns anything else, or raises, is the last one. -/
theorem steps_of_not_zero {p : Prog σ ε Nat} {r : Except ε Nat} (h : p s = (r, s'))
    (hr : r ≠ .ok 0) (ps : List (Prog σ ε Nat)) : steps (p :: ps) s = (r, s') := by
  cases r with
  | error e => rw [steps, bind_of_error h]
  | ok code =>
      have hcode : code ≠ 0 := fun hzero => hr (by rw [hzero])
      rw [steps, bind_of_ok h, if_pos hcode]
      rfl

/-- Steps that are calls change nothing, and return zero when every call does. -/
theorem steps_ofExcept (s : σ) : ∀ cs : List (Except ε Nat),
    ∃ r, steps (cs.map ofExcept) s = (r, s) ∧ (r = .ok 0 ↔ ∀ c ∈ cs, c = .ok 0)
  | [] => ⟨.ok 0, rfl, fun _ _ hc => absurd hc List.not_mem_nil, fun _ => rfl⟩
  | c :: cs => by
      have hc : (ofExcept c : Prog σ ε Nat) s = (c, s) := by cases c <;> rfl
      by_cases hzero : c = .ok 0
      · obtain ⟨r, hr, hiff⟩ := steps_ofExcept s cs
        refine ⟨r, ?_, ?_⟩
        · rw [List.map_cons, steps_of_zero (by rw [hc, hzero]), hr]
        · rw [hiff, List.forall_mem_cons]
          exact ⟨fun h => ⟨hzero, h⟩, fun h => h.2⟩
      · refine ⟨c, ?_, ?_⟩
        · rw [List.map_cons, steps_of_not_zero hc hzero]
        · exact ⟨fun h => absurd h hzero, fun h => h c List.mem_cons_self⟩

/-! ## Properties that are kept, along the sequencing of programs -/

/-- On every way out the program leaves a state with `inv`, if it was given one. -/
def Keeps (inv : σ → Prop) (p : Prog σ ε α) : Prop := ∀ s, inv s → inv (p s).2

/-- Returning keeps every invariant. -/
theorem keeps_pure (inv : σ → Prop) (a : α) : Keeps inv (pure a : Prog σ ε α) := fun _ h => h

/-- Reading the state keeps every invariant. -/
theorem keeps_get (inv : σ → Prop) : Keeps inv (get : Prog σ ε σ) := fun _ h => h

/-- Raising keeps every invariant. -/
theorem keeps_throw (inv : σ → Prop) (e : ε) : Keeps inv (throw e : Prog σ ε α) := fun _ h => h

/-- A change keeps what it keeps of every state. -/
theorem keeps_modify {inv : σ → Prop} {g : σ → σ} (h : ∀ s, inv s → inv (g s)) :
    Keeps inv (modify g : Prog σ ε Unit) := h

/-- A check keeps every invariant. -/
theorem keeps_check (inv : σ → Prop) (b : Bool) (e : ε) :
    Keeps inv (check b e : Prog σ ε Unit) := by
  intro s h
  rw [check_apply]
  split <;> exact h

/-- A computation without effects keeps every invariant. -/
theorem keeps_ofExcept (inv : σ → Prop) (x : Except ε α) :
    Keeps inv (ofExcept x : Prog σ ε α) := by
  cases x with
  | ok a => exact keeps_pure inv a
  | error e => exact keeps_throw inv e

/-- **Sequencing** keeps what both programs keep. -/
theorem keeps_bind {inv : σ → Prop} (hp : Keeps inv p) (hf : ∀ a, Keeps inv (f a)) :
    Keeps inv (p >>= f) := by
  intro s h
  have hs := hp s h
  rcases hps : p s with ⟨_ | a, s₁⟩
  · rw [bind_of_error hps]
    rwa [hps] at hs
  · rw [bind_of_ok hps]
    rw [hps] at hs
    exact hf a s₁ hs

/-- A list of steps keeps what each of them keeps, by induction on the list. -/
theorem keeps_steps {inv : σ → Prop} : ∀ {ps : List (Prog σ ε Nat)}, (∀ p ∈ ps, Keeps inv p) →
    Keeps inv (steps ps)
  | [], _ => keeps_pure inv 0
  | p :: ps, h => by
      refine keeps_bind (h p List.mem_cons_self) fun code => ?_
      split
      · exact keeps_pure inv code
      · exact keeps_steps fun q hq => h q (List.mem_cons_of_mem p hq)

/-- A choice keeps what both branches keep. -/
theorem keeps_ite {inv : σ → Prop} {c : Prop} [Decidable c] {p q : Prog σ ε α} (hp : Keeps inv p)
    (hq : Keeps inv q) : Keeps inv (if c then p else q) := by
  split
  · exact hp
  · exact hq

end Prog
end Effects
