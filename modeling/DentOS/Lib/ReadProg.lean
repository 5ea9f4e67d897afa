/-
  Programs that read a byte memory, and the list of the indices they read.

  A C function that takes `const uint8_t *data` can look at `data[i]` for any `i`, inside the object
  it was given or not.  `ReadM α` is the syntax of such a program: a value, or a read whose result
  decides what happens next.  It has two readings over a memory:

  * `run m p`    the value the program returns;
  * `trace m p`  the indices it reads, in order.

  Because a program can get at the memory only through `read`, what it returns and what it reads
  depend on the memory at the indices of its own trace alone (`run_congr`): that is the frame rule
  for bounds arguments.  `Within n p m` says that every read lies below `n`; it splits along the
  sequencing of programs (`within_bind`), which turns a bound on a whole function into one
  about each of its reads.
-/

namespace ReadProg

/-- A memory as a pointer shows it: a byte at every offset, whether the object behind the pointer
    reaches that far or not. -/
abbrev Mem := Nat → UInt8

/-- A buffer and whatever happens to lie behind it. -/
def bufMem (data : List UInt8) (beyond : Mem) : Mem := fun i => data.getD i (beyond i)

/-- Inside of the buffer its own bytes are read. -/
theorem bufMem_of_lt {data : List UInt8} {i : Nat} (h : i < data.length) (beyond : Mem) :
    bufMem data beyond i = data[i] := by
  rw [bufMem, List.getD_eq_getElem?_getD, List.getElem?_eq_getElem h]
  rfl

/-- A program over a byte memory. -/
inductive ReadM (α : Type) where
  | ret (a : α)
  | read (i : Nat) (k : UInt8 → ReadM α)

namespace ReadM

variable {α β : Type}

/-- One program behind the other. -/
def bind : ReadM α → (α → ReadM β) → ReadM β
  | ret a, f => f a
  | read i k, f => read i fun b => bind (k b) f

instance : Monad ReadM where
  pure := ret
  bind := bind

/-- Read one byte. -/
def rd (i : Nat) : ReadM UInt8 := read i ret

/-- Read `n` bytes from `i` on: `memcpy` out of the memory. -/
def rdBytes : Nat → Nat → ReadM (List UInt8)
  | _, 0 => pure []
  | i, n + 1 => do
      let b ← rd i
      let bs ← rdBytes (i + 1) n
      pure (b :: bs)

/-! ## The two readings -/

/-- What a program computes from a memory. -/
def run (m : Mem) : ReadM α → α
  | ret a => a
  | read i k => run m (k (m i))

/-- The places that it reads, in order. -/
def trace (m : Mem) : ReadM α → List Nat
  | ret _ => []
  | read i k => i :: trace m (k (m i))

@[simp] theorem run_pure (m : Mem) (a : α) : (pure a : ReadM α).run m = a := rfl
@[simp] theorem run_rd (m : Mem) (i : Nat) : (rd i).run m = m i := rfl
@[simp] theorem trace_pure (m : Mem) (a : α) : (pure a : ReadM α).trace m = [] := rfl
@[simp] theorem trace_rd (m : Mem) (i : Nat) : (rd i).trace m = [i] := rfl

@[simp] theorem run_bind (m : Mem) (p : ReadM α) (f : α → ReadM β) :
    (p >>= f).run m = (f (p.run m)).run m := by
  induction p with
  | ret a => rfl
  | read i k ih => exact ih (m i)

@[simp] theorem trace_bind (m : Mem) (p : ReadM α) (f : α → ReadM β) :
    (p >>= f).trace m = p.trace m ++ (f (p.run m)).trace m := by
  induction p with
  | ret a => rfl
  | read i k ih => exact congrArg (i :: ·) (ih (m i))

/-- A read substitutes its byte into what follows, so that a test on the byte keeps its shape. -/
@[simp ↓] theorem run_rd_bind (m : Mem) (i : Nat) (f : UInt8 → ReadM β) :
    (rd i >>= f).run m = (f (m i)).run m := rfl

/-- Tried before the condition is simplified, so that its `Decidable` instance still matches. -/
@[simp ↓] theorem run_ite (m : Mem) (c : Prop) [Decidable c] (p q : ReadM α) :
    (if c then p else q).run m = if c then p.run m else q.run m := by
  split <;> rfl

/-- The `n` bytes of a memory from `i` on. -/
def bytesAt (m : Mem) (i n : Nat) : List UInt8 := (List.range' i n).map m

@[simp] theorem length_bytesAt (m : Mem) (i n : Nat) : (bytesAt m i n).length = n := by
  rw [bytesAt, List.length_map, List.length_range']

/-- One byte, and those behind it. -/
theorem bytesAt_succ (m : Mem) (i n : Nat) :
    bytesAt m i (n + 1) = m i :: bytesAt m (i + 1) n := by
  rw [bytesAt, List.range'_succ, List.map_cons, bytesAt]

/-- Inside of the buffer several bytes are a part of it. -/
theorem bytesAt_bufMem {data : List UInt8} {i n : Nat} (h : i + n ≤ data.length) (beyond : Mem) :
    bytesAt (bufMem data beyond) i n = (data.drop i).take n := by
  apply List.ext_getElem
  · rw [length_bytesAt, List.length_take, List.length_drop]
    omega
  · intro k hk _
    rw [length_bytesAt] at hk
    simp only [bytesAt, List.getElem_map, List.getElem_range', Nat.one_mul, List.getElem_take,
      List.getElem_drop]
    exact bufMem_of_lt (by omega) beyond

/-- The memory holds the byte string `bs` at `i`. -/
def Holds (m : Mem) (i : Nat) (bs : List UInt8) : Prop := bytesAt m i bs.length = bs

/-- The buffer is at 0. -/
theorem holds_bufMem (data : List UInt8) (beyond : Mem) : Holds (bufMem data beyond) 0 data := by
  rw [Holds, bytesAt_bufMem (by omega), List.drop_zero, List.take_length]

/-- Nothing is everywhere. -/
theorem holds_nil (m : Mem) (i : Nat) : Holds m i [] := rfl

/-- One byte, and the others behind it. -/
theorem holds_cons (m : Mem) (i : Nat) (b : UInt8) (bs : List UInt8) :
    Holds m i (b :: bs) ↔ m i = b ∧ Holds m (i + 1) bs := by
  unfold Holds
  rw [List.length_cons, bytesAt_succ, List.cons.injEq]

/-- Two pieces, one behind the other. -/
theorem holds_append (m : Mem) : ∀ (as bs : List UInt8) (i : Nat),
    Holds m i (as ++ bs) ↔ Holds m i as ∧ Holds m (i + as.length) bs
  | [], bs, i => ⟨fun h => ⟨holds_nil m i, h⟩, fun h => h.2⟩
  | a :: as, bs, i => by
      rw [List.cons_append, holds_cons, holds_cons, holds_append m as bs (i + 1), and_assoc,
        List.length_cons, show i + 1 + as.length = i + (as.length + 1) by omega]

@[simp] theorem run_rdBytes (m : Mem) : ∀ (i n : Nat), (rdBytes i n).run m = bytesAt m i n
  | _, 0 => rfl
  | i, n + 1 => by
      rw [bytesAt_succ, ← run_rdBytes m (i + 1) n]
      simp only [rdBytes, run_bind, run_rd, run_pure]

@[simp] theorem trace_rdBytes (m : Mem) :
    ∀ (i n : Nat), (rdBytes i n).trace m = List.range' i n
  | _, 0 => rfl
  | i, n + 1 => by
      rw [List.range'_succ, ← trace_rdBytes m (i + 1) n]
      simp only [rdBytes, trace_bind, trace_rd, trace_pure, List.append_nil, List.singleton_append]

/-! ## Reads that stay below a bound -/

/-- Every index the program reads lies below `n`. -/
def Within (n : Nat) (p : ReadM α) (m : Mem) : Prop := ∀ i ∈ p.trace m, i < n

@[simp] theorem within_pure (n : Nat) (a : α) (m : Mem) : Within n (pure a : ReadM α) m :=
  fun _ h => absurd h List.not_mem_nil

@[simp] theorem within_rd (n i : Nat) (m : Mem) : Within n (rd i) m ↔ i < n := by
  rw [Within, trace_rd]
  exact List.forall_mem_singleton

@[simp] theorem within_bind (n : Nat) (p : ReadM α) (f : α → ReadM β) (m : Mem) :
    Within n (p >>= f) m ↔ Within n p m ∧ Within n (f (p.run m)) m := by
  rw [Within, trace_bind]
  exact List.forall_mem_append

@[simp ↓] theorem within_rd_bind (n i : Nat) (f : UInt8 → ReadM β) (m : Mem) :
    Within n (rd i >>= f) m ↔ i < n ∧ Within n (f (m i)) m := by
  rw [within_bind, within_rd]
  rfl

@[simp ↓] theorem within_ite (n : Nat) (c : Prop) [Decidable c] (p q : ReadM α) (m : Mem) :
    Within n (if c then p else q) m ↔ if c then Within n p m else Within n q m := by
  split <;> rfl

/-- A block read stays below `n` exactly when the block does. -/
@[simp] theorem within_rdBytes (n i k : Nat) (m : Mem) :
    Within n (rdBytes i k) m ↔ k = 0 ∨ i + k ≤ n := by
  rw [Within, trace_rdBytes]
  constructor
  · intro h
    rcases Nat.eq_zero_or_pos k with hk | hk
    · exact Or.inl hk
    · have hlast := h (i + (k - 1)) (List.mem_range'_1.mpr ⟨by omega, by omega⟩)
      exact Or.inr (by omega)
  · intro h j hj
    have hj' := List.mem_range'_1.mp hj
    omega

/-- **The frame rule**: two memories that agree on what a program reads in the first give the same
    value and the same reads. -/
theorem run_congr {m m' : Mem} (p : ReadM α) (h : ∀ i ∈ p.trace m, m i = m' i) :
    p.run m = p.run m' ∧ p.trace m = p.trace m' := by
  induction p with
  | ret a => exact ⟨rfl, rfl⟩
  | read i k ih =>
      have hi : m i = m' i := h i List.mem_cons_self
      have hk := ih (m i) fun j hj => h j (List.mem_cons_of_mem i hj)
      constructor
      · show (k (m i)).run m = (k (m' i)).run m'
        rw [← hi]
        exact hk.1
      · show i :: (k (m i)).trace m = i :: (k (m' i)).trace m'
        rw [← hi, hk.2]

end ReadM
end ReadProg
