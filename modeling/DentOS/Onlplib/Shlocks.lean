/-
  Shared locks (onlplib, shlocks.c): a mutex in a shared segment, for any number of processes.

  `onlp_shlock_create` gets or creates the segment and attaches it, and initialises the mutex unless the
  magic word is there, which it writes when it is done.  Nothing keeps a second process from its test of
  the magic word in the meantime, so that it initialises the mutex once more, by then perhaps under a
  process that has taken it (`reinitialised`).  That `onlp_shmem_create` says who created the segment is
  not made use of.

  A step is one system call, or one access to the segment.  A process may die anywhere: by `AIM_DIE`, or
  killed.  The mutex is robust, process-shared and checks for errors, as `shared_pthread_mutex_init__`
  makes it: a process that dies with it leaves it to the next, who is told.  Initialising it, at any
  time, makes it free.
-/
import DentOS.Lib.Transition
import Mathlib.Logic.Function.Basic

namespace DentOS.Shlocks

open Function (update)
open Relation

/-! ## The segment: a magic number, a name, and a mutex -/

/-- The number of a process. -/
abbrev Process := Nat

/-- `pthread_mutex_t`.  Of a new segment it is zero. -/
inductive Mutex where
  | zero
  | free
  | held (p : Process)
  | ownerDead
  deriving DecidableEq

/-- `onlp_shlock_t`. -/
structure Shlock where
  /-- The number that says that the lock is there. -/
  magic : UInt32
  /-- The name it was created under. -/
  name : List UInt8
  /-- The mutex that is shared. -/
  mutex : Mutex

/-- Fresh shared memory is zero. -/
def Shlock.zero : Shlock := ⟨0, [], .zero⟩

/-- `SHLOCK_MAGIC`. -/
def shlockMagic : UInt32 := 0xDEADBEEF

/-- Where a process is.  `rv` is what `onlp_shmem_create` returns: 1 for a new segment. -/
inductive Pc where
  | idle
  /-- The segment exists. -/
  | getting
  | attaching (rv : Int)
  | testing (rv : Int)
  | initialising (rv : Int)
  | naming (rv : Int)
  | marking (rv : Int)
  /-- `onlp_shlock_create` has returned. -/
  | ready (rv : Int)
  /-- `pthread_mutex_lock` has returned `EOWNERDEAD`. -/
  | recovering (rv : Int)
  | dead

namespace Pc

/-- Between a test of the magic word that failed, and writing it. -/
def Creating : Pc → Prop
  | initialising _ => True
  | naming _ => True
  | marking _ => True
  | _ => False

/-- Behind the initialisation, and in front of writing the magic word. -/
def Unmarked : Pc → Prop
  | naming _ => True
  | marking _ => True
  | _ => False

/-- The process can take and give the lock. -/
def Ready : Pc → Prop
  | ready _ => True
  | recovering _ => True
  | _ => False

/-- The process has nothing of the segment. -/
def Outside : Pc → Prop
  | idle => True
  | dead => True
  | _ => False

/-- The process has not died. -/
def Live : Pc → Prop
  | dead => False
  | _ => True

end Pc

/-- The segment of one key, and the processes. -/
structure System where
  /-- The segment has been created. -/
  exists_ : Bool
  /-- What is in it. -/
  shlock : Shlock
  /-- Where each process is. -/
  pcs : Process → Pc
  /-- `onlp_shlock_take` has returned (or is about to), and `onlp_shlock_give` has not. -/
  holding : Process → Bool
  /-- How often the mutex has been initialised. -/
  inits : Nat
  /-- Whether it has been taken. -/
  taken : Bool

namespace System

/-- There is no shared memory. -/
def start : System := ⟨false, .zero, fun _ => .idle, fun _ => false, 0, false⟩

/-- A process goes on. -/
def goto (s : System) (p : Process) (pc : Pc) : System := { s with pcs := update s.pcs p pc }

/-- A process dies; the mutex finds out when it was held. -/
def die (s : System) (p : Process) : System :=
  { s with
    pcs := update s.pcs p .dead
    shlock.mutex := if s.shlock.mutex = .held p then .ownerDead else s.shlock.mutex }

/-- A process gets the mutex. -/
def take (s : System) (p : Process) (pc : Pc) : System :=
  { s with
    pcs := update s.pcs p pc
    shlock.mutex := .held p
    holding := update s.holding p true
    taken := true }

end System

/-! ## Steps of a process that creates, takes and gives -/

/-- What a step is, as far as the order of steps is concerned. -/
inductive Event where
  /-- The test of the magic word, which is not there. -/
  | testFails
  | dies (p : Process)
  | other

/-- A step of a process, in `onlp_shmem_create`, `onlp_shlock_init__`, `onlp_shlock_take` or
    `onlp_shlock_give`. -/
inductive Step (names : Process → List UInt8) : System → Event → System → Prop where
  -- onlp_shmem_create
  | create {s : System} {p : Process} (hp : s.pcs p = .idle ∨ ∃ rv, s.pcs p = .ready rv)
      (h : s.exists_ = false) :
      Step names s .other { s with
        exists_ := true, shlock := .zero, pcs := update s.pcs p (.attaching 1) }
  | eexist {s : System} {p : Process} (hp : s.pcs p = .idle ∨ ∃ rv, s.pcs p = .ready rv)
      (h : s.exists_ = true) : Step names s .other (s.goto p .getting)
  | get {s : System} {p : Process} (hp : s.pcs p = .getting) :
      Step names s .other (s.goto p (.attaching 0))
  | attach {s : System} {p : Process} {rv : Int} (hp : s.pcs p = .attaching rv) :
      Step names s .other (s.goto p (.testing rv))
  -- onlp_shlock_init__
  | found {s : System} {p : Process} {rv : Int} (hp : s.pcs p = .testing rv)
      (h : s.shlock.magic = shlockMagic) : Step names s .other (s.goto p (.ready rv))
  | notFound {s : System} {p : Process} {rv : Int} (hp : s.pcs p = .testing rv)
      (h : s.shlock.magic ≠ shlockMagic) : Step names s .testFails (s.goto p (.initialising rv))
  | init {s : System} {p : Process} {rv : Int} (hp : s.pcs p = .initialising rv) :
      Step names s .other { s with
        shlock.mutex := .free, inits := s.inits + 1, pcs := update s.pcs p (.naming rv) }
  | name {s : System} {p : Process} {rv : Int} (hp : s.pcs p = .naming rv) :
      Step names s .other { s with
        shlock.name := (names p).take 63, pcs := update s.pcs p (.marking rv) }
  | mark {s : System} {p : Process} {rv : Int} (hp : s.pcs p = .marking rv) :
      Step names s .other { s with
        shlock.magic := shlockMagic, pcs := update s.pcs p (.ready rv) }
  -- onlp_shlock_take; locking a mutex that is zero works too
  | lock {s : System} {p : Process} {rv : Int} (hp : s.pcs p = .ready rv)
      (h : s.shlock.mutex = .free ∨ s.shlock.mutex = .zero) :
      Step names s .other (s.take p (.ready rv))
  | ownerDead {s : System} {p : Process} {rv : Int} (hp : s.pcs p = .ready rv)
      (h : s.shlock.mutex = .ownerDead) : Step names s .other (s.take p (.recovering rv))
  | consistent {s : System} {p : Process} {rv : Int} (hp : s.pcs p = .recovering rv) :
      Step names s .other (s.goto p (.ready rv))
  | relock {s : System} {p : Process} {rv : Int} (hp : s.pcs p = .ready rv)
      (h : s.shlock.mutex = .held p) : Step names s (.dies p) (s.die p)
  -- onlp_shlock_give
  | unlock {s : System} {p : Process} {rv : Int} (hp : s.pcs p = .ready rv)
      (h : s.shlock.mutex = .held p) :
      Step names s .other { s with
        shlock.mutex := .free, holding := update s.holding p false }
  | notOwner {s : System} {p : Process} {rv : Int} (hp : s.pcs p = .ready rv)
      (h : s.shlock.mutex ≠ .held p) : Step names s (.dies p) (s.die p)
  -- a call fails, which ends in `AIM_DIE`, or the process is killed
  | die {s : System} {p : Process} (hp : (s.pcs p).Live) : Step names s (.dies p) (s.die p)

/-! ## What the lock promises: one holder at most -/

/-- **A lock that is created safely.** -/
structure Safe (s : System) : Prop where
  /-- The mutex is not initialised twice, -/
  once : s.inits ≤ 1
  /-- and has been when `onlp_shlock_create` has returned and when the lock is taken. -/
  ready : ∀ p, (s.pcs p).Ready → s.inits = 1
  taken : s.taken = true → s.inits = 1
  /-- Two live processes do not both hold the lock. -/
  exclusive : ∀ p q, (s.pcs p).Live → (s.pcs q).Live → s.holding p = true → s.holding q = true →
    p = q

/-- **Creators in order.**  A process does not find the magic word missing while another is on its way
    to writing it, and no process dies between initialising the mutex and writing the magic word. -/
def Event.InOrder (s : System) : Event → Prop
  | testFails => ∀ p, ¬ (s.pcs p).Creating
  | dies p => ¬ (s.pcs p).Unmarked
  | other => True

/-- A step that is in order. -/
def OrderlyStep (names : Process → List UInt8) (s s' : System) : Prop :=
  ∃ e : Event, e.InOrder s ∧ Step names s e s'

/-! ## The invariant, and the runs that keep it -/

/-- The magic word is there when the mutex has been initialised, and the one process that has done so
    has not gone on to write it. -/
structure Inv (s : System) : Prop where
  outside : s.exists_ = false → ∀ p, (s.pcs p).Outside
  empty : s.exists_ = false → s.shlock.magic ≠ shlockMagic ∧ s.inits = 0
  /-- One process at most is creating, and none when the magic word is there. -/
  creator : ∀ p q, (s.pcs p).Creating → (s.pcs q).Creating → p = q
  marked : s.shlock.magic = shlockMagic →
    s.inits = 1 ∧ s.shlock.mutex ≠ .zero ∧ ∀ p, ¬ (s.pcs p).Creating
  unmarked : s.shlock.magic ≠ shlockMagic →
    s.taken = false ∧ ∀ p, ¬ (s.pcs p).Ready ∧ s.holding p = false
  fresh : s.inits = 0 → s.shlock.mutex = .zero
  pending : s.inits ≠ 0 → s.shlock.magic ≠ shlockMagic → ∃ p, (s.pcs p).Unmarked
  initialised : ∀ p, (s.pcs p).Unmarked → s.inits = 1 ∧ s.shlock.mutex = .free
  holder : ∀ p, (s.pcs p).Live → s.holding p = true → s.shlock.mutex = .held p

/-- At the start the invariant holds. -/
theorem inv_start : Inv .start := by
  constructor <;> simp [System.start, Pc.Outside, Pc.Creating, Pc.Ready, Pc.Unmarked, Shlock.zero,
    shlockMagic]

/-- Who has not set the magic number yet has created the memory. -/
theorem Pc.Unmarked.creating {pc : Pc} (h : pc.Unmarked) : pc.Creating := by
  cases pc <;> trivial

/-- The mutex is made once at most. -/
theorem Inv.inits_le {s : System} (h : Inv s) : s.inits ≤ 1 := by
  by_cases hmagic : s.shlock.magic = shlockMagic
  · exact Nat.le_of_eq (h.marked hmagic).1
  · by_cases hzero : s.inits = 0
    · exact hzero ▸ Nat.zero_le 1
    · obtain ⟨p, hp⟩ := h.pending hzero hmagic
      exact Nat.le_of_eq (h.initialised p hp).1

/-- Whoever is ready has found the magic word, or written it. -/
theorem Inv.magic_of_ready {s : System} (h : Inv s) {p : Process} (hp : (s.pcs p).Ready) :
    s.shlock.magic = shlockMagic :=
  Classical.byContradiction fun hmagic => ((h.unmarked hmagic).2 p).1 hp

/-- Without the magic word, and with nobody about to write it, the mutex has not been initialised. -/
theorem Inv.inits_eq_zero {s : System} (h : Inv s) (hmagic : s.shlock.magic ≠ shlockMagic)
    (hnone : ∀ q, ¬ (s.pcs q).Unmarked) : s.inits = 0 :=
  Classical.byContradiction fun hinits => by
    obtain ⟨q, hq⟩ := h.pending hinits hmagic
    exact hnone q hq

/-- The invariant makes a state safe. -/
theorem Inv.safe {s : System} (h : Inv s) : Safe s := by
  refine ⟨h.inits_le, fun p hp => ?_, fun htaken => ?_, fun p q hp hq hholds hholds' => ?_⟩
  · exact (h.marked (h.magic_of_ready hp)).1
  · refine (h.marked (Classical.byContradiction fun hmagic => ?_)).1
    rw [(h.unmarked hmagic).1] at htaken
    cases htaken
  · have heq := (h.holder p hp hholds).symm.trans (h.holder q hq hholds')
    injection heq

variable {names : Process → List UInt8} {s s' : System}

/-- A process goes on, and neither was nor is creating. -/
theorem Inv.passes (h : Inv s) {p : Process} (pc : Pc) (hexists : s.exists_ = true)
    (hbefore : ¬ (s.pcs p).Creating) (hafter : ¬ pc.Creating)
    (hready : pc.Ready → s.shlock.magic = shlockMagic) (hlive : (s.pcs p).Live) :
    Inv (s.goto p pc) := by
  obtain ⟨h₁, h₂, h₃, h₄, h₅, h₆, h₇, h₈, h₉⟩ := h
  have hcreating := @Pc.Unmarked.creating
  simp only [System.goto]
  refine ⟨?_, ?_, ?_, ?_, ?_, h₆, fun hinits hmagic => ?_, ?_, ?_⟩
  case refine_6 =>
    obtain ⟨q, hq⟩ := h₇ hinits hmagic
    exact ⟨q, by grind -ring -linarith -order [Function.update_apply]⟩
  all_goals grind -ring -linarith -order [Function.update_apply]

/-- The memory is there for a process that is in one of the calls. -/
theorem Inv.exists_of (h : Inv s) {p : Process} {pc : Pc} (hp : s.pcs p = pc)
    (hpc : ¬ pc.Outside) : s.exists_ = true := by
  cases hexists : s.exists_ with
  | true => rfl
  | false => exact absurd (h.outside hexists p) (by rwa [hp])

/-- A process that has called `onlp_shlock_create`, or calls it, is not creating. -/
theorem not_creating_of_call {p : Process} (hp : s.pcs p = .idle ∨ ∃ rv, s.pcs p = .ready rv) :
    ¬ (s.pcs p).Creating ∧ (s.pcs p).Live := by
  rcases hp with hp | ⟨rv, hp⟩ <;> rw [hp] <;> exact ⟨id, trivial⟩

/-- A process gets the mutex, which it does only when the magic word is there. -/
theorem Inv.take (h : Inv s) {p : Process} {rv : Int} (hp : s.pcs p = .ready rv) (pc : Pc)
    (hready : pc.Ready) (hmutex : ∀ q, s.shlock.mutex ≠ .held q) : Inv (s.take p pc) := by
  have hexists := h.exists_of hp id
  have hmagic := h.magic_of_ready (p := p) (by rw [hp]; trivial)
  obtain ⟨hinits, hzero, hnone⟩ := h.marked hmagic
  have hcreating := @Pc.Unmarked.creating
  have hafter : ¬ pc.Creating := by
    cases pc <;> first | exact id | exact hready.elim
  obtain ⟨h₁, h₂, h₃, h₄, h₅, h₆, h₇, h₈, h₉⟩ := h
  simp only [System.take]
  constructor <;> grind -ring -linarith -order [Function.update_apply]

/-- A process dies that has not left the mutex initialised without the magic word. -/
theorem Inv.die (h : Inv s) {p : Process} (hp : ¬ (s.pcs p).Unmarked) : Inv (s.die p) := by
  have hdead : ¬ Pc.dead.Creating ∧ ¬ Pc.dead.Unmarked ∧ ¬ Pc.dead.Ready ∧ ¬ Pc.dead.Live ∧
    Pc.dead.Outside := ⟨id, id, id, id, trivial⟩
  obtain ⟨h₁, h₂, h₃, h₄, h₅, h₆, h₇, h₈, h₉⟩ := h
  simp only [System.die]
  refine ⟨?_, ?_, ?_, ?_, ?_, ?_, fun hinits hmagic => ?_, ?_, ?_⟩
  case refine_7 =>
    obtain ⟨q, hq⟩ := h₇ hinits hmagic
    exact ⟨q, by grind -ring -linarith -order [Function.update_apply]⟩
  all_goals grind -ring -linarith -order [Function.update_apply]

/-- Creating keeps the invariant. -/
theorem Inv.create (h : Inv s) {p : Process} (hexists : s.exists_ = false) :
    Inv { s with exists_ := true, shlock := .zero, pcs := update s.pcs p (.attaching 1) } := by
  have hzero : Shlock.zero.magic ≠ shlockMagic ∧ Shlock.zero.mutex = .zero := ⟨by decide, rfl⟩
  have hpc : ¬ (Pc.attaching 1).Creating ∧ ¬ (Pc.attaching 1).Ready := ⟨id, id⟩
  have hcreating := @Pc.Unmarked.creating
  obtain ⟨h₁, h₂, h₃, h₄, h₅, h₆, h₇, h₈, h₉⟩ := h
  obtain ⟨hmagic, hinits⟩ := h₂ hexists
  constructor <;> grind -ring -linarith -order [Function.update_apply, Pc.Outside]

/-- A process that does not find the magic word is the only one on its way to writing it. -/
theorem Inv.notFound (h : Inv s) {p : Process} {rv : Int} (hp : s.pcs p = .testing rv)
    (hmagic : s.shlock.magic ≠ shlockMagic) (hnone : ∀ q, ¬ (s.pcs q).Creating) :
    Inv (s.goto p (.initialising rv)) := by
  have hexists := h.exists_of hp id
  have hcreating := @Pc.Unmarked.creating
  have hpending := h.inits_eq_zero hmagic fun q hq => hnone q hq.creating
  obtain ⟨h₁, h₂, h₃, h₄, h₅, h₆, h₇, h₈, h₉⟩ := h
  simp only [System.goto]
  constructor <;>
    grind -ring -linarith -order [Function.update_apply, Pc.Ready, Pc.Unmarked, Pc.Live]

/-- The one process that is creating initialises the mutex for the first time. -/
theorem Inv.init (h : Inv s) {p : Process} {rv : Int} (hp : s.pcs p = .initialising rv) :
    Inv { s with
      shlock.mutex := .free, inits := s.inits + 1, pcs := update s.pcs p (.naming rv) } := by
  have hexists := h.exists_of hp id
  have hc : (s.pcs p).Creating := by rw [hp]; trivial
  have hmagic : s.shlock.magic ≠ shlockMagic := fun hmagic => (h.marked hmagic).2.2 p hc
  have hpending := h.inits_eq_zero hmagic fun q hq => by
    have heq := h.creator p q hc hq.creating
    rw [← heq, hp] at hq
    exact hq
  obtain ⟨h₁, h₂, h₃, h₄, h₅, h₆, h₇, h₈, h₉⟩ := h
  refine ⟨?_, ?_, ?_, ?_, ?_, ?_, fun _ _ => ⟨p, ?_⟩, ?_, ?_⟩ <;>
  grind -ring -linarith -order [Function.update_apply, Pc.Ready, Pc.Unmarked, Pc.Live, Pc.Creating]

/-- Writing the name keeps the invariant. -/
theorem Inv.name (h : Inv s) {p : Process} {rv : Int} (hp : s.pcs p = .naming rv)
    (name : List UInt8) :
    Inv { s with shlock.name := name, pcs := update s.pcs p (.marking rv) } := by
  have hexists := h.exists_of hp id
  have hu : (s.pcs p).Unmarked := by rw [hp]; trivial
  obtain ⟨h₁, h₂, h₃, h₄, h₅, h₆, h₇, h₈, h₉⟩ := h
  refine ⟨?_, ?_, ?_, ?_, ?_, ?_, fun _ _ => ⟨p, ?_⟩, ?_, ?_⟩ <;>
  grind -ring -linarith -order [Function.update_apply, Pc.Ready, Pc.Unmarked, Pc.Live, Pc.Creating]

/-- Setting the magic number keeps the invariant. -/
theorem Inv.mark (h : Inv s) {p : Process} {rv : Int} (hp : s.pcs p = .marking rv) :
    Inv { s with shlock.magic := shlockMagic, pcs := update s.pcs p (.ready rv) } := by
  have hexists := h.exists_of hp id
  have hu : (s.pcs p).Unmarked := by rw [hp]; trivial
  have hcreating := @Pc.Unmarked.creating
  obtain ⟨h₁, h₂, h₃, h₄, h₅, h₆, h₇, h₈, h₉⟩ := h
  constructor <;>
    grind -ring -linarith -order [Function.update_apply, Pc.Ready, Pc.Unmarked, Pc.Live,
      Pc.Creating]

/-- Unlocking keeps the invariant. -/
theorem Inv.unlock (h : Inv s) {p : Process} {rv : Int} (hp : s.pcs p = .ready rv)
    (hmutex : s.shlock.mutex = .held p) :
    Inv { s with shlock.mutex := .free, holding := update s.holding p false } := by
  have hexists := h.exists_of hp id
  have hmagic := h.magic_of_ready (p := p) (by rw [hp]; trivial)
  obtain ⟨hinits, hzero, hnone⟩ := h.marked hmagic
  have hcreating := @Pc.Unmarked.creating
  obtain ⟨h₁, h₂, h₃, h₄, h₅, h₆, h₇, h₈, h₉⟩ := h
  constructor <;> grind -ring -linarith -order [Function.update_apply]

/-- **Every orderly step** keeps the invariant, one case per step. -/
theorem inv_step (h : Inv s) {e : Event} (horder : e.InOrder s) (hst : Step names s e s') :
    Inv s' := by
  cases hst with
  | create hp hexists => exact h.create hexists
  | eexist hp hexists =>
      obtain ⟨hbefore, hlive⟩ := not_creating_of_call hp
      exact h.passes .getting hexists hbefore id False.elim hlive
  | get hp =>
      exact h.passes (.attaching 0) (h.exists_of hp id) (by rw [hp]; exact id) id False.elim
        (by rw [hp]; trivial)
  | @attach p rv hp =>
      exact h.passes (.testing rv) (h.exists_of hp id) (by rw [hp]; exact id) id False.elim
        (by rw [hp]; trivial)
  | @found p rv hp hmagic =>
      exact h.passes (.ready rv) (h.exists_of hp id) (by rw [hp]; exact id) id (fun _ => hmagic)
        (by rw [hp]; trivial)
  | notFound hp hmagic => exact h.notFound hp hmagic horder
  | init hp => exact h.init hp
  | name hp => exact h.name hp _
  | mark hp => exact h.mark hp
  | @lock p rv hp hmutex =>
      refine h.take hp (.ready rv) trivial fun q hq => ?_
      rcases hmutex with hmutex | hmutex <;> rw [hmutex] at hq <;> cases hq
  | @ownerDead p rv hp hmutex =>
      refine h.take hp (.recovering rv) trivial fun q hq => ?_
      rw [hmutex] at hq
      cases hq
  | @consistent p rv hp =>
      have hmagic := h.magic_of_ready (p := p) (by rw [hp]; trivial)
      exact h.passes (.ready rv) (h.exists_of hp id) (by rw [hp]; exact id) id (fun _ => hmagic)
        (by rw [hp]; trivial)
  | relock hp hmutex => exact h.die horder
  | unlock hp hmutex => exact h.unlock hp hmutex
  | notOwner hp hmutex => exact h.die horder
  | die hp => exact h.die horder

/-- **Locks created in order are safe**, whoever dies with them. -/
theorem safe_of_orderly (names : Process → List UInt8) {s : System}
    (h : ReflTransGen (OrderlyStep names) .start s) : Safe s :=
  (Transition.invariant (fun _ _ hs ⟨_, horder, hst⟩ => inv_step hs horder hst) h inv_start).safe

/-! ## Two processes -/

/-- Everyone uses one name. -/
def sampleNames : Process → List UInt8 := fun _ => [108, 111, 99, 107]

/-- A process creates the lock, takes it and dies, and another one gets it. -/
theorem dead_owner_safe : ∃ s, s.shlock.mutex = .held 1 ∧ s.inits = 1 ∧ Safe s := by
  have h₁ := (ReflTransGen.single ⟨.other, trivial, .create (p := 0) (.inl rfl) rfl⟩ :
    ReflTransGen (OrderlyStep sampleNames) .start _)
  have h₂ := h₁.tail ⟨.other, trivial, .attach (p := 0) rfl⟩
  have h₃ := h₂.tail ⟨.testFails, fun p => by
    by_cases hp : p = 0
    · subst hp
      exact id
    · simp [System.goto, System.start, hp, Pc.Creating],
    .notFound (p := 0) rfl (by decide)⟩
  have h₄ := h₃.tail ⟨.other, trivial, .init (p := 0) rfl⟩
  have h₅ := h₄.tail ⟨.other, trivial, .name (p := 0) rfl⟩
  have h₆ := h₅.tail ⟨.other, trivial, .mark (p := 0) rfl⟩
  have h₇ := h₆.tail ⟨.other, trivial, .lock (p := 0) rfl (.inl rfl)⟩
  have h₈ := h₇.tail ⟨.dies 0, id, .die (p := 0) trivial⟩
  have h₉ := h₈.tail ⟨.other, trivial, .eexist (p := 1) (.inl rfl) rfl⟩
  have h₁₀ := h₉.tail ⟨.other, trivial, .get (p := 1) rfl⟩
  have h₁₁ := h₁₀.tail ⟨.other, trivial, .attach (p := 1) rfl⟩
  have h₁₂ := h₁₁.tail ⟨.other, trivial, .found (p := 1) rfl rfl⟩
  have h₁₃ := h₁₂.tail ⟨.other, trivial, .ownerDead (p := 1) rfl rfl⟩
  exact ⟨_, rfl, rfl, safe_of_orderly sampleNames h₁₃⟩

/-- A second process finds the magic word missing before the first one has written it, and initialises
    the mutex while the first one holds it: then it takes it too. -/
theorem reinitialised : ∃ s, ReflTransGen (fun s s' => ∃ e, Step sampleNames s e s') .start s ∧
    s.inits = 2 ∧ s.holding 0 = true ∧ s.holding 1 = true ∧ ¬ Safe s := by
  have h₁ := (ReflTransGen.single ⟨_, .create (p := 0) (.inl rfl) rfl⟩ :
    ReflTransGen (fun s s' => ∃ e, Step sampleNames s e s') .start _)
  have h₂ := h₁.tail ⟨_, .attach (p := 0) rfl⟩
  have h₃ := h₂.tail ⟨_, .notFound (p := 0) rfl (by decide)⟩
  have h₄ := h₃.tail ⟨_, .eexist (p := 1) (.inl rfl) rfl⟩
  have h₅ := h₄.tail ⟨_, .get (p := 1) rfl⟩
  have h₆ := h₅.tail ⟨_, .attach (p := 1) rfl⟩
  have h₇ := h₆.tail ⟨_, .notFound (p := 1) rfl (by decide)⟩
  have h₈ := h₇.tail ⟨_, .init (p := 0) rfl⟩
  have h₉ := h₈.tail ⟨_, .name (p := 0) rfl⟩
  have h₁₀ := h₉.tail ⟨_, .mark (p := 0) rfl⟩
  have h₁₁ := h₁₀.tail ⟨_, .lock (p := 0) rfl (.inl rfl)⟩
  have h₁₂ := h₁₁.tail ⟨_, .init (p := 1) rfl⟩
  have h₁₃ := h₁₂.tail ⟨_, .name (p := 1) rfl⟩
  have h₁₄ := h₁₃.tail ⟨_, .mark (p := 1) rfl⟩
  have h₁₅ := h₁₄.tail ⟨_, .lock (p := 1) rfl (.inl rfl)⟩
  exact ⟨_, h₁₅, rfl, rfl, rfl, fun hsafe => absurd hsafe.once (by decide)⟩

end DentOS.Shlocks
