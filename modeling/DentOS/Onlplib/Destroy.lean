/-
  `onlp_file_uds_create` and `onlp_file_uds_destroy`, with the worker that the one starts and the other
  waits for.

  Whether destroy waits is decided by `running`, which the worker sets itself: a destroy that comes
  before that frees the control object under the worker (`destroyed_early`).  From then on, while the
  worker touches anything, `running` is set, also when the worker has failed (`Inv`).

  Between create and destroy the owner may add and remove services.

  The invariant is about the order of things: the list is freed only when the worker is gone or has not
  been made, and the object behind the list.  A run keeps it as long as no destroy comes early.
-/
import DentOS.Lib.Transition
import DentOS.Onlplib.FileUds

namespace DentOS.FileUds

open Relation

variable {Handler : Type}

/-! ## The owner, who stops the worker and frees the list -/

/-- Where the owner is: in `onlp_file_uds_create`, behind it, or in `onlp_file_uds_destroy`, which a
    create that fails calls too. -/
inductive OwnerPc where
  | creatingEventfd
  | creatingList
  | resetting
  | spawning
  | created
  /-- Behind the lock of an add. -/
  | adding
  | testing
  | terminating
  | waking
  | joining
  | freeingList
  | freeingControl
  | done

namespace OwnerPc

/-- No worker has been started. -/
def Unborn : OwnerPc → Prop
  | creatingEventfd => True
  | creatingList => True
  | resetting => True
  | spawning => True
  | _ => False

/-- Destroy frees everything, or has done so. -/
def Freeing : OwnerPc → Prop
  | freeingList => True
  | freeingControl => True
  | done => True
  | _ => False

end OwnerPc

/-- A control object, its owner, and its worker when there is one. -/
structure Lifetime (Handler : Type) where
  /-- The control object. -/
  uds : Uds Handler
  /-- Where its owner is. -/
  owner : OwnerPc
  /-- Where its worker is, if there is one. -/
  worker : Option WorkerPc
  /-- The list has been freed. -/
  listFreed : Bool
  /-- The object itself has been freed. -/
  controlFreed : Bool
  /-- The worker has touched something that was freed. -/
  fault : Bool

namespace Lifetime

/-- Behind `aim_zmalloc`. -/
def start : Lifetime Handler := ⟨.zero, .creatingEventfd, none, false, false, false⟩

/-- What a step of the worker touches has been freed. -/
def freed (s : Lifetime Handler) : Touch → Bool
  | .nothing => false
  | .control => s.controlFreed
  | .list => s.controlFreed || s.listFreed
  | .service _ => s.listFreed
  | .handler _ => s.listFreed

end Lifetime

/-! ## Steps of the owner, of the worker, and of callers -/

/-- What a step is, as far as the order of steps is concerned. -/
inductive LifeEvent where
  /-- Destroy finds that the worker is not running. -/
  | notRunning
  /-- The worker has created its epoll set. -/
  | epollCreated
  | other

/-- A step of the owner. -/
inductive OwnerStep : Lifetime Handler → LifeEvent → Lifetime Handler → Prop where
  -- onlp_file_uds_create
  | eventfd {s : Lifetime Handler} (hpc : s.owner = .creatingEventfd) :
      OwnerStep s .other { s with owner := .creatingList }
  | eventfdFails {s : Lifetime Handler} (hpc : s.owner = .creatingEventfd) :
      OwnerStep s .other { s with owner := .testing }
  | list {s : Lifetime Handler} (hpc : s.owner = .creatingList) :
      OwnerStep s .other { s with owner := .resetting }
  | listFails {s : Lifetime Handler} (hpc : s.owner = .creatingList) :
      OwnerStep s .other { s with owner := .testing }
  | reset {s : Lifetime Handler} (hpc : s.owner = .resetting) :
      OwnerStep s .other { s with uds.running := false, owner := .spawning }
  | pthreadCreate {s : Lifetime Handler} (hpc : s.owner = .spawning) :
      OwnerStep s .other { s with worker := some .starting, owner := .created }
  | pthreadCreateFails {s : Lifetime Handler} (hpc : s.owner = .spawning) :
      OwnerStep s .other { s with owner := .testing }
  -- onlp_file_uds_add and onlp_file_uds_remove
  | add {s : Lifetime Handler} (hpc : s.owner = .created) (path : String) (handler : Handler)
      (lfd : Except CreateError Int) :
      OwnerStep s .other { s with
        uds.list := (addLocked s.uds.list path handler lfd).2, owner := .adding }
  | wake {s : Lifetime Handler} (hpc : s.owner = .adding) :
      OwnerStep s .other { s with uds := s.uds.wake, owner := .created }
  | remove {s : Lifetime Handler} (hpc : s.owner = .created) (path : String) :
      OwnerStep s .other { s with uds.list := removeLocked s.uds.list path }
  -- onlp_file_uds_destroy
  | destroy {s : Lifetime Handler} (hpc : s.owner = .created) :
      OwnerStep s .other { s with owner := .testing }
  | running {s : Lifetime Handler} (hpc : s.owner = .testing) (h : s.uds.running = true) :
      OwnerStep s .other { s with owner := .terminating }
  | notRunning {s : Lifetime Handler} (hpc : s.owner = .testing) (h : s.uds.running = false) :
      OwnerStep s .notRunning { s with owner := .freeingList }
  | terminate {s : Lifetime Handler} (hpc : s.owner = .terminating) :
      OwnerStep s .other { s with uds.terminate := true, owner := .waking }
  | wakeWorker {s : Lifetime Handler} (hpc : s.owner = .waking) :
      OwnerStep s .other { s with uds := s.uds.wake, owner := .joining }
  | join {s : Lifetime Handler} (hpc : s.owner = .joining) (h : s.worker = some .exited) :
      OwnerStep s .other { s with owner := .freeingList }
  | freeList {s : Lifetime Handler} (hpc : s.owner = .freeingList) :
      OwnerStep s .other { s with uds.list := [], listFreed := true, owner := .freeingControl }
  | freeControl {s : Lifetime Handler} (hpc : s.owner = .freeingControl) :
      OwnerStep s .other { s with controlFreed := true, owner := .done }

/-- What a step of the worker is in a run. -/
def WorkerPc.event (pc pc' : WorkerPc) : LifeEvent :=
  match pc, pc' with
  | starting, setting => .epollCreated
  | _, _ => .other

/-- A step of the owner or of the worker. -/
inductive LifeStep : Lifetime Handler → LifeEvent → Lifetime Handler → Prop where
  | owner {s s' : Lifetime Handler} {e : LifeEvent} (h : OwnerStep s e s') : LifeStep s e s'
  | worker {s : Lifetime Handler} {pc pc' : WorkerPc} {touch : Touch} {uds : Uds Handler}
      (hpc : s.worker = some pc) (h : WorkerStep s.uds pc touch uds pc') :
      LifeStep s (pc.event pc') { s with
        uds := uds, worker := some pc', fault := s.fault || s.freed touch }

/-! ## What is promised: nothing is touched behind its free -/

/-- The worker touches nothing any more, or has not begun to. -/
def Idle (worker : Option WorkerPc) : Prop :=
  worker = none ∨ worker = some .starting ∨ worker = some .exited

/-- **What is freed is freed last.** -/
structure FreedLast (s : Lifetime Handler) : Prop where
  idle : s.listFreed = true ∨ s.controlFreed = true → Idle s.worker
  fault : s.fault = false

/-- **Destroy in order.**  Destroy does not look at `running` while the worker is about to set it, and the
    worker does not get its epoll set when destroy has found that it is not running. -/
def LifeEvent.InOrder (s : Lifetime Handler) : LifeEvent → Prop
  | notRunning => s.worker ≠ some .setting
  | epollCreated => ¬ s.owner.Freeing
  | other => True

/-- A step that is in order. -/
def OrderlyLife (s s' : Lifetime Handler) : Prop := ∃ e : LifeEvent, e.InOrder s ∧ LifeStep s e s'

/-! ## The invariant: the worker lives inside what the owner has made -/

/-- The worker is between setting `running` and clearing it. -/
def WorkerPc.Running : WorkerPc → Prop
  | starting => False
  | setting => False
  | exited => False
  | _ => True

/-- **The invariant**: the worker lives inside of what the owner has made, and nothing is freed before it
    is gone. -/
structure LifeInv (s : Lifetime Handler) : Prop where
  unborn : s.owner.Unborn → s.worker = none
  running : ∀ pc, s.worker = some pc → pc.Running → s.uds.running = true
  freeing : s.owner.Freeing → Idle s.worker
  listFreed : s.listFreed = true → s.owner.Freeing
  controlFreed : s.controlFreed = true → s.owner.Freeing
  fault : s.fault = false

/-- At the start there is nothing. -/
theorem lifeInv_start : LifeInv (.start : Lifetime Handler) := by
  constructor <;> simp [Lifetime.start, Idle]

section

variable {s s' : Lifetime Handler}

/-- The worker is idle when it is not running and not about to say so. -/
theorem LifeInv.idle (hs : LifeInv s) (hrunning : s.uds.running = false)
    (hsetting : s.worker ≠ some .setting) : Idle s.worker := by
  cases hworker : s.worker with
  | none => exact .inl rfl
  | some pc =>
      have hpc : ¬ pc.Running := by
        intro hpc
        rw [hs.running pc hworker hpc] at hrunning
        cases hrunning
      cases pc with
      | starting => exact .inr (.inl rfl)
      | exited => exact .inr (.inr rfl)
      | setting => exact absurd hworker hsetting
      | _ => exact absurd trivial hpc

/-- A step of the owner keeps the invariant, one case per step. -/
theorem LifeInv.owner (hs : LifeInv s) {e : LifeEvent} (horder : e.InOrder s)
    (hst : OwnerStep s e s') : LifeInv s' := by
  have hidle := hs.idle
  obtain ⟨h₁, h₂, h₃, h₄, h₅, h₆⟩ := hs
  cases hst with
  | notRunning hpc hrunning =>
      exact ⟨nofun, h₂, fun _ => hidle hrunning horder, fun _ => trivial, fun _ => trivial, h₆⟩
  | _ =>
      constructor <;>
        grind -ring -linarith -order [OwnerPc.Unborn, OwnerPc.Freeing, WorkerPc.Running, Idle,
          Uds.wake]

/-- Nothing has been freed while destroy is not freeing. -/
theorem LifeInv.freed (hs : LifeInv s) (h : ¬ s.owner.Freeing) (touch : Touch) :
    s.freed touch = false := by
  have hlist : s.listFreed = false := Bool.eq_false_iff.mpr fun hf => h (hs.listFreed hf)
  have hcontrol : s.controlFreed = false := Bool.eq_false_iff.mpr fun hf => h (hs.controlFreed hf)
  cases touch <;> simp [Lifetime.freed, hlist, hcontrol]

/-- A step of the worker keeps `running` set between the two places where it is written. -/
theorem running_worker {uds uds' : Uds Handler} {pc pc' : WorkerPc} {touch : Touch}
    (hst : WorkerStep uds pc touch uds' pc') (hrunning : pc.Running → uds.running = true) :
    pc'.Running → uds'.running = true := by
  cases hst with
  | setRunning => exact fun _ => rfl
  | epollCreate | epollCreateFails | addEventfdFails | clearRunning => exact False.elim
  | _ => exact fun _ => hrunning trivial

/-- A step of the worker keeps the invariant, one case per step. -/
theorem LifeInv.worker (hs : LifeInv s) {pc pc' : WorkerPc} {touch : Touch} {uds : Uds Handler}
    (horder : (pc.event pc').InOrder s) (hpc : s.worker = some pc)
    (hst : WorkerStep s.uds pc touch uds pc') :
    LifeInv { s with uds := uds, worker := some pc', fault := s.fault || s.freed touch } := by
  have hborn : ¬ s.owner.Unborn := fun h => by
    rw [hs.unborn h] at hpc
    cases hpc
  have hrunning := running_worker hst (hs.running pc hpc)
  refine ⟨fun h => absurd h hborn, ?_, fun hfreeing => ?_, hs.listFreed, hs.controlFreed, ?_⟩
  · rintro _ ⟨rfl⟩
    exact hrunning
  · -- a worker that has not begun to touch anything does not get its epoll set
    rcases hs.freeing hfreeing with hidle | hidle | hidle <;> rw [hidle] at hpc <;> cases hpc
    · cases hst with
      | epollCreate => exact absurd hfreeing horder
      | epollCreateFails => exact .inr (.inr rfl)
    · cases hst
  · show (s.fault || s.freed touch) = false
    rw [hs.fault, Bool.false_or]
    by_cases hfreeing : s.owner.Freeing
    · rcases hs.freeing hfreeing with hidle | hidle | hidle <;> rw [hidle] at hpc <;> cases hpc
      · cases hst <;> rfl
      · cases hst
    · exact hs.freed hfreeing touch

/-- **Every orderly step** keeps the invariant. -/
theorem lifeInv_step (hs : LifeInv s) {e : LifeEvent} (horder : e.InOrder s)
    (hst : LifeStep s e s') : LifeInv s' := by
  cases hst with
  | owner h => exact hs.owner horder h
  | worker hpc h => exact hs.worker horder hpc h

end

/-- The invariant says that the worker does not touch what is freed. -/
theorem LifeInv.freedLast {s : Lifetime Handler} (hs : LifeInv s) : FreedLast s :=
  ⟨fun h => hs.freeing (h.elim hs.listFreed hs.controlFreed), hs.fault⟩

/-- **The worker touches nothing that has been freed**, in every run that is in order. -/
theorem freed_last {s : Lifetime Handler} (h : ReflTransGen OrderlyLife .start s) : FreedLast s :=
  (Transition.invariant (fun _ _ hs ⟨_, horder, hst⟩ => lifeInv_step hs horder hst) h
    lifeInv_start).freedLast

/-! ## Small runs -/

/-- Destroy waits for a worker that runs. -/
theorem destroyed_joined : ∃ s : Lifetime Unit, s.owner = .done ∧ FreedLast s := by
  have h₁ := (ReflTransGen.single ⟨.other, trivial, .owner (.eventfd rfl)⟩ :
    ReflTransGen OrderlyLife (.start : Lifetime Unit) _)
  have h₂ := h₁.tail ⟨.other, trivial, .owner (.list rfl)⟩
  have h₃ := h₂.tail ⟨.other, trivial, .owner (.reset rfl)⟩
  have h₄ := h₃.tail ⟨.other, trivial, .owner (.pthreadCreate rfl)⟩
  have h₅ := h₄.tail ⟨.epollCreated, id, .worker rfl .epollCreate⟩
  have h₆ := h₅.tail ⟨.other, trivial, .worker rfl .setRunning⟩
  have h₇ := h₆.tail ⟨.other, trivial, .owner (.destroy rfl)⟩
  have h₈ := h₇.tail ⟨.other, trivial, .owner (.running rfl rfl)⟩
  have h₉ := h₈.tail ⟨.other, trivial, .owner (.terminate rfl)⟩
  have h₁₀ := h₉.tail ⟨.other, trivial, .owner (.wakeWorker rfl)⟩
  have h₁₁ := h₁₀.tail ⟨.other, trivial, .worker rfl (.terminated rfl)⟩
  have h₁₂ := h₁₁.tail ⟨.other, trivial, .worker rfl .clearRunning⟩
  have h₁₃ := h₁₂.tail ⟨.other, trivial, .owner (.join rfl rfl)⟩
  have h₁₄ := h₁₃.tail ⟨.other, trivial, .owner (.freeList rfl)⟩
  have h₁₅ := h₁₄.tail ⟨.other, trivial, .owner (.freeControl rfl)⟩
  exact ⟨_, rfl, freed_last h₁₅⟩

/-- A destroy at once after create finds that the worker is not running, and frees the control object
    that the worker then writes to. -/
theorem destroyed_early : ∃ s : Lifetime Unit,
    ReflTransGen (fun s s' => ∃ e, LifeStep s e s') .start s ∧ ¬ FreedLast s := by
  have h₁ := (ReflTransGen.single ⟨_, .owner (.eventfd rfl)⟩ :
    ReflTransGen (fun s s' => ∃ e, LifeStep s e s') (.start : Lifetime Unit) _)
  have h₂ := h₁.tail ⟨_, .owner (.list rfl)⟩
  have h₃ := h₂.tail ⟨_, .owner (.reset rfl)⟩
  have h₄ := h₃.tail ⟨_, .owner (.pthreadCreate rfl)⟩
  have h₅ := h₄.tail ⟨_, .owner (.destroy rfl)⟩
  have h₆ := h₅.tail ⟨_, .owner (.notRunning rfl rfl)⟩
  have h₇ := h₆.tail ⟨_, .owner (.freeList rfl)⟩
  have h₈ := h₇.tail ⟨_, .owner (.freeControl rfl)⟩
  have h₉ := h₈.tail ⟨_, .worker rfl .epollCreate⟩
  have h₁₀ := h₉.tail ⟨_, .worker rfl .setRunning⟩
  exact ⟨_, h₁₀, fun h => absurd h.fault (by decide)⟩

end DentOS.FileUds
