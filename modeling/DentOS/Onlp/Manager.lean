/-
  The manager thread of a platform (onlp, platform_manager.c): `onlp_sys_platform_manage_start`,
  `_stop` and `_join`, called by any number of callers, and the thread that they start.

  There is no lock.  `control__.eventfd` says whether the thread runs, is what a stop writes to, and is
  set to -1 by whoever closes it.  A step is one system call, or one access to `control__`; a test of
  `control__.eventfd` is one step with the call that makes it.  What the thread does between two waits
  (the callbacks of the timer wheel) touches nothing of this and is left out.

  The kernel gives out any number that is not open, so a number may be used again; how often each has
  been created and closed is counted, as are the calls of stop, which a start remembers
  (`CallerPc`), so that it can be told whether one has been made since.
-/
import Mathlib.Logic.Function.Basic
import Mathlib.Logic.Relation

namespace DentOS.Manage

open Function (update)

/-! ## The kernel: descriptors and their counters -/

/-- A file descriptor, or -1. -/
abbrev Fd := Int

/-- The number of a thread. -/
abbrev Thread := Nat

/-- The number of a caller. -/
abbrev Caller := Nat

/-- What there is to know of a number: the eventfd that is open under it and its counter, and how often
    there has been one and it has been closed. -/
structure EventFd where
  /-- An eventfd is open under the number. -/
  isOpen : Bool
  /-- Its counter. -/
  count : Nat
  /-- How often there has been one. -/
  created : Nat
  /-- How often it has been closed. -/
  closes : Nat

namespace EventFd

/-- A descriptor that was never open. -/
def unused : EventFd := ⟨false, 0, 0, 0⟩

/-- A new eventfd, with nothing written to it. -/
def create (e : EventFd) : EventFd := ⟨true, 0, e.created + 1, e.closes⟩

/-- The eventfd is closed. -/
def close (e : EventFd) : EventFd := { e with isOpen := false, closes := e.closes + 1 }

/-- The eventfd is written to, if it is open. -/
def write (e : EventFd) : EventFd := if e.isOpen then { e with count := e.count + 1 } else e

end EventFd

/-! ## Where everyone is: threads, and callers of start and stop -/

/-- Where `onlp_sys_platform_manage_thread__` is; `fd` is what it has put into the set. -/
inductive ThreadPc where
  | notCreated
  | top
  | selecting (fd : Fd)
  | checking (fd : Fd)
  | closing
  | clearing
  | returning
  | exited

/-- The thread exists. -/
def ThreadPc.Live : ThreadPc → Prop
  | notCreated => False
  | exited => False
  | _ => True

/-- Where a caller is.  `since` is the number of stops when a start was called; a join that is called
    by a blocking start has that start's `since` to return to. -/
inductive CallerPc where
  | idle
  -- start
  | creatingFd (block : Bool) (since : Nat)
  | creatingThread (block : Bool) (since : Nat)
  | closingFd
  | clearingFd
  -- stop
  | writing (block : Bool)
  -- join
  | testing (start : Option Nat)
  | joining (start : Option Nat)
  | waiting (t : Thread) (start : Option Nat)
  | closingJoined (start : Option Nat)
  | clearingJoined (start : Option Nat)

namespace CallerPc

/-- A start has created an eventfd, and is not through with `pthread_create`. -/
def Preparing : CallerPc → Prop
  | creatingThread _ _ => True
  | closingFd => True
  | clearingFd => True
  | _ => False

/-- A stop is between its test and its write. -/
def Writing : CallerPc → Prop
  | writing _ => True
  | _ => False

/-- A join is in `pthread_join` or behind it. -/
def Joining : CallerPc → Prop
  | waiting _ _ => True
  | closingJoined _ => True
  | clearingJoined _ => True
  | _ => False

/-- The blocking start that a join belongs to. -/
def start : CallerPc → Option Nat
  | testing start => start
  | joining start => start
  | waiting _ start => start
  | closingJoined start => start
  | clearingJoined start => start
  | _ => none

end CallerPc

/-- `management_ctrl_t`. -/
structure Control where
  /-- The eventfd that stops the thread. -/
  eventfd : Fd
  /-- The thread, while there is one. -/
  thread : Option Thread

/-- The state: `control__`, the descriptors, and where every thread and caller is. -/
structure Manager where
  /-- The static variable. -/
  control : Control
  /-- The descriptors. -/
  fds : Fd → EventFd
  /-- Where each thread is. -/
  threads : Thread → ThreadPc
  /-- The eventfd that was made for a thread. -/
  eventfdOf : Thread → Fd
  /-- Where each caller is. -/
  callers : Caller → CallerPc
  /-- How many stops have been called. -/
  stops : Nat
  /-- For each start that has returned 0, how many stops had been called before it. -/
  returned : List Nat

namespace Manager

/-- Static storage is zero. -/
def start : Manager where
  control := ⟨0, none⟩
  fds := fun _ => .unused
  threads := fun _ => .notCreated
  eventfdOf := fun _ => -1
  callers := fun _ => .idle
  stops := 0
  returned := []

/-- `control__.eventfd` is set. -/
def setEventfd (s : Manager) (fd : Fd) : Manager := { s with control.eventfd := fd }

/-- A descriptor is opened. -/
def createFd (s : Manager) (fd : Fd) : Manager :=
  { s with fds := update s.fds fd (s.fds fd).create }

/-- `close`, which does nothing for a negative number. -/
def closeFd (s : Manager) (fd : Fd) : Manager :=
  if fd < 0 then s else { s with fds := update s.fds fd (s.fds fd).close }

/-- A descriptor is written to. -/
def writeFd (s : Manager) (fd : Fd) : Manager :=
  { s with fds := update s.fds fd (s.fds fd).write }

/-- `pthread_create` of the thread `t`. -/
def spawn (s : Manager) (t : Thread) : Manager :=
  { s with
    control.thread := some t
    threads := update s.threads t .top
    eventfdOf := update s.eventfdOf t s.control.eventfd }

/-- A start returns 0. -/
def returns (s : Manager) (start : Option Nat) : Manager :=
  { s with returned := start.toList ++ s.returned }

end Manager

/-! ## Steps: one access to what is shared -/

/-- What a step of a caller is, as far as the order of calls is concerned. -/
inductive Event where
  /-- The test with which a start begins. -/
  | start
  /-- A start calls `eventfd`, which may fail. -/
  | eventfd (fd : Option Fd)
  /-- A join calls `pthread_join`. -/
  | pthreadJoin
  | other

/-- A step of a caller, in one of the three functions. -/
inductive CallerStep : Manager → CallerPc → Event → Manager → CallerPc → Prop where
  -- onlp_sys_platform_manage_start
  | alreadyRunning {s : Manager} (h : 0 < s.control.eventfd) :
      CallerStep s .idle .start (s.returns (some s.stops)) .idle
  | start {s : Manager} (block : Bool) (h : s.control.eventfd ≤ 0) :
      CallerStep s .idle .start s (.creatingFd block s.stops)
  | eventfd {s : Manager} {block : Bool} {since : Nat} {fd : Fd} (hfd : 0 ≤ fd)
      (h : (s.fds fd).isOpen = false) :
      CallerStep s (.creatingFd block since) (.eventfd (some fd)) ((s.createFd fd).setEventfd fd)
        (.creatingThread block since)
  | eventfdFails {s : Manager} {block : Bool} {since : Nat} :
      CallerStep s (.creatingFd block since) (.eventfd none) (s.setEventfd (-1)) .idle
  | pthreadCreate {s : Manager} {since : Nat} {t : Thread} (h : s.threads t = .notCreated) :
      CallerStep s (.creatingThread false since) .other ((s.spawn t).returns (some since)) .idle
  | pthreadCreateBlock {s : Manager} {since : Nat} {t : Thread} (h : s.threads t = .notCreated) :
      CallerStep s (.creatingThread true since) .other (s.spawn t) (.testing (some since))
  | pthreadCreateFails {s : Manager} {block : Bool} {since : Nat} :
      CallerStep s (.creatingThread block since) .other s .closingFd
  | closeFd {s : Manager} :
      CallerStep s .closingFd .other (s.closeFd s.control.eventfd) .clearingFd
  | clearFd {s : Manager} : CallerStep s .clearingFd .other (s.setEventfd (-1)) .idle
  -- onlp_sys_platform_manage_stop
  | notRunning {s : Manager} (h : s.control.eventfd ≤ 0) :
      CallerStep s .idle .other { s with stops := s.stops + 1 } .idle
  | stop {s : Manager} (block : Bool) (h : 0 < s.control.eventfd) :
      CallerStep s .idle .other { s with stops := s.stops + 1 } (.writing block)
  | write {s : Manager} :
      CallerStep s (.writing false) .other (s.writeFd s.control.eventfd) .idle
  | writeBlock {s : Manager} :
      CallerStep s (.writing true) .other (s.writeFd s.control.eventfd) (.testing none)
  -- onlp_sys_platform_manage_join; joining a thread that was never created is undefined
  | join {s : Manager} : CallerStep s .idle .other s (.testing none)
  | nothingToJoin {s : Manager} {start : Option Nat} (h : s.control.eventfd ≤ 0) :
      CallerStep s (.testing start) .other (s.returns start) .idle
  | test {s : Manager} {start : Option Nat} (h : 0 < s.control.eventfd) :
      CallerStep s (.testing start) .other s (.joining start)
  | pthreadJoin {s : Manager} {start : Option Nat} {t : Thread} (h : s.control.thread = some t) :
      CallerStep s (.joining start) .pthreadJoin s (.waiting t start)
  | joined {s : Manager} {start : Option Nat} {t : Thread} (h : s.threads t = .exited) :
      CallerStep s (.waiting t start) .other s (.closingJoined start)
  | closeJoined {s : Manager} {start : Option Nat} :
      CallerStep s (.closingJoined start) .other (s.closeFd s.control.eventfd)
        (.clearingJoined start)
  | clearJoined {s : Manager} {start : Option Nat} :
      CallerStep s (.clearingJoined start) .other ((s.setEventfd (-1)).returns start) .idle

/-- A step of the thread. -/
inductive ThreadStep : Manager → ThreadPc → Manager → ThreadPc → Prop where
  | set {s : Manager} : ThreadStep s .top s (.selecting s.control.eventfd)
  -- `select` looks at the numbers up to `control__.eventfd`
  | readable {s : Manager} {fd : Fd} (hopen : (s.fds fd).isOpen = true)
      (hcount : 0 < (s.fds fd).count) (hle : fd ≤ s.control.eventfd) :
      ThreadStep s (.selecting fd) s (.checking fd)
  -- a timeout, or an error
  | wake {s : Manager} {fd : Fd} : ThreadStep s (.selecting fd) s .top
  | isSet {s : Manager} {fd : Fd} (h : s.control.eventfd = fd) :
      ThreadStep s (.checking fd) s .closing
  | notSet {s : Manager} {fd : Fd} (h : s.control.eventfd ≠ fd) :
      ThreadStep s (.checking fd) s .top
  | close {s : Manager} : ThreadStep s .closing (s.closeFd s.control.eventfd) .clearing
  | clear {s : Manager} : ThreadStep s .clearing (s.setEventfd (-1)) .returning
  | exit {s : Manager} : ThreadStep s .returning s .exited

/-- A step of any of them. -/
inductive Step : Manager → Event → Manager → Prop where
  | caller {s s' : Manager} {c : Caller} {pc : CallerPc} {e : Event} (hc : s.callers c = pc)
      {pc' : CallerPc} (h : CallerStep s pc e s' pc') :
      Step s e { s' with callers := update s'.callers c pc' }
  | thread {s s' : Manager} {t : Thread} {pc : ThreadPc} (ht : s.threads t = pc)
      {pc' : ThreadPc} (h : ThreadStep s pc s' pc') :
      Step s .other { s' with threads := update s'.threads t pc' }

/-! ## What the calls promise -/

/-- An eventfd is held by the start that prepares a thread, or by the thread that it was made for. -/
def Manager.InUse (s : Manager) (fd : Fd) : Prop :=
  (s.control.eventfd = fd ∧ ∃ c, (s.callers c).Preparing) ∨
    ∃ t, (s.threads t).Live ∧ s.eventfdOf t = fd

/-- **The lifecycle of the thread.** -/
structure Correct (s : Manager) : Prop where
  /-- There is at most one manager thread. -/
  one : ∀ t t', (s.threads t).Live → (s.threads t').Live → t = t'
  /-- No eventfd is closed twice, -/
  atMostOnce : ∀ fd, (s.fds fd).closes ≤ (s.fds fd).created
  /-- and one that is no longer in use has been closed. -/
  closed : ∀ fd, ¬ s.InUse fd → (s.fds fd).closes = (s.fds fd).created
  /-- When a start has returned 0 and there has been no stop since, there is a thread that has not been
      told to terminate. -/
  kept : s.stops ∈ s.returned → ∃ t, (s.threads t).Live ∧ (s.fds (s.eventfdOf t)).count = 0

/-! ## Calls in order: no two of them at the same time -/

/-- **Calls in order.**  A start that finds the thread running finds no other start that prepares it, no
    stop that has not written yet, and nothing written.  When a start calls `eventfd` there is no thread
    and no other start that prepares one; if it gets a number, that is not 0, and there is no stop that
    has not written yet and no join that waits or is about to close.  And `pthread_join` is not called
    while a start prepares the thread. -/
def Event.InOrder (s : Manager) : Event → Prop
  | start =>
      0 < s.control.eventfd →
        (∀ c, ¬ (s.callers c).Preparing) ∧ (∀ c, ¬ (s.callers c).Writing) ∧
          (s.fds s.control.eventfd).count = 0
  | eventfd fd? =>
      (∀ t, ¬ (s.threads t).Live) ∧ (∀ c, ¬ (s.callers c).Preparing) ∧
        ∀ fd, fd? = some fd →
          fd ≠ 0 ∧ (∀ c, ¬ (s.callers c).Writing) ∧ ∀ c, ¬ (s.callers c).Joining
  | pthreadJoin => ∀ c, ¬ (s.callers c).Preparing
  | other => True

/-- A step in order. -/
def OrderlyStep (s s' : Manager) : Prop := ∃ e : Event, e.InOrder s ∧ Step s e s'

end DentOS.Manage
