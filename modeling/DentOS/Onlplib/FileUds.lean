/-
  Services on domain sockets (onlplib, file_uds.c).

  A control object has a list of services and a worker thread.  `onlp_file_uds_add` appends a service to
  the list and wakes the worker, `onlp_file_uds_remove` marks one for deletion, and the worker waits for
  connections to the active services and calls their handlers.  Entries are never taken out of the list:
  the worker clears those that are marked, so that a service is known by its place in the list.

  The list is read and written under its lock, and a section under the lock is one step.  The worker
  looks at the `active` field of a service, and reads its descriptor and its handler, without the lock.
-/
import Mathlib.Logic.Function.Basic

namespace DentOS.FileUds

variable {Handler : Type}

/-! ## Services: one for each path -/

/-- `onlp_file_uds_service_t`; a handler goes with its cookie. -/
structure Service (Handler : Type) where
  /-- The path of the socket. -/
  path : Option String
  /-- The descriptor that connections come in on. -/
  lfd : Int
  /-- What is done with one. -/
  handler : Option Handler
  /-- One when it is in use, and -1 once it has been removed. -/
  active : Int

/-- `onlp_file_uds_service_clear__`. -/
def Service.clear : Service Handler := ⟨none, 0, none, 0⟩

/-- What goes wrong in `onlp_file_uds_service_create__`. -/
inductive CreateError where
  | mkdir
  | socket
  | bind
  | listen

/-- `onlp_file_uds_service_create__`, where the system calls come to `lfd`. -/
def serviceCreate (lfd : Except CreateError Int) (path : String) (handler : Handler) :
    Except CreateError (Service Handler) :=
  lfd.map fun lfd => ⟨some path, lfd, some handler, 0⟩

/-! ## The list, under its lock: add, remove, lookup -/

/-- `find_uds_locked__`: the place of a service. -/
def findUds (list : List (Service Handler)) (path : String) : Option Nat :=
  list.findIdx? fun ufp => ufp.path == some path

/-- What `onlp_file_uds_add` does under the lock, and what it returns later. -/
def addLocked (list : List (Service Handler)) (path : String) (handler : Handler)
    (lfd : Except CreateError Int) : Int × List (Service Handler) :=
  match findUds list path with
  | some _ => (-1, list)
  | none =>
      match serviceCreate lfd path handler with
      | .ok ufp => (0, list ++ [{ ufp with active := 1 }])
      | .error _ => (0, list)

/-- A service is to be deleted. -/
def Service.deactivate (ufp : Service Handler) : Service Handler := { ufp with active := -1 }

/-- What `onlp_file_uds_remove` does under the lock. -/
def removeLocked (list : List (Service Handler)) (path : String) : List (Service Handler) :=
  match findUds list path with
  | some i => list.modify i Service.deactivate
  | none => list

/-- What the worker does to an entry when it goes over the list. -/
def Service.scan (ufp : Service Handler) : Service Handler :=
  if ufp.active = -1 then .clear else ufp

/-- Whether the descriptor of an entry is in the epoll set behind that; `added` is whether `epoll_ctl`
    succeeds. -/
def Service.watch (ufp : Service Handler) (added watched : Bool) : Bool :=
  if ufp.active = 1 then watched || added
  else if ufp.active = -1 then false
  else watched

/-! ## The control object -/

/-- `onlp_file_uds_t`, with the counter of its eventfd, and the descriptors of the list that are in the
    epoll set of the worker. -/
structure Uds (Handler : Type) where
  /-- The counter of the eventfd. -/
  eventfd : Nat
  /-- The worker has been started. -/
  running : Bool
  /-- It has been told to end. -/
  terminate : Bool
  /-- The services. -/
  list : List (Service Handler)
  /-- The descriptors that the worker waits for. -/
  watched : Nat → Bool

/-- Behind `aim_zmalloc`. -/
def Uds.zero : Uds Handler := ⟨0, false, false, [], fun _ => false⟩

/-- `eventfd_write__`. -/
def Uds.wake (u : Uds Handler) : Uds Handler := { u with eventfd := u.eventfd + 1 }

/-- The section of the worker under the lock. -/
def Uds.scan (u : Uds Handler) (added : Nat → Bool) : Uds Handler :=
  { u with
    list := u.list.map Service.scan
    watched := fun i =>
      match u.list[i]? with
      | some ufp => ufp.watch (added i) (u.watched i)
      | none => u.watched i }

/-! ## The worker: what it reads with the lock, and what without -/

/-- Where `uds_thread_worker__` is.  An event is the eventfd (`none`) or a service. -/
inductive WorkerPc where
  | starting
  | setting
  | top
  | adding
  | scanning
  | waiting
  | handling (events : List (Option Nat))
  /-- The service was active. -/
  | accepting (i : Nat) (events : List (Option Nat))
  /-- There is a connection. -/
  | calling (i : Nat) (events : List (Option Nat))
  | clearing
  | exited

/-- What a step of the worker touches. -/
inductive Touch where
  | nothing
  | control
  | list
  | service (i : Nat)
  /-- The handler of a service is called. -/
  | handler (i : Nat)

/-- A step of the worker's loop, with what it touches. -/
inductive WorkerStep : Uds Handler → WorkerPc → Touch → Uds Handler → WorkerPc → Prop where
  | epollCreate {u : Uds Handler} : WorkerStep u .starting .nothing u .setting
  | epollCreateFails {u : Uds Handler} : WorkerStep u .starting .nothing u .exited
  | setRunning {u : Uds Handler} :
      WorkerStep u .setting .control { u with running := true } .top
  | terminated {u : Uds Handler} (h : u.terminate = true) : WorkerStep u .top .control u .clearing
  | goOn {u : Uds Handler} (h : u.terminate = false) : WorkerStep u .top .control u .adding
  | addEventfd {u : Uds Handler} : WorkerStep u .adding .control u .scanning
  -- the worker returns, and is still said to be running
  | addEventfdFails {u : Uds Handler} : WorkerStep u .adding .control u .exited
  | scan {u : Uds Handler} (added : Nat → Bool) :
      WorkerStep u .scanning .list (u.scan added) .waiting
  -- the events that are EPOLLIN; none at all behind EINTR
  | wait {u : Uds Handler} (events : List (Option Nat))
      (h : ∀ i, some i ∈ events → u.watched i = true) :
      WorkerStep u .waiting .nothing u (.handling events)
  | waitFails {u : Uds Handler} : WorkerStep u .waiting .nothing u .clearing
  | handled {u : Uds Handler} : WorkerStep u (.handling []) .nothing u .top
  | readEventfd {u : Uds Handler} {events : List (Option Nat)} :
      WorkerStep u (.handling (none :: events)) .control { u with eventfd := 0 } (.handling events)
  | inactive {u : Uds Handler} {i : Nat} {events : List (Option Nat)} {ufp : Service Handler}
      (hi : u.list[i]? = some ufp) (h : ufp.active ≠ 1) :
      WorkerStep u (.handling (some i :: events)) (.service i) u (.handling events)
  | active {u : Uds Handler} {i : Nat} {events : List (Option Nat)} {ufp : Service Handler}
      (hi : u.list[i]? = some ufp) (h : ufp.active = 1) :
      WorkerStep u (.handling (some i :: events)) (.service i) u (.accepting i events)
  | accept {u : Uds Handler} {i : Nat} {events : List (Option Nat)} :
      WorkerStep u (.accepting i events) (.service i) u (.calling i events)
  | acceptFails {u : Uds Handler} {i : Nat} {events : List (Option Nat)} :
      WorkerStep u (.accepting i events) (.service i) u (.handling events)
  | call {u : Uds Handler} {i : Nat} {events : List (Option Nat)} {ufp : Service Handler}
      {handler : Handler} (hi : u.list[i]? = some ufp) (h : ufp.handler = some handler) :
      WorkerStep u (.calling i events) (.handler i) u (.handling events)
  | clearRunning {u : Uds Handler} :
      WorkerStep u .clearing .control { u with running := false } .exited

/-! ## Lookups: the first service of a path -/

section

variable {list : List (Service Handler)} {path : String} {i : Nat}

/-- What is found has the path. -/
theorem path_of_findUds (h : findUds list path = some i) :
    ∃ ufp, list[i]? = some ufp ∧ ufp.path = some path := by
  obtain ⟨hlt, hpath, -⟩ := List.findIdx?_eq_some_iff_getElem.mp h
  exact ⟨list[i], List.getElem?_eq_getElem hlt, by simpa using hpath⟩

/-- What is not found is not there. -/
theorem findUds_eq_none_iff :
    findUds list path = none ↔
      ∀ (i : Nat) (ufp : Service Handler), list[i]? = some ufp → ufp.path ≠ some path := by
  rw [findUds, List.findIdx?_eq_none_iff]
  constructor
  · intro h i ufp hi hpath
    have := h ufp (List.mem_of_getElem? hi)
    rw [hpath] at this
    simp at this
  · intro h ufp hufp
    obtain ⟨i, hi⟩ := List.mem_iff_getElem?.mp hufp
    simpa using h i ufp hi

end

end DentOS.FileUds
