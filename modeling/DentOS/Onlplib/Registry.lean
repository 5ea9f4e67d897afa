/-
  Calls of `onlp_file_uds_add` and `onlp_file_uds_remove`, by any number of callers, with the worker.

  The list has at most one entry for a path, as long as a path is not added while its old entry waits
  for the worker; that entry is the active service when the path is registered (`Inv`).

  1. `Reports` says what each call promises: an add returns 0 exactly when the path is not registered and
     its socket can be made, behind a remove it is not registered, and no handler of a removed service is
     called.
  2. `Inv` connects the list with what has been promised.  An entry that is appended and one that is
     marked keep it, and the worker changes nothing that it speaks of.
  3. `inv_step` puts the cases together; `calls_report` follows for every run whose calls are in order.

  A caller sleeps between the lock of an add and the wake-up of the worker, so other calls come in
  between; that is why `Inv` speaks of paths and not of callers.
-/
import DentOS.Lib.Transition
import DentOS.Onlplib.FileUds

namespace DentOS.FileUds

open Function (update)
open Relation

variable {Handler : Type}

/-! ## Runs: callers that add and remove, and the worker beside them -/

/-- The number of a caller. -/
abbrev Caller := Nat

/-- Where a caller is. -/
inductive CallerPc where
  | idle
  /-- Behind the lock of an add that will return `rv`. -/
  | waking (rv : Int)

/-- The state: the list and its worker, where every caller is, and what has been promised. -/
structure Registry (Handler : Type) where
  /-- The control object. -/
  uds : Uds Handler
  /-- Where the worker is. -/
  worker : WorkerPc
  /-- Where every caller is. -/
  callers : Caller → CallerPc
  /-- An add of the path has returned 0 (or is about to), and there has been no remove since. -/
  registered : String → Bool
  /-- The services that a remove has found. -/
  removed : List Nat

/-- Behind `onlp_file_uds_create`. -/
def Registry.start : Registry Handler :=
  ⟨.zero, .starting, fun _ => .idle, fun _ => false, []⟩

/-- What a step is, seen from outside. -/
inductive Event (Handler : Type) where
  | add (path : String) (lfd : Except CreateError Int) (rv : Int)
  | remove (path : String)
  | handler (i : Nat)
  | other

/-- What a step of the worker is in a run. -/
def Touch.event : Touch → Event Handler
  | handler i => .handler i
  | _ => .other

/-- A step of a caller or of the worker. -/
inductive Step : Registry Handler → Event Handler → Registry Handler → Prop where
  | add {s : Registry Handler} {c : Caller} {path : String} {handler : Handler}
      {lfd : Except CreateError Int} {rv : Int} {list : List (Service Handler)}
      (hc : s.callers c = .idle) (h : addLocked s.uds.list path handler lfd = (rv, list)) :
      Step s (.add path lfd rv) { s with
        uds.list := list
        callers := update s.callers c (.waking rv)
        registered := update s.registered path (s.registered path || rv == 0) }
  | wake {s : Registry Handler} {c : Caller} {rv : Int} (hc : s.callers c = .waking rv) :
      Step s .other { s with uds := s.uds.wake, callers := update s.callers c .idle }
  | remove {s : Registry Handler} {path : String} :
      Step s (.remove path) { s with
        uds.list := removeLocked s.uds.list path
        registered := update s.registered path false
        removed := (findUds s.uds.list path).toList ++ s.removed }
  | worker {s : Registry Handler} {touch : Touch} {uds : Uds Handler} {pc : WorkerPc}
      (h : WorkerStep s.uds s.worker touch uds pc) :
      Step s touch.event { s with uds := uds, worker := pc }

/-! ## What the calls report -/

/-- An entry is an active service for a path. -/
def ActiveFor (list : List (Service Handler)) (path : String) (i : Nat) : Prop :=
  ∃ ufp, list[i]? = some ufp ∧ ufp.path = some path ∧ ufp.active = 1

/-- **What an event reports is so.**  An add returns 0 exactly when the path is not registered and the
    service can be created, and then there is one active service; what is refused as a duplicate is
    registered; and a handler that is called is not that of a service that has been removed. -/
def Event.Reports (s s' : Registry Handler) : Event Handler → Prop
  | add path lfd rv =>
      (rv = 0 ↔ s.registered path = false ∧ ∃ fd, lfd = .ok fd) ∧
        (rv = 0 → ∃ i, ActiveFor s'.uds.list path i ∧
          ∀ j, ActiveFor s'.uds.list path j → j = i) ∧
        ((findUds s.uds.list path).isSome → s.registered path = true)
  | remove path => s'.registered path = false
  | handler i => i ∉ s.removed
  | other => True

/-- **Calls in order.**  A path is not added while an entry for it waits for its deletion, and the service
    can be created unless the path is a duplicate; and a path is not removed while the worker is between
    its look at `active` and the call of the handler of its service. -/
def Event.InOrder (s : Registry Handler) : Event Handler → Prop
  | add path lfd _ =>
      (∀ (i : Nat) (ufp : Service Handler), s.uds.list[i]? = some ufp → ufp.path = some path →
        ufp.active ≠ -1) ∧
      (findUds s.uds.list path = none → ∃ fd, lfd = .ok fd)
  | remove path => ∀ i events, (s.worker = .accepting i events ∨ s.worker = .calling i events) →
      ∀ ufp, s.uds.list[i]? = some ufp → ufp.path ≠ some path
  | handler _ => True
  | other => True

/-- A step that is in order. -/
def OrderlyStep (s s' : Registry Handler) : Prop := ∃ e : Event Handler, e.InOrder s ∧ Step s e s'

/-! ## The invariant: the list against what was promised -/

/-- An entry is an active service, or waits for its deletion, or is cleared. -/
def Service.Ok (ufp : Service Handler) : Prop :=
  (ufp.path ≠ none ∧ (ufp.active = 1 ∨ ufp.active = -1)) ∨ (ufp.path = none ∧ ufp.active = 0)

/-- **The invariant**: every service is sound, no path is served twice, and what is registered is active. -/
structure Inv (s : Registry Handler) : Prop where
  services : ∀ (i : Nat) (ufp : Service Handler), s.uds.list[i]? = some ufp → ufp.Ok
  unique : ∀ (i j : Nat) (ufp ufp' : Service Handler), s.uds.list[i]? = some ufp →
    s.uds.list[j]? = some ufp' → ufp.path ≠ none → ufp.path = ufp'.path → i = j
  registered : ∀ path, s.registered path = true ↔ ∃ i, ActiveFor s.uds.list path i
  removed : ∀ i ∈ s.removed, ∃ ufp, s.uds.list[i]? = some ufp ∧ ufp.active ≠ 1
  handling : ∀ i events, (s.worker = .accepting i events ∨ s.worker = .calling i events) →
    ∃ ufp, s.uds.list[i]? = some ufp ∧ ufp.active = 1

/-- At the start there are no services. -/
theorem inv_start : Inv (.start : Registry Handler) := by
  constructor <;> simp [Registry.start, Uds.zero, ActiveFor]

section

variable {s s' : Registry Handler} {path : String}

/-- What an add comes to. -/
theorem addLocked_cases {list list' : List (Service Handler)} {handler : Handler}
    {lfd : Except CreateError Int} {rv : Int}
    (h : addLocked list path handler lfd = (rv, list')) :
    ((findUds list path).isSome ∧ rv = -1 ∧ list' = list) ∨
      findUds list path = none ∧ rv = 0 ∧
        ((∃ fd, lfd = .ok fd ∧ list' = list ++ [⟨some path, fd, some handler, 1⟩]) ∨
          (∃ e, lfd = .error e) ∧ list' = list) := by
  unfold addLocked at h
  cases hfind : findUds list path with
  | some i =>
      rw [hfind] at h
      obtain ⟨rfl, rfl⟩ := Prod.mk.inj h
      exact .inl ⟨rfl, rfl, rfl⟩
  | none =>
      rw [hfind] at h
      cases lfd with
      | ok fd =>
          obtain ⟨rfl, rfl⟩ := Prod.mk.inj h
          exact .inr ⟨rfl, rfl, .inl ⟨fd, rfl, rfl⟩⟩
      | error e =>
          obtain ⟨rfl, rfl⟩ := Prod.mk.inj h
          exact .inr ⟨rfl, rfl, .inr ⟨⟨e, rfl⟩, rfl⟩⟩

/-- What waits for no deletion and has the path is its active service. -/
theorem Inv.activeFor (hs : Inv s) {i : Nat} {ufp : Service Handler}
    (hi : s.uds.list[i]? = some ufp) (hpath : ufp.path = some path) (hactive : ufp.active ≠ -1) :
    ActiveFor s.uds.list path i := by
  rcases hs.services i ufp hi with ⟨-, hone | hdel⟩ | ⟨hnone, -⟩
  · exact ⟨ufp, hi, hpath, hone⟩
  · exact absurd hdel hactive
  · rw [hnone] at hpath
    cases hpath

/-- There is one active service for a path at most. -/
theorem Inv.activeFor_unique (hs : Inv s) {i j : Nat} (hi : ActiveFor s.uds.list path i)
    (hj : ActiveFor s.uds.list path j) : i = j := by
  obtain ⟨ufp, hufp, hpath, -⟩ := hi
  obtain ⟨ufp', hufp', hpath', -⟩ := hj
  exact hs.unique i j ufp ufp' hufp hufp' (by rw [hpath]; nofun) (hpath.trans hpath'.symm)

/-- What is not found is not registered. -/
theorem Inv.registered_eq_false (hs : Inv s) (h : findUds s.uds.list path = none) :
    s.registered path = false := by
  refine Bool.eq_false_iff.mpr fun hreg => ?_
  obtain ⟨i, ufp, hi, hpath, -⟩ := (hs.registered path).mp hreg
  exact findUds_eq_none_iff.mp h i ufp hi hpath

/-! ## An entry is appended, and promised -/

/-- A service of the longer list. -/
theorem getElem?_append_new {list : List (Service Handler)} {new : Service Handler} {i : Nat}
    {ufp : Service Handler} :
    (list ++ [new])[i]? = some ufp ↔ list[i]? = some ufp ∨ i = list.length ∧ ufp = new := by
  rcases Nat.lt_trichotomy i list.length with hlt | rfl | hgt
  · rw [List.getElem?_append_left hlt]
    exact ⟨.inl, fun h => h.elim id fun h => absurd h.1 (Nat.ne_of_lt hlt)⟩
  · rw [List.getElem?_append_right (Nat.le_refl _), Nat.sub_self, List.getElem?_eq_none (Nat.le_refl _)]
    simp [eq_comm]
  · rw [List.getElem?_eq_none (by simp; omega), List.getElem?_eq_none (by omega)]
    simp
    omega

/-- What is active in the longer list. -/
theorem activeFor_append {list : List (Service Handler)} {new : Service Handler} {i : Nat}
    {path : String} :
    ActiveFor (list ++ [new]) path i ↔
      ActiveFor list path i ∨ i = list.length ∧ new.path = some path ∧ new.active = 1 := by
  unfold ActiveFor
  simp only [getElem?_append_new]
  constructor
  · rintro ⟨ufp, hi | ⟨hi, rfl⟩, hpath, hactive⟩
    · exact .inl ⟨ufp, hi, hpath, hactive⟩
    · exact .inr ⟨hi, hpath, hactive⟩
  · rintro (⟨ufp, hi, hpath, hactive⟩ | ⟨hi, hpath, hactive⟩)
    · exact ⟨ufp, .inl hi, hpath, hactive⟩
    · exact ⟨new, .inr ⟨hi, rfl⟩, hpath, hactive⟩

/-- A new service keeps the invariant. -/
theorem Inv.append (hs : Inv s) (hnone : findUds s.uds.list path = none) (fd : Int)
    (handler : Handler) (callers : Caller → CallerPc) :
    Inv { s with
      uds.list := s.uds.list ++ [⟨some path, fd, some handler, 1⟩]
      callers := callers
      registered := update s.registered path true } := by
  have hnew := findUds_eq_none_iff.mp hnone
  refine ⟨fun i ufp hi => ?_, fun i j ufp ufp' hi hj hne heq => ?_, fun path' => ?_,
    fun i hi => ?_, fun i events hpc => ?_⟩
  · rcases getElem?_append_new.mp hi with hi | ⟨-, rfl⟩
    · exact hs.services i ufp hi
    · exact .inl ⟨nofun, .inl rfl⟩
  · rcases getElem?_append_new.mp hi with hi | ⟨rfl, rfl⟩ <;>
      rcases getElem?_append_new.mp hj with hj | ⟨rfl, rfl⟩
    · exact hs.unique i j ufp ufp' hi hj hne heq
    · exact absurd heq (hnew i ufp hi)
    · exact absurd heq.symm (hnew j ufp' hj)
    · rfl
  · show update s.registered path true path' = true ↔ ∃ i, ActiveFor _ path' i
    simp only [activeFor_append, exists_or]
    by_cases hpath : path' = path
    · subst hpath
      rw [Function.update_self]
      exact iff_of_true rfl (.inr (by simp))
    · rw [Function.update_of_ne hpath, hs.registered path']
      refine ⟨.inl, fun h => h.elim id ?_⟩
      rintro ⟨-, -, heq, -⟩
      exact absurd (Option.some.inj heq).symm hpath
  · obtain ⟨ufp, hufp, hactive⟩ := hs.removed i hi
    exact ⟨ufp, getElem?_append_new.mpr (.inl hufp), hactive⟩
  · obtain ⟨ufp, hufp, hactive⟩ := hs.handling i events hpc
    exact ⟨ufp, getElem?_append_new.mpr (.inl hufp), hactive⟩

/-! ## An entry is marked, and no longer promised -/

/-- A service of the list with one deactivated. -/
theorem getElem?_deactivate {list : List (Service Handler)} {i j : Nat} {ufp : Service Handler} :
    (list.modify i Service.deactivate)[j]? = some ufp ↔
      ∃ ufp₀, list[j]? = some ufp₀ ∧ ufp = if i = j then ufp₀.deactivate else ufp₀ := by
  rw [List.getElem?_modify]
  cases list[j]? with
  | none => simp
  | some ufp₀ =>
      split <;> simp_all [eq_comm]

/-- What is active with one deactivated. -/
theorem activeFor_deactivate {list : List (Service Handler)} {i j : Nat} {path : String} :
    ActiveFor (list.modify i Service.deactivate) path j ↔ ActiveFor list path j ∧ i ≠ j := by
  unfold ActiveFor
  simp only [getElem?_deactivate]
  constructor
  · rintro ⟨ufp, ⟨ufp₀, hj, rfl⟩, hpath, hactive⟩
    by_cases hij : i = j
    · rw [if_pos hij] at hactive
      exact absurd hactive (by decide : (-1 : Int) ≠ 1)
    · rw [if_neg hij] at hpath hactive
      exact ⟨⟨ufp₀, hj, hpath, hactive⟩, hij⟩
  · rintro ⟨⟨ufp, hj, hpath, hactive⟩, hij⟩
    exact ⟨ufp, ⟨ufp, hj, (if_neg hij).symm⟩, hpath, hactive⟩

/-- A removal keeps the invariant. -/
theorem Inv.remove (hs : Inv s) {i : Nat} (hfind : findUds s.uds.list path = some i)
    (horder : (Event.remove path).InOrder s) :
    Inv { s with
      uds.list := s.uds.list.modify i Service.deactivate
      registered := update s.registered path false
      removed := i :: s.removed } := by
  obtain ⟨ufpᵢ, hufpᵢ, hpathᵢ⟩ := path_of_findUds hfind
  -- the entries keep their paths
  have hkeep : ∀ {j ufp}, (s.uds.list.modify i Service.deactivate)[j]? = some ufp →
      ∃ ufp₀, s.uds.list[j]? = some ufp₀ ∧ ufp.path = ufp₀.path ∧
        (ufp = ufp₀ ∨ ufp.active = -1 ∧ i = j) := by
    intro j ufp hj
    obtain ⟨ufp₀, hufp₀, rfl⟩ := getElem?_deactivate.mp hj
    refine ⟨ufp₀, hufp₀, ?_⟩
    split
    · rename_i hij
      exact ⟨rfl, .inr ⟨rfl, hij⟩⟩
    · exact ⟨rfl, .inl rfl⟩
  refine ⟨fun j ufp hj => ?_, fun j k ufp ufp' hj hk hne heq => ?_, fun path' => ?_,
    fun j hj => ?_, fun j events hpc => ?_⟩
  · obtain ⟨ufp₀, hufp₀, hpath, rfl | ⟨hactive, rfl⟩⟩ := hkeep hj
    · exact hs.services j ufp hufp₀
    · rw [hufpᵢ] at hufp₀
      obtain rfl := Option.some.inj hufp₀
      exact .inl ⟨by rw [hpath, hpathᵢ]; nofun, .inr hactive⟩
  · obtain ⟨ufp₀, hufp₀, hpath, -⟩ := hkeep hj
    obtain ⟨ufp₁, hufp₁, hpath', -⟩ := hkeep hk
    exact hs.unique j k ufp₀ ufp₁ hufp₀ hufp₁ (hpath ▸ hne) (by rw [← hpath, ← hpath', heq])
  · show update s.registered path false path' = true ↔ ∃ i, ActiveFor _ path' i
    simp only [activeFor_deactivate]
    by_cases hpath : path' = path
    · subst hpath
      rw [Function.update_self]
      refine iff_of_false nofun ?_
      rintro ⟨j, ⟨ufp, hj, hpathⱼ, -⟩, hij⟩
      exact hij (hs.unique i j ufpᵢ ufp hufpᵢ hj (by rw [hpathᵢ]; nofun) (hpathᵢ.trans hpathⱼ.symm))
    · rw [Function.update_of_ne hpath, hs.registered path']
      refine exists_congr fun j => ⟨fun h => ⟨h, ?_⟩, fun h => h.1⟩
      rintro rfl
      obtain ⟨ufp, hj, hpathⱼ, -⟩ := h
      rw [hufpᵢ] at hj
      obtain rfl := Option.some.inj hj
      exact hpath (Option.some.inj (hpathⱼ.symm.trans hpathᵢ))
  · rcases List.mem_cons.mp hj with rfl | hj
    · exact ⟨ufpᵢ.deactivate, getElem?_deactivate.mpr ⟨ufpᵢ, hufpᵢ, (if_pos rfl).symm⟩,
        (by decide : (-1 : Int) ≠ 1)⟩
    · obtain ⟨ufp, hufp, hactive⟩ := hs.removed j hj
      by_cases hij : i = j
      · exact ⟨ufp.deactivate, getElem?_deactivate.mpr ⟨ufp, hufp, (if_pos hij).symm⟩,
          (by decide : (-1 : Int) ≠ 1)⟩
      · exact ⟨ufp, getElem?_deactivate.mpr ⟨ufp, hufp, (if_neg hij).symm⟩, hactive⟩
  · obtain ⟨ufp, hufp, hactive⟩ := hs.handling j events hpc
    have hij : i ≠ j := by
      rintro rfl
      exact horder i events hpc ufpᵢ hufpᵢ hpathᵢ
    exact ⟨ufp, getElem?_deactivate.mpr ⟨ufp, hufp, (if_neg hij).symm⟩, hactive⟩

/-! ## The worker -/

/-- A service of the list that was scanned. -/
theorem getElem?_scan {list : List (Service Handler)} {i : Nat} {ufp : Service Handler} :
    (list.map Service.scan)[i]? = some ufp ↔ ∃ ufp₀, list[i]? = some ufp₀ ∧ ufp = ufp₀.scan := by
  rw [List.getElem?_map, Option.map_eq_some_iff]
  simp only [eq_comm]

/-- An entry that has a path behind the scan is as it was. -/
theorem Service.scan_cases (ufp : Service Handler) :
    ufp.scan = ufp ∧ ufp.active ≠ -1 ∨ ufp.scan = .clear ∧ ufp.active = -1 := by
  unfold Service.scan
  split
  · exact .inr ⟨rfl, ‹_›⟩
  · exact .inl ⟨rfl, ‹_›⟩

/-- The scan changes nothing about what is active. -/
theorem activeFor_scan {list : List (Service Handler)} {i : Nat} :
    ActiveFor (list.map Service.scan) path i ↔ ActiveFor list path i := by
  unfold ActiveFor
  simp only [getElem?_scan]
  constructor
  · rintro ⟨ufp, ⟨ufp₀, hi, rfl⟩, hpath, hactive⟩
    rcases ufp₀.scan_cases with ⟨heq, -⟩ | ⟨heq, -⟩
    · rw [heq] at hpath hactive
      exact ⟨ufp₀, hi, hpath, hactive⟩
    · rw [heq] at hpath
      cases hpath
  · rintro ⟨ufp, hi, hpath, hactive⟩
    rcases ufp.scan_cases with ⟨heq, -⟩ | ⟨-, hdel⟩
    · exact ⟨ufp, ⟨ufp, hi, heq.symm⟩, hpath, hactive⟩
    · rw [hdel] at hactive
      cases hactive

/-- The scan keeps the invariant. -/
theorem Inv.scan (hs : Inv s) (added : Nat → Bool) :
    Inv { s with uds := s.uds.scan added, worker := .waiting } := by
  refine ⟨fun i ufp hi => ?_, fun i j ufp ufp' hi hj hne heq => ?_, fun path => ?_,
    fun i hi => ?_, fun i events hpc => ?_⟩
  · obtain ⟨ufp₀, hufp₀, rfl⟩ := getElem?_scan.mp hi
    rcases ufp₀.scan_cases with ⟨heq, -⟩ | ⟨heq, -⟩ <;> rw [heq]
    · exact hs.services i ufp₀ hufp₀
    · exact .inr ⟨rfl, rfl⟩
  · obtain ⟨ufp₀, hufp₀, rfl⟩ := getElem?_scan.mp hi
    obtain ⟨ufp₁, hufp₁, rfl⟩ := getElem?_scan.mp hj
    rcases ufp₀.scan_cases with ⟨h₀, -⟩ | ⟨h₀, -⟩ <;> rw [h₀] at hne heq
    · rcases ufp₁.scan_cases with ⟨h₁, -⟩ | ⟨h₁, -⟩ <;> rw [h₁] at heq
      · exact hs.unique i j ufp₀ ufp₁ hufp₀ hufp₁ hne heq
      · exact absurd heq hne
    · exact absurd rfl hne
  · rw [hs.registered path]
    exact exists_congr fun i => activeFor_scan.symm
  · obtain ⟨ufp, hufp, hactive⟩ := hs.removed i hi
    refine ⟨ufp.scan, getElem?_scan.mpr ⟨ufp, hufp, rfl⟩, ?_⟩
    rcases ufp.scan_cases with ⟨heq, -⟩ | ⟨heq, -⟩ <;> rw [heq]
    · exact hactive
    · exact (by decide : (0 : Int) ≠ 1)
  · rcases hpc with hpc | hpc <;> cases hpc

/-- The list is as it was. -/
theorem Inv.goes (hs : Inv s) {uds : Uds Handler} {pc : WorkerPc} (hlist : uds.list = s.uds.list)
    (hpc : ∀ i events, (pc = .accepting i events ∨ pc = .calling i events) →
      ∃ ufp, s.uds.list[i]? = some ufp ∧ ufp.active = 1) :
    Inv { s with uds := uds, worker := pc } := by
  obtain ⟨h₁, h₂, h₃, h₄, h₅⟩ := hs
  rw [← hlist] at h₁ h₂ h₃ h₄ hpc
  exact ⟨h₁, h₂, h₃, h₄, hpc⟩

/-- A step of the worker keeps the invariant, one case per step. -/
theorem Inv.worker (hs : Inv s) {touch : Touch} {uds : Uds Handler} {pc : WorkerPc}
    (hst : WorkerStep s.uds s.worker touch uds pc) : Inv { s with uds := uds, worker := pc } := by
  generalize hpc : s.worker = worker at hst
  cases hst with
  | scan added => exact hs.scan added
  | active hi h =>
      refine hs.goes rfl ?_
      rintro j events (heq | heq) <;> cases heq
      exact ⟨_, hi, h⟩
  | accept =>
      refine hs.goes rfl ?_
      rintro j events (heq | heq) <;> cases heq
      exact hs.handling _ _ (.inl hpc)
  | _ => exact hs.goes rfl (by rintro j events (heq | heq) <;> cases heq)

/-! ## Steps and runs keep the invariant -/

/-- What an add that is in order comes to. -/
theorem Inv.add (hs : Inv s) {handler : Handler} {lfd : Except CreateError Int} {rv : Int}
    {list : List (Service Handler)} (horder : (Event.add path lfd rv).InOrder s)
    (h : addLocked s.uds.list path handler lfd = (rv, list)) :
    (∃ i, findUds s.uds.list path = some i ∧ s.registered path = true ∧ rv = -1 ∧
        list = s.uds.list) ∨
      ∃ fd, findUds s.uds.list path = none ∧ s.registered path = false ∧ lfd = .ok fd ∧ rv = 0 ∧
        list = s.uds.list ++ [⟨some path, fd, some handler, 1⟩] := by
  rcases addLocked_cases h with ⟨hfound, hrv, hlist⟩ | ⟨hnone, hrv, ⟨fd, hlfd, hlist⟩ | ⟨⟨e, he⟩, -⟩⟩
  · obtain ⟨i, hi⟩ := Option.isSome_iff_exists.mp hfound
    obtain ⟨ufp, hufp, hpath⟩ := path_of_findUds hi
    have hactive := hs.activeFor hufp hpath (horder.1 i ufp hufp hpath)
    exact .inl ⟨i, hi, (hs.registered path).mpr ⟨i, hactive⟩, hrv, hlist⟩
  · exact .inr ⟨fd, hnone, hs.registered_eq_false hnone, hlfd, hrv, hlist⟩
  · obtain ⟨fd, hfd⟩ := horder.2 hnone
    rw [he] at hfd
    cases hfd

/-- **Every orderly step** keeps the invariant. -/
theorem inv_step (hs : Inv s) {e : Event Handler} (horder : e.InOrder s) (hst : Step s e s') :
    Inv s' := by
  cases hst with
  | @add c path handler lfd rv list hc h =>
      rcases hs.add horder h with ⟨i, -, hreg, rfl, rfl⟩ | ⟨fd, hnone, hreg, -, rfl, rfl⟩
      · have hsame : update s.registered path (s.registered path || (-1 : Int) == 0) =
            s.registered := Function.update_eq_self_iff.mpr (by rw [hreg]; rfl)
        rw [hsame]
        exact ⟨hs.services, hs.unique, hs.registered, hs.removed, hs.handling⟩
      · rw [hreg]
        exact hs.append hnone fd handler _
  | wake hc => exact ⟨hs.services, hs.unique, hs.registered, hs.removed, hs.handling⟩
  | @remove path =>
      unfold removeLocked
      cases hfind : findUds s.uds.list path with
      | some i => exact hs.remove hfind horder
      | none =>
          have hsame : update s.registered path false = s.registered :=
            Function.update_eq_self_iff.mpr (hs.registered_eq_false hfind).symm
          rw [hsame]
          exact ⟨hs.services, hs.unique, hs.registered, hs.removed, hs.handling⟩
  | worker h => exact hs.worker h

/-- Every orderly step reports what it does. -/
theorem Inv.reports (hs : Inv s) {e : Event Handler} (horder : e.InOrder s) (hst : Step s e s') :
    e.Reports s s' := by
  have hs' := inv_step hs horder hst
  cases hst with
  | @add c path handler lfd rv list hc h =>
      rcases hs.add horder h with ⟨i, hfind, hreg, rfl, rfl⟩ | ⟨fd, hnone, hreg, rfl, rfl, rfl⟩
      · refine ⟨iff_of_false nofun fun h => ?_, nofun, fun _ => hreg⟩
        rw [hreg] at h
        cases h.1
      · refine ⟨iff_of_true rfl ⟨hreg, fd, rfl⟩, fun _ => ?_, fun h => ?_⟩
        · have hnew : ActiveFor (s.uds.list ++ [⟨some path, fd, some handler, 1⟩]) path
              s.uds.list.length := activeFor_append.mpr (.inr ⟨rfl, rfl, rfl⟩)
          exact ⟨_, hnew, fun j hj => hs'.activeFor_unique hj hnew⟩
        · rw [hnone] at h
          cases h
  | wake hc => trivial
  | remove => exact Function.update_self _ _ _
  | @worker touch uds pc h =>
      generalize hpc : s.worker = worker at h
      cases h with
      | @call i events ufp handler hi hhandler =>
          intro hremoved
          obtain ⟨ufp₀, hufp₀, hactive₀⟩ := hs.removed i hremoved
          obtain ⟨ufp₁, hufp₁, hactive₁⟩ := hs.handling i events (.inr hpc)
          rw [hufp₀] at hufp₁
          obtain rfl := Option.some.inj hufp₁
          exact hactive₀ hactive₁
      | _ => trivial

end

/-- **The calls report what is so**, at every step of every run in which they are made in order. -/
theorem calls_report {s s' : Registry Handler} {e : Event Handler}
    (h : ReflTransGen OrderlyStep .start s) (horder : e.InOrder s) (hst : Step s e s') :
    e.Reports s s' :=
  (Transition.invariant (fun _ _ hs ⟨_, horder, hst⟩ => inv_step hs horder hst) h
    inv_start).reports horder hst

/-! ## Small runs -/

/-- A step of the worker is in order. -/
theorem orderly_worker {s : Registry Handler} {touch : Touch} {uds : Uds Handler} {pc : WorkerPc}
    (h : WorkerStep s.uds s.worker touch uds pc) : OrderlyStep s { s with uds := uds, worker := pc } := by
  refine ⟨touch.event, ?_, .worker h⟩
  cases touch <;> exact trivial

/-- Two services are added, the second is removed, and the worker calls the handler of the first. -/
theorem handled_beside_removed : ∃ s₁ s₂ s₃ s₄ : Registry Unit,
    (Event.add "/b" (.ok 6) 0).Reports s₁ s₂ ∧ (Event.remove "/b").Reports s₂ s₃ ∧
      ReflTransGen OrderlyStep .start s₄ ∧ s₄.removed = [1] ∧
        ∃ s₅, Step s₄ (.handler 0) s₅ ∧ (Event.handler 0).Reports s₄ s₅ := by
  have hadd : addLocked (Registry.start : Registry Unit).uds.list "/a" () (.ok 5) =
      (0, [⟨some "/a", 5, some (), 1⟩]) := rfl
  have hadd' : addLocked [⟨some "/a", 5, some (), 1⟩] "/b" () (.ok 6) =
      (0, [⟨some "/a", 5, some (), 1⟩, ⟨some "/b", 6, some (), 1⟩]) := rfl
  have h₁ : ReflTransGen OrderlyStep (.start : Registry Unit) _ :=
    .single ⟨.add "/a" (.ok 5) 0, ⟨nofun, fun _ => ⟨5, rfl⟩⟩, .add (c := 0) rfl hadd⟩
  -- the path is new, and its service is created
  have hnew : ∀ (i : Nat) (ufp : Service Unit), [(⟨some "/a", 5, some (), 1⟩ : Service Unit)][i]? =
      some ufp → ufp.path = some "/b" → ufp.active ≠ -1 := by
    intro i ufp hi _
    rw [List.mem_singleton.mp (List.mem_of_getElem? hi)]
    decide
  have hadded := calls_report (e := .add "/b" (.ok 6) 0) h₁ ⟨hnew, fun _ => ⟨6, rfl⟩⟩
    (.add (c := 1) rfl hadd')
  have h₂ := h₁.tail ⟨.add "/b" (.ok 6) 0, ⟨hnew, fun _ => ⟨6, rfl⟩⟩, .add (c := 1) rfl hadd'⟩
  -- the worker has not started yet
  have hremoved := calls_report (e := .remove "/b") h₂ (fun _ _ h => by cases h <;> contradiction) .remove
  have h₃ := h₂.tail ⟨.remove "/b", (fun _ _ h => by cases h <;> contradiction), .remove⟩
  have h₄ := (h₃.tail (orderly_worker .epollCreate)).tail (orderly_worker .setRunning)
  have h₅ := (h₄.tail (orderly_worker (.goOn rfl))).tail (orderly_worker .addEventfd)
  have h₆ := h₅.tail (orderly_worker (.scan fun _ => true))
  have h₇ := h₆.tail (orderly_worker (.wait [some 0] fun i hi => by
    cases List.mem_singleton.mp hi
    rfl))
  have h₈ := (h₇.tail (orderly_worker (.active rfl rfl))).tail (orderly_worker .accept)
  exact ⟨_, _, _, _, hadded, hremoved, h₈, rfl, _,
    (.worker (.call rfl rfl) : Step _ (Touch.event (.handler 0)) _),
    calls_report h₈ trivial (.worker (.call rfl rfl) : Step _ (Touch.event (.handler 0)) _)⟩

/-- An add whose service cannot be created returns 0; a path that has been removed is a duplicate
    until the worker gets to it; and the handler of a service is called that has been removed behind
    the worker's look at it. -/
theorem calls_misreport :
    (∃ s : Registry Unit, Step .start (.add "/a" (.error .mkdir) 0) s ∧
      ¬ (Event.add "/a" (.error .mkdir) 0).Reports .start s) ∧
    (∃ s s' : Registry Unit, ReflTransGen (fun s s' => ∃ e, Step s e s') .start s ∧
      Step s (.add "/a" (.ok 6) (-1)) s' ∧ ¬ (Event.add "/a" (.ok 6) (-1)).Reports s s') ∧
    ∃ s s' : Registry Unit, ReflTransGen (fun s s' => ∃ e, Step s e s') .start s ∧
      Step s (.handler 0) s' ∧ ¬ (Event.handler 0).Reports s s' := by
  have hfails : addLocked (Registry.start : Registry Unit).uds.list "/a" () (.error .mkdir) =
      (0, []) := rfl
  have hadds : addLocked (Registry.start : Registry Unit).uds.list "/a" () (.ok 5) =
      (0, [⟨some "/a", 5, some (), 1⟩]) := rfl
  have hrefused : addLocked [⟨some "/a", 5, some (), -1⟩] "/a" () (.ok 6) =
      (-1, [⟨some "/a", 5, some (), -1⟩]) := rfl
  have h₁ := (ReflTransGen.single ⟨_, .add (c := 0) rfl hadds⟩ :
    ReflTransGen (fun s s' : Registry Unit => ∃ e, Step s e s') .start _)
  refine ⟨⟨_, .add (c := 0) rfl hfails, fun h => ?_⟩, ?_, ?_⟩
  · obtain ⟨-, fd, hfd⟩ := h.1.mp rfl
    cases hfd
  · have h₂ := h₁.tail ⟨.remove "/a", .remove⟩
    refine ⟨_, _, h₂, .add (c := 1) rfl hrefused, fun h => ?_⟩
    exact absurd (h.2.2 rfl) (by decide)
  · have h₂ := h₁.tail ⟨_, .worker .epollCreate⟩
    have h₃ := h₂.tail ⟨_, .worker .setRunning⟩
    have h₄ := h₃.tail ⟨_, .worker (.goOn rfl)⟩
    have h₅ := h₄.tail ⟨_, .worker .addEventfd⟩
    have h₆ := h₅.tail ⟨_, .worker (.scan fun _ => true)⟩
    have h₇ := h₆.tail ⟨_, .worker (.wait [some 0] fun i hi => by
      cases List.mem_singleton.mp hi
      rfl)⟩
    have h₈ := h₇.tail ⟨_, .worker (.active rfl rfl)⟩
    have h₉ := h₈.tail ⟨.remove "/a", .remove⟩
    have h₁₀ := h₉.tail ⟨_, .worker .accept⟩
    exact ⟨_, _, h₁₀, (.worker (.call rfl rfl) : Step _ (Touch.event (.handler 0)) _),
      fun h => h (List.mem_singleton.mpr rfl)⟩

end DentOS.FileUds
