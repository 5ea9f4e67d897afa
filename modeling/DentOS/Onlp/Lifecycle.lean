/-
  The lifecycle of the manager thread, as long as the calls are made in order.

  At any time `control__.eventfd` has one holder: a start between `eventfd` and `pthread_create`,
  the thread that it has created, or nobody (`Held`).  Only the holder's eventfd is open, and the
  holder alone closes it and sets `control__.eventfd` to -1; a join that gets so far finds that done.

  What a start promises is kept as long as nobody writes to the eventfd, and a write belongs to a
  stop that has been called since (`Promises`).

  Out of order this fails: `stop(0); start(0)` finds the eventfd of a thread that has been told to
  terminate, and returns 0 (`stop_start_broken`).
-/
import DentOS.Lib.Transition
import DentOS.Onlp.Manager

namespace DentOS.Manage

open Function (update)
open Relation

/-! ## The holder -/

/-- Who holds `control__.eventfd`. -/
inductive Holder where
  | nobody
  | start (c : Caller)
  | thread (t : Thread)

/-- A start that holds it. -/
def CallerPc.Holding (eventfd : Fd) (e : EventFd) : CallerPc → Prop
  | creatingThread _ _ => 0 < eventfd ∧ e.isOpen = true
  | closingFd => 0 < eventfd ∧ e.isOpen = true
  | clearingFd => 0 < eventfd ∧ e.isOpen = false
  | _ => False

/-- A thread that holds it, for which the eventfd `own` was made. -/
def ThreadPc.Holding (eventfd own : Fd) (e : EventFd) : ThreadPc → Prop
  | top => eventfd = own ∧ e.isOpen = true
  | selecting fd => eventfd = own ∧ e.isOpen = true ∧ fd = own
  | checking fd => eventfd = own ∧ e.isOpen = true ∧ fd = own ∧ 0 < e.count
  | closing => eventfd = own ∧ e.isOpen = true ∧ 0 < e.count
  | clearing => eventfd = own ∧ e.isOpen = false ∧ 0 < e.count
  | returning => eventfd < 0
  | _ => False

/-- The holder has the eventfd as `control__` says. -/
def Holder.Ok (s : Manager) : Holder → Prop
  | nobody => s.control.eventfd < 0 ∨ s.control.eventfd = 0 ∧ s.control.thread = none
  | start c => (s.callers c).Holding s.control.eventfd (s.fds s.control.eventfd)
  | thread t =>
      s.control.thread = some t ∧
        (s.threads t).Holding s.control.eventfd (s.eventfdOf t) (s.fds s.control.eventfd)

/-- `control__.eventfd` has one holder, and only that is open. -/
structure Held (s : Manager) (h : Holder) : Prop where
  closes : ∀ fd, (s.fds fd).created = (s.fds fd).closes + (s.fds fd).isOpen.toNat
  opens : ∀ fd, (s.fds fd).isOpen = true → fd = s.control.eventfd ∧ 0 < fd
  holder : h.Ok s
  preparing : ∀ c, (s.callers c).Preparing → h = .start c
  live : ∀ t, (s.threads t).Live → h = .thread t
  waiting : ∀ c t start, s.callers c = .waiting t start →
    h = .thread t ∨ h = .nobody ∧ s.control.eventfd < 0
  joined : ∀ c start, s.callers c = .closingJoined start ∨ s.callers c = .clearingJoined start →
    h = .nobody ∧ s.control.eventfd < 0

/-- At the start nobody has anything. -/
theorem held_start : Held .start .nobody := by
  constructor <;> simp [Manager.start, EventFd.unused, Holder.Ok, CallerPc.Preparing, ThreadPc.Live]

/-- A caller that has the eventfd is preparing. -/
theorem CallerPc.Holding.preparing {eventfd : Fd} {e : EventFd} {pc : CallerPc}
    (h : pc.Holding eventfd e) : pc.Preparing := by
  cases pc <;> trivial

/-- A thread that has the eventfd is alive. -/
theorem ThreadPc.Holding.live {eventfd own : Fd} {e : EventFd} {pc : ThreadPc}
    (h : pc.Holding eventfd own e) : pc.Live := by
  cases pc <;> trivial

/-- Where nobody has it, `control__.eventfd` is no descriptor. -/
theorem Holder.Ok.le {s : Manager} (h : nobody.Ok s) : s.control.eventfd ≤ 0 :=
  h.elim Int.le_of_lt fun h => Int.le_of_eq h.1

/-- Without a thread and without a start that prepares one, nobody holds it. -/
theorem Held.nobody {s : Manager} {h : Holder} (hi : Held s h) (hlive : ∀ t, ¬ (s.threads t).Live)
    (hprep : ∀ c, ¬ (s.callers c).Preparing) : h = .nobody := by
  have hok := hi.holder
  cases h with
  | nobody => rfl
  | start c => exact absurd hok.preparing (hprep c)
  | thread t => exact absurd hok.2.live (hlive t)

section

variable {s s' : Manager} {h : Holder}

/-- A caller that does not hold it goes on. -/
theorem Held.caller (hi : Held s h) {c : Caller} (pc : CallerPc)
    (hbefore : ¬ (s.callers c).Preparing) (hafter : ¬ pc.Preparing)
    (hwaiting : ∀ t start, pc = .waiting t start →
      h = .thread t ∨ h = .nobody ∧ s.control.eventfd < 0)
    (hjoined : ∀ start, pc = .closingJoined start ∨ pc = .clearingJoined start →
      h = .nobody ∧ s.control.eventfd < 0) (stops : Nat) (returned : List Nat) :
    Held { s with callers := update s.callers c pc, stops := stops, returned := returned } h := by
  obtain ⟨h₁, h₂, h₃, h₄, h₅, h₆, h₇⟩ := hi
  cases h <;> constructor <;>
    grind -ring -linarith -order [Holder.Ok, Function.update_apply, CallerPc.Holding.preparing]

/-- The same where the caller is not joining either. -/
theorem Held.passes (hi : Held s h) {c : Caller} {pc : CallerPc} (hc : s.callers c = pc)
    (pc' : CallerPc) (hbefore : ¬ pc.Preparing) (hafter : ¬ pc'.Preparing) (hjoining : ¬ pc'.Joining)
    (stops : Nat) (returned : List Nat) :
    Held { s with callers := update s.callers c pc', stops := stops, returned := returned } h := by
  refine hi.caller pc' (by rw [hc]; exact hbefore) hafter ?_ ?_ stops returned
  · rintro t start rfl
    exact absurd trivial hjoining
  · rintro start (rfl | rfl)
    · exact absurd trivial hjoining
    · exact absurd trivial hjoining

/-- The thread that holds it goes on. -/
theorem Held.goes (hi : Held s h) {t : Thread} {pc : ThreadPc} (hlive : (s.threads t).Live)
    (hpc : (s.threads t).Holding s.control.eventfd (s.eventfdOf t) (s.fds s.control.eventfd) →
      pc.Holding s.control.eventfd (s.eventfdOf t) (s.fds s.control.eventfd)) :
    Held { s with threads := update s.threads t pc } h := by
  have hh := hi.live t hlive
  obtain ⟨h₁, h₂, h₃, h₄, h₅, h₆, h₇⟩ := hi
  constructor <;> grind -ring -linarith -order [Holder.Ok, Function.update_apply]

/-- A write changes a counter, which only grows. -/
theorem EventFd.write_spec (e : EventFd) : e.write.isOpen = e.isOpen ∧ e.write.created = e.created ∧
    e.write.closes = e.closes ∧ e.count ≤ e.write.count := by
  unfold EventFd.write
  split
  · exact ⟨rfl, rfl, rfl, Nat.le_succ _⟩
  · exact ⟨rfl, rfl, rfl, Nat.le_refl _⟩

/-- A write changes the count of one descriptor, upwards, and nothing else. -/
theorem writeFd_spec (s : Manager) (fd g : Fd) :
    ((s.writeFd fd).fds g).isOpen = (s.fds g).isOpen ∧
      ((s.writeFd fd).fds g).created = (s.fds g).created ∧
      ((s.writeFd fd).fds g).closes = (s.fds g).closes ∧
      (s.fds g).count ≤ ((s.writeFd fd).fds g).count := by
  show (update s.fds fd (s.fds fd).write g).isOpen = _ ∧ _
  by_cases hg : g = fd
  · subst hg
    have hself : (s.writeFd g).fds g = (s.fds g).write := Function.update_self _ _ _
    rw [Function.update_self, hself]
    exact (s.fds g).write_spec
  · have hother : (s.writeFd fd).fds g = s.fds g := Function.update_of_ne hg _ _
    rw [Function.update_of_ne hg, hother]
    exact ⟨rfl, rfl, rfl, Nat.le_refl _⟩

/-- A write leaves what a caller has. -/
theorem CallerPc.Holding.write {eventfd : Fd} {e e' : EventFd} {pc : CallerPc}
    (h : pc.Holding eventfd e) (hopen : e'.isOpen = e.isOpen) : pc.Holding eventfd e' := by
  cases pc <;> first | exact h | exact ⟨h.1, hopen.trans h.2⟩

/-- A write leaves what a thread has. -/
theorem ThreadPc.Holding.write {eventfd own : Fd} {e e' : EventFd} {pc : ThreadPc}
    (h : pc.Holding eventfd own e) (hopen : e'.isOpen = e.isOpen) (hcount : e.count ≤ e'.count) :
    pc.Holding eventfd own e' := by
  cases pc <;> grind -ring -linarith -order [ThreadPc.Holding]

/-- Writing to an eventfd tells whoever holds it, and does nothing else. -/
theorem Held.write (hi : Held s h) (fd : Fd) : Held (s.writeFd fd) h := by
  have hspec := writeFd_spec s fd
  refine ⟨fun g => ?_, fun g hg => ?_, ?_, hi.preparing, hi.live, hi.waiting, hi.joined⟩
  · obtain ⟨hopen, hcreated, hcloses, -⟩ := hspec g
    rw [hopen, hcreated, hcloses]
    exact hi.closes g
  · rw [(hspec g).1] at hg
    exact hi.opens g hg
  · obtain ⟨hopen, -, -, hcount⟩ := hspec s.control.eventfd
    have hok := hi.holder
    cases h with
    | nobody => exact hok
    | start c => exact CallerPc.Holding.write hok hopen
    | thread t => exact ⟨hok.1, hok.2.write hopen hcount⟩

/-- Closing the eventfd that is open. -/
theorem closeFd_spec (hi : Held s h) (hopen : (s.fds s.control.eventfd).isOpen = true) :
    s.closeFd s.control.eventfd =
      { s with fds := update s.fds s.control.eventfd (s.fds s.control.eventfd).close } := by
  have hpos := (hi.opens _ hopen).2
  rw [Manager.closeFd, if_neg (Int.not_lt.mpr (Int.le_of_lt hpos))]

/-- **A step of a thread** keeps the invariant, one case per step. -/
theorem held_thread (hi : Held s h) {t : Thread} {pc pc' : ThreadPc} (ht : s.threads t = pc)
    (hst : ThreadStep s pc s' pc') :
    ∃ h', Held { s' with threads := update s'.threads t pc' } h' := by
  cases hst with
  | set =>
      refine ⟨h, hi.goes (by rw [ht]; trivial) ?_⟩
      rw [ht]
      exact fun hk => ⟨hk.1, hk.2, hk.1⟩
  | readable hopen hcount hle =>
      refine ⟨h, hi.goes (by rw [ht]; trivial) ?_⟩
      rw [ht]
      rintro ⟨heq, ho, rfl⟩
      exact ⟨heq, ho, rfl, by rwa [heq]⟩
  | wake =>
      refine ⟨h, hi.goes (by rw [ht]; trivial) ?_⟩
      rw [ht]
      exact fun hk => ⟨hk.1, hk.2.1⟩
  | isSet heq =>
      refine ⟨h, hi.goes (by rw [ht]; trivial) ?_⟩
      rw [ht]
      exact fun hk => ⟨hk.1, hk.2.1, hk.2.2.2⟩
  | notSet hne =>
      refine ⟨h, hi.goes (by rw [ht]; trivial) ?_⟩
      rw [ht]
      exact fun hk => ⟨hk.1, hk.2.1⟩
  | close =>
      have hh : h = .thread t := hi.live t (by rw [ht]; trivial)
      subst hh
      have hk := hi.holder.2
      rw [ht] at hk
      rw [closeFd_spec hi hk.2.1]
      refine ⟨.thread t, ?_⟩
      obtain ⟨h₁, h₂, h₃, h₄, h₅, h₆, h₇⟩ := hi
      constructor <;>
        grind -ring -linarith -order [Holder.Ok, ThreadPc.Holding, ThreadPc.Live,
          Function.update_apply, EventFd.close]
  | clear =>
      have hh : h = .thread t := hi.live t (by rw [ht]; trivial)
      subst hh
      refine ⟨.thread t, ?_⟩
      simp only [Manager.setEventfd]
      obtain ⟨h₁, h₂, h₃, h₄, h₅, h₆, h₇⟩ := hi
      constructor <;>
        grind -ring -linarith -order [Holder.Ok, ThreadPc.Holding, ThreadPc.Live,
          Function.update_apply]
  | exit =>
      have hh : h = .thread t := hi.live t (by rw [ht]; trivial)
      subst hh
      refine ⟨.nobody, ?_⟩
      obtain ⟨h₁, h₂, h₃, h₄, h₅, h₆, h₇⟩ := hi
      constructor <;>
        grind -ring -linarith -order [Holder.Ok, ThreadPc.Holding, ThreadPc.Live,
          Function.update_apply]

/-- A start hands over to the thread it creates. -/
theorem Held.spawn {c : Caller} (hi : Held s (.start c)) (pc : CallerPc) (returned : List Nat)
    (t : Thread) {block : Bool} {since : Nat} (hbefore : s.callers c = .creatingThread block since)
    (hafter : ¬ pc.Preparing) (hwaiting : ∀ t start, pc ≠ .waiting t start)
    (hjoined : ∀ start, pc ≠ .closingJoined start ∧ pc ≠ .clearingJoined start) :
    Held { s.spawn t with callers := update s.callers c pc, returned := returned }
      (.thread t) := by
  simp only [Manager.spawn]
  obtain ⟨h₁, h₂, h₃, h₄, h₅, h₆, h₇⟩ := hi
  constructor <;>
    grind -ring -linarith -order [Holder.Ok, CallerPc.Holding, ThreadPc.Holding,
      Function.update_apply]

/-- A start creates an eventfd while nobody holds one. -/
theorem Held.creates (hi : Held s .nobody) (c : Caller) (block : Bool) (since : Nat) {fd : Fd}
    (hfd : 0 < fd) (hclosed : (s.fds fd).isOpen = false) (hlive : ∀ t, ¬ (s.threads t).Live)
    (hprep : ∀ c, ¬ (s.callers c).Preparing) (hjoining : ∀ c, ¬ (s.callers c).Joining) :
    Held { (s.createFd fd).setEventfd fd with
      callers := update s.callers c (.creatingThread block since) } (.start c) := by
  simp only [Manager.setEventfd, Manager.createFd]
  obtain ⟨h₁, h₂, h₃, h₄, h₅, h₆, h₇⟩ := hi
  constructor <;>
    grind -ring -linarith -order [Holder.Ok, CallerPc.Holding, CallerPc.Joining,
      Function.update_apply, EventFd.create]

/-- A start that has not got its thread. -/
theorem Held.fails {c : Caller} (hi : Held s (.start c)) {block : Bool} {since : Nat}
    (hc : s.callers c = .creatingThread block since) :
    Held { s with callers := update s.callers c .closingFd } (.start c) := by
  obtain ⟨h₁, h₂, h₃, h₄, h₅, h₆, h₇⟩ := hi
  constructor <;>
    grind -ring -linarith -order [Holder.Ok, CallerPc.Holding, CallerPc.Preparing,
      Function.update_apply]

/-- A start that closes its eventfd keeps what it holds. -/
theorem Held.closeFd {c : Caller} (hi : Held s (.start c)) (hc : s.callers c = .closingFd) :
    Held { s.closeFd s.control.eventfd with callers := update s.callers c .clearingFd }
      (.start c) := by
  have hk : (s.callers c).Holding _ _ := hi.holder
  rw [hc] at hk
  rw [closeFd_spec hi hk.2]
  obtain ⟨h₁, h₂, h₃, h₄, h₅, h₆, h₇⟩ := hi
  constructor <;>
    grind -ring -linarith -order [Holder.Ok, CallerPc.Holding, CallerPc.Preparing,
      Function.update_apply, EventFd.close]

/-- `control__.eventfd` is set to -1 when no eventfd is open. -/
theorem Held.clears (hi : Held s h) {c : Caller} (hclosed : ∀ fd, (s.fds fd).isOpen = false)
    (hprep : ∀ c', c' ≠ c → ¬ (s.callers c').Preparing) (hlive : ∀ t, ¬ (s.threads t).Live)
    (returned : List Nat) :
    Held { s.setEventfd (-1) with returned := returned, callers := update s.callers c .idle }
      .nobody := by
  have hneg : (-1 : Int) < 0 := by decide
  refine ⟨hi.closes, fun fd hopen => ?_, .inl hneg, fun c' hc' => ?_,
    fun t ht => absurd ht (hlive t), fun _ _ _ _ => .inr ⟨rfl, hneg⟩, fun _ _ _ => ⟨rfl, hneg⟩⟩
  · rw [show ((s.setEventfd (-1)).fds fd) = s.fds fd from rfl, hclosed fd] at hopen
    cases hopen
  · have hc' : (update s.callers c .idle c').Preparing := hc'
    by_cases heq : c' = c
    · rw [heq, Function.update_self] at hc'
      exact hc'.elim
    · rw [Function.update_of_ne heq] at hc'
      exact absurd hc' (hprep c' heq)

/-- Nothing is open when nobody holds it. -/
theorem Held.closed (hi : Held s .nobody) (fd : Fd) : (s.fds fd).isOpen = false := by
  refine Bool.eq_false_iff.mpr fun hopen => ?_
  obtain ⟨rfl, hpos⟩ := hi.opens fd hopen
  exact absurd hpos (Int.not_lt.mpr hi.holder.le)

/-- **A step of a caller** keeps the invariant, one case per step. -/
theorem held_caller (hi : Held s h) {c : Caller} {pc pc' : CallerPc} {e : Event}
    (horder : e.InOrder s) (hc : s.callers c = pc) (hst : CallerStep s pc e s' pc') :
    ∃ h', Held { s' with callers := update s'.callers c pc' } h' := by
  cases hst with
  | alreadyRunning hpos => exact ⟨h, hi.passes hc .idle id id id _ _⟩
  | start block hle => exact ⟨h, hi.passes hc (.creatingFd block s.stops) id id id _ _⟩
  | @eventfd block since fd hfd hclosed =>
      obtain ⟨hlive, hprep, hgot⟩ := horder
      obtain ⟨hzero, hwriting, hjoining⟩ := hgot _ rfl
      have hh := hi.nobody hlive hprep
      subst hh
      have hfd' : 0 < fd := Int.lt_iff_le_and_ne.mpr ⟨hfd, Ne.symm hzero⟩
      exact ⟨_, hi.creates c block since hfd' hclosed hlive hprep hjoining⟩
  | eventfdFails =>
      obtain ⟨hlive, hprep, -⟩ := horder
      have hh := hi.nobody hlive hprep
      subst hh
      exact ⟨_, hi.clears hi.closed (fun c' _ => hprep c') hlive _⟩
  | pthreadCreate hnew =>
      have hh := hi.preparing c (by rw [hc]; trivial)
      subst hh
      exact ⟨_, hi.spawn .idle _ _ hc id nofun fun _ => ⟨nofun, nofun⟩⟩
  | @pthreadCreateBlock since t hnew =>
      have hh := hi.preparing c (by rw [hc]; trivial)
      subst hh
      exact ⟨_, hi.spawn (.testing (some since)) _ t hc id nofun fun _ => ⟨nofun, nofun⟩⟩
  | pthreadCreateFails =>
      have hh := hi.preparing c (by rw [hc]; trivial)
      subst hh
      exact ⟨_, hi.fails hc⟩
  | closeFd =>
      have hh := hi.preparing c (by rw [hc]; trivial)
      subst hh
      have hcallers : (s.closeFd s.control.eventfd).callers = s.callers := by
        unfold Manager.closeFd
        split <;> rfl
      rw [hcallers]
      exact ⟨_, hi.closeFd hc⟩
  | clearFd =>
      have hh := hi.preparing c (by rw [hc]; trivial)
      subst hh
      have hk : (s.callers c).Holding _ _ := hi.holder
      rw [hc] at hk
      refine ⟨_, hi.clears (fun fd => ?_) (fun c' hne hc' => hne ?_) (fun t ht => ?_) _⟩
      · refine Bool.eq_false_iff.mpr fun hopen => ?_
        obtain ⟨rfl, -⟩ := hi.opens fd hopen
        rw [hk.2] at hopen
        cases hopen
      · have heq := hi.preparing c' hc'
        injection heq with heq
        exact heq.symm
      · cases hi.live t ht
  | notRunning hle => exact ⟨h, hi.passes hc .idle id id id _ _⟩
  | stop block hpos => exact ⟨h, hi.passes hc (.writing block) id id id _ _⟩
  | write => exact ⟨h, (hi.write _).passes hc .idle id id id _ _⟩
  | writeBlock => exact ⟨h, (hi.write _).passes hc (.testing none) id id id _ _⟩
  | join => exact ⟨h, hi.passes hc (.testing none) id id id _ _⟩
  | nothingToJoin hle => exact ⟨h, hi.passes hc .idle id id id _ _⟩
  | @test start hpos => exact ⟨h, hi.passes hc (.joining start) id id id _ _⟩
  | @pthreadJoin start t hthread =>
      refine ⟨h, hi.caller (.waiting t start) (by rw [hc]; exact id) id ?_ nofun _ _⟩
      rintro _ _ ⟨rfl, rfl⟩
      have hok := hi.holder
      cases h with
      | nobody =>
          rcases hok with hneg | ⟨-, hnone⟩
          · exact .inr ⟨rfl, hneg⟩
          · rw [hthread] at hnone
            cases hnone
      | start c => exact absurd (CallerPc.Holding.preparing hok) (horder c)
      | thread t' =>
          have heq := hthread.symm.trans hok.1
          injection heq with heq
          exact .inl (by rw [heq])
  | @joined start t hexited =>
      refine ⟨h, hi.caller (.closingJoined start) (by rw [hc]; exact id) id nofun ?_ _ _⟩
      intro _ _
      rcases hi.waiting c _ _ hc with rfl | hnobody
      · have hk := hi.holder.2
        rw [hexited] at hk
        exact hk.elim
      · exact hnobody
  | @closeJoined start =>
      obtain ⟨rfl, hneg⟩ := hi.joined c _ (.inl hc)
      rw [Manager.closeFd, if_pos hneg]
      exact ⟨.nobody, hi.caller (.clearingJoined start) (by rw [hc]; exact id) id nofun
        (fun _ _ => ⟨rfl, hneg⟩) _ _⟩
  | clearJoined =>
      obtain ⟨rfl, hneg⟩ := hi.joined c _ (.inr hc)
      refine ⟨_, hi.clears hi.closed (fun c' _ hc' => ?_) (fun t ht => ?_) _⟩
      · cases hi.preparing c' hc'
      · cases hi.live t ht

/-- **Every orderly step** keeps the invariant. -/
theorem held_step (hi : Held s h) {e : Event} (horder : e.InOrder s) (hst : Step s e s') :
    ∃ h', Held s' h' := by
  cases hst with
  | caller hc hstep => exact held_caller hi horder hc hstep
  | thread ht hstep => exact held_thread hi ht hstep

/-! ## The promise of a start -/

/-- No stop is about to write. -/
def Silent (s : Manager) : Prop := ∀ c, ¬ (s.callers c).Writing

/-- The number of stops that a start remembers. -/
def CallerPc.since : CallerPc → Option Nat
  | creatingFd _ since => some since
  | creatingThread _ since => some since
  | pc => pc.start

/-- The thread runs on: nobody has written, is about to write, or prepares another. -/
def Kept (s : Manager) : Prop :=
  0 < s.control.eventfd ∧ (s.fds s.control.eventfd).count = 0 ∧ Silent s ∧
    ∀ c, ¬ (s.callers c).Preparing

/-- What a start promises is kept until the next stop. -/
structure Promises (s : Manager) : Prop where
  since : ∀ c n, (s.callers c).since = some n → n ≤ s.stops
  returned : ∀ n ∈ s.returned, n ≤ s.stops
  creating : ∀ c block, s.callers c = .creatingThread block s.stops →
    (s.fds s.control.eventfd).count = 0 ∧ Silent s
  pending : ∀ c, (s.callers c).start = some s.stops → Kept s
  kept : s.stops ∈ s.returned → Kept s

/-- A call that has started is one since that time. -/
theorem CallerPc.since_of_start {pc : CallerPc} {n : Nat} (h : pc.start = some n) :
    pc.since = some n := by
  cases pc <;> first | exact h | cases h

/-- No promise has to be kept. -/
structure Dead (s : Manager) : Prop where
  creating : ∀ c block, s.callers c ≠ .creatingThread block s.stops
  pending : ∀ c, (s.callers c).start ≠ some s.stops
  returned : s.stops ∉ s.returned

/-- No promise has to be kept where nobody creates a thread and the thread does not run on. -/
theorem Promises.dead (hp : Promises s) (hkept : ¬ Kept s)
    (hcreating : ∀ c block, s.callers c ≠ .creatingThread block s.stops) : Dead s :=
  ⟨hcreating, fun c hc => hkept (hp.pending c hc), fun hn => hkept (hp.kept hn)⟩

/-- Without a thread that runs there is nothing to keep. -/
theorem Promises.dead_of_nonpos (hp : Promises s) (hi : Held s h) (hle : s.control.eventfd ≤ 0) :
    Dead s := by
  refine hp.dead (fun hk => absurd hk.1 (Int.not_lt.mpr hle)) fun c block hc => ?_
  have hh := hi.preparing c (by rw [hc]; trivial)
  subst hh
  have hok : (s.callers c).Holding _ _ := hi.holder
  rw [hc] at hok
  exact absurd hok.1 (Int.not_lt.mpr hle)

/-- While a start prepares a thread, that start alone can have promised something. -/
theorem Promises.dead_of_preparing (hp : Promises s) (hi : Held s h) {c : Caller}
    (hprep : (s.callers c).Preparing)
    (hc : ∀ block since, s.callers c ≠ .creatingThread block since) : Dead s := by
  refine hp.dead (fun hk => hk.2.2.2 c hprep) fun c' block hc' => ?_
  have hh := hi.preparing c hprep
  have hh' := hi.preparing c' (by rw [hc']; trivial)
  rw [hh] at hh'
  cases hh'
  exact hc _ _ hc'

/-- A caller goes on where no promise has to be kept. -/
theorem Dead.promises (hd : Dead s) (hp : Promises s) (c : Caller) (pc : CallerPc)
    (hsince : ∀ n, pc.since = some n → (s.callers c).since = some n)
    (hstart : ∀ n, pc.start = some n → (s.callers c).start = some n)
    (hcreating : ∀ block since, pc ≠ .creatingThread block since)
    (control : Control) (fds : Fd → EventFd) {returned : List Nat}
    (hreturned : ∀ n ∈ returned, (s.callers c).start = some n ∨ n ∈ s.returned) :
    Promises { s with
      control := control, fds := fds, returned := returned, callers := update s.callers c pc } := by
  have hnot : s.stops ∉ returned := by
    intro hn
    rcases hreturned _ hn with hn | hn
    · exact hd.pending c hn
    · exact hd.returned hn
  have hsinceOf := @CallerPc.since_of_start
  obtain ⟨d₁, d₂, d₃⟩ := hd
  obtain ⟨p₁, p₂, p₃, p₄, p₅⟩ := hp
  constructor <;> grind -ring -linarith -order [Function.update_apply]

/-- A caller goes on, and neither closes nor writes. -/
theorem Promises.moves (hp : Promises s) (c : Caller) (pc : CallerPc)
    (hsince : ∀ n, pc.since = some n → n ≤ s.stops)
    (hstart : ∀ n, pc.start = some n → (s.callers c).start = some n) (hwriting : ¬ pc.Writing)
    (hpreparing : pc.Preparing → (s.callers c).Preparing)
    (hcreating : ∀ block since, pc ≠ .creatingThread block since) :
    Promises { s with callers := update s.callers c pc } := by
  obtain ⟨p₁, p₂, p₃, p₄, p₅⟩ := hp
  constructor <;> grind -ring -linarith -order [Function.update_apply, Kept, Silent]

/-- A stop is called: no promise has to be kept any more. -/
theorem Promises.stop (hp : Promises s) {c : Caller} {pc : CallerPc} (hsince : pc.since = none) :
    Promises { s with stops := s.stops + 1, callers := update s.callers c pc } := by
  obtain ⟨p₁, p₂, p₃, p₄, p₅⟩ := hp
  have hsinceOf := @CallerPc.since_of_start
  have hcreating : ∀ block n, (CallerPc.creatingThread block n).since = some n := fun _ _ => rfl
  constructor <;> grind -ring -linarith -order [Function.update_apply]

/-- A start creates its thread, and keeps what it promises. -/
theorem Promises.spawn {c : Caller} {block : Bool} {since : Nat} (hi : Held s (.start c))
    (hp : Promises s) (hc : s.callers c = .creatingThread block since) (t : Thread) {pc : CallerPc}
    (returned : List Nat) (hreturned : ∀ n ∈ returned, n = since ∨ n ∈ s.returned)
    (hstart : ∀ n, pc.start = some n → n = since) (hsince : pc.since = pc.start)
    (hpreparing : ¬ pc.Preparing) (hwriting : ¬ pc.Writing) :
    Promises { s.spawn t with callers := update s.callers c pc, returned := returned } := by
  have hle := hp.since c since (by rw [hc]; rfl)
  have hok : (s.callers c).Holding _ _ := hi.holder
  rw [hc] at hok
  have hone := hi.preparing
  have hkept : since = s.stops →
      Kept { s.spawn t with callers := update s.callers c pc, returned := returned } := by
    rintro rfl
    obtain ⟨hcount, hsilent⟩ := hp.creating c block hc
    refine ⟨hok.1, hcount, ?_, ?_⟩
    · intro c'
      have := hsilent c'
      grind -ring -linarith -order [Function.update_apply]
    · intro c'
      have := hone c'
      grind -ring -linarith -order [Function.update_apply]
  have hdead : ¬ Kept s := fun hk => hk.2.2.2 c (by rw [hc]; trivial)
  unfold Manager.spawn at hkept ⊢
  obtain ⟨p₁, p₂, p₃, p₄, p₅⟩ := hp
  have hprep : ∀ block since, (CallerPc.creatingThread block since).Preparing := fun _ _ => trivial
  constructor <;> grind -ring -linarith -order [Function.update_apply]

/-- Who is about to write has been called by a stop. -/
theorem Promises.dead_of_writing (hp : Promises s) {c : Caller} (hc : (s.callers c).Writing) :
    Dead s :=
  hp.dead (fun hk => hk.2.2.1 c hc) fun c' block hc' => (hp.creating c' block hc').2 c hc

/-- A start finds the thread running. -/
theorem Promises.returns (hp : Promises s) (c : Caller) (hkept : Kept s) :
    Promises { s.returns (some s.stops) with callers := update s.callers c .idle } := by
  simp only [Manager.returns]
  have hkept' : Kept { s with
      returned := (some s.stops).toList ++ s.returned, callers := update s.callers c .idle } := by
    refine ⟨hkept.1, hkept.2.1, fun c' => ?_, fun c' => ?_⟩
    · have := hkept.2.2.1 c'
      grind -ring -linarith -order [Function.update_apply, CallerPc.Writing]
    · have := hkept.2.2.2 c'
      grind -ring -linarith -order [Function.update_apply, CallerPc.Preparing]
  refine ⟨fun c' n hn => ?_, fun n hn => ?_, fun _ _ _ => ⟨hkept'.2.1, hkept'.2.2.1⟩,
    fun _ _ => hkept', fun _ => hkept'⟩
  · have := hp.since c' n
    grind -ring -linarith -order [Function.update_apply, CallerPc.since, CallerPc.start]
  · rcases List.mem_cons.mp hn with rfl | hn
    · exact Nat.le_refl _
    · exact hp.returned n hn

/-- A start creates an eventfd, into which nobody has written and nobody is about to write. -/
theorem Dead.creates (hd : Dead s) (hp : Promises s) {c : Caller} {block : Bool} {since : Nat}
    (hc : s.callers c = .creatingFd block since) (hwriting : Silent s) {fd : Fd} :
    Promises { (s.createFd fd).setEventfd fd with
      callers := update s.callers c (.creatingThread block since) } := by
  simp only [Manager.setEventfd, Manager.createFd]
  have hle := hp.since c since (by rw [hc]; rfl)
  have hsinceOf := @CallerPc.since_of_start
  obtain ⟨d₁, d₂, d₃⟩ := hd
  obtain ⟨p₁, p₂, p₃, p₄, p₅⟩ := hp
  constructor <;>
    grind -ring -linarith -order [Function.update_apply, CallerPc.since, CallerPc.start,
      CallerPc.Writing, Silent, EventFd.create]

/-- A return that is due is this call's or an earlier one's. -/
theorem mem_returns {start : Option Nat} {returned : List Nat} {n : Nat}
    (h : n ∈ start.toList ++ returned) : start = some n ∨ n ∈ returned := by
  rcases List.mem_append.mp h with h | h
  · exact .inl (Option.mem_toList.mp h)
  · exact .inr h

/-- A join goes on. -/
theorem Promises.joins (hp : Promises s) (c : Caller) {pc : CallerPc} (hc : s.callers c = pc)
    (pc' : CallerPc) (hsince : pc.since = pc.start) (hsince' : pc'.since = pc'.start)
    (hstart : pc'.start = pc.start) (hwriting : ¬ pc'.Writing) (hpreparing : ¬ pc'.Preparing)
    (hcreating : ∀ block since, pc' ≠ .creatingThread block since) :
    Promises { s with callers := update s.callers c pc' } := by
  refine hp.moves c pc' (fun n hn => hp.since c n ?_) (fun n hn => ?_) hwriting
    (fun h => absurd h hpreparing) hcreating
  · rw [hc, hsince, ← hstart, ← hsince', hn]
  · rw [hc, ← hstart, hn]

/-- A step of a caller keeps what was promised. -/
theorem promises_caller (hi : Held s h) (hp : Promises s) {c : Caller} {pc pc' : CallerPc}
    {e : Event} (horder : e.InOrder s) (hc : s.callers c = pc) (hst : CallerStep s pc e s' pc') :
    Promises { s' with callers := update s'.callers c pc' } := by
  cases hst with
  | alreadyRunning hpos =>
      obtain ⟨hprep, hsilent, hcount⟩ := horder hpos
      exact hp.returns c ⟨hpos, hcount, hsilent, hprep⟩
  | start block hle =>
      refine hp.moves c (.creatingFd block s.stops) (fun n hn => ?_) nofun id False.elim nofun
      cases hn
      exact Nat.le_refl _
  | @eventfd block since fd hfd hclosed =>
      obtain ⟨hlive, hprep, hgot⟩ := horder
      obtain ⟨hzero, hwriting, -⟩ := hgot fd rfl
      have hh := hi.nobody hlive hprep
      subst hh
      have hd := hp.dead_of_nonpos hi hi.holder.le
      exact hd.creates hp hc hwriting
  | eventfdFails =>
      obtain ⟨hlive, hprep, -⟩ := horder
      have hh := hi.nobody hlive hprep
      subst hh
      have hd := hp.dead_of_nonpos hi hi.holder.le
      exact hd.promises hp c .idle nofun nofun nofun _ _ fun n hn => .inr hn
  | pthreadCreate hnew =>
      have hh := hi.preparing c (by rw [hc]; trivial)
      subst hh
      exact hp.spawn hi hc _ _ (fun n hn => List.mem_cons.mp hn) nofun rfl id id
  | @pthreadCreateBlock since t hnew =>
      have hh := hi.preparing c (by rw [hc]; trivial)
      subst hh
      exact hp.spawn hi hc _ _ (fun n hn => .inr hn) (fun n hn => (Option.some.inj hn).symm) rfl id
        id
  | pthreadCreateFails =>
      exact hp.moves c .closingFd nofun nofun id (by rw [hc]; exact id) nofun
  | closeFd =>
      have hd := hp.dead_of_preparing hi (c := c) (by rw [hc]; trivial) (by rw [hc]; nofun)
      unfold Manager.closeFd
      split
      · exact hd.promises hp c .clearingFd nofun nofun nofun _ _ fun n hn => .inr hn
      · exact hd.promises hp c .clearingFd nofun nofun nofun _ _ fun n hn => .inr hn
  | clearFd =>
      have hd := hp.dead_of_preparing hi (c := c) (by rw [hc]; trivial) (by rw [hc]; nofun)
      exact hd.promises hp c .idle nofun nofun nofun _ _ fun n hn => .inr hn
  | notRunning hle => exact hp.stop rfl
  | stop block hpos => exact hp.stop rfl
  | write =>
      have hd := hp.dead_of_writing (c := c) (by rw [hc]; trivial)
      exact hd.promises hp c .idle nofun nofun nofun _ _ fun n hn => .inr hn
  | writeBlock =>
      have hd := hp.dead_of_writing (c := c) (by rw [hc]; trivial)
      exact hd.promises hp c (.testing none) nofun nofun nofun _ _ fun n hn => .inr hn
  | join => exact hp.moves c (.testing none) nofun nofun id False.elim nofun
  | nothingToJoin hle =>
      have hd := hp.dead_of_nonpos hi hle
      refine hd.promises hp c .idle nofun nofun nofun _ _ fun n hn => ?_
      rw [hc]
      exact mem_returns hn
  | test hpos => exact hp.joins c hc _ rfl rfl rfl id id nofun
  | pthreadJoin hthread => exact hp.joins c hc _ rfl rfl rfl id id nofun
  | joined hexited => exact hp.joins c hc _ rfl rfl rfl id id nofun
  | @closeJoined start =>
      obtain ⟨rfl, hneg⟩ := hi.joined c _ (.inl hc)
      rw [Manager.closeFd, if_pos hneg]
      exact hp.joins c hc _ rfl rfl rfl id id nofun
  | clearJoined =>
      obtain ⟨rfl, hneg⟩ := hi.joined c _ (.inr hc)
      have hd := hp.dead_of_nonpos hi (Int.le_of_lt hneg)
      refine hd.promises hp c .idle nofun nofun nofun _ _ fun n hn => ?_
      rw [hc]
      exact mem_returns hn

/-- The thread that has the eventfd made it. -/
theorem ThreadPc.Holding.own {eventfd own : Fd} {e : EventFd} {pc : ThreadPc}
    (h : pc.Holding eventfd own e) (hpos : 0 < eventfd) : eventfd = own := by
  cases pc with
  | returning => exact absurd hpos (Int.not_lt.mpr (Int.le_of_lt h))
  | notCreated | exited => exact h.elim
  | _ => exact h.1

/-- The thread has been told. -/
theorem Promises.dead_of_told (hp : Promises s) (hi : Held s h) {t : Thread}
    (hlive : (s.threads t).Live)
    (htold : (s.threads t).Holding s.control.eventfd (s.eventfdOf t) (s.fds s.control.eventfd) →
      0 < (s.fds s.control.eventfd).count) : Dead s := by
  have hh := hi.live t hlive
  subst hh
  have hcount := htold hi.holder.2
  refine hp.dead (fun hk => ?_) fun c block hc => ?_
  · rw [hk.2.1] at hcount
    cases hcount
  · rw [(hp.creating c block hc).1] at hcount
    cases hcount

/-- A thread that is dead breaks no promise. -/
theorem Dead.keeps (hd : Dead s) (hp : Promises s) (control : Control) (fds : Fd → EventFd)
    (threads : Thread → ThreadPc) :
    Promises { s with control := control, fds := fds, threads := threads } :=
  ⟨hp.since, hp.returned, fun c block hc => absurd hc (hd.creating c block),
    fun c hc => absurd hc (hd.pending c), fun hn => absurd hn hd.returned⟩

/-- A step of a thread keeps what was promised. -/
theorem promises_thread (hi : Held s h) (hp : Promises s) {t : Thread} {pc pc' : ThreadPc}
    (ht : s.threads t = pc) (hst : ThreadStep s pc s' pc') :
    Promises { s' with threads := update s'.threads t pc' } := by
  obtain ⟨p₁, p₂, p₃, p₄, p₅⟩ := id hp
  cases hst with
  | set => exact ⟨p₁, p₂, p₃, p₄, p₅⟩
  | readable hopen hcount hle => exact ⟨p₁, p₂, p₃, p₄, p₅⟩
  | wake => exact ⟨p₁, p₂, p₃, p₄, p₅⟩
  | isSet heq => exact ⟨p₁, p₂, p₃, p₄, p₅⟩
  | notSet hne => exact ⟨p₁, p₂, p₃, p₄, p₅⟩
  | exit => exact ⟨p₁, p₂, p₃, p₄, p₅⟩
  | close =>
      -- the thread has been told, so that there is nothing to keep
      have hd := hp.dead_of_told hi (t := t) (by rw [ht]; trivial) fun hk => by
        rw [ht] at hk
        exact hk.2.2
      unfold Manager.closeFd
      split
      · exact ⟨p₁, p₂, p₃, p₄, p₅⟩
      · exact hd.keeps hp _ _ _
  | clear =>
      have hd := hp.dead_of_told hi (t := t) (by rw [ht]; trivial) fun hk => by
        rw [ht] at hk
        exact hk.2.2
      exact hd.keeps hp _ _ _

/-! ## Runs: the invariant over all steps -/

/-- What holds in every state that is reached in order. -/
def Ok (s : Manager) : Prop := (∃ h, Held s h) ∧ Promises s

/-- At the start both hold. -/
theorem ok_start : Ok .start := by
  refine ⟨⟨_, held_start⟩, ?_⟩
  constructor <;> simp [Manager.start, CallerPc.since, CallerPc.start]

/-- Every orderly step keeps both. -/
theorem ok_step (hs : Ok s) (hst : OrderlyStep s s') : Ok s' := by
  obtain ⟨⟨h, hi⟩, hp⟩ := hs
  obtain ⟨e, horder, hst⟩ := hst
  refine ⟨held_step hi horder hst, ?_⟩
  cases hst with
  | caller hc hstep => exact promises_caller hi hp horder hc hstep
  | thread ht hstep => exact promises_thread hi hp ht hstep

/-- Both together make a state correct. -/
theorem Ok.correct (hs : Ok s) : Correct s := by
  obtain ⟨⟨h, hi⟩, hp⟩ := hs
  have hok := hi.holder
  refine ⟨fun t t' ht ht' => ?_, fun fd => ?_, fun fd hfd => ?_, fun hret => ?_⟩
  · have heq := (hi.live t ht).symm.trans (hi.live t' ht')
    injection heq
  · rw [hi.closes fd]
    exact Nat.le_add_right _ _
  · have hclosed : (s.fds fd).isOpen = false := by
      refine Bool.eq_false_iff.mpr fun hopen => hfd ?_
      obtain ⟨rfl, hpos⟩ := hi.opens fd hopen
      cases h with
      | nobody => exact absurd hpos (Int.not_lt.mpr hok.le)
      | start c => exact .inl ⟨rfl, c, CallerPc.Holding.preparing hok⟩
      | thread t => exact .inr ⟨t, hok.2.live, (hok.2.own hpos).symm⟩
    rw [hi.closes fd, hclosed]
    rfl
  · obtain ⟨hpos, hcount, -, hprep⟩ := hp.kept hret
    cases h with
    | nobody => exact absurd hpos (Int.not_lt.mpr hok.le)
    | start c => exact absurd (CallerPc.Holding.preparing hok) (hprep c)
    | thread t => exact ⟨t, hok.2.live, by rw [← hok.2.own hpos, hcount]⟩

end

/-- **The lifecycle of the thread in order.**  In every run in which the calls are made in order
    there is at most one thread, each eventfd is closed once, and what a start promises is kept. -/
theorem lifecycle {s : Manager} (h : ReflTransGen OrderlyStep .start s) : Correct s :=
  (Transition.invariant (fun _ _ hs hst => ok_step hs hst) h ok_start).correct

/-! ## A thread is started and stopped -/

/-- The states of a start, and of a stop and another start behind it. -/
def called : Manager :=
  { Manager.start with callers := update Manager.start.callers 0 (.creatingFd false 0) }

/-- The eventfd has been made. -/
def prepared : Manager :=
  { (called.createFd 3).setEventfd 3 with
    callers := update called.callers 0 (.creatingThread false 0) }

/-- The thread is running, and the call has returned. -/
def running : Manager :=
  { (prepared.spawn 0).returns (some 0) with callers := update prepared.callers 0 .idle }

/-- Another caller stops it. -/
def stopping : Manager :=
  { running with stops := 1, callers := update running.callers 1 (.writing false) }

/-- The eventfd has been written to. -/
def told : Manager :=
  { stopping.writeFd 3 with callers := update stopping.callers 1 .idle }

/-- The manager is started again before the thread has looked. -/
def restarted : Manager :=
  { told.returns (some 1) with callers := update told.callers 0 .idle }

/-- One caller is in its call. -/
theorem called_callers (c : Caller) :
    called.callers c = .creatingFd false 0 ∨ called.callers c = .idle := by
  by_cases hc : c = 0
  · subst hc
    exact .inl rfl
  · exact .inr (Function.update_of_ne hc _ _)

/-- The first call. -/
theorem start_called : Step .start .start called :=
  .caller (c := 0) rfl (.start false (by decide))

/-- The first call makes its eventfd. -/
theorem called_prepared : Step called (.eventfd (some 3)) prepared :=
  .caller (c := 0) rfl (.eventfd (by decide) rfl)

/-- The first call makes its thread, and returns. -/
theorem prepared_running : Step prepared .other running :=
  .caller (c := 0) rfl (.pthreadCreate (t := 0) rfl)

/-- The manager whose thread is running is reached by an orderly run. -/
theorem running_reached : ReflTransGen OrderlyStep .start running := by
  have h₁ : OrderlyStep .start called := ⟨.start, fun h => absurd h (by decide), start_called⟩
  have h₂ : OrderlyStep called prepared := by
    refine ⟨.eventfd (some 3), ⟨fun _ => id, fun c => ?_, fun fd hfd => ?_⟩, called_prepared⟩
    · rcases called_callers c with hc | hc <;> rw [hc] <;> exact id
    · cases hfd
      refine ⟨by decide, fun c => ?_, fun c => ?_⟩ <;>
        rcases called_callers c with hc | hc <;> rw [hc] <;> exact id
  have h₃ : OrderlyStep prepared running := ⟨.other, trivial, prepared_running⟩
  exact ((ReflTransGen.single h₁).tail h₂).tail h₃

/-- The state is correct. -/
theorem running_correct : Correct running := lifecycle running_reached

/-- A start behind a stop returns 0, and the only thread there is has been told to terminate. -/
theorem stop_start_broken :
    ∃ s, ReflTransGen (fun s s' => ∃ e, Step s e s') .start s ∧ ¬ Correct s := by
  have hstop : CallerStep running .idle .other { running with stops := 1 } (.writing false) :=
    .stop false (by decide)
  have h₁ : Step running .other stopping := .caller (c := 1) rfl hstop
  have h₂ : Step stopping .other told := .caller (c := 1) rfl .write
  have h₃ : Step told .start restarted := .caller (c := 0) rfl (.alreadyRunning (by decide))
  refine ⟨restarted, ?_, fun hcorrect => ?_⟩
  · exact (((((ReflTransGen.single ⟨_, start_called⟩).tail ⟨_, called_prepared⟩).tail
      ⟨_, prepared_running⟩).tail ⟨_, h₁⟩).tail ⟨_, h₂⟩).tail ⟨_, h₃⟩
  · obtain ⟨t, hlive, hcount⟩ := hcorrect.kept (by decide)
    by_cases ht : t = 0
    · subst ht
      revert hcount
      decide
    · have hnone : restarted.threads t = .notCreated := Function.update_of_ne ht _ _
      rw [hnone] at hlive
      exact hlive

end DentOS.Manage
