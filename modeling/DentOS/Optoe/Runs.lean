/-
  The file of `optoe` over whole runs: reads, writes, and changes of the module.

  The specification (`StoreStep`) knows no page selection and no chunks.  It says which bytes of the
  documented row a read may give, and which a write may change.  An access may stop early, and a write that
  stops may have changed one byte more.

  `run_refines`: as long as the driver does not give up on the page select register, and nobody writes to that
  register through the file, the runs are runs of the specification.  `run_complete`: on a reliable bus it
  does not give up, and no access stops early.  `write_read`: then the file is an array, if the module has all
  pages.
-/
import DentOS.Lib.Simulation
import DentOS.Optoe.Access

namespace DentOS.Optoe

open Transceiver Simulation

/-! ## Events: accesses, and modules that are exchanged -/

/-- What happens to a module: an access, or another one in its place. -/
inductive Event where
  | read (off len : Nat)
  | write (off : Nat) (buf : List UInt8)
  | insert (m : Transceiver)

/-- The answer, and whether the driver gave up on the page select register. -/
structure Answer where
  /-- The number of bytes, or an error. -/
  status : Int
  /-- The bytes that were read. -/
  got : List UInt8
  /-- The driver gave up on the page select register. -/
  lost : Bool

/-- What an access answers, and what it leaves. -/
def Res.answer (r : Res) : Answer × World := (⟨r.status, r.got, r.world.lost⟩, r.world)

/-- The note of earlier accesses is forgotten. -/
def World.fresh (w : World) : World := { w with lost := false }

/-- `optoe_bin_read`, `optoe_bin_write`, and somebody who changes the module. -/
def access (out : Outside) (mode : Mode) (cls : DevClass) : Event → World → Answer × World
  | .read off len, w => (readWrite out mode cls .read [] off len w.fresh).answer
  | .write off buf, w => (readWrite out mode cls .write buf off buf.length w.fresh).answer
  | .insert m, w => (⟨0, [], false⟩, { w with module := m })

/-- The answer of an access that went through `k` bytes. -/
def Says (k : Nat) (status : Int) : Prop := status = k ∨ k = 0 ∧ status < 0

/-- **The specification.** -/
def StoreStep (cls : DevClass) (m : Transceiver) (e : Event) (a : Answer) (m' : Transceiver) : Prop :=
  match e with
  | .read off len => ∃ k, Did .read cls m off [] (m.share cls off len) k a.got m' ∧ Says k a.status
  | .write off buf => ∃ k, Did .write cls m off buf (m.share cls off buf.length) k a.got m' ∧ Says k a.status
  | .insert m₁ => m' = m₁

/-! ## What is meant: a store, and an array -/

/-- The page select register in the row. -/
def DevClass.selectOffset : DevClass → Nat
  | .twoAddr => 383
  | _ => 127

/-- A write that leaves the page select register alone, and a module as it comes. -/
def Meant (cls : DevClass) : Event → Prop
  | .read _ _ => True
  | .write off buf => ¬ (off ≤ cls.selectOffset ∧ cls.selectOffset < off + buf.length)
  | .insert m => m.Conforms cls ∧ m.AtZero cls

section

variable {cls : DevClass} {m m' : Transceiver} {off : Nat}

/-- The page select register of the paged address is at one offset only. -/
theorem selectOffset_of_select (h : m.linearCell cls off = select cls.paged) : off = cls.selectOffset := by
  have hlow : (cls.place off).2 < pageSize := by
    by_contra hle
    exact linearCell_ne_select (Nat.le_of_not_lt hle) _ h
  rw [linearCell, if_pos hlow, select] at h
  injection h with hc hi
  rw [pageSelectReg] at hi
  rw [DevClass.place] at hc hi
  split at hi
  next htwo =>
    rw [htwo.1, DevClass.selectOffset]
    have hi : off - 256 = 127 := hi
    omega
  next hnot =>
    rw [if_neg hnot] at hc
    cases cls with
    | oneAddr => exact hi
    | cmisAddr => exact hi
    | twoAddr => cases hc

/-- A write that is meant for the memory misses it. -/
theorem misses_of_meant {buf : List UInt8} (h : Meant cls (.write off buf)) (m : Transceiver) :
    Misses m cls off buf.length := by
  intro _ i hi heq
  have hsel := selectOffset_of_select heq
  exact h ⟨by omega, by omega⟩

/-- Where the flags of a module are kept its bytes do not change. -/
theorem putAll_byte {x : Cell} (hx : m.writable x = false) :
    ∀ (vs : List UInt8) (off : Nat) (m' : Transceiver),
    Alike m m' → (putAll cls off vs m').byte x = m'.byte x
  | [], _, _, _ => rfl
  | v :: vs, off, m', halike => by
      have hput : (m'.put (m'.linearCell cls off) v).byte x = m'.byte x := by
        by_cases heq : x = m'.linearCell cls off
        · rw [put, if_neg]
          rw [← heq, halike.writable, hx]
          exact Bool.false_ne_true
        · exact put_of_ne heq _ v
      rw [putAll, putAll_byte hx vs (off + 1) _ (halike.trans (alike_put _ _ _)), hput]

/-- Bytes that are stored leave a module conforming, and as large. -/
theorem conforms_putAll (h : m.Conforms cls) (off : Nat) (vs : List UInt8) :
    (putAll cls off vs m).Conforms cls ∧ (Transceiver.putAll cls off vs m).capacity cls = m.capacity cls := by
  have halike := alike_putAll cls vs off m
  have hflag : ∀ i ∈ cls.flags,
      (Transceiver.putAll cls off vs m).byte (.lower .a0 i) = m.byte (.lower .a0 i) :=
    fun i hi => putAll_byte (h.flags i hi) vs off m (.refl m)
  have hcap : (Transceiver.putAll cls off vs m).capacity cls = m.capacity cls := by
    cases cls with
    | oneAddr => rw [capacity, capacity, hflag 0x02 List.mem_cons_self]
    | cmisAddr => rw [capacity, capacity, hflag 0x02 List.mem_cons_self]
    | twoAddr => rw [capacity, capacity, hflag 0x40 List.mem_cons_self, hflag 92 (by decide)]
  refine ⟨⟨fun hlt => ?_, fun hcls => ?_, fun i hi => ?_⟩, hcap⟩
  · rw [halike.switched]
    exact h.pages (hcap ▸ hlt)
  · rw [halike.switched]
    exact h.flat hcls
  · rw [halike.writable]
    exact h.flags i hi

end

/-! ## A module and a bus -/

/-- A QSFP with 256 pages. -/
def qsfp : Transceiver where
  byte
    | .lower _ i => if i = 0x02 ∨ i = 0x7f then 0 else UInt8.ofNat i
    | .upper _ page i => UInt8.ofNat i + page
  writable := fun x => x ≠ .lower .a0 0x02
  switched := fun _ => true
  settle := id
  settle_zero := rfl

/-- The example conforms. -/
theorem qsfp_conforms : qsfp.Conforms .oneAddr := by
  refine ⟨fun _ => rfl, fun h => (by cases h), fun i hi => ?_⟩
  rw [List.mem_singleton.mp hi]
  rfl

/-- Every third transfer fails, and a write comes to the module all the same. -/
def flaky : Outside where
  ticks := id
  timeout := 2
  retries := fun _ => 2
  in_time := fun n _ hk => Nat.add_lt_add_left hk n
  late := fun _ => Nat.le_refl _
  status := fun n => if n % 3 = 0 then .failed else .done
  reaches := fun _ => true

/-- The example's bus is reliable though it fails. -/
theorem flaky_reliable : flaky.Reliable := by
  intro n
  by_cases hn : n % 3 = 0
  · refine ⟨1, Nat.le_succ 1, fun j hj => ?_, if_neg (by omega)⟩
    rw [Nat.lt_one_iff.mp hj]
    exact if_pos hn
  · exact ⟨0, Nat.zero_le 2, fun j hj => absurd hj (Nat.not_lt_zero j), if_neg hn⟩

/-! ## Runs: the driver refines a store -/

section

variable {cls : DevClass}

/-- What is known of a module between two accesses. -/
structure Fit (cls : DevClass) (m : Transceiver) : Prop where
  conforms : m.Conforms cls
  zero : m.AtZero cls

/-- A transfer leaves a module conforming. -/
theorem Did.conforms {op : Op} {m m' : Transceiver} {off count k : Nat} {buf got : List UInt8}
    (hdid : Did op cls m off buf count k got m') (h : m.Conforms cls) : m'.Conforms cls := by
  obtain ⟨taken, -, -, -, heffect⟩ := hdid.effect
  cases op with
  | read => exact heffect.2 ▸ h
  | write => exact heffect.2 ▸ (conforms_putAll h off _).1

/-- An access, while the driver has not given up. -/
theorem readWrite_did (out : Outside) (mode : Mode) (op : Op) (buf : List UInt8) (off len : Nat) (w : World)
    (h : Fit cls w.module) (hroom : op = .write → len ≤ buf.length)
    (hmiss : op = .write → Misses w.module cls off len)
    (hlost : (readWrite out mode cls op buf off len w).world.lost = false) :
    ∃ k, Did op cls w.module off buf (w.module.share cls off len) k
      (readWrite out mode cls op buf off len w).got
        (readWrite out mode cls op buf off len w).world.module
      ∧ Says k (readWrite out mode cls op buf off len w).status
      ∧ (readWrite out mode cls op buf off len w).world.module.AtZero cls
      ∧ (out.Reliable →
        k = w.module.share cls off len ∧ (readWrite out mode cls op buf off len w).status = k) := by
  obtain ⟨k, hwent, hstatus⟩ := readWrite_went out mode op buf off len w h.conforms h.zero hroom hmiss
  have hzero := hwent.zero h.zero hlost
  have hdid := hwent.did
  rw [atZero_iff.mp h.zero, atZero_iff.mp hzero] at hdid
  refine ⟨k, hdid, ?_, hzero, fun hrel => ⟨(hwent.reliable hrel).1, ?_⟩⟩
  · exact hstatus.imp id fun hneg => ⟨hneg.1, hneg.2.1⟩
  · exact hstatus.elim id fun hneg => absurd hrel hneg.2.2

/-- **One event**, while the driver does not give up. -/
theorem access_refines (out : Outside) (mode : Mode) (e : Event) (w : World) (hmeant : Meant cls e)
    (h : Fit cls w.module) (hnot : (access out mode cls e w).1.lost = false) :
    StoreStep cls w.module e (access out mode cls e w).1 (access out mode cls e w).2.module
      ∧ Fit cls (access out mode cls e w).2.module := by
  cases e with
  | read off len =>
      obtain ⟨k, hdid, hsays, hzero, -⟩ := readWrite_did out mode .read [] off len w.fresh h
        (fun hop => by cases hop) (fun hop => by cases hop) hnot
      exact ⟨⟨k, hdid, hsays⟩, hdid.conforms h.conforms, hzero⟩
  | write off buf =>
      obtain ⟨k, hdid, hsays, hzero, -⟩ := readWrite_did out mode .write buf off _ w.fresh h
        (fun _ => Nat.le_refl _) (fun _ => misses_of_meant hmeant _) hnot
      exact ⟨⟨k, hdid, hsays⟩, hdid.conforms h.conforms, hzero⟩
  | insert m => exact ⟨rfl, hmeant.1, hmeant.2⟩

/-- **Runs of the driver**, on a bus that may fail at any transfer: they are runs of the specification, and
page 0 is selected behind each of them. -/
theorem run_refines (out : Outside) (mode : Mode) (es : List Event) (w : World)
    (hconf : w.module.Conforms cls) (hzero : w.module.AtZero cls) (hmeant : ∀ e ∈ es, Meant cls e)
    (hkept : ∀ a ∈ (run (access out mode cls) es w).1, a.lost = false) :
    Run (StoreStep cls) w.module es (run (access out mode cls) es w).1
        (run (access out mode cls) es w).2.module
      ∧ (run (access out mode cls) es w).2.module.AtZero cls := by
  have hstep : ∀ e (w : World) m, Meant cls e → (w.module = m ∧ Fit cls m) →
      ¬ (access out mode cls e w).1.lost = true →
      ∃ m', StoreStep cls m e (access out mode cls e w).1 m'
        ∧ ((access out mode cls e w).2.module = m' ∧ Fit cls m') := by
    rintro e w _ he ⟨rfl, hfit⟩ hnot
    obtain ⟨hstep, hfit'⟩ := access_refines out mode e w he hfit (Bool.not_eq_true _ ▸ hnot)
    exact ⟨_, hstep, rfl, hfit'⟩
  obtain ⟨m, hrun, hm, hfit⟩ := Simulation.forward (fun w m => w.module = m ∧ Fit cls m)
    (fun a => a.lost = true) hstep es w w.module hmeant ⟨rfl, hconf, hzero⟩
    fun a ha hlost => Bool.false_ne_true ((hkept a ha).symm.trans hlost)
  exact hm ▸ ⟨hrun, hfit.zero⟩

/-- A write across two pages, a read from the lower half into page 0, and a new module. -/
def someEvents : List Event :=
  [.write 383 [1, 2], .read 382 4, .insert qsfp, .read 126 3]

/-- The example's accesses are meant for the memory. -/
theorem meant_someEvents : ∀ e ∈ someEvents, Meant .oneAddr e := by
  intro e he
  simp only [someEvents, List.mem_cons, List.not_mem_nil, or_false] at he
  rcases he with rfl | rfl | rfl | rfl
  · show ¬ (383 ≤ 127 ∧ _)
    omega
  · trivial
  · exact ⟨qsfp_conforms, rfl⟩
  · trivial

/-- Over a bus that fails every other transfer, a run is one of a store. -/
theorem run_refines_flaky :
    Run (StoreStep .oneAddr) qsfp someEvents
        (run (access flaky .wordData .oneAddr) someEvents ⟨qsfp, 0, false⟩).1
        (run (access flaky .wordData .oneAddr) someEvents ⟨qsfp, 0, false⟩).2.module
      ∧ (run (access flaky .wordData .oneAddr) someEvents ⟨qsfp, 0, false⟩).2.module.AtZero .oneAddr :=
  run_refines flaky .wordData someEvents ⟨qsfp, 0, false⟩ qsfp_conforms rfl meant_someEvents (by decide)

/-- A bus on which page 0 cannot be selected again: the next read is of page 1. -/
example :
    let status := fun n => if 3 ≤ n ∧ n ≤ 5 then Status.failed else .done
    let stuck := { flaky with status := status, reaches := fun _ => false }
    let w := (access stuck .i2c .oneAddr (.read 256 1) ⟨qsfp, 0, false⟩).2
    w.lost = true ∧ qsfp.linear .oneAddr 128 1 = [0]
      ∧ (access stuck .i2c .oneAddr (.read 128 1) w).1.got = [1] := by
  decide

/-- **The specification on a reliable bus**: the driver does not give up on the page select register, and
no access stops early. -/
def ArrayStep (cls : DevClass) (m : Transceiver) (e : Event) (a : Answer) (m' : Transceiver) : Prop :=
  a.lost = false ∧ match e with
  | .read off len =>
      a.status = m.share cls off len ∧ a.got = m.linear cls off (m.share cls off len) ∧ m' = m
  | .write off buf =>
      a.status = m.share cls off buf.length
        ∧ m' = putAll cls off (buf.take (m.share cls off buf.length)) m
  | .insert m₁ => m' = m₁

/-- **Over a reliable bus, an access serves all that was asked for and loses nothing.** -/
theorem readWrite_complete {out : Outside} (hrel : out.Reliable) (mode : Mode) (op : Op) (buf : List UInt8)
    (off len : Nat) (w : World) (h : Fit cls w.module) (hroom : op = .write → len ≤ buf.length)
    (hmiss : op = .write → Misses w.module cls off len) :
    (readWrite out mode cls op buf off len w.fresh).world.lost = false
      ∧ (readWrite out mode cls op buf off len w.fresh).status = w.module.share cls off len
      ∧ Effect op cls w.module off buf (w.module.share cls off len) (w.module.share cls off len)
        (readWrite out mode cls op buf off len w.fresh).got
        (readWrite out mode cls op buf off len w.fresh).world.module
      ∧ Fit cls (readWrite out mode cls op buf off len w.fresh).world.module := by
  obtain ⟨_, hwent, -⟩ := readWrite_went out mode op buf off len w.fresh h.conforms h.zero hroom hmiss
  obtain ⟨k, hdid, -, hzero, hall⟩ := readWrite_did out mode op buf off len w.fresh h hroom hmiss
    (hwent.reliable hrel).2
  obtain ⟨hk, hstatus⟩ := hall hrel
  obtain ⟨taken, hle, -, hle', heffect⟩ := hdid.effect
  have htaken : taken = k := Nat.le_antisymm (hk ▸ hle') hle
  rw [htaken, hk] at heffect
  rw [hk] at hstatus
  exact ⟨(hwent.reliable hrel).2, hstatus, heffect, hdid.conforms h.conforms, hzero⟩

/-- Over a reliable bus, every event of a run is one of an array. -/
theorem access_complete {out : Outside} (hrel : out.Reliable) (mode : Mode) (e : Event) (w : World)
    (hmeant : Meant cls e) (h : Fit cls w.module) :
    ArrayStep cls w.module e (access out mode cls e w).1 (access out mode cls e w).2.module
      ∧ Fit cls (access out mode cls e w).2.module := by
  cases e with
  | read off len =>
      obtain ⟨hlost, hstatus, heffect, hfit⟩ := readWrite_complete hrel mode .read [] off len w h
        (fun hop => by cases hop) (fun hop => by cases hop)
      exact ⟨⟨hlost, hstatus, heffect.1, heffect.2⟩, hfit⟩
  | write off buf =>
      obtain ⟨hlost, hstatus, heffect, hfit⟩ := readWrite_complete hrel mode .write buf off buf.length w h
        (fun _ => Nat.le_refl _) (fun _ => misses_of_meant hmeant _)
      exact ⟨⟨hlost, hstatus, heffect.2⟩, hfit⟩
  | insert m => exact ⟨⟨rfl, rfl⟩, hmeant.1, hmeant.2⟩

/-- **Runs on a reliable bus.** -/
theorem run_complete {out : Outside} (hrel : out.Reliable) (mode : Mode) (es : List Event) (w : World)
    (hconf : w.module.Conforms cls) (hzero : w.module.AtZero cls) (hmeant : ∀ e ∈ es, Meant cls e) :
    Run (ArrayStep cls) w.module es (run (access out mode cls) es w).1
      (run (access out mode cls) es w).2.module := by
  have hstep : ∀ e (w : World) m, Meant cls e → (w.module = m ∧ Fit cls m) → ¬ False →
      ∃ m', ArrayStep cls m e (access out mode cls e w).1 m'
        ∧ ((access out mode cls e w).2.module = m' ∧ Fit cls m') := by
    rintro e w _ he ⟨rfl, hfit⟩ -
    obtain ⟨hstep, hfit'⟩ := access_complete hrel mode e w he hfit
    exact ⟨_, hstep, rfl, hfit'⟩
  obtain ⟨m, hrun, hm, -⟩ := Simulation.forward (fun w m => w.module = m ∧ Fit cls m) (fun _ => False)
    hstep es w w.module hmeant ⟨rfl, hconf, hzero⟩ fun _ _ => id
  exact hm ▸ hrun

/-- Over that bus, a run is one of a plain array. -/
theorem run_complete_flaky :
    Run (ArrayStep .oneAddr) qsfp someEvents
      (run (access flaky .blockData .oneAddr) someEvents ⟨qsfp, 0, false⟩).1
      (run (access flaky .blockData .oneAddr) someEvents ⟨qsfp, 0, false⟩).2.module :=
  run_complete flaky_reliable .blockData someEvents ⟨qsfp, 0, false⟩ qsfp_conforms rfl meant_someEvents

end

/-! ## The file is an array, over a reliable bus -/

section

variable {cls : DevClass} {m : Transceiver}

/-- Two small numbers with one byte are one number. -/
theorem ofNat_inj {a b : Nat} (ha : a < 256) (hb : b < 256) (h : UInt8.ofNat a = UInt8.ofNat b) : a = b := by
  have hnat := congrArg UInt8.toNat h
  rw [UInt8.toNat_ofNat', UInt8.toNat_ofNat'] at hnat
  have hmod : a % 256 = b % 256 := hnat
  omega

/-- Two offsets with one place are one offset. -/
theorem place_inj {n n' : Nat} (h : cls.place n = cls.place n') : n = n' := by
  rw [DevClass.place, DevClass.place] at h
  split at h <;> split at h
  next hlow hlow' =>
    have hsnd := congrArg Prod.snd h
    simp only at hsnd
    omega
  · exact absurd (congrArg Prod.fst h) (by simp)
  · exact absurd (congrArg Prod.fst h) (by simp)
  · exact congrArg Prod.snd h

/-- Behind 256 bytes at an address there are pages. -/
theorem switched_of_place (hconf : m.Conforms cls) {n : Nat} (hn : n < m.capacity cls)
    (h : 256 ≤ (cls.place n).2) :
    m.switched (cls.place n).1 = true ∧ (cls.place n).2 < 257 * 128 := by
  have hle : cls.unpaged ≤ n := by
    by_contra hlt
    have := (place_bounds cls n).1 (by omega)
    omega
  have hsize := (capacity_bounds m cls).2
  have hbounds := (place_bounds cls n).2 hle (by omega)
  have hpaged : (cls.place n).1 = cls.paged :=
    place_paged (pageOf_ne_zero hle (by omega))
  rw [hpaged]
  exact ⟨hconf.pages (by omega), hbounds.2⟩

/-- If all pages are there, every byte of the row is a byte of its own. -/
theorem linearCell_inj (hconf : m.Conforms cls) (hpages : ∀ page, m.settle page = page) {n n' : Nat}
    (hn : n < m.capacity cls) (hn' : n' < m.capacity cls) (h : m.linearCell cls n = m.linearCell cls n') :
    n = n' := by
  have hsw := switched_of_place hconf hn
  have hsw' := switched_of_place hconf hn'
  suffices hplace : cls.place n = cls.place n' from place_inj hplace
  rw [linearCell, linearCell, pageSize] at h
  generalize cls.place n = p, cls.place n' = p' at *
  obtain ⟨c, o⟩ := p
  obtain ⟨c', o'⟩ := p'
  dsimp only at *
  by_cases hlow : o < 128
  · by_cases hlow' : o' < 128
    · rw [if_pos hlow, if_pos hlow'] at h
      injection h with hc hi
      exact Prod.ext hc hi
    · rw [if_pos hlow, if_neg hlow'] at h
      cases h
  · by_cases hlow' : o' < 128
    · rw [if_neg hlow, if_pos hlow'] at h
      cases h
    · -- both in an upper half: the page and the place in it give the offset back
      rw [if_neg hlow, if_neg hlow'] at h
      injection h with hc hpage hi
      subst hc
      refine Prod.ext rfl ?_
      dsimp only
      rw [pageAt, pageAt, hpages, hpages] at hpage
      by_cases hs : m.switched c = true
      · rw [if_pos hs, if_pos hs] at hpage
        have hdiv : o / 128 - 1 = o' / 128 - 1 := by
          refine ofNat_inj ?_ ?_ hpage
          · by_cases hfar : 256 ≤ o
            · have := (hsw hfar).2
              omega
            · omega
          · by_cases hfar : 256 ≤ o'
            · have := (hsw' hfar).2
              omega
            · omega
        omega
      · have hlt : o < 256 := Nat.lt_of_not_le fun hle => hs (hsw hle).1
        have hlt' : o' < 256 := Nat.lt_of_not_le fun hle => hs (hsw' hle).1
        omega

/-- A stretch that is written, byte by byte. -/
theorem putAll_row (hconf : m.Conforms cls) (hpages : ∀ page, m.settle page = page) {n : Nat}
    (hn : n < m.capacity cls) : ∀ (vs : List UInt8) (off : Nat) (m' : Transceiver), Alike m m' →
      off + vs.length ≤ m.capacity cls →
      (∀ i < vs.length, m.writable (m.linearCell cls (off + i)) = true) →
      (putAll cls off vs m').byte (m.linearCell cls n)
        = if n < off then m'.byte (m.linearCell cls n) else vs.getD (n - off) (m'.byte (m.linearCell cls n))
  | [], off, m', _, _, _ => by
      rw [putAll, List.getD_nil, ite_self]
  | v :: vs, off, m', halike, hroom, hwritable => by
      rw [List.length_cons] at hroom hwritable
      have hput : m'.put (m'.linearCell cls off) v = m'.set (m.linearCell cls off) v := by
        rw [halike.linearCell, put, halike.writable]
        exact if_pos (hwritable 0 (Nat.succ_pos _))
      rw [putAll, hput, putAll_row hconf hpages hn vs (off + 1) _ (halike.trans (alike_set _ _ _)) (by omega)
        fun i hi => by
          rw [Nat.add_assoc, Nat.add_comm 1 i]
          exact hwritable (i + 1) (by omega)]
      rcases Nat.lt_trichotomy n off with hlt | rfl | hgt
      · have hne : m.linearCell cls n ≠ m.linearCell cls off := fun heq =>
          absurd (linearCell_inj hconf hpages hn (by omega) heq) (Nat.ne_of_lt hlt)
        rw [if_pos (by omega), if_pos hlt, set_of_ne hne]
      · rw [if_pos (Nat.lt_succ_self n), if_neg (Nat.lt_irrefl n), Nat.sub_self, set_self]
        rfl
      · have hne : m.linearCell cls n ≠ m.linearCell cls off := fun heq =>
          absurd (linearCell_inj hconf hpages hn (by omega) heq) (Nat.ne_of_gt hgt)
        rw [if_neg (by omega), if_neg (by omega), set_of_ne hne, Nat.sub_add_eq]
        obtain ⟨d, hd⟩ : ∃ d, n - off = d + 1 := ⟨n - off - 1, by omega⟩
        rw [hd]
        rfl

/-- Reads leave the module as it is. -/
theorem reads_module {out : Outside} (hrel : out.Reliable) (mode : Mode) : ∀ (reads : List (Nat × Nat))
    (w : World), Fit cls w.module →
    (run (access out mode cls) (reads.map fun r => .read r.1 r.2) w).2.module = w.module
  | [], _, _ => rfl
  | r :: reads, w, hfit => by
      obtain ⟨⟨-, -, -, hmodule⟩, hfit'⟩ := access_complete hrel mode (.read r.1 r.2) w trivial hfit
      exact (reads_module hrel mode reads _ hfit').trans hmodule

/-- **What is written is read back**, whatever is read in between, and the bytes around it are as they
were. -/
theorem write_read {out : Outside} (hrel : out.Reliable) (mode : Mode) (w : World)
    (hconf : w.module.Conforms cls) (hzero : w.module.AtZero cls)
    (hpages : ∀ page, w.module.settle page = page) {off : Nat} {buf : List UInt8}
    (hmeant : Meant cls (.write off buf)) (hroom : off + buf.length ≤ w.module.capacity cls)
    (hwritable : ∀ i < buf.length, w.module.writable (w.module.linearCell cls (off + i)) = true)
    (reads : List (Nat × Nat)) (off' len' : Nat) :
    ((access out mode cls (.write off buf) w).1.status = buf.length)
      ∧ (access out mode cls (.read off' len')
          (run (access out mode cls) (reads.map fun r => .read r.1 r.2)
            (access out mode cls (.write off buf) w).2).2).1.got
        = (List.range' off' (w.module.share cls off' len')).map fun n =>
          if n < off then w.module.byte (w.module.linearCell cls n)
          else buf.getD (n - off) (w.module.byte (w.module.linearCell cls n)) := by
  obtain ⟨⟨-, hstatus, hmodule⟩, hfit⟩ := access_complete hrel mode (.write off buf) w hmeant ⟨hconf, hzero⟩
  have hsame := reads_module hrel mode reads _ hfit
  have hshare : w.module.share cls off buf.length = buf.length := Nat.min_eq_left (by omega)
  rw [hshare, List.take_length] at hmodule
  rw [hshare] at hstatus
  obtain ⟨⟨-, -, hgot, -⟩, -⟩ := access_complete hrel mode (.read off' len') _ trivial (hsame ▸ hfit)
  refine ⟨hstatus, hgot.trans ?_⟩
  rw [hsame]
  have halike := alike_putAll cls buf off w.module
  have hcap := (conforms_putAll hconf off buf).2
  rw [hmodule, linear, share, hcap]
  refine List.map_congr_left fun n hn => ?_
  obtain ⟨hlow, hhigh⟩ := List.mem_range'_1.mp hn
  rw [halike.linearCell, putAll_row hconf hpages (by omega) buf off _ (.refl _) hroom hwritable]

/-- Two bytes across the end of page 1, read with the bytes around them behind a read of page 0. -/
theorem write_read_qsfp :
    (access flaky .i2c .oneAddr (.write 383 [1, 2]) ⟨qsfp, 0, false⟩).1.status = 2
      ∧ (access flaky .i2c .oneAddr (.read 382 4)
          (run (access flaky .i2c .oneAddr) [.read 126 3]
            (access flaky .i2c .oneAddr (.write 383 [1, 2]) ⟨qsfp, 0, false⟩).2).2).1.got = [127, 1, 2, 3] := by
  have hwritable : ∀ i < 2, qsfp.writable (qsfp.linearCell .oneAddr (383 + i)) = true := by decide
  obtain ⟨hstatus, hgot⟩ := write_read flaky_reliable .i2c ⟨qsfp, 0, false⟩ qsfp_conforms rfl (fun _ => rfl)
    (meant_someEvents _ List.mem_cons_self) (by decide) hwritable [(126, 3)] 382 4
  exact ⟨hstatus, hgot.trans (by decide)⟩

end

end DentOS.Optoe
