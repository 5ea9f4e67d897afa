/-
  One access to the file of `optoe`.

  `pageLegal_spec` says how much of an access the driver allows: what the module declares to have.
  `readWrite_went` puts the chunks together: on a bus that may fail at any transfer, the access goes through a
  first part of what is allowed, of the row of bytes that is documented.

  The loop over the chunks goes through pages, the loop in a chunk through what the bus takes at a time.
  `chunkLoop_spec` is the induction over the chunks.  Its invariant (`Ahead`) says which bytes of the buffer
  are still to be written, and that they do not reach the page select register.
-/
import DentOS.Optoe.Chunk

namespace DentOS.Optoe

open Transceiver

/-! ## How much is allowed of a request, by the size of the module -/

/-- The size with all pages. -/
def DevClass.size : DevClass → Nat
  | .twoAddr => (3 + 256) * pageSize
  | _ => (1 + 256) * pageSize

section

variable {out : Outside} {mode : Mode} {cls : DevClass}

/-- A module holds at least the 256 bytes of one address, and at most those of its class. -/
theorem capacity_bounds (m : Transceiver) (cls : DevClass) :
    256 ≤ m.capacity cls ∧ m.capacity cls ≤ cls.size := by
  cases cls with
  | oneAddr =>
      rw [capacity]
      split <;> exact ⟨by decide, by decide⟩
  | cmisAddr =>
      rw [capacity]
      split <;> exact ⟨by decide, by decide⟩
  | twoAddr =>
      rw [capacity]
      split
      · exact ⟨by decide, by decide⟩
      · split <;> exact ⟨by decide, by decide⟩

/-- A byte of the lower half of the first address. -/
theorem regval_spec (out : Outside) (mode : Mode) {i : Nat} (hi : i < pageSize) (w : World) :
    (eepromRead out mode .a0 i 1 w).world.module = w.module
      ∧ (eepromRead out mode .a0 i 1 w).world.lost = w.lost
      ∧ ((eepromRead out mode .a0 i 1 w).status < 0 ∧ ¬ out.Reliable
        ∨ ¬ (eepromRead out mode .a0 i 1 w).status < 0
          ∧ (eepromRead out mode .a0 i 1 w).regval = w.module.byte (.lower .a0 i)) := by
  obtain ⟨k, hk, hserved, hgot, hmodule, hlost, hreliable⟩ := eepromRead_spec out mode .a0 i Nat.one_pos w
  refine ⟨hmodule, hlost, ?_⟩
  rcases Nat.le_one_iff_eq_zero_or_eq_one.mp hk with rfl | rfl
  · exact .inl ⟨hserved, fun hrel => absurd (hreliable hrel) (Nat.lt_irrefl 0)⟩
  · have hstatus : (eepromRead out mode .a0 i 1 w).status = 1 := hserved
    refine .inr ⟨by omega, ?_⟩
    rw [Res.regval, hgot, readBytes, List.range'_one, List.map_singleton, List.headD_cons, cell, if_pos hi]

/-- What `optoe_page_legal` allows. -/
def Allows (out : Outside) (w : World) (legal : Nat) (r : Res) : Prop :=
  r.world.module = w.module ∧ r.world.lost = w.lost ∧ (r.status = legal ∨ r.status < 0 ∧ ¬ out.Reliable)

section

variable {w : World} {off len cap : Nat} {r : Res}

/-- A request inside the first 256 bytes is allowed whole. -/
theorem allows_whole (h : (off : Int) + len ≤ 256) (hcap : 256 ≤ cap) :
    Allows out w (min len (cap - off)) ⟨len, [], w⟩ := by
  refine ⟨rfl, rfl, .inl ?_⟩
  rw [Nat.min_eq_left (by omega)]

/-- A request from behind the end is allowed nothing, and leaves the module alone. -/
theorem allows_nothing (hmodule : r.world.module = w.module) (hlost : r.world.lost = w.lost)
    (h : (off : Int) ≥ cap) : Allows out w (min len (cap - off)) ⟨0, [], r.world⟩ := by
  refine ⟨hmodule, hlost, .inl ?_⟩
  rw [Nat.sub_eq_zero_of_le (by omega), Nat.min_zero]
  rfl

/-- A request over the end is allowed as far as the end. -/
theorem allows_trim (hmodule : r.world.module = w.module) (hlost : r.world.lost = w.lost)
    {maxlen : Int} (h : maxlen = cap - off) (hlt : ¬ (off : Int) ≥ cap) :
    Allows out w (min len (cap - off)) (trim len maxlen r.world) := by
  refine ⟨hmodule, hlost, .inl ?_⟩
  rw [trim, h]
  dsimp only
  split <;> omega

end

/-- The devices at one address. -/
theorem pageLegal_one (out : Outside) (mode : Mode) (hcls : cls ≠ .twoAddr) (off len : Nat) (w : World) :
    Allows out w (min len (w.module.capacity cls - off)) (pageLegal out mode cls off len w) := by
  obtain ⟨hmodule, hlost, hcase⟩ := regval_spec out mode (by decide : 0x02 < pageSize) w
  obtain ⟨hcap, hsize⟩ : w.module.capacity cls
      = (if w.module.byte (.lower .a0 0x02) &&& (if cls = .oneAddr then 0x04 else 0x80) ≠ 0 then 256
        else 257 * 128)
      ∧ cls.size = 257 * 128 := by
    cases cls with
    | oneAddr => exact ⟨rfl, rfl⟩
    | cmisAddr => exact ⟨rfl, rfl⟩
    | twoAddr => exact absurd rfl hcls
  have hoff : ¬ (off : Int) < 0 := by omega
  obtain ⟨hlow, hhigh⟩ := capacity_bounds w.module cls
  rw [pageLegal, if_neg hoff, if_neg hcls]
  by_cases hsmall : (off : Int) + len ≤ 256
  · rw [if_pos hsmall]
    exact allows_whole hsmall hlow
  rw [if_neg hsmall]
  by_cases hbeyond : (off : Int) ≥ 257 * 128
  · rw [if_pos hbeyond]
    exact allows_nothing (r := ⟨0, [], w⟩) rfl rfl (by omega)
  rw [if_neg hbeyond]
  rcases hcase with ⟨hstatus, hnot⟩ | ⟨hstatus, hval⟩
  · rw [if_pos hstatus]
    exact ⟨hmodule, hlost, .inr ⟨hstatus, hnot⟩⟩
  dsimp only
  rw [if_neg hstatus, hval]
  by_cases hflag : w.module.byte (.lower .a0 0x02) &&& (if cls = .oneAddr then 0x04 else 0x80) ≠ 0
  · rw [if_pos hflag] at hcap ⊢
    by_cases hpast : (off : Int) ≥ 256
    · rw [if_pos hpast]
      exact allows_nothing hmodule hlost (by omega)
    · rw [if_neg hpast]
      exact allows_trim hmodule hlost (by omega) (by omega)
  · rw [if_neg hflag] at hcap ⊢
    exact allows_trim hmodule hlost (by omega) (by omega)

/-- The devices at two. -/
theorem pageLegal_two (out : Outside) (mode : Mode) (off len : Nat) (w : World) :
    Allows out w (min len (w.module.capacity .twoAddr - off)) (pageLegal out mode .twoAddr off len w) := by
  obtain ⟨hmodule, hlost, hcase⟩ := regval_spec out mode (by decide : 0x40 < pageSize) w
  obtain ⟨hlow, hhigh⟩ := capacity_bounds w.module .twoAddr
  rw [DevClass.size, pageSize] at hhigh
  have hcap : w.module.capacity .twoAddr
      = if w.module.byte (.lower .a0 0x40) &&& 0x10 ≠ 0 then 259 * 128
        else if w.module.byte (.lower .a0 92) &&& 0x40 ≠ 0 then 512 else 256 := rfl
  have hoff : ¬ (off : Int) < 0 := by omega
  rw [pageLegal, if_neg hoff, if_pos rfl]
  by_cases hsmall : (off : Int) + len ≤ 256
  · rw [if_pos hsmall]
    exact allows_whole hsmall hlow
  rw [if_neg hsmall]
  by_cases hbeyond : (off : Int) ≥ 259 * 128
  · rw [if_pos hbeyond]
    exact allows_nothing (r := ⟨0, [], w⟩) rfl rfl (by omega)
  rw [if_neg hbeyond]
  rcases hcase with ⟨hstatus, hnot⟩ | ⟨hstatus, hval⟩
  · rw [if_pos hstatus]
    exact ⟨hmodule, hlost, .inr ⟨hstatus, hnot⟩⟩
  dsimp only
  rw [if_neg hstatus, hval]
  by_cases hflag : w.module.byte (.lower .a0 0x40) &&& 0x10 ≠ 0
  · rw [if_pos hflag] at hcap ⊢
    exact allows_trim hmodule hlost (by omega) (by omega)
  rw [if_neg hflag] at hcap ⊢
  by_cases hpast : (off : Int) ≥ 512
  · rw [if_pos hpast]
    refine allows_nothing hmodule hlost ?_
    split at hcap <;> omega
  rw [if_neg hpast]
  -- the flag of the second address
  obtain ⟨hmodule', hlost', hcase'⟩ := regval_spec out mode (by decide : 92 < pageSize)
    (eepromRead out mode .a0 0x40 1 w).world
  rw [hmodule] at hmodule' hcase'
  rw [hlost] at hlost'
  rcases hcase' with ⟨hstatus', hnot⟩ | ⟨hstatus', hval'⟩
  · rw [if_pos hstatus']
    exact ⟨hmodule', hlost', .inr ⟨hstatus', hnot⟩⟩
  rw [if_neg hstatus', hval']
  by_cases hflag' : w.module.byte (.lower .a0 92) &&& 0x40 ≠ 0
  · rw [if_pos hflag'] at hcap ⊢
    exact allows_trim hmodule' hlost' (by omega) (by omega)
  rw [if_neg hflag'] at hcap ⊢
  by_cases hpast' : (off : Int) ≥ 256
  · rw [if_pos hpast']
    exact allows_nothing hmodule' hlost' (by omega)
  · rw [if_neg hpast']
    exact allows_trim hmodule' hlost' (by omega) (by omega)

/-- **`optoe_page_legal`** cuts an access off at the capacity that the module declares. -/
theorem pageLegal_spec (out : Outside) (mode : Mode) (cls : DevClass) (off len : Nat) (w : World) :
    Allows out w (min len (w.module.capacity cls - off)) (pageLegal out mode cls off len w) := by
  by_cases hcls : cls = .twoAddr
  · subst hcls
    exact pageLegal_two out mode off len w
  · exact pageLegal_one out mode hcls off len w

end

/-! ## All chunks of an access, one behind the other -/

section

variable {op : Op} {cls : DevClass} {off : Nat}

/-- Where the pages behind page 0 are. -/
theorem place_bounds (cls : DevClass) (off : Nat) :
    (off < cls.unpaged → (cls.place off).2 < 256)
      ∧ (cls.unpaged ≤ off → off < cls.size → 256 ≤ (cls.place off).2 ∧ (cls.place off).2 < 257 * 128) := by
  by_cases hcls : cls = .twoAddr
  · subst hcls
    rw [DevClass.place, DevClass.unpaged, DevClass.size, pageSize]
    constructor
    · intro h
      split
      · show off - 256 < 256
        omega
      next hnot => exact Nat.lt_of_not_le fun hle => hnot ⟨rfl, hle⟩
    · intro h hlt
      rw [if_pos ⟨rfl, by omega⟩]
      show 256 ≤ off - 256 ∧ off - 256 < 257 * 128
      omega
  · have hplace : (cls.place off).2 = off := by
      rw [DevClass.place, if_neg fun h => hcls h.1]
    obtain ⟨hunpaged, hsize⟩ : cls.unpaged = 256 ∧ cls.size = 257 * 128 := by
      cases cls with
      | oneAddr => exact ⟨rfl, rfl⟩
      | cmisAddr => exact ⟨rfl, rfl⟩
      | twoAddr => exact absurd rfl hcls
    rw [hplace, hunpaged, hsize]
    exact ⟨id, fun h hlt => ⟨h, hlt⟩⟩

/-- Below the pages, no page is selected. -/
theorem pageOf_eq_zero (h : off < cls.unpaged) : pageOf cls off = 0 := by
  have hlt := (place_bounds cls off).1 h
  have hdiv : (cls.place off).2 / pageSize - 1 = 0 := by
    rw [pageSize]
    omega
  rw [pageOf, hdiv]
  exact ite_self _

/-- From there on one is. -/
theorem pageOf_ne_zero (h : cls.unpaged ≤ off) (hlt : off < cls.size) : pageOf cls off ≠ 0 := by
  obtain ⟨hlow, hhigh⟩ := (place_bounds cls off).2 h hlt
  rw [pageOf, if_neg (by rw [pageSize]; omega)]
  intro heq
  have hnat := congrArg UInt8.toNat heq
  rw [UInt8.toNat_ofNat', pageSize] at hnat
  have hzero : ((cls.place off).2 / 128 - 1) % 256 = 0 := hnat
  omega

/-- Where the next chunk is, and how much of it the access takes. -/
theorem chunk_eq {done chunk : Nat} (pendingLen : Nat) (hchunk : chunk = (off + done) / pageSize)
    (hstart : done = 0 ∨ (off + done) % pageSize = 0) :
    chunkOffset off chunk = off + done
      ∧ chunkLen off pendingLen chunk = min pendingLen (pageSize - (off + done) % pageSize) := by
  rw [pageSize] at *
  rw [chunkOffset, chunkLen, pageSize]
  constructor
  · split <;> omega
  · split
    · split <;> omega
    · split <;> omega

/-- What is left to be done of an access, when `done` bytes are. -/
structure Ahead (op : Op) (cls : DevClass) (off done chunks chunk pending : Nat) (buf : List UInt8)
    (m : Transceiver) : Prop where
  here : 0 < pending → chunk = (off + done) / pageSize
  start : 0 < pending → done = 0 ∨ (off + done) % pageSize = 0
  count : chunks = if pending = 0 then 0 else (off + done + pending - 1) / pageSize + 1 - chunk
  room : op = .write → pending ≤ buf.length
  flat : cls = .twoAddr → m.switched .a0 = false
  pages : cls.unpaged < off + done + pending → m.switched cls.paged = true
  size : off + done + pending ≤ cls.size
  zero : m.AtZero cls ∨ cls.unpaged ≤ off + done
  miss : op = .write → Misses m cls (off + done) pending

/-- A range that misses the page select register has parts that miss it. -/
theorem Misses.sub {m : Transceiver} {count : Nat} (h : Misses m cls off count) {k n : Nat}
    (hle : k + n ≤ count) : Misses m cls (off + k) n := by
  intro hs i hi
  rw [Nat.add_assoc]
  exact h hs (k + i) (by omega)

/-- Missing it does not depend on the bytes. -/
theorem Misses.alike {m m' : Transceiver} {count : Nat} (h : Misses m cls off count)
    (halike : Alike m m') : Misses m' cls off count := by
  intro hs i hi
  rw [halike.linearCell]
  exact h (halike.switched ▸ hs) i hi

section

variable {done chunks chunk pending : Nat} {buf : List UInt8} {m m' : Transceiver}

/-- **A chunk of the loop is ready for the transfer that comes next.** -/
theorem Ahead.before (h : Ahead op cls off done chunks chunk pending buf m) (hpos : 0 < pending) :
    Before op cls (off + done) (min pending (pageSize - (off + done) % pageSize)) buf m := by
  have hsize := h.size
  have hmod : (off + done) % pageSize < pageSize := Nat.mod_lt _ (by decide)
  refine ⟨by omega, by omega, fun hop => ?_, h.flat, fun hpage => ?_, fun hpage => ?_, fun hop => ?_⟩
  · exact Nat.le_trans (Nat.min_le_left _ _) (h.room hop)
  · refine h.pages ?_
    by_contra hle
    exact hpage (pageOf_eq_zero (by omega))
  · rcases h.zero with hzero | hle
    · exact hzero
    · exact absurd hpage (pageOf_ne_zero hle (by omega))
  · exact (h.miss hop).sub (k := 0) (by omega)

/-- Behind a chunk that was done. -/
theorem Ahead.next (h : Ahead op cls off done (chunks + 1) chunk pending buf m) (hpos : 0 < pending) {n : Nat}
    (hn : n = min pending (pageSize - (off + done) % pageSize)) (halike : Alike m m')
    (hzero : pageOf cls (off + done) = 0 → m'.AtZero cls) :
    Ahead op cls off (done + n) chunks (chunk + 1) (pending - n) (buf.drop n) m' := by
  have hchunk := h.here hpos
  have hchunks := h.count
  have hsize := h.size
  have hmod : (off + done) % pageSize < pageSize := Nat.mod_lt _ (by decide)
  rw [if_neg (Nat.ne_of_gt hpos)] at hchunks
  have hle : n ≤ pending := hn ▸ Nat.min_le_left _ _
  rw [pageSize] at *
  refine ⟨fun hmore => ?_, fun hmore => ?_, ?_, fun hop => ?_, fun hcls => halike.switched ▸ h.flat hcls,
    fun hpage => halike.switched ▸ h.pages (by omega), by omega, ?_, fun hop => ?_⟩
  · rw [pageSize]
    omega
  · right
    rw [pageSize]
    omega
  · rw [pageSize]
    split <;> omega
  · have hroom := h.room hop
    rw [List.length_drop]
    omega
  · by_cases hfar : cls.unpaged ≤ off + done
    · exact .inr (by omega)
    · exact .inl (hzero (pageOf_eq_zero (by omega)))
  · have hmiss := (h.miss hop).sub (k := n) (n := pending - n) (by omega)
    rw [Nat.add_assoc] at hmiss
    exact hmiss.alike halike

end

/-- What an access to `count` bytes has done that went through `k` of them. -/
structure Went (out : Outside) (op : Op) (cls : DevClass) (w : World) (off : Nat) (buf : List UInt8)
    (count k : Nat) (got : List UInt8) (w' : World) : Prop where
  did : Did op cls (w.module.reset cls) off buf count k got (w'.module.reset cls)
  alike : Alike w.module w'.module
  lost : w.lost = true → w'.lost = true
  zero : w.module.AtZero cls → w'.lost = false → w'.module.AtZero cls
  reliable : out.Reliable → k = count ∧ w'.lost = w.lost

/-- A transfer of nothing leaves everything alone. -/
theorem went_nothing (out : Outside) (op : Op) (cls : DevClass) (w : World) (off : Nat) (buf : List UInt8) :
    Went out op cls w off buf 0 0 [] w :=
  ⟨did_nothing 0, .refl _, id, fun h _ => h, fun _ => ⟨rfl, rfl⟩⟩

/-- What the loop returns when it stops in front of its end. -/
theorem Served.stop {k : Nat} {status : Int} (h : Served k status) (done : Nat) :
    Served (done + k)
      (if (if status > 0 then (done : Int) + status else done) = 0 then status
      else if status > 0 then (done : Int) + status else done) := by
  rw [Served] at h
  by_cases hk : k = 0
  · rw [if_pos hk] at h
    have hneg : ¬ status > 0 := by omega
    rw [if_neg hneg, hk, Nat.add_zero, Served]
    by_cases hdone : done = 0
    · rwa [if_pos hdone, if_pos (by omega)]
    · rw [if_neg hdone, if_neg (by omega)]
  · rw [if_neg hk] at h
    have hpos : status > 0 := by omega
    rw [if_pos hpos, Served, if_neg (by omega), if_neg (by omega), h, ← Int.natCast_add]

/-- **The loop over the chunks.** -/
theorem chunkLoop_spec (out : Outside) (mode : Mode) :
    ∀ (chunks chunk done pending : Nat) (buf got₀ : List UInt8) (w : World),
    Ahead op cls off done chunks chunk pending buf w.module →
    ∃ k g, (chunkLoop out mode cls op off chunks chunk buf pending done got₀ w).got = got₀ ++ g
      ∧ (0 < done + pending →
        Served (done + k) (chunkLoop out mode cls op off chunks chunk buf pending done got₀ w).status)
      ∧ Went out op cls w (off + done) buf pending k g
        (chunkLoop out mode cls op off chunks chunk buf pending done got₀ w).world := by
  intro chunks
  induction chunks with
  | zero =>
      intro chunk done pending buf got₀ w h
      obtain rfl : pending = 0 := by
        by_contra hne
        -- the number of chunks was computed from the length: where none is left, nothing is pending
        have hcount := h.count
        have hhere := h.here (Nat.pos_of_ne_zero hne)
        rw [if_neg hne, hhere, pageSize] at hcount
        omega
      refine ⟨0, [], (List.append_nil _).symm, fun hpos => ?_, went_nothing _ _ _ _ _ _⟩
      exact (if_neg (Nat.ne_of_gt hpos)).mpr rfl
  | succ chunks ih =>
      intro chunk done pending buf got₀ w h
      have hpos : 0 < pending := by
        by_contra hle
        have hcount := h.count
        rw [if_pos (by omega)] at hcount
        omega
      obtain ⟨hoffset, hlen⟩ := chunk_eq pending (h.here hpos) (h.start hpos)
      obtain ⟨k, hserved, hdid, hbehind, hall⟩ := eepromUpdateClient_spec out mode w (h.before hpos)
      have hnext := h.next hpos rfl hbehind.alike fun hpage => hbehind.zero (.inl hpage)
      have hn := (h.before hpos).pos
      have hle := Nat.min_le_left pending (pageSize - (off + done) % pageSize)
      rw [chunkLoop, hoffset, hlen]
      generalize min pending (pageSize - (off + done) % pageSize) = n at *
      generalize eepromUpdateClient out mode cls op buf (off + done) n w = r at *
      dsimp only
      by_cases hk : k = n
      · -- the whole chunk, and what comes behind it
        subst hk
        have hstatus : r.status = k := by
          rwa [Served, if_neg (Nat.ne_of_gt hn)] at hserved
        obtain ⟨k', g, hgot, hserved', hwent⟩ := ih _ _ _ _ (got₀ ++ r.got) _ hnext
        rw [if_neg (not_not.mpr hstatus), hstatus, Int.toNat_natCast, ← Int.natCast_add]
        have hcount : k + (pending - k) = pending := Nat.add_sub_of_le hle
        have hdid' := hdid.append (fun hop => Nat.le_trans hle (h.room hop))
          (Nat.add_assoc off done k ▸ hwent.did)
        rw [hcount] at hdid'
        refine ⟨k + k', r.got ++ g, ?_, fun hlt => ?_, hdid', hbehind.alike.trans hwent.alike,
          fun hw => hwent.lost (hbehind.lost hw), fun hzero hkept => ?_, fun hrel => ?_⟩
        · rw [hgot, List.append_assoc]
        · rw [← Nat.add_assoc]
          exact hserved' (by omega)
        -- once the driver has given up on the page select register, it stays so
        · refine hwent.zero (hbehind.zero (.inr ?_)) hkept
          by_contra hlost
          rw [Bool.not_eq_false] at hlost
          rw [hwent.lost hlost] at hkept
          cases hkept
        · obtain ⟨hk', hlost⟩ := hwent.reliable hrel
          exact ⟨by omega, hlost.trans (hbehind.reliable hrel)⟩
      · -- the loop stops
        have hstop : r.status ≠ n := by
          rw [Served] at hserved
          split at hserved <;> omega
        rw [if_pos hstop]
        exact ⟨k, r.got, rfl, fun _ => hserved.stop done, hdid.widen hle, hbehind.alike, hbehind.lost,
          fun _ hkept => hbehind.zero (.inr hkept), fun hrel => absurd (hall hrel) hk⟩

end

/-! ## One access: what was allowed is served -/

section

variable {op : Op} {cls : DevClass} {off len : Nat} {buf : List UInt8}

/-- How much of an access the module has. -/
def Transceiver.share (m : Transceiver) (cls : DevClass) (off len : Nat) : Nat := min len (m.capacity cls - off)

/-- A transfer is told by the module and the lost flag that it starts from. -/
theorem Went.of_eq {out : Outside} {w w₁ w' : World} {count k : Nat} {got : List UInt8}
    (h : Went out op cls w₁ off buf count k got w') (hmodule : w₁.module = w.module)
    (hlost : w₁.lost = w.lost) :
    Went out op cls w off buf count k got w' :=
  ⟨hmodule ▸ h.did, hmodule ▸ h.alike, hlost ▸ h.lost, hmodule ▸ h.zero, hlost ▸ h.reliable⟩

/-- **One access**, whatever the bus does. -/
theorem readWrite_went (out : Outside) (mode : Mode) (op : Op) (buf : List UInt8) (off len : Nat) (w : World)
    (hconf : w.module.Conforms cls)
    (hzero : w.module.AtZero cls) (hroom : op = .write → len ≤ buf.length)
    (hmiss : op = .write → Misses w.module cls off len) :
    ∃ k, Went out op cls w off buf (w.module.share cls off len) k
      (readWrite out mode cls op buf off len w).got
        (readWrite out mode cls op buf off len w).world
      ∧ ((readWrite out mode cls op buf off len w).status = k
        ∨ k = 0 ∧ (readWrite out mode cls op buf off len w).status < 0 ∧ ¬ out.Reliable) := by
  have hshare : w.module.share cls off len ≤ len := Nat.min_le_left _ _
  by_cases hlen : len = 0
  · subst hlen
    obtain hnone : w.module.share cls off 0 = 0 := Nat.le_zero.mp hshare
    rw [hnone]
    exact ⟨0, went_nothing _ _ _ _ _ _, .inl rfl⟩
  rw [readWrite, if_neg hlen]
  obtain ⟨hmodule, hlost, hstatus⟩ := pageLegal_spec out mode cls off len w
  generalize pageLegal out mode cls off len w = r at *
  dsimp only
  rcases hstatus with hlegal | ⟨hneg, hnot⟩
  · have hlegal : r.status = w.module.share cls off len := hlegal
    by_cases hnone : w.module.share cls off len = 0
    · rw [if_pos (by omega), hnone]
      refine ⟨0, (went_nothing _ _ _ _ _ _).of_eq hmodule hlost, .inl ?_⟩
      rw [hlegal, hnone]
    · rw [if_neg (by omega), hlegal, Int.toNat_natCast, Int.toNat_natCast]
      have hcap : off + w.module.share cls off len ≤ w.module.capacity cls := by
        rw [share] at hnone ⊢
        omega
      have hahead : Ahead op cls off 0
          ((off + w.module.share cls off len - 1) / pageSize + 1 - off / pageSize) (off / pageSize)
          (w.module.share cls off len) buf r.world.module := by
        rw [hmodule]
        refine ⟨fun _ => rfl, fun _ => .inl rfl, (if_neg hnone).symm,
          fun hop => Nat.le_trans hshare (hroom hop), hconf.flat,
          fun hlt => hconf.pages (Nat.lt_of_lt_of_le hlt hcap), ?_, .inl hzero, fun hop => ?_⟩
        · exact Nat.le_trans hcap (capacity_bounds w.module cls).2
        · exact (hmiss hop).sub (k := 0) (by omega)
      obtain ⟨k, g, hgot, hserved, hwent⟩ := chunkLoop_spec out mode _ _ _ _ _ [] _ hahead
      have hserved := hserved (by omega)
      rw [List.nil_append] at hgot
      rw [Nat.zero_add, Served] at hserved
      rw [Nat.add_zero, ← hgot] at hwent
      refine ⟨k, hwent.of_eq hmodule hlost, ?_⟩
      by_cases hk : k = 0
      · rw [if_pos hk] at hserved
        exact .inr ⟨hk, hserved, fun hrel => hnone (hk ▸ (hwent.reliable hrel).1).symm⟩
      · rw [if_neg hk] at hserved
        exact .inl hserved
  · rw [if_pos (by omega)]
    refine ⟨0, ⟨?_, hmodule ▸ .refl _, fun hw => hlost.trans hw, fun _ _ => hmodule ▸ hzero,
      fun hrel => absurd hrel hnot⟩, .inr ⟨rfl, hneg, hnot⟩⟩
    rw [hmodule]
    exact did_nothing _

end

end DentOS.Optoe
