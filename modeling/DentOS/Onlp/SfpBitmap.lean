/-
  The bitmaps that the SFP module makes from its single-port functions (onlp, sfp.c).

  A driver that cannot report all ports at once has the bitmap made for it: the destination is
  cleared, the single-port function is asked about each port of the set, and the bit of a port that
  answered is set.  Presence is asked with `onlp_sfp_is_present`, RX_LOS with `onlp_sfp_control_get`.

  What the two should do is the same: ask the ports in order (`queries`), return a failure, and
  otherwise return 0 with the bits of the ports that reported a positive value (`Agrees`).  The loop
  sets those bits (`bitmapIter_ok`).  The two functions differ in what they return behind it.  Presence
  returns 0.  RX_LOS returns `rv`, which the loop has used for what the last port said: with no
  port at all it is still the driver's refusal, and it is positive where the last port returned more
  than 0.  Besides, RX_LOS asks `if(v)` where presence asks `rv > 0` (`agrees_iff`).

  Here the destination is part of the state, so that what was in it before can be spoken of.
-/
import Mathlib.Data.List.Nodup
import DentOS.Onlp.Sfp

namespace DentOS.Sfp

open Effects Prog

/-! ## The destination -/

/-- An `onlp_sfp_bitmap_t` that the caller passed. -/
abbrev Dst := Int → Bool

/-- `AIM_BITMAP_CLR_ALL`. -/
def Dst.clear : Dst := fun _ => false

/-- `AIM_BITMAP_SET`. -/
def Dst.set (dst : Dst) (p : Int) : Dst := fun q => q == p || dst q

/-- A bit that is set, and the others. -/
theorem Dst.set_iff (dst : Dst) (p q : Int) : dst.set p q = true ↔ q = p ∨ dst q = true := by
  rw [Dst.set, Bool.or_eq_true, beq_iff_eq]

/-- The calls made so far, and the destination. -/
structure Memory where
  /-- The calls so far. -/
  calls : List Event
  /-- The bitmap that is filled. -/
  dst : Dst

/-- A program with a destination. -/
abbrev Filling := Prog Memory Int

/-- A program that has no destination. -/
def calling {α : Type} (p : OnDriver α) : Filling α := fun m =>
  ((p m.calls).1, { m with calls := (p m.calls).2 })

/-- What the caller of a function gets, whether it returned early or at its end. -/
def returnCode : Except Int Int → Int
  | .ok rv => rv
  | .error e => e

section

variable (D : Driver) (b : Bitmap)

/-! ## The functions, with the loop that stands in for the driver -/

/-- The driver's bitmap function: it may store to the destination, whatever it returns. -/
def bitmapDriver (stores : Call → Dst → Dst) (c : Call) : Filling Reply := fun m =>
  let r := driver D c m.calls
  (r.1, ⟨r.2, stores c m.dst⟩)

/-- The loop over `AIM_BITMAP_ITER`, and the `rv` that it leaves. -/
def bitmapIter (f : Int → OnDriver Reply) (set : Reply → Bool) : List Int → Int → Filling Int
  | [], rv => pure rv
  | p :: ports, _ => do
      let r ← calling (f p)
      if r.rv < 0 then throw r.rv
      else do
        modify fun m => if set r then { m with dst := m.dst.set p } else m
        bitmapIter f set ports r.rv

/-- The destination is cleared. -/
def clrAll : Filling Unit := modify fun m => { m with dst := Dst.clear }

/-- `onlp_sfp_presence_bitmap_get_locked__`. -/
def onlpSfpPresenceBitmapGetLocked (stores : Call → Dst → Dst) : Filling Int := do
  -- `onlp_sfp_bitmap_t_init`
  clrAll
  let r ← bitmapDriver D stores .presenceBitmapGet
  if r.rv = statusUnsupported then do
    clrAll
    let _ ← bitmapIter (onlpSfpIsPresent D b) (fun r => 0 < r.rv) b.ports r.rv
    pure 0
  else pure r.rv

/-- `onlp_sfp_rx_los_bitmap_get_locked__`. -/
def onlpSfpRxLosBitmapGetLocked (stores : Call → Dst → Dst) : Filling Int := do
  let r ← bitmapDriver D stores .rxLosBitmapGet
  if r.rv = statusUnsupported then do
    clrAll
    bitmapIter (fun p => onlpSfpControlGet D b p controlRxLos true) (fun r => r.value ≠ 0)
      b.ports r.rv
  else pure r.rv

/-! ## What they are for: a bit for each port, as the driver has it -/

/-- The two bitmaps. -/
inductive Status where
  | presence
  | rxLos

/-- The call that asks the driver for all ports. -/
def Status.call : Status → Call
  | .presence => .presenceBitmapGet
  | .rxLos => .rxLosBitmapGet

/-- The single-port function. -/
def Status.query : Status → Int → OnDriver Reply
  | .presence, p => onlpSfpIsPresent D b p
  | .rxLos, p => onlpSfpControlGet D b p controlRxLos true

/-- What a port reports. -/
def Status.reports : Status → Reply → Int
  | .presence, r => r.rv
  | .rxLos, r => r.value

/-- The function of a bitmap. -/
def Status.bitmapGet (s : Status) (stores : Call → Dst → Dst) : Filling Int :=
  match s with
  | .presence => onlpSfpPresenceBitmapGetLocked D b stores
  | .rxLos => onlpSfpRxLosBitmapGetLocked D b stores

/-- The ports asked one after another, up to one that fails. -/
def queries (f : Int → OnDriver Reply) : List Int → OnDriver (List (Int × Reply))
  | [] => pure []
  | p :: ports => do
      let r ← f p
      if r.rv < 0 then throw r.rv
      else do
        let rs ← queries f ports
        pure ((p, r) :: rs)

/-- What was answered, once the driver has refused the whole bitmap. -/
def Status.answers (s : Status) (t : List Event) : Except Int (List (Int × Reply)) :=
  (queries (s.query D b) b.ports (t ++ [.call s.call])).1

/-- **The bitmap agrees with the single-port function**: a failure is returned, and otherwise 0
    with the bits of the ports that report a positive value. -/
def Agrees (s : Status) (answers : Except Int (List (Int × Reply))) (rv : Int) (dst : Dst) : Prop :=
  match answers with
  | .error e => rv = e
  | .ok rs => rv = 0 ∧ ∀ q, dst q = true ↔ ∃ r, (q, r) ∈ rs ∧ 0 < s.reports r

/-- RX_LOS returns the `rv` of the last port, and sets the bit of every port whose value is not 0. -/
def Status.Fits : Status → Except Int (List (Int × Reply)) → Prop
  | .presence, _ => True
  | .rxLos, .error _ => True
  | .rxLos, .ok rs => (∃ last ∈ rs.getLast?, last.2.rv = 0) ∧ ∀ a ∈ rs, 0 ≤ a.2.value

/-- The function as its caller sees it agrees with the single-port function. -/
def Status.BitmapAgrees (s : Status) (stores : Call → Dst → Dst) (m : Memory) : Prop :=
  let out := s.bitmapGet D b stores m
  Agrees s (s.answers D b m.calls) (returnCode out.1) out.2.dst

end

section

variable {D : Driver} {b : Bitmap} {f : Int → OnDriver Reply} {set : Reply → Bool}

/-! ## Asking the ports, one by one -/

/-- Where all ports answer, the first one does and then the others. -/
theorem queries_cons_ok {p : Int} {ports : List Int} {t t' : List Event} {rs : List (Int × Reply)}
    (h : queries f (p :: ports) t = (.ok rs, t')) :
    ∃ r t₁ rest, f p t = (.ok r, t₁) ∧ ¬ r.rv < 0 ∧ queries f ports t₁ = (.ok rest, t') ∧
      rs = (p, r) :: rest := by
  rw [queries] at h
  obtain ⟨r, t₁, hr, h⟩ := bind_returns h
  split at h
  · cases h
  · next hneg =>
      obtain ⟨rest, t₂, hrest, h⟩ := bind_returns h
      cases h
      exact ⟨r, t₁, rest, hr, hneg, hrest, rfl⟩

/-- Where one fails, it is the first one or one of the others. -/
theorem queries_cons_error {p : Int} {ports : List Int} {t t' : List Event} {e : Int}
    (h : queries f (p :: ports) t = (.error e, t')) :
    f p t = (.error e, t') ∨ ∃ r t₁, f p t = (.ok r, t₁) ∧
      (r.rv < 0 ∧ e = r.rv ∨ ¬ r.rv < 0 ∧ queries f ports t₁ = (.error e, t')) := by
  rw [queries] at h
  rcases hr : f p t with ⟨e' | r, t₁⟩
  · rw [bind_of_error hr] at h
    cases h
    exact .inl rfl
  · rw [bind_of_ok hr] at h
    refine .inr ⟨r, t₁, rfl, ?_⟩
    split at h
    · next hneg =>
        cases h
        exact .inl ⟨hneg, rfl⟩
    · next hneg =>
        rcases hrest : queries f ports t₁ with ⟨e' | rest, t₂⟩
        · rw [bind_of_error hrest] at h
          cases h
          exact .inr ⟨hneg, rfl⟩
        · rw [bind_of_ok hrest] at h
          cases h

/-- Every port is asked, in order. -/
theorem queries_ports : ∀ {ports : List Int} {t t' : List Event} {rs : List (Int × Reply)},
    queries f ports t = (.ok rs, t') → rs.map Prod.fst = ports
  | [], _, _, _, h => by
      cases h
      rfl
  | p :: ports, _, _, _, h => by
      obtain ⟨r, t₁, rest, -, -, hrest, rfl⟩ := queries_cons_ok h
      rw [List.map_cons, queries_ports hrest]

/-! ## The loop, one port at a time -/

/-- The destination is left alone by a call. -/
theorem calling_of {α : Type} {g : OnDriver α} {m : Memory} {x : Except Int α} {t' : List Event}
    (h : g m.calls = (x, t')) : calling g m = (x, ⟨t', m.dst⟩) := by
  rw [calling, h]

/-- A port that failed ends the function. -/
theorem bitmapIter_fails {p : Int} {m : Memory} {e : Int} {t' : List Event}
    (h : f p m.calls = (.error e, t')) (ports : List Int) (rv : Int) :
    bitmapIter f set (p :: ports) rv m = (.error e, ⟨t', m.dst⟩) := by
  rw [bitmapIter, bind_of_error (calling_of h)]

/-- The loop ends at a failure. -/
theorem bitmapIter_negative {p : Int} {m : Memory} {r : Reply} {t' : List Event}
    (h : f p m.calls = (.ok r, t')) (hr : r.rv < 0) (ports : List Int) (rv : Int) :
    bitmapIter f set (p :: ports) rv m = (.error r.rv, ⟨t', m.dst⟩) := by
  rw [bitmapIter, bind_of_ok (calling_of h), if_pos hr, throw_apply]

/-- A port that answered: its bit is set or left, and `rv` is what it returned. -/
theorem bitmapIter_next {p : Int} {m : Memory} {r : Reply} {t' : List Event}
    (h : f p m.calls = (.ok r, t')) (hr : ¬ r.rv < 0) (ports : List Int) (rv : Int) :
    bitmapIter f set (p :: ports) rv m =
      bitmapIter f set ports r.rv ⟨t', if set r then m.dst.set p else m.dst⟩ := by
  rw [bitmapIter, bind_of_ok (calling_of h), if_neg hr, modify_bind_apply]
  split <;> rfl

/-! ## The whole loop fills the bitmap, or ends at an error -/

/-- A failure of a port is the result, by induction on the ports. -/
theorem bitmapIter_error (set : Reply → Bool) : ∀ {ports : List Int} (rv : Int) (m : Memory) {e : Int}
    {t' : List Event}, queries f ports m.calls = (.error e, t') →
    (bitmapIter f set ports rv m).1 = .error e
  | [], _, _, _, _, h => by cases h
  | p :: ports, rv, m, e, t', h => by
      rcases queries_cons_error h with hp | ⟨r, t₁, hp, ⟨hneg, rfl⟩ | ⟨hneg, hrest⟩⟩
      · rw [bitmapIter_fails hp]
      · rw [bitmapIter_negative hp hneg]
      · rw [bitmapIter_next hp hneg]
        exact bitmapIter_error set r.rv _ hrest

/-- The `rv` behind the loop: of the last port, or the one from before it. -/
def lastRv (rv : Int) (rs : List (Int × Reply)) : Int := (rs.getLast?.map (·.2.rv)).getD rv

/-- The last `rv` is that of the last port. -/
theorem lastRv_cons (rv : Int) (p : Int) (r : Reply) (rs : List (Int × Reply)) :
    lastRv rv ((p, r) :: rs) = lastRv r.rv rs := by
  rw [lastRv, lastRv, List.getLast?_cons]
  cases rs.getLast? <;> rfl

/-- With no port it is the driver's refusal. -/
theorem lastRv_eq_zero (rs : List (Int × Reply)) :
    lastRv statusUnsupported rs = 0 ↔ ∃ last ∈ rs.getLast?, last.2.rv = 0 := by
  rw [lastRv]
  cases hlast : rs.getLast? with
  | none => exact ⟨fun h => absurd h (by decide), fun ⟨_, h, _⟩ => by cases h⟩
  | some last => exact ⟨fun h => ⟨last, rfl, h⟩, fun ⟨_, rfl, h⟩ => h⟩

/-- Where every port answers, the loop ends with the last `rv`, and has set the bits of the ports
    whose answer passed its test. -/
theorem bitmapIter_ok (set : Reply → Bool) : ∀ {ports : List Int} (rv : Int) (m : Memory)
    {rs : List (Int × Reply)} {t' : List Event}, queries f ports m.calls = (.ok rs, t') →
    ∃ dst, bitmapIter f set ports rv m = (.ok (lastRv rv rs), ⟨t', dst⟩) ∧
      ∀ q, dst q = true ↔ m.dst q = true ∨ ∃ r, (q, r) ∈ rs ∧ set r = true
  | [], _, m, _, _, h => by
      cases h
      refine ⟨m.dst, rfl, fun q => ⟨.inl, fun h => ?_⟩⟩
      rcases h with hq | ⟨r, hr, -⟩
      · exact hq
      · exact absurd hr List.not_mem_nil
  | p :: ports, rv, m, _, t', h => by
      obtain ⟨r, t₁, rest, hp, hneg, hrest, rfl⟩ := queries_cons_ok h
      obtain ⟨dst, hiter, hdst⟩ :=
        bitmapIter_ok set r.rv ⟨t₁, if set r then m.dst.set p else m.dst⟩ hrest
      refine ⟨dst, by rw [bitmapIter_next hp hneg, hiter, lastRv_cons], fun q => ?_⟩
      have hhead : (if set r then m.dst.set p else m.dst) q = true ↔
          m.dst q = true ∨ q = p ∧ set r = true := by
        by_cases hset : set r = true
        · rw [if_pos hset, Dst.set_iff]
          exact ⟨fun h => h.elim (fun hq => .inr ⟨hq, hset⟩) .inl,
            fun h => h.elim .inr fun hq => .inl hq.1⟩
        · rw [if_neg hset]
          exact ⟨.inl, fun h => h.elim id fun hq => absurd hq.2 hset⟩
      rw [hdst, hhead]
      constructor
      · rintro ((hq | ⟨rfl, hset⟩) | ⟨r', hr', hset⟩)
        · exact .inl hq
        · exact .inr ⟨r, List.mem_cons_self, hset⟩
        · exact .inr ⟨r', List.mem_cons_of_mem _ hr', hset⟩
      · rintro (hq | ⟨r', hr', hset⟩)
        · exact .inl (.inl hq)
        · rcases List.mem_cons.mp hr' with heq | hr'
          · obtain ⟨rfl, rfl⟩ := Prod.mk.inj heq
            exact .inl (.inr ⟨rfl, hset⟩)
          · exact .inr ⟨r', hr', hset⟩

/-! ## The two functions, once the driver has refused -/

variable {stores : Call → Dst → Dst} {m : Memory}

/-- The driver is asked, and what is behind it goes on with its reply. -/
theorem bitmapDriver_bind {α : Type} (c : Call) (g : Reply → Filling α) :
    (bitmapDriver D stores c >>= g) m =
      g (D.reply m.calls.length c) ⟨m.calls ++ [.call c], stores c m.dst⟩ := rfl

/-- Where the driver refuses, the ports are asked. -/
theorem presence_refused (b : Bitmap) (stores : Call → Dst → Dst)
    (h : (D.reply m.calls.length .presenceBitmapGet).rv = statusUnsupported) :
    onlpSfpPresenceBitmapGetLocked D b stores m =
      (bitmapIter (onlpSfpIsPresent D b) (fun r => 0 < r.rv) b.ports statusUnsupported >>=
        fun _ => pure 0) ⟨m.calls ++ [.call .presenceBitmapGet], Dst.clear⟩ := by
  rw [onlpSfpPresenceBitmapGetLocked, clrAll, modify_bind_apply, bitmapDriver_bind, if_pos h, h]
  rfl

/-- Where the driver refuses, the ports are asked, and the last `rv` returned. -/
theorem rxLos_refused (b : Bitmap) (stores : Call → Dst → Dst)
    (h : (D.reply m.calls.length .rxLosBitmapGet).rv = statusUnsupported) :
    onlpSfpRxLosBitmapGetLocked D b stores m =
      bitmapIter (fun p => onlpSfpControlGet D b p controlRxLos true) (fun r => r.value ≠ 0)
        b.ports statusUnsupported ⟨m.calls ++ [.call .rxLosBitmapGet], Dst.clear⟩ := by
  rw [onlpSfpRxLosBitmapGetLocked, bitmapDriver_bind, if_pos h, h]
  rfl

/-- Agreement, of a run that is known. -/
theorem bitmapAgrees_of {s : Status} {answers : Except Int (List (Int × Reply))} {t' : List Event}
    {x : Except Int Int} {m' : Memory}
    (hq : queries (s.query D b) b.ports (m.calls ++ [.call s.call]) = (answers, t'))
    (hout : s.bitmapGet D b stores m = (x, m')) :
    s.BitmapAgrees D b stores m ↔ Agrees s answers (returnCode x) m'.dst := by
  have hanswers : s.answers D b m.calls = answers := congrArg Prod.fst hq
  show Agrees s (s.answers D b m.calls) (returnCode (s.bitmapGet D b stores m).1)
    (s.bitmapGet D b stores m).2.dst ↔ _
  rw [hanswers, hout]

/-- **Presence** agrees wherever the driver refuses. -/
theorem presence_agrees (h : (D.reply m.calls.length .presenceBitmapGet).rv = statusUnsupported) :
    Status.presence.BitmapAgrees D b stores m := by
  have hout := presence_refused b stores h
  rcases hq : queries (onlpSfpIsPresent D b) b.ports (m.calls ++ [.call .presenceBitmapGet])
    with ⟨e | rs, t'⟩
  · have herr := bitmapIter_error (fun r => 0 < r.rv) statusUnsupported
      ⟨m.calls ++ [.call .presenceBitmapGet], Dst.clear⟩ hq
    rw [bind_of_error (Prod.ext herr rfl)] at hout
    exact (bitmapAgrees_of (s := .presence) hq hout).mpr rfl
  · obtain ⟨dst, hiter, hdst⟩ := bitmapIter_ok (fun r => 0 < r.rv) statusUnsupported
      ⟨m.calls ++ [.call .presenceBitmapGet], Dst.clear⟩ hq
    rw [bind_of_ok hiter] at hout
    refine (bitmapAgrees_of (s := .presence) hq hout).mpr ⟨rfl, fun q => ?_⟩
    rw [hdst]
    constructor
    · rintro (hclear | ⟨r, hr, hpos⟩)
      · cases hclear
      · exact ⟨r, hr, of_decide_eq_true hpos⟩
    · rintro ⟨r, hr, hpos⟩
      exact .inr ⟨r, hr, decide_eq_true hpos⟩

/-- A port is asked once. -/
theorem reply_unique {rs : List (Int × Reply)} (h : (rs.map Prod.fst).Nodup) {q : Int} {r r' : Reply}
    (hr : (q, r) ∈ rs) (hr' : (q, r') ∈ rs) : r = r' :=
  congrArg Prod.snd (List.inj_on_of_nodup_map h hr hr' rfl)

/-- A bit that is set for a value other than 0 is right for every port unless a value is negative. -/
theorem values_iff {rs : List (Int × Reply)} (h : (rs.map Prod.fst).Nodup) :
    (∀ q, (∃ r, (q, r) ∈ rs ∧ r.value ≠ 0) ↔ ∃ r, (q, r) ∈ rs ∧ 0 < r.value) ↔
      ∀ a ∈ rs, 0 ≤ a.2.value := by
  constructor
  · intro hbits a ha
    by_cases hzero : a.2.value = 0
    · exact Int.le_of_eq hzero.symm
    · obtain ⟨r, hr, hpos⟩ := (hbits a.1).mp ⟨a.2, ha, hzero⟩
      rw [reply_unique h ha hr]
      exact Int.le_of_lt hpos
  · intro hvalues q
    constructor
    · rintro ⟨r, hr, hne⟩
      exact ⟨r, hr, Int.lt_iff_le_and_ne.mpr ⟨hvalues (q, r) hr, hne.symm⟩⟩
    · rintro ⟨r, hr, hpos⟩
      exact ⟨r, hr, Int.ne_of_gt hpos⟩

/-- **RX_LOS** agrees exactly where the answers fit. -/
theorem rxLos_agrees_iff (hports : b.ports.Nodup)
    (h : (D.reply m.calls.length .rxLosBitmapGet).rv = statusUnsupported) :
    Status.rxLos.BitmapAgrees D b stores m ↔ Status.rxLos.Fits (Status.rxLos.answers D b m.calls) := by
  have hout := rxLos_refused b stores h
  rcases hq : queries (Status.rxLos.query D b) b.ports (m.calls ++ [.call .rxLosBitmapGet])
    with ⟨e | rs, t'⟩
  · have herr := bitmapIter_error (fun r => r.value ≠ 0) statusUnsupported
      ⟨m.calls ++ [.call .rxLosBitmapGet], Dst.clear⟩ hq
    have hanswers : Status.rxLos.answers D b m.calls = .error e := congrArg Prod.fst hq
    rw [bitmapAgrees_of (s := .rxLos) hq (hout.trans (Prod.ext herr rfl)), hanswers]
    exact ⟨fun _ => trivial, fun _ => rfl⟩
  · obtain ⟨dst, hiter, hdst⟩ := bitmapIter_ok (fun r => r.value ≠ 0) statusUnsupported
      ⟨m.calls ++ [.call .rxLosBitmapGet], Dst.clear⟩ hq
    have hanswers : Status.rxLos.answers D b m.calls = .ok rs := congrArg Prod.fst hq
    have hnodup : (rs.map Prod.fst).Nodup := by
      rw [queries_ports hq]
      exact hports
    have hbits : ∀ q, dst q = true ↔ ∃ r, (q, r) ∈ rs ∧ r.value ≠ 0 := by
      intro q
      rw [hdst]
      constructor
      · rintro (hclear | ⟨r, hr, hne⟩)
        · cases hclear
        · exact ⟨r, hr, of_decide_eq_true hne⟩
      · rintro ⟨r, hr, hne⟩
        exact .inr ⟨r, hr, decide_eq_true hne⟩
    rw [bitmapAgrees_of (s := .rxLos) hq (hout.trans hiter), hanswers]
    refine and_congr (lastRv_eq_zero rs) ((forall_congr' fun q => ?_).trans (values_iff hnodup))
    exact iff_congr (hbits q) Iff.rfl

/-- **The bitmaps agree with the single-port functions** exactly where they fit: presence always does;
    RX_LOS does where a port fails, or where the last port returned 0 and no value is negative. -/
theorem bitmap_agrees_iff (D : Driver) (b : Bitmap) (stores : Call → Dst → Dst) (m : Memory) (s : Status)
    (hports : b.ports.Nodup) (h : (D.reply m.calls.length s.call).rv = statusUnsupported) :
    s.BitmapAgrees D b stores m ↔ s.Fits (s.answers D b m.calls) := by
  cases s with
  | presence => exact ⟨fun _ => trivial, fun _ => presence_agrees h⟩
  | rxLos => exact rxLos_agrees_iff hports h

/-- A driver that reports no bitmap, and of every port the same. -/
def oneByOne (rv value : Int) : Driver where
  portMap port := (0, port)
  reply _ c := match c with
    | .presenceBitmapGet => Reply.ofRv statusUnsupported
    | .rxLosBitmapGet => Reply.ofRv statusUnsupported
    | .controlSupported _ _ => { Reply.ofRv 0 with value := 1 }
    | _ => { Reply.ofRv rv with value := value }

/-- A bitmap without ports. -/
def noPorts : Bitmap where
  get _ := false
  ports := []
  visited := by decide

/-- Two ports, both with a signal lost. -/
theorem bitmap_agrees_lost :
    Status.rxLos.BitmapAgrees (oneByOne 0 1) twoPorts (fun _ dst => dst) ⟨[], fun _ => true⟩ := by
  have hanswers : Status.rxLos.answers (oneByOne 0 1) twoPorts [] =
      .ok [(1, { Reply.ofRv 0 with value := 1 }), (2, { Reply.ofRv 0 with value := 1 })] := rfl
  refine (bitmap_agrees_iff (oneByOne 0 1) twoPorts (fun _ dst => dst) ⟨[], fun _ => true⟩ .rxLos
    (by decide) rfl).mpr ?_
  rw [hanswers]
  refine ⟨⟨_, rfl, rfl⟩, fun a ha => ?_⟩
  rcases List.mem_cons.mp ha with rfl | ha
  · decide
  · rw [List.mem_singleton.mp ha]
    decide

/-- With no port in the set RX_LOS passes the driver's refusal on. -/
theorem bitmap_no_ports : ¬ ∀ (D : Driver) (b : Bitmap) (stores : Call → Dst → Dst) (m : Memory)
    (s : Status), b.ports.Nodup → (D.reply m.calls.length s.call).rv = statusUnsupported →
    s.BitmapAgrees D b stores m := by
  intro h
  have hagree := h (oneByOne 0 0) noPorts (fun _ dst => dst) ⟨[], Dst.clear⟩ .rxLos (by decide) rfl
  exact absurd hagree.1 (by decide)

end
end DentOS.Sfp
