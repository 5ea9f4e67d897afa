/-
  `swicache` (loader-initrd-files/src/bin/swicache.py): a SWI is copied to the cache, and its SHA-1 is
  recorded beside the copy, so that the next run can do without copying.

  The next run looks at the recorded hash alone, not at the copy.  So the cache is good as long as a
  recorded hash that is the hash of a content is recorded beside that content (`Sound`); what a run that is
  cut off leaves is good exactly when it is not the copy alone that has changed (`sound_swicache_iff`): the
  record of an earlier run still stands while the new content is copied over the old one.

  A run that is cut off while it copies leaves any content.  A hash that has not been written whole is no
  hash (`Sha1.length_hexdigest`).  What is written reaches the disk in the order of the program.
-/
import DentOS.Lib.Effects
import DentOS.Lib.PyText
import DentOS.Lib.Sha1
import DentOS.Lib.Transition
import Mathlib.Data.Set.Insert

namespace DentOS.SwiCache

open Effects Relation
open PyText (Text)

/-- The bytes of a file. -/
abbrev Content := List UInt8

/-! ## The program: hash, copy, write the hash -/

/-- `while block != b''`: what the hash object has been given behind the loop. -/
def hashLoop (blocksize : Nat) (h f : Content) : Content :=
  if _hmore : 0 < blocksize ∧ f ≠ [] then
    hashLoop blocksize (h ++ f.take blocksize) (f.drop blocksize)
  else h
termination_by f.length
decreasing_by
  have hpos := List.length_pos_iff.mpr _hmore.2
  rw [List.length_drop]
  omega

/-- `filehash`. -/
def filehash (f : Content) : Text := Sha1.hexdigest (hashLoop (1024 * 1024) [] f)

/-- The destination, and the file with the hash beside it. -/
structure Disk where
  /-- The image at the destination. -/
  dst : Option Content
  /-- The hash in the file beside it. -/
  hashFile : Option Text

/-- Where the power fails. -/
inductive Cut where
  | generating
  /-- In the copy, with so much of it on the disk. -/
  | copying (left : Content)
  | copied
  /-- In the write of the hash, with so many letters of it on the disk. -/
  | hashing (n : Nat)
  | syncing
  deriving DecidableEq

/-- What can stop a run: the power, or an error of the system. -/
inductive Stop where
  | powerFailure
  | osError

/-- A run: the content of the source, `--force`, and whether the directory of the destination is there or
    can be made. -/
structure Run where
  /-- What is in the source. -/
  src : Content
  /-- `--force`. -/
  force : Bool
  /-- The directory of the destination is there, or can be made. -/
  makedirs : Bool
  /-- Where the run is cut off, if it is. -/
  cut : Option Cut

/-- A computation on the disk that may stop anywhere. -/
abbrev Cache := Prog Disk Stop

/-- The power fails here, if that is where. -/
def passes (r : Run) (here : Cut) : Cache Unit := Prog.check (r.cut ≠ some here) .powerFailure

/-- `shutil.copyfile(ops.src, ops.dst)`. -/
def copyfile (r : Run) : Cache Unit :=
  match r.cut with
  | some (.copying left) => do
      Prog.modify fun d => { d with dst := some left }
      Prog.throw .powerFailure
  | _ => Prog.modify fun d => { d with dst := some r.src }

/-- `write_hash(dst_hash_file, src_hash)`. -/
def writeHash (r : Run) (digest : Text) : Cache Unit :=
  match r.cut with
  | some (.hashing n) => do
      Prog.modify fun d => { d with hashFile := some (digest.take n) }
      Prog.throw .powerFailure
  | _ => Prog.modify fun d => { d with hashFile := some digest }

/-- Destination and hash file exist, and the recorded hash is that of the source. -/
def upToDate (srcHash : Text) (d : Disk) : Bool := d.dst.isSome && d.hashFile = some srcHash

/-- The main flow. -/
def swicache (r : Run) : Cache Unit := do
  let srcHash := filehash r.src
  passes r .generating
  let d ← Prog.get
  if !r.force && upToDate srcHash d then pure ()
  else do
    Prog.check r.makedirs .osError
    copyfile r
    passes r .copied
    writeHash r srcHash
    passes r .syncing

/-! ## The hash of a file, read block by block -/

/-- Reading block by block is reading the whole file. -/
theorem hashLoop_eq {blocksize : Nat} (hpos : 0 < blocksize) (h f : Content) :
    hashLoop blocksize h f = h ++ f := by
  induction h, f using hashLoop.induct blocksize with
  | case1 h f hmore ih => rw [hashLoop, dif_pos hmore, ih, List.append_assoc, List.take_append_drop]
  | case2 h f hmore =>
      have hnil : f = [] := not_not.mp fun hne => hmore ⟨hpos, hne⟩
      rw [hashLoop, dif_neg hmore, hnil, List.append_nil]

/-- The hash of a file does not depend on the blocks. -/
theorem filehash_eq (f : Content) : filehash f = Sha1.hexdigest f := by
  rw [filehash, hashLoop_eq (by decide), List.nil_append]

/-- A hash has 40 digits. -/
theorem length_filehash (f : Content) : (filehash f).length = 40 := Sha1.length_hexdigest _

/-- No two of the contents have one hash. -/
def NoCollisions (used : Set Content) : Prop :=
  ∀ a ∈ used, ∀ b ∈ used, Sha1.hexdigest a = Sha1.hexdigest b → a = b

/-- A hash that is not written whole is none. -/
theorem eq_of_take_filehash {used : Set Content} (hsha : NoCollisions used) {a b : Content} (ha : a ∈ used)
    (hb : b ∈ used) {n : Nat} (h : (filehash a).take n = filehash b) : a = b := by
  have hlength := congrArg List.length h
  rw [List.length_take, length_filehash, length_filehash] at hlength
  rw [List.take_of_length_le (by rw [length_filehash]; omega), filehash_eq, filehash_eq] at h
  exact hsha a ha b hb h

/-! ## What a run leaves, wherever it is cut off -/

/-- The run gets to the copy. -/
def Copies (r : Run) (d : Disk) : Prop :=
  r.cut ≠ some .generating ∧ (r.force = true ∨ upToDate (filehash r.src) d = false) ∧ r.makedirs = true

/-- The disk behind a run, and whether it finished. -/
inductive Leaves (r : Run) (d : Disk) : Except Stop Unit × Disk → Prop where
  | untouched {e : Stop} (hcopies : ¬ Copies r d) : Leaves r d (.error e, d)
  | skipped (hcopies : ¬ Copies r d) (hdate : upToDate (filehash r.src) d = true) : Leaves r d (.ok (), d)
  | inCopy {left : Content} (hcopies : Copies r d) (hcut : r.cut = some (.copying left)) :
      Leaves r d (.error .powerFailure, { d with dst := some left })
  | copied (hcopies : Copies r d) (hcut : r.cut = some .copied) :
      Leaves r d (.error .powerFailure, { d with dst := some r.src })
  | inHash {n : Nat} (hcopies : Copies r d) (hcut : r.cut = some (.hashing n)) :
      Leaves r d (.error .powerFailure, ⟨some r.src, some ((filehash r.src).take n)⟩)
  | unsynced (hcopies : Copies r d) (hcut : r.cut = some .syncing) :
      Leaves r d (.error .powerFailure, ⟨some r.src, some (filehash r.src)⟩)
  | finished (hcopies : Copies r d) (hcut : r.cut = none) :
      Leaves r d (.ok (), ⟨some r.src, some (filehash r.src)⟩)

/-- What a run of `swicache` leaves is one of the states on its way. -/
theorem leaves_swicache (r : Run) (d : Disk) : Leaves r d (swicache r d) := by
  obtain ⟨src, force, makedirs, cut⟩ := r
  by_cases hstart : cut = some .generating
  · subst hstart
    exact .untouched fun h => h.1 rfl
  have hrun : swicache ⟨src, force, makedirs, cut⟩ d =
      (if !force && upToDate (filehash src) d then pure () else do
        Prog.check makedirs .osError
        copyfile ⟨src, force, makedirs, cut⟩
        passes ⟨src, force, makedirs, cut⟩ .copied
        writeHash ⟨src, force, makedirs, cut⟩ (filehash src)
        passes ⟨src, force, makedirs, cut⟩ .syncing : Cache Unit) d := by
    show (passes ⟨src, force, makedirs, cut⟩ .generating >>= _) d = _
    rw [passes, Prog.check_bind_apply, if_pos (decide_eq_true hstart)]
    rfl
  rw [hrun]
  by_cases hskip : (!force && upToDate (filehash src) d) = true
  · rw [if_pos hskip]
    obtain ⟨hforce, hdate⟩ := (Bool.and_eq_true _ _).mp hskip
    refine .skipped (fun h => ?_) hdate
    rcases h.2.1 with hforced | hstale
    · rw [show force = true from hforced] at hforce
      cases hforce
    · rw [show upToDate (filehash src) d = false from hstale] at hdate
      cases hdate
  rw [if_neg hskip]
  have hneeded : force = true ∨ upToDate (filehash src) d = false := by
    cases force with
    | true => exact .inl rfl
    | false => exact .inr (Bool.eq_false_iff.mpr hskip)
  cases makedirs with
  | false => exact .untouched fun h => by cases h.2.2
  | true =>
      have hcopies : Copies ⟨src, force, true, cut⟩ d := ⟨hstart, hneeded, rfl⟩
      rcases cut with _ | (_ | left | _ | n | _)
      · exact .finished hcopies rfl
      · exact absurd rfl hstart
      · exact .inCopy hcopies rfl
      · exact .copied hcopies rfl
      · exact .inHash hcopies rfl
      · exact .unsynced hcopies rfl

/-! ## The invariant: a recorded hash stands beside its content -/

/-- A recorded hash of a content stands beside that content. -/
def Sound (used : Set Content) (d : Disk) : Prop :=
  ∀ c ∈ used, d.hashFile = some (filehash c) → ∀ x, d.dst = some x → x = c

/-- **Every run that finishes** leaves the destination equal to its source. -/
def Faithful (used : Set Content) (d : Disk) : Prop :=
  ∀ r : Run, r.src ∈ used → (swicache r d).1 = .ok () → (swicache r d).2.dst = some r.src

/-- What is recorded when the copy is cut off is not the hash of another content than the copy that is
    left. -/
def Safe (used : Set Content) (r : Run) (d : Disk) : Prop :=
  Copies r d → ∀ c ∈ used, d.hashFile = some (filehash c) →
    (∀ left, r.cut = some (.copying left) → left = c) ∧ (r.cut = some .copied → r.src = c)

section

variable {used : Set Content} {r : Run} {d : Disk}

/-- What is sound is faithful, whatever is booted next. -/
theorem faithful_of_sound (h : Sound used d) : Faithful used d := by
  intro r hsrc hfinished
  generalize hresult : swicache r d = result at hfinished ⊢
  have hleaves := leaves_swicache r d
  rw [hresult] at hleaves
  cases hleaves with
  | untouched | inCopy | copied | inHash | unsynced => cases hfinished
  | skipped _ hdate =>
      obtain ⟨hdst, hhash⟩ := (Bool.and_eq_true _ _).mp hdate
      obtain ⟨x, hx⟩ := Option.isSome_iff_exists.mp hdst
      show d.dst = some r.src
      rw [hx, h r.src hsrc (of_decide_eq_true hhash) x hx]
  | finished => rfl

/-- What a run records is the hash of its source, or no hash. -/
theorem sound_recorded (hsha : NoCollisions used) (hsrc : r.src ∈ used) (n : Nat) :
    Sound used ⟨some r.src, some ((filehash r.src).take n)⟩ := by
  intro c hc hhash x hx
  cases hx
  exact eq_of_take_filehash hsha hsrc hc (Option.some.inj hhash)

/-- A run that ends leaves a sound disk. -/
theorem sound_finished (hsha : NoCollisions used) (hsrc : r.src ∈ used) :
    Sound used ⟨some r.src, some (filehash r.src)⟩ := by
  have hrecorded := sound_recorded hsha hsrc 40
  rwa [List.take_of_length_le (Nat.le_of_eq (length_filehash r.src))] at hrecorded

/-- **A run leaves the cache sound** exactly where it is safe. -/
theorem sound_swicache_iff (hsha : NoCollisions used) (hsrc : r.src ∈ used) (hd : Sound used d) :
    Sound used (swicache r d).2 ↔ Safe used r d := by
  generalize hresult : swicache r d = result
  have hleaves := leaves_swicache r d
  rw [hresult] at hleaves
  cases hleaves with
  | untouched hcopies | skipped hcopies => exact iff_of_true hd fun h => absurd h hcopies
  | @inCopy left hcopies hcut =>
      constructor
      · intro hsound _ c hc hhash
        refine ⟨fun left' hleft => ?_, fun h => by rw [hcut] at h; cases h⟩
        rw [hcut] at hleft
        cases hleft
        exact hsound c hc hhash left rfl
      · intro hsafe c hc hhash x hx
        cases hx
        exact (hsafe hcopies c hc hhash).1 left hcut
  | copied hcopies hcut =>
      constructor
      · intro hsound _ c hc hhash
        exact ⟨fun left h => (by rw [hcut] at h; cases h), fun _ => hsound c hc hhash r.src rfl⟩
      · intro hsafe c hc hhash x hx
        cases hx
        exact (hsafe hcopies c hc hhash).2 hcut
  | @inHash n hcopies hcut =>
      refine iff_of_true (sound_recorded hsha hsrc n) fun _ c hc hhash => ⟨fun left h => ?_, fun h => ?_⟩
      · rw [hcut] at h
        cases h
      · rw [hcut] at h
        cases h
  | unsynced hcopies hcut | finished hcopies hcut =>
      refine iff_of_true (sound_finished hsha hsrc) fun _ c hc hhash => ⟨fun left h => ?_, fun h => ?_⟩
      · rw [hcut] at h
        cases h
      · rw [hcut] at h
        cases h

end

/-! ## Every sequence of runs, with power failures between -/

/-- A run on one of the contents. -/
def AnyRun (used : Set Content) (d d' : Disk) : Prop := ∃ r : Run, r.src ∈ used ∧ (swicache r d).2 = d'

/-- A run on one of the contents that is safe. -/
def SafeRun (used : Set Content) (d d' : Disk) : Prop :=
  ∃ r : Run, r.src ∈ used ∧ Safe used r d ∧ (swicache r d).2 = d'

/-- **The cache does not vouch for bad content** in any sequence of safe runs, from a disk without a
    recorded hash. -/
theorem never_vouches {used : Set Content} (hsha : NoCollisions used) {d d' : Disk}
    (hd : d.hashFile = none) (hruns : ReflTransGen (SafeRun used) d d') : Faithful used d' := by
  refine faithful_of_sound (Transition.invariant (fun s s' hs hrun => ?_) hruns ?_)
  · obtain ⟨r, hsrc, hsafe, rfl⟩ := hrun
    exact (sound_swicache_iff hsha hsrc hs).mpr hsafe
  · intro c _ hhash
    rw [hd] at hhash
    cases hhash

/-! ## Two SWIs -/

/-- A short image. -/
def swiA : Content := [0x61]

/-- Another one. -/
def swiB : Content := [0x62]

/-- The two have different hashes. -/
theorem noCollisions_two : NoCollisions {swiA, swiB} := by
  have hne : Sha1.hexdigest swiA ≠ Sha1.hexdigest swiB := by decide +kernel
  rintro a (rfl | rfl) b (rfl | rfl) h
  · rfl
  · exact absurd h hne
  · exact absurd h.symm hne
  · rfl

/-- `swiA` is cached; it is cached again with `--force`, and the power fails behind the copy; then
    `swiB` is cached, and the power fails when seven letters of the hash are written. -/
theorem never_vouches_filled :
    Faithful {swiA, swiB} ⟨some swiB, some ((filehash swiB).take 7)⟩ := by
  have hcached : SafeRun {swiA, swiB} ⟨none, none⟩ ⟨some swiA, some (filehash swiA)⟩ :=
    ⟨⟨swiA, false, true, none⟩, .inl rfl, fun _ c _ h => (by cases h), rfl⟩
  have hagain : SafeRun {swiA, swiB} ⟨some swiA, some (filehash swiA)⟩
      ⟨some swiA, some (filehash swiA)⟩ := by
    refine ⟨⟨swiA, true, true, some .copied⟩, .inl rfl, fun _ c hc h => ⟨nofun, ?_⟩, rfl⟩
    intro _
    have hsame := Option.some.inj h
    rw [filehash_eq, filehash_eq] at hsame
    exact noCollisions_two swiA (.inl rfl) c hc hsame
  have hother : SafeRun {swiA, swiB} ⟨some swiA, some (filehash swiA)⟩
      ⟨some swiB, some ((filehash swiB).take 7)⟩ :=
    ⟨⟨swiB, true, true, some (.hashing 7)⟩, .inr rfl, fun _ _ _ _ => ⟨nofun, nofun⟩, rfl⟩
  exact never_vouches noCollisions_two (d := ⟨none, none⟩) rfl
    (.tail (.tail (.single hcached) hagain) hother)

/-- The copy of `swiB` over `swiA` is cut off, and `swiA` is asked for again. -/
theorem vouches_for_torn : ¬ ∀ (used : Set Content), NoCollisions used → ∀ d d' : Disk, d.hashFile = none →
    ReflTransGen (AnyRun used) d d' → Faithful used d' := by
  intro h
  have hruns : ReflTransGen (AnyRun {swiA, swiB}) ⟨none, none⟩ ⟨some [], some (filehash swiA)⟩ := by
    refine .tail (.single ⟨⟨swiA, false, true, none⟩, .inl rfl, rfl⟩) ?_
    refine ⟨⟨swiB, true, true, some (.copying [])⟩, .inr rfl, rfl⟩
  have htorn := h _ noCollisions_two _ _ rfl hruns ⟨swiA, false, true, none⟩ (.inl rfl)
  have hdate : upToDate (filehash swiA) ⟨some [], some (filehash swiA)⟩ = true :=
    (Bool.and_eq_true _ _).mpr ⟨rfl, decide_eq_true rfl⟩
  have hskip : swicache ⟨swiA, false, true, none⟩ ⟨some [], some (filehash swiA)⟩ =
      (.ok (), ⟨some [], some (filehash swiA)⟩) := by
    show (if !false && upToDate (filehash swiA) _ then pure () else _ : Cache Unit) _ = _
    rw [if_pos (by rw [hdate]; rfl)]
    rfl
  rw [hskip] at htorn
  cases htorn rfl

end DentOS.SwiCache
