/-
  What a failed write leaves behind (onl/bootconfig/__init__.py): `write` opens the boot-config file
  itself for writing, which empties it, and `argparse_write` says of every exception that the
  configuration has not been changed.

  Where the calls fail is a parameter (`Faults`).  The result `unchanged_iff` is exact: what was said
  is true unless the failure comes behind the open, with other bytes in the file than it held.

  A write has four parts: the mount is entered, the file is opened, the bytes are written, and the mount is
  left.  Each of them succeeds or raises, and the file is then one of three: as it was, empty or cut short, or
  complete.  `argparse_write` cannot tell which.
-/
import DentOS.BootConfig.Keys
import DentOS.Lib.Effects

namespace DentOS.BootConfig

open PyText Effects Effects.Prog

/-- The files, by path. -/
abbrev Files := Text → Option Text

/-- A file gets this content. -/
def Files.put (files : Files) (path content : Text) : Files :=
  fun p => if p = path then some content else files p

/-- The file that was put holds the content. -/
@[simp] theorem Files.put_self (files : Files) (path content : Text) :
    files.put path content path = some content :=
  if_pos rfl

/-- Every other file is as it was. -/
theorem Files.put_other {path p : Text} (files : Files) (content : Text) (h : p ≠ path) :
    files.put path content p = files p :=
  if_neg h

/-- Where the calls under `write` fail. -/
structure Faults where
  /-- The mount context is made and entered. -/
  enters : Bool
  /-- The file can be opened. -/
  opens : Bool
  /-- The number of bytes after which writing fails, if it does. -/
  stopsAfter : Option Nat
  /-- The mount context is left. -/
  leaves : Bool

/-- `BOOT_CONFIG_DEFAULT`. -/
def bootConfigDefault : Text := "/mnt/onl/boot/boot-config".toList

/-- The options of `argparse_write`. -/
structure WriteOps where
  /-- `--dry-run`: the text is printed, and no file is touched. -/
  dry : Bool
  /-- The file that was named, if one was. -/
  write : Option Text

/-- `if dst:` of `write`, where an empty name is not true. -/
def WriteOps.dst (ops : WriteOps) : Option Text := ops.write.filter (· ≠ [])

section

variable (net : Netaddr) (iter : IterItems) (faults : Faults)

/-- The part of the text that gets to the file. -/
def written (keys : Keys) : Text :=
  match faults.stopsAfter with
  | some n => (writeh iter keys).take n
  | none => writeh iter keys

/-- `_writef`. -/
def writef (path : Text) (keys : Keys) : Prog Files ConfigError Unit := do
  check faults.opens .io
  modify fun files => files.put path []
  modify fun files => files.put path (written iter faults keys)
  check faults.stopsAfter.isNone .io

/-- `__exit__`: an exception on the way out replaces what the body ended with. -/
def leave {α : Type} (out : Except ConfigError α × Files) : Except ConfigError α × Files :=
  if faults.leaves then out else (.error .mount, out.2)

/-- `with OnlMountContextReadWrite("ONL-BOOT")`. -/
def withMount {α : Type} (body : Prog Files ConfigError α) : Prog Files ConfigError α := fun files =>
  if faults.enters then leave faults (body files) else (.error .mount, files)

/-- `write`, with `force_overwrite` as `argparse_write` leaves it. -/
def write (dst : Option Text) (keys : Keys) (forceOverwrite : Bool) :
    Prog Files ConfigError Bool := do
  let keys ← ofExcept (validate net keys)
  match dst with
  | some path => do
      writef iter faults path keys
      pure true
  | none =>
      withMount faults do
        let files ← get
        if files bootConfigDefault = none ∨ forceOverwrite then do
          writef iter faults bootConfigDefault keys
          pure true
        else pure false

/-- What `argparse_write` runs under its `try`. -/
def argparseBody (ops : WriteOps) (keys : Keys) : Prog Files ConfigError Unit :=
  if ops.dry then do
    let _ ← ofExcept (validate net keys)
    pure ()
  else do
    let _ ← write net iter faults ops.dst keys true
    pure ()

/-- `argparse_write`: whether it says that the configuration has not been changed, and the files. -/
def argparseWrite (ops : WriteOps) (keys : Keys) (files : Files) : Bool × Files :=
  match argparseBody net iter faults ops keys files with
  | (.ok (), files) => (false, files)
  | (.error _, files) => (true, files)

/-- The boot-config file of the call. -/
def target (ops : WriteOps) : Text := ops.dst.getD bootConfigDefault

/-- If the message is printed, the boot-config file is what it was. -/
def SaidUnchanged (ops : WriteOps) (keys : Keys) (files : Files) : Prop :=
  (argparseWrite net iter faults ops keys files).1 = true →
    (argparseWrite net iter faults ops keys files).2 (target ops) = files (target ops)

/-- The file is opened, and something fails behind that. -/
def FailsOpened (ops : WriteOps) : Prop :=
  ops.dry = false ∧ faults.opens = true ∧ (ops.dst = none → faults.enters = true) ∧
    (faults.stopsAfter ≠ none ∨ (ops.dst = none ∧ faults.leaves = false))

/-! ## The parts of a write

  Each of them succeeds, or leaves the file as one of the states on its way. -/

variable {net iter faults}

/-- What `_writef` returns and leaves, in each case: the file is emptied as soon as it is open. -/
theorem writef_apply (path : Text) (keys : Keys) (files : Files) :
    writef iter faults path keys files =
      if faults.opens then
        (if faults.stopsAfter.isNone then .ok () else .error .io,
          files.put path (written iter faults keys))
      else (.error .io, files) := by
  have hput : (files.put path []).put path (written iter faults keys) =
      files.put path (written iter faults keys) := by
    funext p
    simp only [Files.put]
    split <;> rfl
  rw [writef, check_bind_apply, modify_bind_apply, modify_bind_apply, check_apply, hput]
  split
  · split <;> rfl
  · rfl

/-- A call that does not get past validation. -/
theorem argparseBody_invalid {ops : WriteOps} {keys : Keys} {e : ConfigError}
    (h : validate net keys = .error e) (files : Files) :
    argparseBody net iter faults ops keys files = (.error e, files) := by
  rw [argparseBody]
  split
  · rw [h]
    rfl
  · rw [write, h]
    rfl

/-- A call that gets past it, into a given file. -/
theorem argparseBody_dst {ops : WriteOps} {keys keys' : Keys} {path : Text}
    (hdry : ops.dry = false) (hdst : ops.dst = some path) (h : validate net keys = .ok keys')
    (files : Files) :
    argparseBody net iter faults ops keys files = writef iter faults path keys' files := by
  rw [argparseBody, if_neg (by rw [hdry]; decide), write, h, hdst]
  show Prog.bind (Prog.bind (writef iter faults path keys') fun _ => pure true)
    (fun _ => pure ()) files = _
  rcases hw : writef iter faults path keys' files with ⟨_ | ⟨⟩, files'⟩
  · rw [Prog.bind, Prog.bind, hw]
  · rw [Prog.bind, Prog.bind, hw]
    rfl

/-- The same into the default file, behind the mount. -/
theorem argparseBody_default {ops : WriteOps} {keys keys' : Keys} (hdry : ops.dry = false)
    (hdst : ops.dst = none) (h : validate net keys = .ok keys') (files : Files) :
    argparseBody net iter faults ops keys files =
      if faults.enters then leave faults (writef iter faults bootConfigDefault keys' files)
      else (.error .mount, files) := by
  rw [argparseBody, if_neg (by rw [hdry]; decide), write, h, hdst]
  show Prog.bind (withMount faults (Prog.bind get _)) (fun _ => pure ()) files = _
  rw [Prog.bind, withMount]
  by_cases henters : faults.enters = true
  · rw [if_pos henters, if_pos henters, Prog.bind, get_apply]
    simp only [or_true, if_true]
    rcases hw : writef iter faults bootConfigDefault keys' files with ⟨_ | ⟨⟩, files'⟩
    · rw [bind_of_error hw, leave, leave]
      cases faults.leaves <;> rfl
    · rw [bind_of_ok hw, leave, leave]
      cases faults.leaves <;> rfl
  · rw [if_neg henters, if_neg henters]

/-- What `argparse_write` does, of valid keys and without `--dry`. -/
theorem argparseWrite_valid {ops : WriteOps} {keys keys' : Keys} (hdry : ops.dry = false)
    (h : validate net keys = .ok keys') (files : Files) :
    argparseWrite net iter faults ops keys files =
      if (ops.dst = none → faults.enters = true) ∧ faults.opens = true then
        (decide (faults.stopsAfter ≠ none ∨ (ops.dst = none ∧ faults.leaves = false)),
          files.put (target ops) (written iter faults keys'))
      else (true, files) := by
  rw [argparseWrite, target]
  rcases hdst : ops.dst with _ | path
  · rw [argparseBody_default hdry hdst h, writef_apply, leave]
    cases faults.enters <;> cases faults.opens <;> cases faults.leaves <;>
      cases hstop : faults.stopsAfter <;> simp
  · rw [argparseBody_dst hdry hdst h, writef_apply]
    cases faults.opens <;> cases hstop : faults.stopsAfter <;> simp

/-- **What is said is true exactly when** a failure behind the open found the bytes in the file that
    it left there. -/
theorem unchanged_iff (net : Netaddr) (iter : IterItems) (faults : Faults) (ops : WriteOps)
    (keys : Keys) (files : Files) :
    SaidUnchanged net iter faults ops keys files ↔
      ∀ keys', validate net keys = .ok keys' → FailsOpened faults ops →
        files (target ops) = some (written iter faults keys') := by
  rw [SaidUnchanged]
  rcases hvalid : validate net keys with e | keys'
  · have hsame : argparseWrite net iter faults ops keys files = (true, files) := by
      rw [argparseWrite, argparseBody_invalid hvalid]
    rw [hsame]
    exact ⟨fun _ keys' hk => (by cases hk), fun _ _ => rfl⟩
  · cases hdry : ops.dry with
    | true =>
        have hsame : argparseWrite net iter faults ops keys files = (false, files) := by
          rw [argparseWrite, argparseBody, if_pos hdry, hvalid]
          rfl
        rw [hsame]
        refine ⟨fun _ keys'' _ hfails => ?_, fun _ _ => rfl⟩
        exact absurd (hfails.1.symm.trans hdry) (by decide)
    | false =>
        rw [argparseWrite_valid hdry hvalid]
        by_cases hopened : (ops.dst = none → faults.enters = true) ∧ faults.opens = true
        · rw [if_pos hopened]
          show (decide _ = true → files.put _ _ _ = _) ↔ _
          rw [Files.put_self, decide_eq_true_eq]
          constructor
          · rintro h keys'' hkeys ⟨-, -, -, hlate⟩
            cases hkeys
            exact (h hlate).symm
          · intro h hlate
            exact (h keys' rfl ⟨hdry, hopened.2, hopened.1, hlate⟩).symm
        · rw [if_neg hopened]
          refine ⟨fun _ keys'' _ hfails => ?_, fun _ _ => rfl⟩
          exact absurd ⟨hfails.2.2.1, hfails.2.1⟩ hopened

/-- No other file changes. -/
theorem argparseWrite_other (ops : WriteOps) (keys : Keys) (files : Files) {p : Text}
    (hp : p ≠ target ops) : (argparseWrite net iter faults ops keys files).2 p = files p := by
  rcases hvalid : validate net keys with e | keys'
  · rw [argparseWrite, argparseBody_invalid hvalid]
  · cases hdry : ops.dry with
    | true =>
        rw [argparseWrite, argparseBody, if_pos hdry, hvalid]
        rfl
    | false =>
        rw [argparseWrite_valid hdry hvalid]
        split
        · exact Files.put_other files _ hp
        · rfl

end

/-! ## A full disk: the file is cut before anything can be written into it -/

/-- An invocation without `--write` or `--dry`. -/
def plainOps : WriteOps := ⟨false, none⟩

/-- The disk is full after four bytes. -/
def fullDisk : Faults := ⟨true, true, some 4, true⟩

/-- Every text is an address. -/
def anyNet : Netaddr := ⟨fun _ => true, fun _ => true, fun _ _ _ => some true⟩

/-- The order of the entries. -/
def byEntries : IterItems := ⟨fun keys => keys.entries, entries_perm⟩

/-- The file is cut to four bytes, and said to be unchanged. -/
theorem fullDisk_cuts :
    ¬ SaidUnchanged anyNet byEntries fullDisk plainOps (readf "NETDEV=ma1\nNETAUTO=dhcp\n".toList)
      (fun _ => some "NETDEV=ma1\nNETAUTO=dhcp\n".toList) := by
  intro hsaid
  have hcut := hsaid (by decide)
  exact absurd hcut (by decide)

end DentOS.BootConfig
