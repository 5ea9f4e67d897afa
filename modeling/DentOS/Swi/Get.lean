/-
  `swiget` (loader-initrd-files/src/bin/swiget): a SWI is looked up on a block device.

  The device may be mounted already; else it is mounted on a temporary directory, and then left there, or
  moved to its own place.  The first way out is right.  Of the other two, both ask whether `None` exists
  where there is no SWI for `:latest`; and the one that moves puts the path together again from what was
  asked for, so that of `:latest` nothing is left but the word (`Lost`, `finds_iff`).

  What there is under a path depends on what is mounted, and is a parameter, as is which call of the system
  succeeds.  Python 2 has no `zipfile.BadZipFile`: where a file is no archive, the name is looked up and is
  not found.  Not modelled: the log.
-/
import DentOS.Lib.Effects
import DentOS.Lib.PosixPath
import DentOS.Mounts.Context
import Mathlib.Data.List.Infix
import Mathlib.Order.Lattice

namespace DentOS.SwiGet

open Effects Mounts PosixPath PyText

/-! ## `swiSortKey`: the time of an image, from what there is -/

/-- What the sort key of a name can raise. -/
inductive KeyError where
  | attributeError
  | valueError
  | osError

/-- A letter of a pattern: `none` is `[0-9]`. -/
abbrev Pattern := List (Option Char)

/-- The pattern matches at the start. -/
def matchesAt : Pattern → Text → Bool
  | [], _ => true
  | _ :: _, [] => false
  | p :: ps, c :: t => (match p with | some x => c = x | none => c.isDigit) && matchesAt ps t

/-- `re.search(t).group(0)`. -/
def search (re : Pattern) (t : Text) : Option Text := (t.tails.find? (matchesAt re)).map (·.take re.length)

/-- A pattern of some digits. -/
def digits (n : Nat) : Pattern := List.replicate n none

/-- The two formats of a time, as `strptime` knows them. -/
inductive Format where
  | timestamp
  | fnameTimestamp

/-- `SWI_TIMESTAMP_RE`. -/
def timestampRe : Pattern :=
  digits 4 ++ [some '-'] ++ digits 2 ++ [some '-'] ++ digits 2 ++ [some '.'] ++ digits 2 ++ [some ':'] ++
    digits 2

/-- `SWI_FNAME_TIMESTAMP_RE`. -/
def fnameTimestampRe : Pattern :=
  digits 4 ++ [some '-'] ++ digits 2 ++ [some '-'] ++ digits 2 ++ [some '.'] ++ digits 2 ++ digits 2

/-- The timestamps under `version` in `manifest.json`. -/
structure Manifest where
  /-- The key 'BUILD_TIMESTAMP'. -/
  buildTimestamp : Option Text
  /-- The key 'FNAME_BUILD_TIMESTAMP'. -/
  fnameBuildTimestamp : Option Text

/-- An archive; a member that is not there is `none`. -/
structure Archive where
  /-- The member `manifest.json`. -/
  manifest : Option (Except KeyError Manifest)
  /-- The member `VERSION`. -/
  version : Option Text

/-- The calls that may fail. -/
inductive Call where
  | procMounts
  | mkdtemp
  | mount
  | listdir
  | sortKey
  | move
  | umount
  | rmdir

/-- The system: what is under a path while the table is what is mounted. -/
structure Host (K : Type) where
  /-- `os.path.exists`. -/
  present : Table → Text → Bool
  /-- `os.listdir`. -/
  listdir : Table → Text → List Text
  /-- `zipfile.ZipFile`. -/
  zipFile : Table → Text → Option Archive
  /-- `os.path.getmtime`. -/
  getmtime : Table → Text → Except KeyError K
  /-- `time.mktime(time.strptime(t, format))`; `none` is a `ValueError`. -/
  mktime : Format → Text → Option K
  /-- What can be opened is there. -/
  opened : ∀ table path, (zipFile table path).isSome = true → present table path = true
  /-- The next temporary directory. -/
  tmp : Text
  /-- Whether a call succeeds. -/
  succeeds : Call → Bool

section

variable {K : Type} (w : Host K)

/-- `versionSortKey`. -/
def versionSortKey (vstr : Text) : Option K :=
  ((search timestampRe vstr).bind (w.mktime .timestamp)).or
    ((search fnameTimestampRe vstr).bind (w.mktime .fnameTimestamp))

/-- `manifestSortKey`. -/
def manifestSortKey (mdata : Manifest) : Option K :=
  (mdata.buildTimestamp.bind (w.mktime .timestamp)).or
    (mdata.fnameBuildTimestamp.bind (w.mktime .fnameTimestamp))

/-- `data`: the manifest, or none. -/
def manifestOf (zf : Archive) : Except KeyError Manifest := zf.manifest.getD (.ok ⟨none, none⟩)

/-- `swiSortKey`. -/
def swiSortKey (table : Table) (swiPath : Text) : Except KeyError K :=
  match w.zipFile table swiPath with
  | none => .error .attributeError
  | some zf => do
      let data ← manifestOf zf
      let vstr := zf.version.getD []
      let ts := (manifestSortKey w data).or ((versionSortKey w vstr).or (versionSortKey w swiPath))
      match ts with
      | some ts => pure ts
      | none => w.getmtime table swiPath

/-! ## `blockdevCopy`: mount, find, and move the mount -/

/-- What a `swiget` can raise. -/
inductive SwigetError where
  /-- A call failed. -/
  | failed (c : Call)
  | valueError
  /-- `os.path.exists(None)`. -/
  | typeError

/-- The mount table, and the fields of the `MountContext`. -/
structure State where
  /-- What is mounted. -/
  table : Table
  /-- The context has mounted. -/
  mounted : Bool
  /-- The temporary directory. -/
  hostDir : Option Text

/-- A computation of `swiget` over the mounts. -/
abbrev Swiget := Prog State SwigetError

/-- A call that may fail. -/
def call (c : Call) : Swiget Unit := Prog.check (w.succeeds c) (.failed c)

/-- `':latest'`. -/
def latestName : Text := ":latest".toList

/-- `x.endswith('.swi')`. -/
def isSwi (x : Text) : Bool := ".swi".toList.isSuffixOf x

variable [LinearOrder K]

/-- A path with its key. -/
def keyed (table : Table) (path : Text) : Except SwigetError (Text × K) :=
  match swiSortKey w table path with
  | .ok k => .ok (path, k)
  | .error _ => .error (.failed .sortKey)

/-- `latest(d)`. -/
def latest (table : Table) (d : Text) : Except SwigetError (Option Text) :=
  if w.succeeds .listdir then do
    let l ← ((w.listdir table d).filter isSwi |>.map (join d)).mapM (keyed w table)
    pure ((l.mergeSort fun a b => a.2 ≤ b.2).getLast?.map Prod.fst)
  else .error (.failed .listdir)

/-- `dst`. -/
def destination (table : Table) (d src : Text) : Except SwigetError (Option Text) :=
  if src = latestName then latest w table d else .ok (some (join d src))

/-- The device is mounted already. -/
def fromMounted (d src : Text) : Swiget (Option Text) := do
  let s ← Prog.get
  let dst ← Prog.ofExcept (destination w s.table d src)
  pure (dst.filter (w.present s.table))

/-- `MountContext.__enter__`. -/
def enter (dev : Text) : Swiget Unit := do
  call w .mkdtemp
  Prog.modify fun s => { s with hostDir := some w.tmp }
  call w .mount
  Prog.modify fun s => { s with table := s.table ++ [⟨dev, w.tmp, .rw⟩], mounted := true }

/-- `umount`, if it is mounted, and /proc/mounts has the directory. -/
def unmountHost (s : State) : Swiget Unit :=
  if s.mounted then do
    call w .procMounts
    if s.table.any fun e => some e.dir = s.hostDir then do
      call w .umount
      Prog.modify fun s => { s with table := unmount (s.hostDir.getD []) s.table }
    else pure ()
  else pure ()

/-- The temporary directory is removed, if there is one. -/
def rmdirHost (s : State) : Swiget Unit := if s.hostDir.isSome then call w .rmdir else pure ()

/-- `MountContext.shutdown`. -/
def shutdown : Swiget Unit := do
  let s ← Prog.get
  unmountHost w s
  rmdirHost w s

/-- `MountContext.__exit__`, whatever the body came to. -/
def exit {α : Type} (r : Except SwigetError α × State) : Except SwigetError α × State :=
  match shutdown w r.2 with
  | (.error e, s) => (.error e, s)
  | (.ok (), s) => (r.1, s)

/-- `with MountContext(device=dev) as ctx`. -/
def withMount {α : Type} (dev : Text) (body : Swiget α) : Swiget α := fun s =>
  match enter w dev s with
  | (.error e, s) => (.error e, s)
  | (.ok (), s) => exit w (body s)

/-- `mount --move src dst`. -/
def moveMount (src dst : Text) (table : Table) : Table :=
  match lastAt src table with
  | some e => unmount src table ++ [{ e with dir := dst }]
  | none => table

/-- The device is mounted for this. -/
def fromContext (src : Text) (dir : Option Text) : Swiget (Option Text) := do
  let s ← Prog.get
  let dst ← Prog.ofExcept (destination w s.table w.tmp src)
  match dst with
  | none => Prog.throw .typeError
  | some dst =>
      if w.present s.table dst then
        match dir with
        | some dir => do
            call w .move
            Prog.modify fun s => { s with table := moveMount w.tmp dir s.table, mounted := false }
            pure (some (join dir src))
        | none => do
            Prog.modify fun s => { s with mounted := false, hostDir := none }
            pure (some dst)
      else pure none

/-- `blockdevCopy(dev, src, dir)`. -/
def blockdevCopy (dev src : Text) (dir : Option Text) : Swiget (Option Text) := do
  call w .procMounts
  let s ← Prog.get
  match s.table.filter fun x => x.device = dev with
  | part :: _ => fromMounted w part.dir src
  | [] => if dev = [] then Prog.throw .valueError else withMount w dev (fromContext w src dir)

/-! ## A usable path where the device is mounted -/

/-- The device is mounted at the directory. -/
def At (table : Table) (dev d : Text) : Prop := ∃ e ∈ table, e.device = dev ∧ e.dir = d

/-- No name in the directory ends in `.swi`. -/
def NoSwi (table : Table) (d : Text) : Prop := ∀ x ∈ w.listdir table d, isSwi x = false

/-- The path is that of a `.swi` file of the directory whose key is as great as any. -/
def IsLatest (table : Table) (d path : Text) : Prop :=
  ∃ x ∈ w.listdir table d, isSwi x = true ∧ path = join d x ∧ ∃ k, swiSortKey w table path = .ok k ∧
    ∀ y ∈ w.listdir table d, isSwi y = true → ∃ k', swiSortKey w table (join d y) = .ok k' ∧ k' ≤ k

/-- The path is that of what was asked for, where the device is mounted. -/
def Requested (table : Table) (dev src path : Text) : Prop :=
  ∃ d, At table dev d ∧ if src = latestName then IsLatest w table d path else path = join d src

/-- There is no such file where the device is mounted. -/
def Missing (table : Table) (dev src : Text) : Prop :=
  ∀ d, At table dev d → if src = latestName then NoSwi w table d else w.present table (join d src) = false

/-- The table with the device on a directory. -/
def mountOn (table : Table) (dev d : Text) : Table := table ++ [⟨dev, d, .rw⟩]

/-- Where the file is looked for. -/
def searched (table : Table) (dev : Text) : Table :=
  if ∃ e ∈ table, e.device = dev then table else mountOn table dev w.tmp

/-- **A usable path**, or none where there is no such file, unless a call fails. -/
structure FindsSwi (table : Table) (dev src : Text) (dir : Option Text) : Prop where
  path : ∀ p s, blockdevCopy w dev src dir ⟨table, false, none⟩ = (.ok (some p), s) →
    w.present s.table p = true ∧ Requested w s.table dev src p
  missing : Missing w (searched w table dev) dev src →
    (blockdevCopy w dev src dir ⟨table, false, none⟩).1 = .ok none ∨
      ∃ e, (blockdevCopy w dev src dir ⟨table, false, none⟩).1 = .error e ∧ e ≠ .typeError

/-! ## The condition on the device, the name and the calls -/

/-- The calls that succeed. -/
def Succeed (cs : List Call) : Prop := ∀ c ∈ cs, w.succeeds c = true

/-- Every `.swi` file of the directory has a key. -/
def Readable (table : Table) (d : Text) : Prop :=
  ∀ x ∈ w.listdir table d, isSwi x = true → ∃ k, swiSortKey w table (join d x) = .ok k

/-- A mount on which the SWI is lost. -/
inductive Lost (table : Table) (dev src : Text) : Option Text → Prop where
  /-- None exists where there is no SWI. -/
  | noSwi {dir : Option Text} (hsrc : src = latestName) (hcalls : Succeed w [.listdir, .umount, .rmdir])
      (hno : NoSwi w (mountOn table dev w.tmp) w.tmp) : Lost table dev src dir
  /-- The word is taken for a name. -/
  | latestMoved {dir : Text} (hsrc : src = latestName) (hcalls : Succeed w [.listdir, .move, .rmdir])
      (hsome : ¬ NoSwi w (mountOn table dev w.tmp) w.tmp)
      (hreadable : Readable w (mountOn table dev w.tmp) w.tmp) : Lost table dev src (some dir)
  /-- The name leads elsewhere. -/
  | elsewhere {dir : Text} (hsrc : src ≠ latestName) (hcalls : Succeed w [.move, .rmdir])
      (hthere : w.present (mountOn table dev w.tmp) (join w.tmp src) = true)
      (hgone : w.present (mountOn table dev dir) (join dir src) = false) : Lost table dev src (some dir)

end

/-! ## The calls -/

section

variable {K : Type} {w : Host K} {table : Table} {d dev src : Text} {dir : Option Text} {s : State}

/-- A program that begins with a call. -/
theorem call_bind {α : Type} (w : Host K) (c : Call) (f : Unit → Swiget α) (s : State) :
    (call w c >>= f) s = if w.succeeds c then f () s else (.error (.failed c), s) :=
  Prog.check_bind_apply _ _ f s

/-- What a call does: nothing, or it raises. -/
theorem call_apply (w : Host K) (c : Call) (s : State) :
    call w c s = if w.succeeds c then (.ok (), s) else (.error (.failed c), s) :=
  Prog.check_apply _ _ s

/-- A list of calls succeeds when the first does, and the others. -/
theorem succeed_cons {c : Call} {cs : List Call} :
    Succeed w (c :: cs) ↔ w.succeeds c = true ∧ Succeed w cs := List.forall_mem_cons

/-- No call at all succeeds. -/
theorem succeed_nil : Succeed w [] := fun _ h => absurd h List.not_mem_nil

/-- Two calls. -/
theorem succeed_two {c c' : Call} : Succeed w [c, c'] ↔ w.succeeds c = true ∧ w.succeeds c' = true := by
  rw [succeed_cons, succeed_cons, and_iff_left succeed_nil]

/-- Three calls. -/
theorem succeed_three {a b c : Call} :
    Succeed w [a, b, c] ↔ w.succeeds a = true ∧ w.succeeds b = true ∧ w.succeeds c = true := by
  rw [succeed_cons, succeed_two]

/-- The device on the temporary directory. -/
def entered (w : Host K) (table : Table) (dev : Text) : State := ⟨mountOn table dev w.tmp, true, some w.tmp⟩

/-- **Entering mounts the device, or a call failed.** -/
theorem enter_spec (w : Host K) (table : Table) (dev : Text) :
    (Succeed w [.mkdtemp, .mount] ∧ enter w dev ⟨table, false, none⟩ = (.ok (), entered w table dev)) ∨
      (¬ Succeed w [.mkdtemp, .mount] ∧
        ∃ c s, enter w dev ⟨table, false, none⟩ = (.error (.failed c), s)) := by
  rw [succeed_cons, succeed_cons, and_iff_left succeed_nil, enter, call_bind]
  by_cases hmkdtemp : w.succeeds .mkdtemp = true
  · rw [if_pos hmkdtemp, Prog.modify_bind_apply, call_bind]
    by_cases hmount : w.succeeds .mount = true
    · rw [if_pos hmount]
      exact .inl ⟨⟨hmkdtemp, hmount⟩, rfl⟩
    · rw [if_neg hmount]
      exact .inr ⟨fun h => hmount h.2, _, _, rfl⟩
  · rw [if_neg hmkdtemp]
    exact .inr ⟨fun h => hmkdtemp h.1, _, _, rfl⟩

/-- What unmounting comes to behind the entrance. -/
theorem unmountHost_entered (w : Host K) (table : Table) (dev : Text) :
    unmountHost w (entered w table dev) = call w .procMounts >>= fun _ => call w .umount >>= fun _ =>
      Prog.modify fun s => { s with table := unmount (s.hostDir.getD []) s.table } := by
  have hmounted : (entered w table dev).table.any
      (fun e => some e.dir = (entered w table dev).hostDir) = true :=
    List.any_eq_true.mpr
      ⟨⟨dev, w.tmp, .rw⟩, List.mem_append_right _ (List.mem_singleton_self _), decide_eq_true rfl⟩
  rw [unmountHost, if_pos (show (entered w table dev).mounted = true from rfl), if_pos hmounted]

/-- The device is taken off the temporary directory. -/
theorem shutdown_entered (w : Host K) (table : Table) (dev : Text) :
    (Succeed w [.procMounts, .umount, .rmdir] ∧ ∃ s, shutdown w (entered w table dev) = (.ok (), s)) ∨
      (¬ Succeed w [.procMounts, .umount, .rmdir] ∧
        ∃ c s, shutdown w (entered w table dev) = (.error (.failed c), s)) := by
  have hshutdown : shutdown w (entered w table dev) =
      (unmountHost w (entered w table dev) >>= fun _ => call w .rmdir) (entered w table dev) := rfl
  rw [succeed_cons, succeed_cons, succeed_cons, and_iff_left succeed_nil, hshutdown, unmountHost_entered,
    Prog.bind_assoc, call_bind]
  by_cases hproc : w.succeeds .procMounts = true
  · rw [if_pos hproc, Prog.bind_assoc, call_bind]
    by_cases humount : w.succeeds .umount = true
    · rw [if_pos humount, Prog.modify_bind_apply, call_apply]
      by_cases hrmdir : w.succeeds .rmdir = true
      · rw [if_pos hrmdir]
        exact .inl ⟨⟨hproc, humount, hrmdir⟩, _, rfl⟩
      · rw [if_neg hrmdir]
        exact .inr ⟨fun h => hrmdir h.2.2, _, _, rfl⟩
    · rw [if_neg humount]
      exact .inr ⟨fun h => humount h.2.1, _, _, rfl⟩
  · rw [if_neg hproc]
    exact .inr ⟨fun h => hproc h.1, _, _, rfl⟩

/-- A shutdown that succeeds leaves the result. -/
theorem exit_of_ok {α : Type} {r : Except SwigetError α} {s' : State} (h : shutdown w s = (.ok (), s')) :
    exit w (r, s) = (r, s') := by
  show (match shutdown w s with | (.error e, s) => (Except.error e, s) | (.ok (), s) => (r, s)) = _
  rw [h]

/-- One that raises replaces it. -/
theorem exit_of_error {α : Type} {r : Except SwigetError α} {s' : State} {e : SwigetError}
    (h : shutdown w s = (.error e, s')) : exit w (r, s) = (.error e, s') := by
  show (match shutdown w s with | (.error e, s) => (Except.error e, s) | (.ok (), s) => (r, s)) = _
  rw [h]

/-- The device has been moved away. -/
def movedTo (w : Host K) (table : Table) (dev dir : Text) : State :=
  ⟨mountOn table dev dir, false, some w.tmp⟩

/-- Behind a move, only the temporary directory is left to remove. -/
theorem shutdown_movedTo (w : Host K) (table : Table) (dev dir : Text) :
    shutdown w (movedTo w table dev dir) =
      if w.succeeds .rmdir then (.ok (), movedTo w table dev dir)
      else (.error (.failed .rmdir), movedTo w table dev dir) := call_apply w .rmdir _

/-- A moved mount is a mount at the other place. -/
theorem moveMount_mountOn (table : Table) (dev d dir : Text) :
    moveMount d dir (mountOn table dev d) = mountOn table dev dir := by
  have hlast : lastAt d (mountOn table dev d) = some ⟨dev, d, .rw⟩ := by
    rw [mountOn, lastAt_append, lastAt, lastAt, if_pos rfl]
    rfl
  have hunmount : unmount d (mountOn table dev d) = table := unmount_append table ⟨dev, d, .rw⟩
  rw [moveMount, hlast]
  show unmount d (mountOn table dev d) ++ _ = _
  rw [hunmount]
  rfl

/-- The way out with the device on the temporary directory. -/
theorem exit_entered {α : Type} (w : Host K) (table : Table) (dev : Text) (r : Except SwigetError α) :
    (Succeed w [.procMounts, .umount, .rmdir] ∧ ∃ s, exit w (r, entered w table dev) = (r, s)) ∨
      (¬ Succeed w [.procMounts, .umount, .rmdir] ∧
        ∃ c s, exit w (r, entered w table dev) = (.error (.failed c), s)) := by
  rcases shutdown_entered w table dev with ⟨hcalls, s, hs⟩ | ⟨hcalls, c, s, hs⟩
  · exact .inl ⟨hcalls, s, exit_of_ok hs⟩
  · exact .inr ⟨hcalls, c, s, exit_of_error hs⟩

/-- A device that is mounted once is at one place. -/
theorem at_mountOn (hfresh : ∀ e ∈ table, e.device ≠ dev) {d' : Text} :
    At (mountOn table dev d) dev d' ↔ d' = d := by
  constructor
  · rintro ⟨e, he, hdev, rfl⟩
    rcases List.mem_append.mp he with he | he
    · exact absurd hdev (hfresh e he)
    · rw [List.mem_singleton.mp he]
  · rintro rfl
    exact ⟨⟨dev, d', .rw⟩, List.mem_append_right _ (List.mem_singleton_self _), rfl, rfl⟩

/-- When a file that was asked for by its name is lost. -/
theorem lost_named (hsrc : src ≠ latestName) : Lost w table dev src dir ↔
    ∃ d, dir = some d ∧ Succeed w [.move, .rmdir] ∧
      w.present (mountOn table dev w.tmp) (join w.tmp src) = true ∧
      w.present (mountOn table dev d) (join d src) = false := by
  constructor
  · intro h
    cases h with
    | noSwi hlatest => exact absurd hlatest hsrc
    | latestMoved hlatest => exact absurd hlatest hsrc
    | elsewhere _ hcalls hthere hgone => exact ⟨_, rfl, hcalls, hthere, hgone⟩
  · rintro ⟨d, rfl, hcalls, hthere, hgone⟩
    exact .elsewhere hsrc hcalls hthere hgone

/-- When the latest one is. -/
theorem lost_latest (hsrc : src = latestName) : Lost w table dev src dir ↔
    (Succeed w [.listdir, .umount, .rmdir] ∧ NoSwi w (mountOn table dev w.tmp) w.tmp) ∨
      (∃ d, dir = some d ∧ Succeed w [.listdir, .move, .rmdir] ∧ ¬ NoSwi w (mountOn table dev w.tmp) w.tmp ∧
        Readable w (mountOn table dev w.tmp) w.tmp) := by
  constructor
  · intro h
    cases h with
    | noSwi _ hcalls hno => exact .inl ⟨hcalls, hno⟩
    | latestMoved _ hcalls hsome hreadable => exact .inr ⟨_, rfl, hcalls, hsome, hreadable⟩
    | elsewhere hne => exact absurd hsrc hne
  · rintro (⟨hcalls, hno⟩ | ⟨d, rfl, hcalls, hsome, hreadable⟩)
    · exact .noSwi hsrc hcalls hno
    · exact .latestMoved hsrc hcalls hsome hreadable

/-! ## `latest`: the last of the images by their keys -/

/-- The paths with their keys, unless one has none. -/
theorem mapM_keyed (w : Host K) (table : Table) : ∀ paths : List Text,
    (∃ l, paths.mapM (keyed w table) = .ok l ∧ l.map Prod.fst = paths ∧
      ∀ a ∈ l, swiSortKey w table a.1 = .ok a.2) ∨
    (paths.mapM (keyed w table) = .error (.failed .sortKey) ∧
      ∃ p ∈ paths, ∀ k, swiSortKey w table p ≠ .ok k)
  | [] => .inl ⟨[], rfl, rfl, fun _ ha => absurd ha List.not_mem_nil⟩
  | p :: paths => by
      rw [List.mapM_cons]
      rcases hkey : swiSortKey w table p with e | k
      · refine .inr ⟨by rw [keyed, hkey]; rfl, p, List.mem_cons_self, fun k hk => ?_⟩
        rw [hkey] at hk
        cases hk
      · rcases mapM_keyed w table paths with ⟨l, hl, hfst, hkeys⟩ | ⟨herr, p', hp', hk⟩
        · refine .inl ⟨(p, k) :: l, by rw [keyed, hkey, hl]; rfl, congrArg (p :: ·) hfst, fun a ha => ?_⟩
          rcases List.mem_cons.mp ha with rfl | ha
          · exact hkey
          · exact hkeys a ha
        · exact .inr ⟨by rw [keyed, hkey, herr]; rfl, p', List.mem_cons_of_mem p hp', hk⟩

variable [LinearOrder K]

/-- **The last one in order** has a key as great as any. -/
theorem getLast_mergeSort {l : List (Text × K)} :
    ((l.mergeSort fun a b => a.2 ≤ b.2).getLast? = none ∧ l = []) ∨
      ∃ a ∈ l, (l.mergeSort fun a b => a.2 ≤ b.2).getLast? = some a ∧ ∀ b ∈ l, b.2 ≤ a.2 := by
  have hperm := List.mergeSort_perm l fun a b => decide (a.2 ≤ b.2)
  have hsorted : (l.mergeSort fun a b => decide (a.2 ≤ b.2)).Pairwise fun a b => a.2 ≤ b.2 := by
    refine (List.pairwise_mergeSort (fun a b c hab hbc => ?_) (fun a b => ?_) l).imp of_decide_eq_true
    · exact decide_eq_true (le_trans (of_decide_eq_true hab) (of_decide_eq_true hbc))
    · rcases le_total a.2 b.2 with h | h
      · rw [decide_eq_true h, Bool.true_or]
      · rw [decide_eq_true h, Bool.or_true]
  rcases List.eq_nil_or_concat (l.mergeSort fun a b => decide (a.2 ≤ b.2)) with hnil | ⟨init, a, hinit⟩
  · rw [hnil] at hperm
    exact .inl ⟨by rw [hnil]; rfl, hperm.nil_eq.symm⟩
  · rw [List.concat_eq_append] at hinit
    rw [hinit] at hperm hsorted
    have ha : a ∈ l := hperm.mem_iff.mp (List.mem_append_right _ (List.mem_singleton_self a))
    refine .inr ⟨a, ha, ?_, fun b hb => ?_⟩
    · rw [hinit]
      exact List.getLast?_concat
    · rcases List.mem_append.mp (hperm.mem_iff.mpr hb) with hb | hb
      · exact (List.pairwise_append.mp hsorted).2.2 b hb a (List.mem_singleton_self a)
      · rw [List.mem_singleton.mp hb]

/-- What `latest` comes to. -/
theorem latest_spec (w : Host K) (table : Table) (d : Text) :
    (∃ c, latest w table d = .error (.failed c) ∧ ¬ (w.succeeds .listdir = true ∧ Readable w table d)) ∨
      (latest w table d = .ok none ∧ w.succeeds .listdir = true ∧ NoSwi w table d) ∨
      ∃ p, latest w table d = .ok (some p) ∧ w.succeeds .listdir = true ∧ Readable w table d ∧
        ¬ NoSwi w table d ∧ IsLatest w table d p := by
  have hmem : ∀ {x : Text}, x ∈ w.listdir table d → isSwi x = true →
      join d x ∈ ((w.listdir table d).filter isSwi).map (join d) := fun hx hswi =>
    List.mem_map_of_mem (List.mem_filter.mpr ⟨hx, hswi⟩)
  by_cases hlist : w.succeeds .listdir = true
  · rcases mapM_keyed w table (((w.listdir table d).filter isSwi).map (join d)) with
      ⟨l, hl, hfst, hkeys⟩ | ⟨herr, p, hp, hk⟩
    · have hlatest : latest w table d =
          .ok ((l.mergeSort fun a b => a.2 ≤ b.2).getLast?.map Prod.fst) := by
        rw [latest, if_pos hlist, hl]
        rfl
      have hkey : ∀ {x : Text}, x ∈ w.listdir table d → isSwi x = true →
          ∃ a ∈ l, a.1 = join d x ∧ swiSortKey w table (join d x) = .ok a.2 := by
        intro x hx hswi
        have hpath := hmem hx hswi
        rw [← hfst] at hpath
        obtain ⟨a, ha, heq⟩ := List.mem_map.mp hpath
        exact ⟨a, ha, heq, heq ▸ hkeys a ha⟩
      right
      rw [hlatest]
      rcases getLast_mergeSort (l := l) with ⟨hlast, rfl⟩ | ⟨a, ha, hlast, hmax⟩
      · refine .inl ⟨by rw [hlast]; rfl, hlist, fun x hx => ?_⟩
        rw [Bool.eq_false_iff]
        intro hswi
        obtain ⟨a, ha, -⟩ := hkey hx hswi
        exact absurd ha List.not_mem_nil
      · have hpath : a.1 ∈ ((w.listdir table d).filter isSwi).map (join d) :=
          hfst ▸ List.mem_map_of_mem ha
        obtain ⟨x, hx, heq⟩ := List.mem_map.mp hpath
        obtain ⟨hlisted, hswi⟩ := List.mem_filter.mp hx
        refine .inr ⟨a.1, by rw [hlast]; rfl, hlist, fun y hy hyswi => ?_, fun hno => ?_, x, hlisted, hswi,
          heq.symm, a.2, hkeys a ha, fun y hy hyswi => ?_⟩
        · obtain ⟨b, -, -, hb⟩ := hkey hy hyswi
          exact ⟨b.2, hb⟩
        · rw [hno x hlisted] at hswi
          cases hswi
        · obtain ⟨b, hb, -, hkb⟩ := hkey hy hyswi
          exact ⟨b.2, hkb, hmax b hb⟩
    · refine .inl ⟨.sortKey, by rw [latest, if_pos hlist, herr]; rfl, fun h => ?_⟩
      obtain ⟨x, hx, rfl⟩ := List.mem_map.mp hp
      obtain ⟨hlisted, hswi⟩ := List.mem_filter.mp hx
      obtain ⟨k, hkey⟩ := h.2 x hlisted hswi
      exact hk k hkey
  · exact .inl ⟨.listdir, by rw [latest, if_neg hlist], fun h => hlist h.1⟩

/-- A file with a key is there. -/
theorem IsLatest.present {path : Text} (h : IsLatest w table d path) : w.present table path = true := by
  obtain ⟨x, -, -, -, k, hkey, -⟩ := h
  refine w.opened table path ?_
  rw [swiSortKey] at hkey
  cases hzip : w.zipFile table path with
  | none =>
      rw [hzip] at hkey
      cases hkey
  | some zf => rfl

/-- What is to be looked for. -/
theorem destination_spec (w : Host K) (table : Table) (d src : Text) :
    (src ≠ latestName ∧ destination w table d src = .ok (some (join d src))) ∨
    (src = latestName ∧
      ((∃ c, destination w table d src = .error (.failed c) ∧
        ¬ (w.succeeds .listdir = true ∧ Readable w table d)) ∨
      (destination w table d src = .ok none ∧ w.succeeds .listdir = true ∧ NoSwi w table d) ∨
      ∃ p, destination w table d src = .ok (some p) ∧ w.succeeds .listdir = true ∧ Readable w table d ∧
        ¬ NoSwi w table d ∧ IsLatest w table d p)) := by
  by_cases hsrc : src = latestName
  · rw [destination, if_pos hsrc]
    exact .inr ⟨hsrc, latest_spec w table d⟩
  · rw [destination, if_neg hsrc]
    exact .inl ⟨hsrc, rfl⟩

/-! ## The body of the context -/

/-- What the body comes to, where the destination is `dst`. -/
theorem fromContext_some {dst : Text}
    (hdst : destination w (mountOn table dev w.tmp) w.tmp src = .ok (some dst)) :
    fromContext w src dir (entered w table dev) =
      if w.present (mountOn table dev w.tmp) dst then
        match dir with
        | some dir =>
            if w.succeeds .move then (.ok (some (join dir src)), movedTo w table dev dir)
            else (.error (.failed .move), entered w table dev)
        | none => (.ok (some dst), ⟨mountOn table dev w.tmp, false, none⟩)
      else (.ok none, entered w table dev) := by
  rw [fromContext, Prog.get_bind_apply]
  show (Prog.ofExcept (destination w (mountOn table dev w.tmp) w.tmp src) >>= _) _ = _
  rw [hdst]
  show (if w.present (mountOn table dev w.tmp) dst then _ else _ : Swiget (Option Text)) _ = _
  by_cases hpresent : w.present (mountOn table dev w.tmp) dst = true
  · rw [if_pos hpresent, if_pos hpresent]
    cases dir with
    | none => rfl
    | some dir =>
        have hmoved : movedTo w table dev dir =
            ⟨moveMount w.tmp dir (mountOn table dev w.tmp), false, some w.tmp⟩ := by
          rw [moveMount_mountOn]
          rfl
        show (call w .move >>= _) _ = if w.succeeds .move then (_, movedTo w table dev dir) else _
        rw [call_bind, hmoved]
        rfl
  · rw [if_neg hpresent, if_neg hpresent]
    rfl

/-! ## The result: a path where the image is, exactly under the condition -/

/-- A failed call finds nothing, and says so. -/
theorem finds_of_error {e : SwigetError} (he : e ≠ .typeError)
    (h : blockdevCopy w dev src dir ⟨table, false, none⟩ = (.error e, s)) : FindsSwi w table dev src dir where
  path p s' hp := by
    rw [h] at hp
    cases hp
  missing _ := .inr ⟨e, by rw [h], he⟩

/-- The same of a call by its name. -/
theorem finds_of_failed {c : Call}
    (h : blockdevCopy w dev src dir ⟨table, false, none⟩ = (.error (.failed c), s)) :
    FindsSwi w table dev src dir := finds_of_error (e := .failed c) (fun h => nomatch h) h

/-- A result of `None` for a file that is missing. -/
theorem finds_of_none (h : blockdevCopy w dev src dir ⟨table, false, none⟩ = (.ok none, s)) :
    FindsSwi w table dev src dir where
  path p s' hp := by
    rw [h] at hp
    cases hp
  missing _ := .inl (by rw [h])

/-- A result that is there and was asked for. -/
theorem finds_of_some {p : Text} (h : blockdevCopy w dev src dir ⟨table, false, none⟩ = (.ok (some p), s))
    (hpresent : w.present s.table p = true) (hrequested : Requested w s.table dev src p)
    (hthere : ¬ Missing w (searched w table dev) dev src) : FindsSwi w table dev src dir where
  path p' s' hp := by
    rw [h] at hp
    cases hp
    exact ⟨hpresent, hrequested⟩
  missing hmissing := absurd hmissing hthere

/-- A path of what was asked for is no longer missing. -/
theorem not_missing {p : Text} (hat : At table dev d)
    (h : if src = latestName then IsLatest w table d p else w.present table (join d src) = true) :
    ¬ Missing w table dev src := by
  intro hmissing
  have hd := hmissing d hat
  by_cases hsrc : src = latestName
  · rw [if_pos hsrc] at h hd
    obtain ⟨x, hx, hswi, -⟩ := h
    rw [hd x hx] at hswi
    cases hswi
  · rw [if_neg hsrc] at h hd
    rw [h] at hd
    cases hd

/-- **A device that is mounted already.** -/
theorem finds_mounted (hmounted : ∃ e ∈ table, e.device = dev) : FindsSwi w table dev src dir := by
  obtain ⟨e, he, hdev⟩ := hmounted
  have hsearched : searched w table dev = table := if_pos ⟨e, he, hdev⟩
  rcases hparts : table.filter fun x => x.device = dev with _ | ⟨part, parts⟩
  · have hmem : e ∈ table.filter fun x => x.device = dev := List.mem_filter.mpr ⟨he, decide_eq_true hdev⟩
    rw [hparts] at hmem
    exact absurd hmem List.not_mem_nil
  · obtain ⟨hpart, hpartDev⟩ := List.mem_filter.mp
      (hparts ▸ List.mem_cons_self : part ∈ table.filter fun x => x.device = dev)
    have hat : At table dev part.dir := ⟨part, hpart, of_decide_eq_true hpartDev, rfl⟩
    by_cases hproc : w.succeeds .procMounts = true
    · have hrun : blockdevCopy w dev src dir ⟨table, false, none⟩ =
          fromMounted w part.dir src ⟨table, false, none⟩ := by
        rw [blockdevCopy, call_bind, if_pos hproc, Prog.get_bind_apply]
        show (match table.filter fun x => x.device = dev with
          | part :: _ => fromMounted w part.dir src
          | [] => _ : Swiget (Option Text)) _ = _
        rw [hparts]
      have hresult : ∀ dst, destination w table part.dir src = .ok dst →
          blockdevCopy w dev src dir ⟨table, false, none⟩ =
            (.ok (dst.filter (w.present table)), ⟨table, false, none⟩) := by
        intro dst hdst
        rw [hrun, fromMounted, Prog.get_bind_apply]
        show (Prog.ofExcept (destination w table part.dir src) >>= _) _ = _
        rw [hdst]
        rfl
      rcases destination_spec w table part.dir src with ⟨hsrc, hdst⟩ |
        ⟨hsrc, ⟨c, hdst, -⟩ | ⟨hdst, -, -⟩ | ⟨p, hdst, -, -, -, hlatest⟩⟩
      · have hres := hresult _ hdst
        rw [Option.filter_some] at hres
        by_cases hpresent : w.present table (join part.dir src) = true
        · rw [if_pos hpresent] at hres
          refine finds_of_some hres hpresent ⟨part.dir, hat, by rw [if_neg hsrc]⟩ ?_
          rw [hsearched]
          exact not_missing (p := join part.dir src) hat (by rw [if_neg hsrc]; exact hpresent)
        · rw [if_neg hpresent] at hres
          exact finds_of_none hres
      · refine finds_of_failed (s := ⟨table, false, none⟩) (c := c) ?_
        rw [hrun, fromMounted, Prog.get_bind_apply]
        show (Prog.ofExcept (destination w table part.dir src) >>= _) _ = _
        rw [hdst]
        rfl
      · exact finds_of_none (hresult _ hdst)
      · have hres := hresult _ hdst
        rw [Option.filter_some, if_pos hlatest.present] at hres
        refine finds_of_some hres hlatest.present ⟨part.dir, hat, by rw [if_pos hsrc]; exact hlatest⟩ ?_
        rw [hsearched]
        exact not_missing (p := p) hat (by rw [if_pos hsrc]; exact hlatest)
    · exact finds_of_failed (by rw [blockdevCopy, call_bind, if_neg hproc])

/-- The word `:latest` is not the name of a `.swi` file. -/
theorem not_isLatest_word {dir' : Text} : ¬ IsLatest w table d (join dir' latestName) := by
  rintro ⟨x, -, hswi, hpath, -⟩
  have hsuffix : ∀ a b : Text, b <:+ join a b := by
    intro a b
    rw [join]
    split
    · exact List.suffix_refl b
    · split
      · exact List.suffix_append a b
      · exact List.suffix_append _ b
  have hx : ".swi".toList <:+ join dir' latestName :=
    (List.isSuffixOf_iff_suffix.mp hswi).trans (hpath ▸ hsuffix d x)
  have hword := List.suffix_of_suffix_length_le hx (hsuffix dir' latestName) (by decide)
  exact absurd hword (by decide)

/-- The move, and the way out of it. -/
theorem exit_moved (dir' : Text) {dst : Text}
    (hdst : destination w (mountOn table dev w.tmp) w.tmp src = .ok (some dst))
    (hpresent : w.present (mountOn table dev w.tmp) dst = true) :
    (Succeed w [.move, .rmdir] ∧ exit w (fromContext w src (some dir') (entered w table dev)) =
      (.ok (some (join dir' src)), movedTo w table dev dir')) ∨
    (¬ Succeed w [.move, .rmdir] ∧
      ∃ c s, exit w (fromContext w src (some dir') (entered w table dev)) = (.error (.failed c), s)) := by
  rw [fromContext_some hdst, if_pos hpresent, succeed_two]
  show (_ ∧ exit w (if w.succeeds .move then _ else _) = _) ∨
    (_ ∧ ∃ c s, exit w (if w.succeeds .move then _ else _) = _)
  by_cases hmove : w.succeeds .move = true
  · rw [if_pos hmove]
    have hshutdown := shutdown_movedTo w table dev dir'
    by_cases hrmdir : w.succeeds .rmdir = true
    · rw [if_pos hrmdir] at hshutdown
      exact .inl ⟨⟨hmove, hrmdir⟩, exit_of_ok hshutdown⟩
    · rw [if_neg hrmdir] at hshutdown
      exact .inr ⟨fun h => hrmdir h.2, _, _, exit_of_error hshutdown⟩
  · rw [if_neg hmove]
    refine .inr ⟨fun h => hmove h.1, ?_⟩
    rcases exit_entered w table dev (.error (.failed .move) : Except SwigetError (Option Text)) with
      ⟨-, s, hs⟩ | ⟨-, c, s, hs⟩
    · exact ⟨_, s, hs⟩
    · exact ⟨c, s, hs⟩

/-- For a device that is not mounted, the copy works in a mount of its own. -/
theorem blockdevCopy_fresh (hfresh : ∀ e ∈ table, e.device ≠ dev) (hproc : w.succeeds .procMounts = true) :
    blockdevCopy w dev src dir ⟨table, false, none⟩ =
      (if dev = [] then Prog.throw .valueError else withMount w dev (fromContext w src dir) :
        Swiget (Option Text)) ⟨table, false, none⟩ := by
  have hparts : table.filter (fun x => x.device = dev) = [] :=
    List.filter_eq_nil_iff.mpr fun e he h => hfresh e he (of_decide_eq_true h)
  rw [blockdevCopy, call_bind, if_pos hproc, Prog.get_bind_apply]
  show (match table.filter fun x => x.device = dev with
    | part :: _ => _
    | [] => if dev = [] then _ else withMount w dev (fromContext w src dir) : Swiget (Option Text)) _ = _
  rw [hparts]

section

variable (hfresh : ∀ e ∈ table, e.device ≠ dev)
  (hrun : blockdevCopy w dev src dir ⟨table, false, none⟩ =
    exit w (fromContext w src dir (entered w table dev)))

include hrun

/-- What the body leaves on the temporary directory is only as good as the way out. -/
theorem exit_run {r : Except SwigetError (Option Text)}
    (hbody : fromContext w src dir (entered w table dev) = (r, entered w table dev)) :
    (Succeed w [.procMounts, .umount, .rmdir] ∧
      ∃ s, blockdevCopy w dev src dir ⟨table, false, none⟩ = (r, s)) ∨
    (¬ Succeed w [.procMounts, .umount, .rmdir] ∧
      ∃ c s, blockdevCopy w dev src dir ⟨table, false, none⟩ = (.error (.failed c), s)) := by
  rw [hrun, hbody]
  exact exit_entered w table dev r

/-- The directory, or a file in it, cannot be read. -/
theorem finds_unreadable {c : Call} (hsrc : src = latestName)
    (hdst : destination w (mountOn table dev w.tmp) w.tmp src = .error (.failed c))
    (hkeys : ¬ (w.succeeds .listdir = true ∧ Readable w (mountOn table dev w.tmp) w.tmp)) :
    FindsSwi w table dev src dir ↔ ¬ Lost w table dev src dir := by
  have hbody : fromContext w src dir (entered w table dev) = (.error (.failed c), entered w table dev) := by
    rw [fromContext, Prog.get_bind_apply]
    show (Prog.ofExcept (destination w (mountOn table dev w.tmp) w.tmp src) >>= _) _ = _
    rw [hdst]
    rfl
  rw [lost_latest hsrc]
  refine iff_of_true ?_ ?_
  · rcases exit_run hrun hbody with ⟨-, s, hres⟩ | ⟨-, c', s, hres⟩
    · exact finds_of_failed hres
    · exact finds_of_failed hres
  · rintro (⟨hcalls, hno⟩ | ⟨d, -, hcalls, -, hreadable⟩)
    · refine hkeys ⟨(succeed_three.mp hcalls).1, fun x hx hswi => ?_⟩
      rw [hno x hx] at hswi
      cases hswi
    · exact hkeys ⟨(succeed_three.mp hcalls).1, hreadable⟩

include hfresh

/-- A name. -/
theorem finds_named (hsrc : src ≠ latestName)
    (hdst : destination w (mountOn table dev w.tmp) w.tmp src = .ok (some (join w.tmp src))) :
    FindsSwi w table dev src dir ↔ ¬ Lost w table dev src dir := by
  have hsearched : searched w table dev = mountOn table dev w.tmp :=
    if_neg fun ⟨e, he, heq⟩ => hfresh e he heq
  have hat := (at_mountOn (d := w.tmp) hfresh).mpr rfl
  rw [lost_named hsrc]
  -- the name is looked up on the temporary directory, and may be gone behind the move
  by_cases hpresent : w.present (mountOn table dev w.tmp) (join w.tmp src) = true
  · have hthere : ¬ Missing w (searched w table dev) dev src := by
      rw [hsearched]
      exact not_missing (p := join w.tmp src) hat (by rw [if_neg hsrc]; exact hpresent)
    cases dir with
    | none =>
        refine iff_of_true (finds_of_some (s := ⟨mountOn table dev w.tmp, false, none⟩) ?_ hpresent
          ⟨w.tmp, hat, by rw [if_neg hsrc]⟩ hthere) fun ⟨_, h, _⟩ => nomatch h
        rw [hrun, fromContext_some hdst, if_pos hpresent]
        rfl
    | some dir =>
        rcases exit_moved dir hdst hpresent with ⟨hcalls, hexit⟩ | ⟨hcalls, c, s, hexit⟩
        · by_cases hgone : w.present (mountOn table dev dir) (join dir src) = true
          · refine iff_of_true (finds_of_some (s := movedTo w table dev dir) (hrun.trans hexit) hgone
              ⟨dir, (at_mountOn hfresh).mpr rfl, by rw [if_neg hsrc]⟩ hthere) ?_
            rintro ⟨d, hd, -, -, hfalse⟩
            cases hd
            rw [hgone] at hfalse
            cases hfalse
          · refine iff_of_false (fun h => hgone (h.path _ _ (hrun.trans hexit)).1) fun h => h ?_
            exact ⟨dir, rfl, hcalls, hpresent, Bool.eq_false_iff.mpr hgone⟩
        · exact iff_of_true (finds_of_failed (hrun.trans hexit)) fun ⟨_, _, h, _⟩ => hcalls h
  · have hbody : fromContext w src dir (entered w table dev) = (.ok none, entered w table dev) := by
      rw [fromContext_some hdst, if_neg hpresent]
    refine iff_of_true ?_ fun ⟨_, _, _, h, _⟩ => hpresent h
    rcases exit_run hrun hbody with ⟨-, s, hres⟩ | ⟨-, c, s, hres⟩
    · exact finds_of_none hres
    · exact finds_of_failed hres

/-- No SWI: whether `None` exists. -/
theorem finds_noSwi (hproc : w.succeeds .procMounts = true) (hsrc : src = latestName)
    (hdst : destination w (mountOn table dev w.tmp) w.tmp src = .ok none)
    (hlist : w.succeeds .listdir = true) (hno : NoSwi w (mountOn table dev w.tmp) w.tmp) :
    FindsSwi w table dev src dir ↔ ¬ Lost w table dev src dir := by
  have hsearched : searched w table dev = mountOn table dev w.tmp :=
    if_neg fun ⟨e, he, heq⟩ => hfresh e he heq
  have hbody : fromContext w src dir (entered w table dev) = (.error .typeError, entered w table dev) := by
    rw [fromContext, Prog.get_bind_apply]
    show (Prog.ofExcept (destination w (mountOn table dev w.tmp) w.tmp src) >>= _) _ = _
    rw [hdst]
    rfl
  rw [lost_latest hsrc]
  -- the exception comes out unless the way out has one of its own
  rcases exit_run hrun hbody with ⟨hcalls, s, hres⟩ | ⟨hcalls, c, s, hres⟩
  · refine iff_of_false (fun h => ?_) fun h => h (.inl ⟨?_, hno⟩)
    · have hmissing : Missing w (searched w table dev) dev src := by
        rw [hsearched]
        intro d hd
        rw [(at_mountOn hfresh).mp hd, if_pos hsrc]
        exact hno
      have hresult := h.missing hmissing
      rw [hres] at hresult
      rcases hresult with hnone | ⟨e, he, hne⟩
      · cases hnone
      · cases he
        exact hne rfl
    · exact succeed_three.mpr ⟨hlist, (succeed_three.mp hcalls).2⟩
  · refine iff_of_true (finds_of_failed hres) ?_
    rintro (⟨hsucceed, -⟩ | ⟨d, -, -, hsome, -⟩)
    · exact hcalls (succeed_three.mpr ⟨hproc, (succeed_three.mp hsucceed).2⟩)
    · exact hsome hno

/-- The latest SWI is found, and its name lost in the move. -/
theorem finds_latest {p : Text} (hsrc : src = latestName)
    (hdst : destination w (mountOn table dev w.tmp) w.tmp src = .ok (some p))
    (hlist : w.succeeds .listdir = true) (hreadable : Readable w (mountOn table dev w.tmp) w.tmp)
    (hswi : ¬ NoSwi w (mountOn table dev w.tmp) w.tmp)
    (hlatest : IsLatest w (mountOn table dev w.tmp) w.tmp p) :
    FindsSwi w table dev src dir ↔ ¬ Lost w table dev src dir := by
  have hsearched : searched w table dev = mountOn table dev w.tmp :=
    if_neg fun ⟨e, he, heq⟩ => hfresh e he heq
  have hat := (at_mountOn (d := w.tmp) hfresh).mpr rfl
  have hpresent := hlatest.present
  rw [lost_latest hsrc]
  cases dir with
  | none =>
      refine iff_of_true (finds_of_some (s := ⟨mountOn table dev w.tmp, false, none⟩) ?_ hpresent
        ⟨w.tmp, hat, ?_⟩ ?_) ?_
      · rw [hrun, fromContext_some hdst, if_pos hpresent]
        rfl
      · rw [if_pos hsrc]
        exact hlatest
      · rw [hsearched]
        exact not_missing (p := p) hat (by rw [if_pos hsrc]; exact hlatest)
      · rintro (⟨-, hno⟩ | ⟨_, h, -⟩)
        · exact hswi hno
        · cases h
  | some dir =>
      rcases exit_moved dir hdst hpresent with ⟨hcalls, hexit⟩ | ⟨hcalls, c, s, hexit⟩
      · refine iff_of_false (fun h => ?_) fun h => h (.inr ⟨dir, rfl, ?_, hswi, hreadable⟩)
        · obtain ⟨d, -, hrequested⟩ := (h.path _ _ (hrun.trans hexit)).2
          rw [if_pos hsrc, hsrc] at hrequested
          exact not_isLatest_word hrequested
        · exact succeed_three.mpr ⟨hlist, succeed_two.mp hcalls⟩
      · refine iff_of_true (finds_of_failed (hrun.trans hexit)) ?_
        rintro (⟨-, hno⟩ | ⟨_, -, h, -⟩)
        · exact hswi hno
        · exact hcalls (succeed_two.mpr (succeed_three.mp h).2)

end

/-- **A device that is mounted for this.** -/
theorem finds_fresh (hfresh : ∀ e ∈ table, e.device ≠ dev) (hdev : dev ≠ [])
    (hstart : Succeed w [.procMounts, .mkdtemp, .mount]) :
    FindsSwi w table dev src dir ↔ ¬ Lost w table dev src dir := by
  obtain ⟨hproc, hcalls⟩ := succeed_cons.mp hstart
  have hrun : blockdevCopy w dev src dir ⟨table, false, none⟩ =
      exit w (fromContext w src dir (entered w table dev)) := by
    rw [blockdevCopy_fresh hfresh hproc, if_neg hdev, withMount]
    rcases enter_spec w table dev with ⟨-, henter⟩ | ⟨hno, -⟩
    · rw [henter]
    · exact absurd hcalls hno
  rcases destination_spec w (mountOn table dev w.tmp) w.tmp src with ⟨hsrc, hdst⟩ |
    ⟨hsrc, ⟨c, hdst, hkeys⟩ | ⟨hdst, hlist, hno⟩ | ⟨p, hdst, hlist, hreadable, hswi, hlatest⟩⟩
  · exact finds_named hfresh hrun hsrc hdst
  · exact finds_unreadable hrun hsrc hdst hkeys
  · exact finds_noSwi hfresh hrun hproc hsrc hdst hlist hno
  · exact finds_latest hfresh hrun hsrc hdst hlist hreadable hswi hlatest

/-- **`blockdevCopy` gives a usable path** exactly if the SWI is not lost on a mount of its own. -/
theorem finds_iff (w : Host K) (table : Table) (dev src : Text) (dir : Option Text) :
    FindsSwi w table dev src dir ↔ ¬ ((∀ e ∈ table, e.device ≠ dev) ∧ dev ≠ [] ∧
      Succeed w [.procMounts, .mkdtemp, .mount] ∧ Lost w table dev src dir) := by
  by_cases hfresh : ∀ e ∈ table, e.device ≠ dev
  · rw [and_iff_right hfresh]
    by_cases hstart : dev ≠ [] ∧ Succeed w [.procMounts, .mkdtemp, .mount]
    · rw [and_iff_right hstart.1, and_iff_right hstart.2]
      exact finds_fresh hfresh hstart.1 hstart.2
    · refine iff_of_true ?_ fun h => hstart ⟨h.1, h.2.1⟩
      by_cases hproc : w.succeeds .procMounts = true
      · by_cases hdev : dev = []
        · refine finds_of_error (e := .valueError) (s := ⟨table, false, none⟩) (fun h => nomatch h) ?_
          rw [blockdevCopy_fresh hfresh hproc, if_pos hdev]
          rfl
        · rcases enter_spec w table dev with ⟨hcalls, -⟩ | ⟨-, c, s, henter⟩
          · exact absurd ⟨hdev, succeed_cons.mpr ⟨hproc, hcalls⟩⟩ hstart
          · refine finds_of_failed (c := c) (s := s) ?_
            rw [blockdevCopy_fresh hfresh hproc, if_neg hdev, withMount, henter]
      · exact finds_of_failed (by rw [blockdevCopy, call_bind, if_neg hproc])
  · refine iff_of_true (finds_mounted ?_) fun h => hfresh h.1
    obtain ⟨e, he⟩ := not_forall.mp hfresh
    obtain ⟨hmem, hdev⟩ := Classical.not_imp.mp he
    exact ⟨e, hmem, not_not.mp hdev⟩

end

/-- A system on which everything succeeds, and no SWI is on the device. -/
def emptyDevice : Host Nat where
  present _ _ := false
  listdir _ _ := []
  zipFile _ _ := none
  getmtime _ _ := .error .osError
  mktime _ _ := none
  opened _ _ h := absurd h Bool.false_ne_true
  tmp := "/tmp/mount-0.d".toList
  succeeds _ := true

/-- **No SWI** raises. -/
theorem empty_raises : ¬ FindsSwi emptyDevice [] "/dev/sda1".toList latestName none := fun h => by
  have hno : NoSwi emptyDevice (mountOn [] "/dev/sda1".toList emptyDevice.tmp) emptyDevice.tmp :=
    fun _ hx => absurd hx List.not_mem_nil
  have hfinds := finds_fresh (fun _ he => absurd he List.not_mem_nil) (by decide) (fun _ _ => rfl) |>.mp h
  exact hfinds (.noSwi rfl (fun _ _ => rfl) hno)

end DentOS.SwiGet
