/-
  `OnieBootContext` over its life: what is left of it in the system.

  `shutdown` behind an `__enter__` that returned gives back the mount table and the temporary files as they
  were, whatever was mounted in the chroot in between, through the `with` alone (`withOnieBoot`) and through
  the installer, which keeps the context beyond it (`install`).  The invariant between the two is `Holds`.

  An `__enter__` that raises gives back what it made up to then except where the exception comes from
  another `__enter__` further in that had made something itself, or from the chroot behind the `detach`
  of the partition (`Leaks`).
-/
import DentOS.Install.OnieBoot

namespace DentOS.OnieBoot

open PyText Effects Mounts
open GrubEnv (join comps comps_append)

/-! ## What is mounted in the chroot, and what unmounting leaves -/

/-- Mounts of a directory that the kernel can take away from the last to the first. -/
structure Inside (c : Text) (mounts : Table) : Prop where
  canonical : ∀ m ∈ mounts, Canonical m.dir
  plain : ∀ m ∈ mounts, '\\' ∉ m.dir
  within : ∀ m ∈ mounts, Within m.dir c
  not_hidden : mounts.Pairwise fun m f => ¬ Below m.dir f.dir

/-- Mounts that have nothing to do with it. -/
structure Outside (c : Text) (mounts : Table) : Prop where
  canonical : ∀ m ∈ mounts, Canonical m.dir
  apart : ∀ m ∈ mounts, ¬ c <+: m.dir

/-- What is outside is not in the directory. -/
theorem Outside.not_within {c : Text} {mounts : Table} (h : Outside c mounts) (hc : Canonical c)
    {m : Entry} (hm : m ∈ mounts) : ¬ Within m.dir c :=
  fun hwithin => h.apart m hm (prefix_of_within (h.canonical m hm) hc hwithin)

/-- Two tables that are outside. -/
theorem Outside.append {c : Text} {mounts mounts' : Table} (h : Outside c mounts) (h' : Outside c mounts') :
    Outside c (mounts ++ mounts') := by
  refine ⟨fun m hm => ?_, fun m hm => ?_⟩
  · rcases List.mem_append.mp hm with hm | hm
    · exact h.canonical m hm
    · exact h'.canonical m hm
  · rcases List.mem_append.mp hm with hm | hm
    · exact h.apart m hm
    · exact h'.apart m hm

/-- **The chroot is unmounted**, and nothing else. -/
theorem unmount_inside {c : Text} (hc : Canonical c) {outside inside : Table} (hout : Outside c outside)
    (hin : Inside c inside) :
    Mounts.InitrdContext.unmount kernelUmounts (some c) (outside ++ inside) = (true, outside) := by
  have hcanonical : ∀ m ∈ outside ++ inside, Canonical m.dir := by
    intro m hm
    rcases List.mem_append.mp hm with hm | hm
    · exact hout.canonical m hm
    · exact hin.canonical m hm
  have hvisible : Visible c ⟨outside ++ inside, hcanonical⟩ := by
    refine ⟨fun m hm => ⟨fun hprefix => ?_, fun hwithin => ?_⟩, fun m hm hwithin => ?_, ?_⟩
    · rcases List.mem_append.mp hm with hm | hm
      · exact absurd hprefix (hout.apart m hm)
      · exact hin.within m hm
    · exact prefix_of_within (hcanonical m hm) hc hwithin
    · rcases List.mem_append.mp hm with hm | hm
      · exact absurd hwithin (hout.not_within hc hm)
      · exact hin.plain m hm
    · refine List.pairwise_append.mpr ⟨?_, ?_, ?_⟩
      · refine List.pairwise_iff_forall_sublist.mpr fun {m f} hmf hwithin => ?_
        exact absurd hwithin (hout.not_within hc (hmf.subset List.mem_cons_self))
      · refine hin.not_hidden.imp ?_
        intro m f h _
        exact h
      · intro m hm _ _ hwithin
        exact absurd hwithin (hout.not_within hc hm)
  have hrun := (cleans_of_visible hvisible).succeeds
  have hkept : mountsOutside c (outside ++ inside) = outside := by
    rw [mountsOutside, List.filter_append, List.filter_eq_self.mpr, List.filter_eq_nil_iff.mpr,
      List.append_nil]
    · intro m hm
      simpa using hin.within m hm
    · intro m hm
      simpa using hout.not_within hc hm
  rw [hkept] at hrun
  exact hrun

/-! ## `InitrdContext`: entering makes what exiting removes -/

variable {host : Host}

/-- The filesystems that `InitrdContext.__enter__` mounts. -/
def chrootFs (host : Host) : List ChrootFs :=
  [.proc, .sysfs] ++ (if host.hasEfivars then [.efivarfs] else [])
    ++ (if host.hasDevTmpfs then [.devtmpfs] else []) ++ [.devpts]

/-- What they are in the mount table. -/
def chrootMounts (host : Host) : Table := (chrootFs host).map (ChrootFs.entry (host.temp .chroot))

/-- The calls of `InitrdContext.__enter__` that succeed, behind `mkdtemp`. -/
structure Chroots (host : Host) (initrd : Text) : Prop where
  opened : host.succeeds .openInitrd = true
  piped : ∃ c, decompressor (host.head initrd) = some c ∧ host.succeeds (.pipe c) = true
  prepared : host.succeeds .prepDirs = true
  loaded : host.hasEfivarfs = false → host.succeeds .modprobe = true
  mounted : ∀ fs ∈ chrootFs host, host.succeeds (.mount fs) = true
  pts : host.hasDevTmpfs = true → host.hasPts = false → host.succeeds .mkdirPts = true

/-- Which they are. -/
theorem mem_chrootFs {fs : ChrootFs} : fs ∈ chrootFs host ↔
    fs = .proc ∨ fs = .sysfs ∨ fs = .devpts ∨ (fs = .efivarfs ∧ host.hasEfivars = true)
      ∨ (fs = .devtmpfs ∧ host.hasDevTmpfs = true) := by
  unfold chrootFs
  cases fs <;> cases host.hasEfivars <;> cases host.hasDevTmpfs <;> decide

/-- The state behind `InitrdContext.__enter__`. -/
def chrooted (host : Host) (initrd : Text) (s : State) : State :=
  { s with
    mounts := s.mounts ++ chrootMounts host
    temps := host.temp .chroot :: s.temps
    ictx := .make ⟨some initrd, some (host.temp .chroot), none, none⟩ }

/-- A call that succeeds changes nothing. -/
theorem call_of_succeeds {c : Call} (h : host.succeeds c = true) (s : State) :
    call host c s = (.ok (), s) := by
  rw [call, Prog.check_apply, if_pos h]

/-- A directory is made. -/
theorem mkdtemp_of_succeeds {t : Temp} (h : host.succeeds (.mkdtemp t) = true) (s : State) :
    mkdtemp host t s = (.ok (), { s with temps := host.temp t :: s.temps }) := by
  rw [mkdtemp, Prog.bind_of_ok (call_of_succeeds h s)]
  rfl

/-- A filesystem is mounted. -/
theorem mountFs_of_succeeds {fs : ChrootFs} (h : host.succeeds (.mount fs) = true) (s : State) :
    mountFs host fs s = (.ok (), { s with mounts := s.mounts ++ [fs.entry (host.temp .chroot)] }) := by
  rw [mountFs, mount, Prog.bind_of_ok (call_of_succeeds h s)]
  rfl

/-- The initrd is unpacked. -/
theorem unpack_of_succeeds {initrd : Text} (h : Chroots host initrd)
    (hmk : host.succeeds (.mkdtemp .chroot) = true) (s : State) :
    unpack host initrd s = (.ok (), { s with temps := host.temp .chroot :: s.temps }) := by
  obtain ⟨c, hc, hpipe⟩ := h.piped
  rw [unpack, Prog.bind_of_ok (mkdtemp_of_succeeds hmk s), Prog.bind_of_ok (call_of_succeeds h.opened _),
    pipe, hc]
  exact call_of_succeeds hpipe _

/-- The module is there, or has been asked for. -/
theorem loadEfivarfs_of_succeeds {initrd : Text} (h : Chroots host initrd) (s : State) :
    loadEfivarfs host s = (.ok (), s) := by
  unfold loadEfivarfs
  by_cases hefi : host.hasEfivarfs = true
  · rw [if_pos hefi]
    rfl
  · rw [if_neg hefi]
    exact call_of_succeeds (h.loaded (Bool.eq_false_iff.mpr hefi)) s

/-- The efivarfs is mounted where it can be. -/
theorem mountEfivars_of_succeeds {initrd : Text} (h : Chroots host initrd) (s : State) :
    mountEfivars host s = (.ok (), { s with mounts := s.mounts ++
      if host.hasEfivars then [ChrootFs.entry (host.temp .chroot) .efivarfs] else [] }) := by
  unfold mountEfivars
  by_cases hefi : host.hasEfivars = true
  · rw [if_pos hefi, if_pos hefi]
    exact mountFs_of_succeeds (h.mounted .efivarfs (mem_chrootFs.mpr (by simp [hefi]))) s
  · rw [if_neg hefi, if_neg hefi, List.append_nil]
    rfl

/-- The devtmpfs is mounted where there is one. -/
theorem mountDev_of_succeeds {initrd : Text} (h : Chroots host initrd) (s : State) :
    mountDev host s = (.ok (), { s with mounts := s.mounts ++
      if host.hasDevTmpfs then [ChrootFs.entry (host.temp .chroot) .devtmpfs] else [] }) := by
  unfold mountDev
  by_cases hdev : host.hasDevTmpfs = true
  · rw [if_pos hdev, if_pos hdev]
    have hmount := h.mounted .devtmpfs (mem_chrootFs.mpr (by simp [hdev]))
    rw [Prog.bind_of_ok (mountFs_of_succeeds hmount s)]
    by_cases hpts : host.hasPts = true
    · rw [if_pos hpts]
      rfl
    · rw [if_neg hpts]
      exact call_of_succeeds (h.pts hdev (Bool.eq_false_iff.mpr hpts)) _
  · rw [if_neg hdev, if_neg hdev, List.append_nil]
    rfl

/-- **A chroot that succeeds**, as one state. -/
theorem enterInitrd_ok {initrd : Text} (h : Chroots host initrd)
    (hmk : host.succeeds (.mkdtemp .chroot) = true) (s : State) :
    enterInitrd host initrd s = (.ok (), chrooted host initrd s) := by
  have hproc := h.mounted .proc (mem_chrootFs.mpr (by simp))
  have hsys := h.mounted .sysfs (mem_chrootFs.mpr (by simp))
  have hpts := h.mounted .devpts (mem_chrootFs.mpr (by simp))
  rw [enterInitrd, Prog.bind_of_ok (unpack_of_succeeds h hmk s),
    Prog.bind_of_ok (call_of_succeeds h.prepared _), Prog.bind_of_ok (mountFs_of_succeeds hproc _),
    Prog.bind_of_ok (mountFs_of_succeeds hsys _), Prog.bind_of_ok (loadEfivarfs_of_succeeds h _),
    Prog.bind_of_ok (mountEfivars_of_succeeds h _),
    Prog.bind_of_ok (mountDev_of_succeeds h _), Prog.bind_of_ok (mountFs_of_succeeds hpts _)]
  show ((Except.ok (), _) : Except Failure Unit × State) = (.ok (), chrooted host initrd s)
  unfold chrooted chrootMounts chrootFs
  cases host.hasEfivars <;> cases host.hasDevTmpfs <;> simp

/-- A call that returned has succeeded. -/
theorem call_returns {c : Call} {s s' : State} {u : Unit} (h : call host c s = (.ok u, s')) :
    host.succeeds c = true ∧ s' = s := by
  rw [call, Prog.check_apply] at h
  split at h
  · next hc =>
      cases h
      exact ⟨hc, rfl⟩
  · cases h

/-- A mount that returned has succeeded. -/
theorem mountFs_returns {fs : ChrootFs} {s s' : State} {u : Unit} (h : mountFs host fs s = (.ok u, s')) :
    host.succeeds (.mount fs) = true := by
  obtain ⟨_, _, hcall, _⟩ := Prog.bind_returns h
  exact (call_returns hcall).1

/-- Where unpacking returned, its calls have succeeded. -/
theorem unpack_returns {initrd : Text} {s s' : State} {u : Unit} (h : unpack host initrd s = (.ok u, s')) :
    host.succeeds .openInitrd = true
      ∧ ∃ c, decompressor (host.head initrd) = some c ∧ host.succeeds (.pipe c) = true := by
  obtain ⟨_, _, _, h⟩ := Prog.bind_returns h
  obtain ⟨_, _, hopen, h⟩ := Prog.bind_returns h
  refine ⟨(call_returns hopen).1, ?_⟩
  rw [pipe] at h
  rcases hc : decompressor (host.head initrd) with _ | c
  · rw [hc] at h
    cases h
  · rw [hc] at h
    exact ⟨c, rfl, (call_returns h).1⟩

/-- Where the devtmpfs was mounted, its calls have succeeded. -/
theorem mountDev_returns {s s' : State} {u : Unit} (h : mountDev host s = (.ok u, s'))
    (hdev : host.hasDevTmpfs = true) : host.succeeds (.mount .devtmpfs) = true
      ∧ (host.hasPts = false → host.succeeds .mkdirPts = true) := by
  rw [mountDev, if_pos hdev] at h
  obtain ⟨_, _, hmount, h⟩ := Prog.bind_returns h
  refine ⟨mountFs_returns hmount, fun hpts => ?_⟩
  rw [if_neg (by rw [hpts]; decide)] at h
  exact (call_returns h).1

/-- **What a chroot needs**, and no less. -/
theorem enterInitrd_returns {initrd : Text} {s s' : State} {u : Unit}
    (h : enterInitrd host initrd s = (.ok u, s')) : Chroots host initrd := by
  obtain ⟨_, _, hunpack, h⟩ := Prog.bind_returns h
  obtain ⟨_, _, hprep, h⟩ := Prog.bind_returns h
  obtain ⟨_, _, hproc, h⟩ := Prog.bind_returns h
  obtain ⟨_, _, hsys, h⟩ := Prog.bind_returns h
  obtain ⟨_, _, hload, h⟩ := Prog.bind_returns h
  obtain ⟨_, _, hefi, h⟩ := Prog.bind_returns h
  obtain ⟨_, _, hdev, h⟩ := Prog.bind_returns h
  obtain ⟨_, _, hpts, _⟩ := Prog.bind_returns h
  refine ⟨(unpack_returns hunpack).1, (unpack_returns hunpack).2, (call_returns hprep).1, fun hefivarfs => ?_,
    fun fs hfs => ?_, fun h => (mountDev_returns hdev h).2⟩
  · rw [loadEfivarfs, if_neg (by rw [hefivarfs]; decide)] at hload
    exact (call_returns hload).1
  rcases mem_chrootFs.mp hfs with rfl | rfl | rfl | ⟨rfl, he⟩ | ⟨rfl, hd⟩
  · exact mountFs_returns hproc
  · exact mountFs_returns hsys
  · exact mountFs_returns hpts
  · rw [mountEfivars, if_pos he] at hefi
    exact mountFs_returns hefi
  · exact (mountDev_returns hdev hd).1

/-- The directory is made, and the other contexts are as they were. -/
structure Made (host : Host) (s s' : State) : Prop where
  temps : s'.temps = host.temp .chroot :: s.temps
  dctx : s'.dctx = s.dctx
  fctx : s'.fctx = s.fctx

/-- Behind a call the directory is still made. -/
theorem keeps_made_call (s : State) (c : Call) : Prog.Keeps (Made host s) (call host c) :=
  Prog.keeps_check _ _ _

/-- Behind a mount the directory is still made. -/
theorem keeps_made_mountFs (s : State) (fs : ChrootFs) : Prog.Keeps (Made host s) (mountFs host fs) :=
  Prog.keeps_bind (keeps_made_call s _) fun _ => Prog.keeps_modify fun _ h => ⟨h.temps, h.dctx, h.fctx⟩

/-- Unpacking makes the directory first, whatever fails behind it. -/
theorem made_unpack (hmk : host.succeeds (.mkdtemp .chroot) = true) (initrd : Text) (s : State) :
    Made host s (unpack host initrd s).2 := by
  rw [unpack, Prog.bind_of_ok (mkdtemp_of_succeeds hmk s)]
  have hkeep : Prog.Keeps (Made host s) (do call host .openInitrd; pipe host initrd) := by
    refine Prog.keeps_bind (keeps_made_call s _) fun _ => ?_
    unfold pipe
    split
    · exact keeps_made_call s _
    · exact Prog.keeps_throw _ _
  exact hkeep _ ⟨rfl, rfl, rfl⟩

/-- Entering makes the directory first, whatever fails behind it. -/
theorem made_enterInitrd (hmk : host.succeeds (.mkdtemp .chroot) = true) (initrd : Text) (s : State) :
    Made host s (enterInitrd host initrd s).2 := by
  have hmade := made_unpack hmk initrd s
  rw [enterInitrd]
  rcases hrun : unpack host initrd s with ⟨e | u, s'⟩
  · rw [hrun] at hmade
    rw [Prog.bind_of_error hrun]
    exact hmade
  · rw [hrun] at hmade
    rw [Prog.bind_of_ok hrun]
    refine Prog.keeps_bind (keeps_made_call s _) (fun _ => ?_) s' hmade
    refine Prog.keeps_bind (keeps_made_mountFs s _) fun _ => ?_
    refine Prog.keeps_bind (keeps_made_mountFs s _) fun _ => ?_
    refine Prog.keeps_bind ?_ fun _ => Prog.keeps_bind ?_ fun _ => Prog.keeps_bind ?_ fun _ =>
      Prog.keeps_bind (keeps_made_mountFs s _) fun _ => ?_
    · exact Prog.keeps_ite (Prog.keeps_pure _ _) (keeps_made_call s _)
    · exact Prog.keeps_ite (keeps_made_mountFs s _) (Prog.keeps_pure _ _)
    · refine Prog.keeps_ite (Prog.keeps_bind (keeps_made_mountFs s _) fun _ => ?_) (Prog.keeps_pure _ _)
      exact Prog.keeps_ite (Prog.keeps_pure _ _) (keeps_made_call s _)
    · exact Prog.keeps_modify fun _ h => ⟨h.temps, h.dctx, h.fctx⟩

/-- **A chroot that fails**: nothing is done, or its directory stays. -/
theorem enterInitrd_fails {initrd : Text} (s : State)
    (h : ¬ (host.succeeds (.mkdtemp .chroot) = true ∧ Chroots host initrd)) :
    ∃ e s', enterInitrd host initrd s = (.error e, s') ∧
      if host.succeeds (.mkdtemp .chroot) then Made host s s' else s' = s := by
  by_cases hmk : host.succeeds (.mkdtemp .chroot) = true
  · have hmade := made_enterInitrd hmk initrd s
    rcases hrun : enterInitrd host initrd s with ⟨e | u, s'⟩
    · rw [hrun] at hmade
      exact ⟨e, s', rfl, by rw [if_pos hmk]; exact hmade⟩
    · exact absurd ⟨hmk, enterInitrd_returns hrun⟩ h
  · have hfails : call host (.mkdtemp .chroot) s = (.error (.failed (.mkdtemp .chroot)), s) := by
      rw [call, Prog.check_apply, if_neg hmk]
    refine ⟨_, s, Prog.bind_of_error (Prog.bind_of_error (Prog.bind_of_error hfails)), ?_⟩
    rw [if_neg hmk]

/-! ## The temporary names: each is there while it is held -/

/-- What `tempfile` promises of its names, and that nothing else has names that begin with them. -/
structure Host.Fresh (host : Host) (mounts : Table) (temps : List Text) : Prop where
  new : ∀ t, host.temp t ∉ temps
  distinct : Function.Injective host.temp
  canonical : ∀ t, Canonical (host.temp t)
  plain : ∀ t, '\\' ∉ host.temp t
  no_slash : ∀ t, (host.temp t).getLast? ≠ some '/'
  outside : ∀ t, Outside (host.temp t) mounts
  apart : ¬ host.temp .chroot <+: host.temp .mount

/-- Two lists of names, joined. -/
theorem intercalate_append (sep : Text) : ∀ {names rest : List Text}, names ≠ [] → rest ≠ [] →
    sep.intercalate (names ++ rest) = sep.intercalate names ++ (sep ++ sep.intercalate rest)
  | [], _, h, _ => absurd rfl h
  | [n], [], _, h => absurd rfl h
  | [n], r :: rs, _, _ => by
      rw [List.singleton_append, List.intercalate_cons_cons, List.intercalate_singleton, List.append_assoc]
  | n :: m :: ns, rest, _, h => by
      have ih := intercalate_append sep (List.cons_ne_nil m ns) h
      rw [List.cons_append, List.cons_append, List.intercalate_cons_cons, List.intercalate_cons_cons,
        ← List.cons_append, ih, List.append_assoc, List.append_assoc, List.append_assoc]

section

variable {c b : Text}

/-- A path that does not end in a slash has a name. -/
theorem comps_ne_nil (hc : Canonical c) (hlast : c.getLast? ≠ some '/') : comps c ≠ [] := by
  intro hnil
  rw [hc, hnil] at hlast
  exact hlast rfl

/-- Joining puts one slash between. -/
theorem join_eq (hc : Canonical c) (hlast : c.getLast? ≠ some '/') (hb : b.head? ≠ some '/') :
    join c b = c ++ '/' :: b := by
  have hne : c ≠ [] := by
    intro hnil
    rw [hnil] at hc
    cases hc
  rw [join, if_neg hb, if_neg]
  rintro (h | h)
  · exact hne h
  · exact hlast h

/-- A joined path is canonical. -/
theorem canonical_join (hc : Canonical c) (hlast : c.getLast? ≠ some '/') (hhead : b.head? ≠ some '/')
    (hb : b = ['/'].intercalate (comps b)) (hne : comps b ≠ []) : Canonical (join c b) := by
  rw [Canonical, join_eq hc hlast hhead, comps_append, intercalate_append _ (comps_ne_nil hc hlast) hne,
    ← hb, ← List.cons_append, ← hc]
  rfl

end

/-- The places in the chroot are relative paths in their canonical form. -/
theorem subdir_spec (fs : ChrootFs) : fs.subdir.head? ≠ some '/' ∧ '\\' ∉ fs.subdir
    ∧ fs.subdir = ['/'].intercalate (comps fs.subdir) ∧ comps fs.subdir ≠ [] := by
  cases fs <;> decide

/-- The names along a mount in the chroot. -/
theorem comps_entry {c : Text} (hc : Canonical c) (hlast : c.getLast? ≠ some '/') (fs : ChrootFs) :
    comps (fs.entry c).dir = comps c ++ comps fs.subdir := by
  show comps (join c fs.subdir) = _
  rw [join_eq hc hlast (subdir_spec fs).1, comps_append]

/-- Mounts in the chroot are below each other as their places are. -/
theorem below_entry {c : Text} (hc : Canonical c) (hlast : c.getLast? ≠ some '/') {fs fs' : ChrootFs}
    (h : Below (fs.entry c).dir (fs'.entry c).dir) : Below fs.subdir fs'.subdir := by
  rw [Below, comps_entry hc hlast, comps_entry hc hlast] at h
  exact ⟨(List.prefix_append_right_inj _).mp h.1, fun heq => h.2 (by rw [heq])⟩

/-- **The mounts of the chroot** can be taken away. -/
theorem inside_chrootMounts {mounts : Table} {temps : List Text} (h : host.Fresh mounts temps) :
    Inside (host.temp .chroot) (chrootMounts host) := by
  have hc := h.canonical .chroot
  have hlast := h.no_slash .chroot
  refine ⟨fun m hm => ?_, fun m hm => ?_, fun m hm => ?_, ?_⟩
  · obtain ⟨fs, -, rfl⟩ := List.mem_map.mp hm
    obtain ⟨hhead, -, hinter, hne⟩ := subdir_spec fs
    exact canonical_join hc hlast hhead hinter hne
  · obtain ⟨fs, -, rfl⟩ := List.mem_map.mp hm
    obtain ⟨hhead, hplain, -, -⟩ := subdir_spec fs
    show '\\' ∉ join _ _
    rw [join_eq hc hlast hhead, List.mem_append, List.mem_cons]
    rintro (hmem | heq | hmem)
    · exact h.plain .chroot hmem
    · cases heq
    · exact hplain hmem
  · obtain ⟨fs, -, rfl⟩ := List.mem_map.mp hm
    show comps _ <+: comps _
    rw [comps_entry hc hlast]
    exact List.prefix_append _ _
  · refine List.pairwise_map.mpr ?_
    have hfs : (chrootFs host).Pairwise fun fs fs' => ¬ Below fs.subdir fs'.subdir := by
      unfold chrootFs
      cases host.hasEfivars <;> cases host.hasDevTmpfs <;> decide
    exact hfs.imp fun hnot hbelow => hnot (below_entry hc hlast hbelow)

/-! ## What is held: mounts and directories, by the contexts that answer for them -/

/-- Where the initrd came from. -/
inductive Route where
  | dir
  | partition (dev : Text)
  | image

namespace Route

/-- What the route has mounted. -/
def mounts (host : Host) : Route → Table
  | partition dev => [⟨dev, host.temp .mount, .rw⟩]
  | _ => []

/-- The file that the route has made. -/
def files (host : Host) : Route → List Text
  | image => [host.temp .initrd]
  | _ => []

/-- The directory that the route has made. -/
def dirs (host : Host) : Route → List Text
  | partition _ => [host.temp .mount]
  | _ => []

/-- The context of the partition, if the route has one. -/
def dctx (host : Host) (held aside : Bool) : Route → Slot MountContext
  | partition _ => ⟨some ⟨false, none, true, some (host.temp .mount)⟩, held, aside⟩
  | _ => .empty

/-- The context of the image, if the route has one. -/
def fctx (host : Host) (held aside : Bool) : Route → Slot UbootInitrdContext
  | image => ⟨some ⟨none, some (host.temp .initrd)⟩, held, aside⟩
  | _ => .empty

end Route

/-- **The invariant**: what the context has made is there, and each part of it knows what it has put
    aside. -/
structure Holds (host : Host) (table : Table) (temps : List Text) (r : Route) (held aside : Bool)
    (s : State) : Prop where
  mounts : ∃ inside, s.mounts = table ++ r.mounts host ++ inside ∧ Inside (host.temp .chroot) inside
  temps : s.temps = host.temp .chroot :: (r.files host ++ (r.dirs host ++ temps))
  ictx : ∃ initrd, s.ictx = ⟨some ⟨none, none, some initrd, some (host.temp .chroot)⟩, held, aside⟩
  dctx : s.dctx = r.dctx host held aside
  fctx : s.fctx = r.fctx host held aside

/-- The system is as it was. -/
def Restored (table : Table) (temps : List Text) (s : State) : Prop := s.mounts = table ∧ s.temps = temps

/-- Nothing is held. -/
def Idle (s : State) : Prop := s.ictx.held = false ∧ s.dctx.held = false ∧ s.fctx.held = false

section

variable {table : Table} {temps : List Text} {r : Route} {aside : Bool} {s : State}

/-- A directory without mounts is removed. -/
theorem remove_of_empty {d : Text} (hd : d ∈ s.temps) (hempty : ∀ m ∈ s.mounts, ¬ Within m.dir d) :
    remove d s = (.ok (), { s with temps := s.temps.erase d }) := by
  rw [remove, Prog.get_bind_apply, if_pos ⟨hd, hempty⟩]
  rfl

/-- What the route has mounted is outside of the chroot. -/
theorem outside_route (h : host.Fresh table temps) (r : Route) :
    Outside (host.temp .chroot) (table ++ r.mounts host) := by
  refine (h.outside .chroot).append ?_
  cases r with
  | dir => exact ⟨fun _ hm => absurd hm List.not_mem_nil, fun _ hm => absurd hm List.not_mem_nil⟩
  | image => exact ⟨fun _ hm => absurd hm List.not_mem_nil, fun _ hm => absurd hm List.not_mem_nil⟩
  | partition dev =>
      refine ⟨fun m hm => ?_, fun m hm => ?_⟩
      · rw [List.mem_singleton.mp hm]
        exact h.canonical .mount
      · rw [List.mem_singleton.mp hm]
        exact h.apart

/-- A context that has let go of everything has nothing to shut down. -/
theorem exitInitrd_detached {i d : Option Text}
    (h : s.ictx.object = some ⟨none, none, i, d⟩) : exitInitrd s = (.ok (), s) := by
  rw [exitInitrd, Prog.get_bind_apply, h]
  obtain ⟨_, _, ⟨object, _, _⟩, _, _, _, _, _⟩ := s
  cases h
  rfl

/-- What is in the chroot is unmounted, and no more. -/
theorem unmountInitrd_inside {dir : Text} {outside inside : Table} {i i' d' : Option Text}
    (hcanonical : Canonical dir) (hmounts : s.mounts = outside ++ inside) (hout : Outside dir outside)
    (hin : Inside dir inside) :
    unmountInitrd ⟨i, some dir, i', d'⟩ s = (.ok (), { s with mounts := outside }) := by
  unfold unmountInitrd
  rw [hmounts, unmount_inside hcanonical hout hin]

/-- A context that has its chroot unmounts and removes it. -/
theorem exitInitrd_attached (hfresh : host.Fresh table temps) {i : Text} {outside inside : Table}
    {i' d' : Option Text}
    (h : s.ictx.object = some ⟨some i, some (host.temp .chroot), i', d'⟩)
    (hmounts : s.mounts = outside ++ inside) (hout : Outside (host.temp .chroot) outside)
    (hin : Inside (host.temp .chroot) inside) (htemps : host.temp .chroot ∈ s.temps) :
    exitInitrd s = (.ok (), { s with mounts := outside, temps := s.temps.erase (host.temp .chroot) }) := by
  have hc := hfresh.canonical .chroot
  have hunmount : unmountInitrd ⟨some i, some (host.temp .chroot), i', d'⟩ s
      = (.ok (), { s with mounts := outside }) := unmountInitrd_inside hc hmounts hout hin
  have hremove : remove (host.temp .chroot) { s with mounts := outside }
      = (.ok (), { s with mounts := outside, temps := s.temps.erase (host.temp .chroot) }) :=
    remove_of_empty htemps fun m hm => hout.not_within hc hm
  have hshutdown : shutdownInitrd ⟨some i, some (host.temp .chroot), i', d'⟩ s
      = (.ok ⟨some i, some (host.temp .chroot), i', d'⟩,
        { s with mounts := outside, temps := s.temps.erase (host.temp .chroot) }) := by
    rw [shutdownInitrd, Prog.bind_of_ok hunmount]
    exact Prog.bind_of_ok hremove
  rw [exitInitrd, Prog.get_bind_apply, h]
  show (shutdownInitrd _ >>= _) s = _
  rw [Prog.bind_of_ok hshutdown]
  obtain ⟨_, _, ⟨object, _, _⟩, _, _, _, _, _⟩ := s
  cases h
  rfl

/-- A context that has let go of the partition has nothing to shut down. -/
theorem exitMount_detached {m : Bool} {d : Option Text} (h : s.dctx.object = some ⟨false, none, m, d⟩) :
    exitMount s = (.ok (), s) := by
  rw [exitMount, Prog.get_bind_apply, h]
  obtain ⟨_, _, _, ⟨object, _, _⟩, _, _, _, _⟩ := s
  cases h
  rfl

/-- A context that has its partition unmounts it and removes the directory. -/
theorem exitMount_attached (hfresh : host.Fresh table temps) {dev : Text} {m' : Bool} {d' : Option Text}
    (h : s.dctx.object = some ⟨true, some (host.temp .mount), m', d'⟩)
    (hmounts : s.mounts = table ++ [⟨dev, host.temp .mount, .rw⟩]) (htemps : host.temp .mount ∈ s.temps) :
    exitMount s = (.ok (), { s with mounts := table, temps := s.temps.erase (host.temp .mount) }) := by
  have hany : (s.mounts.any fun e => e.dir = host.temp .mount) = true := by
    rw [hmounts, List.any_append, List.any_cons, decide_eq_true rfl, Bool.true_or, Bool.or_true]
  have hfree : kernelUmounts s.mounts (host.temp .mount) = true := by
    refine (Bool.and_eq_true _ _).mpr ⟨decide_eq_true (hfresh.plain .mount), ?_⟩
    rw [hmounts]
    exact free_iff.mpr ⟨table, _, [], rfl, rfl, fun f hf => absurd hf List.not_mem_nil⟩
  have hunmount : unmountDevice ⟨true, some (host.temp .mount), m', d'⟩ s
      = (.ok (), { s with mounts := table }) := by
    rw [unmountDevice, Prog.get_bind_apply]
    show (if s.mounts.any fun e => e.dir = host.temp .mount then _ else _ : Prog State Failure Unit) s = _
    rw [if_pos hany, if_pos hfree, Prog.modify_apply, hmounts]
    rw [show unmount (host.temp .mount) (table ++ [⟨dev, host.temp .mount, .rw⟩]) = table from
      unmount_append table ⟨dev, host.temp .mount, .rw⟩]
  have hremove : remove (host.temp .mount) { s with mounts := table }
      = (.ok (), { s with mounts := table, temps := s.temps.erase (host.temp .mount) }) :=
    remove_of_empty htemps fun m hm => (hfresh.outside .mount).not_within (hfresh.canonical .mount) hm
  have hshutdown : shutdownMount ⟨true, some (host.temp .mount), m', d'⟩ s
      = (.ok ⟨true, some (host.temp .mount), m', d'⟩,
        { s with mounts := table, temps := s.temps.erase (host.temp .mount) }) := by
    rw [shutdownMount, Prog.bind_of_ok hunmount]
    exact Prog.bind_of_ok hremove
  rw [exitMount, Prog.get_bind_apply, h]
  show (shutdownMount _ >>= _) s = _
  rw [Prog.bind_of_ok hshutdown]
  obtain ⟨_, _, _, ⟨object, _, _⟩, _, _, _, _⟩ := s
  cases h
  rfl

/-! ## Shutting down gives everything back -/

/-- The image's file goes first. -/
theorem shutdownFctx_spec (hfresh : host.Fresh table temps) (h : Holds host table temps r true aside s) :
    ∃ s₁, shutdownFctx s = (.ok (), s₁) ∧ s₁.mounts = s.mounts
      ∧ s₁.temps = host.temp .chroot :: (r.dirs host ++ temps)
      ∧ s₁.ictx = s.ictx ∧ s₁.dctx = s.dctx ∧ s₁.fctx.held = false := by
  have hidle : s.fctx = .empty → shutdownFctx s = (.ok (), s) := by
    intro hempty
    rw [shutdownFctx, Prog.get_bind_apply, hempty]
    rfl
  cases r with
  | dir => exact ⟨s, hidle h.fctx, rfl, h.temps, rfl, rfl, by rw [h.fctx]; rfl⟩
  | partition dev => exact ⟨s, hidle h.fctx, rfl, h.temps, rfl, rfl, by rw [h.fctx]; rfl⟩
  | image =>
      have hne : host.temp .chroot ≠ host.temp .initrd := fun heq => nomatch hfresh.distinct heq
      have hfctx := h.fctx
      have htemps := h.temps
      refine ⟨{ s with
        temps := s.temps.erase (host.temp .initrd)
        fctx := ⟨some ⟨none, some (host.temp .initrd)⟩, false, aside⟩ }, ?_, rfl, ?_, rfl, rfl, rfl⟩
      · obtain ⟨_, _, _, _, fctx, _, _, _⟩ := s
        cases hfctx
        rfl
      · show s.temps.erase (host.temp .initrd) = _
        rw [htemps, List.erase_cons_tail (by simpa using hne)]
        show host.temp .chroot :: List.erase (host.temp .initrd :: _) (host.temp .initrd) = _
        rw [List.erase_cons_head]
        rfl

/-- The chroot goes second. -/
theorem shutdownIctx_spec (hfresh : host.Fresh table temps) {held : List Text} {i : Text}
    (hmounts : ∃ inside, s.mounts = table ++ r.mounts host ++ inside ∧ Inside (host.temp .chroot) inside)
    (htemps : s.temps = host.temp .chroot :: held)
    (hictx : s.ictx = ⟨some ⟨none, none, some i, some (host.temp .chroot)⟩, true, aside⟩) :
    ∃ s₁, shutdownIctx s = (.ok (), s₁) ∧ s₁.mounts = table ++ r.mounts host ∧ s₁.temps = held
      ∧ s₁.ictx.held = false ∧ s₁.dctx = s.dctx ∧ s₁.fctx = s.fctx := by
  obtain ⟨inside, hmounts, hin⟩ := hmounts
  let before : State := { s with ictx := ⟨some ⟨none, none, some i, some (host.temp .chroot)⟩, false, aside⟩ }
  let attached : State := { s with
    ictx := ⟨some ⟨some i, some (host.temp .chroot), some i, some (host.temp .chroot)⟩, false, aside⟩ }
  have hdetached : exitInitrd before = (.ok (), before) := exitInitrd_detached rfl
  have hattached : exitInitrd attached = (.ok (), { attached with
      mounts := table ++ r.mounts host
      temps := attached.temps.erase (host.temp .chroot) }) :=
    exitInitrd_attached hfresh rfl hmounts (outside_route hfresh r) hin (by
      show host.temp .chroot ∈ s.temps
      rw [htemps]
      exact List.mem_cons_self)
  refine ⟨{ attached with
    mounts := table ++ r.mounts host
    temps := attached.temps.erase (host.temp .chroot) }, ?_, rfl, ?_, rfl, rfl, rfl⟩
  · have hstart : ({ s with ictx := { s.ictx with held := false } } : State) = before := by
      rw [hictx]
    rw [shutdownIctx, Prog.get_bind_apply, if_pos (by rw [hictx]), Prog.modify_bind_apply, hstart,
      Prog.bind_of_ok hdetached, Prog.modify_bind_apply]
    exact hattached
  · show s.temps.erase (host.temp .chroot) = held
    rw [htemps, List.erase_cons_head]

/-- The partition goes last. -/
theorem shutdownDctx_spec (hfresh : host.Fresh table temps)
    (hmounts : s.mounts = table ++ r.mounts host) (htemps : s.temps = r.dirs host ++ temps)
    (hdctx : s.dctx = r.dctx host true aside) :
    ∃ s₁, shutdownDctx s = (.ok (), s₁) ∧ Restored table temps s₁
      ∧ s₁.ictx = s.ictx ∧ s₁.dctx.held = false ∧ s₁.fctx = s.fctx := by
  have hidle : s.dctx = .empty → shutdownDctx s = (.ok (), s) := by
    intro hempty
    rw [shutdownDctx, Prog.get_bind_apply, hempty]
    rfl
  cases r with
  | dir =>
      refine ⟨s, hidle hdctx, ⟨?_, htemps⟩, rfl, by rw [hdctx]; rfl, rfl⟩
      rw [hmounts]
      exact List.append_nil table
  | image =>
      refine ⟨s, hidle hdctx, ⟨?_, htemps⟩, rfl, by rw [hdctx]; rfl, rfl⟩
      rw [hmounts]
      exact List.append_nil table
  | partition dev =>
      let before : State := { s with dctx := ⟨some ⟨false, none, true, some (host.temp .mount)⟩, false, aside⟩ }
      let attached : State := { s with
        dctx := ⟨some ⟨true, some (host.temp .mount), true, some (host.temp .mount)⟩, false, aside⟩ }
      have hdetached : exitMount before = (.ok (), before) := exitMount_detached rfl
      have hattached : exitMount attached = (.ok (), { attached with
          mounts := table
          temps := attached.temps.erase (host.temp .mount) }) :=
        exitMount_attached hfresh rfl hmounts (by
          show host.temp .mount ∈ s.temps
          rw [htemps]
          exact List.mem_cons_self)
      refine ⟨{ attached with
        mounts := table
        temps := attached.temps.erase (host.temp .mount) }, ?_, ⟨rfl, ?_⟩, rfl, rfl, rfl⟩
      · have hstart : ({ s with dctx := { s.dctx with held := false } } : State) = before := by
          rw [hdctx]
          rfl
        rw [shutdownDctx, Prog.get_bind_apply, if_pos (by rw [hdctx]; rfl), Prog.modify_bind_apply, hstart,
          Prog.bind_of_ok hdetached, Prog.modify_bind_apply]
        exact hattached
      · show s.temps.erase (host.temp .mount) = temps
        rw [htemps]
        exact List.erase_cons_head _ _

/-- **Shutting down** gives back all that is held. -/
theorem shutdown_spec (hfresh : host.Fresh table temps) (h : Holds host table temps r true aside s) :
    ∃ s', shutdown s = (.ok (), s') ∧ Restored table temps s' ∧ Idle s' := by
  obtain ⟨i, hictx⟩ := h.ictx
  obtain ⟨s₁, hrun₁, hmounts₁, htemps₁, hictx₁, hdctx₁, hfctx₁⟩ := shutdownFctx_spec hfresh h
  obtain ⟨s₂, hrun₂, hmounts₂, htemps₂, hictx₂, hdctx₂, hfctx₂⟩ :=
    shutdownIctx_spec hfresh (by rw [hmounts₁]; exact h.mounts) htemps₁ (hictx₁.trans hictx)
  obtain ⟨s₃, hrun₃, hrestored, hictx₃, hdctx₃, hfctx₃⟩ :=
    shutdownDctx_spec hfresh hmounts₂ htemps₂ (hdctx₂.trans (hdctx₁.trans h.dctx))
  refine ⟨s₃, ?_, hrestored, ?_, hdctx₃, ?_⟩
  · rw [shutdown, Prog.bind_of_ok hrun₁, Prog.bind_of_ok hrun₂]
    exact hrun₃
  · rw [hictx₃]
    exact hictx₂
  · rw [hfctx₃, hfctx₂]
    exact hfctx₁

/-- Where nothing is held there is nothing to shut down. -/
theorem shutdown_idle (h : Idle s) : shutdown s = (.ok (), s) := by
  obtain ⟨hictx, hdctx, hfctx⟩ := h
  have hf : shutdownFctx s = (.ok (), s) := by
    rw [shutdownFctx, Prog.get_bind_apply, if_neg (by rw [hfctx]; decide)]
    rfl
  have hi : shutdownIctx s = (.ok (), s) := by
    rw [shutdownIctx, Prog.get_bind_apply, if_neg (by rw [hictx]; decide)]
    rfl
  rw [shutdown, Prog.bind_of_ok hf, Prog.bind_of_ok hi, shutdownDctx, Prog.get_bind_apply,
    if_neg (by rw [hdctx]; decide)]
  rfl

end

/-! ## Entering: held behind it, or given back, or leaked -/

/-- The directory of the chroot is made, and the chroot fails. -/
def LeavesChroot (host : Host) (initrd : Text) : Prop :=
  host.succeeds (.mkdtemp .chroot) = true ∧ ¬ Chroots host initrd

/-- The partition is mounted for this, and stays: `mount` fails, or the chroot does. -/
def LeavesPartition (host : Host) (table : Table) (dev : Text) : Prop :=
  host.succeeds (.mkdtemp .mount) = true ∧ (host.succeeds .mountDevice = false
    ∨ ∃ initrd, host.glob (table ++ [⟨dev, host.temp .mount, .rw⟩]) (host.temp .mount) = some initrd
      ∧ ¬ (host.succeeds (.mkdtemp .chroot) = true ∧ Chroots host initrd))

/-- The file of the initrd stays, or the chroot. -/
def LeavesImage (host : Host) : Prop :=
  host.succeeds .parseImage = true ∧ host.succeeds (.mkdtemp .initrd) = true
    ∧ (host.succeeds .writeInitrd = false ∨ LeavesChroot host (host.temp .initrd))

/-- On a partition ONIE-BOOT. -/
def LeaksDevice (host : Host) (table : Table) (dev : Text) : Prop :=
  match mountsOf dev table with
  | part :: _ => ∃ initrd, host.glob table part.dir = some initrd ∧ LeavesChroot host initrd
  | [] => LeavesPartition host table dev

/-- Without one. -/
def LeaksSearch (host : Host) (table : Table) : Prop :=
  match search host table with
  | some (_, initrd) => LeavesChroot host initrd
  | none => host.onieMtd.isSome = true ∧ LeavesImage host

/-- **Where an `__enter__` that raises leaves something behind.** -/
def Leaks (host : Host) (table : Table) : Prop :=
  host.succeeds .blkid = true ∧ match host.onieBoot with
  | some dev => LeaksDevice host table dev
  | none => LeaksSearch host table

/-- What a run has come to: the context holds what it made, or everything is as before unless
    it leaks. -/
def Settles (host : Host) (table : Table) (temps : List Text) (leaks : Prop) :
    Except Failure Unit × State → Prop
  | (.ok (), s) => (∃ r, Holds host table temps r true false s) ∧ ¬ leaks
  | (.error _, s) => Restored table temps s ↔ ¬ leaks

section

variable {table : Table} {temps : List Text} {s : State}

/-- A temporary file more is not as before. -/
theorem not_restored {d : Text} {rest : List Text} (hd : d ∉ temps) (h : s.temps = d :: rest) :
    ¬ Restored table temps s := by
  intro hrestored
  rw [hrestored.2] at h
  rw [h] at hd
  exact hd List.mem_cons_self

/-- An error that leaves nothing. -/
theorem settles_error {leaks : Prop} {e : Failure} (h : Restored table temps s) (hleaks : ¬ leaks) :
    Settles host table temps leaks (.error e, s) := iff_of_true h hleaks

/-- An error that leaves a file. -/
theorem settles_leak {leaks : Prop} {e : Failure} {d : Text} {rest : List Text} (hd : d ∉ temps)
    (h : s.temps = d :: rest) (hleaks : leaks) : Settles host table temps leaks (.error e, s) :=
  iff_of_false (not_restored hd h) fun hnot => hnot hleaks

/-- The state behind a `with InitrdContext(…)` that has let go of the chroot. -/
def letGo (host : Host) (initrd : Text) (s : State) : State :=
  { s with
    initrd := some initrd
    initrdDir := some (host.temp .chroot)
    ictx := ⟨some ⟨none, none, some initrd, some (host.temp .chroot)⟩, true, false⟩ }

/-- The chroot is made, and let go of. -/
theorem withInitrd_ok {initrd : Text} {release : State → State} (h : Chroots host initrd)
    (hmk : host.succeeds (.mkdtemp .chroot) = true) (hrelease : ∀ t, (release t).ictx = t.ictx) :
    withInitrd host initrd release s
      = (.ok (), letGo host initrd (release (chrooted host initrd s))) := by
  rw [withInitrd, Prog.bracket_of_ok (enterInitrd_ok h hmk s)]
  have hexit : exitInitrd (letGo host initrd (release (chrooted host initrd s)))
      = (.ok (), letGo host initrd (release (chrooted host initrd s))) := exitInitrd_detached rfl
  refine Prog.during_of_exit ?_ hexit
  rw [Prog.modify_bind_apply, Prog.modify_apply, hrelease]
  rfl

/-- From a mounted directory only the chroot can leak. -/
theorem fromDir_settles (hfresh : host.Fresh table temps) (dir initrd : Text) :
    Settles host table temps (LeavesChroot host initrd) (fromDir host dir initrd (.init table temps)) := by
  rw [fromDir, Prog.modify_bind_apply]
  by_cases h : host.succeeds (.mkdtemp .chroot) = true ∧ Chroots host initrd
  · have hrelease : ∀ t : State, (id t).ictx = t.ictx := fun _ => rfl
    rw [withInitrd_ok h.2 h.1 hrelease]
    refine ⟨⟨.dir, ⟨chrootMounts host, ?_, inside_chrootMounts hfresh⟩, rfl, ⟨initrd, rfl⟩, rfl, rfl⟩,
      fun hleaks => hleaks.2 h.2⟩
    show table ++ chrootMounts host = table ++ [] ++ chrootMounts host
    rw [List.append_nil]
  · obtain ⟨e, s', hrun, hmade⟩ := enterInitrd_fails
      { State.init table temps with onieDir := some dir } h
    rw [withInitrd, Prog.bracket_of_error hrun]
    by_cases hmk : host.succeeds (.mkdtemp .chroot) = true
    · rw [if_pos hmk] at hmade
      exact settles_leak (hfresh.new .chroot) hmade.temps ⟨hmk, fun hc => h ⟨hmk, hc⟩⟩
    · rw [if_neg hmk] at hmade
      rw [hmade]
      exact settles_error ⟨rfl, rfl⟩ fun hleaks => hmk hleaks.1

/-- The partition is mounted. -/
theorem enterMount_ok {dev : Text} (hmk : host.succeeds (.mkdtemp .mount) = true)
    (hmount : host.succeeds .mountDevice = true) (s : State) :
    enterMount host dev s = (.ok (), { s with
      mounts := s.mounts ++ [⟨dev, host.temp .mount, .rw⟩]
      temps := host.temp .mount :: s.temps
      dctx := .make ⟨true, some (host.temp .mount), false, none⟩ }) := by
  rw [enterMount, Prog.bind_of_ok (mkdtemp_of_succeeds hmk s), mount, Prog.bind_assoc,
    Prog.bind_of_ok (call_of_succeeds hmount _)]
  rfl

/-- Where the mount fails the directory stays. -/
theorem enterMount_fails (dev : Text)
    (h : ¬ (host.succeeds (.mkdtemp .mount) = true ∧ host.succeeds .mountDevice = true)) (s : State) :
    ∃ e s', enterMount host dev s = (.error e, s') ∧
      if host.succeeds (.mkdtemp .mount) then s'.temps = host.temp .mount :: s.temps else s' = s := by
  by_cases hmk : host.succeeds (.mkdtemp .mount) = true
  · have hmount : ¬ host.succeeds .mountDevice = true := fun hmount => h ⟨hmk, hmount⟩
    refine ⟨.failed .mountDevice, { s with temps := host.temp .mount :: s.temps }, ?_, ?_⟩
    · rw [enterMount, Prog.bind_of_ok (mkdtemp_of_succeeds hmk s), mount, Prog.bind_assoc]
      refine Prog.bind_of_error ?_
      rw [call, Prog.check_apply, if_neg hmount]
    · rw [if_pos hmk]
  · refine ⟨.failed (.mkdtemp .mount), s, ?_, ?_⟩
    · refine Prog.bind_of_error (Prog.bind_of_error ?_)
      rw [call, Prog.check_apply, if_neg hmk]
    · rw [if_neg hmk]

/-- The state in the body of the `with` on a partition. -/
def onMount (host : Host) (table : Table) (temps : List Text) (dev : Text) : State :=
  { State.init table temps with
    mounts := table ++ [⟨dev, host.temp .mount, .rw⟩]
    temps := host.temp .mount :: temps
    dctx := .make ⟨true, some (host.temp .mount), false, none⟩ }

/-- From a partition. -/
theorem fromPartition_settles (hfresh : host.Fresh table temps) (dev : Text) :
    Settles host table temps (LeavesPartition host table dev)
      (fromPartition host dev (.init table temps)) := by
  by_cases hmount : host.succeeds (.mkdtemp .mount) = true ∧ host.succeeds .mountDevice = true
  · obtain ⟨hmk, hmount⟩ := hmount
    have henter : enterMount host dev (.init table temps) = (.ok (), onMount host table temps dev) :=
      enterMount_ok hmk hmount _
    rw [fromPartition, Prog.bracket_of_ok henter]
    rcases hglob : host.glob (table ++ [⟨dev, host.temp .mount, .rw⟩]) (host.temp .mount) with _ | initrd
    · -- no initrd: the partition is unmounted again
      have hbody : onPartition host (onMount host table temps dev)
          = (.error .valueError, onMount host table temps dev) := by
        rw [onPartition, Prog.get_bind_apply]
        show (match host.glob (table ++ [⟨dev, host.temp .mount, .rw⟩]) (host.temp .mount) with
          | some initrd => _
          | none => _ : Prog State Failure Unit) _ = _
        rw [hglob]
        rfl
      have hexit := exitMount_attached hfresh (s := onMount host table temps dev) rfl rfl List.mem_cons_self
      rw [Prog.during_of_exit hbody hexit]
      refine settles_error ⟨rfl, List.erase_cons_head _ _⟩ ?_
      rintro ⟨-, hfails | ⟨initrd, hinitrd, -⟩⟩
      · rw [hmount] at hfails
        cases hfails
      · rw [hglob] at hinitrd
        cases hinitrd
    · let held : State := { onMount host table temps dev with
        onieDir := some (host.temp .mount)
        dctx := ⟨some ⟨false, none, true, some (host.temp .mount)⟩, true, false⟩ }
      have hbody : onPartition host (onMount host table temps dev) = withInitrd host initrd id held := by
        rw [onPartition, Prog.get_bind_apply]
        show (match host.glob (table ++ [⟨dev, host.temp .mount, .rw⟩]) (host.temp .mount) with
          | some initrd => _
          | none => _ : Prog State Failure Unit) _ = _
        rw [hglob]
        rfl
      by_cases h : host.succeeds (.mkdtemp .chroot) = true ∧ Chroots host initrd
      · have hrelease : ∀ t : State, (id t).ictx = t.ictx := fun _ => rfl
        have hrun := hbody.trans (withInitrd_ok h.2 h.1 hrelease)
        have hexit : exitMount (letGo host initrd (id (chrooted host initrd held)))
            = (.ok (), letGo host initrd (id (chrooted host initrd held))) := exitMount_detached rfl
        rw [Prog.during_of_exit hrun hexit]
        refine ⟨⟨.partition dev, ⟨chrootMounts host, rfl, inside_chrootMounts hfresh⟩, rfl, ⟨initrd, rfl⟩,
          rfl, rfl⟩, ?_⟩
        rintro ⟨-, hfails | ⟨initrd', hinitrd, hnot⟩⟩
        · rw [hmount] at hfails
          cases hfails
        · rw [hglob] at hinitrd
          cases hinitrd
          exact hnot h
      · -- the partition has been let go of: its directory stays
        obtain ⟨e, s', hfails, hmade⟩ := enterInitrd_fails held h
        have hrun := hbody.trans (Prog.bracket_of_error hfails)
        have hleft : s'.dctx = held.dctx ∧ ∃ rest, s'.temps = rest ++ host.temp .mount :: temps := by
          by_cases hmk : host.succeeds (.mkdtemp .chroot) = true
          · rw [if_pos hmk] at hmade
            exact ⟨hmade.dctx, [host.temp .chroot], hmade.temps⟩
          · rw [if_neg hmk] at hmade
            exact ⟨by rw [hmade], [], by rw [hmade]; rfl⟩
        have hexit : exitMount s' = (.ok (), s') := exitMount_detached (by rw [hleft.1])
        rw [Prog.during_of_exit hrun hexit]
        refine iff_of_false (fun hrestored => ?_) fun hnot => hnot ⟨hmk, .inr ⟨initrd, hglob, h⟩⟩
        obtain ⟨rest, htemps⟩ := hleft.2
        refine hfresh.new .mount (hrestored.2 ▸ ?_)
        rw [htemps]
        exact List.mem_append_right rest List.mem_cons_self
  · obtain ⟨e, s', hrun, hleft⟩ := enterMount_fails dev hmount (.init table temps)
    rw [fromPartition, Prog.bracket_of_error hrun]
    by_cases hmk : host.succeeds (.mkdtemp .mount) = true
    · rw [if_pos hmk] at hleft
      refine settles_leak (hfresh.new .mount) hleft ⟨hmk, .inl ?_⟩
      exact Bool.eq_false_iff.mpr fun h => hmount ⟨hmk, h⟩
    · rw [if_neg hmk] at hleft
      rw [hleft]
      exact settles_error ⟨rfl, rfl⟩ fun hleaks => hmk hleaks.1

/-- The image is copied. -/
theorem enterUboot_ok (hparse : host.succeeds .parseImage = true)
    (hmk : host.succeeds (.mkdtemp .initrd) = true) (hwrite : host.succeeds .writeInitrd = true) (s : State) :
    enterUboot host s = (.ok (), { s with
      temps := host.temp .initrd :: s.temps
      fctx := .make ⟨some (host.temp .initrd), none⟩ }) := by
  rw [enterUboot, Prog.bind_of_ok (call_of_succeeds hparse s), Prog.bind_of_ok (mkdtemp_of_succeeds hmk s),
    Prog.bind_of_ok (call_of_succeeds hwrite _)]
  rfl

/-- Where the copy cannot be written the file stays. -/
theorem enterUboot_fails (h : ¬ (host.succeeds .parseImage = true ∧ host.succeeds (.mkdtemp .initrd) = true
      ∧ host.succeeds .writeInitrd = true)) (s : State) :
    ∃ e s', enterUboot host s = (.error e, s') ∧
      if host.succeeds .parseImage = true ∧ host.succeeds (.mkdtemp .initrd) = true
        then s'.temps = host.temp .initrd :: s.temps else s' = s := by
  have hcall : ∀ c t, ¬ host.succeeds c = true → call host c t = (.error (.failed c), t) := by
    intro c t hc
    rw [call, Prog.check_apply, if_neg hc]
  by_cases hparse : host.succeeds .parseImage = true
  · by_cases hmk : host.succeeds (.mkdtemp .initrd) = true
    · have hwrite : ¬ host.succeeds .writeInitrd = true := fun hwrite => h ⟨hparse, hmk, hwrite⟩
      refine ⟨.failed .writeInitrd, { s with temps := host.temp .initrd :: s.temps }, ?_, ?_⟩
      · rw [enterUboot, Prog.bind_of_ok (call_of_succeeds hparse s),
          Prog.bind_of_ok (mkdtemp_of_succeeds hmk s)]
        exact Prog.bind_of_error (hcall _ _ hwrite)
      · rw [if_pos ⟨hparse, hmk⟩]
    · refine ⟨.failed (.mkdtemp .initrd), s, ?_, ?_⟩
      · rw [enterUboot, Prog.bind_of_ok (call_of_succeeds hparse s)]
        exact Prog.bind_of_error (Prog.bind_of_error (hcall _ _ hmk))
      · rw [if_neg fun h => hmk h.2]
  · refine ⟨.failed .parseImage, s, Prog.bind_of_error (hcall _ _ hparse), ?_⟩
    rw [if_neg fun h => hparse h.1]

/-- The state in the body of the `with` on an image. -/
def onImage (host : Host) (table : Table) (temps : List Text) : State :=
  { State.init table temps with
    temps := host.temp .initrd :: temps
    fctx := .make ⟨some (host.temp .initrd), none⟩ }

/-- A context that has let go of its file has nothing to remove. -/
theorem exitUboot_detached {f : Option Text} (h : s.fctx.object = some ⟨none, f⟩) :
    exitUboot s = (.ok (), s) := by
  rw [exitUboot, Prog.get_bind_apply, h]
  obtain ⟨_, _, _, _, ⟨object, _, _⟩, _, _, _⟩ := s
  cases h
  rfl

/-- From an image of U-Boot. -/
theorem fromImage_settles (hfresh : host.Fresh table temps) :
    Settles host table temps (LeavesImage host)
      (fromImage host (.init table temps)) := by
  by_cases hall : host.succeeds .parseImage = true ∧ host.succeeds (.mkdtemp .initrd) = true
      ∧ host.succeeds .writeInitrd = true
  · obtain ⟨hparse, hmk, hwrite⟩ := hall
    have henter : enterUboot host (.init table temps) = (.ok (), onImage host table temps) :=
      enterUboot_ok hparse hmk hwrite _
    have hnot : ¬ host.succeeds .writeInitrd = false := by
      rw [hwrite]
      decide
    let release : State → State := fun s => { s with fctx := s.fctx.change UbootInitrdContext.detach }
    rw [fromImage, Prog.bracket_of_ok henter]
    by_cases h : host.succeeds (.mkdtemp .chroot) = true ∧ Chroots host (host.temp .initrd)
    · have hrelease : ∀ t : State, (release t).ictx = t.ictx := fun _ => rfl
      have hrun := withInitrd_ok (s := onImage host table temps) h.2 h.1 hrelease
      have hexit : exitUboot (letGo host (host.temp .initrd)
            (release (chrooted host (host.temp .initrd) (onImage host table temps))))
          = (.ok (), letGo host (host.temp .initrd)
            (release (chrooted host (host.temp .initrd) (onImage host table temps)))) :=
        exitUboot_detached rfl
      rw [Prog.during_of_exit hrun hexit]
      refine ⟨⟨.image, ⟨chrootMounts host, ?_, inside_chrootMounts hfresh⟩, rfl, ⟨host.temp .initrd, rfl⟩,
        rfl, rfl⟩, ?_⟩
      · show table ++ chrootMounts host = table ++ [] ++ chrootMounts host
        rw [List.append_nil]
      · rintro ⟨-, -, hfails | hleaves⟩
        · exact hnot hfails
        · exact hleaves.2 h.2
    · -- the chroot failed before the file was let go of
      obtain ⟨e, s', hfails, hmade⟩ := enterInitrd_fails (onImage host table temps) h
      have hrun : withInitrd host (host.temp .initrd) release (onImage host table temps) = (.error e, s') :=
        Prog.bracket_of_error hfails
      have hfctx : s'.fctx = .make ⟨some (host.temp .initrd), none⟩ := by
        by_cases hchroot : host.succeeds (.mkdtemp .chroot) = true
        · rw [if_pos hchroot] at hmade
          exact hmade.fctx
        · rw [if_neg hchroot] at hmade
          rw [hmade]
          rfl
      have hexit : exitUboot s' = (.ok (), { s' with
          temps := s'.temps.erase (host.temp .initrd)
          fctx := .make ⟨none, none⟩ }) := by
        obtain ⟨_, _, _, _, fctx, _, _, _⟩ := s'
        cases hfctx
        rfl
      rw [Prog.during_of_exit hrun hexit]
      by_cases hchroot : host.succeeds (.mkdtemp .chroot) = true
      · rw [if_pos hchroot] at hmade
        -- the copy of the initrd is removed, the directory of the chroot is not
        have hne : host.temp .chroot ≠ host.temp .initrd := fun heq => nomatch hfresh.distinct heq
        have htemps : s'.temps.erase (host.temp .initrd) = host.temp .chroot :: temps := by
          rw [hmade.temps, List.erase_cons_tail (by simpa using hne)]
          exact congrArg _ (List.erase_cons_head _ _)
        exact settles_leak (hfresh.new .chroot) htemps
          ⟨hparse, hmk, .inr ⟨hchroot, fun hc => h ⟨hchroot, hc⟩⟩⟩
      · rw [if_neg hchroot] at hmade
        rw [hmade]
        refine settles_error ⟨rfl, List.erase_cons_head _ _⟩ ?_
        rintro ⟨-, -, hfails | hleaves⟩
        · exact hnot hfails
        · exact hchroot hleaves.1
  · obtain ⟨e, s', hrun, hleft⟩ := enterUboot_fails hall (.init table temps)
    rw [fromImage, Prog.bracket_of_error hrun]
    by_cases hmk : host.succeeds .parseImage = true ∧ host.succeeds (.mkdtemp .initrd) = true
    · rw [if_pos hmk] at hleft
      refine settles_leak (hfresh.new .initrd) hleft ⟨hmk.1, hmk.2, .inl ?_⟩
      exact Bool.eq_false_iff.mpr fun h => hall ⟨hmk.1, hmk.2, h⟩
    · rw [if_neg hmk] at hleft
      rw [hleft]
      exact settles_error ⟨rfl, rfl⟩ fun hleaks => hmk ⟨hleaks.1, hleaks.2.1⟩

/-- From a partition that is mounted or not. -/
theorem fromDevice_settles (hfresh : host.Fresh table temps) (dev : Text) :
    Settles host table temps (LeaksDevice host table dev)
      (fromDevice host dev table (.init table temps)) := by
  unfold LeaksDevice fromDevice
  rcases mountsOf dev table with _ | ⟨part, parts⟩
  · exact fromPartition_settles hfresh dev
  · show Settles host table temps (∃ initrd, host.glob table part.dir = some initrd ∧ LeavesChroot host initrd)
      ((match host.glob table part.dir with
        | some initrd => fromDir host part.dir initrd
        | none => Prog.throw .valueError : Prog State Failure Unit) (.init table temps))
    rcases host.glob table part.dir with _ | initrd
    · refine settles_error ⟨rfl, rfl⟩ ?_
      rintro ⟨initrd, h, -⟩
      cases h
    · have hiff : (∃ i, some initrd = some i ∧ LeavesChroot host i) ↔ LeavesChroot host initrd := by
        simp
      rw [hiff]
      exact fromDir_settles hfresh part.dir initrd

/-- From whatever is mounted, or an image. -/
theorem fromSearch_settles (hfresh : host.Fresh table temps) :
    Settles host table temps (LeaksSearch host table) (fromSearch host table (.init table temps)) := by
  unfold LeaksSearch fromSearch
  rcases search host table with _ | ⟨dir, initrd⟩
  · show Settles host table temps (host.onieMtd.isSome = true ∧ LeavesImage host)
      ((match host.onieMtd with
        | some _ => fromImage host
        | none => Prog.throw .attributeError : Prog State Failure Unit) (.init table temps))
    rcases host.onieMtd with _ | path
    · exact settles_error ⟨rfl, rfl⟩ fun h => absurd h.1 (by decide)
    · have hiff : ((some path).isSome = true ∧ LeavesImage host) ↔ LeavesImage host := by
        simp
      rw [hiff]
      exact fromImage_settles hfresh
  · exact fromDir_settles hfresh dir initrd

/-- **What entering comes to.** -/
theorem enter_settles (hfresh : host.Fresh table temps) :
    Settles host table temps (Leaks host table) (enter host (.init table temps)) := by
  by_cases hblkid : host.succeeds .blkid = true
  · rw [enter, Prog.bind_of_ok (call_of_succeeds hblkid _), Prog.get_bind_apply, Leaks, eq_true hblkid, true_and]
    rcases host.onieBoot with _ | dev
    · exact fromSearch_settles hfresh
    · exact fromDevice_settles hfresh dev
  · have hfails : call host .blkid (.init table temps) = (.error (.failed .blkid), .init table temps) := by
      rw [call, Prog.check_apply, if_neg hblkid]
    rw [enter, Prog.bind_of_error hfails]
    exact settles_error ⟨rfl, rfl⟩ fun h => hblkid h.1

/-! ## The life of a context, from its entrance to its exit -/

/-- What is done while the context is there changes what is mounted in the chroot, if anything. -/
structure Confined {α : Type} (host : Host) (body : Prog State Failure α) : Prop where
  mounts : ∀ s outside inside, s.mounts = outside ++ inside → Inside (host.temp .chroot) inside →
    ∃ inside', (body s).2.mounts = outside ++ inside' ∧ Inside (host.temp .chroot) inside'
  temps : ∀ s, (body s).2.temps = s.temps
  ictx : ∀ s, (body s).2.ictx = s.ictx
  dctx : ∀ s, (body s).2.dctx = s.dctx
  fctx : ∀ s, (body s).2.fctx = s.fctx

/-- What is held stays held behind such a body. -/
theorem Confined.holds {α : Type} {body : Prog State Failure α} (hbody : Confined host body) {r : Route}
    {held aside : Bool} (h : Holds host table temps r held aside s) :
    Holds host table temps r held aside (body s).2 := by
  obtain ⟨inside, hmounts, hin⟩ := h.mounts
  obtain ⟨i, hictx⟩ := h.ictx
  exact ⟨hbody.mounts s _ inside hmounts hin, (hbody.temps s).trans h.temps,
    ⟨i, (hbody.ictx s).trans hictx⟩, (hbody.dctx s).trans h.dctx, (hbody.fctx s).trans h.fctx⟩

/-- Running behind an `__enter__`: what is left depends on it alone. -/
theorem restored_bracket {α : Type} (hfresh : host.Fresh table temps) {exit : Prog State Failure Unit}
    {body : Prog State Failure α}
    (h : ∀ r s, Holds host table temps r true false s → Restored table temps (Prog.during exit body s).2) :
    Restored table temps (Prog.bracket (enter host) exit body (.init table temps)).2 ↔ ¬ Leaks host table := by
  have hsettles := enter_settles hfresh
  rcases hrun : enter host (.init table temps) with ⟨e | ⟨⟩, s⟩
  · rw [hrun] at hsettles
    rw [Prog.bracket_of_error hrun]
    exact hsettles
  · rw [hrun] at hsettles
    obtain ⟨⟨r, hholds⟩, hnot⟩ := hsettles
    rw [Prog.bracket_of_ok hrun]
    exact iff_of_true (h r s hholds) hnot

/-- A body, and the shutdown behind it. -/
theorem during_shutdown {α : Type} (hfresh : host.Fresh table temps) {body : Prog State Failure α}
    (hbody : Confined host body) {r : Route} (h : Holds host table temps r true false s) :
    Restored table temps (Prog.during shutdown body s).2 := by
  obtain ⟨s', hrun, hrestored, -⟩ := shutdown_spec hfresh (hbody.holds h)
  rcases hbody' : body s with ⟨x, t⟩
  rw [hbody'] at hrun
  rw [Prog.during_of_exit hbody' hrun]
  exact hrestored

/-- **`with OnieBootContext()`** gives back what it takes, exactly where it does not leak on its way in. -/
theorem withOnieBoot_restores {α : Type} (hfresh : host.Fresh table temps) {body : Prog State Failure α}
    (hbody : Confined host body) :
    Restored table temps (withOnieBoot host body (.init table temps)).2 ↔ ¬ Leaks host table :=
  restored_bracket hfresh fun _ _ h => during_shutdown hfresh hbody h

/-- A body that does nothing. -/
theorem confined_pure {α : Type} (host : Host) (a : α) : Confined host (pure a) :=
  ⟨fun _ _ inside h hin => ⟨inside, h, hin⟩, fun _ => rfl, fun _ => rfl, fun _ => rfl, fun _ => rfl⟩

/-- Names as `tempfile` makes them. -/
def tempName : Temp → Text
  | .mount => "/tmp/mount-a.d".toList
  | .chroot => "/tmp/chroot-b.d".toList
  | .initrd => "/tmp/initrd-c.img".toList

/-- The three names are different. -/
theorem tempName_injective : Function.Injective tempName := by
  intro t t'
  cases t <;> cases t' <;> decide

/-- The names are canonical, and not the root's. -/
theorem tempName_spec (t : Temp) : Canonical (tempName t) ∧ '\\' ∉ tempName t
    ∧ (tempName t).getLast? ≠ some '/' ∧ ¬ tempName t <+: ['/'] := by
  cases t <;> decide

/-- A switch with a partition ONIE-BOOT that is not mounted, where these calls succeed. -/
def partitionHost (succeeds : Call → Bool) : Host where
  succeeds := succeeds
  temp := tempName
  onieBoot := some "/dev/sda2".toList
  onieMtd := none
  glob := fun _ dir => some (dir ++ "/onie/initrd.img".toList)
  head := fun _ => [0x1f, 0x8b]
  hasDevTmpfs := true
  hasEfivarfs := false
  hasEfivars := false
  hasPts := false

/-- The root is mounted, and no more. -/
def rootMounts : Table := [⟨"/dev/sda4".toList, "/".toList, .rw⟩]

/-- The names are new there. -/
theorem fresh_partitionHost (succeeds : Call → Bool) : (partitionHost succeeds).Fresh rootMounts [] where
  new := fun _ => List.not_mem_nil
  distinct := tempName_injective
  canonical := fun t => (tempName_spec t).1
  plain := fun t => (tempName_spec t).2.1
  no_slash := fun t => (tempName_spec t).2.2.1
  outside := by
    intro t
    refine ⟨fun m hm => ?_, fun m hm => ?_⟩
    · rw [List.mem_singleton.mp hm]
      decide
    · rw [List.mem_singleton.mp hm]
      exact (tempName_spec t).2.2.2
  apart := by
    show ¬ tempName .chroot <+: tempName .mount
    decide

/-- All goes well. -/
theorem withOnieBoot_restores_partition : Restored rootMounts []
    (withOnieBoot (partitionHost fun _ => true) (pure ()) (.init rootMounts [])).2 := by
  refine (withOnieBoot_restores (fresh_partitionHost _) (confined_pure _ ())).mpr ?_
  rintro ⟨-, -, hfails | ⟨initrd, hinitrd, hnot⟩⟩
  · cases hfails
  · exact hnot ⟨rfl, rfl, ⟨.gzip, rfl, rfl⟩, rfl, fun _ => rfl, fun _ _ => rfl, fun _ _ => rfl⟩

/-- What the installer keeps: no mounts in the chroot, and everything put aside. -/
theorem hold_spec (hfresh : host.Fresh table temps) {r : Route} (h : Holds host table temps r true false s) :
    ∃ s', hold s = (.ok (), s') ∧ Holds host table temps r false true s' ∧ Idle s' := by
  obtain ⟨inside, hmounts, hin⟩ := h.mounts
  obtain ⟨i, hictx⟩ := h.ictx
  have hunmount : unmountInitrd ⟨some i, some (host.temp .chroot), some i, some (host.temp .chroot)⟩
      { s with ictx := s.ictx.change InitrdContext.attach }
      = (.ok (), { s with
          mounts := table ++ r.mounts host
          ictx := s.ictx.change InitrdContext.attach }) :=
    unmountInitrd_inside (hfresh.canonical .chroot) hmounts (outside_route hfresh r) hin
  refine ⟨State.detach { s with
    mounts := table ++ r.mounts host
    ictx := (s.ictx.change InitrdContext.attach).change InitrdContext.detach }, ?_, ?_, rfl, rfl, rfl⟩
  · have hobject : ({ s with ictx := s.ictx.change InitrdContext.attach } : State).ictx.object
        = some ⟨some i, some (host.temp .chroot), some i, some (host.temp .chroot)⟩ := by
      rw [hictx]
      rfl
    rw [hold, Prog.modify_bind_apply, Prog.get_bind_apply, hobject]
    show (unmountInitrd _ >>= _) _ = _
    rw [Prog.bind_of_ok hunmount]
    rfl
  · refine ⟨⟨[], ?_, ?_⟩, h.temps, ⟨i, ?_⟩, ?_, ?_⟩
    · exact (List.append_nil _).symm
    · exact ⟨fun _ hm => absurd hm List.not_mem_nil, fun _ hm => absurd hm List.not_mem_nil,
        fun _ hm => absurd hm List.not_mem_nil, .nil⟩
    · show ((s.ictx.change InitrdContext.attach).change InitrdContext.detach).detach = _
      rw [hictx]
      rfl
    · show s.dctx.detach = _
      rw [h.dctx]
      cases r <;> rfl
    · show s.fctx.detach = _
      rw [h.fctx]
      cases r <;> rfl

/-- What has been put aside is taken up again. -/
theorem holds_attach {r : Route} (h : Holds host table temps r false true s) :
    Holds host table temps r true true s.attach := by
  obtain ⟨i, hictx⟩ := h.ictx
  refine ⟨h.mounts, h.temps, ⟨i, ?_⟩, ?_, ?_⟩
  · show s.ictx.attach = _
    rw [hictx]
    rfl
  · show s.dctx.attach = _
    rw [h.dctx]
    cases r <;> rfl
  · show s.fctx.attach = _
    rw [h.fctx]
    cases r <;> rfl

/-- **The installer** keeps the context beyond its `with`, and `App.shutdown` gives back what it took,
    whatever the installation came to. -/
theorem install_restores {α : Type} (hfresh : host.Fresh table temps) {rest : Prog State Failure α}
    (hrest : Confined host rest) :
    Restored table temps (install host rest (.init table temps)).2 ↔ ¬ Leaks host table := by
  refine restored_bracket hfresh fun r s h => ?_
  obtain ⟨s₁, hhold, hholds, hidle⟩ := hold_spec hfresh h
  have hwith : Prog.during shutdown hold s = (.ok (), s₁) :=
    Prog.during_of_exit hhold (shutdown_idle hidle)
  have hbody : (do Prog.during shutdown hold; rest) s = rest s₁ := Prog.bind_of_ok hwith
  rcases hrun : rest s₁ with ⟨x, s₂⟩
  have hafter := hrest.holds hholds
  rw [hrun] at hafter
  obtain ⟨s₃, hshut, hrestored, -⟩ := shutdown_spec hfresh (holds_attach hafter)
  have hexit : (do Prog.modify State.attach; shutdown) s₂ = (.ok (), s₃) := by
    rw [Prog.modify_bind_apply]
    exact hshut
  rw [Prog.during_of_exit (hbody.trans hrun) hexit]
  exact hrestored

/-- The last `mount` in the chroot fails: the partition stays mounted. -/
theorem install_restores_pts : ¬ Restored rootMounts []
    (install (partitionHost fun c => decide (c ≠ .mount .devpts)) (pure ()) (.init rootMounts [])).2 := by
  refine (not_congr (install_restores (fresh_partitionHost _) (confined_pure _ ()))).mpr ?_
  refine not_not_intro ⟨rfl, rfl, .inr ⟨_, rfl, fun h => ?_⟩⟩
  have hpts := h.2.mounted .devpts (by decide)
  exact absurd hpts (by decide)

end

end DentOS.OnieBoot
