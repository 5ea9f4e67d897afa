/-
  `OnieBootContext` (onl/install/ShellApp.py), with the contexts it is made of: `MountContext`,
  `InitrdContext` and `UbootInitrdContext` (onl/install/InstallUtils.py).

  It finds the initrd of ONIE: on the partition labelled ONIE-BOOT, mounted already or not, on any mounted
  device, or in the flash of a U-Boot.  It unpacks the initrd into a temporary directory and mounts /proc
  and the like in there.  Each context is entered by a `with`, and told in its body to let go of what it
  made (`detach`), so that it outlives the `with`; the `shutdown` of the whole takes each up again
  (`attach`) and shuts it down.

  What the system has of them is the mount table and the temporary files and directories.  Which calls
  succeed is a parameter; each is made once at most while the context is entered.  What `umount` and
  `rmdir` do is the kernel's of a system without other users (`kernelUmounts`, `remove`).

  Not modelled: the log, what is in an image of U-Boot (whether it is read is the call `parseImage`), what
  `_prepDirs` puts into the directory that it is in, and reading /proc, which succeeds.
-/
import DentOS.Lib.Scope
import DentOS.Mounts.Chroot

namespace DentOS.OnieBoot

open PyText Effects Mounts
open GrubEnv (join)

/-! ## The contexts: their fields, and what `detach` and `attach` do to them -/

/-- What `tempfile` makes: the directories of `MountContext` and `InitrdContext`, the file of
    `UbootInitrdContext`. -/
inductive Temp where
  | mount
  | chroot
  | initrd
  deriving DecidableEq

/-- What `cpio` is fed by. -/
inductive Decompressor where
  | gzip
  | bzip2
  | xz
  deriving DecidableEq

/-- The filesystems that are mounted in the chroot. -/
inductive ChrootFs where
  | proc
  | sysfs
  | efivarfs
  | devtmpfs
  | devpts
  deriving DecidableEq

/-- The calls that may fail.  `modprobe` fails where there is no such program: what it comes to otherwise
    is passed over. -/
inductive Call where
  | blkid
  | mkdtemp (t : Temp)
  | mountDevice
  | parseImage
  | writeInitrd
  | openInitrd
  | pipe (c : Decompressor)
  | prepDirs
  | mount (fs : ChrootFs)
  | modprobe
  | mkdirPts
  deriving DecidableEq

/-- `InitrdContext`: the initrd, the directory it is unpacked in, and both put aside. -/
structure InitrdContext where
  /-- The file it unpacks. -/
  initrd : Option Text
  /-- Where it is unpacked. -/
  dir : Option Text
  -- `__initrd` and `__dir`
  /-- The file, put aside by `detach`. -/
  initrdAside : Option Text
  /-- The directory, put aside by `detach`. -/
  dirAside : Option Text

/-- `detach`: both are put aside. -/
def InitrdContext.detach (c : InitrdContext) : InitrdContext := ⟨none, none, c.initrd, c.dir⟩

/-- `attach`: both are taken up again. -/
def InitrdContext.attach (c : InitrdContext) : InitrdContext :=
  { c with initrd := c.initrdAside, dir := c.dirAside }

/-- `MountContext`: whether it has mounted, and where. -/
structure MountContext where
  /-- It has mounted. -/
  mounted : Bool
  /-- Where it has mounted. -/
  hostDir : Option Text
  -- `__mounted` and `__hostDir`
  /-- That it has, put aside by `detach`. -/
  mountedAside : Bool
  /-- The directory, put aside by `detach`. -/
  hostDirAside : Option Text

/-- `detach`. -/
def MountContext.detach (c : MountContext) : MountContext := ⟨false, none, c.mounted, c.hostDir⟩

/-- `attach`. -/
def MountContext.attach (c : MountContext) : MountContext :=
  { c with mounted := c.mountedAside, hostDir := c.hostDirAside }

/-- `UbootInitrdContext`: the file of the initrd. -/
structure UbootInitrdContext where
  /-- The file of the initrd. -/
  initrd : Option Text
  /-- The file, put aside by `detach`. -/
  initrdAside : Option Text

/-- `detach`. -/
def UbootInitrdContext.detach (c : UbootInitrdContext) : UbootInitrdContext := ⟨none, c.initrd⟩

/-- `attach`. -/
def UbootInitrdContext.attach (c : UbootInitrdContext) : UbootInitrdContext :=
  { c with initrd := c.initrdAside }

/-- A context that an `OnieBootContext` has made, and which of its two fields name it: `self.ictx` and
    `self.__ictx`, say. -/
structure Slot (α : Type) where
  /-- The context, once it has been made. -/
  object : Option α
  /-- The public field names it. -/
  held : Bool
  /-- The private field names it. -/
  aside : Bool

/-- No context has been made. -/
def Slot.empty {α : Type} : Slot α := ⟨none, false, false⟩

/-- `as self.ictx`. -/
def Slot.make {α : Type} (c : α) : Slot α := ⟨some c, true, false⟩

/-- The context is changed where it is. -/
def Slot.change {α : Type} (f : α → α) (slot : Slot α) : Slot α := { slot with object := slot.object.map f }

/-- `self.__ictx, self.ictx = self.ictx, None`. -/
def Slot.detach {α : Type} (slot : Slot α) : Slot α := { slot with held := false, aside := slot.held }

/-- `self.ictx = self.__ictx`. -/
def Slot.attach {α : Type} (slot : Slot α) : Slot α := { slot with held := slot.aside }

/-- The system, and the fields of an `OnieBootContext`. -/
structure State where
  /-- What is mounted. -/
  mounts : Table
  /-- The temporary directories that are there. -/
  temps : List Text
  /-- The unpacked initrd. -/
  ictx : Slot InitrdContext
  /-- The mount of ONIE-BOOT. -/
  dctx : Slot MountContext
  /-- The initrd of a U-Boot image. -/
  fctx : Slot UbootInitrdContext
  /-- Where ONIE-BOOT is mounted. -/
  onieDir : Option Text
  /-- The initrd that was found. -/
  initrd : Option Text
  /-- Where it is unpacked. -/
  initrdDir : Option Text

/-- `OnieBootContext.__init__`. -/
def State.init (mounts : Table) (temps : List Text) : State where
  mounts := mounts
  temps := temps
  ictx := .empty
  dctx := .empty
  fctx := .empty
  onieDir := none
  initrd := none
  initrdDir := none

/-- What is raised. -/
inductive Failure where
  /-- A call failed. -/
  | failed (c : Call)
  | valueError
  | attributeError
  /-- `umount`. -/
  | umount
  /-- `os.rmdir` or `shutil.rmtree`. -/
  | osError

/-- The host: which calls succeed, and what they find. -/
structure Host where
  /-- Whether a call succeeds. -/
  succeeds : Call → Bool
  /-- The name of each temporary directory. -/
  temp : Temp → Text
  /-- `self.blkid['ONIE-BOOT'].device`. -/
  onieBoot : Option Text
  /-- The device of the first MTD partition that is labelled onie. -/
  onieMtd : Option Text
  /-- The first `onie/initrd.img*` in a directory. -/
  glob : Table → Text → Option Text
  /-- The first bytes of a file. -/
  head : Text → List UInt8
  /-- /proc/filesystems has devtmpfs. -/
  hasDevTmpfs : Bool
  /-- /proc/filesystems has efivarfs. -/
  hasEfivarfs : Bool
  /-- `sys/firmware/efi/efivars` is there, behind the sysfs. -/
  hasEfivars : Bool
  /-- `dev/pts` is there, behind the devtmpfs. -/
  hasPts : Bool

variable (host : Host)

/-- A call, which may fail. -/
def call (c : Call) : Prog State Failure Unit := Prog.check (host.succeeds c) (.failed c)

/-- `tempfile.mkdtemp`, or `mkstemp`. -/
def mkdtemp (t : Temp) : Prog State Failure Unit := do
  call host (.mkdtemp t)
  Prog.modify fun s => { s with temps := host.temp t :: s.temps }

/-- `mount`. -/
def mount (c : Call) (e : Entry) : Prog State Failure Unit := do
  call host c
  Prog.modify fun s => { s with mounts := s.mounts ++ [e] }

/-- `os.rmdir` of an empty directory, or `shutil.rmtree`: no mount is in it. -/
def remove (d : Text) : Prog State Failure Unit := do
  let s ← Prog.get
  if d ∈ s.temps ∧ ∀ m ∈ s.mounts, ¬ Within m.dir d then
    Prog.modify fun s => { s with temps := s.temps.erase d }
  else Prog.throw .osError

/-! ## `InitrdContext`: unpack, chroot, mount, and undo -/

/-- What `_unpack` makes of the first bytes. -/
def decompressor (mbuf : List UInt8) : Option Decompressor :=
  if mbuf.take 2 = [0x1f, 0x8b] then some .gzip
  else if mbuf.take 2 = [0x42, 0x5a] then some .bzip2
  else if mbuf.take 6 = [0xfd, 0x37, 0x7a, 0x58, 0x5a, 0] then some .xz
  else none

/-- The pipe from the decompressor into `cpio`. -/
def pipe (initrd : Text) : Prog State Failure Unit :=
  match decompressor (host.head initrd) with
  | some c => call host (.pipe c)
  | none => Prog.throw .valueError

/-- `_unpack`. -/
def unpack (initrd : Text) : Prog State Failure Unit := do
  mkdtemp host .chroot
  call host .openInitrd
  pipe host initrd

/-- The type of the filesystem, which is its device too. -/
def ChrootFs.name : ChrootFs → Text
  | .proc => "proc".toList
  | .sysfs => "sysfs".toList
  | .efivarfs => "efivarfs".toList
  | .devtmpfs => "devtmpfs".toList
  | .devpts => "devpts".toList

/-- Where it is mounted in the chroot. -/
def ChrootFs.subdir : ChrootFs → Text
  | .proc => "proc".toList
  | .sysfs => "sys".toList
  | .efivarfs => "sys/firmware/efi/efivars".toList
  | .devtmpfs => "dev".toList
  | .devpts => "dev/pts".toList

/-- The entry of a filesystem in the chroot. -/
def ChrootFs.entry (dir : Text) (fs : ChrootFs) : Entry := ⟨fs.name, join dir fs.subdir, .rw⟩

/-- A filesystem is mounted in the chroot. -/
def mountFs (fs : ChrootFs) : Prog State Failure Unit :=
  mount host (.mount fs) (fs.entry (host.temp .chroot))

/-- The module efivarfs, if the kernel does not have it yet. -/
def loadEfivarfs : Prog State Failure Unit :=
  if host.hasEfivarfs then pure () else call host .modprobe

/-- The efivarfs, if its directory is there. -/
def mountEfivars : Prog State Failure Unit :=
  if host.hasEfivars then mountFs host .efivarfs else pure ()

/-- The devtmpfs, if there is one. -/
def mountDev : Prog State Failure Unit :=
  if host.hasDevTmpfs then do
    mountFs host .devtmpfs
    if host.hasPts then pure () else call host .mkdirPts
  else pure ()

/-- `InitrdContext(initrd=initrd).__enter__`, and `as self.ictx`. -/
def enterInitrd (initrd : Text) : Prog State Failure Unit := do
  unpack host initrd
  call host .prepDirs
  mountFs host .proc
  mountFs host .sysfs
  loadEfivarfs host
  mountEfivars host
  mountDev host
  mountFs host .devpts
  Prog.modify fun s => { s with ictx := .make ⟨some initrd, some (host.temp .chroot), none, none⟩ }

/-- `InitrdContext.unmount`. -/
def unmountInitrd (c : InitrdContext) : Prog State Failure Unit := fun s =>
  match Mounts.InitrdContext.unmount kernelUmounts c.dir s.mounts with
  | (true, mounts) => (.ok (), { s with mounts := mounts })
  | (false, mounts) => (.error .umount, { s with mounts := mounts })

/-- `InitrdContext.shutdown`. -/
def shutdownInitrd (c : InitrdContext) : Prog State Failure InitrdContext := do
  unmountInitrd c
  match c.initrd, c.dir with
  | some _, some dir => remove dir
  | _, _ => pure ()
  pure c

/-! ## `MountContext`: mount a device, and unmount it -/

/-- `MountContext(dev).__enter__`, and `as self.dctx`. -/
def enterMount (dev : Text) : Prog State Failure Unit := do
  mkdtemp host .mount
  mount host .mountDevice ⟨dev, host.temp .mount, .rw⟩
  Prog.modify fun s => { s with dctx := .make ⟨true, some (host.temp .mount), false, none⟩ }

/-- `umount`, if it is mounted, and /proc/mounts has the directory. -/
def unmountDevice (c : MountContext) : Prog State Failure Unit := do
  let s ← Prog.get
  match c.mounted, c.hostDir with
  | true, some dir =>
      if s.mounts.any fun e => e.dir = dir then
        if kernelUmounts s.mounts dir then
          Prog.modify fun s => { s with mounts := unmount dir s.mounts }
        else Prog.throw .umount
      else pure ()
  | _, _ => pure ()

/-- `MountContext.shutdown`. -/
def shutdownMount (c : MountContext) : Prog State Failure MountContext := do
  unmountDevice c
  match c.hostDir with
  | some dir => remove dir
  | none => pure ()
  pure c

/-! ## `UbootInitrdContext`: take the initrd out of an image -/

/-- `UbootInitrdContext(path).__enter__`, and `as self.fctx`. -/
def enterUboot : Prog State Failure Unit := do
  call host .parseImage
  mkdtemp host .initrd
  call host .writeInitrd
  Prog.modify fun s => { s with fctx := .make ⟨some (host.temp .initrd), none⟩ }

/-- `UbootInitrdContext.shutdown`. -/
def shutdownUboot (c : UbootInitrdContext) : Prog State Failure UbootInitrdContext := do
  match c.initrd with
  | some initrd => Prog.modify fun s => { s with temps := s.temps.erase initrd }
  | none => pure ()
  pure { c with initrd := none }

/-! ## `OnieBootContext`: one inside the other -/

/-- The object of a slot is shut down. -/
def exitInitrd : Prog State Failure Unit := do
  let s ← Prog.get
  match s.ictx.object with
  | some c => do
      let c ← shutdownInitrd c
      Prog.modify fun s => { s with ictx := { s.ictx with object := some c } }
  | none => pure ()

/-- The object of the partition's slot is shut down. -/
def exitMount : Prog State Failure Unit := do
  let s ← Prog.get
  match s.dctx.object with
  | some c => do
      let c ← shutdownMount c
      Prog.modify fun s => { s with dctx := { s.dctx with object := some c } }
  | none => pure ()

/-- The object of the image's slot is shut down. -/
def exitUboot : Prog State Failure Unit := do
  let s ← Prog.get
  match s.fctx.object with
  | some c => do
      let c ← shutdownUboot c
      Prog.modify fun s => { s with fctx := { s.fctx with object := some c } }
  | none => pure ()

/-- `with InitrdContext(initrd=initrd) as self.ictx`, the body of which notes it and lets it go. -/
def withInitrd (initrd : Text) (release : State → State) : Prog State Failure Unit :=
  Prog.bracket (enterInitrd host initrd) exitInitrd do
    Prog.modify release
    Prog.modify fun s => { s with
      initrd := some initrd
      initrdDir := s.ictx.object.bind InitrdContext.dir
      ictx := s.ictx.change InitrdContext.detach }

/-- The first mounted device with an initrd of ONIE. -/
def search (pm : Table) : Option (Text × Text) :=
  pm.findSome? fun part =>
    if "/dev/".toList.isPrefixOf part.device then (host.glob pm part.dir).map (part.dir, ·) else none

/-- The initrd in a mounted directory. -/
def fromDir (dir initrd : Text) : Prog State Failure Unit := do
  Prog.modify fun s => { s with onieDir := some dir }
  withInitrd host initrd id

/-- What is done on a partition that is mounted for this. -/
def onPartition : Prog State Failure Unit := do
  let s ← Prog.get
  match host.glob s.mounts (host.temp .mount) with
  | some initrd => do
      Prog.modify fun s => { s with
        onieDir := some (host.temp .mount)
        dctx := s.dctx.change MountContext.detach }
      withInitrd host initrd id
  | none => Prog.throw .valueError

/-- `with MountContext(dev) as self.dctx`. -/
def fromPartition (dev : Text) : Prog State Failure Unit :=
  Prog.bracket (enterMount host dev) exitMount (onPartition host)

/-- The initrd in an image of U-Boot. -/
def fromImage : Prog State Failure Unit :=
  Prog.bracket (enterUboot host) exitUboot
    (withInitrd host (host.temp .initrd) fun s => { s with fctx := s.fctx.change UbootInitrdContext.detach })

/-- `[p for p in self.pm.mounts if p.device == dev]`. -/
def mountsOf (dev : Text) (pm : Table) : Table := pm.filter fun p => p.device = dev

/-- There is a partition ONIE-BOOT. -/
def fromDevice (dev : Text) (pm : Table) : Prog State Failure Unit :=
  match mountsOf dev pm with
  | part :: _ =>
      match host.glob pm part.dir with
      | some initrd => fromDir host part.dir initrd
      | none => Prog.throw .valueError
  | [] => fromPartition host dev

/-- There is none. -/
def fromSearch (pm : Table) : Prog State Failure Unit :=
  match search host pm with
  | some (dir, initrd) => fromDir host dir initrd
  | none =>
      match host.onieMtd with
      | some _ => fromImage host
      -- `self.mtd.mounts`, which a `ProcMtdParser` does not have
      | none => Prog.throw .attributeError

/-- `OnieBootContext.__enter__`. -/
def enter : Prog State Failure Unit := do
  call host .blkid
  let s ← Prog.get
  match host.onieBoot with
  | some dev => fromDevice host dev s.mounts
  | none => fromSearch host s.mounts

/-- `ctx, self.ictx = self.ictx, None`, and what follows it in `shutdown`. -/
def shutdownIctx : Prog State Failure Unit := do
  let s ← Prog.get
  if s.ictx.held then do
    Prog.modify fun s => { s with ictx := { s.ictx with held := false } }
    exitInitrd
    Prog.modify fun s => { s with ictx := s.ictx.change InitrdContext.attach }
    exitInitrd
  else pure ()

/-- What `shutdown` does on the partition. -/
def shutdownDctx : Prog State Failure Unit := do
  let s ← Prog.get
  if s.dctx.held then do
    Prog.modify fun s => { s with dctx := { s.dctx with held := false } }
    exitMount
    Prog.modify fun s => { s with dctx := s.dctx.change MountContext.attach }
    exitMount
  else pure ()

/-- What `shutdown` does on the image. -/
def shutdownFctx : Prog State Failure Unit := do
  let s ← Prog.get
  if s.fctx.held then do
    Prog.modify fun s => { s with fctx := { s.fctx with held := false } }
    exitUboot
    Prog.modify fun s => { s with fctx := s.fctx.change UbootInitrdContext.attach }
    exitUboot
  else pure ()

/-- `OnieBootContext.shutdown`, which is its `__exit__`. -/
def shutdown : Prog State Failure Unit := do
  shutdownFctx
  shutdownIctx
  shutdownDctx

/-- `OnieBootContext.detach`. -/
def State.detach (s : State) : State :=
  { s with fctx := s.fctx.detach, ictx := s.ictx.detach, dctx := s.dctx.detach }

/-- `OnieBootContext.attach`. -/
def State.attach (s : State) : State :=
  { s with fctx := s.fctx.attach, ictx := s.ictx.attach, dctx := s.dctx.attach }

/-- `with OnieBootContext() as octx: body`. -/
def withOnieBoot {α : Type} (body : Prog State Failure α) : Prog State Failure α :=
  Prog.bracket (enter host) shutdown body

/-! ## The installer, which enters the context and detaches it -/

/-- What is done with the context in `runLocalOrChroot` (onl/install/App.py): the mounts of the initrd are
    taken away, and the context is kept. -/
def hold : Prog State Failure Unit := do
  Prog.modify fun s => { s with ictx := s.ictx.change InitrdContext.attach }
  let s ← Prog.get
  match s.ictx.object with
  | some c => unmountInitrd c
  | none => pure ()
  Prog.modify fun s => { s with ictx := s.ictx.change InitrdContext.detach }
  Prog.modify State.detach

/-- The installation: `self.octx` is there once the context is entered, and `App.shutdown` shuts it down,
    whatever the rest of the run came to. -/
def install {α : Type} (rest : Prog State Failure α) : Prog State Failure α :=
  Prog.bracket (enter host) (do Prog.modify State.attach; shutdown) (do Prog.during shutdown hold; rest)

end DentOS.OnieBoot
