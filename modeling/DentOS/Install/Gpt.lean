/-
  `GrubInstaller.installGpt` (onl/install/BaseInstall.py), with `findGpt`, `assertUnmounted` and
  `findEsp`.

  `Machine` is what the run meets: the partitions that blkid and libparted report, the mounts, and how
  the calls to everything outside end.  The steps behind the partitioning write files into partitions
  and set up GRUB; they neither change the partition table nor restore anything, and appear with their
  return codes only.

  A step returns a code or raises, and the first code other than zero ends the run (`Prog.steps`).
  What has been done by then stays done: `Installer` is the state of the members and of the disk, and
  the partition table in memory is apart from the one on the disk, which a commit writes.
-/
import DentOS.Install.Partition

namespace DentOS.Install

open Effects PyText

/-! ## Python on strings -/

/-- `t[i]`, with indices below zero counted from the end. -/
def pyIndex (t : Text) (i : Int) : Except PyError Char :=
  let j := if i < 0 then i + t.length else i
  if j < 0 then .error .indexError
  else
    match t[j.toNat]? with
    | some c => .ok c
    | none => .error .indexError

/-- `t.find(c)`. -/
def pyFind (t : Text) (c : Char) : Int :=
  match t.idxOf? c with
  | some i => i
  | none => -1

/-- `sub in t`. -/
def contains (sub : Text) : Text → Bool
  | [] => sub.isEmpty
  | c :: cs => sub.isPrefixOf (c :: cs) || contains sub cs

/-! ## The entries of `blkid` -/

/-- `while dev[-1].isdigit()`, on the reversed name. -/
def stripDigits : Text → Text → Except PyError (Text × Text)
  | [], _ => .error .indexError
  | c :: rev, part =>
      if c.isDigit then stripDigits rev (c :: part) else .ok ((c :: rev).reverse, part)

/-- `splitDev`. -/
def splitDev (device : Text) : Except PyError (Text × Text) := do
  let mark := pyFind device 'p'
  let before ← pyIndex device (mark - 1)
  -- `and`: the second index is looked at only behind a digit
  let offset ← if before.isDigit then do
      let after ← pyIndex device (mark + 1)
      pure after.isDigit
    else pure false
  let (dev, part) ← stripDigits device.reverse []
  pure (if offset then dev.dropLast else dev, part)

/-- One of the words of the partitions that stay. -/
def reservedName (name : Text) : Bool :=
  contains "GRUB".toList name || contains "ONIE-BOOT".toList name || contains "DIAG".toList name

/-- `isOnieReserved`: by the label. -/
def BlkidEntry.isOnieReserved (part : BlkidEntry) : Bool :=
  match part.label with
  | none => false
  | some label => reservedName label

/-- `blkidParts[name]`. -/
def blkidNamed (parts : List BlkidEntry) (name : Text) : Except PyError BlkidEntry :=
  match parts.find? fun part => part.label == some name || part.uuid == some name with
  | some part => .ok part
  | none => .error .indexError

/-! ## The machine: all that a run meets -/

/-- How a call ends that gives a return code. -/
abbrev Call := Except PyError Nat

/-- What the run meets: what it finds, and which of its calls succeed. -/
structure Machine where
  -- what is found
  /-- What `blkid` prints; `none` where it fails. -/
  blkid : Option (List BlkidEntry)
  /-- The boot device, or its label, as grub has it. -/
  grubDevice : Option Text
  /-- The machine was started by UEFI. -/
  isUEFI : Bool
  /-- The mount table. -/
  mounts : Option (List (Text × Text))
  /-- `--force` was given. -/
  force : Bool
  /-- The disk, as parted sees it. -/
  parted : Option Device
  /-- It has a GPT. -/
  isGpt : Bool
  /-- The partitions that `gdisk` shows, and which of them are EFI system partitions. -/
  gdisk : Option (List (Text × Bool))
  /-- The partitions that the platform asks for. -/
  spec : Option (List SpecEntry)
  /-- What `blkid` prints behind the partitioning. -/
  blkidAfter : Option (List BlkidEntry)
  -- how calls end
  /-- The installer's zip file can be opened. -/
  zipFile : Bool
  /-- The plugins are loaded. -/
  loadPlugins : Call
  /-- The return code of the plugins in front of the install. -/
  preinstall : Nat
  /-- Whether a directory can be unmounted. -/
  umount : Text → Bool
  /-- The archive made of an ONL-CONFIG. -/
  backup : Text → Option Archive
  /-- The calls of the deletion. -/
  deletes : DeleteCalls
  /-- The calls for each entry of the spec. -/
  entries : Nat → EntryCalls
  /-- The software image is installed. -/
  installSwi : Call
  /-- The loader is installed. -/
  installLoader : Call
  /-- The configuration of grub is installed. -/
  installGrubCfg : Call
  /-- The boot-config file is installed. -/
  installBootConfig : Call
  /-- The contents of ONL-CONFIG are installed. -/
  installOnlConfig : Call
  /-- Grub is installed. -/
  installGrub : Call
  /-- The return code of the plugins behind the install. -/
  postinstall : Nat

/-- An installer before its run, on a disk with the partitions `parts`. -/
def Installer.fresh (parts : List PartedPart) : Installer where
  device := none
  minpart := none
  nextBlock := none
  blkidParts := []
  espDevice := none
  espFsUuid := none
  configArchive := none
  partedDisk := ⟨[], []⟩
  table := ⟨parts, []⟩
  saved := []
  onlConfig := []
  rejected := false

/-- Something outside that may fail. -/
def found {α : Type} : Option α → Inst α
  | some a => pure a
  | none => Prog.throw .otherError

section

variable (m : Machine)

/-! ## `findGpt`: the boot device, its mounts, ONL-CONFIG, and the partitions that stay -/

/-- A partition is one of the device that the platform names, or has the label it names. -/
def isTarget (deviceOrLabel dev : Text) (part : BlkidEntry) : Bool :=
  if "/dev".toList.isPrefixOf deviceOrLabel then deviceOrLabel == dev
  else part.label == some deviceOrLabel

/-- The loop that identifies the boot device. -/
def findDevice (deviceOrLabel : Text) : List BlkidEntry → Inst Nat
  | [] => pure 0
  | part :: rest => do
      let (dev, partno) ← Prog.ofExcept (splitDev part.device)
      if isTarget deviceOrLabel dev part then
        if partno = [] then pure 1
        else do
          let s ← Prog.get
          match s.device with
          | none => do
              Prog.modify fun s => { s with device := some dev }
              findDevice deviceOrLabel rest
          | some _ => pure 1
      else findDevice deviceOrLabel rest

/-- The loop of `assertUnmounted`. -/
def unmount (device : Text) : List (Text × Text) → Inst Nat
  | [] => pure 0
  | (mdev, dir) :: rest =>
      if device.isPrefixOf mdev then
        if m.force then
          if m.umount dir then unmount device rest else pure 1
        else pure 1
      else unmount device rest

/-- `assertUnmounted`, on the mounts that were found. -/
def assertUnmounted (device : Text) : Inst Nat := do
  let mounts ← found m.mounts
  unmount m device mounts

/-- The loop that backs up ONL-CONFIG.  It does not stop at the first one, and every backup goes to
    `configArchive`: of several ONL-CONFIGs the last one is what will be restored. -/
def backupConfigs (device : Text) : List BlkidEntry → Inst Unit
  | [] => pure ()
  | part :: rest => do
      let (dev, _) ← Prog.ofExcept (splitDev part.device)
      if dev = device ∧ part.label = some "ONL-CONFIG".toList then do
        backupConfig (m.backup part.device)
        backupConfigs device rest
      else backupConfigs device rest

/-- One pass of the loop that enumerates the partitions that stay. -/
def minpartStep (blkidParts : List BlkidEntry) (minpart : Int) (part : PartedPart) : Int :=
  if part.hidden then max minpart (part.number + 1)
  else
    match blkidParts.find? fun x => x.device == part.path with
    | none => minpart
    | some blkidPart =>
        if blkidPart.isOnieReserved && (part.name.any fun name => reservedName name) then
          max minpart (part.number + 1)
        else minpart

/-- `findGpt` from `parted.getDevice` on. -/
def findMinpart : Inst Nat := do
  let _ ← found m.parted
  let s ← Prog.get
  Prog.modify fun s => { s with partedDisk := s.table }
  let minpart := s.table.existing.foldl (minpartStep s.blkidParts) (-1)
  if minpart < 0 then pure 1
  else do
    Prog.modify fun s => { s with minpart := some minpart }
    pure 0

/-- `findGpt` from the check for a device on. -/
def checkDevice : Inst Nat := do
  let s ← Prog.get
  match s.device with
  | none => pure 1
  | some device =>
      Prog.steps [
        if m.isUEFI then pure 0 else assertUnmounted m device,
        do
          backupConfigs m device s.blkidParts
          pure 0,
        findMinpart m]

/-- `findGpt`. -/
def findGpt : Inst Nat := do
  let parts ← found m.blkid
  Prog.modify fun s => { s with blkidParts := parts }
  let deviceOrLabel ← found m.grubDevice
  Prog.steps [findDevice deviceOrLabel parts, checkDevice m]

/-! ## `findEsp`: the EFI system partition -/

/-- `findEsp`: the first partition with the flag. -/
def findEsp : Inst Nat := do
  let parts ← found m.gdisk
  match parts.find? fun part => part.2 with
  | none => pure 1
  | some (espDevice, _) => do
      Prog.modify fun s => { s with espDevice := some espDevice }
      let s ← Prog.get
      match s.blkidParts.find? fun x => x.device == espDevice with
      | none => pure 1
      | some blkidPart => do
          Prog.modify fun s => { s with espFsUuid := blkidPart.uuid }
          pure 0

/-! ## `installGpt`, step by step -/

/-- Everything in front of `deletePartitions`. -/
def prepare : Inst Nat :=
  Prog.steps [
    do
      Prog.check m.zipFile .otherError
      pure 0,
    Prog.ofExcept m.loadPlugins,
    pure m.preinstall,
    findGpt m,
    if m.isUEFI then findEsp m else pure 0,
    if m.isGpt then pure 0 else pure 1]

/-- The loop of `partitionParted` needs the spec of the platform. -/
def partition (dev : Device) : Inst Nat := do
  let spec ← found m.spec
  partitionParted dev m.entries m.blkidAfter spec

/-- The steps behind the partitioning, in order. -/
def Machine.laterCalls : List Call :=
  [m.installSwi, m.installLoader, m.installGrubCfg, m.installBootConfig, m.installOnlConfig,
    m.installGrub, .ok m.postinstall]

/-- Everything behind `partitionParted`. -/
def finish : Inst Nat := do
  let s ← Prog.get
  let _ ← Prog.ofExcept (blkidNamed s.blkidParts "ONL-BOOT".toList)
  Prog.steps (m.laterCalls.map Prog.ofExcept)

/-- `installGpt`: its steps, up to the first that does not return 0. -/
def installGpt : Inst Nat :=
  Prog.steps [
    prepare m,
    deletePartitions m.deletes,
    do
      let dev ← found m.parted
      partition m dev,
    finish m]

end

end DentOS.Install
