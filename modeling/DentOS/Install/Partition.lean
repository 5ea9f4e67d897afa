/-
  The partitioning steps of the installers (onl/install/BaseInstall.py): `backupConfig`,
  `restoreConfig`, `deletePartitions` and `partitionParted`.

  The partition table exists twice, as libparted's object in memory and on the device; `commit` writes
  the one to the other.  A table lists the partitions that were there before (`existing`) and those
  the installer has added (`created`), so that a partition that was removed and one that was put in
  its place are never confused.

  Calls of libparted, partprobe, mkfs, mount and tar succeed or fail as `EntryCalls` and `DeleteCalls`
  say; libparted places a partition at the geometry it is given, and refuses one without sectors.  The
  contents of ONL-CONFIG are an `Archive`.  Log messages are left out, but for the ones about an entry
  that is refused, which `rejected` records.
-/
import DentOS.Lib.Effects
import DentOS.Lib.PyText

namespace DentOS.Install

open Effects PyText

/-! ## Disks, partitions and their tables -/

/-- `parted.Device`: its length in sectors, and the two sector sizes.  The physical one may be of a
    type other than `int`. -/
structure Device where
  /-- The number of sectors. -/
  length : Int
  /-- The size of a logical sector. -/
  sectorSize : Int
  /-- The size of a physical one, where it is an `int`. -/
  physicalSectorSize : Option Int
  /-- A sector is not empty. -/
  sectorSize_pos : 0 < sectorSize

/-- `parted.Geometry`. -/
structure Geometry where
  /-- The first sector. -/
  start : Int
  /-- The number of sectors. -/
  length : Int
  deriving DecidableEq

/-- The last sector. -/
def Geometry.last (g : Geometry) : Int := g.start + g.length - 1

/-- A partition that was there before the install. -/
structure PartedPart where
  /-- The number of the partition. -/
  number : Int
  /-- The path of its device. -/
  path : Text
  /-- Its name in the GPT. -/
  name : Option Text
  /-- The hidden flag is set. -/
  hidden : Bool
  /-- Where it is. -/
  geometry : Geometry
  deriving DecidableEq

/-- A partition the installer has added. -/
structure NewPart where
  /-- The label of the entry it is for. -/
  label : Text
  /-- Where it is. -/
  geometry : Geometry
  deriving DecidableEq

/-- The partitions of a disk: those that were there, and those that have been created. -/
structure PartTable where
  /-- The partitions that were there. -/
  existing : List PartedPart
  /-- Those that were created, in order. -/
  created : List NewPart
  deriving DecidableEq

/-- `BlkidEntry`. -/
structure BlkidEntry where
  device : Text
  label : Option Text
  uuid : Option Text
  deriving DecidableEq

/-- What `tar` saves of the ONL-CONFIG partition. -/
abbrev Archive := List UInt8

/-! ## The installer -/

/-- What is raised. -/
inductive PyError where
  | valueError
  | keyError
  | indexError
  | partedException
  | calledProcessError
  | systemExit
  | otherError
  deriving DecidableEq

/-- The members of the installer, and what it changes outside. -/
structure Installer where
  /-- The boot device, once `findGpt` has found it. -/
  device : Option Text
  /-- The number of the first partition that does not stay. -/
  minpart : Option Int
  /-- The first sector that is free. -/
  nextBlock : Option Int
  /-- The partitions that `blkid` has listed. -/
  blkidParts : List BlkidEntry
  /-- The EFI system partition. -/
  espDevice : Option Text
  /-- The UUID of its file system. -/
  espFsUuid : Option Text
  /-- The one archive that `restoreConfig` will unpack: a second backup takes the place of the first. -/
  configArchive : Option Archive
  /-- libparted's table in memory. -/
  partedDisk : PartTable
  /-- The table on the device. -/
  table : PartTable
  /-- The contents that `backupConfig` has saved, one archive for each ONL-CONFIG, oldest first. -/
  saved : List Archive
  /-- The archives that have been unpacked onto an ONL-CONFIG. -/
  onlConfig : List Archive
  /-- `partitionParted` has refused an entry of the spec. -/
  rejected : Bool

/-- A step of the installer. -/
abbrev Inst := Prog Installer PyError

/-- How `partedDisk.commit()` ends: it may fail with the table written, when the kernel refuses it. -/
inductive Commit where
  | ok
  | notWritten
  | written
  deriving DecidableEq

/-- `self.partedDisk.commit()`. -/
def commit : Commit → Inst Unit
  | .ok => Prog.modify fun s => { s with table := s.partedDisk }
  | .notWritten => Prog.throw .partedException
  | .written => do
      Prog.modify fun s => { s with table := s.partedDisk }
      Prog.throw .partedException

/-! ## ONL-CONFIG: its backup, and how it is restored -/

/-- `backupConfig`: `archive` is what `tar` saved, if mount, `tar` and umount did not fail. -/
def backupConfig (archive : Option Archive) : Inst Unit :=
  match archive with
  | some a => Prog.modify fun s => { s with configArchive := some a, saved := s.saved ++ [a] }
  | none => Prog.throw .systemExit

/-- How `restoreConfig` ends: it may fail with the archive unpacked, in umount or unlink. -/
inductive Restore where
  | ok
  | notUnpacked
  | unpacked
  deriving DecidableEq

/-- `restoreConfig`: the archive is written, and forgotten before. -/
def restoreConfig (archive : Archive) (restore : Restore) : Inst Unit := do
  Prog.modify fun s => { s with configArchive := none }
  match restore with
  | .ok => Prog.modify fun s => { s with onlConfig := s.onlConfig ++ [archive] }
  | .notUnpacked => Prog.throw .systemExit
  | .unpacked => do
      Prog.modify fun s => { s with onlConfig := s.onlConfig ++ [archive] }
      Prog.throw .systemExit

/-! ## Deleting the partitions that do not stay -/

/-- The calls of the deletion. -/
structure DeleteCalls where
  /-- How the commit of the table ends. -/
  commit : Commit
  /-- Whether `partprobe` succeeds. -/
  partprobe : Bool

/-- `part.number < self.minpart`; in Python 2 nothing is below `None`. -/
def belowMinpart (minpart : Option Int) (part : PartedPart) : Bool :=
  match minpart with
  | some m => part.number < m
  | none => false

/-- The first sector behind a partition. -/
def PartedPart.behind (part : PartedPart) : Int := part.geometry.start + part.geometry.length

/-- One pass of the loop over the partitions: `nextBlock`, `dirty`, and what is left of the table. -/
def examine (minpart : Option Int) (acc : Int × Bool × List PartedPart) (part : PartedPart) :
    Int × Bool × List PartedPart :=
  let (nextBlock, dirty, left) := acc
  if belowMinpart minpart part then (max part.behind nextBlock, dirty, left ++ [part])
  else (nextBlock, true, left)

/-- `if dirty`: the deletion is written to the device. -/
def commitDeleted (calls : DeleteCalls) (dirty : Bool) : Inst Unit :=
  if dirty then do
    commit calls.commit
    Prog.check calls.partprobe .calledProcessError
  else pure ()

/-- `if nextBlock > -1`. -/
def setNextBlock (nextBlock : Int) : Inst Unit :=
  if nextBlock > -1 then Prog.modify fun s => { s with nextBlock := some nextBlock } else pure ()

/-- `deletePartitions`. -/
def deletePartitions (calls : DeleteCalls) : Inst Nat := do
  let s ← Prog.get
  let (nextBlock, dirty, left) := s.partedDisk.existing.foldl (examine s.minpart) (-1, false, [])
  Prog.modify fun s => { s with partedDisk := { s.partedDisk with existing := left } }
  commitDeleted calls dirty
  setNextBlock nextBlock
  pure 0

/-! ## The spec: labels, sizes and formats -/

/-- The value of a spec entry: a size, or a dict with a size under '=' and a format. -/
inductive PartData where
  | size (sz : Text)
  | dict (sz : Option Text) (format : Option Text)

/-- An entry of the partition spec. -/
structure SpecEntry where
  /-- The label of the partition. -/
  label : Text
  /-- Its size and format. -/
  partData : PartData

/-- `sz, fmt`. -/
def SpecEntry.sizeFormat (e : SpecEntry) : Except PyError (Text × Text) :=
  match e.partData with
  | .size sz => .ok (sz, "ext4".toList)
  | .dict (some sz) format => .ok (sz, format.getD "ext4".toList)
  | .dict none _ => .error .keyError

/-- `UNITS`.  No suffix is one of another, so the order does not matter. -/
def units : List (Text × Int) :=
  [("GiB".toList, 1024 * 1024 * 1024), ("G".toList, 1000 * 1000 * 1000),
    ("MiB".toList, 1024 * 1024), ("M".toList, 1000 * 1000),
    ("KiB".toList, 1024), ("K".toList, 1000)]

/-- `_u2s`.  Division of Python 2 rounds down. -/
def u2s (dev : Device) (sz u : Int) : Int :=
  (sz * u + dev.sectorSize - 1).fdiv dev.sectorSize

/-- `_align`. -/
def align (dev : Device) (spos : Int) : Int :=
  let sz := dev.sectorSize
  match dev.physicalSectorSize with
  | none => spos
  | some psz =>
      if psz ≤ sz then spos
      else if psz.fmod sz ≠ 0 then spos
      else if psz > 1048576 then spos
      else
        let stride := psz.fdiv sz
        let off := spos.fmod stride
        let off := stride - off
        let off := off.fmod stride
        spos + off

/-- The bytes a size with a unit asks for, or `none` without a unit. -/
def unitBytes (sz : Text) : Except PyError (Option (Int × Int)) :=
  match units.find? fun unit => unit.1.isSuffixOf sz with
  | some (ul, ub) =>
      match intOf (sz.take (sz.length - ul.length)) with
      | some n => .ok (some (n, ub))
      | none => .error .valueError
  | none => .ok none

/-- `'100%'`. -/
def wholeRest : Text := "100%".toList

/-- `cnt`: the number of sectors, or `None`. -/
def sectorCount (dev : Device) (nextBlock : Int) (sz : Text) : Except PyError (Option Int) :=
  match unitBytes sz with
  | .error e => .error e
  | .ok bytes =>
      if sz = wholeRest then .ok (some (dev.length - nextBlock))
      else .ok (bytes.map fun (n, ub) => u2s dev n ub)

/-- `v or 1`. -/
def orOne : Option Int → Int
  | none => 1
  | some n => if n = 0 then 1 else n

/-! ## Creating a partition for an entry -/

/-- How the calls for one entry of the spec end. -/
structure EntryCalls where
  /-- The file system object can be made. -/
  fileSystem : Bool
  /-- The partition can be added. -/
  addPartition : Bool
  /-- How the commit of the table ends. -/
  commit : Commit
  /-- Whether `partprobe` succeeds. -/
  partprobe : Bool
  /-- Whether the partition can be formatted. -/
  format : Bool
  /-- How the restoring of a configuration ends. -/
  restore : Restore

/-- The entry is refused with a message, and `partitionParted` returns 1. -/
def reject : Inst Nat := do
  Prog.modify fun s => { s with rejected := true }
  pure 1

/-- `if label == 'ONL-CONFIG' and self.configArchive is not None`. -/
def restoreStep (label : Text) (restore : Restore) : Inst Unit := do
  let s ← Prog.get
  match s.configArchive with
  | some archive =>
      if label = "ONL-CONFIG".toList then restoreConfig archive restore else pure ()
  | none => pure ()

/-- The partition of an entry, from `parted.Geometry` to `restoreConfig`. -/
def createPartition (calls : EntryCalls) (label fmt : Text) (geom : Geometry) (minpart : Int) :
    Inst Unit := do
  Prog.check (1 ≤ geom.length) .partedException
  Prog.check calls.fileSystem .keyError
  Prog.check calls.addPartition .partedException
  Prog.modify fun s => { s with
    partedDisk := { s.partedDisk with created := s.partedDisk.created ++ [⟨label, geom⟩] } }
  commit calls.commit
  Prog.check calls.partprobe .calledProcessError
  Prog.check (fmt = "raw".toList ∨ calls.format) .calledProcessError
  Prog.modify fun s => { s with nextBlock := some (geom.last + 1), minpart := some (minpart + 1) }
  restoreStep label calls.restore

/-- One pass of the loop of `partitionParted`. -/
def partitionEntry (dev : Device) (calls : EntryCalls) (e : SpecEntry) : Inst Nat := do
  let (sz, fmt) ← Prog.ofExcept e.sizeFormat
  let s ← Prog.get
  let nextBlock := orOne s.nextBlock
  let minpart := orOne s.minpart
  match ← Prog.ofExcept (sectorCount dev nextBlock sz) with
  | none => reject
  | some cnt =>
      let start := align dev nextBlock
      let last := start + cnt - 1
      if last ≤ dev.length then do
        createPartition calls e.label fmt ⟨start, last - start + 1⟩ minpart
        pure 0
      else reject

/-- The loop of `partitionParted`; `calls i` are the calls for the entry at position `i`. -/
def partitionLoop (dev : Device) (calls : Nat → EntryCalls) : Nat → List SpecEntry → Inst Nat
  | _, [] => pure 0
  | i, e :: rest => do
      let code ← partitionEntry dev (calls i) e
      if code ≠ 0 then pure code else partitionLoop dev calls (i + 1) rest

/-- `partitionParted`; `blkid` are the partitions it finds at the end, if it does not fail. -/
def partitionParted (dev : Device) (calls : Nat → EntryCalls) (blkid : Option (List BlkidEntry))
    (spec : List SpecEntry) : Inst Nat := do
  let code ← partitionLoop dev calls 0 spec
  if code ≠ 0 then pure code
  else
    match blkid with
    | some parts => do
        Prog.modify fun s => { s with blkidParts := parts }
        pure 0
    | none => Prog.throw .calledProcessError

end DentOS.Install
