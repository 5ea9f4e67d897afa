/-
  What an install that fails leaves of the disk.

  `installGpt` deletes partitions early, and what it has deleted it does not bring back, except for the
  contents of ONL-CONFIG, which it saves first and writes back when it gets to an ONL-CONFIG entry of
  the spec.  `Recoverable` is the promise about a run that fails: no partition has been removed, or the
  saved contents are back; and no spec that `partitionParted` refuses has cost a partition.

  `findGpt` saves every ONL-CONFIG of the boot device, but the installer remembers one archive only.
  Where the disk has several ONL-CONFIGs with different contents, what is written back is the last
  one, and the others are lost: the promise counts all of them (`WrittenBack`), and the condition asks
  whether one archive stands for all that was saved (`OneContent`).

  The run falls into three parts.  Nothing in front of the deletion touches the disk
  (`keeps_prepare`).  Behind a deletion, what is removed stays removed (`keeps_existing`).  And the
  loop over the spec writes the saved contents back or not as `Recovers` says, entry by entry
  (`recovers_loop`): an entry is refused, raises, or is made, and an ONL-CONFIG entry that is made
  restores what is still pending.  `recoverable_iff` puts them together.
-/
import DentOS.Install.Gpt
import DentOS.Install.Layout

namespace DentOS.Install

open Effects PyText

/-! ## The promise: what was saved is unpacked again, or nothing was deleted -/

/-- A non-zero return code, or an exception. -/
def Fails (r : Except PyError Nat) : Prop := r ≠ .ok 0

/-- Contents of ONL-CONFIG have been saved, and all that were saved have been written back. -/
def WrittenBack (s : Installer) : Prop := s.saved ≠ [] ∧ ∀ a ∈ s.saved, a ∈ s.onlConfig

/-- None of the partitions `parts` has been removed from the device. -/
def NoneRemoved (parts : List PartedPart) (s : Installer) : Prop :=
  ∀ p ∈ parts, p ∈ s.table.existing

/-- The promise about a run of `installGpt` on a disk with the partitions `parts`. -/
structure Recoverable (m : Machine) (parts : List PartedPart) : Prop where
  failed : Fails (installGpt m (.fresh parts)).1 →
    NoneRemoved parts (installGpt m (.fresh parts)).2 ∨
      WrittenBack (installGpt m (.fresh parts)).2
  refused : (installGpt m (.fresh parts)).2.rejected = true →
    NoneRemoved parts (installGpt m (.fresh parts)).2

/-! ## The condition on the machine, and on its spec -/

/-- How an entry of the spec ends, up to what it restores. -/
inductive Fate where
  | refused
  | raises
  | made (geom : Geometry)

/-- Every call in front of `restoreConfig` succeeds. -/
def Makes (calls : EntryCalls) (fmt : Text) (geom : Geometry) : Prop :=
  1 ≤ geom.length ∧ calls.fileSystem = true ∧ calls.addPartition = true ∧ calls.commit = .ok ∧
    calls.partprobe = true ∧ (fmt = "raw".toList ∨ calls.format = true)

instance (calls : EntryCalls) (fmt : Text) (geom : Geometry) : Decidable (Makes calls fmt geom) :=
  inferInstanceAs (Decidable (_ ∧ _ ∧ _ ∧ _ ∧ _ ∧ _))

/-- The fate of an entry, with the cursor at `n`. -/
def entryFate (dev : Device) (calls : EntryCalls) (n : Int) (e : SpecEntry) : Fate :=
  match e.sizeFormat with
  | .error _ => .raises
  | .ok (sz, fmt) =>
      match sectorCount dev n sz with
      | .error _ => .raises
      | .ok none => .refused
      | .ok (some cnt) =>
          if align dev n + cnt - 1 ≤ dev.length then
            if Makes calls fmt ⟨align dev n, cnt⟩ then .made ⟨align dev n, cnt⟩ else .raises
          else .refused

/-- All that was saved is what the pending archive has. -/
def OneContent (s : Installer) : Prop := ∀ a ∈ s.saved, s.configArchive = some a

instance (s : Installer) : Decidable (OneContent s) :=
  inferInstanceAs (Decidable (∀ a ∈ s.saved, s.configArchive = some a))

/-- Over the entries from position `i` on, with the cursor at `n`: none is refused, and the saved
    contents are written back before the first failure, or nothing fails (`finishes`).  An archive may
    be still `pending`, and all that was saved may be `written`; unpacking the archive writes it all
    if the archive is the `whole` of it. -/
def Recovers (dev : Device) (calls : Nat → EntryCalls) (finishes : Prop) (whole : Bool) :
    Nat → Int → (pending written : Bool) → List SpecEntry → Prop
  | _, _, _, written, [] => finishes ∨ written = true
  | i, n, pending, written, e :: rest =>
      match entryFate dev (calls i) n e with
      | .refused => False
      | .raises => written = true
      | .made geom =>
          if e.label = "ONL-CONFIG".toList ∧ pending = true then
            match (calls i).restore with
            | .ok =>
                Recovers dev calls finishes whole (i + 1) (orOne (some (geom.last + 1))) false whole
                  rest
            | .notUnpacked => written = true
            | .unpacked => whole = true
          else
            Recovers dev calls finishes whole (i + 1) (orOne (some (geom.last + 1))) pending written
              rest

/-- Everything behind the partitioning succeeds. -/
def Finishes (m : Machine) : Prop :=
  ∃ parts, m.blkidAfter = some parts ∧ (∃ dev, blkidNamed parts "ONL-BOOT".toList = .ok dev) ∧
    ∀ c ∈ m.laterCalls, c = .ok 0

/-- Every partition is one that stays. -/
def NothingToDelete (s : Installer) : Prop :=
  ∀ p ∈ s.partedDisk.existing, belowMinpart s.minpart p = true

/-- The cursor that `deletePartitions` leaves. -/
def cursorBehind (s : Installer) : Int :=
  let nextBlock := (s.partedDisk.existing.foldl (examine s.minpart) (-1, false, [])).1
  if nextBlock > -1 then orOne (some nextBlock) else orOne s.nextBlock

/-- The condition, on the machine and on the state in front of the deletion: nothing is to be
    deleted, or the deletion does not get to the device, or it succeeds and the loop recovers. -/
def RecoverableWhen (m : Machine) (parts : List PartedPart) : Prop :=
  ∀ s, prepare m (.fresh parts) = (.ok 0, s) →
    NothingToDelete s ∨ m.deletes.commit = .notWritten ∨
      (m.deletes.commit = .ok ∧ m.deletes.partprobe = true ∧
        ∃ dev spec, m.parted = some dev ∧ m.spec = some spec ∧
          Recovers dev m.entries (Finishes m) (decide (OneContent s)) 0 (cursorBehind s)
            s.configArchive.isSome false spec)

/-! ## In front of the deletion nothing is lost -/

section

variable {m : Machine}

/-- What no step in front of the deletion changes. -/
structure Untouched (table : PartTable) (s : Installer) : Prop where
  table : s.table = table
  notRestored : s.onlConfig = []
  notRejected : s.rejected = false
  archive : s.configArchive = s.saved.getLast?
  nextBlock : s.nextBlock = none

/-- Finding changes nothing. -/
theorem keeps_found {inv : Installer → Prop} {α : Type} (x : Option α) :
    Prog.Keeps inv (found x) := by
  cases x with
  | some a => exact Prog.keeps_pure inv a
  | none => exact Prog.keeps_throw inv _

/-- What the search for the device keeps. -/
theorem keeps_findDevice {inv : Installer → Prop}
    (h : ∀ s dev, inv s → inv { s with device := dev }) (deviceOrLabel : Text) :
    ∀ parts : List BlkidEntry, Prog.Keeps inv (findDevice deviceOrLabel parts) := by
  intro parts
  induction parts with
  | nil => exact Prog.keeps_pure _ 0
  | cons part rest ih =>
      refine Prog.keeps_bind (Prog.keeps_ofExcept _ _) fun devPart => ?_
      refine Prog.keeps_ite (Prog.keeps_ite (Prog.keeps_pure _ _) ?_) ih
      refine Prog.keeps_bind (Prog.keeps_get _) fun s => ?_
      cases s.device with
      | none =>
          exact Prog.keeps_bind (Prog.keeps_modify fun s hs => h s (some _) hs) fun _ => ih
      | some dev => exact Prog.keeps_pure _ 1

/-- What unmounting keeps. -/
theorem keeps_unmount (inv : Installer → Prop) (device : Text) : ∀ mounts : List (Text × Text),
    Prog.Keeps inv (unmount m device mounts) := by
  intro mounts
  induction mounts with
  | nil => exact Prog.keeps_pure _ 0
  | cons mount rest ih =>
      exact Prog.keeps_ite (Prog.keeps_ite (Prog.keeps_ite ih (Prog.keeps_pure _ 1))
        (Prog.keeps_pure _ 1)) ih

/-- The backups leave the table as it was. -/
theorem keeps_backupConfigs (table : PartTable) (device : Text) : ∀ parts : List BlkidEntry,
    Prog.Keeps (Untouched table) (backupConfigs m device parts) := by
  intro parts
  induction parts with
  | nil => exact Prog.keeps_pure _ _
  | cons part rest ih =>
      refine Prog.keeps_bind (Prog.keeps_ofExcept _ _) fun devPart => Prog.keeps_ite ?_ ih
      refine Prog.keeps_bind ?_ fun _ => ih
      unfold backupConfig
      cases m.backup part.device with
      | some a =>
          exact Prog.keeps_modify fun _ h => ⟨h.table, h.notRestored, h.notRejected,
            List.getLast?_concat.symm, h.nextBlock⟩
      | none => exact Prog.keeps_throw _ _

/-- The search for the first partition that may go leaves the table as it was. -/
theorem keeps_findMinpart (table : PartTable) :
    Prog.Keeps (Untouched table) (findMinpart m) := by
  refine Prog.keeps_bind (keeps_found _) fun _ => Prog.keeps_bind (Prog.keeps_get _) fun s => ?_
  refine Prog.keeps_bind (Prog.keeps_modify fun _ h => ⟨h.table, h.notRestored, h.notRejected,
    h.archive, h.nextBlock⟩) fun _ => Prog.keeps_ite (Prog.keeps_pure _ 1) ?_
  exact Prog.keeps_bind (Prog.keeps_modify fun _ h => ⟨h.table, h.notRestored, h.notRejected,
    h.archive, h.nextBlock⟩) fun _ => Prog.keeps_pure _ 0

/-- The check of the device leaves the table as it was. -/
theorem keeps_checkDevice (table : PartTable) :
    Prog.Keeps (Untouched table) (checkDevice m) := by
  refine Prog.keeps_bind (Prog.keeps_get _) fun s => ?_
  cases s.device with
  | none => exact Prog.keeps_pure _ 1
  | some device =>
      refine Prog.keeps_steps fun p hp => ?_
      rcases List.mem_cons.mp hp with rfl | hp
      · exact Prog.keeps_ite (Prog.keeps_pure _ 0)
          (Prog.keeps_bind (keeps_found _) fun _ => keeps_unmount _ _ _)
      rcases List.mem_cons.mp hp with rfl | hp
      · exact Prog.keeps_bind (keeps_backupConfigs table device _) fun _ => Prog.keeps_pure _ 0
      · rw [List.mem_singleton.mp hp]
        exact keeps_findMinpart table

/-- `findGpt` leaves the table as it was. -/
theorem keeps_findGpt (table : PartTable) : Prog.Keeps (Untouched table) (findGpt m) := by
  refine Prog.keeps_bind (keeps_found _) fun parts => ?_
  refine Prog.keeps_bind (Prog.keeps_modify fun _ h => ⟨h.table, h.notRestored, h.notRejected,
    h.archive, h.nextBlock⟩) fun _ => Prog.keeps_bind (keeps_found _) fun deviceOrLabel => ?_
  refine Prog.keeps_steps fun p hp => ?_
  rcases List.mem_cons.mp hp with rfl | hp
  · exact keeps_findDevice (fun _ _ h => ⟨h.table, h.notRestored, h.notRejected, h.archive,
      h.nextBlock⟩) _ _
  · rw [List.mem_singleton.mp hp]
    exact keeps_checkDevice table

/-- What the search for the ESP keeps. -/
theorem keeps_findEsp {inv : Installer → Prop}
    (h : ∀ s dev uuid, inv s → inv { s with espDevice := dev, espFsUuid := uuid }) :
    Prog.Keeps inv (findEsp m) := by
  refine Prog.keeps_bind (keeps_found _) fun parts => ?_
  cases parts.find? fun part => part.2 with
  | none => exact Prog.keeps_pure _ 1
  | some part =>
      refine Prog.keeps_bind
        (Prog.keeps_modify fun s hs => h s (some part.1) s.espFsUuid hs) fun _ => ?_
      refine Prog.keeps_bind (Prog.keeps_get _) fun s => ?_
      cases s.blkidParts.find? fun x => x.device == part.1 with
      | none => exact Prog.keeps_pure _ 1
      | some blkidPart =>
          exact Prog.keeps_bind (Prog.keeps_modify fun s hs => h s s.espDevice blkidPart.uuid hs)
            fun _ => Prog.keeps_pure _ 0

/-- **Nothing in front of the deletion** touches the disk, or restores or refuses anything. -/
theorem keeps_prepare (table : PartTable) : Prog.Keeps (Untouched table) (prepare m) := by
  refine Prog.keeps_steps fun p hp => ?_
  rcases List.mem_cons.mp hp with rfl | hp
  · exact Prog.keeps_bind (Prog.keeps_check _ _ _) fun _ => Prog.keeps_pure _ 0
  rcases List.mem_cons.mp hp with rfl | hp
  · exact Prog.keeps_ofExcept _ _
  rcases List.mem_cons.mp hp with rfl | hp
  · exact Prog.keeps_pure _ _
  rcases List.mem_cons.mp hp with rfl | hp
  · exact keeps_findGpt table
  rcases List.mem_cons.mp hp with rfl | hp
  · exact Prog.keeps_ite (keeps_findEsp fun _ _ _ h => ⟨h.table, h.notRestored, h.notRejected,
      h.archive, h.nextBlock⟩) (Prog.keeps_pure _ 0)
  · rw [List.mem_singleton.mp hp]
    exact Prog.keeps_ite (Prog.keeps_pure _ 0) (Prog.keeps_pure _ 1)

/-- **Before the deletion** the table is as it was. -/
theorem untouched_prepare {parts : List PartedPart} {r : Except PyError Nat} {s : Installer}
    (h : prepare m (.fresh parts) = (r, s)) : Untouched ⟨parts, []⟩ s := by
  have hkeeps := keeps_prepare (m := m) ⟨parts, []⟩ (.fresh parts) ⟨rfl, rfl, rfl, rfl, rfl⟩
  rwa [h] at hkeeps

/-- The table in memory is the one on the device. -/
def ReadTable (s : Installer) : Prop := s.partedDisk = s.table

/-- Behind `findMinpart` the table has been read. -/
theorem read_findMinpart {s s' : Installer} (h : findMinpart m s = (.ok 0, s')) : ReadTable s' := by
  obtain ⟨_, s1, -, h⟩ := Prog.bind_returns h
  rw [Prog.get_bind_apply, Prog.modify_bind_apply] at h
  split at h
  · cases h
  · cases h
    rfl

/-- Behind `findGpt` the table has been read. -/
theorem read_findGpt {s s' : Installer} (h : findGpt m s = (.ok 0, s')) : ReadTable s' := by
  obtain ⟨parts, s1, -, h⟩ := Prog.bind_returns h
  rw [Prog.modify_bind_apply] at h
  obtain ⟨deviceOrLabel, s2, -, h⟩ := Prog.bind_returns h
  obtain ⟨s3, -, h⟩ := Prog.steps_eq_zero h
  obtain ⟨s4, h, hnil⟩ := Prog.steps_eq_zero h
  cases hnil
  unfold checkDevice at h
  rw [Prog.get_bind_apply] at h
  cases hdev : s3.device with
  | none =>
      rw [hdev] at h
      cases h
  | some device =>
      rw [hdev] at h
      obtain ⟨s5, -, h⟩ := Prog.steps_eq_zero h
      obtain ⟨s6, -, h⟩ := Prog.steps_eq_zero h
      obtain ⟨s7, h, hnil⟩ := Prog.steps_eq_zero h
      cases hnil
      exact read_findMinpart h

/-- When the deletion is reached, the table in memory has been read from the device. -/
theorem read_prepare {s s' : Installer} (h : prepare m s = (.ok 0, s')) : ReadTable s' := by
  obtain ⟨s1, -, h⟩ := Prog.steps_eq_zero h
  obtain ⟨s2, -, h⟩ := Prog.steps_eq_zero h
  obtain ⟨s3, -, h⟩ := Prog.steps_eq_zero h
  obtain ⟨s4, hgpt, h⟩ := Prog.steps_eq_zero h
  obtain ⟨s5, hesp, h⟩ := Prog.steps_eq_zero h
  obtain ⟨s6, htype, hnil⟩ := Prog.steps_eq_zero h
  cases hnil
  have hread := read_findGpt hgpt
  have hkeeps : Prog.Keeps ReadTable (if m.isUEFI = true then findEsp m else pure 0) :=
    Prog.keeps_ite (keeps_findEsp fun _ _ _ h => h) (Prog.keeps_pure _ 0)
  have hread' := hkeeps s4 hread
  rw [hesp] at hread'
  split at htype
  · cases htype
    exact hread'
  · cases htype

/-- The partition is an ONL-CONFIG of the device. -/
def isConfigOf (device : Text) (part : BlkidEntry) : Bool :=
  match splitDev part.device with
  | .ok (dev, _) => dev = device ∧ part.label = some "ONL-CONFIG".toList
  | .error _ => false

/-- The archives of the ONL-CONFIGs among the partitions `parts` of a device. -/
def configsOf (m : Machine) (device : Text) (parts : List BlkidEntry) : List Archive :=
  (parts.filter (isConfigOf device)).filterMap fun part => m.backup part.device

/-- What has been saved is every ONL-CONFIG of the boot device. -/
def SavedOf (m : Machine) (s : Installer) : Prop :=
  ∀ device, s.device = some device → s.saved = configsOf m device s.blkidParts

/-- One partition of the loop that backs up. -/
theorem backupConfigs_cons {device : Text} {part : BlkidEntry} {rest : List BlkidEntry}
    {s s' : Installer} (h : backupConfigs m device (part :: rest) s = (.ok (), s')) :
    (isConfigOf device part = false ∧ backupConfigs m device rest s = (.ok (), s')) ∨
      ∃ a, isConfigOf device part = true ∧ m.backup part.device = some a ∧
        backupConfigs m device rest
          { s with configArchive := some a, saved := s.saved ++ [a] } = (.ok (), s') := by
  rw [backupConfigs] at h
  unfold isConfigOf
  cases hdev : splitDev part.device with
  | error err =>
      rw [hdev] at h
      cases h
  | ok devPart =>
      obtain ⟨dev, partno⟩ := devPart
      rw [hdev] at h
      change (if dev = device ∧ part.label = some "ONL-CONFIG".toList then _ else _ : Inst Unit) s =
        _ at h
      by_cases hconfig : dev = device ∧ part.label = some "ONL-CONFIG".toList
      · rw [if_pos hconfig] at h
        cases harch : m.backup part.device with
        | none =>
            rw [harch] at h
            cases h
        | some a =>
            rw [harch] at h
            exact Or.inr ⟨a, decide_eq_true hconfig, rfl, h⟩
      · rw [if_neg hconfig] at h
        exact Or.inl ⟨decide_eq_false hconfig, h⟩

/-- The backups are the configurations on the device, in order; by induction on the partitions. -/
theorem saved_backupConfigs (device : Text) : ∀ (parts : List BlkidEntry) {s s' : Installer},
    backupConfigs m device parts s = (.ok (), s') →
      s'.device = s.device ∧ s'.blkidParts = s.blkidParts ∧
        s'.saved = s.saved ++ configsOf m device parts := by
  intro parts
  induction parts with
  | nil =>
      intro s s' h
      cases h
      exact ⟨rfl, rfl, (List.append_nil _).symm⟩
  | cons part rest ih =>
      intro s s' h
      rw [configsOf, List.filter_cons]
      rcases backupConfigs_cons h with ⟨hnot, h⟩ | ⟨a, hconfig, harch, h⟩
      · rw [if_neg (Bool.eq_false_iff.mp hnot)]
        exact ih h
      · obtain ⟨hdevice, hparts, hsaved⟩ := ih h
        rw [if_pos hconfig, List.filterMap_cons, harch]
        refine ⟨hdevice, hparts, hsaved.trans ?_⟩
        rw [List.append_assoc]
        rfl

/-- The backups stay. -/
theorem keeps_savedOf_findMinpart : Prog.Keeps (SavedOf m) (findMinpart m) := by
  refine Prog.keeps_bind (keeps_found _) fun _ => Prog.keeps_bind (Prog.keeps_get _) fun s => ?_
  refine Prog.keeps_bind (Prog.keeps_modify fun _ h => h) fun _ =>
    Prog.keeps_ite (Prog.keeps_pure _ 1) ?_
  exact Prog.keeps_bind (Prog.keeps_modify fun _ h => h) fun _ => Prog.keeps_pure _ 0

/-- Behind the check of the device what is saved is its configurations. -/
theorem savedOf_checkDevice {s s' : Installer} (hs : s.saved = [])
    (h : checkDevice m s = (.ok 0, s')) : SavedOf m s' := by
  unfold checkDevice at h
  rw [Prog.get_bind_apply] at h
  cases hdev : s.device with
  | none =>
      rw [hdev] at h
      cases h
  | some device =>
      rw [hdev] at h
      obtain ⟨s1, hmounts, h⟩ := Prog.steps_eq_zero h
      obtain ⟨s2, hbackup, h⟩ := Prog.steps_eq_zero h
      obtain ⟨s3, hminpart, hnil⟩ := Prog.steps_eq_zero h
      cases hnil
      -- nothing is unmounted in the installer's own state
      have hsame : s1 = s := by
        have hkeeps : Prog.Keeps (· = s)
            (if m.isUEFI = true then pure 0 else assertUnmounted m device) :=
          Prog.keeps_ite (Prog.keeps_pure _ 0)
            (Prog.keeps_bind (keeps_found _) fun _ => keeps_unmount _ _ _)
        have h1 := hkeeps s rfl
        rwa [hmounts] at h1
      obtain ⟨u, s4, hconfigs, hzero⟩ := Prog.bind_returns hbackup
      cases hzero
      obtain ⟨hdevice, hparts, hsaved⟩ := saved_backupConfigs device _ hconfigs
      have hbacked : SavedOf m s2 := by
        intro device' hdevice'
        rw [hdevice, hsame, hdev] at hdevice'
        cases hdevice'
        rw [hsaved, hsame, hs, hparts, hsame]
        rfl
      have hkept := keeps_savedOf_findMinpart s2 hbacked
      rwa [hminpart] at hkept

/-- Nothing has been saved. -/
def NoneSaved (s : Installer) : Prop := s.saved = []

/-- Behind `findGpt`, from a start without any, what is saved is the device's configurations. -/
theorem savedOf_findGpt {s s' : Installer} (hs : NoneSaved s) (h : findGpt m s = (.ok 0, s')) :
    SavedOf m s' := by
  obtain ⟨parts, s1, hblkid, h⟩ := Prog.bind_returns h
  have h1 := keeps_found m.blkid s hs
  rw [hblkid] at h1
  rw [Prog.modify_bind_apply] at h
  obtain ⟨deviceOrLabel, s2, hgrub, h⟩ := Prog.bind_returns h
  have h2 := @keeps_found NoneSaved _ m.grubDevice { s1 with blkidParts := parts } h1
  rw [hgrub] at h2
  obtain ⟨s3, hfind, h⟩ := Prog.steps_eq_zero h
  have h3 := @keeps_findDevice NoneSaved (fun _ _ h => h) deviceOrLabel parts s2 h2
  rw [hfind] at h3
  obtain ⟨s4, hcheck, hnil⟩ := Prog.steps_eq_zero h
  cases hnil
  exact savedOf_checkDevice h3 hcheck

/-- **When the deletion is reached**, every ONL-CONFIG of the boot device has been saved. -/
theorem savedOf_prepare {parts : List PartedPart} {s : Installer}
    (h : prepare m (.fresh parts) = (.ok 0, s)) : SavedOf m s := by
  obtain ⟨s1, hzip, h⟩ := Prog.steps_eq_zero h
  have hkeeps : Prog.Keeps NoneSaved (Prog.check m.zipFile .otherError >>= fun _ => pure 0 : Inst Nat) :=
    Prog.keeps_bind (Prog.keeps_check _ _ _) fun _ => Prog.keeps_pure _ 0
  have h1 := hkeeps (.fresh parts) rfl
  rw [show _ = _ from hzip] at h1
  obtain ⟨s2, hplugins, h⟩ := Prog.steps_eq_zero h
  have h2 := Prog.keeps_ofExcept NoneSaved m.loadPlugins s1 h1
  rw [hplugins] at h2
  obtain ⟨s3, hpreinstall, h⟩ := Prog.steps_eq_zero h
  have h3 : NoneSaved s3 := by
    rw [← (Prod.mk.inj hpreinstall).2]
    exact h2
  obtain ⟨s4, hgpt, h⟩ := Prog.steps_eq_zero h
  have h4 := savedOf_findGpt h3 hgpt
  obtain ⟨s5, hesp, h⟩ := Prog.steps_eq_zero h
  obtain ⟨s6, htype, hnil⟩ := Prog.steps_eq_zero h
  cases hnil
  have hkept : Prog.Keeps (SavedOf m) (if m.isUEFI = true then findEsp m else pure 0) :=
    Prog.keeps_ite (keeps_findEsp fun _ _ _ h => h) (Prog.keeps_pure _ 0)
  have h5 := hkept s4 h4
  rw [hesp] at h5
  split at htype
  · cases htype
    exact h5
  · cases htype

end

/-! ## The deletion, and what has been saved by then -/

/-- What `deletePartitions` leaves in memory. -/
def kept (s : Installer) : List PartedPart :=
  s.partedDisk.existing.filter (belowMinpart s.minpart)

/-- The state behind the loop of `deletePartitions`. -/
def examined (s : Installer) : Installer :=
  { s with partedDisk := { s.partedDisk with existing := kept s } }

/-- The deletion: a commit, and the cursor behind what is kept. -/
theorem deletePartitions_eq (calls : DeleteCalls) (s : Installer) :
    deletePartitions calls s =
      (commitDeleted calls (s.partedDisk.existing.any (!belowMinpart s.minpart ·)) >>= fun _ =>
        setNextBlock (s.partedDisk.existing.foldl (examine s.minpart) (-1, false, [])).1 >>= fun _ =>
          pure 0) (examined s) := by
  obtain ⟨hleft, hdirty, -, -⟩ := foldl_examine s.minpart s.partedDisk.existing (-1, false, [])
  rw [List.nil_append] at hleft
  rw [Bool.false_or] at hdirty
  rw [← hdirty, examined, kept, ← hleft]
  rfl

/-- The cursor is set behind the partitions of `s`. -/
def cursorSet (s s' : Installer) : Installer :=
  let nextBlock := (s.partedDisk.existing.foldl (examine s.minpart) (-1, false, [])).1
  if nextBlock > -1 then { s' with nextBlock := some nextBlock } else s'

/-- What is in memory is on the device. -/
def committed (s : Installer) : Installer := { s with table := s.partedDisk }

/-- The cursor is set. -/
theorem setNextBlock_apply (s s' : Installer) :
    (setNextBlock (s.partedDisk.existing.foldl (examine s.minpart) (-1, false, [])).1 >>= fun _ =>
      pure 0 : Inst Nat) s' = (.ok 0, cursorSet s s') := by
  unfold setNextBlock cursorSet
  dsimp only
  split <;> rfl

/-- Something is to be deleted. -/
theorem any_not_below {s : Installer} (h : ¬ NothingToDelete s) :
    s.partedDisk.existing.any (!belowMinpart s.minpart ·) = true := by
  obtain ⟨p, hp⟩ := Classical.not_forall.mp h
  obtain ⟨hp, hnot⟩ := Classical.not_imp.mp hp
  exact List.any_eq_true.mpr ⟨p, hp, by rw [Bool.eq_false_iff.mpr hnot]; rfl⟩

/-- Nothing to delete: nothing is written to the device. -/
theorem deletePartitions_nothing {s : Installer} (h : NothingToDelete s) (calls : DeleteCalls) :
    deletePartitions calls s = (.ok 0, cursorSet s (examined s)) := by
  have hclean : s.partedDisk.existing.any (!belowMinpart s.minpart ·) = false := by
    refine List.any_eq_false.mpr fun p hp => ?_
    rw [h p hp]
    decide
  rw [deletePartitions_eq, hclean]
  exact setNextBlock_apply s (examined s)

/-- A deletion that gets through. -/
theorem deletePartitions_written {s : Installer} (h : ¬ NothingToDelete s) {calls : DeleteCalls}
    (hcommit : calls.commit = .ok) (hprobe : calls.partprobe = true) :
    deletePartitions calls s = (.ok 0, cursorSet s (committed (examined s))) := by
  rw [deletePartitions_eq, any_not_below h, commitDeleted, hcommit, hprobe]
  exact setNextBlock_apply s (committed (examined s))

/-- A deletion that does not get to the device. -/
theorem deletePartitions_notWritten {s : Installer} (h : ¬ NothingToDelete s) {calls : DeleteCalls}
    (hcommit : calls.commit = .notWritten) :
    deletePartitions calls s = (.error .partedException, examined s) := by
  rw [deletePartitions_eq, any_not_below h, commitDeleted, hcommit]
  rfl

/-- A deletion that gets to the device, and fails. -/
theorem deletePartitions_failed {s : Installer} (h : ¬ NothingToDelete s) {calls : DeleteCalls}
    (hcommit : calls.commit ≠ .notWritten)
    (hfails : ¬ (calls.commit = .ok ∧ calls.partprobe = true)) :
    ∃ e, deletePartitions calls s = (.error e, committed (examined s)) := by
  rw [deletePartitions_eq, any_not_below h, commitDeleted]
  cases hc : calls.commit with
  | ok =>
      have hprobe : calls.partprobe = false :=
        Bool.eq_false_iff.mpr fun hprobe => hfails ⟨hc, hprobe⟩
      rw [hprobe]
      exact ⟨_, rfl⟩
  | notWritten => exact absurd hc hcommit
  | written => exact ⟨_, rfl⟩

/-! ## Behind the deletion: what the run still owes -/

section

variable {m : Machine} {onDisk : List PartedPart → Prop}

/-- The partitions that were there before the install, on the device and in memory, are as
    `onDisk` says. -/
def Existing (onDisk : List PartedPart → Prop) (s : Installer) : Prop :=
  onDisk s.table.existing ∧ onDisk s.partedDisk.existing

/-- A commit of new partitions keeps those on disk. -/
theorem keeps_commit_existing (c : Commit) : Prog.Keeps (Existing onDisk) (commit c) :=
  keeps_commit (fun _ h => ⟨h.2, h.2⟩) c

/-- A new partition keeps those on disk. -/
theorem keeps_createPartition (calls : EntryCalls) (label fmt : Text) (geom : Geometry)
    (minpart : Int) :
    Prog.Keeps (Existing onDisk) (createPartition calls label fmt geom minpart) :=
  Prog.keeps_bind (Prog.keeps_check _ _ _) fun _ =>
    Prog.keeps_bind (Prog.keeps_check _ _ _) fun _ =>
    Prog.keeps_bind (Prog.keeps_check _ _ _) fun _ =>
    Prog.keeps_bind (Prog.keeps_modify fun _ h => h) fun _ =>
    Prog.keeps_bind (keeps_commit_existing _) fun _ =>
    Prog.keeps_bind (Prog.keeps_check _ _ _) fun _ =>
    Prog.keeps_bind (Prog.keeps_check _ _ _) fun _ =>
    Prog.keeps_bind (Prog.keeps_modify fun _ h => h) fun _ =>
    keeps_restoreStep (fun _ _ _ h => h) _ _

/-- An entry that is refused keeps what is on disk. -/
theorem keeps_reject : Prog.Keeps (Existing onDisk) reject :=
  Prog.keeps_bind (Prog.keeps_modify fun _ h => h) fun _ => Prog.keeps_pure _ 1

/-- An entry of any kind keeps what is on disk. -/
theorem keeps_partitionEntry (dev : Device) (calls : EntryCalls) (e : SpecEntry) :
    Prog.Keeps (Existing onDisk) (partitionEntry dev calls e) := by
  refine Prog.keeps_bind (Prog.keeps_ofExcept _ _) fun sf => ?_
  refine Prog.keeps_bind (Prog.keeps_get _) fun s => ?_
  refine Prog.keeps_bind (Prog.keeps_ofExcept _ _) fun cnt => ?_
  cases cnt with
  | none => exact keeps_reject
  | some cnt =>
      exact Prog.keeps_ite (Prog.keeps_bind (keeps_createPartition _ _ _ _ _) fun _ =>
        Prog.keeps_pure _ 0) keeps_reject

/-- The loop over the entries keeps what is on disk, by induction on them. -/
theorem keeps_partitionLoop (dev : Device) (calls : Nat → EntryCalls) : ∀ (spec : List SpecEntry)
    (i : Nat), Prog.Keeps (Existing onDisk) (partitionLoop dev calls i spec) := by
  intro spec
  induction spec with
  | nil => intro i; exact Prog.keeps_pure _ 0
  | cons e rest ih =>
      intro i
      exact Prog.keeps_bind (keeps_partitionEntry dev _ e) fun code =>
        Prog.keeps_ite (Prog.keeps_pure _ code) (ih (i + 1))

/-- What is done behind the loop keeps everything. -/
theorem keeps_finish (inv : Installer → Prop) : Prog.Keeps inv (finish m) := by
  refine Prog.keeps_bind (Prog.keeps_get _) fun s => ?_
  refine Prog.keeps_bind (Prog.keeps_ofExcept _ _) fun _ => Prog.keeps_steps fun p hp => ?_
  obtain ⟨c, -, rfl⟩ := List.mem_map.mp hp
  exact Prog.keeps_ofExcept _ _

/-- The steps behind the deletion. -/
def behindDeletion (m : Machine) : List (Inst Nat) :=
  [do
    let dev ← found m.parted
    partition m dev,
   finish m]

/-- **What is removed stays removed**, and what is left stays, in all that follows. -/
theorem keeps_existing : Prog.Keeps (Existing onDisk) (Prog.steps (behindDeletion m)) := by
  refine Prog.keeps_steps fun p hp => ?_
  rcases List.mem_cons.mp hp with rfl | hp
  · refine Prog.keeps_bind (keeps_found _) fun dev => Prog.keeps_bind (keeps_found _) fun spec => ?_
    refine Prog.keeps_bind (keeps_partitionLoop dev _ spec 0) fun code => ?_
    refine Prog.keeps_ite (Prog.keeps_pure _ code) ?_
    cases m.blkidAfter with
    | none => exact Prog.keeps_throw _ _
    | some parts =>
        exact Prog.keeps_bind (Prog.keeps_modify fun _ h => h) fun _ => Prog.keeps_pure _ 0
  · rw [List.mem_singleton.mp hp]
    exact keeps_finish _

end

/-! ## The fate of an entry of the spec -/

/-- What an entry leaves alone until it restores. -/
structure Same (s s' : Installer) : Prop where
  rejected : s'.rejected = s.rejected
  saved : s'.saved = s.saved
  onlConfig : s'.onlConfig = s.onlConfig
  configArchive : s'.configArchive = s.configArchive

/-- What is not touched is the same. -/
theorem Same.refl (s : Installer) : Same s s := ⟨rfl, rfl, rfl, rfl⟩

section

variable {dev : Device} {calls : EntryCalls} {e : SpecEntry} {s : Installer}

/-- The state in which an entry restores. -/
def madeState (label : Text) (geom : Geometry) (minpart : Int) (s : Installer) : Installer :=
  let disk : PartTable :=
    { s.partedDisk with created := s.partedDisk.created ++ [⟨label, geom⟩] }
  { s with
    partedDisk := disk
    table := disk
    nextBlock := some (geom.last + 1)
    minpart := some (minpart + 1) }

/-- A partition that is made, and what is left to do on it. -/
theorem createPartition_made (label : Text) {fmt : Text} {geom : Geometry} (minpart : Int)
    (h : Makes calls fmt geom) : ∃ s', Same s s' ∧ s'.nextBlock = some (geom.last + 1) ∧
      createPartition calls label fmt geom minpart s = restoreStep label calls.restore s' := by
  obtain ⟨hlen, hfs, hadd, hcommit, hprobe, hformat⟩ := h
  refine ⟨madeState label geom minpart s, ⟨rfl, rfl, rfl, rfl⟩, rfl, ?_⟩
  unfold createPartition
  rw [Prog.check_bind_apply, decide_eq_true hlen, if_pos rfl, Prog.check_bind_apply, hfs,
    if_pos rfl, Prog.check_bind_apply, hadd, if_pos rfl, Prog.modify_bind_apply, hcommit, commit,
    Prog.modify_bind_apply, Prog.check_bind_apply, hprobe, if_pos rfl, Prog.check_bind_apply,
    decide_eq_true hformat, if_pos rfl, Prog.modify_bind_apply]
  rfl

/-- One that is not. -/
theorem createPartition_raises (label : Text) {fmt : Text} {geom : Geometry} (minpart : Int)
    (h : ¬ Makes calls fmt geom) : ∃ err s', Same s s' ∧
      createPartition calls label fmt geom minpart s = (.error err, s') := by
  unfold createPartition
  by_cases hshort : geom.length < 1
  · rw [Prog.check_bind_apply, decide_eq_false (by omega)]
    exact ⟨_, s, Same.refl s, rfl⟩
  have hlen : 1 ≤ geom.length := by omega
  rw [Prog.check_bind_apply, decide_eq_true hlen, if_pos rfl, Prog.check_bind_apply]
  cases hfs : calls.fileSystem with
  | false => exact ⟨_, s, Same.refl s, rfl⟩
  | true =>
      rw [if_pos rfl, Prog.check_bind_apply]
      cases hadd : calls.addPartition with
      | false => exact ⟨_, s, Same.refl s, rfl⟩
      | true =>
          rw [if_pos rfl, Prog.modify_bind_apply]
          cases hcommit : calls.commit with
          | notWritten =>
              refine ⟨_, _, ?_, rfl⟩
              exact ⟨rfl, rfl, rfl, rfl⟩
          | written =>
              refine ⟨_, _, ?_, rfl⟩
              exact ⟨rfl, rfl, rfl, rfl⟩
          | ok =>
              rw [commit, Prog.modify_bind_apply, Prog.check_bind_apply]
              cases hprobe : calls.partprobe with
              | false =>
                  refine ⟨_, _, ?_, rfl⟩
                  exact ⟨rfl, rfl, rfl, rfl⟩
              | true =>
                  have hformat : ¬ (fmt = "raw".toList ∨ calls.format = true) := fun hformat =>
                    h ⟨hlen, hfs, hadd, hcommit, hprobe, hformat⟩
                  rw [if_pos rfl, Prog.check_bind_apply, decide_eq_false hformat]
                  refine ⟨_, _, ?_, rfl⟩
                  exact ⟨rfl, rfl, rfl, rfl⟩

/-- **What an entry does**, by its fate. -/
theorem partitionEntry_fate (dev : Device) (calls : EntryCalls) (e : SpecEntry) (s : Installer) :
    match entryFate dev calls (orOne s.nextBlock) e with
    | .refused => partitionEntry dev calls e s = (.ok 1, { s with rejected := true })
    | .raises => ∃ err s', Same s s' ∧ partitionEntry dev calls e s = (.error err, s')
    | .made geom => ∃ s', Same s s' ∧ s'.nextBlock = some (geom.last + 1) ∧
        partitionEntry dev calls e s =
          (restoreStep e.label calls.restore >>= fun _ => pure 0 : Inst Nat) s' := by
  rw [partitionEntry_apply]
  unfold entryFate
  cases e.sizeFormat with
  | error err => exact ⟨err, s, Same.refl s, rfl⟩
  | ok sf =>
      obtain ⟨sz, fmt⟩ := sf
      dsimp only
      cases sectorCount dev (orOne s.nextBlock) sz with
      | error err => exact ⟨err, s, Same.refl s, rfl⟩
      | ok cnt =>
          cases cnt with
          | none => rfl
          | some cnt =>
              dsimp only
              by_cases hend : align dev (orOne s.nextBlock) + cnt - 1 ≤ dev.length
              · rw [if_pos hend, if_pos hend]
                by_cases hmakes : Makes calls fmt ⟨align dev (orOne s.nextBlock), cnt⟩
                · obtain ⟨s', hsame, hnext, hcreate⟩ := createPartition_made (s := s)
                    e.label (orOne s.minpart) hmakes
                  rw [if_pos hmakes]
                  refine ⟨s', hsame, hnext, ?_⟩
                  show Prog.bind _ _ s = Prog.bind _ _ s'
                  unfold Prog.bind
                  rw [hcreate]
                · obtain ⟨err, s', hsame, hcreate⟩ := createPartition_raises (s := s)
                    e.label (orOne s.minpart) hmakes
                  rw [if_neg hmakes]
                  exact ⟨err, s', hsame, Prog.bind_of_error hcreate⟩
              · rw [if_neg hend, if_neg hend]
                rfl

end

/-! ## The loop over the entries -/

/-- What the loop has restored, and what is pending.  While an archive is pending, something has been
    saved and nothing is written back. -/
structure Restoring (whole pending written : Bool) (s : Installer) : Prop where
  notRejected : s.rejected = false
  archive : s.configArchive.isSome = pending
  saved : ∀ a, s.configArchive = some a →
    s.saved ≠ [] ∧ s.onlConfig = [] ∧ ((∀ b ∈ s.saved, b = a) ↔ whole = true)
  written : WrittenBack s ↔ written = true

/-- Whether all is written back depends on the two lists only. -/
theorem Same.writtenBack_iff {s s' : Installer} (h : Same s s') : WrittenBack s' ↔ WrittenBack s := by
  rw [WrittenBack, WrittenBack, h.saved, h.onlConfig]

/-- The invariant depends on what is compared. -/
theorem Same.restoring {whole pending written : Bool} {s s' : Installer} (h : Same s s')
    (hs : Restoring whole pending written s) : Restoring whole pending written s' where
  notRejected := by rw [h.rejected]; exact hs.notRejected
  archive := by rw [h.configArchive]; exact hs.archive
  saved a ha := by
    rw [h.configArchive] at ha
    rw [h.saved, h.onlConfig]
    exact hs.saved a ha
  written := h.writtenBack_iff.trans hs.written

/-- The archive has been unpacked. -/
def restored (archive : Archive) (s : Installer) : Installer :=
  { s with configArchive := none, onlConfig := s.onlConfig ++ [archive] }

/-- Unpacking the pending archive writes all back that was saved if that is one archive. -/
theorem restoring_restored {whole pending written : Bool} {archive : Archive} {s : Installer}
    (hs : Restoring whole pending written s) (harch : s.configArchive = some archive) :
    Restoring whole false whole (restored archive s) where
  notRejected := hs.notRejected
  archive := rfl
  saved a ha := by cases ha
  written := by
    obtain ⟨hne, hnone, hwhole⟩ := hs.saved archive harch
    have hunpacked : (restored archive s).onlConfig = [archive] := by
      show s.onlConfig ++ [archive] = [archive]
      rw [hnone, List.nil_append]
    rw [← hwhole]
    constructor
    · rintro ⟨-, hall⟩ b hb
      have hmem := hall b hb
      rw [hunpacked] at hmem
      exact List.mem_singleton.mp hmem
    · intro hall
      refine ⟨hne, fun b hb => ?_⟩
      rw [hunpacked, hall b hb]
      exact List.mem_singleton_self archive

/-- The promise about the end of the loop, when what follows finishes or not. -/
structure Kept (finishes : Prop) (out : Except PyError Nat × Installer) : Prop where
  notRejected : out.2.rejected = false
  failed : out.1 ≠ .ok 0 ∨ ¬ finishes → WrittenBack out.2

/-- Where the run raises, the configuration is kept only if it was written already. -/
theorem kept_of_raises {finishes : Prop} {whole pending written : Bool} {err : PyError}
    {s : Installer} (hs : Restoring whole pending written s) :
    Kept finishes (.error err, s) ↔ written = true := by
  rw [← hs.written]
  exact ⟨fun h => h.failed (Or.inl nofun), fun h => ⟨hs.notRejected, fun _ => h⟩⟩

/-- An entry that does not restore. -/
theorem restoreStep_skips {label : Text} (restore : Restore) {s : Installer}
    (h : ¬ (label = "ONL-CONFIG".toList ∧ s.configArchive.isSome = true)) :
    restoreStep label restore s = (.ok (), s) := by
  unfold restoreStep
  rw [Prog.get_bind_apply]
  cases harch : s.configArchive with
  | none => rfl
  | some archive =>
      have hlabel : label ≠ "ONL-CONFIG".toList := fun hlabel => h ⟨hlabel, by rw [harch]; rfl⟩
      dsimp only
      rw [if_neg hlabel]
      rfl

/-- On the partition ONL-CONFIG the archive is restored. -/
theorem restoreStep_restores {restore : Restore} {archive : Archive} {s : Installer}
    (h : s.configArchive = some archive) :
    restoreStep "ONL-CONFIG".toList restore s = restoreConfig archive restore s := by
  unfold restoreStep
  rw [Prog.get_bind_apply, h]
  dsimp only
  rw [if_pos rfl]

section

variable {dev : Device} {calls : Nat → EntryCalls} {finishes : Prop} {whole : Bool}

/-- The loop goes on behind an entry that was restored. -/
theorem partitionLoop_of_restored {i : Nat} {e : SpecEntry} {rest : List SpecEntry}
    {s s₁ s₂ : Installer}
    (hentry : partitionEntry dev (calls i) e s =
      (restoreStep e.label (calls i).restore >>= fun _ => pure 0 : Inst Nat) s₁)
    (hrestore : restoreStep e.label (calls i).restore s₁ = (.ok (), s₂)) :
    partitionLoop dev calls i (e :: rest) s = partitionLoop dev calls (i + 1) rest s₂ := by
  have hzero : partitionEntry dev (calls i) e s = (.ok 0, s₂) := by
    rw [hentry, Prog.bind_of_ok hrestore]
    rfl
  rw [partitionLoop, Prog.bind_of_ok hzero, if_neg (fun hne => hne rfl)]

/-- The loop ends at an entry that raises. -/
theorem partitionLoop_of_raised {i : Nat} {e : SpecEntry} {rest : List SpecEntry}
    {s s₁ s₂ : Installer} {err : PyError}
    (hentry : partitionEntry dev (calls i) e s =
      (restoreStep e.label (calls i).restore >>= fun _ => pure 0 : Inst Nat) s₁)
    (hrestore : restoreStep e.label (calls i).restore s₁ = (.error err, s₂)) :
    partitionLoop dev calls i (e :: rest) s = (.error err, s₂) := by
  have herr : partitionEntry dev (calls i) e s = (.error err, s₂) := by
    rw [hentry, Prog.bind_of_error hrestore]
  rw [partitionLoop, Prog.bind_of_error herr]

/-- **The loop keeps the promise exactly when it recovers.** -/
theorem recovers_loop : ∀ (spec : List SpecEntry) (i : Nat) (pending written : Bool) (s : Installer),
    Restoring whole pending written s →
      (Kept finishes (partitionLoop dev calls i spec s) ↔
        Recovers dev calls finishes whole i (orOne s.nextBlock) pending written spec) := by
  intro spec
  induction spec with
  | nil =>
      intro i pending written s hs
      rw [Recovers, ← hs.written]
      constructor
      · intro h
        by_cases hfin : finishes
        · exact Or.inl hfin
        · exact Or.inr (h.failed (Or.inr hfin))
      · rintro h
        refine ⟨hs.notRejected, fun hfails => ?_⟩
        rcases h with hfin | hback
        · rcases hfails with hne | hnot
          · exact absurd rfl hne
          · exact absurd hfin hnot
        · exact hback
  | cons e rest ih =>
      intro i pending written s hs
      have hfate := partitionEntry_fate dev (calls i) e s
      rw [Recovers]
      cases hf : entryFate dev (calls i) (orOne s.nextBlock) e with
      | refused =>
          rw [hf] at hfate
          have hloop : partitionLoop dev calls i (e :: rest) s =
              (.ok 1, { s with rejected := true }) := by
            rw [partitionLoop, Prog.bind_of_ok hfate]
            rfl
          rw [hloop]
          refine ⟨fun h => ?_, fun h => h.elim⟩
          cases h.notRejected
      | raises =>
          rw [hf] at hfate
          obtain ⟨err, s₁, hsame, hentry⟩ := hfate
          rw [partitionLoop, Prog.bind_of_error hentry]
          exact kept_of_raises (hsame.restoring hs)
      | made geom =>
          rw [hf] at hfate
          obtain ⟨s₁, hsame, hnext, hentry⟩ := hfate
          have hs₁ := hsame.restoring hs
          dsimp only
          by_cases hpend : e.label = "ONL-CONFIG".toList ∧ pending = true
          · rw [if_pos hpend]
            obtain ⟨hlabel, hpending⟩ := hpend
            obtain ⟨archive, harch⟩ := Option.isSome_iff_exists.mp (hs₁.archive.trans hpending)
            have hrestore : restoreStep e.label (calls i).restore s₁ =
                restoreConfig archive (calls i).restore s₁ := by
              rw [hlabel]
              exact restoreStep_restores harch
            have hwrote := restoring_restored hs₁ harch
            cases hr : (calls i).restore with
            | ok =>
                have hstep : restoreStep e.label (calls i).restore s₁ =
                    (.ok (), restored archive s₁) := hrestore.trans (by rw [hr]; rfl)
                rw [partitionLoop_of_restored hentry hstep]
                show _ ↔ Recovers dev calls finishes whole (i + 1) (orOne (some (geom.last + 1)))
                  false whole rest
                rw [← hnext]
                exact ih (i + 1) false whole (restored archive s₁) hwrote
            | notUnpacked =>
                have hs₂ : Restoring whole false written { s₁ with configArchive := none } :=
                  ⟨hs₁.notRejected, rfl, (fun _ ha => by cases ha), hs₁.written⟩
                rw [partitionLoop_of_raised hentry (hrestore.trans (by rw [hr]; rfl))]
                exact kept_of_raises hs₂
            | unpacked =>
                rw [partitionLoop_of_raised hentry (hrestore.trans (by rw [hr]; rfl))]
                exact kept_of_raises hwrote
          · rw [if_neg hpend]
            have hskip := restoreStep_skips (calls i).restore
              (fun h => hpend ⟨h.1, hs₁.archive.symm.trans h.2⟩)
            rw [partitionLoop_of_restored hentry hskip, ← hnext]
            exact ih (i + 1) pending written s₁ hs₁

end

/-! ## The run as a whole -/

/-- What is kept does not depend on the rest of the state. -/
theorem kept_congr {fin fin' : Prop} {r r' : Except PyError Nat} {s s' : Installer}
    (hsame : Same s s') (hfails : (r ≠ .ok 0 ∨ ¬ fin) ↔ (r' ≠ .ok 0 ∨ ¬ fin')) :
    Kept fin (r, s) ↔ Kept fin' (r', s') := by
  constructor
  · intro h
    exact ⟨hsame.rejected.trans h.notRejected,
      fun hr => hsame.writtenBack_iff.mpr (h.failed (hfails.mpr hr))⟩
  · intro h
    exact ⟨hsame.rejected.symm.trans h.notRejected,
      fun hr => hsame.writtenBack_iff.mp (h.failed (hfails.mp hr))⟩

section

variable {m : Machine}

/-- The steps behind the partitioning leave the state alone. -/
theorem finish_apply (s : Installer) : ∃ r, finish m s = (r, s) ∧
    (r = .ok 0 ↔ (∃ dev, blkidNamed s.blkidParts "ONL-BOOT".toList = .ok dev) ∧
      ∀ c ∈ m.laterCalls, c = .ok 0) := by
  unfold finish
  rw [Prog.get_bind_apply]
  cases hboot : blkidNamed s.blkidParts "ONL-BOOT".toList with
  | error err => exact ⟨.error err, rfl, nofun, fun h => nomatch h.1⟩
  | ok dev =>
      obtain ⟨r, hr, hiff⟩ := Prog.steps_ofExcept s m.laterCalls
      exact ⟨r, hr, hiff.trans ⟨fun h => ⟨⟨dev, rfl⟩, h⟩, fun h => h.2⟩⟩

/-- The run behind the deletion is its loop. -/
theorem kept_of_loop {dev : Device} {spec : List SpecEntry} {s : Installer}
    (hparted : m.parted = some dev) (hspec : m.spec = some spec) :
    Kept True (Prog.steps (behindDeletion m) s) ↔
      Kept (Finishes m) (partitionLoop dev m.entries 0 spec s) := by
  have hpartition : (do
      let dev ← found m.parted
      partition m dev : Inst Nat) s = partitionParted dev m.entries m.blkidAfter spec s := by
    rw [hparted]
    show partition m dev s = _
    unfold partition
    rw [hspec]
    rfl
  unfold partitionParted at hpartition
  rcases hloop : partitionLoop dev m.entries 0 spec s with ⟨r, s₁⟩
  by_cases hr : r = .ok 0
  · rw [hr] at hloop ⊢
    rw [Prog.bind_of_ok hloop, if_neg (fun hne => hne rfl)] at hpartition
    cases hblkid : m.blkidAfter with
    | none =>
        rw [hblkid] at hpartition
        have hnot : ¬ Finishes m := by
          rintro ⟨parts, hparts, -⟩
          rw [hblkid] at hparts
          cases hparts
        rw [behindDeletion, Prog.steps_of_not_zero hpartition nofun]
        exact kept_congr (Same.refl s₁) ⟨fun _ => Or.inr hnot, fun _ => Or.inl nofun⟩
    | some parts =>
        rw [hblkid] at hpartition
        obtain ⟨r', hfinish, hiff⟩ := finish_apply (m := m) { s₁ with blkidParts := parts }
        have hfin : r' = .ok 0 ↔ Finishes m := by
          rw [hiff, Finishes, hblkid]
          exact ⟨fun h => ⟨parts, rfl, h⟩, fun ⟨_, hparts, h⟩ => by cases hparts; exact h⟩
        have htotal : Prog.steps (behindDeletion m) s = (r', { s₁ with blkidParts := parts }) := by
          rw [behindDeletion, Prog.steps_of_zero hpartition]
          by_cases hzero : r' = .ok 0
          · rw [hzero] at hfinish ⊢
            rw [Prog.steps_of_zero hfinish]
            rfl
          · rw [Prog.steps_of_not_zero hfinish hzero]
        rw [htotal]
        refine kept_congr ⟨rfl, rfl, rfl, rfl⟩ ?_
        rw [← hfin]
        exact ⟨fun h => Or.inr (h.resolve_right fun hnot => hnot trivial),
          fun h => Or.inl (h.resolve_left fun hne => hne rfl)⟩
  · have hfailed : (do
        let dev ← found m.parted
        partition m dev : Inst Nat) s = (r, s₁) := by
      rw [hpartition]
      cases r with
      | error err => exact Prog.bind_of_error hloop
      | ok code =>
          have hcode : code ≠ 0 := fun hzero => hr (by rw [hzero])
          rw [Prog.bind_of_ok hloop, if_pos hcode]
          rfl
    rw [behindDeletion, Prog.steps_of_not_zero hfailed hr]
    exact kept_congr (Same.refl s₁) ⟨fun _ => Or.inl hr, fun _ => Or.inl hr⟩

/-- **Behind a deletion**, the promise is kept exactly when the loop recovers. -/
theorem kept_behindDeletion {whole pending : Bool} {s : Installer}
    (hs : Restoring whole pending false s) :
    Kept True (Prog.steps (behindDeletion m) s) ↔
      ∃ dev spec, m.parted = some dev ∧ m.spec = some spec ∧
        Recovers dev m.entries (Finishes m) whole 0 (orOne s.nextBlock) pending false spec := by
  have hraises : ∀ err, Prog.steps (behindDeletion m) s = (.error err, s) →
      ¬ Kept True (Prog.steps (behindDeletion m) s) := by
    intro err herr h
    rw [herr] at h
    cases (kept_of_raises hs).mp h
  cases hparted : m.parted with
  | none =>
      refine ⟨fun h => absurd h (hraises .otherError ?_), fun ⟨_, _, h, _⟩ => nomatch h⟩
      rw [behindDeletion, hparted]
      rfl
  | some dev =>
      cases hspec : m.spec with
      | none =>
          refine ⟨fun h => absurd h (hraises .otherError ?_), fun ⟨_, _, _, h, _⟩ => nomatch h⟩
          rw [behindDeletion, hparted]
          have hnoSpec : partition m dev s = (.error .otherError, s) := by
            unfold partition
            rw [hspec]
            rfl
          exact Prog.steps_of_not_zero hnoSpec nofun [finish m]
      | some spec =>
          rw [kept_of_loop hparted hspec, recovers_loop spec 0 pending false s hs]
          exact ⟨fun h => ⟨dev, spec, rfl, rfl, h⟩, fun ⟨_, _, hd, hsp, h⟩ => by
            cases hd
            cases hsp
            exact h⟩

/-! ## The condition is exact -/

variable {parts : List PartedPart} {s : Installer}

/-- Where nothing goes, nothing is lost. -/
theorem recoverable_of_noneRemoved
    (h : NoneRemoved parts (installGpt m (.fresh parts)).2) : Recoverable m parts :=
  ⟨fun _ => Or.inl h, fun _ => h⟩

/-- With a partition removed, the rest of the promise has to hold. -/
theorem recoverable_iff_kept (h : ¬ NoneRemoved parts (installGpt m (.fresh parts)).2) :
    Recoverable m parts ↔ Kept True (installGpt m (.fresh parts)) := by
  constructor
  · intro hrec
    refine ⟨Bool.eq_false_iff.mpr fun hrej => h (hrec.refused hrej), fun hfails => ?_⟩
    have hne : (installGpt m (.fresh parts)).1 ≠ .ok 0 := hfails.resolve_right fun hn => hn trivial
    exact (hrec.failed hne).resolve_left h
  · intro hkept
    refine ⟨fun hfails => Or.inr (hkept.failed (Or.inl hfails)), fun hrej => ?_⟩
    rw [hkept.notRejected] at hrej
    cases hrej

/-- The run behind its preparation. -/
theorem installGpt_of_prepared (h : prepare m (.fresh parts) = (.ok 0, s)) :
    installGpt m (.fresh parts) =
      Prog.steps (deletePartitions m.deletes :: behindDeletion m) s :=
  Prog.steps_of_zero h _

/-- Nothing is deleted. -/
theorem kept_of_nothing (h : NothingToDelete s) : kept s = s.partedDisk.existing :=
  List.filter_eq_self.mpr h

@[simp] theorem cursorSet_table (s s' : Installer) : (cursorSet s s').table = s'.table := by
  unfold cursorSet
  dsimp only
  split <;> rfl

@[simp] theorem cursorSet_partedDisk (s s' : Installer) :
    (cursorSet s s').partedDisk = s'.partedDisk := by
  unfold cursorSet
  dsimp only
  split <;> rfl

/-- The cursor is no part of what is compared. -/
theorem same_cursorSet (s s' : Installer) : Same s' (cursorSet s s') := by
  unfold cursorSet
  dsimp only
  split <;> exact ⟨rfl, rfl, rfl, rfl⟩

/-- The cursor is where it was set. -/
theorem orOne_cursorSet {s' : Installer} (h : s'.nextBlock = s.nextBlock) :
    orOne (cursorSet s s').nextBlock = cursorBehind s := by
  unfold cursorSet cursorBehind
  dsimp only
  split
  · rfl
  · rw [h]

/-- The invariant in front of the loop. -/
theorem Untouched.restoring {table : PartTable} (h : Untouched table s) :
    Restoring (decide (OneContent s)) s.configArchive.isSome false s where
  notRejected := h.notRejected
  archive := rfl
  saved a ha := by
    refine ⟨fun hnil => ?_, h.notRestored, ?_⟩
    · rw [h.archive, hnil] at ha
      cases ha
    · rw [decide_eq_true_iff, OneContent, ha]
      exact ⟨fun hall b hb => by rw [hall b hb], fun hall b hb => (Option.some.inj (hall b hb)).symm⟩
  written := by
    refine ⟨fun ⟨hne, hall⟩ => ?_, nofun⟩
    obtain ⟨a, ha⟩ := List.exists_mem_of_ne_nil _ hne
    have hmem := hall a ha
    rw [h.notRestored] at hmem
    cases hmem

/-- **What was saved is what is pending** exactly when the ONL-CONFIGs of the boot device all have
    the same contents, as when there is at most one. -/
theorem oneContent_iff {device : Text} (h : prepare m (.fresh parts) = (.ok 0, s))
    (hdevice : s.device = some device) :
    OneContent s ↔ ∀ a ∈ configsOf m device s.blkidParts, ∀ b ∈ configsOf m device s.blkidParts,
      a = b := by
  have hsaved : s.saved = configsOf m device s.blkidParts := (savedOf_prepare h) device hdevice
  have harchive := (untouched_prepare h).archive
  rw [← hsaved]
  constructor
  · intro hone a ha b hb
    exact Option.some.inj ((hone a ha).symm.trans (hone b hb))
  · intro hall a ha
    have hlast := List.getLast?_eq_some_getLast (List.ne_nil_of_mem ha)
    rw [harchive, hlast]
    exact congrArg some (hall _ (List.getLast_mem _) a ha)

/-- The condition behind a preparation that succeeds. -/
theorem recoverableWhen_of_prepared (h : prepare m (.fresh parts) = (.ok 0, s)) :
    RecoverableWhen m parts ↔ NothingToDelete s ∨ m.deletes.commit = .notWritten ∨
      (m.deletes.commit = .ok ∧ m.deletes.partprobe = true ∧
        ∃ dev spec, m.parted = some dev ∧ m.spec = some spec ∧ Recovers dev m.entries (Finishes m)
          (decide (OneContent s)) 0 (cursorBehind s) s.configArchive.isSome false spec) := by
  refine ⟨fun hwhen => hwhen s h, fun hwhen s' hs' => ?_⟩
  rw [h] at hs'
  cases hs'
  exact hwhen

/-- What the deletion finds. -/
theorem existing_of_prepared (h : prepare m (.fresh parts) = (.ok 0, s)) :
    s.partedDisk.existing = parts := by
  rw [show s.partedDisk = s.table from read_prepare h, (untouched_prepare h).table]

/-- One of the partitions that are deleted. -/
theorem deleted_of_prepared (h : prepare m (.fresh parts) = (.ok 0, s))
    (hdelete : ¬ NothingToDelete s) : ∃ p ∈ parts, p ∉ kept s := by
  obtain ⟨p, hp⟩ := Classical.not_forall.mp hdelete
  obtain ⟨hp, hnot⟩ := Classical.not_imp.mp hp
  rw [existing_of_prepared h] at hp
  exact ⟨p, hp, fun hmem => hnot (List.mem_filter.mp hmem).2⟩

/-- An install that stops in front of the deletion. -/
theorem recoverable_stopped {r : Except PyError Nat} (h : prepare m (.fresh parts) = (r, s))
    (hr : r ≠ .ok 0) : Recoverable m parts := by
  refine recoverable_of_noneRemoved ?_
  rw [installGpt, Prog.steps_of_not_zero h hr]
  intro p hp
  show p ∈ s.table.existing
  rw [(untouched_prepare h).table]
  exact hp

/-- Nothing is deleted, and nothing that follows removes a partition. -/
theorem recoverable_nothing (h : prepare m (.fresh parts) = (.ok 0, s))
    (hnothing : NothingToDelete s) : Recoverable m parts := by
  refine recoverable_of_noneRemoved ?_
  rw [installGpt_of_prepared h, Prog.steps_of_zero (deletePartitions_nothing hnothing _)]
  have hstart : Existing (· = parts) (cursorSet s (examined s)) := by
    constructor
    · rw [cursorSet_table]
      show s.table.existing = parts
      rw [(untouched_prepare h).table]
    · rw [cursorSet_partedDisk]
      show kept s = parts
      rw [kept_of_nothing hnothing, existing_of_prepared h]
  intro p hp
  rw [(keeps_existing (m := m) _ hstart).1]
  exact hp

/-- The deletion does not get to the device. -/
theorem recoverable_notWritten (h : prepare m (.fresh parts) = (.ok 0, s))
    (hdelete : ¬ NothingToDelete s) (hcommit : m.deletes.commit = .notWritten) :
    Recoverable m parts := by
  refine recoverable_of_noneRemoved ?_
  rw [installGpt_of_prepared h,
    Prog.steps_of_not_zero (deletePartitions_notWritten hdelete hcommit) nofun]
  intro p hp
  show p ∈ s.table.existing
  rw [(untouched_prepare h).table]
  exact hp

/-- The deletion gets to the device, and fails: what it removed is lost. -/
theorem not_recoverable_failed (h : prepare m (.fresh parts) = (.ok 0, s))
    (hdelete : ¬ NothingToDelete s) (hcommit : m.deletes.commit ≠ .notWritten)
    (hfails : ¬ (m.deletes.commit = .ok ∧ m.deletes.partprobe = true)) : ¬ Recoverable m parts := by
  obtain ⟨err, hfailed⟩ := deletePartitions_failed hdelete hcommit hfails
  obtain ⟨p, hp, hgone⟩ := deleted_of_prepared h hdelete
  have hrun : installGpt m (.fresh parts) = (.error err, committed (examined s)) := by
    rw [installGpt_of_prepared h, Prog.steps_of_not_zero hfailed nofun]
  intro hrec
  have hfailed := hrec.failed
  rw [hrun] at hfailed
  rcases hfailed nofun with hnone | ⟨hne, hall⟩
  · exact hgone (hnone p hp)
  · obtain ⟨a, ha⟩ := List.exists_mem_of_ne_nil _ hne
    have hrestored : a ∈ s.onlConfig := hall a ha
    rw [(untouched_prepare h).notRestored] at hrestored
    cases hrestored

/-- The deletion gets through: the loop has to recover. -/
theorem recoverable_deleted (h : prepare m (.fresh parts) = (.ok 0, s))
    (hdelete : ¬ NothingToDelete s) (hcommit : m.deletes.commit = .ok)
    (hprobe : m.deletes.partprobe = true) :
    Recoverable m parts ↔ ∃ dev spec, m.parted = some dev ∧ m.spec = some spec ∧
      Recovers dev m.entries (Finishes m) (decide (OneContent s)) 0 (cursorBehind s)
        s.configArchive.isSome false spec := by
  obtain ⟨p, hp, hgone⟩ := deleted_of_prepared h hdelete
  have hrun : installGpt m (.fresh parts) =
      Prog.steps (behindDeletion m) (cursorSet s (committed (examined s))) := by
    rw [installGpt_of_prepared h,
      Prog.steps_of_zero (deletePartitions_written hdelete hcommit hprobe)]
  have hstart : Existing (p ∉ ·) (cursorSet s (committed (examined s))) := by
    constructor
    · rw [cursorSet_table]
      exact hgone
    · rw [cursorSet_partedDisk]
      exact hgone
  have hremoved : ¬ NoneRemoved parts (installGpt m (.fresh parts)).2 := by
    rw [hrun]
    exact fun hnone => (keeps_existing (m := m) _ hstart).1 (hnone p hp)
  have hdeleted : Same s (committed (examined s)) := ⟨rfl, rfl, rfl, rfl⟩
  have hrestoring := (same_cursorSet s (committed (examined s))).restoring
    (hdeleted.restoring (untouched_prepare h).restoring)
  have hcursor : orOne (cursorSet s (committed (examined s))).nextBlock = cursorBehind s :=
    orOne_cursorSet rfl
  rw [recoverable_iff_kept hremoved, hrun, kept_behindDeletion hrestoring, hcursor]

/-- **An install that fails leaves the disk or ONL-CONFIG recoverable, and a spec that is refused
    deletes nothing, exactly when** `RecoverableWhen`. -/
theorem recoverable_iff (m : Machine) (parts : List PartedPart) :
    Recoverable m parts ↔ RecoverableWhen m parts := by
  rcases hprep : prepare m (.fresh parts) with ⟨r, s⟩
  by_cases hr : r = .ok 0
  · rw [hr] at hprep
    rw [recoverableWhen_of_prepared hprep]
    by_cases hnothing : NothingToDelete s
    · exact iff_of_true (recoverable_nothing hprep hnothing) (Or.inl hnothing)
    by_cases hnotWritten : m.deletes.commit = .notWritten
    · exact iff_of_true (recoverable_notWritten hprep hnothing hnotWritten)
        (Or.inr (Or.inl hnotWritten))
    by_cases hthrough : m.deletes.commit = .ok ∧ m.deletes.partprobe = true
    · rw [recoverable_deleted hprep hnothing hthrough.1 hthrough.2]
      exact ⟨fun h => Or.inr (Or.inr ⟨hthrough.1, hthrough.2, h⟩),
        fun h => ((h.resolve_left hnothing).resolve_left hnotWritten).2.2⟩
    · refine iff_of_false (not_recoverable_failed hprep hnothing hnotWritten hthrough) fun h => ?_
      obtain ⟨hok, hprobe, -⟩ := (h.resolve_left hnothing).resolve_left hnotWritten
      exact hthrough ⟨hok, hprobe⟩
  · refine iff_of_true (recoverable_stopped hprep hr) fun s' hs' => ?_
    rw [hprep] at hs'
    cases hs'
    exact absurd rfl hr

end

/-! ## A spec with an unknown unit -/

/-- A partition that is kept. -/
def onieBoot : PartedPart :=
  ⟨1, "/dev/sda1".toList, some "ONIE-BOOT".toList, false, ⟨34, 67⟩⟩

/-- A partition with a configuration. -/
def onlConfigPart : PartedPart :=
  ⟨2, "/dev/sda2".toList, some "ONL-CONFIG".toList, false, ⟨101, 50⟩⟩

/-- A disk with ONIE and ONL-CONFIG, where every call succeeds; the spec has a size in `TB`. -/
def unknownUnit : Machine where
  blkid := some [⟨"/dev/sda1".toList, some "ONIE-BOOT".toList, none⟩,
    ⟨"/dev/sda2".toList, some "ONL-CONFIG".toList, none⟩]
  grubDevice := some "ONIE-BOOT".toList
  isUEFI := false
  mounts := some []
  force := true
  parted := some smallDisk
  isGpt := true
  gdisk := none
  spec := some [⟨"ONL-CONFIG".toList, .size "1TB".toList⟩]
  blkidAfter := some []
  zipFile := true
  loadPlugins := .ok 0
  preinstall := 0
  umount _ := true
  backup _ := some [1, 2, 3]
  deletes := goodDeletes
  entries := goodCalls
  installSwi := .ok 0
  installLoader := .ok 0
  installGrubCfg := .ok 0
  installBootConfig := .ok 0
  installOnlConfig := .ok 0
  installGrub := .ok 0
  postinstall := 0

/-- The spec is refused, with ONL-CONFIG removed and its contents not written back. -/
theorem unknownUnit_lost : ¬ Recoverable unknownUnit [onieBoot, onlConfigPart] := by
  intro hrec
  have hfails : (installGpt unknownUnit (.fresh [onieBoot, onlConfigPart])).1.toOption = some 1 := by
    decide +kernel
  have hkept : (installGpt unknownUnit (.fresh [onieBoot, onlConfigPart])).2.table.existing =
      [onieBoot] := by
    decide +kernel
  have hlost : (installGpt unknownUnit (.fresh [onieBoot, onlConfigPart])).2.onlConfig = [] := by
    decide +kernel
  have hne : Fails (installGpt unknownUnit (.fresh [onieBoot, onlConfigPart])).1 := fun hzero => by
    rw [hzero] at hfails
    exact absurd hfails (by decide)
  rcases hrec.failed hne with hnone | ⟨hsaved, hall⟩
  · have hmem := hnone onlConfigPart (List.mem_cons_of_mem _ List.mem_cons_self)
    rw [hkept] at hmem
    exact absurd hmem (by decide)
  · obtain ⟨a, ha⟩ := List.exists_mem_of_ne_nil _ hsaved
    have hmem := hall a ha
    rw [hlost] at hmem
    cases hmem

end DentOS.Install
