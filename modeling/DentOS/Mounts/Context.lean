/-
  `MountManager` and `MountContext` (onl/mounts/__init__.py): a device is mounted for the body of a
  `with`, and what was mounted before is put back.

  The mount table is that of /proc/mounts, oldest entry first.  A `mount` that succeeds appends an
  entry, a remount gives the entry in front at its directory another mode, and `umount` takes that
  entry away; which of the commands succeed is a parameter.  `read_proc_mounts` keeps one entry for
  each directory, the last; the order in which `iteritems` visits them is a parameter (`DirOrder`).

  Not modelled: the log, and the five seconds that `mount` waits for a command that succeeded to show
  in /proc/mounts, where it shows at once.
-/
import DentOS.Lib.PyText
import Mathlib.Data.List.Dedup

namespace DentOS.Mounts

open PyText

/-! ## The mount table, and what is on top of a directory -/

/-- How a device is mounted. -/
inductive Mode where
  | ro
  | rw
  deriving DecidableEq

/-- A line of /proc/mounts. -/
structure Entry where
  device : Text
  dir : Text
  mode : Mode
  deriving DecidableEq

/-- /proc/mounts, the latest mount last. -/
abbrev Table := List Entry

/-- The entry in front at a directory: the last one. -/
def lastAt (dir : Text) : Table → Option Entry
  | [] => none
  | e :: es => (lastAt dir es).or (if e.dir = dir then some e else none)

/-- Put `g e` in the place of that entry. -/
def replaceLast (dir : Text) (g : Entry → Table) : Table → Table
  | [] => []
  | e :: es =>
      if (lastAt dir es).isSome then e :: replaceLast dir g es
      else if e.dir = dir then g e ++ es
      else e :: es

/-- `mount -o mode,remount device dir`. -/
def remount (dir : Text) (mode : Mode) : Table → Table :=
  replaceLast dir fun e => [{ e with mode := mode }]

/-- `umount dir`. -/
def unmount (dir : Text) : Table → Table := replaceLast dir fun _ => []

/-- The last mount at a directory, of two tables. -/
theorem lastAt_append (dir : Text) (es es' : Table) :
    lastAt dir (es ++ es') = (lastAt dir es').or (lastAt dir es) := by
  induction es with
  | nil => rw [List.nil_append, lastAt, Option.or_none]
  | cons e es ih => rw [List.cons_append, lastAt, ih, lastAt, Option.or_assoc]

/-- The last mount at a directory is at the directory. -/
theorem dir_of_lastAt {dir : Text} {table : Table} {e : Entry} (h : lastAt dir table = some e) :
    e.dir = dir := by
  induction table with
  | nil => cases h
  | cons e' es ih =>
      rw [lastAt, Option.or_eq_some_iff] at h
      rcases h with h | ⟨-, h⟩
      · exact ih h
      · split at h
        · next hdir =>
            cases h
            exact hdir
        · cases h

/-- The last mount at a directory is in the table. -/
theorem mem_of_lastAt {dir : Text} {table : Table} {e : Entry} (h : lastAt dir table = some e) :
    e ∈ table := by
  induction table with
  | nil => cases h
  | cons e' es ih =>
      rw [lastAt, Option.or_eq_some_iff] at h
      rcases h with h | ⟨-, h⟩
      · exact List.mem_cons_of_mem e' (ih h)
      · split at h
        · cases h
          exact List.mem_cons_self
        · cases h

/-- A mount that is undone. -/
theorem unmount_append (table : Table) (e : Entry) : unmount e.dir (table ++ [e]) = table := by
  have hlast : ∀ es : Table, (lastAt e.dir (es ++ [e])).isSome = true := by
    intro es
    rw [lastAt_append, lastAt, lastAt, if_pos rfl]
    rfl
  induction table with
  | nil =>
      rw [List.nil_append, unmount, replaceLast, if_neg (by rw [lastAt]; decide), if_pos rfl]
      rfl
  | cons e' es ih =>
      rw [List.cons_append, unmount, replaceLast, if_pos (hlast es)]
      exact congrArg (e' :: ·) ih

/-- What is last at a directory behind a remount. -/
theorem lastAt_remount (dir : Text) (mode : Mode) (table : Table) (d : Text) :
    lastAt d (remount dir mode table) =
      (lastAt d table).map fun e => if d = dir then { e with mode := mode } else e := by
  induction table with
  | nil => rfl
  | cons e es ih =>
      rw [remount, replaceLast]
      by_cases hlater : (lastAt dir es).isSome = true
      · rw [if_pos hlater, lastAt]
        have ih' : lastAt d (replaceLast dir (fun e => [{ e with mode := mode }]) es) = _ := ih
        rw [ih', lastAt]
        by_cases hd : d = dir
        · subst hd
          obtain ⟨e', he'⟩ := Option.isSome_iff_exists.mp hlater
          rw [he']
          rfl
        · simp only [if_neg hd, Option.map_id']
      · rw [if_neg hlater]
        have hnone : lastAt dir es = none := Option.not_isSome_iff_eq_none.mp hlater
        by_cases he : e.dir = dir
        · rw [if_pos he, List.singleton_append, lastAt, lastAt]
          by_cases hd : d = dir
          · subst hd
            rw [hnone]
            simp only [he, if_true, Option.none_or, Option.map_some]
          · have hne : e.dir ≠ d := fun h => hd (h ▸ he)
            simp only [if_neg hd, Option.map_id', if_neg hne]
        · rw [if_neg he]
          by_cases hd : d = dir
          · subst hd
            rw [lastAt, hnone, if_neg he]
            rfl
          · simp only [if_neg hd, Option.map_id']

/-- **A remount that is undone.** -/
theorem remount_remount {dir : Text} {table : Table} {e : Entry} (h : lastAt dir table = some e)
    (mode : Mode) : remount dir e.mode (remount dir mode table) = table := by
  induction table with
  | nil => cases h
  | cons e' es ih =>
      rw [lastAt] at h
      by_cases hlater : (lastAt dir es).isSome = true
      · have hes : lastAt dir es = some e := by
          obtain ⟨e'', he''⟩ := Option.isSome_iff_exists.mp hlater
          rw [he''] at h ⊢
          exact h
        have hstill : (lastAt dir (remount dir mode es)).isSome = true := by
          rw [lastAt_remount, hes]
          rfl
        rw [remount, remount, replaceLast, if_pos hlater, replaceLast]
        have hstill' : (lastAt dir (replaceLast dir (fun e => [{ e with mode := mode }]) es)).isSome =
            true := hstill
        rw [if_pos hstill']
        exact congrArg (e' :: ·) (ih hes)
      · have hnone : lastAt dir es = none := Option.not_isSome_iff_eq_none.mp hlater
        rw [hnone, Option.none_or] at h
        split at h
        · next he =>
            cases h
            rw [remount, remount, replaceLast, if_neg hlater, if_pos he, List.singleton_append,
              replaceLast, if_neg hlater, if_pos he]
            rfl
        · cases h

/-! ## The manager: what it reads, and the command it gives -/

/-- The order in which `self.mounts.iteritems()` visits the directories. -/
structure DirOrder where
  /-- The directories in the order they are visited. -/
  dirs : List Text → List Text
  /-- Each of them is visited once. -/
  perm : ∀ l, (dirs l).Perm l

/-- The mount table, and what `read_proc_mounts` last saw of it. -/
structure World where
  /-- The kernel's mount table. -/
  table : Table
  /-- What was last seen of it. -/
  mounts : Table

/-- `ProcMountsParser()`: the table is read. -/
def readProcMounts (w : World) : World := { w with mounts := w.table }

/-- `is_mounted`: `self.mounts[directory]`, if it is of the device. -/
def isMounted (device dir : Text) (w : World) : Option Entry × World :=
  let w := readProcMounts w
  ((lastAt dir w.mounts).filter fun e => e.device = device, w)

variable (order : DirOrder)

/-- `[x for x in self.mounts.iteritems() if x[1]['dev'] == device]`. -/
def currentItems (device : Text) (mounts : Table) : List Entry :=
  (order.dirs (mounts.map Entry.dir).dedup).filterMap fun dir =>
    (lastAt dir mounts).filter fun e => e.device = device

/-- A command that `mount` runs. -/
structure MountCommand where
  /-- `mount -o remount`. -/
  remount : Bool
  /-- `mount -t ubifs`. -/
  ubifs : Bool
  /-- The directory. -/
  dir : Text

/-- `device.find('ubi') >= 0`. -/
def isUbi (device : Text) : Bool := device.tails.any ("ubi".toList.isPrefixOf ·)

/-- What `mount` decides to do from the first item of the device, if there is one. -/
def mountPlan (device dir : Text) (mode : Mode) (mounts : Table) : Option MountCommand :=
  match (currentItems order device mounts).head? with
  | some current =>
      if current.mode = mode then none
      else if dir ≠ current.dir then some ⟨true, isUbi device, current.dir⟩
      else some ⟨true, isUbi device, dir⟩
  | none => some ⟨false, isUbi device, dir⟩

/-- What the command does to the table. -/
def MountCommand.run (cmd : MountCommand) (device : Text) (mode : Mode) (table : Table) : Table :=
  if cmd.remount then DentOS.Mounts.remount cmd.dir mode table
  else table ++ [⟨device, cmd.dir, mode⟩]

/-- `mount`: whether it returns True, and the world after it.  `ok` is the success of the command. -/
def mount (ok : Bool) (device dir : Text) (mode : Mode) (w : World) : Bool × World :=
  match mountPlan order device dir mode w.mounts with
  | none => (true, w)
  | some cmd =>
      if ok then
        match isMounted device cmd.dir { w with table := cmd.run device mode w.table } with
        | (current, w) => (current.isSome, w)
      else (false, w)

/-- `umount`. -/
def umount (ok : Bool) (device dir : Text) (w : World) : Bool × World :=
  match isMounted device dir w with
  | (none, w) => (false, w)
  | (some _, w) =>
      if ok then (true, readProcMounts { w with table := unmount dir w.table })
      else (false, w)

/-! ## The context: mount, and unmount what was mounted -/

/-- The arguments of the context. -/
structure Context where
  /-- The device to mount. -/
  device : Text
  /-- The directory it is wanted on. -/
  dir : Text
  /-- `r` or `w`. -/
  mode : Mode

/-- `__enter__`: `self.status`, and the world.  What `mount` returns is not looked at. -/
def enter (ctx : Context) (ok : Bool) (w : World) : Option Entry × World :=
  match isMounted ctx.device ctx.dir w with
  | (status, w) => (status, (mount order ok ctx.device ctx.dir ctx.mode w).2)

/-- `__exit__`, which does not look at how the body ended. -/
def exit (ctx : Context) (ok : Bool) (status : Option Entry) (w : World) : World :=
  match status with
  | some status => (mount order ok ctx.device ctx.dir status.mode w).2
  | none => (umount ok ctx.device ctx.dir w).2

/-- The world in the body.  `__init__` has read the table. -/
def inside (ctx : Context) (enterOk : Bool) (table : Table) : Option Entry × World :=
  enter order ctx enterOk ⟨table, table⟩

/-- The table after the `with`, for a body that mounts nothing. -/
def after (ctx : Context) (enterOk exitOk : Bool) (table : Table) : Table :=
  (exit order ctx exitOk (inside order ctx enterOk table).1 (inside order ctx enterOk table).2).table

/-- The device is at the directory with the mode in the body, and, where the commands succeed, the
    table is the same behind it. -/
def BorrowsAndRestores (ctx : Context) (enterOk : Bool) (table : Table) : Prop :=
  lastAt ctx.dir (inside order ctx enterOk table).2.table = some ⟨ctx.device, ctx.dir, ctx.mode⟩ ∧
    (enterOk = true → after order ctx enterOk true table = table)

/-- The requested mount is there already. -/
def AsRequested (ctx : Context) (table : Table) : Prop :=
  lastAt ctx.dir table = some ⟨ctx.device, ctx.dir, ctx.mode⟩

/-- The first item of the device, and the command, are as the context needs them. -/
def Borrowable (ctx : Context) (enterOk : Bool) (table : Table) : Prop :=
  match (currentItems order ctx.device table).head? with
  | none => enterOk = true
  | some current =>
      if current.mode = ctx.mode then AsRequested ctx table
      else if current.dir = ctx.dir then enterOk = true
      else AsRequested ctx table ∧ enterOk = false

/-! ## The items of a device, in the order of the dictionary -/

variable {order}

/-- The first item is of the device, and the last at its directory. -/
theorem head_currentItems {device : Text} {table : Table} {e : Entry}
    (h : (currentItems order device table).head? = some e) :
    e.device = device ∧ lastAt e.dir table = some e := by
  obtain ⟨dir, -, he⟩ := List.mem_filterMap.mp (List.mem_of_mem_head? h)
  rw [Option.filter_eq_some_iff] at he
  exact ⟨of_decide_eq_true he.2, by rw [dir_of_lastAt he.1]; exact he.1⟩

/-- A device that is in front at a directory is among its items. -/
theorem currentItems_ne_nil {dir : Text} {table : Table} {e : Entry}
    (h : lastAt dir table = some e) : (currentItems order e.device table).head? ≠ none := by
  have hdir : dir ∈ order.dirs (table.map Entry.dir).dedup := by
    rw [(order.perm _).mem_iff, List.mem_dedup, ← dir_of_lastAt h]
    exact List.mem_map_of_mem (mem_of_lastAt h)
  have hitem : e ∈ currentItems order e.device table := by
    refine List.mem_filterMap.mpr ⟨dir, hdir, ?_⟩
    rw [h, Option.filter_some, if_pos (decide_eq_true rfl)]
  intro hnone
  rw [List.head?_eq_none_iff.mp hnone] at hitem
  exact absurd hitem List.not_mem_nil

/-- A remount mounts nowhere else. -/
theorem dirs_remount (dir : Text) (mode : Mode) (table : Table) :
    (remount dir mode table).map Entry.dir = table.map Entry.dir := by
  induction table with
  | nil => rfl
  | cons e es ih =>
      rw [remount, replaceLast]
      split
      · rw [List.map_cons, List.map_cons]
        exact congrArg (e.dir :: ·) ih
      · split
        · rfl
        · rfl

/-- A remount changes the mode of one item, and not the order of the items. -/
theorem currentItems_remount (dir : Text) (mode : Mode) (device : Text) (table : Table) :
    currentItems order device (remount dir mode table) =
      (currentItems order device table).map fun e =>
        if e.dir = dir then { e with mode := mode } else e := by
  rw [currentItems, currentItems, dirs_remount, List.map_filterMap]
  refine List.filterMap_congr fun d _ => ?_
  rw [lastAt_remount]
  rcases hd : lastAt d table with _ | e
  · rfl
  · obtain rfl := dir_of_lastAt hd
    rw [Option.map_some, Option.filter_some, Option.filter_some]
    by_cases hdev : e.device = device
    · have hdev' : (if e.dir = dir then { e with mode := mode } else e).device = device := by
        split <;> exact hdev
      rw [if_pos (decide_eq_true hdev), if_pos (decide_eq_true hdev')]
      rfl
    · have hdev' : (if e.dir = dir then { e with mode := mode } else e).device ≠ device := by
        split <;> exact hdev
      rw [if_neg (fun h => hdev (of_decide_eq_true h)),
        if_neg (fun h => hdev' (of_decide_eq_true h))]
      rfl

/-! ## One call of `mount` -/

/-- Nothing is run where the first item has the mode. -/
theorem mountPlan_same {device dir : Text} {mode : Mode} {table : Table} {current : Entry}
    (h : (currentItems order device table).head? = some current) (hmode : current.mode = mode) :
    mountPlan order device dir mode table = none := by
  rw [mountPlan, h]
  exact if_pos hmode

/-- The first item is remounted where it has not. -/
theorem mountPlan_other {device dir : Text} {mode : Mode} {table : Table} {current : Entry}
    (h : (currentItems order device table).head? = some current) (hmode : current.mode ≠ mode) :
    mountPlan order device dir mode table = some ⟨true, isUbi device, current.dir⟩ := by
  rw [mountPlan, h]
  show (if current.mode = mode then none else _) = _
  rw [if_neg hmode]
  by_cases hdir : dir = current.dir
  · rw [if_neg (fun hne => hne hdir), hdir]
  · rw [if_pos hdir]

/-- Nothing is to be done. -/
theorem mount_nothing {device dir : Text} {mode : Mode} {w : World} (ok : Bool)
    (h : mountPlan order device dir mode w.mounts = none) :
    mount order ok device dir mode w = (true, w) := by
  rw [mount, h]

/-- The command fails. -/
theorem mount_failed {device dir : Text} {mode : Mode} {w : World} {cmd : MountCommand}
    (h : mountPlan order device dir mode w.mounts = some cmd) :
    mount order false device dir mode w = (false, w) := by
  rw [mount, h]
  rfl

/-- The command succeeds, and the table is read again. -/
theorem mount_ran {device dir : Text} {mode : Mode} {w : World} {cmd : MountCommand}
    (h : mountPlan order device dir mode w.mounts = some cmd) :
    (mount order true device dir mode w).2 =
      ⟨cmd.run device mode w.table, cmd.run device mode w.table⟩ := by
  rw [mount, h]
  rfl

/-! ## The four cases, by where the device is mounted -/

variable {ctx : Context} {enterOk : Bool} {table : Table}

/-- The device is nowhere: it is mounted, and unmounted. -/
theorem borrows_unmounted (hnone : (currentItems order ctx.device table).head? = none) :
    BorrowsAndRestores order ctx enterOk table ↔ enterOk = true := by
  have hplan : mountPlan order ctx.device ctx.dir ctx.mode table =
      some ⟨false, isUbi ctx.device, ctx.dir⟩ := by
    rw [mountPlan, hnone]
  have hstatus : (lastAt ctx.dir table).filter (fun e => decide (e.device = ctx.device)) = none := by
    rw [Option.filter_eq_none_iff]
    intro e he hdev
    have hne : (currentItems order e.device table).head? ≠ none := currentItems_ne_nil he
    rw [of_decide_eq_true hdev] at hne
    exact hne hnone
  cases enterOk with
  | false =>
      have hinside : (inside order ctx false table).2.table = table := by
        show (mount order false _ _ _ ⟨table, table⟩).2.table = table
        rw [mount_failed hplan]
      refine ⟨fun h => ?_, fun h => absurd h (by decide)⟩
      have hlast := h.1
      rw [hinside] at hlast
      rw [hlast] at hstatus
      exact absurd hstatus (by simp)
  | true =>
      have hinside : (inside order ctx true table).2 =
          ⟨table ++ [⟨ctx.device, ctx.dir, ctx.mode⟩], table ++ [⟨ctx.device, ctx.dir, ctx.mode⟩]⟩ := by
        show (mount order true _ _ _ ⟨table, table⟩).2 = _
        rw [mount_ran hplan]
        rfl
      have hlast : lastAt ctx.dir (table ++ [⟨ctx.device, ctx.dir, ctx.mode⟩]) =
          some ⟨ctx.device, ctx.dir, ctx.mode⟩ := by
        rw [lastAt_append, lastAt, lastAt, if_pos rfl]
        rfl
      refine ⟨fun _ => rfl, fun _ => ⟨by rw [hinside]; exact hlast, ?_⟩⟩
      intro _
      have hnostatus : (inside order ctx true table).1 = none := hstatus
      rw [after, hnostatus, hinside]
      show (umount true ctx.device ctx.dir _).2.table = table
      rw [umount, isMounted]
      simp only [readProcMounts, hlast, Option.filter_some, decide_true, if_true]
      exact unmount_append table ⟨ctx.device, ctx.dir, ctx.mode⟩

variable {current : Entry}

/-- The first item has the mode: nothing is run on the way in. -/
theorem borrows_same (h : (currentItems order ctx.device table).head? = some current)
    (hmode : current.mode = ctx.mode) :
    BorrowsAndRestores order ctx enterOk table ↔ AsRequested ctx table := by
  have hinside : (inside order ctx enterOk table).2 = ⟨table, table⟩ := by
    show (mount order enterOk _ _ _ ⟨table, table⟩).2 = _
    rw [mount_nothing enterOk (mountPlan_same h hmode)]
  rw [BorrowsAndRestores, hinside]
  refine ⟨fun hb => hb.1, fun hreq => ⟨hreq, ?_⟩⟩
  intro _
  have hstatus : (inside order ctx enterOk table).1 = some ⟨ctx.device, ctx.dir, ctx.mode⟩ := by
    show (lastAt ctx.dir table).filter _ = _
    rw [hreq, Option.filter_some, if_pos (decide_eq_true rfl)]
  rw [after, hinside, hstatus]
  show (mount order true ctx.device ctx.dir ctx.mode ⟨table, table⟩).2.table = table
  rw [mount_nothing true (mountPlan_same h hmode)]

/-- The first item is at the directory, with the other mode: it is remounted, and remounted back. -/
theorem borrows_here (h : (currentItems order ctx.device table).head? = some current)
    (hmode : current.mode ≠ ctx.mode) (hdir : current.dir = ctx.dir) :
    BorrowsAndRestores order ctx enterOk table ↔ enterOk = true := by
  have hplan : mountPlan order ctx.device ctx.dir ctx.mode table =
      some ⟨true, isUbi ctx.device, current.dir⟩ := mountPlan_other h hmode
  obtain ⟨hdev, hlast⟩ := head_currentItems h
  rw [hdir] at hlast hplan
  cases enterOk with
  | false =>
      have hinside : (inside order ctx false table).2.table = table := by
        show (mount order false _ _ _ ⟨table, table⟩).2.table = table
        rw [mount_failed hplan]
      refine ⟨fun hb => ?_, fun hf => absurd hf (by decide)⟩
      have hreq := hb.1
      rw [hinside, hlast] at hreq
      exact absurd (congrArg Entry.mode (Option.some.inj hreq)) hmode
  | true =>
      have hinside : (inside order ctx true table).2 =
          ⟨remount ctx.dir ctx.mode table, remount ctx.dir ctx.mode table⟩ := by
        show (mount order true _ _ _ ⟨table, table⟩).2 = _
        rw [mount_ran hplan]
        rfl
      have hstatus : (inside order ctx true table).1 = some current := by
        show (lastAt ctx.dir table).filter _ = _
        rw [hlast, Option.filter_some, if_pos (decide_eq_true hdev)]
      refine ⟨fun _ => rfl, fun _ => ⟨?_, ?_⟩⟩
      · rw [hinside]
        show lastAt ctx.dir (remount ctx.dir ctx.mode table) = _
        rw [lastAt_remount, hlast, Option.map_some, if_pos rfl, hdev, hdir]
      · intro _
        have hhead : (currentItems order ctx.device (remount ctx.dir ctx.mode table)).head? =
            some { current with mode := ctx.mode } := by
          rw [currentItems_remount, List.head?_map, h, Option.map_some, if_pos hdir]
        have hback : mountPlan order ctx.device ctx.dir current.mode (remount ctx.dir ctx.mode table) =
            some ⟨true, isUbi ctx.device, ({ current with mode := ctx.mode } : Entry).dir⟩ :=
          mountPlan_other hhead (Ne.symm hmode)
        rw [after, hinside, hstatus]
        show (mount order true ctx.device ctx.dir current.mode _).2.table = table
        rw [mount_ran hback]
        show remount current.dir current.mode (remount ctx.dir ctx.mode table) = table
        rw [hdir]
        exact remount_remount hlast ctx.mode

/-- The first item is elsewhere, with the other mode: it is remounted there, and left so. -/
theorem borrows_elsewhere (h : (currentItems order ctx.device table).head? = some current)
    (hmode : current.mode ≠ ctx.mode) (hdir : current.dir ≠ ctx.dir) :
    BorrowsAndRestores order ctx enterOk table ↔ AsRequested ctx table ∧ enterOk = false := by
  have hplan : mountPlan order ctx.device ctx.dir ctx.mode table =
      some ⟨true, isUbi ctx.device, current.dir⟩ := mountPlan_other h hmode
  obtain ⟨hdev, hlast⟩ := head_currentItems h
  cases enterOk with
  | false =>
      have hinside : (inside order ctx false table).2.table = table := by
        show (mount order false _ _ _ ⟨table, table⟩).2.table = table
        rw [mount_failed hplan]
      rw [BorrowsAndRestores, hinside]
      exact ⟨fun hb => ⟨hb.1, rfl⟩, fun hr => ⟨hr.1, fun hf => absurd hf (by decide)⟩⟩
  | true =>
      refine ⟨fun hb => ?_, fun hr => absurd hr.2 (by decide)⟩
      have hinside : (inside order ctx true table).2 =
          ⟨remount current.dir ctx.mode table, remount current.dir ctx.mode table⟩ := by
        show (mount order true _ _ _ ⟨table, table⟩).2 = _
        rw [mount_ran hplan]
        rfl
      have hreq := hb.1
      rw [hinside] at hreq
      have hreq : lastAt ctx.dir table = some ⟨ctx.device, ctx.dir, ctx.mode⟩ := by
        rw [lastAt_remount] at hreq
        simpa only [if_neg (Ne.symm hdir), Option.map_id'] using hreq
      have hstatus : (inside order ctx true table).1 = some ⟨ctx.device, ctx.dir, ctx.mode⟩ := by
        show (lastAt ctx.dir table).filter _ = _
        rw [hreq, Option.filter_some, if_pos (decide_eq_true rfl)]
      have hhead : (currentItems order ctx.device (remount current.dir ctx.mode table)).head? =
          some { current with mode := ctx.mode } := by
        rw [currentItems_remount, List.head?_map, h, Option.map_some, if_pos rfl]
      have hafter : after order ctx true true table = remount current.dir ctx.mode table := by
        rw [after, hinside, hstatus]
        have hnothing : mountPlan order ctx.device ctx.dir ctx.mode
            (remount current.dir ctx.mode table) = none := mountPlan_same hhead rfl
        show (mount order true ctx.device ctx.dir ctx.mode ⟨_, remount current.dir ctx.mode table⟩).2.table
          = _
        rw [mount_nothing true hnothing]
      have hrestored := hb.2 rfl
      rw [hafter] at hrestored
      have hback := lastAt_remount current.dir ctx.mode table current.dir
      rw [hrestored, hlast, Option.map_some, if_pos rfl] at hback
      exact absurd (congrArg Entry.mode (Option.some.inj hback)) hmode

/-- **The context borrows and restores exactly when** the first item of the device lets it. -/
theorem borrows_iff (order : DirOrder) (ctx : Context) (enterOk : Bool) (table : Table) :
    BorrowsAndRestores order ctx enterOk table ↔ Borrowable order ctx enterOk table := by
  rw [Borrowable]
  rcases h : (currentItems order ctx.device table).head? with _ | current
  · exact borrows_unmounted h
  · show _ ↔ if current.mode = ctx.mode then _ else _
    by_cases hmode : current.mode = ctx.mode
    · rw [if_pos hmode]
      exact borrows_same h hmode
    · rw [if_neg hmode]
      by_cases hdir : current.dir = ctx.dir
      · rw [if_pos hdir]
        exact borrows_here h hmode hdir
      · rw [if_neg hdir]
        exact borrows_elsewhere h hmode hdir

/-! ## A boot device that is the root -/

/-- The directories in the order in which they were first seen. -/
def seenOrder : DirOrder := ⟨id, fun _ => List.Perm.refl _⟩

/-- The device is the root, read-only. -/
def rootTable : Table := [⟨"/dev/sda1".toList, "/".toList, .ro⟩]

/-- The device of the root is wanted at another place, to be written. -/
def bootContext : Context := ⟨"/dev/sda1".toList, "/mnt/onl/boot".toList, .rw⟩

/-- The root is remounted instead, for good. -/
theorem rootTable_not_borrowed : ¬ BorrowsAndRestores seenOrder bootContext true rootTable := by
  rintro ⟨hinside, -⟩
  exact absurd hinside (by decide)

end DentOS.Mounts
