/-
  /proc/mounts, and `umount` after `umount`.

  `ProcMountsEntry.fromLine` (onl/install/InstallUtils.py) cuts a line of /proc/mounts at its blanks.  The
  kernel writes none inside a field (`Field`), so the device and the directory come out as they went in
  (`fromLine_procLine`).

  Paths are compared by the names along them: `Within d c` is at or below, `Below d c` strictly so.  For
  a path as the kernel writes it, without a slash at its end and without an empty name, what is
  within it begins with its text (`prefix_of_within`).

  A table is looked at one directory at a time: an `umount dir` takes away the last entry of
  `atDir dir`, and leaves every other directory alone (`atDir_unmount`).  So behind a list of commands
  that all succeeded each directory has lost as many entries as it had commands
  (`atDir_umountAll`).
-/
import DentOS.Install.GrubEnv
import DentOS.Mounts.Context

namespace DentOS.Mounts

open PyText
open GrubEnv (comps)

/-! ## /proc/mounts: entries, and the directory of each -/

/-- `ProcMountsEntry`, without its flags. -/
structure ProcMountsEntry where
  device : Text
  dir : Text
  fsType : Text
  deriving DecidableEq

/-- `buf[:idx], buf[idx+1:].strip()`, where a blank is found. -/
def cutBlank (buf : Text) : Option (Text × Text) :=
  (buf.idxOf? ' ').map fun idx => (buf.take idx, strip (buf.drop (idx + 1)))

/-- `ProcMountsEntry.fromLine`; `none` is a `ValueError`. -/
def fromLine (line : Text) : Option ProcMountsEntry := do
  let (device, buf) ← cutBlank (strip line)
  let (dir, buf) ← cutBlank buf
  let (fsType, buf) ← cutBlank buf
  -- the last two fields are cut off from behind
  if ' ' ∈ buf then some ⟨device, dir, fsType⟩ else none

/-- The option of the mode. -/
def modeText : Mode → Text
  | .ro => "ro".toList
  | .rw => "rw".toList

/-- The line of an entry. -/
def procLine (fsType : Text) (e : Entry) : Text :=
  e.device ++ ' ' :: (e.dir ++ ' ' :: (fsType ++ ' ' :: (modeText e.mode ++ " 0 0\n".toList)))

/-- A field as the kernel writes it: blanks inside are escaped. -/
structure Field (w : Text) : Prop where
  ne_nil : w ≠ []
  no_blank : ∀ c ∈ w, isSpace c = false

/-- A field in front of a trimmed line. -/
theorem trimmed_cons {w u : Text} (hw : Field w) (hu : Trimmed u) : Trimmed (w ++ ' ' :: u) := by
  refine ⟨List.append_ne_nil_of_left_ne_nil hw.ne_nil _, fun c hc => ?_, fun c hc => hu.last c ?_⟩
  · rw [List.head?_append_of_ne_nil w hw.ne_nil] at hc
    exact hw.no_blank c (List.mem_of_head? hc)
  · rwa [List.getLast?_append_of_ne_nil _ (List.cons_ne_nil _ _),
      List.getLast?_cons_of_ne_nil hu.ne_nil] at hc

/-- A field is cut off at its blank. -/
theorem cutBlank_field {w u : Text} (hw : Field w) (hu : Trimmed u) :
    cutBlank (w ++ ' ' :: u) = some (w, u) := by
  have hnot : ' ' ∉ w := fun hmem => absurd (hw.no_blank _ hmem) (by decide)
  rw [cutBlank, idxOf?_append hnot, Option.map_some, List.take_left, drop_behind,
    hu.strip]

/-- **What the kernel writes** comes out as it went in. -/
theorem fromLine_procLine {fsType : Text} {e : Entry} (hdevice : Field e.device) (hdir : Field e.dir)
    (hfsType : Field fsType) : fromLine (procLine fsType e) = some ⟨e.device, e.dir, fsType⟩ := by
  have hend : Trimmed (modeText e.mode ++ " 0 0".toList) := by
    cases e.mode <;> exact ⟨by decide, fun c hc => (by cases hc; rfl), fun c hc => (by cases hc; rfl)⟩
  have hfs := trimmed_cons hfsType hend
  have hrest := trimmed_cons hdir hfs
  have hline : strip (procLine fsType e) =
      e.device ++ ' ' :: (e.dir ++ ' ' :: (fsType ++ ' ' :: (modeText e.mode ++ " 0 0".toList))) := by
    rw [← (trimmed_cons hdevice hrest).strip_concat (show isSpace '\n' = true by decide)]
    simp only [procLine, List.append_assoc, List.cons_append]
    rfl
  have hblank : ' ' ∈ modeText e.mode ++ " 0 0".toList := List.mem_append_right _ (by decide)
  rw [fromLine, hline, cutBlank_field hdevice hrest]
  show (cutBlank _).bind _ = _
  rw [cutBlank_field hdir hfs]
  show (cutBlank _).bind _ = _
  rw [cutBlank_field hfsType hend]
  exact if_pos hblank

/-! ## Paths: one below another -/

/-- At or below a directory. -/
def Within (d c : Text) : Prop := comps c <+: comps d

/-- Below a directory, and not at it. -/
def Below (d c : Text) : Prop := comps c <+: comps d ∧ comps c ≠ comps d

instance (d c : Text) : Decidable (Within d c) := inferInstanceAs (Decidable (comps c <+: comps d))
instance (d c : Text) : Decidable (Below d c) := inferInstanceAs (Decidable (_ ∧ _))

/-- A path as the kernel writes it. -/
def Canonical (p : Text) : Prop := p = '/' :: ['/'].intercalate (comps p)

instance (p : Text) : Decidable (Canonical p) := inferInstanceAs (Decidable (_ = _))

/-- What is below is inside. -/
theorem Below.within {d c : Text} (h : Below d c) : Within d c := h.1

/-- Nothing is below itself. -/
theorem not_below_self (d : Text) : ¬ Below d d := fun h => h.2 rfl

/-- What is inside of something inside. -/
theorem Within.trans {d c b : Text} (h : Within d c) (h' : Within c b) : Within d b :=
  List.IsPrefix.trans h' h

/-- The first of two lists of names is in front of both. -/
theorem intercalate_prefix (sep : Text) : ∀ names rest : List Text,
    sep.intercalate names <+: sep.intercalate (names ++ rest)
  | [], _ => List.nil_prefix
  | [n], [] => List.prefix_rfl
  | [n], r :: rs => by
      rw [List.intercalate_singleton, List.singleton_append, List.intercalate_cons_cons,
        List.append_assoc]
      exact List.prefix_append n _
  | n :: m :: ns, rest => by
      have ih := intercalate_prefix sep (m :: ns) rest
      rw [List.cons_append, List.cons_append, List.intercalate_cons_cons, List.intercalate_cons_cons]
      rw [List.cons_append] at ih
      exact (List.prefix_append_right_inj _).mpr ih

/-- What is within a directory begins with its text. -/
theorem prefix_of_within {d c : Text} (hd : Canonical d) (hc : Canonical c) (h : Within d c) : c <+: d := by
  obtain ⟨rest, hrest⟩ := h
  rw [hd, hc, ← hrest, List.cons_prefix_cons]
  exact ⟨rfl, intercalate_prefix _ _ _⟩

/-! ## One directory of a table: its mounts, the last on top -/

/-- The entries at a directory, oldest first. -/
def atDir (dir : Text) (table : Table) : Table := table.filter fun e => e.dir = dir

/-- The mounts at a directory. -/
theorem mem_atDir {dir : Text} {table : Table} {e : Entry} :
    e ∈ atDir dir table ↔ e ∈ table ∧ e.dir = dir := by
  rw [atDir, List.mem_filter, decide_eq_true_eq]

/-- Unmounting adds nothing. -/
theorem unmount_sublist (dir : Text) : ∀ table : Table, (unmount dir table).Sublist table
  | [] => List.Sublist.refl _
  | e :: es => by
      rw [unmount, replaceLast]
      split
      · exact (unmount_sublist dir es).cons_cons e
      · split
        · exact List.sublist_cons_self e es
        · exact List.Sublist.refl _

/-- The last mount at a directory is the last of those at it. -/
theorem lastAt_eq (dir : Text) (table : Table) : lastAt dir table = (atDir dir table).getLast? := by
  induction table with
  | nil => rfl
  | cons e es ih =>
      rw [lastAt, ih, atDir, atDir, List.filter_cons]
      by_cases he : e.dir = dir
      · rw [if_pos he, if_pos (decide_eq_true he), List.getLast?_cons]
        cases (es.filter fun e => e.dir = dir).getLast? <;> rfl
      · rw [if_neg he, if_neg (by simpa using he), Option.or_none]

/-- The mounts at a directory, one at a time. -/
theorem atDir_cons (D : Text) (e : Entry) (es : Table) :
    atDir D (e :: es) = if e.dir = D then e :: atDir D es else atDir D es := by
  rw [atDir, List.filter_cons]
  simp only [decide_eq_true_eq]
  rfl

/-- The mounts at a directory, of two tables. -/
theorem atDir_append (D : Text) (es es' : Table) : atDir D (es ++ es') = atDir D es ++ atDir D es' :=
  List.filter_append _ _

/-- **An `umount` takes away the last entry** of its directory. -/
theorem atDir_unmount (D dir : Text) (table : Table) :
    atDir D (unmount dir table) = if D = dir then (atDir D table).dropLast else atDir D table := by
  induction table with
  | nil =>
      rw [unmount, replaceLast]
      split <;> rfl
  | cons e es ih =>
      rw [unmount, replaceLast]
      by_cases hlater : (lastAt dir es).isSome = true
      · rw [if_pos hlater, atDir_cons, atDir_cons]
        rw [unmount] at ih
        rw [ih]
        -- the entry that goes is further on, so this one is not the last of its directory
        by_cases hD : D = dir
        · subst hD
          have hne : atDir D es ≠ [] := by
            intro hnil
            rw [lastAt_eq, hnil] at hlater
            cases hlater
          rw [if_pos rfl, if_pos rfl]
          split
          · rw [List.dropLast_cons_of_ne_nil hne]
          · rfl
        · rw [if_neg hD, if_neg hD]
      · have hnil : atDir dir es = [] := by
          rw [lastAt_eq, Option.not_isSome_iff_eq_none] at hlater
          exact List.getLast?_eq_none_iff.mp hlater
        rw [if_neg hlater]
        -- nothing at `dir` is further on: this entry goes if it is there
        by_cases he : e.dir = dir
        · rw [if_pos he, List.nil_append, atDir_cons]
          by_cases hD : D = dir
          · rw [if_pos hD, hD, if_pos he, hnil]
            rfl
          · rw [if_neg hD, if_neg fun heq => hD (heq.symm.trans he)]
        · rw [if_neg he]
          by_cases hD : D = dir
          · rw [if_pos hD, hD, atDir_cons, if_neg he, hnil]
            rfl
          · rw [if_neg hD]

/-! ## Commands in order: each leaves the mounts of the others -/

/-- `umount` of one directory after another, as long as they succeed. -/
def umountAll (umounts : Table → Text → Bool) : List Text → Table → Bool × Table
  | [], table => (true, table)
  | dir :: dirs, table =>
      if umounts table dir then umountAll umounts dirs (unmount dir table) else (false, table)

/-- In a run that succeeded each command did, behind those in front of it. -/
theorem umountAll_cut {umounts : Table → Text → Bool} {dir : Text} {dirs' : List Text} :
    ∀ {dirs : List Text} {table t' : Table}, umountAll umounts (dirs ++ dir :: dirs') table = (true, t') →
    ∃ now, umountAll umounts dirs table = (true, now) ∧ umounts now dir = true
  | [], table, _, h => by
      rw [List.nil_append, umountAll] at h
      split at h
      · next hdir => exact ⟨table, rfl, hdir⟩
      · cases h
  | d :: dirs, table, _, h => by
      rw [List.cons_append, umountAll] at h
      split at h
      · next hd =>
          obtain ⟨now, hnow, hdir⟩ := umountAll_cut h
          exact ⟨now, by rw [umountAll, if_pos hd, hnow], hdir⟩
      · cases h

/-- **Behind commands that succeeded** each directory has lost as many entries as it had commands. -/
theorem atDir_umountAll {umounts : Table → Text → Bool} (D : Text) : ∀ {dirs : List Text}
    {table t' : Table}, umountAll umounts dirs table = (true, t') →
    atDir D t' = (atDir D table).take ((atDir D table).length - dirs.count D)
  | [], table, _, h => by
      cases h
      rw [List.count_nil, Nat.sub_zero, List.take_length]
  | dir :: dirs, table, t', h => by
      rw [umountAll] at h
      split at h
      · rw [atDir_umountAll D h, atDir_unmount]
        by_cases hD : D = dir
        · rw [if_pos hD, hD, List.count_cons_self, List.length_dropLast, List.dropLast_eq_take,
            List.take_take]
          congr 1
          omega
        · rw [if_neg hD, List.count_cons_of_ne fun heq => hD heq.symm]
      · cases h

end DentOS.Mounts
