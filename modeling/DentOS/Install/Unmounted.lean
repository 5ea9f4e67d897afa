/-
  `assertUnmounted` (onl/install/BaseInstall.py): nothing of the install device is mounted, or with
  `--force` nothing any more.

  The loop goes through /proc/mounts as it was read, from the top, and takes a mount for one of the device
  by the beginning of its name.  That finds the device and its partitions, and also those of `sdaa` for
  `sda`.  It unmounts by directory, and what an `umount` takes away is what was mounted there last,
  of whichever device.  And it meets a mount before those that were mounted below it later.

  The environment says which `umount` succeeds (`umounts`).  All that is assumed of it is that the
  command succeeds where nothing is mounted below the directory (`LeavesUnmount`); `leafUmount` succeeds
  nowhere else.  `Clear` is what a table has to be for the three to go well: no other device by
  a similar name, nothing of another device over a mount of the device, and below such a mount only
  mounts of the device that stand in front of it (`guards_iff`).
-/
import DentOS.Install.SplitDev
import DentOS.Mounts.Umount

namespace DentOS.Unmounted

open PyText Mounts
open Install (partDevice)

/-! ## The loop over the mount table -/

/-- `m.device.startswith(self.device)`. -/
def hit (device : Text) (m : Entry) : Bool := device.isPrefixOf m.device

/-- `assertUnmounted`, with the mounts that were read and those that are there. -/
def assertUnmounted (umounts : Table → Text → Bool) (force : Bool) (device : Text) :
    List Entry → Table → Nat × Table
  | [], table => (0, table)
  | m :: ms, table =>
      if hit device m then
        if force = false then (1, table)
        else if umounts table m.dir then
          assertUnmounted umounts force device ms (unmount m.dir table)
        else (1, table)
      else assertUnmounted umounts force device ms table

/-! ## What it is for: nothing on the disk stays mounted -/

/-- A mount of the device, or of a partition of it. -/
def Own (device : Text) (m : Entry) : Prop :=
  m.device = device ∨ ∃ n : Nat, 1 ≤ n ∧ m.device = partDevice device n

noncomputable instance (device : Text) : DecidablePred (Own device) := Classical.decPred _

/-- The mounts of other devices. -/
noncomputable def others (device : Text) (table : Table) : Table :=
  table.filter fun m => ¬ Own device m

/-- An `umount` succeeds where nothing is mounted below the directory. -/
def LeavesUnmount (umounts : Table → Text → Bool) : Prop :=
  ∀ table dir, (∃ m ∈ table, m.dir = dir) → (∀ m ∈ table, ¬ Below m.dir dir) → umounts table dir = true

/-- **The install device is guarded**: without force the answer says whether anything of it is mounted;
    with force nothing of another device is unmounted, and everything of this one is if the mounts with
    nothing below them can be. -/
structure Guards (device : Text) (table : Table) : Prop where
  answer : ∀ umounts, (assertUnmounted umounts false device table table).1 = 0 ↔
    ∀ m ∈ table, ¬ Own device m
  only : ∀ umounts, others device (assertUnmounted umounts true device table table).2 =
    others device table
  all : ∀ umounts, LeavesUnmount umounts →
    (assertUnmounted umounts true device table table).1 = 0 ∧
      ∀ m ∈ (assertUnmounted umounts true device table table).2, ¬ Own device m

/-- What a table has to be: a name that begins with the device's is its own; and for each mount of the
    device, nothing of another device lies over it, and what is mounted below it is of the device and
    stands in front of it. -/
structure Clear (device : Text) (table : Table) : Prop where
  own : ∀ m ∈ table, hit device m = true → Own device m
  before : ∀ pre m post, table = pre ++ m :: post → Own device m →
    ∀ f ∈ pre, Below f.dir m.dir → Own device f
  behind : ∀ pre m post, table = pre ++ m :: post → Own device m →
    ∀ f ∈ post, ¬ Below f.dir m.dir ∧ (f.dir = m.dir → Own device f)

/-- An `umount` that succeeds only where nothing is mounted below. -/
def leafUmount (table : Table) (dir : Text) : Bool :=
  decide ((∃ m ∈ table, m.dir = dir) ∧ ∀ m ∈ table, ¬ Below m.dir dir)

/-- The kernel unmounts leaves. -/
theorem leavesUnmount_leafUmount : LeavesUnmount leafUmount :=
  fun _ _ hmounted hleaf => decide_eq_true ⟨hmounted, hleaf⟩

section

variable {device : Text} {table : Table}

/-- An own mount is hit. -/
theorem hit_of_own {m : Entry} (h : Own device m) : hit device m = true := by
  rw [hit, List.isPrefixOf_iff_prefix]
  rcases h with h | ⟨n, -, h⟩
  · exact h.symm ▸ List.prefix_rfl
  · rw [h, partDevice]
    split
    · exact List.prefix_append device _
    · exact List.prefix_append device _

/-! ## The commands, and which of them the loop gives -/

/-- The directories that are unmounted. -/
def commands (device : Text) (ms : List Entry) : List Text := (ms.filter (hit device)).map Entry.dir

/-- The directories that are unmounted, one mount at a time. -/
theorem commands_cons (m : Entry) (ms : List Entry) :
    commands device (m :: ms) = if hit device m then m.dir :: commands device ms else commands device ms := by
  rw [commands, List.filter_cons]
  split <;> rfl

/-- The directories that are unmounted, of one list behind the other. -/
theorem commands_append (ms ms' : List Entry) :
    commands device (ms ++ ms') = commands device ms ++ commands device ms' := by
  rw [commands, List.filter_append, List.map_append]
  rfl

/-- How often a directory is unmounted. -/
theorem count_commands (D : Text) (ms : List Entry) :
    (commands device ms).count D = ((atDir D ms).filter (hit device)).length := by
  induction ms with
  | nil => rfl
  | cons m ms ih =>
      rw [commands_cons, atDir_cons]
      by_cases hhit : hit device m = true
      · rw [if_pos hhit, List.count_cons, ih]
        by_cases hD : m.dir = D
        · rw [if_pos hD, List.filter_cons, if_pos hhit, if_pos (beq_iff_eq.mpr hD), List.length_cons]
        · rw [if_neg hD, if_neg (by rwa [beq_iff_eq])]
          rfl
      · rw [if_neg hhit, ih]
        split
        · rw [List.filter_cons, if_neg hhit]
        · rfl

/-- With force the loop is these commands in order. -/
theorem assertUnmounted_force (umounts : Table → Text → Bool) (ms : List Entry) :
    ∀ table, assertUnmounted umounts true device ms table =
      (if (umountAll umounts (commands device ms) table).1 then 0 else 1,
        (umountAll umounts (commands device ms) table).2) := by
  induction ms with
  | nil => exact fun table => rfl
  | cons m ms ih =>
      intro table
      rw [assertUnmounted, commands_cons]
      split
      · rw [if_neg (by decide), umountAll]
        split
        · exact ih _
        · rfl
      · exact ih table

/-- Without force it returns 0 when nothing is hit. -/
theorem assertUnmounted_keep (umounts : Table → Text → Bool) (ms : List Entry) :
    (assertUnmounted umounts false device ms table).1 = 0 ↔ ∀ m ∈ ms, ¬ hit device m = true := by
  induction ms with
  | nil => exact iff_of_true rfl fun _ h => absurd h List.not_mem_nil
  | cons m ms ih =>
      rw [assertUnmounted, List.forall_mem_cons]
      split
      · next h =>
          rw [if_pos rfl]
          exact iff_of_false Nat.one_ne_zero fun hall => hall.1 h
      · next h => exact ih.trans ⟨fun hall => ⟨h, hall⟩, fun hall => hall.2⟩

/-! ## The mounts at one directory, the last on top -/

/-- Entries of which every one behind an own one is own: the others, then the own. -/
theorem others_then_own : ∀ {l : List Entry},
    (∀ x m y, l = x ++ m :: y → Own device m → ∀ f ∈ y, Own device f) →
    ∃ A B, l = A ++ B ∧ (∀ a ∈ A, ¬ Own device a) ∧ ∀ b ∈ B, Own device b
  | [], _ => ⟨[], [], rfl, fun _ h => absurd h List.not_mem_nil, fun _ h => absurd h List.not_mem_nil⟩
  | m :: l, h => by
      by_cases hm : Own device m
      · refine ⟨[], m :: l, rfl, fun _ h => absurd h List.not_mem_nil, fun b hb => ?_⟩
        rcases List.mem_cons.mp hb with rfl | hb
        · exact hm
        · exact h [] m l rfl hm b hb
      · obtain ⟨A, B, rfl, hA, hB⟩ := others_then_own (l := l) fun x m' y hl hm' =>
          h (m :: x) m' y (by rw [hl, List.cons_append]) hm'
        exact ⟨m :: A, B, rfl, List.forall_mem_cons.mpr ⟨hm, hA⟩, hB⟩

/-- Two entries of a directory in the table. -/
theorem split_of_atDir {D : Text} {x y : List Entry} {m : Entry} (h : atDir D table = x ++ m :: y) :
    ∃ pre post, table = pre ++ m :: post ∧ m.dir = D ∧ atDir D pre = x ∧ atDir D post = y := by
  obtain ⟨l₁, l₂, rfl, hx, hrest⟩ := List.filter_eq_append_iff.mp h
  obtain ⟨l₃, l₄, rfl, hnone, hm, hy⟩ := List.filter_eq_cons_iff.mp hrest
  refine ⟨l₁ ++ l₃, l₄, by rw [List.append_assoc], of_decide_eq_true hm, ?_, hy⟩
  rw [atDir, List.filter_append, hx, List.filter_eq_nil_iff.mpr hnone, List.append_nil]

/-- In a clear table the own mounts of a directory are the last ones. -/
theorem Clear.split (h : Clear device table) (D : Text) :
    ∃ A B, atDir D table = A ++ B ∧ (∀ a ∈ A, ¬ Own device a) ∧ ∀ b ∈ B, Own device b := by
  refine others_then_own fun x m y hl hm f hf => ?_
  obtain ⟨pre, post, htable, hdir, -, hpost⟩ := split_of_atDir hl
  rw [← hpost] at hf
  obtain ⟨hf, hfdir⟩ := mem_atDir.mp hf
  exact (h.behind pre m post htable hm f hf).2 (hfdir.trans hdir.symm)

/-- Of a directory those that are hit are the own ones. -/
theorem Clear.hits (h : Clear device table) {D : Text} {A B : List Entry}
    (hsplit : atDir D table = A ++ B) (hA : ∀ a ∈ A, ¬ Own device a) (hB : ∀ b ∈ B, Own device b) :
    (atDir D table).filter (hit device) = B := by
  have hmem : ∀ a ∈ A, a ∈ table := fun a ha => (mem_atDir.mp (hsplit ▸ List.mem_append_left B ha)).1
  rw [hsplit, List.filter_append,
    List.filter_eq_nil_iff.mpr fun a ha hhit => hA a ha (h.own a (hmem a ha) hhit),
    List.filter_eq_self.mpr fun b hb => hit_of_own (hB b hb), List.nil_append]

/-! ## One command takes one mount away -/

/-- What a directory has left when the mounts `pre` have been gone through. -/
def leftAt (device : Text) (table : Table) (pre : List Entry) (D : Text) : Table :=
  (atDir D table).take ((atDir D table).length - ((atDir D pre).filter (hit device)).length)

/-- The state of the loop in front of a mount. -/
structure Stage (device : Text) (table : Table) (pre : List Entry) (now : Table) : Prop where
  left : ∀ D, atDir D now = leftAt device table pre D
  others : others device now = others device table

/-- At the start nothing is unmounted. -/
theorem stage_start (device : Text) (table : Table) : Stage device table [] table :=
  ⟨fun _ => List.take_length.symm, rfl⟩

/-- A mount that is not hit is passed over. -/
theorem Stage.skip {pre : List Entry} {now : Table} (hs : Stage device table pre now) {m : Entry}
    (hm : ¬ hit device m = true) : Stage device table (pre ++ [m]) now := by
  refine ⟨fun D => ?_, hs.others⟩
  have hnil : (atDir D [m]).filter (hit device) = [] := by
    refine List.filter_eq_nil_iff.mpr fun e he => ?_
    rw [List.mem_singleton.mp (List.mem_of_mem_filter he)]
    exact hm
  rw [hs.left, leftAt, leftAt, atDir_append, List.filter_append, hnil, List.append_nil]

/-- What goes is not among what is looked at. -/
theorem filter_replaceLast {p : Entry → Bool} {dir : Text} {e : Entry} : ∀ {now : Table},
    lastAt dir now = some e → p e = false → (unmount dir now).filter p = now.filter p
  | [], h, _ => by cases h
  | e' :: es, h, hp => by
      rw [unmount, replaceLast]
      rw [lastAt] at h
      by_cases hlater : (lastAt dir es).isSome = true
      · obtain ⟨e'', he''⟩ := Option.isSome_iff_exists.mp hlater
        rw [he''] at h
        cases h
        have ih := filter_replaceLast he'' hp
        rw [unmount] at ih
        rw [if_pos hlater, List.filter_cons, List.filter_cons, ih]
      · rw [Option.not_isSome_iff_eq_none] at hlater
        rw [hlater, Option.none_or] at h
        split at h
        · next hdir =>
            cases h
            rw [hlater, if_neg (by decide), if_pos hdir, List.filter_cons, if_neg (by rw [hp]; decide)]
            rfl
        · cases h

/-- **In front of a mount that is hit** the entry that lies at its directory is one of the device. -/
theorem Stage.lastAt (h : Clear device table) {pre ms : List Entry} {m : Entry}
    (htable : table = pre ++ m :: ms) {now : Table} (hs : Stage device table pre now)
    (hm : hit device m = true) : ∃ e, lastAt m.dir now = some e ∧ Own device e := by
  obtain ⟨A, B, hsplit, hA, hB⟩ := h.split m.dir
  have hhits := h.hits hsplit hA hB
  have hbound : ((atDir m.dir pre).filter (hit device)).length < B.length := by
    rw [← hhits, htable, atDir_append, atDir_cons, if_pos rfl, List.filter_append, List.filter_cons,
      if_pos hm, List.length_append, List.length_cons]
    omega
  have hnow : atDir m.dir now =
      A ++ B.take (B.length - ((atDir m.dir pre).filter (hit device)).length) := by
    rw [hs.left, leftAt, hsplit, List.length_append, Nat.add_sub_assoc hbound.le,
      List.take_length_add_append]
  have hne : B.take (B.length - ((atDir m.dir pre).filter (hit device)).length) ≠ [] := by
    refine List.ne_nil_of_length_pos ?_
    rw [List.length_take]
    omega
  refine ⟨_, ?_, hB _ (List.mem_of_mem_take (List.getLast_mem hne))⟩
  rw [lastAt_eq, hnow, List.getLast?_append_of_ne_nil _ hne, List.getLast?_eq_some_getLast hne]

/-- **One turn** that unmounts. -/
theorem Stage.step (h : Clear device table) {pre ms : List Entry} {m : Entry}
    (htable : table = pre ++ m :: ms) {now : Table} (hs : Stage device table pre now)
    (hm : hit device m = true) : Stage device table (pre ++ [m]) (unmount m.dir now) := by
  obtain ⟨e, he, hown⟩ := hs.lastAt h htable hm
  constructor
  · intro D
    rw [atDir_unmount, hs.left, leftAt, leftAt, atDir_append, atDir_cons, List.filter_append,
      List.length_append]
    by_cases hD : D = m.dir
    · have hone : (m :: (atDir D []).filter (hit device)).length = 1 := rfl
      rw [if_pos hD, if_pos hD.symm, List.filter_cons, if_pos hm, hone, List.dropLast_eq_take,
        List.take_take, List.length_take]
      congr 1
      omega
    · rw [if_neg hD, if_neg fun heq => hD heq.symm]
      rfl
  · rw [← hs.others]
    exact filter_replaceLast he (by simpa using hown)

/-- **In front of a mount that is hit** nothing is left below its directory. -/
theorem Stage.leaf (h : Clear device table) {pre ms : List Entry} {m : Entry}
    (htable : table = pre ++ m :: ms) {now : Table} (hs : Stage device table pre now)
    (hm : hit device m = true) : ∀ f ∈ now, ¬ Below f.dir m.dir := by
  intro f hf hbelow
  have hown := h.own m (by rw [htable]; exact List.mem_append_right pre List.mem_cons_self) hm
  have hpost : atDir f.dir (m :: ms) = [] := by
    refine List.filter_eq_nil_iff.mpr fun g hg hdir => ?_
    have hdir := of_decide_eq_true hdir
    rcases List.mem_cons.mp hg with rfl | hg
    · rw [hdir] at hbelow
      exact not_below_self _ hbelow
    · rw [← hdir] at hbelow
      exact (h.behind pre m ms htable hown g hg).1 hbelow
  have hpre : (atDir f.dir pre).filter (hit device) = atDir f.dir pre := by
    refine List.filter_eq_self.mpr fun g hg => ?_
    obtain ⟨hg, hdir⟩ := mem_atDir.mp hg
    exact hit_of_own (h.before pre m ms htable hown g hg (by rw [hdir]; exact hbelow))
  have hnow : atDir f.dir now = [] := by
    rw [hs.left, leftAt, htable, atDir_append, hpost, List.append_nil, hpre, Nat.sub_self, List.take_zero]
  have hmem := mem_atDir.mpr ⟨hf, rfl⟩
  rw [hnow] at hmem
  exact absurd hmem List.not_mem_nil

/-! ## The run of all commands -/

/-- Whatever the commands do, the mounts of other devices stay. -/
theorem others_umountAll (h : Clear device table) (umounts : Table → Text → Bool) :
    ∀ {ms pre : List Entry} {now : Table}, table = pre ++ ms → Stage device table pre now →
    others device (umountAll umounts (commands device ms) now).2 = others device table
  | [], _, _, _, hs => hs.others
  | m :: ms, pre, now, htable, hs => by
      have htable' : table = pre ++ [m] ++ ms := by rw [htable, List.append_assoc]; rfl
      rw [commands_cons]
      by_cases hm : hit device m = true
      · rw [if_pos hm, umountAll]
        split
        · exact others_umountAll h umounts htable' (hs.step h htable hm)
        · exact hs.others
      · rw [if_neg hm]
        exact others_umountAll h umounts htable' (hs.skip hm)

/-- Where the mounts with nothing below them can be unmounted, all commands succeed. -/
theorem umountAll_succeeds (h : Clear device table) {umounts : Table → Text → Bool}
    (hleaves : LeavesUnmount umounts) : ∀ {ms pre : List Entry} {now : Table}, table = pre ++ ms →
    Stage device table pre now → (umountAll umounts (commands device ms) now).1 = true ∧
      Stage device table table (umountAll umounts (commands device ms) now).2
  | [], pre, now, htable, hs => by
      rw [List.append_nil] at htable
      subst htable
      exact ⟨rfl, hs⟩
  | m :: ms, pre, now, htable, hs => by
      have htable' : table = pre ++ [m] ++ ms := by rw [htable, List.append_assoc]; rfl
      rw [commands_cons]
      by_cases hm : hit device m = true
      · obtain ⟨e, he, -⟩ := hs.lastAt h htable hm
        have hok : umounts now m.dir = true :=
          hleaves now m.dir ⟨e, mem_of_lastAt he, dir_of_lastAt he⟩ (hs.leaf h htable hm)
        rw [if_pos hm, umountAll, if_pos hok]
        exact umountAll_succeeds h hleaves htable' (hs.step h htable hm)
      · rw [if_neg hm]
        exact umountAll_succeeds h hleaves htable' (hs.skip hm)

/-- Behind the last mount none of the device is left. -/
theorem Stage.none_left (h : Clear device table) {now : Table} (hs : Stage device table table now) :
    ∀ m ∈ now, ¬ Own device m := by
  intro m hm
  obtain ⟨A, B, hsplit, hA, hB⟩ := h.split m.dir
  have hnow : atDir m.dir now = A := by
    rw [hs.left, leftAt, h.hits hsplit hA hB, hsplit, List.length_append, Nat.add_sub_cancel,
      List.take_left]
  exact hA m (hnow ▸ mem_atDir.mpr ⟨hm, rfl⟩)

/-- A clear table is guarded: the stages lead to its end. -/
theorem guards_of_clear (h : Clear device table) : Guards device table := by
  refine ⟨fun umounts => ?_, fun umounts => ?_, fun umounts hleaves => ?_⟩
  · rw [assertUnmounted_keep]
    exact ⟨fun hall m hm hown => hall m hm (hit_of_own hown),
      fun hall m hm hhit => hall m hm (h.own m hm hhit)⟩
  · rw [assertUnmounted_force]
    exact others_umountAll h umounts rfl (stage_start device table)
  · obtain ⟨hok, hs⟩ := umountAll_succeeds h hleaves rfl (stage_start device table)
    rw [assertUnmounted_force, hok]
    exact ⟨rfl, hs.none_left h⟩

/-! ## What a guarded table is, as a condition on its lines -/

/-- The mounts that are not own. -/
theorem mem_others {m : Entry} : m ∈ others device table ↔ m ∈ table ∧ ¬ Own device m := by
  rw [others, List.mem_filter, decide_eq_true_eq]

/-- Those at a directory. -/
theorem atDir_others (D : Text) (table : Table) :
    atDir D (others device table) = others device (atDir D table) := List.filter_comm _ _ _

/-- No mount is own. -/
theorem others_eq_self {l : Table} (h : ∀ m ∈ l, ¬ Own device m) : others device l = l :=
  List.filter_eq_self.mpr fun m hm => decide_eq_true (h m hm)

/-- If the front of some entries are the others, then those behind it are own. -/
theorem own_behind {l : List Entry} {j : Nat} (h : l.take j = others device l) :
    ∀ e ∈ l.drop j, Own device e := by
  have hsplit : others device l = others device (l.take j) ++ others device (l.drop j) := by
    conv_lhs => rw [← List.take_append_drop j l]
    exact List.filter_append _ _
  have hfront : others device (l.take j) = l.take j := others_eq_self fun e he => by
    rw [h] at he
    exact (mem_others.mp he).2
  rw [hfront, ← h, List.self_eq_append_right] at hsplit
  intro e he
  by_contra hown
  have hmem := mem_others.mpr ⟨he, hown⟩
  rw [hsplit] at hmem
  exact absurd hmem List.not_mem_nil

/-- The run in which only mounts with nothing below them can be unmounted: it succeeds, and the others
    are left. -/
theorem Guards.leaf_run (h : Guards device table) :
    umountAll leafUmount (commands device table) table = (true, others device table) := by
  obtain ⟨hcode, hnone⟩ := h.all leafUmount leavesUnmount_leafUmount
  have honly := h.only leafUmount
  rw [assertUnmounted_force] at hcode hnone honly
  refine Prod.ext ?_ ((others_eq_self hnone).symm.trans honly)
  by_contra hfail
  have hcode : (if (umountAll leafUmount (commands device table) table).1 then 0 else 1) = 0 := hcode
  rw [if_neg hfail] at hcode
  exact absurd hcode Nat.one_ne_zero

/-- Behind a successful run each directory has the others left, as the front of what it had. -/
theorem Guards.front (h : Guards device table) (D : Text) :
    (atDir D table).take ((atDir D table).length - ((atDir D table).filter (hit device)).length) =
      others device (atDir D table) := by
  have hleft := atDir_umountAll D h.leaf_run
  rw [count_commands, atDir_others] at hleft
  exact hleft.symm

/-- What is hit is own. -/
theorem Guards.own (h : Guards device table) : ∀ m ∈ table, hit device m = true → Own device m := by
  intro m hm hhit
  have hmem : m ∈ atDir m.dir table := mem_atDir.mpr ⟨hm, rfl⟩
  have hbehind := own_behind (h.front m.dir)
  generalize atDir m.dir table = l at *
  generalize hk : (l.filter (hit device)).length = k at *
  have hle : k ≤ l.length := hk ▸ List.length_filter_le _ _
  have hdrop : (l.drop (l.length - k)).filter (hit device) = l.drop (l.length - k) :=
    List.filter_eq_self.mpr fun e he => hit_of_own (hbehind e he)
  -- the front has none that is hit, since those behind it are as many as are hit at all
  have htake : (l.take (l.length - k)).filter (hit device) = [] := by
    have hsum : (l.take (l.length - k)).filter (hit device) ++ l.drop (l.length - k) =
        l.filter (hit device) := by
      rw [← hdrop, ← List.filter_append, List.take_append_drop]
    have hlength := congrArg List.length hsum
    rw [List.length_append, List.length_drop, hk] at hlength
    exact List.length_eq_zero_iff.mp (by omega)
  rw [← List.take_append_drop (l.length - k) l] at hmem
  rcases List.mem_append.mp hmem with hfront | hrest
  · exact absurd hhit (List.filter_eq_nil_iff.mp htake m hfront)
  · exact hbehind m hrest

/-- Behind an own mount there is no other one at its directory. -/
theorem Guards.same_dir (h : Guards device table) {pre post : List Entry} {m : Entry}
    (htable : table = pre ++ m :: post) (hown : Own device m) {f : Entry} (hf : f ∈ post)
    (hdir : f.dir = m.dir) : Own device f := by
  have hfront := h.front m.dir
  have hbehind := own_behind hfront
  have hsplit : atDir m.dir table = atDir m.dir pre ++ m :: atDir m.dir post := by
    rw [htable, atDir_append, atDir_cons, if_pos rfl]
  rw [hsplit] at hfront hbehind
  generalize (atDir m.dir pre ++ m :: atDir m.dir post).length - _ = j at *
  have hj : j ≤ (atDir m.dir pre).length := by
    by_contra hlt
    have hmem : m ∈ (atDir m.dir pre ++ m :: atDir m.dir post).take j := by
      rw [List.take_append, List.take_cons (by omega)]
      exact List.mem_append_right _ List.mem_cons_self
    rw [hfront] at hmem
    exact (mem_others.mp hmem).2 hown
  refine hbehind f ?_
  rw [List.drop_append_of_le_length hj]
  exact List.mem_append_right _ (List.mem_cons_of_mem m (mem_atDir.mpr ⟨hf, hdir⟩))

/-- When a mount is unmounted, those below it have been. -/
theorem Guards.below (h : Guards device table) {pre post : List Entry} {m : Entry}
    (htable : table = pre ++ m :: post) (hown : Own device m) {D : Text} (hD : Below D m.dir) :
    atDir D post = [] ∧ ∀ f ∈ atDir D pre, Own device f := by
  have hrun := h.leaf_run
  have hcommands : commands device table = commands device pre ++ m.dir :: commands device post := by
    rw [htable, commands_append, commands_cons, if_pos (hit_of_own hown)]
  rw [hcommands] at hrun
  obtain ⟨now, hnow, hleaf⟩ := umountAll_cut hrun
  -- the command for `m` succeeded, so nothing was mounted below it
  have hnone : atDir D now = [] := by
    refine List.filter_eq_nil_iff.mpr fun f hf hdir => (of_decide_eq_true hleaf).2 f hf ?_
    rw [of_decide_eq_true hdir]
    exact hD
  have hne : m.dir ≠ D := by
    rintro rfl
    exact not_below_self _ hD
  have hsplit : atDir D table = atDir D pre ++ atDir D post := by
    rw [htable, atDir_append, atDir_cons, if_neg hne]
  have hle : ((atDir D pre).filter (hit device)).length ≤ (atDir D pre).length := List.length_filter_le _ _
  rw [atDir_umountAll D hnow, count_commands, List.take_eq_nil_iff, hsplit, List.append_eq_nil_iff,
    List.length_append] at hnone
  have hpost : atDir D post = [] := by
    rcases hnone with hcount | hnil
    · exact List.length_eq_zero_iff.mp (by omega)
    · exact hnil.2
  refine ⟨hpost, fun f hf => ?_⟩
  -- all that stood in front had been unmounted by a command of its own
  have hall : ((atDir D pre).filter (hit device)).length = (atDir D pre).length := by
    rcases hnone with hcount | hnil
    · omega
    · rw [hnil.1]
      rfl
  refine h.own f ?_ (List.length_filter_eq_length_iff.mp hall f hf)
  rw [htable]
  exact List.mem_append_left _ (mem_atDir.mp hf).1

/-- A table that is guarded is clear. -/
theorem clear_of_guards (h : Guards device table) : Clear device table := by
  refine ⟨h.own, fun pre m post htable hown f hf hbelow => ?_, fun pre m post htable hown f hf => ⟨?_, ?_⟩⟩
  · exact (h.below htable hown hbelow).2 f (mem_atDir.mpr ⟨hf, rfl⟩)
  · intro hbelow
    have hmem := mem_atDir.mpr ⟨hf, rfl⟩
    rw [(h.below htable hown hbelow).1] at hmem
    exact absurd hmem List.not_mem_nil
  · exact fun hdir => h.same_dir htable hown hf hdir

end

/-- **`assertUnmounted` guards the install device** exactly where the table is clear. -/
theorem guards_iff (device : Text) (table : Table) : Guards device table ↔ Clear device table :=
  ⟨clear_of_guards, guards_of_clear⟩

/-- A disk with one partition mounted below another. -/
def nested : Table :=
  [⟨"/dev/sda1".toList, "/mnt".toList, .rw⟩, ⟨"/dev/sda2".toList, "/mnt/boot".toList, .rw⟩]

/-- The loop comes to `/mnt` while `/mnt/boot` is still there. -/
theorem nested_not_guarded : ¬ ∀ (device : Text) (table : Table), Guards device table := by
  intro h
  have hcode := ((h "/dev/sda".toList nested).all leafUmount leavesUnmount_leafUmount).1
  exact absurd hcode (by decide)

/-- The loop of the installer's run, whose `umount` does not depend on the table. -/
theorem unmount_eq (m : Install.Machine) (device : Text) (s : Install.Installer) :
    ∀ (ms : List Entry) (table : Table),
    Install.unmount m device (ms.map fun e => (e.device, e.dir)) s =
      (.ok (assertUnmounted (fun _ dir => m.umount dir) m.force device ms table).1, s)
  | [], _ => rfl
  | e :: ms, table => by
      have ih := unmount_eq m device s ms
      rw [List.map_cons, Install.unmount, assertUnmounted, hit]
      by_cases hhit : device.isPrefixOf e.device = true
      · rw [if_pos hhit, if_pos hhit]
        by_cases hforce : m.force = true
        · have hne : ¬ m.force = false := Bool.eq_false_iff.not.mpr (not_not.mpr hforce)
          rw [if_pos hforce, if_neg hne]
          by_cases hok : m.umount e.dir = true
          · rw [if_pos hok, if_pos hok]
            exact ih _
          · rw [if_neg hok, if_neg hok]
            rfl
        · rw [if_neg hforce, if_pos (Bool.eq_false_iff.mpr hforce)]
          rfl
      · rw [if_neg hhit, if_neg hhit]
        exact ih _

end DentOS.Unmounted
