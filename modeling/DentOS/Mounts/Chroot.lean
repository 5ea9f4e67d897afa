/-
  `InitrdContext.unmount` (onl/install/InstallUtils.py): nothing stays mounted in a chroot.

  The directories are those of /proc/mounts whose text begins with the chroot's, sorted backwards.  A
  directory begins with the text of each that it lies below, so it comes first (`order_unmountDirs`).
  But the text of a sibling can begin with the chroot's, too.

  Without users of its files a mount can be unmounted when nothing is mounted on it, and its path leads to
  it: a later mount at the path, or above it, would hide it (`free`).  The path is passed to `umount` as
  it stands in /proc/mounts, where a backslash stands for a blank or the like.

  In a run that succeeds, a mount that is hidden by one further up stays (`stays`), since what hides it
  is unmounted later.  Where none is hidden the run takes away exactly the mounts of the chroot
  (`run_cleans`).  Together: `cleans_iff`.
-/
import DentOS.Mounts.Umount
import Mathlib.Data.List.Sort

namespace DentOS.Mounts

open PyText

/-! ## The commands of `unmount`, and what each does to the table -/

/-- `ProcMountsParser`: the paths are the kernel's. -/
structure ProcMountsParser where
  /-- The mounts, in the order of the table. -/
  mounts : Table
  /-- The kernel's paths have no name that leads back. -/
  canonical : ∀ m ∈ mounts, Canonical m.dir

/-- `dirs.sort(reverse=True)`. -/
def sortReverse (dirs : List Text) : List Text := dirs.insertionSort fun d d' => strLe d' d = true

/-- The directories that `unmount` goes through. -/
def unmountDirs (dir : Option Text) (mounts : Table) : List Text :=
  match dir with
  | some dir => sortReverse ((mounts.filter fun e => dir.isPrefixOf e.dir).map Entry.dir)
  | none => []

/-- `InitrdContext.unmount`; the first command that fails ends it. -/
def InitrdContext.unmount (umounts : Table → Text → Bool) (dir : Option Text) (mounts : Table) :
    Bool × Table :=
  umountAll umounts (unmountDirs dir mounts) mounts

/-- The last mount at a directory is the one its path leads to, and nothing is mounted on it. -/
def free (dir : Text) : Table → Bool
  | [] => false
  | e :: es =>
      free dir es || (e.dir = dir && es.all fun f => ¬ Within dir f.dir ∧ ¬ Within f.dir dir)

/-- The `umount` of a system without other users. -/
def kernelUmounts (table : Table) (dir : Text) : Bool := '\\' ∉ dir && free dir table

/-- The mounts at or below a directory, and the others. -/
def mountsWithin (c : Text) (table : Table) : Table := table.filter fun m => Within m.dir c
/-- The mounts that are not in the directory. -/
def mountsOutside (c : Text) (table : Table) : Table := table.filter fun m => ¬ Within m.dir c

/-- **The chroot is cleaned**: an `umount` for each mount in it and no other, each mount before those that
    contain it, and all of them succeed. -/
structure Cleans (c : Text) (p : ProcMountsParser) : Prop where
  selection : (unmountDirs (some c) p.mounts).Perm ((mountsWithin c p.mounts).map Entry.dir)
  order : (unmountDirs (some c) p.mounts).Pairwise fun d d' => ¬ Below d' d
  succeeds : InitrdContext.unmount kernelUmounts (some c) p.mounts = (true, mountsOutside c p.mounts)

/-- What the mounts have to be: the text of a directory begins with the chroot's where it lies in it,
    and no mount in it has an escaped name or is hidden by a later one further up. -/
structure Visible (c : Text) (p : ProcMountsParser) : Prop where
  prefixes : ∀ m ∈ p.mounts, c <+: m.dir ↔ Within m.dir c
  plain : ∀ m ∈ p.mounts, Within m.dir c → '\\' ∉ m.dir
  not_hidden : p.mounts.Pairwise fun m f => Within m.dir c → ¬ Below m.dir f.dir

/-! ## The order: what is deeper comes first -/

/-- Sorting loses nothing. -/
theorem perm_sortReverse (dirs : List Text) : (sortReverse dirs).Perm dirs := List.perm_insertionSort _ dirs

/-- The directories are in their reverse order. -/
theorem pairwise_sortReverse (dirs : List Text) :
    (sortReverse dirs).Pairwise fun d d' => strLe d' d = true := by
  have htotal : Std.Total fun d d' : Text => strLe d' d = true := ⟨fun d d' => strLe_total d' d⟩
  have htrans : IsTrans Text fun d d' => strLe d' d = true := ⟨fun _ _ _ h h' => strLe_trans h' h⟩
  exact List.pairwise_insertionSort _ dirs

/-- A canonical path is known by its names. -/
theorem Canonical.eq_of_comps {d d' : Text} (hd : Canonical d) (hd' : Canonical d')
    (h : GrubEnv.comps d = GrubEnv.comps d') : d = d' := by
  rw [hd, hd', h]

/-- The directories that are unmounted: those whose text begins with the chroot's. -/
theorem mem_unmountDirs {c d : Text} {mounts : Table} :
    d ∈ unmountDirs (some c) mounts ↔ ∃ m ∈ mounts, c <+: m.dir ∧ m.dir = d := by
  rw [unmountDirs, (perm_sortReverse _).mem_iff, List.mem_map]
  refine exists_congr fun m => ?_
  rw [List.mem_filter, List.isPrefixOf_iff_prefix, and_assoc]

/-- **A mount is unmounted before those that contain it.** -/
theorem order_unmountDirs (c : Text) (p : ProcMountsParser) :
    (unmountDirs (some c) p.mounts).Pairwise fun d d' => ¬ Below d' d := by
  have hcanonical : ∀ d ∈ unmountDirs (some c) p.mounts, Canonical d := by
    intro d hd
    obtain ⟨m, hm, -, rfl⟩ := mem_unmountDirs.mp hd
    exact p.canonical m hm
  refine (pairwise_sortReverse _).imp_of_mem fun {d d'} hd hd' hle hbelow => ?_
  have hprefix := prefix_of_within (hcanonical d' hd') (hcanonical d hd) hbelow.within
  rw [strLe_antisymm hle (strLe_of_isPrefix hprefix)] at hbelow
  exact not_below_self d hbelow

/-! ## One `umount` uncovers what was mounted before -/

section

variable {c dir : Text} {table : Table}

/-- A mount is free when nothing that was mounted later is below it or above it. -/
theorem free_iff : free dir table = true ↔ ∃ pre e post, table = pre ++ e :: post ∧ e.dir = dir ∧
    ∀ f ∈ post, ¬ Within dir f.dir ∧ ¬ Within f.dir dir := by
  induction table with
  | nil =>
      refine ⟨fun h => (by cases h), fun ⟨pre, e, post, h, _⟩ => ?_⟩
      exact absurd h.symm (List.append_ne_nil_of_right_ne_nil pre (List.cons_ne_nil e post))
  | cons e es ih =>
      rw [free, Bool.or_eq_true, Bool.and_eq_true, decide_eq_true_eq, List.all_eq_true, ih]
      constructor
      · rintro (⟨pre, e', post, rfl, h⟩ | ⟨hdir, hall⟩)
        · exact ⟨e :: pre, e', post, rfl, h⟩
        · exact ⟨[], e, es, rfl, hdir, fun f hf => of_decide_eq_true (hall f hf)⟩
      · rintro ⟨_ | ⟨e', pre⟩, e'', post, h, hdir, hall⟩
        · obtain ⟨rfl, rfl⟩ := List.cons.inj h
          exact Or.inr ⟨hdir, fun f hf => decide_eq_true (hall f hf)⟩
        · exact Or.inl ⟨pre, e'', post, (List.cons.inj h).2, hdir, hall⟩

/-- The last mount at a directory, and the table without it. -/
theorem unmount_cut (pre : Table) {e : Entry} {post : Table} (hdir : e.dir = dir)
    (hpost : ∀ f ∈ post, f.dir ≠ dir) : unmount dir (pre ++ e :: post) = pre ++ post := by
  have hlast : lastAt dir post = none := by
    rw [lastAt_eq, List.getLast?_eq_none_iff]
    exact List.filter_eq_nil_iff.mpr fun f hf h => hpost f hf (of_decide_eq_true h)
  induction pre with
  | nil => rw [List.nil_append, unmount, replaceLast, hlast, if_neg (by decide), if_pos hdir]
  | cons e' pre ih =>
      have hsome : (lastAt dir (pre ++ e :: post)).isSome = true := by
        rw [lastAt_append, lastAt, hlast, if_pos hdir]
        rfl
      rw [List.cons_append, unmount, replaceLast, if_pos hsome]
      exact congrArg (e' :: ·) ih

/-- A directory of the table is cut at its last mount. -/
theorem exists_cut (h : ∃ m ∈ table, m.dir = dir) : ∃ pre e post, table = pre ++ e :: post ∧
    e.dir = dir ∧ ∀ f ∈ post, f.dir ≠ dir := by
  induction table with
  | nil => exact h.elim fun m hm => absurd hm.1 List.not_mem_nil
  | cons e es ih =>
      by_cases hlater : ∃ m ∈ es, m.dir = dir
      · obtain ⟨pre, e', post, rfl, hcut⟩ := ih hlater
        exact ⟨e :: pre, e', post, rfl, hcut⟩
      · obtain ⟨m, hm, hdir⟩ := h
        rcases List.mem_cons.mp hm with rfl | hm
        · exact ⟨[], m, es, rfl, hdir, fun f hf heq => hlater ⟨f, hf, heq⟩⟩
        · exact absurd ⟨m, hm, hdir⟩ hlater

/-! ## Hidden mounts stay -/

/-- A mount with another further up behind it is still so after an `umount` of a third directory, and
    after one of its own. -/
theorem hidden_unmount {m f : Entry} (hmf : [m, f].Sublist table) (hbelow : Below m.dir f.dir)
    (hdir : dir ≠ f.dir) (h : kernelUmounts table dir = true) : [m, f].Sublist (unmount dir table) := by
  obtain ⟨pre, e, post, rfl, he, hpost⟩ := free_iff.mp ((Bool.and_eq_true _ _).mp h).2
  have hcut : unmount dir (pre ++ e :: post) = pre ++ post :=
    unmount_cut pre he fun g hg hgdir => (hpost g hg).1 (hgdir ▸ List.prefix_rfl)
  rw [hcut]
  by_cases hm : m.dir = dir
  · -- the mount that is taken away lies behind them
    obtain ⟨front, back, hsplit, hfront, hback⟩ := List.sublist_append_iff.mp hmf
    have hnil : back = [] := by
      rcases List.eq_nil_or_concat back with hnil | ⟨back', g, rfl⟩
      · exact hnil
      · have hg : g = f := by
          have hlast := congrArg List.getLast? hsplit
          rw [List.concat_eq_append, ← List.append_assoc, List.getLast?_concat] at hlast
          exact (Option.some.inj hlast).symm
        have hmem := hback.subset (List.concat_eq_append ▸ List.mem_append_right back' List.mem_cons_self)
        rw [hg] at hmem
        rcases List.mem_cons.mp hmem with rfl | hmem
        · exact absurd he.symm hdir
        · exact absurd (hm ▸ hbelow.within) (hpost f hmem).1
    rw [hnil, List.append_nil] at hsplit
    exact hsplit ▸ hfront.trans (List.sublist_append_left pre post)
  · have hother : ∀ g : Entry, g.dir ≠ dir → decide (g.dir ≠ dir) = true := fun g => decide_eq_true
    have hkept := hmf.filter fun g => decide (g.dir ≠ dir)
    rw [List.filter_eq_self.mpr fun g hg => hother g ?_, List.filter_append,
      List.filter_cons_of_neg (by rw [decide_eq_true_eq, not_not]; exact he), ← List.filter_append] at hkept
    · exact hkept.trans List.filter_sublist
    · rcases List.mem_cons.mp hg with rfl | hg
      · exact hm
      · rw [List.mem_singleton.mp hg]
        exact hdir.symm

/-- A mount that is not asked for stays. -/
theorem mem_umountAll {umounts : Table → Text → Bool} {dirs : List Text} {t' : Table} {m : Entry}
    (hm : m ∈ table) (hdirs : m.dir ∉ dirs) (h : umountAll umounts dirs table = (true, t')) : m ∈ t' := by
  have hat := atDir_umountAll m.dir h
  rw [List.count_eq_zero.mpr hdirs, Nat.sub_zero, List.take_length] at hat
  exact (mem_atDir.mp (hat ▸ mem_atDir.mpr ⟨hm, rfl⟩)).1

/-- **A hidden mount stays**, as long as directories come before those that contain them. -/
theorem stays {m f : Entry} (hbelow : Below m.dir f.dir) : ∀ {dirs : List Text} {table t' : Table},
    [m, f].Sublist table → dirs.Pairwise (fun d d' => ¬ Below d' d) →
    umountAll kernelUmounts dirs table = (true, t') → m ∈ t'
  | [], _, _, hmf, _, h => by
      cases h
      exact hmf.subset List.mem_cons_self
  | dir :: dirs, table, t', hmf, hpair, h => by
      have hcons := List.pairwise_cons.mp hpair
      -- once `f` can go, the directory of `m` is behind: it contains the one of `f`, so it came before
      by_cases hdir : dir = f.dir
      · have hnot : m.dir ∉ dir :: dirs := by
          intro hmem
          rcases List.mem_cons.mp hmem with heq | hmem
          · rw [heq, hdir] at hbelow
            exact not_below_self _ hbelow
          · exact hcons.1 _ hmem (hdir ▸ hbelow)
        exact mem_umountAll (hmf.subset List.mem_cons_self) hnot h
      · rw [umountAll] at h
        split at h
        · next hok => exact stays hbelow (hidden_unmount hmf hbelow hdir hok) hcons.2 h
        · cases h

/-! ## A run that cleans, under the condition -/

/-- The mounts in the directory, one at a time. -/
theorem mountsWithin_cons (c : Text) (e : Entry) (es : Table) :
    mountsWithin c (e :: es) = if Within e.dir c then e :: mountsWithin c es else mountsWithin c es := by
  rw [mountsWithin, List.filter_cons]
  simp only [decide_eq_true_eq]
  rfl

/-- A mount whose directory is not among them is not in the chroot. -/
theorem not_within_of_not_mem {m : Entry} (h : m ∈ table)
    (hm : m.dir ∉ (mountsWithin c table).map Entry.dir) : ¬ Within m.dir c :=
  fun hwithin => hm (List.mem_map.mpr ⟨m, List.mem_filter.mpr ⟨h, decide_eq_true hwithin⟩, rfl⟩)

/-- The next directory can be unmounted. -/
theorem free_of_next {dirs : List Text} (hperm : (dir :: dirs).Perm ((mountsWithin c table).map Entry.dir))
    (horder : ∀ d ∈ dirs, ¬ Below d dir) (hcanonical : ∀ m ∈ table, Canonical m.dir)
    (hhidden : table.Pairwise fun m f => Within m.dir c → ¬ Below m.dir f.dir)
    {pre post : Table} {e : Entry} (htable : table = pre ++ e :: post) (he : e.dir = dir)
    (hpost : ∀ f ∈ post, f.dir ≠ dir) (hin : Within dir c) : free dir table = true := by
  have hmem : ∀ f ∈ e :: post, f ∈ table := fun f hf => htable ▸ List.mem_append_right pre hf
  have hdir : Canonical dir := he ▸ hcanonical e (hmem e List.mem_cons_self)
  rw [htable] at hhidden
  have hlater := (List.pairwise_cons.mp (List.pairwise_append.mp hhidden).2.1).1
  refine free_iff.mpr ⟨pre, e, post, htable, he, fun f hf => ?_⟩
  have hftable := hmem f (List.mem_cons_of_mem e hf)
  have hne : ∀ h : GrubEnv.comps f.dir = GrubEnv.comps dir, False :=
    fun h => hpost f hf ((hcanonical f hftable).eq_of_comps hdir h)
  constructor
  · -- a mount above would hide this one
    intro hwithin
    exact hlater f hf (he ▸ hin) (he ▸ ⟨hwithin, hne⟩)
  · -- a mount below would have come first
    intro hwithin
    have hf' : f.dir ∈ dir :: dirs := hperm.mem_iff.mpr
      (List.mem_map.mpr ⟨f, List.mem_filter.mpr ⟨hftable, decide_eq_true (hwithin.trans hin)⟩, rfl⟩)
    rcases List.mem_cons.mp hf' with heq | hf'
    · exact hpost f hf heq
    · exact horder _ hf' ⟨hwithin, fun h => hne h.symm⟩

/-- **The run takes away the mounts of the chroot**, and no other. -/
theorem run_cleans : ∀ {dirs : List Text} {table : Table},
    dirs.Perm ((mountsWithin c table).map Entry.dir) → dirs.Pairwise (fun d d' => ¬ Below d' d) →
    (∀ d ∈ dirs, '\\' ∉ d) → (∀ m ∈ table, Canonical m.dir) →
    table.Pairwise (fun m f => Within m.dir c → ¬ Below m.dir f.dir) →
    umountAll kernelUmounts dirs table = (true, mountsOutside c table)
  | [], table, hperm, _, _, _, _ => by
      have hnil := hperm.nil_eq
      have hout : mountsOutside c table = table := List.filter_eq_self.mpr fun m hm => decide_eq_true
        (not_within_of_not_mem hm (hnil ▸ List.not_mem_nil))
      rw [umountAll, hout]
  | dir :: dirs, table, hperm, horder, hplain, hcanonical, hhidden => by
      have hcons := List.pairwise_cons.mp horder
      obtain ⟨m, hm, hmdir⟩ := List.mem_map.mp (hperm.mem_iff.mp List.mem_cons_self)
      obtain ⟨hmtable, hmin⟩ := List.mem_filter.mp hm
      have hin : Within dir c := hmdir ▸ of_decide_eq_true hmin
      -- the mount that goes is the last one at its directory
      obtain ⟨pre, e, post, htable, he, hpost⟩ := exists_cut ⟨m, hmtable, hmdir⟩
      have hfree := free_of_next hperm hcons.1 hcanonical hhidden htable he hpost hin
      have hok : kernelUmounts table dir = true :=
        (Bool.and_eq_true _ _).mpr ⟨decide_eq_true (hplain dir List.mem_cons_self), hfree⟩
      have hein : Within e.dir c := he ▸ hin
      have hsub : (pre ++ post).Sublist table :=
        htable ▸ (List.Sublist.refl pre).append (List.sublist_cons_self e post)
      have hperm' : dirs.Perm ((mountsWithin c (pre ++ post)).map Entry.dir) := by
        have hfront : (mountsWithin c table).Perm (e :: mountsWithin c (pre ++ post)) := by
          have hmiddle : (pre ++ e :: post).Perm (e :: (pre ++ post)) := List.perm_middle
          have hfilter : (mountsWithin c (pre ++ e :: post)).Perm (mountsWithin c (e :: (pre ++ post))) :=
            hmiddle.filter _
          rwa [← htable, mountsWithin_cons, if_pos hein] at hfilter
        have hmap := hfront.map Entry.dir
        rw [List.map_cons, he] at hmap
        exact (hperm.trans hmap).cons_inv
      have hout : mountsOutside c (pre ++ post) = mountsOutside c table := by
        rw [htable, mountsOutside, mountsOutside, List.filter_append, List.filter_append,
          List.filter_cons_of_neg (by rw [decide_eq_true_eq, not_not]; exact hein)]
      rw [umountAll, if_pos hok, htable, unmount_cut pre he hpost, ← htable, ← hout]
      exact run_cleans hperm' hcons.2 (fun d hd => hplain d (List.mem_cons_of_mem dir hd))
        (fun m hm => hcanonical m (hsub.subset hm)) (hhidden.sublist hsub)

/-! ## The chroot: all of its mounts are gone -/

/-- A table that is cleaned is one that is seen. -/
theorem visible_of_cleans {p : ProcMountsParser} (h : Cleans c p) : Visible c p := by
  have hiff : ∀ m ∈ p.mounts, c <+: m.dir ↔ Within m.dir c := by
    intro m hm
    have hmem := h.selection.mem_iff (a := m.dir)
    rw [mem_unmountDirs, List.mem_map] at hmem
    constructor
    · intro hprefix
      obtain ⟨m', hm', hdir⟩ := hmem.mp ⟨m, hm, hprefix, rfl⟩
      exact hdir ▸ of_decide_eq_true (List.mem_filter.mp hm').2
    · intro hwithin
      obtain ⟨m', -, hprefix, hdir⟩ := hmem.mpr ⟨m, List.mem_filter.mpr ⟨hm, decide_eq_true hwithin⟩, rfl⟩
      exact hdir ▸ hprefix
  refine ⟨hiff, fun m hm hwithin => ?_,
    List.pairwise_iff_forall_sublist.mpr fun {m f} hmf hwithin hbelow => ?_⟩
  · obtain ⟨front, back, hsplit⟩ :=
      List.append_of_mem (mem_unmountDirs.mpr ⟨m, hm, (hiff m hm).mpr hwithin, rfl⟩)
    have hrun := h.succeeds
    rw [InitrdContext.unmount, hsplit] at hrun
    obtain ⟨now, -, hok⟩ := umountAll_cut hrun
    exact of_decide_eq_true ((Bool.and_eq_true _ _).mp hok).1
  -- a mount that another hides is still there at the end, so it was not one of the chroot
  · have hleft := stays hbelow hmf h.order h.succeeds
    exact of_decide_eq_true (List.mem_filter.mp hleft).2 hwithin

/-- A table that is seen is cleaned, by induction on the directories in their order. -/
theorem cleans_of_visible {p : ProcMountsParser} (h : Visible c p) : Cleans c p := by
  have hselected : (p.mounts.filter fun e => c.isPrefixOf e.dir) = mountsWithin c p.mounts := by
    refine List.filter_congr fun m hm => ?_
    rw [Bool.eq_iff_iff, List.isPrefixOf_iff_prefix, decide_eq_true_eq]
    exact h.prefixes m hm
  have hperm : (unmountDirs (some c) p.mounts).Perm ((mountsWithin c p.mounts).map Entry.dir) := by
    rw [← hselected]
    exact perm_sortReverse _
  have hplain : ∀ d ∈ unmountDirs (some c) p.mounts, '\\' ∉ d := by
    intro d hd
    obtain ⟨m, hm, hprefix, rfl⟩ := mem_unmountDirs.mp hd
    exact h.plain m hm ((h.prefixes m hm).mp hprefix)
  have horder := order_unmountDirs c p
  exact ⟨hperm, horder, run_cleans hperm horder hplain p.canonical h.not_hidden⟩

end

/-- **`InitrdContext.unmount` cleans the chroot** exactly where its mounts are visible. -/
theorem cleans_iff (c : Text) (p : ProcMountsParser) : Cleans c p ↔ Visible c p :=
  ⟨visible_of_cleans, cleans_of_visible⟩

/-- A mount beside the chroot. -/
def sibling : ProcMountsParser where
  mounts := [⟨"tmpfs".toList, "/tmp/chroot2".toList, .rw⟩]
  canonical := by decide

/-- The sibling is unmounted. -/
theorem sibling_unmounted : ¬ ∀ (c : Text) (p : ProcMountsParser), Cleans c p := by
  intro h
  have hselection := (h "/tmp/chroot".toList sibling).selection
  exact absurd hselection.length_eq (by decide)

end DentOS.Mounts
