/-
  Where `partitionParted` puts the partitions of a spec.

  A cursor runs over the disk (`nextBlock`).  Each entry starts at the cursor, aligned upwards, takes
  its sectors and leaves the cursor behind them, so whatever happens the partitions are in order and
  behind those that were kept (`Below`, kept by `below_entry`).

  The layout law says more: that every partition ends before the end of the disk, and that '100%' gets
  everything up to there.  The code misses both by the way it counts.  The test is `end <= length`
  for an `end` that is a sector number, so an entry may end one sector too late; and '100%' counts
  from the cursor, not from the aligned start, so alignment makes it too long.  `layout_law_iff` is
  the exact condition on each entry, in terms of the cursor in front of it.
-/
import DentOS.Install.Partition

namespace DentOS.Install

open Effects PyText

/-! ## Arithmetic -/

/-- Rounding up to whole sectors covers the bytes. -/
theorem le_u2s (dev : Device) (n ub : Int) : n * ub ≤ u2s dev n ub * dev.sectorSize := by
  have hpos := dev.sectorSize_pos
  have hdiv := Int.ediv_mul_add_emod (n * ub + dev.sectorSize - 1) dev.sectorSize
  have hmod := Int.emod_lt_of_pos (n * ub + dev.sectorSize - 1) hpos
  rw [u2s, Int.fdiv_eq_ediv_of_nonneg _ (Int.le_of_lt hpos)]
  omega

/-- Alignment moves a sector number up, or leaves it. -/
theorem le_align (dev : Device) (spos : Int) : spos ≤ align dev spos := by
  have hpos := dev.sectorSize_pos
  unfold align
  cases dev.physicalSectorSize with
  | none => exact Int.le_refl _
  | some psz =>
      dsimp only
      split
      · exact Int.le_refl _
      split
      · exact Int.le_refl _
      split
      · exact Int.le_refl _
      · rename_i hgt _ _
        have hstride : 0 < psz.fdiv dev.sectorSize := by
          rw [Int.fdiv_eq_ediv_of_nonneg _ (Int.le_of_lt hpos)]
          exact (Int.le_ediv_iff_mul_le hpos).mpr (by omega)
        have hoff := Int.fmod_nonneg_of_pos
          (psz.fdiv dev.sectorSize - spos.fmod (psz.fdiv dev.sectorSize)) hstride
        omega

/-- The cursor, or 1. -/
theorem le_orOne (n : Int) : n ≤ orOne (some n) := by
  unfold orOne
  dsimp only
  split <;> omega

/-! ## One entry of the spec: the partition that is made for it -/

/-- The number of sectors of an entry, with the cursor at `n`. -/
def entryCount (dev : Device) (n : Int) (e : SpecEntry) : Option Int :=
  match e.sizeFormat with
  | .ok (sz, _) =>
      match sectorCount dev n sz with
      | .ok cnt => cnt
      | .error _ => none
  | .error _ => none

/-- The geometry of an entry that is accepted, with the cursor at `n`: it ends at or before the sector
    whose number is the length of the disk, and libparted takes it. -/
def accepted (dev : Device) (n : Int) (e : SpecEntry) : Option Geometry :=
  match entryCount dev n e with
  | some cnt =>
      if align dev n + cnt - 1 ≤ dev.length ∧ 1 ≤ cnt then some ⟨align dev n, cnt⟩ else none
  | none => none

/-- libparted makes and adds a partition at every geometry it is given. -/
def PartedPlaces (calls : Nat → EntryCalls) : Prop :=
  ∀ i, (calls i).fileSystem = true ∧ (calls i).addPartition = true

/-- What a commit keeps. -/
theorem keeps_commit {inv : Installer → Prop}
    (h : ∀ s, inv s → inv { s with table := s.partedDisk }) (c : Commit) :
    Prog.Keeps inv (commit c) := by
  cases c with
  | ok => exact Prog.keeps_modify h
  | notWritten => exact Prog.keeps_throw _ _
  | written => exact Prog.keeps_bind (Prog.keeps_modify h) fun _ => Prog.keeps_throw _ _

/-- What restoring the configuration keeps. -/
theorem keeps_restoreConfig {inv : Installer → Prop}
    (h : ∀ s a o, inv s → inv { s with configArchive := a, onlConfig := o }) (archive : Archive)
    (restore : Restore) : Prog.Keeps inv (restoreConfig archive restore) := by
  refine Prog.keeps_bind (Prog.keeps_modify fun s hs => h s none s.onlConfig hs) fun _ => ?_
  have hwrite : Prog.Keeps inv
      (Prog.modify fun s => { s with onlConfig := s.onlConfig ++ [archive] } : Inst Unit) :=
    Prog.keeps_modify fun s hs => h s s.configArchive (s.onlConfig ++ [archive]) hs
  cases restore with
  | ok => exact hwrite
  | notUnpacked => exact Prog.keeps_throw _ _
  | unpacked => exact Prog.keeps_bind hwrite fun _ => Prog.keeps_throw _ _

/-- The end of `createPartition`: what is restored. -/
theorem keeps_restoreStep {inv : Installer → Prop}
    (h : ∀ s a o, inv s → inv { s with configArchive := a, onlConfig := o }) (label : Text)
    (restore : Restore) : Prog.Keeps inv (restoreStep label restore) := by
  refine Prog.keeps_bind (Prog.keeps_get _) fun s => ?_
  cases s.configArchive with
  | none => exact Prog.keeps_pure _ _
  | some archive => exact Prog.keeps_ite (keeps_restoreConfig h archive restore) (Prog.keeps_pure _ _)

section

variable {dev : Device} {calls : EntryCalls} {e : SpecEntry} {s s' : Installer}

/-- The partitions in memory behind `createPartition`, on every way out. -/
theorem partedDisk_createPartition (hfs : calls.fileSystem = true)
    (hadd : calls.addPartition = true) (label fmt : Text) (geom : Geometry) (minpart : Int) :
    (createPartition calls label fmt geom minpart s).2.partedDisk =
      if 1 ≤ geom.length then
        { s.partedDisk with created := s.partedDisk.created ++ [⟨label, geom⟩] }
      else s.partedDisk := by
  unfold createPartition
  by_cases hlen : 1 ≤ geom.length
  · rw [Prog.check_bind_apply, decide_eq_true hlen, if_pos rfl, Prog.check_bind_apply, hfs,
      if_pos rfl, Prog.check_bind_apply, hadd, if_pos rfl, Prog.modify_bind_apply, if_pos hlen]
    let t : PartTable := { s.partedDisk with created := s.partedDisk.created ++ [⟨label, geom⟩] }
    have hkeeps : Prog.Keeps (fun s => s.partedDisk = t) (do
        commit calls.commit
        Prog.check calls.partprobe PyError.calledProcessError
        Prog.check (decide (fmt = "raw".toList ∨ calls.format = true)) PyError.calledProcessError
        Prog.modify fun s => { s with
          nextBlock := some (geom.last + 1), minpart := some (minpart + 1) }
        restoreStep label calls.restore) :=
      Prog.keeps_bind (keeps_commit (fun _ h => h) _) fun _ =>
        Prog.keeps_bind (Prog.keeps_check _ _ _) fun _ =>
        Prog.keeps_bind (Prog.keeps_check _ _ _) fun _ =>
        Prog.keeps_bind (Prog.keeps_modify fun _ h => h) fun _ =>
        keeps_restoreStep (fun _ _ _ h => h) _ _
    exact hkeeps _ rfl
  · rw [Prog.check_bind_apply, decide_eq_false hlen, if_neg Bool.false_ne_true, if_neg hlen]

/-- The cursor behind `createPartition`, when it returned. -/
theorem nextBlock_createPartition {label fmt : Text} {geom : Geometry} {minpart : Int}
    (h : createPartition calls label fmt geom minpart s = (.ok (), s')) :
    1 ≤ geom.length ∧ s'.nextBlock = some (geom.last + 1) := by
  unfold createPartition at h
  have hlen : 1 ≤ geom.length := by
    by_cases hlen : 1 ≤ geom.length
    · exact hlen
    · rw [Prog.check_bind_apply, decide_eq_false hlen] at h
      cases h
  refine ⟨hlen, ?_⟩
  obtain ⟨_, s1, -, h⟩ := Prog.bind_returns h
  obtain ⟨_, s2, -, h⟩ := Prog.bind_returns h
  obtain ⟨_, s3, -, h⟩ := Prog.bind_returns h
  obtain ⟨_, s4, -, h⟩ := Prog.bind_returns h
  obtain ⟨_, s5, -, h⟩ := Prog.bind_returns h
  obtain ⟨_, s6, -, h⟩ := Prog.bind_returns h
  obtain ⟨_, s7, -, h⟩ := Prog.bind_returns h
  rw [Prog.modify_bind_apply] at h
  have hkeeps : Prog.Keeps (fun s => s.nextBlock = some (geom.last + 1))
      (restoreStep label calls.restore) := keeps_restoreStep (fun _ _ _ h => h) _ _
  have hlast := hkeeps _ (rfl : ({ s7 with
    nextBlock := some (geom.last + 1), minpart := some (minpart + 1) } : Installer).nextBlock =
      some (geom.last + 1))
  rwa [h] at hlast

/-- The entry as a choice between its four ways: no size, no number, created, refused. -/
theorem partitionEntry_apply : partitionEntry dev calls e s =
    match e.sizeFormat with
    | .error err => (.error err, s)
    | .ok (sz, fmt) =>
        match sectorCount dev (orOne s.nextBlock) sz with
        | .error err => (.error err, s)
        | .ok none => reject s
        | .ok (some cnt) =>
            if align dev (orOne s.nextBlock) + cnt - 1 ≤ dev.length then
              (createPartition calls e.label fmt ⟨align dev (orOne s.nextBlock), cnt⟩
                (orOne s.minpart) >>= fun _ => pure 0) s
            else reject s := by
  unfold partitionEntry
  cases e.sizeFormat with
  | error err => rfl
  | ok sf =>
      obtain ⟨sz, fmt⟩ := sf
      show (Prog.ofExcept (sectorCount dev (orOne s.nextBlock) sz) >>= _) s = _
      dsimp only
      cases sectorCount dev (orOne s.nextBlock) sz with
      | error err => rfl
      | ok cnt =>
          cases cnt with
          | none => rfl
          | some cnt =>
              show (if align dev (orOne s.nextBlock) + cnt - 1 ≤ dev.length then _ else reject) s = _
              rw [show align dev (orOne s.nextBlock) + cnt - 1 - align dev (orOne s.nextBlock) + 1
                = cnt by omega]
              dsimp only
              by_cases hend : align dev (orOne s.nextBlock) + cnt - 1 ≤ dev.length
              · rw [if_pos hend, if_pos hend]
              · rw [if_neg hend, if_neg hend]

/-- **The partitions behind an entry**, on every way out: one more when it is accepted. -/
theorem partedDisk_partitionEntry (hfs : calls.fileSystem = true)
    (hadd : calls.addPartition = true) :
    (partitionEntry dev calls e s).2.partedDisk =
      match accepted dev (orOne s.nextBlock) e with
      | some g => { s.partedDisk with created := s.partedDisk.created ++ [⟨e.label, g⟩] }
      | none => s.partedDisk := by
  rw [partitionEntry_apply]
  unfold accepted entryCount
  cases e.sizeFormat with
  | error err => rfl
  | ok sf =>
      obtain ⟨sz, fmt⟩ := sf
      dsimp only
      cases sectorCount dev (orOne s.nextBlock) sz with
      | error err => rfl
      | ok cnt =>
          cases cnt with
          | none => rfl
          | some cnt =>
              dsimp only
              by_cases hend : align dev (orOne s.nextBlock) + cnt - 1 ≤ dev.length
              · have hdisk := partedDisk_createPartition (s := s) hfs hadd e.label fmt
                  ⟨align dev (orOne s.nextBlock), cnt⟩ (orOne s.minpart)
                rw [if_pos hend, Prog.state_bind_pure, hdisk]
                by_cases hcnt : 1 ≤ cnt
                · rw [if_pos hcnt, if_pos ⟨hend, hcnt⟩]
                · rw [if_neg hcnt, if_neg (fun h => hcnt h.2)]
              · rw [if_neg hend, if_neg (fun h => hend h.1)]
                rfl

/-- **The cursor behind an entry** that did not stop the loop. -/
theorem nextBlock_partitionEntry (h : partitionEntry dev calls e s = (.ok 0, s')) :
    ∃ g, accepted dev (orOne s.nextBlock) e = some g ∧ s'.nextBlock = some (g.last + 1) := by
  rw [partitionEntry_apply] at h
  unfold accepted entryCount
  cases hsize : e.sizeFormat with
  | error err =>
      rw [hsize] at h
      cases h
  | ok sf =>
      obtain ⟨sz, fmt⟩ := sf
      rw [hsize] at h
      dsimp only at h ⊢
      cases hcnt : sectorCount dev (orOne s.nextBlock) sz with
      | error err =>
          rw [hcnt] at h
          cases h
      | ok cnt =>
          rw [hcnt] at h
          cases cnt with
          | none => cases h
          | some cnt =>
              dsimp only at h ⊢
              by_cases hend : align dev (orOne s.nextBlock) + cnt - 1 ≤ dev.length
              · rw [if_pos hend] at h
                obtain ⟨_, s1, hcreate, hpure⟩ := Prog.bind_returns h
                cases hpure
                obtain ⟨hlen, hnext⟩ := nextBlock_createPartition hcreate
                exact ⟨_, if_pos ⟨hend, hlen⟩, hnext⟩
              · rw [if_neg hend] at h
                cases h

end

/-! ## The partitions that were kept and those created before -/

/-- Everything on the disk ends before the cursor. -/
structure Below (s : Installer) : Prop where
  kept : ∀ k ∈ s.partedDisk.existing, k.behind ≤ orOne s.nextBlock
  created : ∀ q ∈ s.partedDisk.created, q.geometry.last < orOne s.nextBlock

/-- New partitions lie behind those that were kept, one behind the other. -/
structure Ordered (t : PartTable) : Prop where
  kept : ∀ k ∈ t.existing, ∀ q ∈ t.created, k.behind ≤ q.geometry.start
  created : t.created.Pairwise fun q q' => q.geometry.last < q'.geometry.start

/-- What an accepted entry gets: it starts at or behind the cursor, and has at least one sector. -/
theorem accepted_spec {dev : Device} {n : Int} {e : SpecEntry} {g : Geometry}
    (h : accepted dev n e = some g) :
    entryCount dev n e = some g.length ∧ g.start = align dev n ∧ g.last ≤ dev.length ∧
      1 ≤ g.length := by
  unfold accepted at h
  cases hcnt : entryCount dev n e with
  | none =>
      rw [hcnt] at h
      cases h
  | some cnt =>
      rw [hcnt] at h
      dsimp only at h
      split at h
      · rename_i hfit
        injection h with h
        rw [← h]
        exact ⟨rfl, rfl, hfit.1, hfit.2⟩
      · cases h

/-- **One more partition**, behind all the others. -/
theorem ordered_append {s : Installer} {dev : Device} {e : SpecEntry} {g : Geometry}
    (hbelow : Below s) (hordered : Ordered s.partedDisk)
    (hg : accepted dev (orOne s.nextBlock) e = some g) (label : Text) :
    Ordered { s.partedDisk with created := s.partedDisk.created ++ [⟨label, g⟩] } := by
  obtain ⟨-, hstart, -, -⟩ := accepted_spec hg
  have hle := le_align dev (orOne s.nextBlock)
  constructor
  · intro k hk q hq
    rcases List.mem_append.mp hq with hq | hq
    · exact hordered.kept k hk q hq
    · rw [List.mem_singleton.mp hq]
      have := hbelow.kept k hk
      show k.behind ≤ g.start
      omega
  · refine List.pairwise_append.mpr ⟨hordered.created, List.pairwise_singleton _ _, ?_⟩
    intro q hq q' hq'
    rw [List.mem_singleton.mp hq']
    have := hbelow.created q hq
    show q.geometry.last < g.start
    omega

/-- An entry keeps all partitions below the cursor. -/
theorem below_entry {dev : Device} {calls : EntryCalls} {e : SpecEntry} {s s' : Installer}
    (hfs : calls.fileSystem = true) (hadd : calls.addPartition = true) (hbelow : Below s)
    (h : partitionEntry dev calls e s = (.ok 0, s')) : Below s' := by
  obtain ⟨g, hg, hnext⟩ := nextBlock_partitionEntry h
  have hdisk : (partitionEntry dev calls e s).2.partedDisk = _ := partedDisk_partitionEntry hfs hadd
  rw [h, hg] at hdisk
  obtain ⟨-, hstart, -, hlen⟩ := accepted_spec hg
  have hle := le_align dev (orOne s.nextBlock)
  have hcursor : g.last + 1 ≤ orOne s'.nextBlock := by
    rw [hnext]
    exact le_orOne _
  have hlast : g.last = g.start + g.length - 1 := rfl
  have hdisk' : s'.partedDisk = { s.partedDisk with
    created := s.partedDisk.created ++ [⟨e.label, g⟩] } := hdisk
  constructor
  · intro k hk
    rw [hdisk'] at hk
    have := hbelow.kept k hk
    omega
  · intro q hq
    rw [hdisk'] at hq
    rcases List.mem_append.mp hq with hq | hq
    · have := hbelow.created q hq
      omega
    · rw [List.mem_singleton.mp hq]
      show g.last < orOne s'.nextBlock
      omega

/-! ## The kept partitions stay where they are -/

/-- What the loop over the partitions computes: the partitions below `minpart`, whether there are
    others, and a sector behind those that are left. -/
theorem foldl_examine (minpart : Option Int) : ∀ (parts : List PartedPart)
    (acc : Int × Bool × List PartedPart),
    (parts.foldl (examine minpart) acc).2.2 = acc.2.2 ++ parts.filter (belowMinpart minpart) ∧
    (parts.foldl (examine minpart) acc).2.1 = (acc.2.1 || parts.any (!belowMinpart minpart ·)) ∧
    acc.1 ≤ (parts.foldl (examine minpart) acc).1 ∧
    ∀ k ∈ parts.filter (belowMinpart minpart),
      k.behind ≤ (parts.foldl (examine minpart) acc).1 := by
  intro parts
  induction parts with
  | nil =>
      intro acc
      refine ⟨(List.append_nil _).symm, (Bool.or_false _).symm, Int.le_refl _, ?_⟩
      intro k hk
      exact absurd hk List.not_mem_nil
  | cons part parts ih =>
      intro acc
      obtain ⟨nextBlock, dirty, left⟩ := acc
      obtain ⟨hleft, hdirty, hnext, hbehind⟩ := ih (examine minpart (nextBlock, dirty, left) part)
      rw [List.foldl_cons]
      unfold examine at hleft hdirty hnext hbehind ⊢
      dsimp only at hleft hdirty hnext hbehind ⊢
      by_cases hk : belowMinpart minpart part = true
      · rw [if_pos hk] at hleft hdirty hnext hbehind ⊢
        rw [List.filter_cons_of_pos hk, List.any_cons, hk]
        refine ⟨by rw [hleft, List.append_assoc]; rfl, by rw [hdirty]; rfl, ?_, ?_⟩
        · exact Int.le_trans (Int.le_max_right _ _) hnext
        · intro k hmem
          rcases List.mem_cons.mp hmem with rfl | hmem
          · exact Int.le_trans (Int.le_max_left _ _) hnext
          · exact hbehind k hmem
      · rw [if_neg hk] at hleft hdirty hnext hbehind ⊢
        rw [List.filter_cons_of_neg hk, List.any_cons, Bool.eq_false_iff.mpr hk]
        refine ⟨hleft, ?_, hnext, hbehind⟩
        rw [hdirty]
        simp only [Bool.not_false, Bool.true_or, Bool.or_true]

/-- The cursor behind `deletePartitions` is behind every partition that is left. -/
theorem below_deletePartitions {calls : DeleteCalls} {s s' : Installer}
    (hnext : s.nextBlock = none) (hcreated : s.partedDisk.created = [])
    (h : deletePartitions calls s = (.ok 0, s')) : Below s' ∧ s'.partedDisk.created = [] := by
  obtain ⟨-, -, hge, hbehind⟩ := foldl_examine s.minpart s.partedDisk.existing (-1, false, [])
  obtain ⟨hleft, -, -, -⟩ := foldl_examine s.minpart s.partedDisk.existing (-1, false, [])
  unfold deletePartitions at h
  rw [Prog.get_bind_apply] at h
  generalize s.partedDisk.existing.foldl (examine s.minpart) (-1, false, []) = r at *
  obtain ⟨nextBlock, dirty, left⟩ := r
  dsimp only at h hge hbehind hleft
  rw [Prog.modify_bind_apply] at h
  obtain ⟨_, s1, hcommit, h⟩ := Prog.bind_returns h
  obtain ⟨_, s2, hset, h⟩ := Prog.bind_returns h
  cases h
  let t : PartTable := { s.partedDisk with existing := left }
  have hkeeps : Prog.Keeps (fun s => s.partedDisk = t ∧ s.nextBlock = none)
      (commitDeleted calls dirty) :=
    Prog.keeps_ite (Prog.keeps_bind (keeps_commit (fun _ h => h) _) fun _ =>
      Prog.keeps_check _ _ _) (Prog.keeps_pure _ _)
  have hs1 := hkeeps { s with partedDisk := t } ⟨rfl, hnext⟩
  rw [hcommit] at hs1
  obtain ⟨hdisk, hnone⟩ := hs1
  have hcursor : s'.partedDisk = t ∧ nextBlock ≤ orOne s'.nextBlock := by
    unfold setNextBlock at hset
    split at hset
    · cases hset
      exact ⟨hdisk, le_orOne nextBlock⟩
    · cases hset
      refine ⟨hdisk, ?_⟩
      rw [hnone]
      show nextBlock ≤ 1
      omega
  obtain ⟨hdisk', hcursor⟩ := hcursor
  refine ⟨⟨?_, ?_⟩, by rw [hdisk']; exact hcreated⟩
  · intro k hk
    rw [hdisk'] at hk
    have hk' : k ∈ left := hk
    rw [hleft, List.nil_append] at hk'
    exact Int.le_trans (hbehind k hk') hcursor
  · intro q hq
    rw [hdisk'] at hq
    have hq' : q ∈ s.partedDisk.created := hq
    rw [hcreated] at hq'
    exact absurd hq' List.not_mem_nil

/-! ## The loop over the entries keeps what is created in order -/

section

variable {dev : Device} {calls : Nat → EntryCalls}

/-- The loop keeps all partitions below the cursor, by induction on the entries. -/
theorem below_partitionLoop (hplaces : PartedPlaces calls) : ∀ (pre : List SpecEntry) (i : Nat)
    (s s' : Installer), Below s → partitionLoop dev calls i pre s = (.ok 0, s') → Below s' := by
  intro pre
  induction pre with
  | nil =>
      intro i s s' hbelow h
      cases h
      exact hbelow
  | cons e rest ih =>
      intro i s s' hbelow h
      rw [partitionLoop] at h
      obtain ⟨code, s1, hentry, h⟩ := Prog.bind_returns h
      by_cases hcode : code = 0
      · rw [hcode] at hentry
        rw [if_neg (fun hne => hne hcode)] at h
        exact ih (i + 1) s1 s' (below_entry (hplaces i).1 (hplaces i).2 hbelow hentry) h
      · rw [if_pos hcode] at h
        cases h
        exact absurd rfl hcode

/-- However the loop ends, the partitions are ordered, and the new ones are those of the first
    entries of the spec. -/
theorem ordered_partitionLoop (dev : Device) (hplaces : PartedPlaces calls) : ∀ (spec : List SpecEntry) (i : Nat)
    (s : Installer), Below s → Ordered s.partedDisk →
    Ordered (partitionLoop dev calls i spec s).2.partedDisk ∧
    ∃ new, (partitionLoop dev calls i spec s).2.partedDisk =
        { s.partedDisk with created := s.partedDisk.created ++ new } ∧
      new.map NewPart.label <+: spec.map SpecEntry.label := by
  intro spec
  induction spec with
  | nil =>
      intro i s _ hordered
      refine ⟨hordered, [], ?_, List.nil_prefix⟩
      rw [List.append_nil]
      rfl
  | cons e rest ih =>
      intro i s hbelow hordered
      have hdisk : (partitionEntry dev (calls i) e s).2.partedDisk = _ :=
        partedDisk_partitionEntry (hplaces i).1 (hplaces i).2
      -- an entry that ends the loop, accepted or not
      have hstop : ∀ s1 : Installer, s1.partedDisk = (partitionEntry dev (calls i) e s).2.partedDisk →
          Ordered s1.partedDisk ∧ ∃ new, s1.partedDisk =
            { s.partedDisk with created := s.partedDisk.created ++ new } ∧
            new.map NewPart.label <+: (e :: rest).map SpecEntry.label := by
        intro s1 hs1
        rw [hs1, hdisk]
        cases hg : accepted dev (orOne s.nextBlock) e with
        | none => exact ⟨hordered, [], by rw [List.append_nil], List.nil_prefix⟩
        | some g =>
            refine ⟨ordered_append hbelow hordered hg e.label, [⟨e.label, g⟩], rfl, ?_⟩
            exact List.cons_prefix_cons.mpr ⟨rfl, List.nil_prefix⟩
      rw [partitionLoop]
      rcases hentry : partitionEntry dev (calls i) e s with ⟨_ | code, s1⟩
      · rw [Prog.bind_of_error hentry]
        exact hstop s1 (by rw [hentry])
      · rw [Prog.bind_of_ok hentry]
        by_cases hcode : code = 0
        · rw [if_neg (fun hne => hne hcode)]
          rw [hcode] at hentry
          obtain ⟨hordered1, -⟩ := hstop s1 (by rw [hentry])
          obtain ⟨hfinal, new, hnew, hlabels⟩ := ih (i + 1) s1
            (below_entry (hplaces i).1 (hplaces i).2 hbelow hentry) hordered1
          refine ⟨hfinal, ?_⟩
          obtain ⟨g, hg, -⟩ := nextBlock_partitionEntry hentry
          rw [hentry, hg] at hdisk
          have hdisk' : s1.partedDisk = { s.partedDisk with
            created := s.partedDisk.created ++ [⟨e.label, g⟩] } := hdisk
          refine ⟨⟨e.label, g⟩ :: new, ?_, List.cons_prefix_cons.mpr ⟨rfl, hlabels⟩⟩
          rw [hnew, hdisk']
          simp only [List.append_assoc, List.singleton_append]
        · rw [if_pos hcode]
          exact hstop s1 (by rw [hentry])

end

/-! ## The law: no partition overlaps another, and each is as large as asked for -/

/-- What the layout law says of one entry, in the state in front of it. -/
structure EntryLaw (dev : Device) (calls : EntryCalls) (e : SpecEntry) (s : Installer) : Prop where
  /-- An accepted entry lies behind the partitions on the disk and ends before the end of it, and a
      fixed size is covered. -/
  spans : ∀ q, (partitionEntry dev calls e s).2.partedDisk.created = s.partedDisk.created ++ [q] →
    (∀ k ∈ s.partedDisk.existing, k.behind ≤ q.geometry.start) ∧
    (∀ p ∈ s.partedDisk.created, p.geometry.last < q.geometry.start) ∧
    q.geometry.start ≤ q.geometry.last ∧ q.geometry.last < dev.length ∧
    ∀ sz fmt n ub, e.sizeFormat = .ok (sz, fmt) → sz ≠ wholeRest →
      unitBytes sz = .ok (some (n, ub)) → n * ub ≤ q.geometry.length * dev.sectorSize
  /-- '100%' gets everything from its aligned start on, if there is anything. -/
  rest : ∀ fmt, e.sizeFormat = .ok (wholeRest, fmt) →
    align dev (orOne s.nextBlock) < dev.length →
    (partitionEntry dev calls e s).2.partedDisk.created = s.partedDisk.created ++
      [⟨e.label, ⟨align dev (orOne s.nextBlock), dev.length - align dev (orOne s.nextBlock)⟩⟩]

/-- The layout law of a run of the loop over `spec` from `s`. -/
structure LayoutLaw (dev : Device) (calls : Nat → EntryCalls) (spec : List SpecEntry)
    (s : Installer) : Prop where
  ordered : Ordered (partitionLoop dev calls 0 spec s).2.partedDisk
  inSpecOrder : (partitionLoop dev calls 0 spec s).2.partedDisk.created.map NewPart.label <+:
    spec.map SpecEntry.label
  entries : ∀ pre e post s', spec = pre ++ e :: post →
    partitionLoop dev calls 0 pre s = (.ok 0, s') → EntryLaw dev (calls pre.length) e s'

/-- The condition on an entry, with the cursor at `n`: a fixed size does not end at the sector behind
    the last one, and '100%' is not moved by alignment, or is moved off the disk other than from its
    last sector to the one behind. -/
def EntrySafe (dev : Device) (n : Int) (e : SpecEntry) : Prop :=
  ∀ sz fmt, e.sizeFormat = .ok (sz, fmt) →
    if sz = wholeRest then
      align dev n = n ∨ (dev.length ≤ align dev n ∧
        ¬ (align dev n = dev.length ∧ n = dev.length - 1))
    else
      ∀ cnt, sectorCount dev n sz = .ok (some cnt) → 1 ≤ cnt → align dev n + cnt ≠ dev.length + 1

/-- The condition on a run: every entry the loop gets to is safe at the cursor in front of it. -/
def LayoutSafe (dev : Device) (calls : Nat → EntryCalls) (spec : List SpecEntry) (s : Installer) :
    Prop :=
  ∀ pre e post s', spec = pre ++ e :: post →
    partitionLoop dev calls 0 pre s = (.ok 0, s') → EntrySafe dev (orOne s'.nextBlock) e

/-! ## The law holds exactly under the condition -/

section

variable {dev : Device} {calls : EntryCalls} {e : SpecEntry} {s : Installer}

/-- '100%' is what is left. -/
theorem sectorCount_wholeRest (dev : Device) (n : Int) :
    sectorCount dev n wholeRest = .ok (some (dev.length - n)) := by
  have hfind : (units.find? fun unit => unit.1.isSuffixOf wholeRest) = none := by decide
  have hunits : unitBytes wholeRest = .ok none := by rw [unitBytes, hfind]
  rw [sectorCount, hunits]
  exact if_pos rfl

/-- A size is accepted when it ends on the disk. -/
theorem accepted_eq {sz fmt : Text} {n cnt : Int} (hsize : e.sizeFormat = .ok (sz, fmt))
    (hcnt : sectorCount dev n sz = .ok (some cnt)) : accepted dev n e =
      if align dev n + cnt - 1 ≤ dev.length ∧ 1 ≤ cnt then some ⟨align dev n, cnt⟩ else none := by
  have hcount : entryCount dev n e = some cnt := by
    rw [entryCount, hsize]
    dsimp only
    rw [hcnt]
  rw [accepted, hcount]

/-- Where the number of sectors of an entry comes from. -/
theorem entryCount_eq_some {n cnt : Int} (h : entryCount dev n e = some cnt) :
    ∃ sz fmt, e.sizeFormat = .ok (sz, fmt) ∧ sectorCount dev n sz = .ok (some cnt) := by
  unfold entryCount at h
  rcases hsize : e.sizeFormat with _ | ⟨sz, fmt⟩
  · rw [hsize] at h
    cases h
  · rw [hsize] at h
    dsimp only at h
    rcases hcnt : sectorCount dev n sz with _ | c
    · rw [hcnt] at h
      cases h
    · rw [hcnt] at h
      exact ⟨sz, fmt, rfl, by rw [hcnt, show c = some cnt from h]⟩

/-- A safe entry that is accepted ends before the end of the disk. -/
theorem last_lt_of_safe {n : Int} {g : Geometry} (hsafe : EntrySafe dev n e)
    (hg : accepted dev n e = some g) : g.last < dev.length := by
  obtain ⟨hcount, hstart, hlast, hlen⟩ := accepted_spec hg
  obtain ⟨sz, fmt, hsize, hcnt⟩ := entryCount_eq_some hcount
  have hdef : g.last = g.start + g.length - 1 := rfl
  have h := hsafe sz fmt hsize
  by_cases hrest : sz = wholeRest
  · rw [if_pos hrest] at h
    rw [hrest, sectorCount_wholeRest] at hcnt
    injection hcnt with hcnt
    injection hcnt with hcnt
    rcases h with h | ⟨hge, hnot⟩
    · omega
    · exact absurd ⟨by omega, by omega⟩ hnot
  · rw [if_neg hrest] at h
    have := h g.length hcnt hlen
    omega

/-- A fixed size is covered by the sectors it is turned into. -/
theorem covers_of_count {c cnt n ub : Int} {sz fmt : Text} (hcount : entryCount dev c e = some cnt)
    (hsize : e.sizeFormat = .ok (sz, fmt)) (hfixed : sz ≠ wholeRest)
    (hbytes : unitBytes sz = .ok (some (n, ub))) : n * ub ≤ cnt * dev.sectorSize := by
  obtain ⟨sz', fmt', hsize', hcnt⟩ := entryCount_eq_some hcount
  rw [hsize] at hsize'
  injection hsize' with hsize'
  injection hsize' with hsz
  rw [← hsz, sectorCount, hbytes] at hcnt
  dsimp only at hcnt
  rw [if_neg hfixed] at hcnt
  injection hcnt with hcnt
  have hlength : u2s dev n ub = cnt := Option.some.inj hcnt
  rw [← hlength]
  exact le_u2s dev n ub

/-- An entry that keeps the law is safe. -/
theorem EntryLaw.safe (hfs : calls.fileSystem = true) (hadd : calls.addPartition = true)
    (law : EntryLaw dev calls e s) : EntrySafe dev (orOne s.nextBlock) e := by
  have hdisk : (partitionEntry dev calls e s).2.partedDisk = _ := partedDisk_partitionEntry hfs hadd
  have hup := le_align dev (orOne s.nextBlock)
  intro sz fmt hsize
  by_cases hrest : sz = wholeRest
  · rw [if_pos hrest]
    rw [hrest] at hsize
    have hacc := accepted_eq hsize (sectorCount_wholeRest dev (orOne s.nextBlock))
    by_cases hlt : align dev (orOne s.nextBlock) < dev.length
    · -- it must be accepted, with all of the rest
      have hcreated := law.rest fmt hsize hlt
      rw [hdisk, hacc] at hcreated
      split at hcreated
      · rename_i g hg
        split at hg
        · injection hg with hg
          have hq := List.append_cancel_left hcreated
          injection hq with hq
          injection hq with _ hgeom
          rw [← hg] at hgeom
          injection hgeom with _ hlength
          omega
        · cases hg
      · have hlength := congrArg List.length hcreated
        rw [List.length_append, List.length_singleton] at hlength
        omega
    · refine Or.inr ⟨by omega, ?_⟩
      rintro ⟨hend, hcursor⟩
      rw [if_pos (by omega)] at hacc
      rw [hacc] at hdisk
      obtain ⟨-, -, -, hlast, -⟩ := law.spans _ (congrArg PartTable.created hdisk)
      have hlast' : align dev (orOne s.nextBlock) + (dev.length - orOne s.nextBlock) - 1 <
        dev.length := hlast
      omega
  · rw [if_neg hrest]
    intro cnt hcnt hpos hend
    have hacc := accepted_eq hsize hcnt
    rw [if_pos (by omega)] at hacc
    rw [hacc] at hdisk
    obtain ⟨-, -, -, hlast, -⟩ := law.spans _ (congrArg PartTable.created hdisk)
    have hlast' : align dev (orOne s.nextBlock) + cnt - 1 < dev.length := hlast
    omega

/-- A safe entry keeps the law. -/
theorem EntrySafe.law (hfs : calls.fileSystem = true) (hadd : calls.addPartition = true)
    (hbelow : Below s) (hsafe : EntrySafe dev (orOne s.nextBlock) e) : EntryLaw dev calls e s := by
  have hdisk : (partitionEntry dev calls e s).2.partedDisk = _ := partedDisk_partitionEntry hfs hadd
  have hup := le_align dev (orOne s.nextBlock)
  constructor
  · intro q hq
    rw [hdisk] at hq
    cases hg : accepted dev (orOne s.nextBlock) e with
    | none =>
        rw [hg] at hq
        have hlength : s.partedDisk.created.length = (s.partedDisk.created ++ [q]).length :=
          congrArg List.length hq
        rw [List.length_append, List.length_singleton] at hlength
        omega
    | some g =>
        rw [hg] at hq
        have hq' := List.append_cancel_left hq
        injection hq' with hq'
        rw [← hq']
        obtain ⟨hcount, hstart, -, hlen⟩ := accepted_spec hg
        have hdef : g.last = g.start + g.length - 1 := rfl
        refine ⟨fun k hk => ?_, fun p hp => ?_, ?_, last_lt_of_safe hsafe hg, ?_⟩
        · have := hbelow.kept k hk
          show k.behind ≤ g.start
          omega
        · have := hbelow.created p hp
          show p.geometry.last < g.start
          omega
        · show g.start ≤ g.last
          omega
        · exact fun sz fmt n ub hsize hfixed hbytes => covers_of_count hcount hsize hfixed hbytes
  · intro fmt hsize hlt
    have h := hsafe wholeRest fmt hsize
    rw [if_pos rfl] at h
    have haligned : align dev (orOne s.nextBlock) = orOne s.nextBlock := by omega
    have hacc := accepted_eq hsize (sectorCount_wholeRest dev (orOne s.nextBlock))
    rw [if_pos (by omega)] at hacc
    rw [hdisk, hacc, haligned]

/-- **The law of an entry is its condition.** -/
theorem entryLaw_iff (hfs : calls.fileSystem = true) (hadd : calls.addPartition = true)
    (hbelow : Below s) : EntryLaw dev calls e s ↔ EntrySafe dev (orOne s.nextBlock) e :=
  ⟨fun law => law.safe hfs hadd, fun hsafe => hsafe.law hfs hadd hbelow⟩

end

/-- **The layout law, exactly.**  Behind a deletion that left `s`, the partitions are laid out by the
    law exactly when every entry that the loop gets to is safe. -/
theorem layout_law_iff {dev : Device} {calls : Nat → EntryCalls} (hplaces : PartedPlaces calls)
    (spec : List SpecEntry) {deletes : DeleteCalls} {s0 s : Installer} (hnext : s0.nextBlock = none)
    (hcreated : s0.partedDisk.created = []) (hdelete : deletePartitions deletes s0 = (.ok 0, s)) :
    LayoutLaw dev calls spec s ↔ LayoutSafe dev calls spec s := by
  obtain ⟨hbelow, hempty⟩ := below_deletePartitions hnext hcreated hdelete
  have hentry : ∀ pre e s', partitionLoop dev calls 0 pre s = (.ok 0, s') →
      (EntryLaw dev (calls (List.length pre)) e s' ↔ EntrySafe dev (orOne s'.nextBlock) e) :=
    fun pre e s' hloop => entryLaw_iff (hplaces _).1 (hplaces _).2
      (below_partitionLoop hplaces pre 0 s s' hbelow hloop)
  constructor
  · intro law pre e post s' hspec hloop
    exact (hentry pre e s' hloop).mp (law.entries pre e post s' hspec hloop)
  · intro hsafe
    have hordered : Ordered s.partedDisk := by
      refine ⟨fun k _ q hq => ?_, ?_⟩
      · rw [hempty] at hq
        exact absurd hq List.not_mem_nil
      · rw [hempty]
        exact List.Pairwise.nil
    obtain ⟨hfinal, new, hnew, hlabels⟩ :=
      ordered_partitionLoop dev hplaces spec 0 s hbelow hordered
    refine ⟨hfinal, ?_, fun pre e post s' hspec hloop => ?_⟩
    · rw [hnew]
      show (s.partedDisk.created ++ new).map NewPart.label <+: _
      rw [hempty]
      exact hlabels
    · exact (hentry pre e s' hloop).mpr (hsafe pre e post s' hspec hloop)

/-! ## A full disk -/

/-- A disk of 200 sectors. -/
def smallDisk : Device where
  length := 200
  sectorSize := 512
  physicalSectorSize := some 512
  sectorSize_pos := by decide

/-- Every call succeeds. -/
def goodCalls (_ : Nat) : EntryCalls where
  fileSystem := true
  addPartition := true
  commit := .ok
  partprobe := true
  format := true
  restore := .ok

/-- The deletion succeeds. -/
def goodDeletes : DeleteCalls where
  commit := .ok
  partprobe := true

/-- One partition on the disk, below `minpart`, up to sector 100. -/
def keptTable : PartTable where
  existing := [⟨1, "/dev/sda1".toList, some "ONIE-BOOT".toList, false, ⟨34, 67⟩⟩]
  created := []

/-- An installer that keeps one partition. -/
def keptInstaller : Installer where
  device := some "/dev/sda".toList
  minpart := some 2
  nextBlock := none
  blkidParts := []
  espDevice := none
  espFsUuid := none
  configArchive := none
  partedDisk := keptTable
  table := keptTable
  saved := []
  onlConfig := []
  rejected := false

/-- A partition of 80 sectors, on a disk with 99 left. -/
def roomySpec : List SpecEntry := [⟨"ONL-DATA".toList, .size "40KiB".toList⟩]

/-- The 80 sectors end in front of the last one. -/
theorem roomySpec_safe :
    LayoutSafe smallDisk goodCalls roomySpec (deletePartitions goodDeletes keptInstaller).2 := by
  intro pre e post s' hspec hloop
  obtain ⟨rfl, hone⟩ : pre = [] ∧ e :: post = roomySpec := by
    rcases pre with _ | ⟨x, pre⟩
    · exact ⟨rfl, hspec.symm⟩
    · have hempty : pre ++ e :: post = [] := (List.cons.inj hspec).2.symm
      exact absurd (List.append_eq_nil_iff.mp hempty).2 (List.cons_ne_nil e post)
  cases hone
  cases hloop
  intro sz fmt hsize
  cases hsize
  rw [if_neg (by decide)]
  intro cnt hcnt _
  have hcount : sectorCount smallDisk 101 "40KiB".toList = .ok (some 80) := by decide +kernel
  cases hcount.symm.trans hcnt
  decide +kernel

/-- The partition is between the one that is kept and the end of the disk. -/
theorem roomySpec_law :
    LayoutLaw smallDisk goodCalls roomySpec (deletePartitions goodDeletes keptInstaller).2 :=
  (layout_law_iff (fun _ => ⟨rfl, rfl⟩) roomySpec (show keptInstaller.nextBlock = none from rfl)
    (show keptInstaller.partedDisk.created = [] from rfl)
    (show deletePartitions goodDeletes keptInstaller = (.ok 0, _) from rfl)).mpr roomySpec_safe

/-- A partition of 100 sectors, on a disk with 99 left. -/
def fullSpec : List SpecEntry := [⟨"ONL-DATA".toList, .size "50KiB".toList⟩]

/-- The partition is created, and ends at sector 200 of a disk whose last sector is 199. -/
theorem fullSpec_overruns :
    ¬ LayoutLaw smallDisk goodCalls fullSpec (deletePartitions goodDeletes keptInstaller).2 := by
  intro law
  have hentry := law.entries [] ⟨"ONL-DATA".toList, .size "50KiB".toList⟩ [] _ rfl rfl
  obtain ⟨-, -, -, hlast, -⟩ := hentry.spans ⟨"ONL-DATA".toList, ⟨101, 100⟩⟩ (by decide +kernel)
  exact absurd hlast (by decide)

end DentOS.Install
