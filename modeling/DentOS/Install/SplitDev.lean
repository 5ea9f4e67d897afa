/-
  Disks and their partitions by name (onl/install/InstallUtils.py).

  A partition is named after its disk: `sda1`, and with a `p` between where the disk itself ends in a
  digit, `nvme0n1p1` (`partDevice`, the rule of `GdiskParser.parse`).  `splitDev` goes back.  It takes
  the digits off the end, and whether a `p` is to go with them it decides from the first `p` of the
  whole path: one that stands between two digits is taken for the one of the rule
  (`partitionMarked`).

  So the partition of a disk is split right exactly where that guess is right for the disk
  (`splitDev_partDevice_iff`): the `p` of `loop` hides the one of `loop0p1`.  A whole disk that ends in a
  digit is never split right, since its digits are taken for those of a partition
  (`splitDev_part_ne_nil`).

  `findGpt` selects what `splitDev` made of an entry that has a partition number
  (`keeps_selected_findGpt`), so it selects a disk where all entries are split right.
-/
import DentOS.Install.Recovery

namespace DentOS.Install

open Effects PyText

/-! ## The rule: which part of a device's name is the disk -/

/-- A name that ends in a digit. -/
def endsInDigit (t : Text) : Bool := t.getLast?.any Char.isDigit

/-- The name of a partition, in `GdiskParser.parse`. -/
def partDevice (device : Text) (pidx : Nat) : Text :=
  if endsInDigit device then device ++ 'p' :: strInt pidx else device ++ strInt pidx

/-- A whole disk of a kind whose name ends in a number. -/
def WholeNumbered (d : Text) : Prop :=
  (∃ a b : Nat, d = "/dev/nvme".toList ++ strInt a ++ 'n' :: strInt b) ∨
    (∃ a : Nat, d = "/dev/mmcblk".toList ++ strInt a) ∨ ∃ a : Nat, d = "/dev/loop".toList ++ strInt a

/-- The test of `splitDev`: the first `p` stands between two digits. -/
def partitionMarked (device : Text) : Except PyError Bool := do
  let mark := pyFind device 'p'
  let before ← pyIndex device (mark - 1)
  if before.isDigit then do
    let after ← pyIndex device (mark + 1)
    pure after.isDigit
  else pure false

/-- **`splitDev` inverts the rule** for a disk: its partitions, and the disk itself where its name says
    that it is one. -/
def Inverts (d : Text) : Prop :=
  (∀ n : Nat, 1 ≤ n → splitDev (partDevice d n) = .ok (d, strInt n)) ∧
    (endsInDigit d = false ∨ WholeNumbered d → splitDev d = .ok (d, []))

/-- An entry of blkid for one of the disks `ds`: a partition, or the disk itself. -/
def Listed (ds : List Text) (part : BlkidEntry) : Prop :=
  ∃ d ∈ ds, (∃ n : Nat, 1 ≤ n ∧ part.device = partDevice d n) ∨
    part.device = d ∧ (endsInDigit d = false ∨ WholeNumbered d)

/-- **`findGpt` selects disks**: what it leaves as the install device is one of the disks, and one that
    has a partition in the list. -/
def SelectsDisks (ds : List Text) : Prop :=
  ∀ (m : Machine) (parts : List BlkidEntry), m.blkid = some parts →
    (∀ part ∈ parts, Listed ds part) → ∀ s, s.device = none → ∀ dev,
    (findGpt m s).2.device = some dev →
      dev ∈ ds ∧ ∃ part ∈ parts, ∃ n : Nat, 1 ≤ n ∧ part.device = partDevice dev n

/-- What a disk has to be: the test holds of its partitions where the rule puts a `p`, and of no others;
    it is no whole disk with a number; and the test fails on the disk itself if that has no digit at
    its end. -/
structure Fits (d : Text) : Prop where
  partition : ∀ n : Nat, 1 ≤ n → partitionMarked (partDevice d n) = .ok (endsInDigit d)
  not_numbered : ¬ WholeNumbered d
  whole : endsInDigit d = false → partitionMarked d = .ok false

/-! ## Digits at the end of a name -/

/-- `splitDev`, by the two loops it is made of. -/
theorem splitDev_eq (device : Text) :
    splitDev device = partitionMarked device >>= fun offset =>
      stripDigits device.reverse [] >>= fun r => pure (if offset then r.1.dropLast else r.1, r.2) := by
  rw [splitDev, partitionMarked]
  cases pyIndex device (pyFind device 'p' - 1) with
  | error e => rfl
  | ok before =>
      simp only [bind, Except.bind, pure, Except.pure]
      cases before.isDigit with
      | false => rfl
      | true =>
          cases pyIndex device (pyFind device 'p' + 1) with
          | error e => rfl
          | ok after => rfl

/-- Digits are taken off one by one. -/
theorem stripDigits_append : ∀ {ds : Text}, (∀ c ∈ ds, c.isDigit = true) → ∀ (rev part : Text),
    stripDigits (ds ++ rev) part = stripDigits rev (ds.reverse ++ part)
  | [], _, _, _ => rfl
  | c :: ds, h, rev, part => by
      rw [List.cons_append, stripDigits, if_pos (h c List.mem_cons_self),
        stripDigits_append (fun c hc => h c (List.mem_cons_of_mem _ hc)), List.reverse_cons,
        List.append_assoc]
      rfl

/-- The digits taken off are added to the number. -/
theorem stripDigits_length : ∀ {rev part dev part' : Text},
    stripDigits rev part = .ok (dev, part') → part.length ≤ part'.length
  | [], _, _, _, h => by cases h
  | c :: rev, part, dev, part', h => by
      rw [stripDigits] at h
      split at h
      · exact Nat.le_of_succ_le (stripDigits_length h)
      · cases h
        exact Nat.le_refl _

/-- The last letter decides whether a name ends in a digit. -/
theorem endsInDigit_concat (t : Text) (c : Char) : endsInDigit (t ++ [c]) = c.isDigit := by
  rw [endsInDigit, List.getLast?_concat]
  rfl

/-- A text that does not end in a digit keeps all of itself. -/
theorem stripDigits_whole {front : Text} (hne : front ≠ []) (h : endsInDigit front = false)
    (part : Text) : stripDigits front.reverse part = .ok (front, part) := by
  obtain ⟨t, c, rfl⟩ := (List.eq_nil_or_concat' front).resolve_left hne
  rw [endsInDigit_concat] at h
  rw [List.reverse_append, List.reverse_singleton, List.singleton_append, stripDigits,
    if_neg (by rw [h]; decide), List.reverse_cons, List.reverse_reverse]

/-- A number is made of digits. -/
theorem isDigit_of_mem_strInt {n : Nat} {c : Char} (h : c ∈ strInt n) : c.isDigit = true :=
  isDigit_of_mem h

/-- A text without a digit at its end, and a number: they come apart there. -/
theorem stripDigits_number {front : Text} (hne : front ≠ []) (h : endsInDigit front = false) (n : Nat) :
    stripDigits (front ++ strInt n).reverse [] = .ok (front, strInt n) := by
  have hdigits : ∀ c ∈ (strInt n).reverse, c.isDigit = true := fun c hc =>
    isDigit_of_mem_strInt (List.mem_reverse.mp hc)
  rw [List.reverse_append, stripDigits_append hdigits, List.reverse_reverse, List.append_nil,
    stripDigits_whole hne h]

/-- A name with a number behind ends in a digit. -/
theorem endsInDigit_number (t : Text) (n : Nat) : endsInDigit (t ++ strInt n) = true := by
  have hne := strInt_ne_nil n
  rw [endsInDigit, List.getLast?_append_of_ne_nil t hne, List.getLast?_eq_some_getLast hne]
  exact isDigit_of_mem_strInt (List.getLast_mem hne)

/-- A disk with a number ends in a digit. -/
theorem WholeNumbered.endsInDigit {d : Text} (h : WholeNumbered d) : endsInDigit d = true := by
  rcases h with ⟨a, b, rfl⟩ | ⟨a, rfl⟩ | ⟨a, rfl⟩
  · rw [← List.singleton_append, ← List.append_assoc]
    exact endsInDigit_number _ b
  · exact endsInDigit_number _ a
  · exact endsInDigit_number _ a

/-! ## `splitDev` follows the rule, exactly where its test says what the rule has done -/

/-- **A partition is split right** exactly where the test says whether the rule has put a `p`. -/
theorem splitDev_partDevice_iff {d : Text} (hd : d ≠ []) (n : Nat) :
    splitDev (partDevice d n) = .ok (d, strInt n) ↔
      partitionMarked (partDevice d n) = .ok (endsInDigit d) := by
  -- what stands in front of the number, and what the test leaves of it
  obtain ⟨front, hname, hne, hfront, hwith, hwithout⟩ : ∃ front, partDevice d n = front ++ strInt n ∧
      front ≠ [] ∧ endsInDigit front = false ∧ (front.dropLast = d ↔ endsInDigit d = true) ∧
      (front = d ↔ endsInDigit d = false) := by
    rw [partDevice]
    cases hdigit : endsInDigit d with
    | true =>
        refine ⟨d ++ ['p'], by rw [if_pos rfl, List.append_assoc]; rfl, by simp,
          endsInDigit_concat d 'p', iff_of_true List.dropLast_concat rfl, iff_of_false ?_ (by decide)⟩
        simp
    | false =>
        refine ⟨d, by rw [if_neg (by decide)], hd, hdigit, iff_of_false (fun h => ?_) (by decide),
          iff_of_true rfl rfl⟩
        have hlength := congrArg List.length h
        have hpos := List.length_pos_iff.mpr hd
        rw [List.length_dropLast] at hlength
        omega
  rw [splitDev_eq]
  cases hmarked : partitionMarked (partDevice d n) with
  | error e => exact ⟨fun h => (by cases h), fun h => (by cases h)⟩
  | ok marked =>
      rw [hname, stripDigits_number hne hfront]
      show Except.ok (if marked = true then front.dropLast else front, strInt n) = _ ↔ _
      rw [Except.ok.injEq, Prod.mk.injEq, Except.ok.injEq]
      cases marked with
      | true =>
          rw [if_pos rfl, hwith]
          exact ⟨fun h => h.1.symm, fun h => ⟨h.symm, rfl⟩⟩
      | false =>
          rw [if_neg (by decide), hwithout]
          exact ⟨fun h => h.1.symm, fun h => ⟨h.symm, rfl⟩⟩

/-- A name without a digit at its end is a whole disk unless it is marked. -/
theorem splitDev_whole_iff {d : Text} (hd : d ≠ []) (h : endsInDigit d = false) :
    splitDev d = .ok (d, []) ↔ partitionMarked d = .ok false := by
  rw [splitDev_eq, stripDigits_whole hd h]
  cases partitionMarked d with
  | error e => exact ⟨fun h => (by cases h), fun h => (by cases h)⟩
  | ok marked =>
      show Except.ok (if marked = true then d.dropLast else d, []) = _ ↔ _
      rw [Except.ok.injEq, Prod.mk.injEq, Except.ok.injEq]
      cases marked with
      | true =>
          refine iff_of_false (fun heq => ?_) (by decide)
          have hlength := congrArg List.length heq.1
          have hpos := List.length_pos_iff.mpr hd
          rw [if_pos rfl, List.length_dropLast] at hlength
          omega
      | false => exact iff_of_true ⟨rfl, rfl⟩ rfl

/-- A name that ends in a digit is never taken for a whole disk. -/
theorem splitDev_part_ne_nil {device dev part : Text} (h : endsInDigit device = true)
    (hsplit : splitDev device = .ok (dev, part)) : part ≠ [] := by
  have hne : device ≠ [] := by
    rintro rfl
    exact absurd h (by decide)
  obtain ⟨t, c, rfl⟩ := (List.eq_nil_or_concat' device).resolve_left hne
  rw [endsInDigit_concat] at h
  rw [splitDev_eq, List.reverse_append, List.reverse_singleton, List.singleton_append, stripDigits,
    if_pos h] at hsplit
  cases hmarked : partitionMarked (t ++ [c]) with
  | error e =>
      rw [hmarked] at hsplit
      cases hsplit
  | ok marked =>
      cases hstrip : stripDigits t.reverse [c] with
      | error e =>
          rw [hmarked, hstrip] at hsplit
          cases hsplit
      | ok r =>
          rw [hmarked, hstrip] at hsplit
          cases hsplit
          have hlength := stripDigits_length hstrip
          exact List.ne_nil_of_length_pos hlength

/-- **Splitting is the inverse** exactly where the name fits. -/
theorem inverts_iff {d : Text} (hd : d ≠ []) : Inverts d ↔ Fits d := by
  constructor
  · rintro ⟨hpartition, hwhole⟩
    refine ⟨fun n hn => (splitDev_partDevice_iff hd n).mp (hpartition n hn), fun hnumbered => ?_,
      fun h => (splitDev_whole_iff hd h).mp (hwhole (.inl h))⟩
    exact splitDev_part_ne_nil hnumbered.endsInDigit (hwhole (.inr hnumbered)) rfl
  · intro hfits
    refine ⟨fun n hn => (splitDev_partDevice_iff hd n).mpr (hfits.partition n hn), ?_⟩
    rintro (h | hnumbered)
    · exact (splitDev_whole_iff hd h).mpr (hfits.whole h)
    · exact absurd hnumbered hfits.not_numbered

/-- Without a `p` the test looks at the first letter of the path. -/
theorem partitionMarked_of_not_mem {c d : Char} {t : Text} (hc : c.isDigit = false)
    (hp : 'p' ∉ c :: d :: t) : partitionMarked (c :: d :: t) = .ok false := by
  have hfind : pyFind (c :: d :: t) 'p' = -1 := by
    rw [pyFind, List.idxOf?_eq_none_iff.mpr hp]
  have hbefore : ∃ before, pyIndex (c :: d :: t) (-1 - 1) = .ok before := by
    have hj : (-1 - 1 : Int) + (c :: d :: t).length = (t.length : Int) := by
      rw [List.length_cons, List.length_cons]
      omega
    have hlt : t.length < (c :: d :: t).length := by
      rw [List.length_cons, List.length_cons]
      omega
    refine ⟨(c :: d :: t)[t.length], ?_⟩
    rw [pyIndex]
    simp only [hj, show (-1 - 1 : Int) < 0 by decide, if_true, Int.not_lt.mpr (Int.natCast_nonneg _),
      if_false, Int.toNat_natCast, List.getElem?_eq_getElem hlt]
  obtain ⟨before, hbefore⟩ := hbefore
  have hafter : pyIndex (c :: d :: t) (-1 + 1) = .ok c := rfl
  rw [partitionMarked, hfind]
  simp only [hbefore, hafter, bind, Except.bind, pure, Except.pure, hc]
  split <;> rfl

/-- A disk without a `p` and without a digit at its end, such as `sda`. -/
theorem fits_of_not_mem {c d : Char} {t : Text} (hc : c.isDigit = false) (hp : 'p' ∉ c :: d :: t)
    (hend : endsInDigit (c :: d :: t) = false) : Fits (c :: d :: t) := by
  -- neither the name nor the number of a partition has a `p`
  refine ⟨fun n _ => ?_, fun h => ?_, fun _ => partitionMarked_of_not_mem hc hp⟩
  · have hname : partDevice (c :: d :: t) n = c :: d :: (t ++ strInt n) := by
      rw [partDevice, if_neg (by rw [hend]; decide)]
      rfl
    rw [hname, hend]
    refine partitionMarked_of_not_mem hc fun hmem => ?_
    rcases List.mem_append.mp (show 'p' ∈ (c :: d :: t) ++ strInt n from hmem) with h | h
    · exact hp h
    · exact absurd (isDigit_of_mem_strInt h) (by decide)
  · rw [h.endsInDigit] at hend
    cases hend

/-! ## `findGpt` finds the disk of the boot partition -/

/-- The install device is what `splitDev` made of an entry with a partition number. -/
def Selected (parts : List BlkidEntry) (s : Installer) : Prop :=
  ∀ dev, s.device = some dev →
    ∃ part ∈ parts, ∃ partno, splitDev part.device = .ok (dev, partno) ∧ partno ≠ []

section

variable {m : Machine} {parts : List BlkidEntry}

/-- The device that is found is among the partitions. -/
theorem keeps_selected_findDevice (deviceOrLabel : Text) : ∀ {rest : List BlkidEntry},
    (∀ part ∈ rest, part ∈ parts) → Prog.Keeps (Selected parts) (findDevice deviceOrLabel rest)
  | [], _ => Prog.keeps_pure _ 0
  | part :: rest, hrest => by
      have ih := keeps_selected_findDevice deviceOrLabel
        fun part hpart => hrest part (List.mem_cons_of_mem _ hpart)
      rw [findDevice]
      cases hsplit : splitDev part.device with
      | error e => exact fun s hs => hs
      | ok split =>
          obtain ⟨dev, partno⟩ := split
          refine Prog.keeps_ite ?_ ih
          by_cases hpartno : partno = []
          · rw [if_pos hpartno]
            exact Prog.keeps_pure _ 1
          · rw [if_neg hpartno]
            refine Prog.keeps_bind (Prog.keeps_get _) fun s => ?_
            cases s.device with
            | none =>
                refine Prog.keeps_bind (Prog.keeps_modify fun _ _ dev' hdev => ?_) fun _ => ih
                cases hdev
                exact ⟨part, hrest part List.mem_cons_self, partno, hsplit, hpartno⟩
            | some _ => exact Prog.keeps_pure _ 1

/-- The backups leave the device that was found. -/
theorem keeps_selected_backupConfigs (device : Text) : ∀ rest : List BlkidEntry,
    Prog.Keeps (Selected parts) (backupConfigs m device rest)
  | [] => Prog.keeps_pure _ _
  | part :: rest => by
      have ih := keeps_selected_backupConfigs device rest
      refine Prog.keeps_bind (Prog.keeps_ofExcept _ _) fun devPart => Prog.keeps_ite ?_ ih
      refine Prog.keeps_bind ?_ fun _ => ih
      unfold backupConfig
      cases m.backup part.device with
      | some a => exact Prog.keeps_modify fun _ hs => hs
      | none => exact Prog.keeps_throw _ _

/-- The check of the device selects one of the partitions. -/
theorem keeps_selected_checkDevice : Prog.Keeps (Selected parts) (checkDevice m) := by
  refine Prog.keeps_bind (Prog.keeps_get _) fun s => ?_
  cases s.device with
  | none => exact Prog.keeps_pure _ 1
  | some device =>
      refine Prog.keeps_steps fun p hp => ?_
      rcases List.mem_cons.mp hp with rfl | hp
      · exact Prog.keeps_ite (Prog.keeps_pure _ 0)
          (Prog.keeps_bind (keeps_found _) fun _ => keeps_unmount _ _ _)
      rcases List.mem_cons.mp hp with rfl | hp
      · exact Prog.keeps_bind (keeps_selected_backupConfigs device _) fun _ => Prog.keeps_pure _ 0
      · rw [List.mem_singleton.mp hp]
        refine Prog.keeps_bind (keeps_found _) fun _ => Prog.keeps_bind (Prog.keeps_get _) fun s => ?_
        refine Prog.keeps_bind (Prog.keeps_modify fun _ hs => hs) fun _ =>
          Prog.keeps_ite (Prog.keeps_pure _ 1) ?_
        exact Prog.keeps_bind (Prog.keeps_modify fun _ hs => hs) fun _ => Prog.keeps_pure _ 0

/-- `findGpt` selects one of the partitions. -/
theorem keeps_selected_findGpt (hblkid : m.blkid = some parts) :
    Prog.Keeps (Selected parts) (findGpt m) := by
  have hrun : findGpt m = Prog.modify (fun s => { s with blkidParts := parts }) >>= fun _ =>
      found m.grubDevice >>= fun deviceOrLabel =>
        Prog.steps [findDevice deviceOrLabel parts, checkDevice m] := by
    rw [findGpt, hblkid]
    rfl
  rw [hrun]
  refine Prog.keeps_bind (Prog.keeps_modify fun _ hs => hs) fun _ => ?_
  refine Prog.keeps_bind (keeps_found _) fun deviceOrLabel => Prog.keeps_steps fun p hp => ?_
  rcases List.mem_cons.mp hp with rfl | hp
  · exact keeps_selected_findDevice deviceOrLabel fun _ hpart => hpart
  · rw [List.mem_singleton.mp hp]
    exact keeps_selected_checkDevice

end

/-- Whole disks are selected where all names fit. -/
theorem selectsDisks_of_inverts {ds : List Text} (h : ∀ d ∈ ds, Inverts d) : SelectsDisks ds := by
  intro m parts hblkid hlisted s hs dev hdev
  have hselected : Selected parts (findGpt m s).2 := by
    refine keeps_selected_findGpt hblkid s fun dev hnone => ?_
    rw [hs] at hnone
    cases hnone
  obtain ⟨part, hpart, partno, hsplit, hpartno⟩ := hselected dev hdev
  -- an entry that is a whole disk is split without a partition number, so it is not selected
  obtain ⟨d, hd, ⟨n, hn, hname⟩ | ⟨hname, hwhole⟩⟩ := hlisted part hpart
  · rw [hname, (h d hd).1 n hn] at hsplit
    cases hsplit
    exact ⟨hd, part, hpart, n, hn, hname⟩
  · rw [hname, (h d hd).2 hwhole] at hsplit
    cases hsplit
    exact absurd rfl hpartno

/-- **`splitDev` inverts the rule**, and `findGpt` with it selects disks, exactly where the disks fit. -/
theorem splitDev_inverts_iff (ds : List Text) (hds : ∀ d ∈ ds, d ≠ []) :
    ((∀ d ∈ ds, Inverts d) ∧ SelectsDisks ds) ↔ ∀ d ∈ ds, Fits d := by
  constructor
  · exact fun h d hd => (inverts_iff (hds d hd)).mp (h.1 d hd)
  · intro hfits
    have hinverts : ∀ d ∈ ds, Inverts d := fun d hd => (inverts_iff (hds d hd)).mpr (hfits d hd)
    exact ⟨hinverts, selectsDisks_of_inverts hinverts⟩

/-- The first disk. -/
theorem splitDev_inverts_sda :
    (∀ d ∈ ["/dev/sda".toList], Inverts d) ∧ SelectsDisks ["/dev/sda".toList] := by
  refine (splitDev_inverts_iff ["/dev/sda".toList] fun d hd => ?_).mpr fun d hd => ?_
  · rw [List.mem_singleton.mp hd]
    decide
  · rw [List.mem_singleton.mp hd]
    exact fits_of_not_mem rfl (by decide) (by decide)

/-- The `p` of `loop` hides the one of `loop0p1`. -/
theorem splitDev_loop : ¬ ∀ d : Text, d ≠ [] → Inverts d := by
  intro h
  have hpartition := (h "/dev/loop0".toList (by decide)).1 1 (Nat.le_refl 1)
  exact absurd hpartition (by decide)

end DentOS.Install
