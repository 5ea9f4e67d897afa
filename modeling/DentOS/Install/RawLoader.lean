/-
  The readers of the 'installer' spec on a U-Boot platform: `partitionParted`, which makes the
  partitions, the scan of `UbootInstaller.installUboot` for a raw loader (onl/install/BaseInstall.py),
  and the one of `runUboot` (onl/install/ShellApp.py).

  Each takes the same nested data apart by hand, so that the spec is kept here as `yaml` reads it: an
  entry is one label with a value, and a dict has its items in the order in which Python iterates over
  them (`Value`).  `SpecItem.entry` is what `partitionParted` makes of an entry.  The names that
  libparted gives to the partitions are a parameter.  What `runUboot` does behind its scan, once it
  knows whether the boot partition is raw, is left out.
-/
import DentOS.Install.Layout

namespace DentOS.Install

open Effects PyText

/-! ## The spec as Python reads it -/

/-- A value of the spec. -/
inductive Value where
  | str (t : Text)
  | dict (items : List (Text × Value))

/-- One entry: `{label: value}`. -/
structure SpecItem where
  /-- The label. -/
  label : Text
  /-- Its value. -/
  value : Value

/-- The value, if it is a text. -/
def Value.text : Value → Option Text
  | .str t => some t
  | .dict _ => none

/-- `partData['=']` and `partData.get('format', ..)` of a dict, and a size that is no dict. -/
def Value.partData : Value → PartData
  | .str t => .size t
  | .dict items => .dict ((items.lookup "=".toList).bind Value.text)
      ((items.lookup "format".toList).bind Value.text)

/-- What `partitionParted` makes of an entry. -/
def SpecItem.entry (item : SpecItem) : SpecEntry := ⟨item.label, item.value.partData⟩

/-- The shapes of an entry: a size, or a dict with texts under '=' and 'format' and nothing else. -/
def Value.Shape : Value → Prop
  | .str _ => True
  | .dict items => ∀ kv ∈ items, (kv.1 = "=".toList ∨ kv.1 = "format".toList) ∧ kv.2.text ≠ none

/-! ## The scans of the installer and of the shell -/

/-- What a scan raises. -/
inductive ScanError where
  | attributeError
  | indexError
  | keyError
  | typeError
  deriving DecidableEq

/-- `ONL-BOOT`. -/
def bootLabel : Text := "ONL-BOOT".toList

/-- `raw`. -/
def rawFormat : Text := "raw".toList

/-- `part['format'] == 'raw'`. -/
def formatIsRaw : Value → Except ScanError Bool
  | .str _ => .error .typeError
  | .dict items =>
      match items.lookup "format".toList with
      | none => .error .keyError
      | some fmt => .ok (fmt.text = some rawFormat)

/-- The scan of `installUboot`: `rawLoaderDevice`.  `partIdx` is the label of the entry and `label`
    the first key of its dict, so that `partIdx+1` raises. -/
def installUbootScan : List SpecItem → Except ScanError (Option Text)
  | [] => .ok none
  | item :: rest =>
      match item.value with
      | .str _ => .error .attributeError
      | .dict [] => .error .indexError
      | .dict ((label, part) :: _) =>
          if label = bootLabel then
            match formatIsRaw part with
            | .error e => .error e
            | .ok true => .error .typeError
            | .ok false => installUbootScan rest
          else installUbootScan rest

/-- The loop of `runUboot`: the first ONL-BOOT and its position. -/
def findBoot : Nat → List SpecItem → Option (Nat × Value)
  | _, [] => none
  | idx, item :: rest => if item.label = bootLabel then some (idx, item.value) else findBoot (idx + 1) rest

/-- `bootPart.get('format', 'ext2')`, compared with 'raw'. -/
def bootIsRaw : Value → Except ScanError Bool
  | .str _ => .error .attributeError
  | .dict items =>
      match items.lookup "format".toList with
      | none => .ok false
      | some fmt => .ok (fmt.text = some rawFormat)

/-- The scan of `runUboot`: the device of a boot partition that is raw. -/
def runUbootScan (device : Text) (spec : List SpecItem) : Except ScanError (Option Text) :=
  match findBoot 0 spec with
  | none => .ok none
  | some (idx, bootPart) =>
      match bootIsRaw bootPart with
      | .error e => .error e
      | .ok true => .ok (some (device ++ strInt (idx + 1)))
      | .ok false => .ok none

/-! ## What they say: the loader is raw, or it is not -/

/-- The entry at this position is an ONL-BOOT that `partitionParted` left unformatted. -/
def LeftRaw (spec : List SpecItem) (i : Nat) : Prop :=
  ∃ item, spec[i]? = some item ∧ item.label = bootLabel ∧
    ∃ sz, item.entry.sizeFormat = .ok (sz, rawFormat)

/-- A scan names the partitions that were left raw, and no others; `path i` is the one that was made
    for the entry at position `i`. -/
def SaysRaw (path : Nat → Text) (spec : List SpecItem) (found : Option Text) : Prop :=
  ∀ d, found = some d ↔ ∃ i, LeftRaw spec i ∧ path i = d

/-- **The readers agree**: both scans end, and both say what `partitionParted` did. -/
structure ReadersAgree (loader : Text) (path : Nat → Text) (spec : List SpecItem) : Prop where
  install : ∃ found, installUbootScan spec = .ok found ∧ SaysRaw path spec found
  shell : ∃ found, runUbootScan loader spec = .ok found ∧ SaysRaw path spec found

/-- An entry that both scans can read: a dict, and no raw ONL-BOOT. -/
def Readable (item : SpecItem) : Prop :=
  match item.value with
  | .str _ => False
  | .dict items =>
      ¬ (item.label = bootLabel ∧ (items.lookup "format".toList).bind Value.text = some rawFormat)

variable {dev : Device} {calls : Nat → EntryCalls} {spec : List SpecItem}

/-! ## Specs that are accepted -/

/-- An entry that was made has a size and a format. -/
theorem sizeFormat_of_entry {calls : EntryCalls} {e : SpecEntry} {s s' : Installer}
    (h : partitionEntry dev calls e s = (.ok 0, s')) : ∃ sf, e.sizeFormat = .ok sf := by
  rw [partitionEntry_apply] at h
  cases hsf : e.sizeFormat with
  | ok sf => exact ⟨sf, rfl⟩
  | error err =>
      rw [hsf] at h
      cases h

/-- Every entry of a spec that is accepted has a size. -/
theorem sizeFormat_of_loop : ∀ (entries : List SpecEntry) (i : Nat) (s s' : Installer),
    partitionLoop dev calls i entries s = (.ok 0, s') →
    ∀ e ∈ entries, ∃ sf, e.sizeFormat = .ok sf := by
  intro entries
  induction entries with
  | nil => exact fun _ _ _ _ e he => absurd he List.not_mem_nil
  | cons e rest ih =>
      intro i s s' h e' he'
      rw [partitionLoop] at h
      obtain ⟨code, s₁, hentry, h⟩ := Prog.bind_returns h
      by_cases hcode : code = 0
      · rw [hcode] at hentry
        rw [if_neg (fun hne => hne hcode)] at h
        rcases List.mem_cons.mp he' with rfl | he'
        · exact sizeFormat_of_entry hentry
        · exact ih (i + 1) s₁ s' h e' he'
      · rw [if_pos hcode] at h
        cases h
        exact absurd rfl hcode

/-- In a run that returns 0 every entry has a size and a format. -/
theorem sizeFormat_of_accepted {blkid : Option (List BlkidEntry)} {entries : List SpecEntry}
    {s s' : Installer} (h : partitionParted dev calls blkid entries s = (.ok 0, s')) :
    ∀ e ∈ entries, ∃ sf, e.sizeFormat = .ok sf := by
  unfold partitionParted at h
  obtain ⟨code, s₁, hloop, h⟩ := Prog.bind_returns h
  by_cases hcode : code = 0
  · rw [hcode] at hloop
    exact sizeFormat_of_loop entries 0 s s₁ hloop
  · rw [if_pos hcode] at h
    cases h
    exact absurd rfl hcode

/-! ## The scan of the installer takes the entry apart -/

/-- **It never finds a raw loader**: the key it compares with ONL-BOOT is one of the dict of an entry. -/
theorem installUbootScan_eq (hshape : ∀ item ∈ spec, item.value.Shape)
    (hsize : ∀ item ∈ spec, ∃ sf, item.entry.sizeFormat = .ok sf) {found : Option Text} :
    installUbootScan spec = .ok found ↔
      found = none ∧ ∀ item ∈ spec, ∃ items, item.value = .dict items := by
  induction spec with
  | nil =>
      constructor
      · intro h
        cases h
        exact ⟨rfl, fun item hitem => absurd hitem List.not_mem_nil⟩
      · rintro ⟨rfl, -⟩
        rfl
  | cons item rest ih =>
      have hrest := ih (fun i hi => hshape i (List.mem_cons_of_mem item hi))
        (fun i hi => hsize i (List.mem_cons_of_mem item hi))
      rw [installUbootScan]
      have hitem := hshape item List.mem_cons_self
      obtain ⟨sf, hsf⟩ := hsize item List.mem_cons_self
      rw [SpecItem.entry] at hsf
      rcases hvalue : item.value with t | items
      · constructor
        · intro h
          cases h
        · rintro ⟨-, hall⟩
          obtain ⟨items, hdict⟩ := hall item List.mem_cons_self
          rw [hvalue] at hdict
          cases hdict
      · rw [hvalue] at hitem hsf
        rcases items with _ | ⟨⟨label, part⟩, items⟩
        · cases hsf
        · have hlabel : label ≠ bootLabel := by
            rcases (hitem (label, part) List.mem_cons_self).1 with h | h
            · rw [show label = _ from h]
              decide
            · rw [show label = _ from h]
              decide
          dsimp only
          rw [if_neg hlabel, hrest, List.forall_mem_cons]
          constructor
          · rintro ⟨hfound, hall⟩
            exact ⟨hfound, ⟨_, hvalue⟩, hall⟩
          · rintro ⟨hfound, -, hall⟩
            exact ⟨hfound, hall⟩

/-! ## The scan of the shell looks at text -/

/-- What is found is an item of the spec with the label. -/
theorem findBoot_mem {idx : Nat} {bootPart : Value} : ∀ {spec : List SpecItem} {n : Nat},
    findBoot n spec = some (idx, bootPart) →
    ∃ item ∈ spec, item.label = bootLabel ∧ item.value = bootPart
  | [], n, h => by cases h
  | item :: rest, n, h => by
      rw [findBoot] at h
      by_cases hlabel : item.label = bootLabel
      · rw [if_pos hlabel] at h
        cases h
        exact ⟨item, List.mem_cons_self, hlabel, rfl⟩
      · rw [if_neg hlabel] at h
        obtain ⟨item', hmem, hitem⟩ := findBoot_mem h
        exact ⟨item', List.mem_cons_of_mem item hmem, hitem⟩

/-- The scan finds no raw partition where no item of the spec is a raw ONL-BOOT. -/
theorem runUbootScan_eq_none (hread : ∀ item ∈ spec, Readable item) (loader : Text) :
    runUbootScan loader spec = .ok none := by
  rw [runUbootScan]
  rcases hfind : findBoot 0 spec with _ | ⟨idx, bootPart⟩
  · rfl
  · obtain ⟨item, hmem, hlabel, rfl⟩ := findBoot_mem hfind
    have hitem := hread item hmem
    rw [Readable] at hitem
    dsimp only
    rcases hvalue : item.value with t | items
    · rw [hvalue] at hitem
      exact absurd hitem not_false
    · rw [hvalue] at hitem
      have hraw : (items.lookup "format".toList).bind Value.text ≠ some rawFormat :=
        fun h => hitem ⟨hlabel, h⟩
      rcases hfmt : items.lookup "format".toList with _ | fmt
      · simp only [bootIsRaw, hfmt]
      · have hfalse : fmt.text ≠ some rawFormat := by
          rwa [hfmt] at hraw
        simp only [bootIsRaw, hfmt, hfalse, decide_false]

/-! ## Agreement, and the specs on which there is none -/

/-- What `partitionParted` leaves raw is an ONL-BOOT whose dict says so. -/
theorem leftRaw_iff (hsize : ∀ item ∈ spec, ∃ sf, item.entry.sizeFormat = .ok sf)
    (hdict : ∀ item ∈ spec, ∃ items, item.value = .dict items) :
    (∃ i, LeftRaw spec i) ↔ ∃ item ∈ spec, ¬ Readable item := by
  have hext4 : "ext4".toList ≠ rawFormat := by decide
  constructor
  · rintro ⟨i, item, hi, hlabel, sz, hsz⟩
    have hmem : item ∈ spec := List.mem_of_getElem? hi
    refine ⟨item, hmem, ?_⟩
    obtain ⟨items, hvalue⟩ := hdict item hmem
    rw [Readable, hvalue]
    rw [SpecItem.entry, hvalue, Value.partData, SpecEntry.sizeFormat] at hsz
    refine not_not_intro ⟨hlabel, ?_⟩
    rcases hlook : (items.lookup "=".toList).bind Value.text with _ | sz'
    · rw [hlook] at hsz
      cases hsz
    · rw [hlook] at hsz
      have hfmt := congrArg Prod.snd (Except.ok.inj hsz)
      rcases hformat : (items.lookup "format".toList).bind Value.text with _ | fmt
      · rw [hformat] at hfmt
        exact absurd hfmt hext4
      · rw [hformat] at hfmt
        exact congrArg some hfmt
  · rintro ⟨item, hmem, hnot⟩
    obtain ⟨items, hvalue⟩ := hdict item hmem
    rw [Readable, hvalue] at hnot
    obtain ⟨hlabel, hraw⟩ := not_not.mp hnot
    obtain ⟨i, hi⟩ := List.mem_iff_getElem?.mp hmem
    obtain ⟨⟨sz, fmt⟩, hsf⟩ := hsize item hmem
    refine ⟨i, item, hi, hlabel, sz, ?_⟩
    rw [hsf]
    rw [SpecItem.entry, hvalue, Value.partData, SpecEntry.sizeFormat, hraw] at hsf
    rcases hlook : (items.lookup "=".toList).bind Value.text with _ | sz'
    · rw [hlook] at hsf
      cases hsf
    · rw [hlook] at hsf
      cases hsf
      rfl

/-- **The readers of a spec agree** when its entries are dicts and its ONL-BOOT is not raw, and only
    then. -/
theorem readers_agree_iff {blkid : Option (List BlkidEntry)} {s s' : Installer}
    (hshape : ∀ item ∈ spec, item.value.Shape)
    (haccepted : partitionParted dev calls blkid (spec.map SpecItem.entry) s = (.ok 0, s'))
    (loader : Text) (path : Nat → Text) :
    ReadersAgree loader path spec ↔ ∀ item ∈ spec, Readable item := by
  have hsize : ∀ item ∈ spec, ∃ sf, item.entry.sizeFormat = .ok sf := fun item hitem =>
    sizeFormat_of_accepted haccepted item.entry (List.mem_map_of_mem hitem)
  constructor
  · rintro ⟨⟨found, hscan, hfound⟩, -⟩ item hitem
    obtain ⟨rfl, hdict⟩ := (installUbootScan_eq hshape hsize).mp hscan
    by_contra hread
    obtain ⟨i, hleft⟩ := (leftRaw_iff hsize hdict).mpr ⟨item, hitem, hread⟩
    cases (hfound (path i)).mpr ⟨i, hleft, rfl⟩
  · intro hread
    have hdict : ∀ item ∈ spec, ∃ items, item.value = .dict items := by
      intro item hitem
      have h := hread item hitem
      rw [Readable] at h
      rcases hvalue : item.value with t | items
      · rw [hvalue] at h
        exact absurd h not_false
      · exact ⟨items, rfl⟩
    have hnone : SaysRaw path spec none := by
      intro d
      constructor
      · intro h
        cases h
      · rintro ⟨i, hleft, -⟩
        obtain ⟨item, hitem, hnot⟩ := (leftRaw_iff hsize hdict).mp ⟨i, hleft⟩
        exact absurd (hread item hitem) hnot
    exact ⟨⟨none, (installUbootScan_eq hshape hsize).mpr ⟨rfl, hdict⟩, hnone⟩,
      ⟨none, runUbootScan_eq_none hread loader, hnone⟩⟩

/-! ## Two specs -/

/-- An entry with its format. -/
def textDict (sz format : Text) : Value :=
  .dict [("=".toList, .str sz), ("format".toList, .str format)]

/-- The default spec, in smaller sizes, with the ONL-BOOT partition in the given format. -/
def bootSpec (format : Text) : List SpecItem :=
  [⟨bootLabel, textDict "10KiB".toList format⟩,
    ⟨"ONL-DATA".toList, textDict "20KiB".toList "ext4".toList⟩]

/-- The example is of the shape that both read. -/
theorem bootSpec_shape (format : Text) : ∀ item ∈ bootSpec format, item.value.Shape := by
  have hdict : ∀ sz format, (textDict sz format).Shape := by
    intro sz format kv hkv
    rcases List.mem_cons.mp hkv with rfl | hkv
    · exact ⟨Or.inl rfl, Option.some_ne_none _⟩
    · rw [List.mem_singleton.mp hkv]
      exact ⟨Or.inr rfl, Option.some_ne_none _⟩
  intro item hitem
  rcases List.mem_cons.mp hitem with rfl | hitem
  · exact hdict _ _
  · rw [List.mem_singleton.mp hitem]
    exact hdict _ _

/-- Both readers agree on the example. -/
theorem bootSpec_agree : ReadersAgree "/dev/sda".toList (fun i => "/dev/sda".toList ++ strInt (i + 1))
    (bootSpec "ext2".toList) := by
  have haccepted : partitionParted smallDisk goodCalls (some [])
      ((bootSpec "ext2".toList).map SpecItem.entry) keptInstaller = (.ok 0, _) := rfl
  refine (readers_agree_iff (bootSpec_shape _) haccepted _ _).mpr ?_
  intro item hitem
  rcases List.mem_cons.mp hitem with rfl | hitem
  · show ¬ (_ ∧ _)
    decide
  · rw [List.mem_singleton.mp hitem]
    show ¬ (_ ∧ _)
    decide

/-- With a raw ONL-BOOT the spec is accepted, and the installer finds no raw loader. -/
theorem rawSpec_disagree :
    (partitionParted smallDisk goodCalls (some []) ((bootSpec rawFormat).map SpecItem.entry)
      keptInstaller).1 = .ok 0 ∧
    ¬ ReadersAgree "/dev/sda".toList (fun i => "/dev/sda".toList ++ strInt (i + 1))
      (bootSpec rawFormat) := by
  refine ⟨by decide, ?_⟩
  rintro ⟨⟨found, hscan, hfound⟩, -⟩
  have hnone : installUbootScan (bootSpec rawFormat) = .ok none := rfl
  rw [hnone] at hscan
  cases hscan
  have hleft : LeftRaw (bootSpec rawFormat) 0 := ⟨_, rfl, rfl, "10KiB".toList, rfl⟩
  cases (hfound _).mpr ⟨0, hleft, rfl⟩

end DentOS.Install
