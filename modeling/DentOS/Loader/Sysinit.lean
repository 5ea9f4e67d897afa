/-
  The boot-config file in the loader: `sysinit` (bin/sysinit of the loader's initrd) reads it line by line
  into files of /etc/onl, which `ifup`, `autoboot` and the boot modes read in turn.

  Three keys have a file of their own.  Those that begin with NET go into /etc/onl/NET, and the others into
  /etc/onl/BOOTPARAMS; these two files are sourced.

  `loader_sees` compares what comes of a key there with what `onl-boot-config` has written
  (DentOS.BootConfig.Keys).  `sysinit` cuts a line at the first `=`, as the tool joined it.  But a value that
  is sourced has to be one word, and one that is echoed no option of `echo`.

  Not modelled: settings of the kernel's command line, which are in these files before.
-/
import DentOS.BootConfig.Runs
import DentOS.Lib.ShellSource

namespace DentOS.Loader

open PyText ShellSource
open BootConfig (Keys IterItems writeh writeItem)

/-! ## `sysinit`: the loop over the lines of the boot-config file -/

/-- The files of /etc/onl. -/
structure Etc where
  /-- /etc/onl/CONSOLESPEED. -/
  consolespeed : Text
  /-- /etc/onl/PASSWORD. -/
  password : Text
  /-- /etc/onl/BOOTMODE. -/
  bootmode : Text
  /-- /etc/onl/NET. -/
  net : Text
  /-- /etc/onl/BOOTPARAMS. -/
  bootparams : Text

/-- Behind `touch`. -/
def Etc.empty : Etc := ⟨[], [], [], [], []⟩

/-- What `echo` takes for options: `-n`, `-e`, `-E`, and several of them in one word. -/
def EchoOption (v : Text) : Prop :=
  v.head? = some '-' ∧ v.tail ≠ [] ∧ v.tail.all (fun c => c = 'n' || c = 'e' || c = 'E') = true

instance (v : Text) : Decidable (EchoOption v) := inferInstanceAs (Decidable (_ ∧ _ ∧ _))

/-- `echo "$v"`. -/
def echo (v : Text) : Text :=
  if EchoOption v then if 'n' ∈ v then [] else ['\n'] else v ++ ['\n']

/-- `${l%%=*}`. -/
def nameOf (l : Text) : Text := l.takeWhile (· ≠ '=')

/-- `[ "$l" = "${l#*=}" ] && v= || v="${l#*=}"`. -/
def valueOf (l : Text) : Text := if '=' ∈ l then (l.dropWhile (· ≠ '=')).tail else []

/-- The keys that have files of their own. -/
def consolespeedKey : Text := "CONSOLESPEED".toList
def passwordKey : Text := "PASSWORD".toList
def bootmodeKey : Text := "BOOTMODE".toList
/-- What the keys of the network begin with. -/
def netKey : Text := "NET".toList

/-- One line. -/
def setting (etc : Etc) (l : Text) : Etc :=
  let n := nameOf l
  let v := valueOf l
  if n = consolespeedKey then { etc with consolespeed := echo v }
  else if n = passwordKey then { etc with password := echo v }
  else if netKey.isPrefixOf n then { etc with net := etc.net ++ echo l }
  else if n = bootmodeKey then { etc with bootmode := echo v }
  else if n ≠ [] then { etc with bootparams := etc.bootparams ++ echo (n ++ '=' :: v) }
  else etc

/-- The lines that `read -r l` gives: those that end in a newline, without blanks at their ends. -/
def readLines (file : Text) : List Text :=
  (lines file).dropLast.map fun l => (l.dropWhile blank).rdropWhile blank

/-- `while read -r l; do …; done </etc/onl/boot-config`. -/
def parseSettings (etc : Etc) (file : Text) : Etc := (readLines file).foldl setting etc

/-- `$(cat file)`. -/
def cat (file : Text) : Text := file.rdropWhile (· = '\n')

/-- A key with a file of its own. -/
def OwnFile (k : Text) : Prop := k = consolespeedKey ∨ k = passwordKey ∨ k = bootmodeKey

instance (k : Text) : Decidable (OwnFile k) := inferInstanceAs (Decidable (_ ∨ _ ∨ _))

/-- The file of such a key. -/
def Etc.ownFile (etc : Etc) (k : Text) : Text :=
  if k = consolespeedKey then etc.consolespeed else if k = passwordKey then etc.password else etc.bootmode

/-- What the loader has of a key: the contents of its file, or the variable once the file is sourced. -/
def Etc.sees (etc : Etc) (env : Vars) (k : Text) : Option (Option Text) :=
  if OwnFile k then some (some (cat (etc.ownFile k)))
  else if netKey.isPrefixOf k then (source env etc.net).map fun env => env k
  else (source env etc.bootparams).map fun env => env k

/-! ## What a configuration may hold, so that echo and the shell keep it -/

/-- A key and a value: of a file of its own the value may be any line; else it is sourced. -/
structure Configured (k v : Text) : Prop where
  name : IsName k
  no_newline : '\n' ∉ v
  stripped : strip v = v
  plain : ¬ OwnFile k → Plain v

/-- A dictionary of such keys. -/
def Configuration (keys : Keys) : Prop := ∀ k v, keys.lookup k = some v → Configured k v

/-- The items that are written, in their order. -/
def itemsOf (iter : IterItems) (keys : Keys) : List (Text × Text) :=
  (iter.items keys).map fun item => (item.1, item.2)

/-- The file is its items, each on its line. -/
theorem writeh_eq (iter : IterItems) (keys : Keys) :
    writeh iter keys = unlines ((itemsOf iter keys).map line) := by
  rw [writeh, itemsOf, unlines, List.map_map, List.flatMap_map]
  refine congrArg (List.flatMap · _) (funext fun item => ?_)
  show item.1 ++ '=' :: item.2 ++ ['\n'] = (item.1 ++ '=' :: item.2) ++ ['\n']
  rfl

/-- No key comes twice. -/
theorem nodup_itemsOf (iter : IterItems) (keys : Keys) : ((itemsOf iter keys).map Prod.fst).Nodup := by
  have hnodup : (iter.items keys).NodupKeys :=
    (List.perm_nodupKeys (iter.perm keys)).mpr keys.nodupKeys
  rw [itemsOf, List.map_map]
  exact hnodup

/-- The items are those of the dictionary. -/
theorem mem_itemsOf {iter : IterItems} {keys : Keys} {k v : Text} :
    (k, v) ∈ itemsOf iter keys ↔ keys.lookup k = some v := by
  rw [itemsOf, List.mem_map]
  constructor
  · rintro ⟨⟨k', v'⟩, hmem, heq⟩
    cases heq
    exact AList.mem_lookup_iff.mpr ((iter.perm keys).subset hmem)
  · intro h
    exact ⟨⟨k, v⟩, (iter.perm keys).mem_iff.mpr (AList.mem_lookup_iff.mp h), rfl⟩

/-! ## One line goes to the file of its key -/

section

variable {k v : Text}

/-- What `read` takes for the name. -/
theorem nameOf_line (h : IsName k) (v : Text) : nameOf (line (k, v)) = k := takeWhile_key h v

/-- What `read` takes for the value. -/
theorem valueOf_line (h : IsName k) (v : Text) : valueOf (line (k, v)) = v := by
  have hmem : '=' ∈ line (k, v) := List.mem_append_right k List.mem_cons_self
  rw [valueOf, if_pos hmem]
  show ((k ++ '=' :: v).dropWhile _).tail = v
  rw [dropWhile_key h]
  rfl

/-- A line of an item is no option of `echo`. -/
theorem echo_line (h : IsName k) (v : Text) : echo (line (k, v)) = line (k, v) ++ ['\n'] := by
  refine if_neg fun hoption => ?_
  obtain ⟨c, cs, hl, hc⟩ := head_key h v
  have hhead := hoption.1
  rw [line, hl] at hhead
  cases hhead
  exact absurd hc (by decide)

/-- A key of the network has no file of its own. -/
theorem not_ownFile_of_net (h : netKey.isPrefixOf k = true) : ¬ OwnFile k := by
  rintro (rfl | rfl | rfl) <;> exact absurd h (by decide)

/-- A key with a file of its own: it is written there, and nowhere else. -/
theorem setting_own (h : IsName k) (v : Text) (etc : Etc) (hown : OwnFile k) :
    (setting etc (line (k, v))).net = etc.net ∧ (setting etc (line (k, v))).bootparams = etc.bootparams
      ∧ ∀ k', OwnFile k' →
        (setting etc (line (k, v))).ownFile k' = if k' = k then echo v else etc.ownFile k' := by
  rw [setting, nameOf_line h, valueOf_line h]
  rcases hown with rfl | rfl | rfl
  · refine ⟨rfl, rfl, ?_⟩
    rintro k' (rfl | rfl | rfl) <;> rfl
  · refine ⟨rfl, rfl, ?_⟩
    rintro k' (rfl | rfl | rfl) <;> rfl
  · refine ⟨rfl, rfl, ?_⟩
    rintro k' (rfl | rfl | rfl) <;> rfl

/-- A key of the network: a line is added to its file. -/
theorem setting_net (h : IsName k) (v : Text) (etc : Etc) (hnet : netKey.isPrefixOf k = true) :
    setting etc (line (k, v)) = { etc with net := etc.net ++ (line (k, v) ++ ['\n']) } := by
  have hown := not_ownFile_of_net hnet
  rw [setting, nameOf_line h, valueOf_line h, if_neg fun heq => hown (.inl heq),
    if_neg fun heq => hown (.inr (.inl heq)), if_pos hnet, echo_line h]

/-- Any other key: a line is added to the boot parameters. -/
theorem setting_param (h : IsName k) (v : Text) (etc : Etc) (hown : ¬ OwnFile k)
    (hnet : ¬ netKey.isPrefixOf k = true) :
    setting etc (line (k, v)) = { etc with bootparams := etc.bootparams ++ (line (k, v) ++ ['\n']) } := by
  rw [setting, nameOf_line h, valueOf_line h, if_neg fun heq => hown (.inl heq),
    if_neg fun heq => hown (.inr (.inl heq)), if_neg hnet, if_neg fun heq => hown (.inr (.inr heq)),
    if_pos h.ne_nil]
  exact congrArg (fun t => { etc with bootparams := etc.bootparams ++ t }) (echo_line h v)

/-- `read` takes nothing off such a line. -/
theorem trim_line (h : IsName k) (hv : strip v = v) :
    ((line (k, v)).dropWhile blank).rdropWhile blank = line (k, v) := by
  have hnot : ∀ c, isSpace c = false → ¬ blank c = true := by
    intro c hc hblank
    rw [blank, Bool.or_eq_true, decide_eq_true_eq, decide_eq_true_eq] at hblank
    rcases hblank with rfl | rfl <;> exact absurd hc (by decide)
  have hfirst : (line (k, v)).dropWhile blank = line (k, v) := by
    obtain ⟨c, cs, hl, hc⟩ := head_key h v
    show (k ++ '=' :: v).dropWhile blank = k ++ '=' :: v
    rw [hl, List.dropWhile_cons_of_neg]
    exact hnot c (not_isSpace_of_wordChar (wordChar_of_nameChar (nameChar_of_nameStart hc)).1)
  rw [hfirst, List.rdropWhile_eq_self_iff]
  intro hne
  refine hnot _ ?_
  rcases List.eq_nil_or_concat v with rfl | ⟨init, c, rfl⟩
  · have hlast : (line (k, ([] : Text))).getLast hne = '=' := List.getLast_concat
    rw [hlast]
    decide
  · have hlast : (line (k, init.concat c)).getLast hne = c := by
      have hl : line (k, init.concat c) = (k ++ '=' :: init) ++ [c] := by
        simp [line]
      rw [List.getLast_congr _ (by simp) hl, List.getLast_concat]
    rw [hlast]
    exact (ends_of_strip hv).2 c (by simp)

end

/-! ## The whole file: every key has its value in the end -/

/-- The items that go into NET, and into BOOTPARAMS. -/
def isNet (item : Text × Text) : Bool := netKey.isPrefixOf item.1

/-- A key of neither kind. -/
def isParam (item : Text × Text) : Bool := !decide (OwnFile item.1) && !isNet item

section

variable {items : List (Text × Text)}

/-- The lines are read as they were written. -/
theorem readLines_items (h : ∀ item ∈ items, Configured item.1 item.2) :
    readLines (unlines (items.map line)) = items.map line := by
  have hnl : ∀ l ∈ items.map line, '\n' ∉ l := by
    intro l hl hmem
    obtain ⟨item, hitem, rfl⟩ := List.mem_map.mp hl
    have hc := h item hitem
    rcases List.mem_append.mp hmem with hmem | hmem
    · exact hc.name.no_newline hmem
    · rcases List.mem_cons.mp hmem with hmem | hmem
      · cases hmem
      · exact hc.no_newline hmem
  have hlines := lines_unlines_append hnl []
  rw [List.append_nil] at hlines
  rw [readLines, hlines]
  show ((items.map line ++ [[]]).dropLast).map _ = _
  rw [List.dropLast_concat, List.map_map]
  refine List.map_congr_left fun item hitem => ?_
  exact trim_line (h item hitem).name (h item hitem).stripped

/-- **What `sysinit` writes**, file by file. -/
theorem foldl_setting : ∀ (items : List (Text × Text)) (etc : Etc),
    (∀ item ∈ items, Configured item.1 item.2) →
    ((items.map line).foldl setting etc).net = etc.net ++ unlines ((items.filter isNet).map line)
      ∧ ((items.map line).foldl setting etc).bootparams
        = etc.bootparams ++ unlines ((items.filter isParam).map line)
  | [], etc, _ => ⟨(List.append_nil _).symm, (List.append_nil _).symm⟩
  | (k, v) :: items, etc, h => by
      have hname := (h (k, v) List.mem_cons_self).name
      obtain ⟨hnet, hparam⟩ := foldl_setting items (setting etc (line (k, v)))
        fun item hitem => h item (List.mem_cons_of_mem _ hitem)
      rw [List.map_cons, List.foldl_cons, hnet, hparam]
      by_cases hpre : netKey.isPrefixOf k = true
      · have hn : isNet (k, v) = true := hpre
        have hp : ¬ isParam (k, v) = true := by
          simp [isParam, hn]
        rw [setting_net hname v etc hpre, List.filter_cons_of_pos hn, List.filter_cons_of_neg hp,
          List.map_cons, unlines_cons]
        refine ⟨?_, rfl⟩
        show etc.net ++ (line (k, v) ++ ['\n']) ++ _ = _
        simp
      · have hn : ¬ isNet (k, v) = true := hpre
        by_cases hown : OwnFile k
        · have hp : ¬ isParam (k, v) = true := by
            simp [isParam, hown]
          obtain ⟨hnet', hparam', -⟩ := setting_own hname v etc hown
          rw [hnet', hparam', List.filter_cons_of_neg hn, List.filter_cons_of_neg hp]
          exact ⟨rfl, rfl⟩
        · have hp : isParam (k, v) = true := by
            simp [isParam, hown, hn]
          rw [setting_param hname v etc hown hpre, List.filter_cons_of_neg hn, List.filter_cons_of_pos hp,
            List.map_cons, unlines_cons]
          refine ⟨rfl, ?_⟩
          show etc.bootparams ++ (line (k, v) ++ ['\n']) ++ _ = _
          simp

/-- The file of a key of its own. -/
theorem ownFile_items {k v : Text} (hk : OwnFile k) : ∀ {items : List (Text × Text)} {etc : Etc},
    (∀ item ∈ items, Configured item.1 item.2) → (items.map Prod.fst).Nodup → (k, v) ∈ items →
    ((items.map line).foldl setting etc).ownFile k = echo v := by
  have hstep : ∀ (etc : Etc) (item : Text × Text), IsName item.1 →
      (setting etc (line item)).ownFile k = if k = item.1 then echo item.2 else etc.ownFile k := by
    rintro etc ⟨k', v'⟩ hname
    by_cases hown : OwnFile k'
    · exact (setting_own hname v' etc hown).2.2 k hk
    · have hne : k ≠ k' := fun heq => hown (heq ▸ hk)
      rw [if_neg hne]
      by_cases hnet : netKey.isPrefixOf k' = true
      · rw [setting_net hname v' etc hnet]
        rfl
      · rw [setting_param hname v' etc hown hnet]
        rfl
  -- the keys are distinct, so behind the line of `k` no line writes its file again
  have hother : ∀ (items : List (Text × Text)) (etc : Etc), (∀ item ∈ items, Configured item.1 item.2) →
      k ∉ items.map Prod.fst → ((items.map line).foldl setting etc).ownFile k = etc.ownFile k := by
    intro items
    induction items with
    | nil => exact fun etc _ _ => rfl
    | cons item items ih =>
        intro etc h hnot
        rw [List.map_cons, List.mem_cons, not_or] at hnot
        rw [List.map_cons, List.foldl_cons, ih _ (fun i hi => h i (List.mem_cons_of_mem _ hi)) hnot.2,
          hstep etc item (h item List.mem_cons_self).name, if_neg hnot.1]
  intro items
  induction items with
  | nil => exact fun _ _ hmem => absurd hmem List.not_mem_nil
  | cons item items ih =>
      intro etc h hnodup hmem
      have hrest : ∀ i ∈ items, Configured i.1 i.2 := fun i hi => h i (List.mem_cons_of_mem _ hi)
      rw [List.map_cons, List.nodup_cons] at hnodup
      rw [List.map_cons, List.foldl_cons]
      rcases List.mem_cons.mp hmem with rfl | hmem
      · rw [hother items _ hrest hnodup.1, hstep etc (k, v) (h (k, v) List.mem_cons_self).name, if_pos rfl]
      · exact ih hrest hnodup.2 hmem

/-- `echo` writes a value as it is unless it is an option. -/
theorem cat_echo {v : Text} (h : '\n' ∉ v) : cat (echo v) = v ↔ ¬ EchoOption v := by
  by_cases hoption : EchoOption v
  · have hne : [] ≠ v := by
      rintro rfl
      cases hoption.1
    refine ⟨fun heq => ?_, fun hnot => absurd hoption hnot⟩
    rw [echo, if_pos hoption] at heq
    split at heq
    · exact absurd heq hne
    · exact absurd heq hne
  · refine ⟨fun _ => hoption, fun _ => ?_⟩
    have hlast : v.rdropWhile (fun c => decide (c = '\n')) = v := by
      refine List.rdropWhile_eq_self_iff.mpr fun hne heq => h ?_
      rw [decide_eq_true_eq] at heq
      exact heq ▸ List.getLast_mem hne
    rw [echo, if_neg hoption, cat, List.rdropWhile_concat_pos _ _ _ (by decide)]
    exact hlast

/-- The file is sourced to the values of its keys. -/
theorem source_filtered (h : ∀ item ∈ items, Configured item.1 item.2)
    (hnodup : (items.map Prod.fst).Nodup) {p : Text × Text → Bool}
    (hp : ∀ item, p item = true → ¬ OwnFile item.1) {k v : Text} (hmem : (k, v) ∈ items)
    (hkv : p (k, v) = true) (env : Vars) :
    (source env (unlines ((items.filter p).map line))).map (fun env => env k)
      = some (if OneWord v then some v else env k) := by
  have hsourced : Sourced (items.filter p) := by
    intro item hitem
    obtain ⟨hitem, hpos⟩ := List.mem_filter.mp hitem
    exact ⟨(h item hitem).name, (h item hitem).plain (hp item hpos)⟩
  have hsub : ((items.filter p).map Prod.fst).Nodup :=
    hnodup.sublist (List.filter_sublist.map Prod.fst)
  rw [source_items hsourced, Option.map_some, foldl_setItem hsub (List.mem_filter.mpr ⟨hmem, hkv⟩)]

end

/-- **From `onl-boot-config` to the loader**: a value comes to it as it was set, if `echo` has no option in it
or, for a key that is sourced, if it is one word. -/
theorem loader_sees (iter : IterItems) {keys : Keys} (h : Configuration keys) {k v : Text}
    (hk : keys.lookup k = some v) {env : Vars} (henv : env k ≠ some v) :
    (parseSettings .empty (writeh iter keys)).sees env k = some (some v)
      ↔ if OwnFile k then ¬ EchoOption v else OneWord v := by
  have hall : ∀ item ∈ itemsOf iter keys, Configured item.1 item.2 :=
    fun item hitem => h item.1 item.2 (mem_itemsOf.mp hitem)
  have hmem : (k, v) ∈ itemsOf iter keys := mem_itemsOf.mpr hk
  have hnodup := nodup_itemsOf iter keys
  obtain ⟨hnet, hparam⟩ := foldl_setting (itemsOf iter keys) .empty hall
  have hsource : (if OneWord v then some v else env k) = some v ↔ OneWord v := by
    split <;> simp [*]
  rw [parseSettings, writeh_eq, readLines_items hall, Etc.sees]
  by_cases hown : OwnFile k
  · rw [if_pos hown, if_pos hown, ownFile_items hown hall hnodup hmem, Option.some_inj, Option.some_inj]
    exact cat_echo (h k v hk).no_newline
  rw [if_neg hown, if_neg hown]
  by_cases hpre : netKey.isPrefixOf k = true
  · have hpos : isNet (k, v) = true := hpre
    have hout : ∀ item : Text × Text, isNet item = true → ¬ OwnFile item.1 :=
      fun _ hitem => not_ownFile_of_net hitem
    have hsees := source_filtered hall hnodup hout hmem hpos env
    rw [if_pos hpre, hnet, Etc.empty, List.nil_append, hsees, Option.some_inj]
    exact hsource
  · have hpos : isParam (k, v) = true := by
      simp [isParam, isNet, hown, hpre]
    have hout : ∀ item : Text × Text, isParam item = true → ¬ OwnFile item.1 := by
      intro item hitem
      simp only [isParam, Bool.and_eq_true, Bool.not_eq_true', decide_eq_false_iff_not] at hitem
      exact hitem.1
    have hsees := source_filtered hall hnodup hout hmem hpos env
    rw [if_neg hpre, hparam, Etc.empty, List.nil_append, hsees, Option.some_inj]
    exact hsource

/-- `SWI` with a list of two URLs. -/
def twoUrls : Keys :=
  AList.insert "SWI".toList "http://10.0.0.1/a.swi http://10.0.0.2/a.swi".toList
    (AList.insert bootmodeKey "SWI".toList ∅)

/-- The example is a configuration that can be written. -/
theorem configuration_twoUrls : Configuration twoUrls := by
  intro k v h
  have hmem : (⟨k, v⟩ : Sigma fun _ : Text => Text) ∈ twoUrls.entries := AList.mem_lookup_iff.mp h
  rcases List.mem_cons.mp hmem with heq | hmem
  · cases heq
    exact ⟨by decide, by decide, by decide, fun _ => ⟨by decide, by decide, by decide⟩⟩
  · cases List.mem_singleton.mp hmem
    exact ⟨by decide, by decide, by decide, fun hown => absurd (by decide) hown⟩

/-- The order of the dictionary itself. -/
def entriesOrder : IterItems := ⟨fun keys => keys.entries, BootConfig.entries_perm⟩

/-- Two URLs are two words. -/
theorem not_oneWord_twoUrls : ¬ OneWord "http://10.0.0.1/a.swi http://10.0.0.2/a.swi".toList :=
  fun h => Bool.noConfusion (h ' ' (by decide))

/-- The boot mode comes to the loader, and the list does not. -/
theorem loader_sees_twoUrls :
    (parseSettings .empty (writeh entriesOrder twoUrls)).sees Dict.empty bootmodeKey
        = some (some "SWI".toList)
      ∧ (parseSettings .empty (writeh entriesOrder twoUrls)).sees Dict.empty "SWI".toList
        ≠ some (some "http://10.0.0.1/a.swi http://10.0.0.2/a.swi".toList) := by
  constructor
  · refine (loader_sees entriesOrder configuration_twoUrls (by decide) (by decide)).mpr ?_
    rw [if_pos (by decide)]
    decide
  · rw [Ne, loader_sees entriesOrder configuration_twoUrls (by decide) (by decide), if_neg (by decide)]
    exact not_oneWord_twoUrls

end DentOS.Loader
