/-
  Runs of `onl-boot-config`: the file is read, the options are applied, the keys are validated, and
  written where they are valid.

  Two properties carry a run.  The keys of a dictionary that was read, or changed by the setters, can
  be written on lines of their own and read back (`Writable`, `readf_writeh`).  And the setters keep
  the static keys and NETAUTO apart (`Exclusive`), which `validate` does not look at: it tests the
  static keys only where NETAUTO is missing.

  `argparseProcess_keeps` is the rule for the options: what every setter keeps, all of them keep.
  `wellFormed_invoke` is the step, and `boot_config_runs` the induction over the invocations.
-/
import DentOS.BootConfig.Keys
import DentOS.Lib.Transition

namespace DentOS.BootConfig

open PyText Relation

/-- A sequence that returned: both parts did. -/
theorem exceptBind_ok {ε α β : Type} {x : Except ε α} {f : α → Except ε β} {b : β}
    (h : (x >>= f) = .ok b) : ∃ a, x = .ok a ∧ f a = .ok b := by
  cases x with
  | error e => cases h
  | ok a => exact ⟨a, rfl, h⟩

/-! ## What the setters change, and what they leave -/

/-- What setting one key leaves: the key has its value and `NETAUTO` is gone. -/
theorem netSet_lookup (key value : Text) (keys : Keys) (k : Text) :
    (netSet key value keys).lookup k =
      if k = key then some value else if k = netauto then none else keys.lookup k := by
  rw [netSet]
  by_cases hkey : k = key
  · rw [if_pos hkey, hkey, AList.lookup_insert]
  · rw [if_neg hkey, AList.lookup_insert_ne hkey]
    by_cases hauto : k = netauto
    · rw [if_pos hauto, hauto, AList.lookup_erase]
    · rw [if_neg hauto, AList.lookup_erase_ne hauto]

/-- The keys that `--dhcp` takes away. -/
def rivals : List Text := [netip, netmask, netgw, netdns, netdomain]

/-- A key that is erased is not found, and every other one is as before. -/
theorem lookup_erase_eq (key : Text) (keys : Keys) (k : Text) :
    (keys.erase key).lookup k = if k = key then none else keys.lookup k := by
  by_cases hkey : k = key
  · rw [if_pos hkey, hkey, AList.lookup_erase]
  · rw [if_neg hkey, AList.lookup_erase_ne hkey]

/-- What `netauto_set` leaves: DHCP, and none of the keys that go against it. -/
theorem netautoSet_lookup (keys : Keys) (k : Text) :
    (netautoSet keys).lookup k =
      if k = netauto then some "dhcp".toList
      else if k ∈ rivals then none else keys.lookup k := by
  rw [netautoSet]
  by_cases hauto : k = netauto
  · rw [if_pos hauto, hauto, AList.lookup_insert]
  · rw [if_neg hauto, AList.lookup_insert_ne hauto]
    simp only [lookup_erase_eq, rivals, List.mem_cons, List.not_mem_nil, or_false]
    by_cases h₁ : k = netip
    · simp only [h₁, true_or, if_true, ite_self]
    · by_cases h₂ : k = netmask
      · simp only [h₂, true_or, or_true, if_true, ite_self]
      · by_cases h₃ : k = netgw
        · simp only [h₃, true_or, or_true, if_true, ite_self]
        · by_cases h₄ : k = netdns
          · simp only [h₄, true_or, or_true, if_true, ite_self]
          · simp only [h₁, h₂, h₃, h₄, false_or, if_false]

/-- The device is given a name where there was none, and nothing else is touched. -/
theorem addNetdev_lookup (keys : Keys) (k : Text) :
    (addNetdev keys).lookup k =
      if k = netdev ∧ keys.lookup netdev = none then some "ma1".toList else keys.lookup k := by
  rw [addNetdev]
  by_cases hnone : keys.lookup netdev = none
  · rw [if_pos hnone]
    by_cases hk : k = netdev
    · rw [if_pos ⟨hk, hnone⟩, hk, AList.lookup_insert]
    · rw [if_neg (fun h => hk h.1), AList.lookup_insert_ne hk]
  · rw [if_neg hnone, if_neg (fun h => hnone h.2)]

/-- **The rule for the options**: what every setter keeps, they keep. -/
theorem argparseProcess_keeps {inv : Keys → Prop} (ops : Ops)
    (hauto : ∀ keys, inv keys → inv (netautoSet keys))
    (hset : ∀ key value, key ∈ rivals → value ≠ [] →
      some value ∈ [ops.ip, ops.netmask, ops.gateway, ops.dns, ops.domain] →
      ∀ keys, inv keys → inv (netSet key value keys)) {keys : Keys} (h : inv keys) :
    inv (argparseProcess ops keys) := by
  have hsetIf : ∀ key option, key ∈ rivals →
      option ∈ [ops.ip, ops.netmask, ops.gateway, ops.dns, ops.domain] →
      ∀ keys, inv keys → inv (setIf (netSet key) option keys) := by
    intro key option hkey hoption keys hk
    cases option with
    | none => exact hk
    | some value =>
        rw [setIf]
        split
        · exact hk
        · next hne => exact hset key value hkey hne hoption keys hk
  have hfirst : inv (if ops.dhcp then netautoSet keys else keys) := by
    split
    · exact hauto keys h
    · exact h
  have hip := hsetIf netip ops.ip (by simp [rivals]) (by simp) _ hfirst
  have hmask := hsetIf netmask ops.netmask (by simp [rivals]) (by simp) _ hip
  have hgw := hsetIf netgw ops.gateway (by simp [rivals]) (by simp) _ hmask
  have hdns := hsetIf netdns ops.dns (by simp [rivals]) (by simp) _ hgw
  exact hsetIf netdomain ops.domain (by simp [rivals]) (by simp) _ hdns

/-! ## Reading back what was written -/

/-- A key and a value that a line of their own gives back. -/
structure WritableItem (k v : Text) : Prop where
  key : '\n' ∉ k ∧ '=' ∉ k
  value : '\n' ∉ v ∧ strip v = v

/-- Every key and value is of that kind. -/
def Writable (keys : Keys) : Prop := ∀ k v, keys.lookup k = some v → WritableItem k v

/-- A key that fits on a line may be added. -/
theorem writable_insert {keys : Keys} {k v : Text} (h : Writable keys) (hkv : WritableItem k v) :
    Writable (keys.insert k v) := by
  intro k' v' hk'
  by_cases hkk : k' = k
  · subst hkk
    rw [AList.lookup_insert] at hk'
    cases hk'
    exact hkv
  · rw [AList.lookup_insert_ne hkk] at hk'
    exact h k' v' hk'

/-- Fewer keys are as writable. -/
theorem writable_erase {keys : Keys} (k : Text) (h : Writable keys) : Writable (keys.erase k) := by
  intro k' v' hk'
  rw [lookup_erase_eq] at hk'
  split at hk'
  · cases hk'
  · exact h k' v' hk'

/-- What is read from a line can be written again. -/
theorem readLine_writable {keys : Keys} {line : Text} (hline : '\n' ∉ line) (h : Writable keys) :
    Writable (readLine keys line) := by
  rw [readLine, partitionEq]
  by_cases heq : '=' ∈ line
  · rw [if_pos heq]
    refine writable_insert h ⟨⟨?_, ?_⟩, ?_, strip_strip _⟩
    · intro hmem
      exact hline ((List.takeWhile_prefix _).subset hmem)
    · intro hmem
      have hne := List.mem_takeWhile_imp hmem
      exact absurd rfl (of_decide_eq_true hne)
    · intro hmem
      have hmem := List.mem_of_mem_tail (mem_of_mem_strip hmem)
      exact hline ((List.dropWhile_suffix _).subset hmem)
  · rw [if_neg heq]
    exact h

/-- What is read can be written. -/
theorem writable_readf (file : Text) : Writable (readf file) := by
  have hlines : ∀ ls : List Text, (∀ line ∈ ls, '\n' ∉ line) → ∀ keys, Writable keys →
      Writable (ls.foldl readLine keys) := by
    intro ls
    induction ls with
    | nil => exact fun _ keys h => h
    | cons line ls ih =>
        intro hall keys h
        exact ih (fun l hl => hall l (List.mem_cons_of_mem line hl)) _
          (readLine_writable (hall line List.mem_cons_self) h)
  refine hlines _ (fun line hline => not_mem_of_mem_lines hline) ∅ ?_
  intro k v hk
  rw [AList.lookup_empty] at hk
  cases hk

/-- The line of an item is read as that item. -/
theorem readLine_item {k v : Text} (h : WritableItem k v) (keys : Keys) :
    readLine keys (k ++ '=' :: v) = keys.insert k v := by
  have hne : ∀ c ∈ k, decide (c ≠ '=') = true := fun c hc => decide_eq_true fun he =>
    h.key.2 (he ▸ hc)
  have htake : (k ++ '=' :: v).takeWhile (fun c => decide (c ≠ '=')) = k := by
    rw [List.takeWhile_append_of_pos hne]
    exact List.append_nil k
  have hdrop : (k ++ '=' :: v).dropWhile (fun c => decide (c ≠ '=')) = '=' :: v := by
    rw [List.dropWhile_append_of_pos hne]
    rfl
  have hmem : '=' ∈ k ++ '=' :: v := List.mem_append_right k List.mem_cons_self
  rw [readLine, partitionEq, if_pos hmem]
  simp only [htake, hdrop, List.tail_cons]
  rw [h.value.2]

/-- Inserting items one after another, where no key comes twice. -/
theorem foldl_insert_lookup : ∀ (items : List (Sigma fun _ : Text => Text)), items.NodupKeys →
    ∀ (keys : Keys) (k : Text),
      (items.foldl (fun keys item => keys.insert item.1 item.2) keys).lookup k =
        (items.dlookup k).or (keys.lookup k)
  | [], _, keys, k => by
      rw [List.foldl_nil, List.dlookup_nil, Option.none_or]
  | ⟨key, value⟩ :: items, h, keys, k => by
      obtain ⟨hnot, hrest⟩ := List.nodupKeys_cons.mp h
      rw [List.foldl_cons, foldl_insert_lookup items hrest]
      by_cases hk : k = key
      · subst hk
        rw [AList.lookup_insert, List.dlookup_cons_eq, List.dlookup_eq_none.mpr hnot]
        rfl
      · rw [AList.lookup_insert_ne hk, List.dlookup_cons_ne _ _ hk]

/-- **What is written is read back.** -/
theorem readf_writeh (iter : IterItems) {keys : Keys} (h : Writable keys) :
    SameKeys (readf (writeh iter keys)) keys := by
  have hnodup : (iter.items keys).NodupKeys :=
    (List.perm_nodupKeys (iter.perm keys)).mpr keys.nodupKeys
  have hitem : ∀ item ∈ iter.items keys, WritableItem item.1 item.2 := by
    intro item hmem
    have hentry : item ∈ keys.entries := (iter.perm keys).subset hmem
    exact h item.1 item.2 (AList.mem_lookup_iff.mpr hentry)
  have hfold : ∀ items : List (Sigma fun _ : Text => Text),
      (∀ item ∈ items, WritableItem item.1 item.2) → ∀ acc : Keys,
      (lines (items.flatMap writeItem)).foldl readLine acc =
        items.foldl (fun keys item => keys.insert item.1 item.2) acc := by
    intro items
    induction items with
    | nil => exact fun _ acc => rfl
    | cons item items ih =>
        intro hall acc
        have hi := hall item List.mem_cons_self
        have hnl : '\n' ∉ item.1 ++ '=' :: item.2 := by
          rintro hmem
          rcases List.mem_append.mp hmem with hmem | hmem
          · exact hi.key.1 hmem
          · rcases List.mem_cons.mp hmem with hmem | hmem
            · exact absurd hmem (by decide)
            · exact hi.value.1 hmem
        have hwrite : (item :: items).flatMap writeItem =
            (item.1 ++ '=' :: item.2) ++ '\n' :: items.flatMap writeItem := by
          rw [List.flatMap_cons, writeItem]
          simp only [List.append_assoc, List.cons_append, List.nil_append]
        rw [hwrite, lines_line hnl, List.foldl_cons, readLine_item hi, List.foldl_cons]
        exact ih (fun i hi => hall i (List.mem_cons_of_mem item hi)) _
  intro k
  rw [readf, writeh, hfold _ hitem, foldl_insert_lookup _ hnodup, AList.lookup_empty, Option.or_none,
    List.perm_dlookup k hnodup (iter.perm keys)]
  rfl

/-! ## The laws of the keys

  Dynamic and fixed addresses exclude each other.  Every setter keeps that, or validation finds it. -/

section

variable (net : Netaddr)

/-- A complete static configuration. -/
def StaticNet (keys : Keys) : Prop :=
  ∃ ip mask gw, keys.lookup netip = some ip ∧ keys.lookup netmask = some mask ∧
    keys.lookup netgw = some gw ∧ isIpAddress net ip = true ∧ isNetmask net mask = true ∧
    isIpAddress net gw = true ∧ net.inNetwork gw ip mask = some true

/-- What a configuration obeys. -/
structure Laws (keys : Keys) : Prop where
  auto : keys.lookup netauto ≠ none → ∀ k ∈ rivals, keys.lookup k = none
  static : keys.lookup netauto = none →
    (keys.lookup netip = none ∧ keys.lookup netmask = none ∧ keys.lookup netgw = none) ∨
      StaticNet net keys

/-- NETAUTO excludes its rivals, and no static key is empty.  The second half is what keeps
    `validate`, to which an empty key is a missing one, honest. -/
structure Exclusive (keys : Keys) : Prop where
  auto : keys.lookup netauto ≠ none → ∀ k ∈ rivals, keys.lookup k = none
  filled : ∀ k ∈ [netip, netmask, netgw], keys.lookup k ≠ some []

variable {net}

/-- An address is not empty. -/
theorem ne_nil_of_isIpAddress {v : Text} (h : isIpAddress net v = true) : v ≠ [] := by
  rw [isIpAddress, Bool.and_eq_true] at h
  exact of_decide_eq_true h.2

/-- A netmask is not empty. -/
theorem ne_nil_of_isNetmask {v : Text} (h : isNetmask net v = true) : v ≠ [] := by
  rw [isNetmask, Bool.and_eq_true] at h
  exact of_decide_eq_true h.2

/-- A valid configuration is static or automatic, never both. -/
theorem Laws.exclusive {keys : Keys} (h : Laws net keys) : Exclusive keys := by
  refine ⟨h.auto, ?_⟩
  intro k hk hempty
  by_cases hauto : keys.lookup netauto = none
  · rcases h.static hauto with ⟨h₁, h₂, h₃⟩ | ⟨ip, mask, gw, h₁, h₂, h₃, hip, hmask, hgw, -⟩
    · simp only [List.mem_cons, List.not_mem_nil, or_false] at hk
      rcases hk with rfl | rfl | rfl
      · rw [h₁] at hempty
        cases hempty
      · rw [h₂] at hempty
        cases hempty
      · rw [h₃] at hempty
        cases hempty
    · simp only [List.mem_cons, List.not_mem_nil, or_false] at hk
      rcases hk with rfl | rfl | rfl
      · rw [h₁] at hempty
        exact ne_nil_of_isIpAddress hip (Option.some.inj hempty)
      · rw [h₂] at hempty
        exact ne_nil_of_isNetmask hmask (Option.some.inj hempty)
      · rw [h₃] at hempty
        exact ne_nil_of_isIpAddress hgw (Option.some.inj hempty)
  · have hmem : k ∈ rivals := by
      simp only [List.mem_cons, List.not_mem_nil, or_false] at hk
      simp only [rivals, List.mem_cons]
      rcases hk with rfl | rfl | rfl <;> simp
    rw [h.auto hauto k hmem] at hempty
    cases hempty

/-- Asking for DHCP drops what goes against it. -/
theorem exclusive_netautoSet (keys : Keys) : Exclusive (netautoSet keys) := by
  have hrival : ∀ k ∈ rivals, (netautoSet keys).lookup k = none := by
    intro k hk
    have hne : k ≠ netauto := by
      rintro rfl
      exact absurd hk (by decide)
    rw [netautoSet_lookup, if_neg hne, if_pos hk]
  refine ⟨fun _ => hrival, ?_⟩
  intro k hk hempty
  have hmem : k ∈ rivals := by
    simp only [List.mem_cons, List.not_mem_nil, or_false] at hk
    rcases hk with rfl | rfl | rfl <;> decide
  rw [hrival k hmem] at hempty
  cases hempty

/-- Setting one of the rivals drops DHCP. -/
theorem exclusive_netSet {key value : Text} (hkey : key ∈ rivals) (hvalue : value ≠ [])
    {keys : Keys} (h : Exclusive keys) : Exclusive (netSet key value keys) := by
  have hne : netauto ≠ key := by
    rintro rfl
    exact absurd hkey (by decide)
  refine ⟨?_, ?_⟩
  · intro hauto
    rw [netSet_lookup, if_neg hne, if_pos rfl] at hauto
    exact absurd rfl hauto
  · intro k hk hempty
    rw [netSet_lookup] at hempty
    split at hempty
    · exact hvalue (Option.some.inj hempty)
    · split at hempty
      · cases hempty
      · exact h.filled k hk hempty

/-- The options keep NETAUTO and its rivals apart. -/
theorem exclusive_argparseProcess (ops : Ops) {keys : Keys} (h : Exclusive keys) :
    Exclusive (argparseProcess ops keys) :=
  argparseProcess_keeps ops (fun keys _ => exclusive_netautoSet keys)
    (fun _ _ hkey hvalue _ _ => exclusive_netSet hkey hvalue) h

/-! ## What validation establishes of the keys that it lets through -/

/-- A key that passed its check, and is set, has a value of the right form. -/
theorem checkKey_ok {test : Text → Bool} {key : Text} {keys : Keys}
    (h : checkKey test key keys = .ok ()) (hne : getOr keys key ≠ []) :
    test (getOr keys key) = true := by
  rw [checkKey, if_pos hne] at h
  split at h
  · assumption
  · cases h

/-- The test of the keys together passes with none of the three, or with all of them and the gateway in the
    network. -/
theorem checkStatic_ok {keys : Keys} (h : checkStatic net keys = .ok ()) :
    (getOr keys netip = [] ∧ getOr keys netmask = [] ∧ getOr keys netgw = []) ∨
      (getOr keys netip ≠ [] ∧ getOr keys netmask ≠ [] ∧ getOr keys netgw ≠ [] ∧
        net.inNetwork (getOr keys netgw) (getOr keys netip) (getOr keys netmask) = some true) := by
  unfold checkStatic at h
  dsimp only at h
  split at h
  · next hall =>
      refine Or.inr ⟨hall.1, hall.2.1, hall.2.2, ?_⟩
      split at h
      · assumption
      · cases h
      · cases h
  · split at h
    · cases h
    · next hsome =>
        refine Or.inl ⟨?_, ?_, ?_⟩
        · exact not_not.mp fun hne => hsome (Or.inl hne)
        · exact not_not.mp fun hne => hsome (Or.inr (Or.inl hne))
        · exact not_not.mp fun hne => hsome (Or.inr (Or.inr hne))

/-- A value that is not empty was found. -/
theorem lookup_of_getOr_ne {keys : Keys} {k : Text} (h : getOr keys k ≠ []) :
    keys.lookup k = some (getOr keys k) := by
  rw [getOr] at h ⊢
  rcases hk : keys.lookup k with _ | v
  · rw [hk] at h
    exact absurd rfl h
  · rfl

/-- Where no value is empty, an empty one means that the key is missing. -/
theorem lookup_of_getOr_eq {keys : Keys} {k : Text} (h : getOr keys k = [])
    (hfilled : keys.lookup k ≠ some []) : keys.lookup k = none := by
  rw [getOr] at h
  rcases hk : keys.lookup k with _ | v
  · rfl
  · rw [hk] at h hfilled
    exact absurd (congrArg some h) hfilled

/-- Keys that pass the tests, and keep NETAUTO apart, obey the laws. -/
theorem laws_of_validateKeys {keys : Keys} (hex : Exclusive keys)
    (h : validateKeys net keys = .ok ()) : Laws net keys := by
  refine ⟨hex.auto, ?_⟩
  intro hauto
  rw [validateKeys, hauto] at h
  obtain ⟨⟨⟩, hip, h⟩ := exceptBind_ok h
  obtain ⟨⟨⟩, hmask, h⟩ := exceptBind_ok h
  obtain ⟨⟨⟩, hgw, h⟩ := exceptBind_ok h
  obtain ⟨⟨⟩, hstatic, -⟩ := exceptBind_ok h
  rcases checkStatic_ok hstatic with ⟨h₁, h₂, h₃⟩ | ⟨h₁, h₂, h₃, hnet⟩
  · refine Or.inl ⟨lookup_of_getOr_eq h₁ (hex.filled netip (by decide)),
      lookup_of_getOr_eq h₂ (hex.filled netmask (by decide)),
      lookup_of_getOr_eq h₃ (hex.filled netgw (by decide))⟩
  · exact Or.inr ⟨_, _, _, lookup_of_getOr_ne h₁, lookup_of_getOr_ne h₂, lookup_of_getOr_ne h₃,
      checkKey_ok hip h₁, checkKey_ok hmask h₂, checkKey_ok hgw h₃, hnet⟩

end

/-! ## Invocations: reading the file, the setters, validation, and the write -/

/-- The boot-config file, and the keys that were written last. -/
structure Box where
  /-- The text of the boot-config file. -/
  file : Text
  /-- The keys it was written from. -/
  keys : Keys

section

variable (net : Netaddr) (iter : IterItems)

/-- One run of `onl-boot-config`: the parser, `argparse_process`, and `argparse_write` with nothing
    that fails on the way. -/
def invoke (ops : Ops) (box : Box) : Box :=
  if parses net ops then
    match validate net (argparseProcess ops (readf box.file)) with
    | .ok keys => ⟨writeh iter keys, keys⟩
    | .error _ => box
  else box

/-- The values of the options have no newline and no blank around them. -/
def CleanOps (ops : Ops) : Prop :=
  ∀ value, some value ∈ [ops.ip, ops.netmask, ops.gateway, ops.dns, ops.domain] →
    '\n' ∉ value ∧ strip value = value

/-- Any invocation with clean values. -/
def Invoked (box box' : Box) : Prop := ∃ ops, CleanOps ops ∧ box' = invoke net iter ops box

/-- The options that leave the keys alone. -/
def NoOption (ops : Ops) : Prop :=
  ops.dhcp = false ∧ ops.ip = none ∧ ops.netmask = none ∧ ops.gateway = none ∧ ops.dns = none ∧
    ops.domain = none

/-- Validation fails on what the options make of the file. -/
def FailsValidation (ops : Ops) (box : Box) : Prop :=
  ∀ keys, validate net (argparseProcess ops (readf box.file)) ≠ .ok keys

/-- Nothing but a NETDEV that was missing is new in the file. -/
def OnlyNetdev (box box' : Box) : Prop :=
  ∀ k, (readf box'.file).lookup k = (readf box.file).lookup k ∨
    (k = netdev ∧ (readf box.file).lookup netdev = none)

/-- What holds of the file along a run. -/
structure WellFormed (box : Box) : Prop where
  reads : SameKeys (readf box.file) box.keys
  laws : Laws net (readf box.file)

variable {net iter}

/-- The laws look at the dictionary key by key. -/
theorem laws_congr {d d' : Keys} (h : SameKeys d d') (hd : Laws net d) : Laws net d' := by
  refine ⟨?_, ?_⟩
  · intro hauto k hk
    rw [← h netauto] at hauto
    rw [← h k]
    exact hd.auto hauto k hk
  · intro hauto
    rw [← h netauto] at hauto
    rw [StaticNet, ← h netip, ← h netmask, ← h netgw]
    exact hd.static hauto

/-- The name of the device is no part of the choice between DHCP and static. -/
theorem netdev_not_rival : netdev ∉ netauto :: rivals := by decide

/-- The missing NETDEV is none of the laws' business. -/
theorem laws_addNetdev {keys : Keys} (h : Laws net keys) : Laws net (addNetdev keys) := by
  have hsame : ∀ k ∈ netauto :: rivals, (addNetdev keys).lookup k = keys.lookup k := by
    intro k hk
    rw [addNetdev_lookup, if_neg]
    rintro ⟨rfl, -⟩
    exact netdev_not_rival hk
  have hauto := hsame netauto (by decide)
  refine ⟨?_, ?_⟩
  · intro hne k hk
    rw [hsame k (List.mem_cons_of_mem netauto hk)]
    exact h.auto (hauto ▸ hne) k hk
  · intro hnone
    have hstatic := h.static (hauto ▸ hnone)
    rw [StaticNet, hsame netip (by decide), hsame netmask (by decide), hsame netgw (by decide)]
    exact hstatic

/-- The name of the device can be written. -/
theorem writable_addNetdev {keys : Keys} (h : Writable keys) : Writable (addNetdev keys) := by
  rw [addNetdev]
  split
  · exact writable_insert h ⟨by decide, by decide⟩
  · exact h

/-- Clean options keep the keys writable. -/
theorem writable_argparseProcess {ops : Ops} (hclean : CleanOps ops) {keys : Keys}
    (h : Writable keys) : Writable (argparseProcess ops keys) := by
  have hrival : ∀ key ∈ netauto :: rivals, '\n' ∉ key ∧ '=' ∉ key := by decide
  refine argparseProcess_keeps ops ?_ ?_ h
  · intro keys h
    have herased := writable_erase netdomain (writable_erase netdns (writable_erase netgw
      (writable_erase netmask (writable_erase netip h))))
    exact writable_insert herased ⟨hrival netauto List.mem_cons_self, by decide⟩
  · intro key value hkey _ hmem keys h
    exact writable_insert (writable_erase netauto h)
      ⟨hrival key (List.mem_cons_of_mem netauto hkey), hclean value hmem⟩

/-- What an invocation does: it leaves the file, or writes valid keys with a NETDEV. -/
theorem invoke_cases (ops : Ops) (box : Box) :
    invoke net iter ops box = box ∨
      (parses net ops = true ∧
        validateKeys net (argparseProcess ops (readf box.file)) = .ok () ∧
        invoke net iter ops box =
          ⟨writeh iter (addNetdev (argparseProcess ops (readf box.file))),
            addNetdev (argparseProcess ops (readf box.file))⟩) := by
  rw [invoke]
  split
  · next hparses =>
      split
      · next keys hok =>
          obtain ⟨⟨⟩, hvalid, hkeys⟩ := exceptBind_ok hok
          cases hkeys
          exact Or.inr ⟨hparses, hvalid, rfl⟩
      · exact Or.inl rfl
  · exact Or.inl rfl

/-- **One invocation** keeps the file well formed. -/
theorem wellFormed_invoke {ops : Ops} (hclean : CleanOps ops) {box : Box}
    (h : WellFormed net box) : WellFormed net (invoke net iter ops box) := by
  rcases invoke_cases ops box with hsame | ⟨-, hvalid, hnew⟩
  · rw [hsame]
    exact h
  · have hwritable := writable_addNetdev
      (writable_argparseProcess hclean (writable_readf box.file))
    have hreads := readf_writeh iter hwritable
    have hlaws := laws_addNetdev
      (laws_of_validateKeys (exclusive_argparseProcess ops h.laws.exclusive) hvalid)
    rw [hnew]
    exact ⟨hreads, laws_congr (fun k => (hreads k).symm) hlaws⟩

/-- Without options nothing is changed. -/
theorem argparseProcess_noOption {ops : Ops} (h : NoOption ops) (keys : Keys) :
    argparseProcess ops keys = keys := by
  obtain ⟨h₁, h₂, h₃, h₄, h₅, h₆⟩ := h
  rw [argparseProcess, h₁, h₂, h₃, h₄, h₅, h₆]
  rfl

/-- An invocation with no option, or one whose validation fails. -/
theorem onlyNetdev_invoke {ops : Ops} {box : Box} (hops : NoOption ops ∨ FailsValidation net ops box) :
    OnlyNetdev box (invoke net iter ops box) := by
  rcases invoke_cases ops box with hsame | ⟨-, hvalid, hnew⟩
  · rw [hsame]
    exact fun k => Or.inl rfl
  · rcases hops with hnone | hfails
    · rw [hnew, argparseProcess_noOption hnone]
      intro k
      have hread := readf_writeh iter (writable_addNetdev (writable_readf box.file)) k
      have hadd := addNetdev_lookup (readf box.file) k
      by_cases hdev : k = netdev ∧ (readf box.file).lookup netdev = none
      · exact Or.inr hdev
      · rw [if_neg hdev] at hadd
        exact Or.inl (hread.trans hadd)
    · refine absurd ?_ (hfails (addNetdev (argparseProcess ops (readf box.file))))
      rw [validate, hvalid]
      rfl

/-- **Along every run** the file is well formed, and an invocation with no option or without success
    adds at most a NETDEV. -/
theorem boot_config_runs (net : Netaddr) (iter : IterItems) {box box' : Box}
    (h : WellFormed net box) (hrun : ReflTransGen (Invoked net iter) box box') :
    WellFormed net box' ∧
      ∀ ops, NoOption ops ∨ FailsValidation net ops box' →
        OnlyNetdev box' (invoke net iter ops box') := by
  refine ⟨?_, fun ops hops => onlyNetdev_invoke hops⟩
  refine Transition.invariant ?_ hrun h
  rintro box₁ box₂ hbox ⟨ops, hclean, rfl⟩
  exact wellFormed_invoke hclean hbox

end

/-! ## A run of several invocations -/

/-- The entries in the order in which they were inserted. -/
def insertionOrder : IterItems := ⟨fun keys => keys.entries, entries_perm⟩

/-- A network 10.0.0.0/8 with everything in it. -/
def tenNet : Netaddr where
  address := fun v => "10.".toList.isPrefixOf v || v = "255.0.0.0".toList
  mask := fun v => v = "255.0.0.0".toList
  inNetwork := fun gw _ _ => some ("10.".toList.isPrefixOf gw)

/-- The options of a static configuration. -/
def staticOps : Ops where
  dhcp := false
  ip := some "10.0.0.2".toList
  netmask := some "255.0.0.0".toList
  gateway := some "10.0.0.1".toList
  dns := none
  domain := none

/-- A file with DHCP. -/
def dhcpFile : Text := "NETDEV=ma1\nNETAUTO=dhcp\n".toList

/-- A static configuration over a file that asks for DHCP. -/
theorem boot_config_runs_static :
    (WellFormed tenNet (invoke tenNet insertionOrder staticOps ⟨dhcpFile, readf dhcpFile⟩) ∧
      ∀ ops, NoOption ops ∨
          FailsValidation tenNet ops
            (invoke tenNet insertionOrder staticOps ⟨dhcpFile, readf dhcpFile⟩) →
        OnlyNetdev (invoke tenNet insertionOrder staticOps ⟨dhcpFile, readf dhcpFile⟩)
          (invoke tenNet insertionOrder ops
            (invoke tenNet insertionOrder staticOps ⟨dhcpFile, readf dhcpFile⟩))) ∧
    (readf (invoke tenNet insertionOrder staticOps ⟨dhcpFile, readf dhcpFile⟩).file).lookup netip =
      some "10.0.0.2".toList := by
  have hstart : WellFormed tenNet ⟨dhcpFile, readf dhcpFile⟩ := by
    refine ⟨fun k => rfl, ?_, ?_⟩
    · exact fun _ => by decide
    · exact fun hauto => absurd hauto (by decide)
  have hclean : CleanOps staticOps := by
    intro value hvalue
    simp only [staticOps, List.mem_cons, Option.some.injEq, List.not_mem_nil, or_false, reduceCtorEq]
      at hvalue
    rcases hvalue with rfl | rfl | rfl <;> decide
  exact ⟨boot_config_runs tenNet insertionOrder hstart
    (ReflTransGen.single ⟨staticOps, hclean, rfl⟩), by decide⟩

end DentOS.BootConfig
