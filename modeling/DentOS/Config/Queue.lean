/-
  The queue of `dmerge` (onl/util/__init__.py) and of `merge` (onl/YamlUtils.py).

  A pass takes the first entry of the queue, two dictionaries and a third to fill, and fills it: with
  leaves, and with new dictionaries that are queued to be filled later.  The dictionaries that are
  filled have addresses on a heap.  `list n s` is the order in which Python iterates over the set `s`
  the `n`th time it iterates over one.

  `Filling` is the invariant of the loops in a pass: the keys that are done hold the merge of what the
  two dictionaries have under them, where a new dictionary stands for the entry that is queued for it.
  `filling_pass` shows that one pass fills its dictionary, and leaves those that are filled alone; the
  induction over the passes is in Config.Merged.
-/
import DentOS.Lib.Lines
import DentOS.Config.Dmerge

namespace DentOS.Config

open Nested PyText

/-- Orders of iteration over sets. -/
structure SetOrder (K : Type) where
  /-- How the n-th set to be iterated over is listed. -/
  list : Nat → Finset K → List K
  /-- No element comes twice. -/
  nodup : ∀ n s, (list n s).Nodup
  /-- Every element of the set comes, and nothing else. -/
  mem : ∀ {n s k}, k ∈ list n s ↔ k ∈ s

/-- A value in a dictionary that is filled: a leaf, or a dictionary at an address. -/
inductive Cell (V : Type) where
  | leaf (x : Option V)
  | ref (addr : Nat)

/-- `(c1, c2, c3)`. -/
structure Entry (K V : Type) where
  /-- The first of the two dictionaries that are merged. -/
  c1 : Doc K V
  /-- The second, which decides. -/
  c2 : Doc K V
  /-- The dictionary that is filled. -/
  c3 : Cell V

/-- The dictionaries that are filled, the first address that is free, the queue, and the number of
    sets that were iterated over. -/
structure St (K V : Type) where
  /-- What each dictionary has under its keys. -/
  heap : Nat → K → Option (Cell V)
  /-- The address of the next one. -/
  next : Nat
  /-- The merges that are still to be done. -/
  queue : List (Entry K V)
  /-- The number of sets so far. -/
  sets : Nat

/-- What the merge raises, and the end of the fuel. -/
inductive MergeError where
  | attributeError
  | keyError
  | valueError
  | yamlError
  | outOfFuel
  deriving DecidableEq

variable {K V : Type} [DecidableEq K]

namespace St

/-- `c3[k] = c`. -/
def put (st : St K V) (addr : Nat) (k : K) (c : Cell V) : St K V :=
  { st with heap := fun a j => if a = addr ∧ j = k then some c else st.heap a j }

/-- `c3.setdefault(k, x)`. -/
def setdefault (st : St K V) (addr : Nat) (k : K) (x : Option V) : St K V :=
  match st.heap addr k with
  | none => st.put addr k (.leaf x)
  | some _ => st

/-- `c3.setdefault(k, {})` and `q.append((v1, v2, c3[k],))`. -/
def push (st : St K V) (addr : Nat) (k : K) (v1 v2 : Doc K V) : St K V :=
  match st.heap addr k with
  | none => { st.put addr k (.ref st.next) with
      next := st.next + 1, queue := st.queue ++ [⟨v1, v2, .ref st.next⟩] }
  | some c => { st with queue := st.queue ++ [⟨v1, v2, c⟩] }

end St

/-- A key of the first dictionary only. -/
def firstOnly (addr : Nat) (c1 : Doc K V) (st : St K V) (k : K) : St K V :=
  match c1.get k with
  | none => st
  | some (.leaf x) => st.setdefault addr k x
  | some (.dict keys vals) => st.push addr k (.dict keys vals) Tree.empty

/-- A key of the second dictionary only. -/
def secondOnly (addr : Nat) (c2 : Doc K V) (st : St K V) (k : K) : St K V :=
  match c2.get k with
  | none => st
  | some (.leaf none) => st
  | some (.leaf (some y)) => st.setdefault addr k (some y)
  | some (.dict keys vals) => st.push addr k Tree.empty (.dict keys vals)

/-- A key of both. -/
def inBoth (eqKey : K) (addr : Nat) (c1 c2 : Doc K V) (st : St K V) (k : K) : St K V :=
  match c1.get k, c2.get k with
  | none, _ => st
  | some _, none => st
  | some _, some (.leaf none) => st
  | some (.dict keys vals), some (.dict keys' vals') =>
      st.push addr k (.dict keys vals) (.dict keys' vals')
  | some (.leaf _), some (.leaf (some y)) => st.put addr k (.leaf (some y))
  | some (.leaf x), some (.dict keys vals) => st.push addr k (promote eqKey x) (.dict keys vals)
  | some (.dict keys vals), some (.leaf (some y)) =>
      st.push addr k (.dict keys vals) (promote eqKey (some y))

section

variable (eqKey : K) (order : SetOrder K)

/-- The three loops of a pass. -/
def pass (addr : Nat) (c1 c2 : Doc K V) (st : St K V) : St K V :=
  (order.list (st.sets + 2) (c1.keys ∩ c2.keys)).foldl (inBoth eqKey addr c1 c2)
    ((order.list (st.sets + 1) (c2.keys \ c1.keys)).foldl (secondOnly addr c2)
      ((order.list st.sets (c1.keys \ c2.keys)).foldl (firstOnly addr c1) { st with sets := st.sets + 3 }))

/-- `while True`, with fuel. -/
def loop : Nat → St K V → Except MergeError (St K V)
  | fuel, st =>
      match fuel, st.queue with
      | _, [] => .ok st
      | 0, _ :: _ => .error .outOfFuel
      | fuel + 1, ⟨.dict keys vals, .dict keys' vals', .ref addr⟩ :: rest =>
          loop fuel (pass eqKey order addr (.dict keys vals) (.dict keys' vals') { st with queue := rest })
      | _ + 1, _ :: _ => .error .attributeError

/-- `dmerge`; what it returns is at address 0. -/
def dmerge (fuel : Nat) (d1 d2 : Doc K V) : Except MergeError (St K V) :=
  loop eqKey order fuel ⟨fun _ _ => none, 1, [⟨d1, d2, .ref 0⟩], 0⟩

end

/-! ## YamlUtils.merge -/

/-- `buf3`: the first file, and the second without the lines that are `---`. -/
def combined (buf1 buf2 : Text) : Text :=
  buf1 ++ '\n' :: ['\n'].intercalate ((splitlines buf2).filter (· ≠ "---".toList))

section

variable (eqKey defaultKey : K) (order : SetOrder K) (load : Text → Option (Doc K V))

/-- The loop of `merge`, with `merged` at address 0 and `merged[tgtKey]` at address 1. -/
def yamlLoop (fuel : Nat) (tgtKey : K) (v1 v2 : Doc K V) : Except MergeError (St K V) :=
  loop eqKey order fuel
    ⟨fun a k => if a = 0 ∧ k = tgtKey then some (.ref 1) else none, 2, [⟨v1, v2, .ref 1⟩], 1⟩

/-- The part of `merge` behind the test of the default mapping. -/
def yamlTarget (fuel : Nat) (v1 c2 : Doc K V) : Except MergeError (St K V) :=
  match c2 with
  | .leaf _ => .error .attributeError
  | .dict keys vals =>
      match order.list 0 (keys.erase defaultKey) with
      | [tgtKey] =>
          match (Tree.dict keys vals).get tgtKey with
          | some v2 => yamlLoop eqKey order fuel tgtKey v1 v2
          | none => .error .keyError
      | _ => .error .valueError

/-- `merge`; `load` is `yaml.load`. -/
def yamlMerge (fuel : Nat) (buf1 buf2 : Text) : Except MergeError (St K V) :=
  match load buf1 with
  | none => .error .yamlError
  | some (.leaf _) => .error .attributeError
  | some (.dict keys vals) =>
      if keys ≠ {defaultKey} then .error .valueError
      else
        match load (combined buf1 buf2), (Tree.dict keys vals).get defaultKey with
        | none, _ => .error .yamlError
        | some _, none => .error .keyError
        | some c2, some v1 => yamlTarget eqKey defaultKey order fuel v1 c2

end

/-! ## One pass: what a single turn of the loop does to the heap and the queue -/

/-- An entry that can be taken from the queue: dictionaries, and an empty one to fill. -/
def Entry.Open (e : Entry K V) (st : St K V) (addr : Nat) : Prop :=
  e.c1.IsDict ∧ e.c2.IsDict ∧ e.c3 = .ref addr ∧ addr < st.next ∧ ∀ k, st.heap addr k = none

/-- The depth of what an entry reads. -/
def Entry.depth (e : Entry K V) : Nat := e.c1.depth + e.c2.depth

/-- What stands at a key is what the merge `t` has there: nothing, a leaf, or a dictionary that is
    queued to become it. -/
def Placed (eqKey : K) (new : List (Entry K V)) (c : Option (Cell V)) (v : Option (Doc K V)) : Prop :=
  (c = none ∧ v = none) ∨ (∃ x, c = some (.leaf x) ∧ v = some (.leaf x)) ∨
    ∃ e ∈ new, c = some e.c3 ∧ v = some (override eqKey e.c1 e.c2)

/-- **The invariant of a pass** that fills the dictionary at `addr`, up to some keys. -/
structure Filling (eqKey : K) (st₀ : St K V) (addr : Nat) (t : Doc K V) (depth : Nat) (done : Finset K)
    (st : St K V) (new : List (Entry K V)) : Prop where
  next_le : st₀.next ≤ st.next
  queue : st.queue = st₀.queue ++ new
  opened : ∀ e ∈ new, e.depth < depth ∧ ∃ a, st₀.next ≤ a ∧ e.Open st a
  apart : (new.map Entry.c3).Nodup
  others : ∀ a, a ≠ addr → a < st₀.next → st.heap a = st₀.heap a
  fresh : ∀ a, st.next ≤ a → ∀ k, st.heap a k = none
  left : ∀ k, k ∉ done → st.heap addr k = none
  placed : ∀ k ∈ done, Placed eqKey new (st.heap addr k) (t.get k)

section

variable {eqKey : K} {st₀ st : St K V} {addr depth : Nat} {t : Doc K V} {done : Finset K}
  {new : List (Entry K V)} {k : K}

/-- A key that the merge does not have. -/
theorem filling_skip (h : Filling eqKey st₀ addr t depth done st new) (hk : k ∉ done)
    (ht : t.get k = none) : Filling eqKey st₀ addr t depth (insert k done) st new := by
  refine ⟨h.next_le, h.queue, h.opened, h.apart, h.others, h.fresh, ?_, ?_⟩
  · exact fun j hj => h.left j fun hmem => hj (Finset.mem_insert_of_mem hmem)
  · intro j hj
    rcases Finset.mem_insert.mp hj with rfl | hj
    · exact Or.inl ⟨h.left j hk, ht⟩
    · exact h.placed j hj

/-- A cell that is written holds the value, and every other one is as before. -/
theorem heap_put (st : St K V) (addr : Nat) (k : K) (c : Cell V) (a : Nat) (j : K) :
    (st.put addr k c).heap a j = if a = addr ∧ j = k then some c else st.heap a j := rfl

/-- A key at which the merge has a leaf. -/
theorem filling_put (haddr : addr < st₀.next) (h : Filling eqKey st₀ addr t depth done st new)
    (hk : k ∉ done) {x : Option V} (ht : t.get k = some (.leaf x)) :
    Filling eqKey st₀ addr t depth (insert k done) (st.put addr k (.leaf x)) new := by
  have hle := h.next_le
  have hother : ∀ a, a ≠ addr → (st.put addr k (.leaf x)).heap a = st.heap a := by
    intro a ha
    funext j
    rw [heap_put, if_neg fun h => ha h.1]
  refine ⟨h.next_le, h.queue, ?_, h.apart, ?_, ?_, ?_, ?_⟩
  · intro e he
    obtain ⟨hdepth, a, hlow, hc1, hc2, hc3, hnext, hempty⟩ := h.opened e he
    refine ⟨hdepth, a, hlow, hc1, hc2, hc3, hnext, ?_⟩
    rw [hother a (by omega)]
    exact hempty
  · intro a ha hlt
    rw [hother a ha]
    exact h.others a ha hlt
  · intro a ha
    rw [hother a (by have hge : st.next ≤ a := ha; omega)]
    exact h.fresh a ha
  · intro j hj
    rw [Finset.mem_insert, not_or] at hj
    rw [heap_put, if_neg fun h => hj.1 h.2]
    exact h.left j hj.2
  · intro j hj
    rcases Finset.mem_insert.mp hj with rfl | hdone
    · rw [heap_put, if_pos ⟨rfl, rfl⟩]
      exact Or.inr (Or.inl ⟨x, rfl, ht⟩)
    · have hne : j ≠ k := by
        rintro rfl
        exact hk hdone
      rw [heap_put, if_neg fun h => hne h.2]
      exact h.placed j hdone

/-- One key more is filled, with a leaf of the tree. -/
theorem filling_setdefault (haddr : addr < st₀.next)
    (h : Filling eqKey st₀ addr t depth done st new) (hk : k ∉ done) {x : Option V}
    (ht : t.get k = some (.leaf x)) :
    Filling eqKey st₀ addr t depth (insert k done) (st.setdefault addr k x) new := by
  rw [St.setdefault, h.left k hk]
  exact filling_put haddr h hk ht

/-- A key at which the merge has a dictionary: it is queued. -/
theorem filling_push (haddr : addr < st₀.next) (h : Filling eqKey st₀ addr t depth done st new)
    (hk : k ∉ done) {v1 v2 : Doc K V} (h1 : v1.IsDict) (h2 : v2.IsDict)
    (hdepth : v1.depth + v2.depth < depth) (ht : t.get k = some (override eqKey v1 v2)) :
    ∃ new', Filling eqKey st₀ addr t depth (insert k done) (st.push addr k v1 v2) new' := by
  have hle := h.next_le
  rw [St.push, h.left k hk]
  refine ⟨new ++ [⟨v1, v2, .ref st.next⟩], ?_, ?_, ?_, ?_, ?_, ?_, ?_, ?_⟩
  · exact Nat.le_succ_of_le hle
  · show st.queue ++ _ = _
    rw [h.queue, List.append_assoc]
  · intro e he
    rcases List.mem_append.mp he with he | he
    · obtain ⟨hd, a, hlow, hc1, hc2, hc3, hnext, hempty⟩ := h.opened e he
      refine ⟨hd, a, hlow, hc1, hc2, hc3, Nat.lt_succ_of_lt hnext, fun j => ?_⟩
      show (st.put addr k _).heap a j = none
      rw [heap_put, if_neg fun h => by omega]
      exact hempty j
    · rw [List.mem_singleton.mp he]
      refine ⟨hdepth, st.next, hle, h1, h2, rfl, Nat.lt_succ_self _, fun j => ?_⟩
      show (st.put addr k _).heap st.next j = none
      rw [heap_put, if_neg fun h => by omega]
      exact h.fresh st.next (Nat.le_refl _) j
  · rw [List.map_append, List.nodup_append]
    refine ⟨h.apart, List.nodup_singleton _, ?_⟩
    intro c hc c' hc'
    obtain ⟨e, he, rfl⟩ := List.mem_map.mp hc
    obtain ⟨-, a, -, -, -, hc3, hnext, -⟩ := h.opened e he
    rw [List.mem_singleton.mp hc', hc3]
    intro heq
    have haddr : a = st.next := Cell.ref.inj heq
    omega
  · intro a ha hlt
    show (fun j => (st.put addr k _).heap a j) = _
    rw [← h.others a ha hlt]
    funext j
    rw [heap_put, if_neg fun h => ha h.1]
  · intro a ha j
    have hge : st.next + 1 ≤ a := ha
    show (st.put addr k _).heap a j = none
    rw [heap_put, if_neg fun h => by omega]
    exact h.fresh a (by omega) j
  · intro j hj
    rw [Finset.mem_insert, not_or] at hj
    show (st.put addr k _).heap addr j = none
    rw [heap_put, if_neg fun h => hj.1 h.2]
    exact h.left j hj.2
  · intro j hj
    show Placed eqKey _ ((st.put addr k _).heap addr j) _
    rcases Finset.mem_insert.mp hj with rfl | hdone
    · rw [heap_put, if_pos ⟨rfl, rfl⟩]
      exact Or.inr (Or.inr ⟨_, List.mem_append_right new List.mem_cons_self, rfl, ht⟩)
    · have hne : j ≠ k := by
        rintro rfl
        exact hk hdone
      rw [heap_put, if_neg fun h => hne h.2]
      rcases h.placed j hdone with hnone | hleaf | ⟨e, he, hc, hv⟩
      · exact Or.inl hnone
      · exact Or.inr (Or.inl hleaf)
      · exact Or.inr (Or.inr ⟨e, List.mem_append_left _ he, hc, hv⟩)

end

/-! ## The loops of a pass over the keys of two sets -/

section

variable {eqKey : K} {st₀ : St K V} {addr : Nat} {c1 c2 : Doc K V}

/-- A body that handles a key, wherever the pass is. -/
def Handles (eqKey : K) (st₀ : St K V) (addr : Nat) (c1 c2 : Doc K V) (body : St K V → K → St K V)
    (k : K) : Prop :=
  ∀ done st new, Filling eqKey st₀ addr (override eqKey c1 c2) (c1.depth + c2.depth) done st new →
    k ∉ done → ∃ new', Filling eqKey st₀ addr (override eqKey c1 c2) (c1.depth + c2.depth)
      (insert k done) (body st k) new'

/-- The body handles a key that only the first dictionary has. -/
theorem handles_firstOnly (h1 : c1.IsDict) (h2 : c2.IsDict) (haddr : addr < st₀.next) {k : K}
    (hk : k ∈ c1.keys \ c2.keys) : Handles eqKey st₀ addr c1 c2 (firstOnly addr c1) k := by
  intro done st new hfill hnot
  obtain ⟨-, hk2⟩ := Finset.mem_sdiff.mp hk
  have hnone : c2.get k = none := by
    by_contra h
    exact hk2 (Tree.mem_keys.mpr h)
  have hget := get_override eqKey h1 h2 k
  rw [hnone] at hget
  rw [firstOnly]
  rcases hc1 : c1.get k with _ | (x | ⟨keys, vals⟩)
  · rw [hc1] at hget
    exact ⟨new, filling_skip hfill hnot hget⟩
  · rw [hc1] at hget
    exact ⟨new, filling_setdefault haddr hfill hnot hget⟩
  · rw [hc1] at hget
    have hlt := Tree.depth_get_lt hc1
    have hpos := Tree.depth_pos h2
    have hempty : (Tree.empty : Doc K V).depth ≤ 1 := depth_empty
    refine filling_push haddr hfill hnot trivial trivial (by omega) ?_
    rw [hget, override_empty eqKey (show (Tree.dict keys vals : Doc K V).IsDict from trivial)]
    rfl

/-- The body handles a key that only the second dictionary has. -/
theorem handles_secondOnly (h1 : c1.IsDict) (h2 : c2.IsDict) (haddr : addr < st₀.next) {k : K}
    (hk : k ∈ c2.keys \ c1.keys) : Handles eqKey st₀ addr c1 c2 (secondOnly addr c2) k := by
  intro done st new hfill hnot
  obtain ⟨-, hk1⟩ := Finset.mem_sdiff.mp hk
  have hnone : c1.get k = none := by
    by_contra h
    exact hk1 (Tree.mem_keys.mpr h)
  have hget := get_override eqKey h1 h2 k
  rw [hnone] at hget
  rw [secondOnly]
  rcases hc2 : c2.get k with _ | ((_ | y) | ⟨keys, vals⟩)
  · rw [hc2] at hget
    exact ⟨new, filling_skip hfill hnot hget⟩
  · rw [hc2] at hget
    exact ⟨new, filling_skip hfill hnot hget⟩
  · rw [hc2] at hget
    exact ⟨new, filling_setdefault haddr hfill hnot hget⟩
  · rw [hc2] at hget
    have hlt := Tree.depth_get_lt hc2
    have hpos := Tree.depth_pos h1
    have hempty : (Tree.empty : Doc K V).depth ≤ 1 := depth_empty
    exact filling_push haddr hfill hnot trivial trivial (by omega) hget

/-- The body handles a key that both have, and puts an entry in the queue if both values are
    dictionaries. -/
theorem handles_inBoth (h1 : c1.IsDict) (h2 : c2.IsDict) (haddr : addr < st₀.next) {k : K}
    (hk : k ∈ c1.keys ∩ c2.keys) : Handles eqKey st₀ addr c1 c2 (inBoth eqKey addr c1 c2) k := by
  intro done st new hfill hnot
  obtain ⟨hk1, hk2⟩ := Finset.mem_inter.mp hk
  have hget := get_override eqKey h1 h2 k
  have hpos1 := Tree.depth_pos h1
  have hpos2 := Tree.depth_pos h2
  rw [inBoth]
  rcases hc1 : c1.get k with _ | (x | ⟨keys, vals⟩)
  · exact absurd hc1 (Tree.mem_keys.mp hk1)
  · rcases hc2 : c2.get k with _ | ((_ | y) | ⟨keys', vals'⟩)
    · exact absurd hc2 (Tree.mem_keys.mp hk2)
    · rw [hc1, hc2] at hget
      exact ⟨new, filling_skip hfill hnot hget⟩
    · rw [hc1, hc2] at hget
      exact ⟨new, filling_put haddr hfill hnot hget⟩
    · rw [hc1, hc2] at hget
      have hlt := Tree.depth_get_lt hc2
      have hx := depth_promote (V := V) eqKey x
      exact filling_push haddr hfill hnot trivial trivial (by omega) hget
  · have hlt := Tree.depth_get_lt hc1
    rcases hc2 : c2.get k with _ | ((_ | y) | ⟨keys', vals'⟩)
    · exact absurd hc2 (Tree.mem_keys.mp hk2)
    · rw [hc1, hc2] at hget
      exact ⟨new, filling_skip hfill hnot hget⟩
    · rw [hc1, hc2] at hget
      have hy := depth_promote (V := V) eqKey (some y)
      exact filling_push haddr hfill hnot trivial trivial (by omega) hget
    · rw [hc1, hc2] at hget
      have hlt' := Tree.depth_get_lt hc2
      exact filling_push haddr hfill hnot trivial trivial (by omega) hget

/-- **A loop over the keys of a set.** -/
theorem filling_foldl {body : St K V → K → St K V} : ∀ {l : List K} {done : Finset K} {st : St K V}
    {new : List (Entry K V)}, l.Nodup → (∀ k ∈ l, k ∉ done ∧ Handles eqKey st₀ addr c1 c2 body k) →
    Filling eqKey st₀ addr (override eqKey c1 c2) (c1.depth + c2.depth) done st new →
    ∃ new', Filling eqKey st₀ addr (override eqKey c1 c2) (c1.depth + c2.depth)
      (done ∪ l.toFinset) (l.foldl body st) new'
  | [], done, st, new, _, _, hfill => by
      refine ⟨new, ?_⟩
      rw [List.toFinset_nil, Finset.union_empty]
      exact hfill
  | k :: l, done, st, new, hnodup, hall, hfill => by
      obtain ⟨hkl, hnodup⟩ := List.nodup_cons.mp hnodup
      obtain ⟨hnot, hbody⟩ := hall k List.mem_cons_self
      obtain ⟨new₁, hfill₁⟩ := hbody done st new hfill hnot
      obtain ⟨new₂, hfill₂⟩ := filling_foldl hnodup (fun j hj => by
        obtain ⟨hj', hbodyj⟩ := hall j (List.mem_cons_of_mem k hj)
        refine ⟨fun hmem => ?_, hbodyj⟩
        rcases Finset.mem_insert.mp hmem with rfl | hmem
        · exact hkl hj
        · exact hj' hmem) hfill₁
      refine ⟨new₂, ?_⟩
      rw [List.toFinset_cons, Finset.union_insert, ← Finset.insert_union]
      exact hfill₂

/-- **A pass fills its dictionary** with the merge, and queues what is left to fill. -/
theorem filling_pass (eqKey : K) (order : SetOrder K) (st₀ : St K V) (h1 : c1.IsDict) (h2 : c2.IsDict)
    (haddr : addr < st₀.next) (hempty : ∀ k, st₀.heap addr k = none)
    (hfresh : ∀ a, st₀.next ≤ a → ∀ k, st₀.heap a k = none) :
    ∃ new, Filling eqKey st₀ addr (override eqKey c1 c2) (c1.depth + c2.depth)
      (c1.keys ∪ c2.keys) (pass eqKey order addr c1 c2 st₀) new := by
  have hstart : Filling eqKey st₀ addr (override eqKey c1 c2) (c1.depth + c2.depth) ∅
      { st₀ with sets := st₀.sets + 3 } [] :=
    ⟨Nat.le_refl _, (List.append_nil _).symm, fun e he => absurd he List.not_mem_nil, List.nodup_nil,
      fun _ _ _ => rfl, hfresh, fun k _ => hempty k, fun k hk => absurd hk (Finset.notMem_empty k)⟩
  have hset : ∀ n (s : Finset K), (order.list n s).toFinset = s := by
    intro n s
    refine Finset.ext fun k => ?_
    rw [List.mem_toFinset, order.mem]
  obtain ⟨new₁, hfill₁⟩ := filling_foldl (order.nodup st₀.sets (c1.keys \ c2.keys))
    (fun k hk => ⟨Finset.notMem_empty k, handles_firstOnly h1 h2 haddr (order.mem.mp hk)⟩) hstart
  rw [hset, Finset.empty_union] at hfill₁
  obtain ⟨new₂, hfill₂⟩ := filling_foldl (order.nodup (st₀.sets + 1) (c2.keys \ c1.keys))
    (fun k hk => ⟨fun hmem => (Finset.mem_sdiff.mp hmem).2 (Finset.mem_sdiff.mp (order.mem.mp hk)).1,
      handles_secondOnly h1 h2 haddr (order.mem.mp hk)⟩) hfill₁
  rw [hset] at hfill₂
  obtain ⟨new₃, hfill₃⟩ := filling_foldl (order.nodup (st₀.sets + 2) (c1.keys ∩ c2.keys))
    (fun k hk => ⟨fun hmem => by
      obtain ⟨hm1, hm2⟩ := Finset.mem_inter.mp (order.mem.mp hk)
      rcases Finset.mem_union.mp hmem with hmem | hmem
      · exact (Finset.mem_sdiff.mp hmem).2 hm2
      · exact (Finset.mem_sdiff.mp hmem).2 hm1,
      handles_inBoth h1 h2 haddr (order.mem.mp hk)⟩) hfill₂
  rw [hset] at hfill₃
  have hall : c1.keys \ c2.keys ∪ c2.keys \ c1.keys ∪ c1.keys ∩ c2.keys = c1.keys ∪ c2.keys := by
    refine Finset.ext fun k => ?_
    rw [Finset.mem_union, Finset.mem_union, Finset.mem_sdiff, Finset.mem_sdiff, Finset.mem_inter,
      Finset.mem_union]
    tauto
  rw [hall] at hfill₃
  exact ⟨new₃, hfill₃⟩

end

end DentOS.Config
