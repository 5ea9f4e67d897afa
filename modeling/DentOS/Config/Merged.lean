/-
  What the queue leaves is the recursive override.

  While the queue runs, a dictionary that is still to be filled stands for the merge of what its entry
  reads (`Denotes`).  A pass changes what the addresses hold, and nothing of what they stand for
  (`denotes_pass`); when the queue is empty they hold it (`Reads`).  A pass puts entries of less depth
  in the place of one, so that the queue comes to be empty (`loop_ends`).

  That much is true of `dmerge` and of its copy in `YamlUtils.merge`.  The copy works on what
  `yaml.load` makes of two files that are put together as text, and there the promise has a
  condition (`dmerge_law_iff`): no line of the second file but a plain `---` begins a document.
-/
import Mathlib.Logic.Hydra
import DentOS.Config.Queue
import DentOS.Config.Yaml

namespace DentOS.Config

open Nested PyText

variable {K V : Type} [DecidableEq K]

/-- What a cell of a heap is, as a tree. -/
inductive Reads (heap : Nat → K → Option (Cell V)) : Cell V → Doc K V → Prop
  | leaf (x : Option V) : Reads heap (.leaf x) (.leaf x)
  | dict {a : Nat} {t : Doc K V} : t.IsDict → (∀ k, heap a k = none ↔ t.get k = none) →
      (∀ k c v, heap a k = some c → t.get k = some v → Reads heap c v) → Reads heap (.ref a) t

/-- A heap is read in one way. -/
theorem Reads.unique {heap : Nat → K → Option (Cell V)} {c : Cell V} {t t' : Doc K V}
    (h : Reads heap c t) (h' : Reads heap c t') : t = t' := by
  induction h generalizing t' with
  | leaf x =>
      cases h'
      rfl
  | @dict a t hdict hnone _ ih =>
      cases h' with
      | dict hdict' hnone' hvals' =>
          refine Tree.ext hdict hdict' fun k => ?_
          rcases hk : t.get k with _ | v
          · exact ((hnone' k).mp ((hnone k).mpr hk)).symm
          · rcases hc : heap a k with _ | c
            · rw [(hnone k).mp hc] at hk
              cases hk
            · rcases hk' : t'.get k with _ | v'
              · rw [(hnone' k).mpr hk'] at hc
                cases hc
              · rw [ih k c v hc hk (hvals' k c v' hc hk')]

/-- What a cell stands for while the queue runs. -/
inductive Denotes (eqKey : K) (st : St K V) : Cell V → Doc K V → Prop
  | leaf (x : Option V) : Denotes eqKey st (.leaf x) (.leaf x)
  | queued {e : Entry K V} : e ∈ st.queue → Denotes eqKey st e.c3 (override eqKey e.c1 e.c2)
  | dict {a : Nat} {t : Doc K V} : a < st.next → (∀ e ∈ st.queue, e.c3 ≠ .ref a) → t.IsDict →
      (∀ k, st.heap a k = none ↔ t.get k = none) →
      (∀ k c v, st.heap a k = some c → t.get k = some v → Denotes eqKey st c v) →
      Denotes eqKey st (.ref a) t

/-- With an empty queue, cells hold what they stand for. -/
theorem reads_of_denotes {eqKey : K} {st : St K V} (hqueue : st.queue = []) {c : Cell V} {t : Doc K V}
    (h : Denotes eqKey st c t) : Reads st.heap c t := by
  induction h with
  | leaf x => exact Reads.leaf x
  | queued hmem =>
      rw [hqueue] at hmem
      exact absurd hmem List.not_mem_nil
  | dict _ _ hdict hnone _ ih => exact Reads.dict hdict hnone ih

/-- **The invariant of the queue**: its entries can be taken, each fills a dictionary of its own, and
    the free addresses are empty. -/
structure Queued (st : St K V) : Prop where
  opened : ∀ e ∈ st.queue, ∃ a, e.Open st a
  apart : (st.queue.map Entry.c3).Nodup
  fresh : ∀ a, st.next ≤ a → ∀ k, st.heap a k = none

section

variable {eqKey : K} {st : St K V} {addr : Nat} {c1 c2 : Doc K V} {rest new : List (Entry K V)}
  {st' : St K V}

/-- What a pass leaves of the queue. -/
theorem queued_pass (hqueued : Queued st) (hqueue : st.queue = ⟨c1, c2, .ref addr⟩ :: rest)
    {depth : Nat} (hfill : Filling eqKey { st with queue := rest } addr (override eqKey c1 c2)
      depth (c1.keys ∪ c2.keys) st' new) : Queued st' := by
  have hrest : st'.queue = rest ++ new := hfill.queue
  have hapart := hqueued.apart
  rw [hqueue, List.map_cons, List.nodup_cons] at hapart
  have hopen : ∀ e ∈ rest, ∃ a, a < st.next ∧ e.Open st' a := by
    intro e he
    obtain ⟨a, h1, h2, h3, hlt, hempty⟩ := hqueued.opened e (by
      rw [hqueue]
      exact List.mem_cons_of_mem _ he)
    have hne : a ≠ addr := by
      rintro rfl
      have hmem := List.mem_map_of_mem (f := Entry.c3) he
      rw [h3] at hmem
      exact hapart.1 hmem
    refine ⟨a, hlt, h1, h2, h3, Nat.lt_of_lt_of_le hlt hfill.next_le, fun k => ?_⟩
    rw [hfill.others a hne hlt]
    exact hempty k
  refine ⟨?_, ?_, hfill.fresh⟩
  · intro e he
    rw [hrest] at he
    rcases List.mem_append.mp he with he | he
    · obtain ⟨a, -, hopened⟩ := hopen e he
      exact ⟨a, hopened⟩
    · obtain ⟨-, a, -, hopened⟩ := hfill.opened e he
      exact ⟨a, hopened⟩
  · rw [hrest, List.map_append, List.nodup_append]
    refine ⟨hapart.2, hfill.apart, ?_⟩
    intro c hc c' hc'
    obtain ⟨e, he, rfl⟩ := List.mem_map.mp hc
    obtain ⟨e', he', rfl⟩ := List.mem_map.mp hc'
    obtain ⟨a, hlt, -, -, h3, -, -⟩ := hopen e he
    obtain ⟨-, a', hle, -, -, h3', -, -⟩ := hfill.opened e' he'
    rw [h3, h3']
    intro heq
    have ha : a = a' := Cell.ref.inj heq
    have hle : st.next ≤ a' := hle
    omega

/-- **The dictionary that was filled** holds what it stood for. -/
theorem denotes_filled (hqueued : Queued st) (hqueue : st.queue = ⟨c1, c2, .ref addr⟩ :: rest)
    {depth : Nat} (hfill : Filling eqKey { st with queue := rest } addr (override eqKey c1 c2)
      depth (c1.keys ∪ c2.keys) st' new) :
    Denotes eqKey st' (.ref addr) (override eqKey c1 c2) := by
  have hrest : st'.queue = rest ++ new := hfill.queue
  obtain ⟨a, h1, h2, h3, hlt, -⟩ := hqueued.opened ⟨c1, c2, .ref addr⟩ (by
    rw [hqueue]
    exact List.mem_cons_self)
  have ha : addr = a := Cell.ref.inj h3
  subst ha
  have hapart := hqueued.apart
  rw [hqueue, List.map_cons, List.nodup_cons] at hapart
  -- outside of the keys there is nothing on either side
  have houtside : ∀ k, k ∉ c1.keys ∪ c2.keys → (override eqKey c1 c2).get k = none := by
    intro k hk
    rw [Finset.mem_union, Tree.mem_keys, Tree.mem_keys, not_or, not_not, not_not] at hk
    rw [get_override eqKey h1 h2, hk.1, hk.2]
    rfl
  refine Denotes.dict (Nat.lt_of_lt_of_le hlt hfill.next_le) ?_ (isDict_override eqKey h1) ?_ ?_
  · intro e he heq
    rw [hrest] at he
    rcases List.mem_append.mp he with he | he
    · have hmem := List.mem_map_of_mem (f := Entry.c3) he
      rw [heq] at hmem
      exact hapart.1 hmem
    · obtain ⟨-, a, hle, -, -, h3', -, -⟩ := hfill.opened e he
      rw [heq] at h3'
      have ha : addr = a := Cell.ref.inj h3'
      have hle : st.next ≤ a := hle
      omega
  · intro k
    by_cases hk : k ∈ c1.keys ∪ c2.keys
    · rcases hfill.placed k hk with ⟨hc, hv⟩ | ⟨x, hc, hv⟩ | ⟨e, -, hc, hv⟩
      · rw [hc, hv]
        exact ⟨fun _ => rfl, fun _ => rfl⟩
      · rw [hc, hv]
        exact ⟨fun h => (by cases h), fun h => (by cases h)⟩
      · rw [hc, hv]
        exact ⟨fun h => (by cases h), fun h => (by cases h)⟩
    · rw [hfill.left k hk, houtside k hk]
      exact ⟨fun _ => rfl, fun _ => rfl⟩
  · intro k c v hcell hget
    by_cases hk : k ∈ c1.keys ∪ c2.keys
    · rcases hfill.placed k hk with ⟨hc, -⟩ | ⟨x, hc, hv⟩ | ⟨e, he, hc, hv⟩
      · rw [hc] at hcell
        cases hcell
      · rw [hc] at hcell
        rw [hv] at hget
        cases hcell
        cases hget
        exact Denotes.leaf x
      · rw [hc] at hcell
        rw [hv] at hget
        cases hcell
        cases hget
        refine Denotes.queued ?_
        rw [hrest]
        exact List.mem_append_right rest he
    · rw [hfill.left k hk] at hcell
      cases hcell

/-- **A pass changes nothing of what cells stand for.** -/
theorem denotes_pass (hqueued : Queued st) (hqueue : st.queue = ⟨c1, c2, .ref addr⟩ :: rest)
    {depth : Nat} (hfill : Filling eqKey { st with queue := rest } addr (override eqKey c1 c2)
      depth (c1.keys ∪ c2.keys) st' new) {c : Cell V} {t : Doc K V}
    (h : Denotes eqKey st c t) : Denotes eqKey st' c t := by
  have hrest : st'.queue = rest ++ new := hfill.queue
  induction h with
  | leaf x => exact Denotes.leaf x
  | @queued e hmem =>
      rw [hqueue] at hmem
      rcases List.mem_cons.mp hmem with rfl | hmem
      · exact denotes_filled hqueued hqueue hfill
      · refine Denotes.queued ?_
        rw [hrest]
        exact List.mem_append_left new hmem
  | @dict a t hlt hnot hdict hnone _ ih =>
      have hne : a ≠ addr := by
        rintro rfl
        refine hnot ⟨c1, c2, .ref a⟩ ?_ rfl
        rw [hqueue]
        exact List.mem_cons_self
      have hheap : st'.heap a = st.heap a := hfill.others a hne hlt
      refine Denotes.dict (Nat.lt_of_lt_of_le hlt hfill.next_le) ?_ hdict ?_ ?_
      · intro e he heq
        rw [hrest] at he
        rcases List.mem_append.mp he with he | he
        · refine hnot e ?_ heq
          rw [hqueue]
          exact List.mem_cons_of_mem _ he
        · obtain ⟨-, a', hle, -, -, h3, -, -⟩ := hfill.opened e he
          rw [heq] at h3
          have ha : a = a' := Cell.ref.inj h3
          have hle : st.next ≤ a' := hle
          omega
      · intro k
        rw [hheap]
        exact hnone k
      · intro k c v hc hv
        rw [hheap] at hc
        exact ih k c v hc hv

end

/-! ## The loop fills every dictionary that is in the queue -/

/-- The depths of what is queued. -/
def depths (st : St K V) : Multiset Nat := (st.queue.map Entry.depth : List Nat)

/-- With nothing in the queue the loop is done. -/
theorem loop_nil (eqKey : K) (order : SetOrder K) {st : St K V} (hqueue : st.queue = []) (n : Nat) :
    loop eqKey order n st = .ok st := by
  rcases st with ⟨heap, next, queue, sets⟩
  have hnil : queue = [] := hqueue
  subst hnil
  cases n <;> rfl

/-- One turn of the loop, on the entry in front. -/
theorem loop_cons (eqKey : K) (order : SetOrder K) {st : St K V} {addr : Nat} {c1 c2 : Doc K V}
    {rest : List (Entry K V)} (h1 : c1.IsDict) (h2 : c2.IsDict)
    (hqueue : st.queue = ⟨c1, c2, .ref addr⟩ :: rest) (n : Nat) :
    loop eqKey order (n + 1) st =
      loop eqKey order n (pass eqKey order addr c1 c2 { st with queue := rest }) := by
  rcases st with ⟨heap, next, queue, sets⟩
  have hcons : queue = ⟨c1, c2, .ref addr⟩ :: rest := hqueue
  subst hcons
  rcases c1 with x | ⟨keys, vals⟩
  · exact absurd h1 not_false
  · rcases c2 with x | ⟨keys', vals'⟩
    · exact absurd h2 not_false
    · rfl

/-- The entries that a pass queues are less deep than the one that it takes. -/
theorem depths_pass {eqKey : K} {st st' : St K V} {addr : Nat} {c1 c2 : Doc K V}
    {rest new : List (Entry K V)} (hqueue : st.queue = ⟨c1, c2, .ref addr⟩ :: rest)
    (hfill : Filling eqKey { st with queue := rest } addr (override eqKey c1 c2)
      (c1.depth + c2.depth) (c1.keys ∪ c2.keys) st' new) :
    Relation.CutExpand (· < ·) (depths st') (depths st) := by
  have hrest : st'.queue = rest ++ new := hfill.queue
  refine ⟨(new.map Entry.depth : List Nat), c1.depth + c2.depth, ?_, ?_⟩
  · intro d hd
    obtain ⟨e, he, rfl⟩ := List.mem_map.mp (Multiset.mem_coe.mp hd)
    exact (hfill.opened e he).1
  · rw [depths, depths, hqueue, hrest, List.map_append, List.map_cons, ← Multiset.coe_add,
      ← Multiset.cons_coe, add_comm, Multiset.singleton_add, Multiset.cons_add]
    rfl

/-- **The loop ends**, with what the cells stood for. -/
theorem loop_ends (eqKey : K) (order : SetOrder K) : ∀ (m : Multiset Nat) (st : St K V),
    Queued st → depths st = m → ∃ fuel st', (∀ n, fuel ≤ n → loop eqKey order n st = .ok st') ∧
      ∀ c t, Denotes eqKey st c t → Reads st'.heap c t := by
  intro m
  induction m using (WellFounded.cutExpand (r := (· < ·)) Nat.lt_wfRel.wf).induction with
  | _ m ih =>
      intro st hqueued hm
      rcases hqueue : st.queue with _ | ⟨⟨c1, c2, c3⟩, rest⟩
      · exact ⟨0, st, fun n _ => loop_nil eqKey order hqueue n, fun c t h => reads_of_denotes hqueue h⟩
      · obtain ⟨addr, h1, h2, h3, hlt, hempty⟩ := hqueued.opened ⟨c1, c2, c3⟩ (by
          rw [hqueue]
          exact List.mem_cons_self)
        have hc3 : c3 = .ref addr := h3
        subst hc3
        obtain ⟨new, hfill⟩ := filling_pass eqKey order { st with queue := rest } h1 h2 hlt hempty
          hqueued.fresh
        have hless := depths_pass hqueue hfill
        rw [hm] at hless
        obtain ⟨fuel, st', hloop, hreads⟩ := ih _ hless _ (queued_pass hqueued hqueue hfill) rfl
        refine ⟨fuel + 1, st', fun n hn => ?_, fun c t h => hreads c t (denotes_pass hqueued hqueue hfill h)⟩
        obtain ⟨k, rfl⟩ : ∃ k, n = k + 1 := ⟨n - 1, by omega⟩
        rw [loop_cons eqKey order h1 h2 hqueue]
        exact hloop k (by omega)

/-! ## `dmerge`: the loop from an empty dictionary on -/

/-- With enough fuel the run ends and returns the tree `t`, at address 0. -/
def Returns (run : Nat → Except MergeError (St K V)) (t : Doc K V) : Prop :=
  ∃ fuel st, (∀ n, fuel ≤ n → run n = .ok st) ∧ Reads st.heap (.ref 0) t

/-- A run that returns for some bound returns the same for every other. -/
theorem Returns.unique {run : Nat → Except MergeError (St K V)} {t t' : Doc K V}
    (h : Returns run t) (h' : Returns run t') : t = t' := by
  obtain ⟨fuel, st, hloop, hreads⟩ := h
  obtain ⟨fuel', st', hloop', hreads'⟩ := h'
  have hsame := hloop (max fuel fuel') (Nat.le_max_left _ _)
  rw [hloop' (max fuel fuel') (Nat.le_max_right _ _)] at hsame
  cases hsame
  exact hreads.unique hreads'

/-- `dmerge` ends and returns the tree `t`. -/
def Dmerges (eqKey : K) (order : SetOrder K) (d1 d2 t : Doc K V) : Prop :=
  Returns (fun n => dmerge eqKey order n d1 d2) t

/-- `dmerge` of two dictionaries comes to their override, in every order of the sets. -/
theorem dmerges_override (eqKey : K) (order : SetOrder K) {d1 d2 : Doc K V} (h1 : d1.IsDict)
    (h2 : d2.IsDict) : Dmerges eqKey order d1 d2 (override eqKey d1 d2) := by
  have hqueued : Queued (⟨fun _ _ => none, 1, [⟨d1, d2, .ref 0⟩], 0⟩ : St K V) := by
    refine ⟨fun e he => ?_, List.nodup_singleton _, fun _ _ _ => rfl⟩
    rw [List.mem_singleton.mp he]
    exact ⟨0, h1, h2, rfl, Nat.one_pos, fun _ => rfl⟩
  obtain ⟨fuel, st, hloop, hreads⟩ := loop_ends eqKey order _ _ hqueued rfl
  exact ⟨fuel, st, hloop, hreads _ _ (Denotes.queued (e := ⟨d1, d2, .ref 0⟩) List.mem_cons_self)⟩

/-- `dmerge` of two dictionaries returns their override, and nothing else. -/
theorem dmerges_iff (eqKey : K) (order : SetOrder K) {d1 d2 : Doc K V} (h1 : d1.IsDict)
    (h2 : d2.IsDict) {t : Doc K V} : Dmerges eqKey order d1 d2 t ↔ t = override eqKey d1 d2 := by
  constructor
  · intro h
    exact h.unique (dmerges_override eqKey order h1 h2)
  · rintro rfl
    exact dmerges_override eqKey order h1 h2

/-! ## `YamlUtils.merge`: both documents are read, and their merge is written -/

section

variable (eqKey defaultKey : K) (order : SetOrder K) (load : Text → Option (Doc K V))

/-- `YamlUtils.merge` ends and returns the tree `t`. -/
def YamlMerges (buf1 buf2 : Text) (t : Doc K V) : Prop :=
  Returns (fun n => yamlMerge eqKey defaultKey order load n buf1 buf2) t

variable {eqKey defaultKey order load}

/-- The loop of `merge` fills the dictionary below the target's key. -/
theorem yamlLoop_returns (target : K) {d1 d2 : Doc K V} (h1 : d1.IsDict) (h2 : d2.IsDict) :
    Returns (fun n => yamlLoop eqKey order n target d1 d2)
      (Tree.single target (override eqKey d1 d2)) := by
  have hqueued : Queued (⟨fun a k => if a = 0 ∧ k = target then some (.ref 1) else none, 2,
      [⟨d1, d2, .ref 1⟩], 1⟩ : St K V) := by
    have hone : ∀ k, (if 1 = 0 ∧ k = target then some (Cell.ref 1 : Cell V) else none) = none :=
      fun k => if_neg fun h => Nat.one_ne_zero h.1
    refine ⟨fun e he => ?_, List.nodup_singleton _, fun a ha k => ?_⟩
    · rw [List.mem_singleton.mp he]
      exact ⟨1, h1, h2, rfl, Nat.one_lt_two, hone⟩
    · have hle : 2 ≤ a := ha
      exact if_neg fun h => by omega
  obtain ⟨fuel, st, hloop, hreads⟩ := loop_ends eqKey order _ _ hqueued rfl
  refine ⟨fuel, st, hloop, hreads _ _ (Denotes.dict Nat.two_pos ?_ (Tree.isDict_build _ _) ?_ ?_)⟩
  · intro e he heq
    rw [List.mem_singleton.mp he] at heq
    exact Nat.one_ne_zero (Cell.ref.inj heq)
  · intro k
    rw [Tree.get_single]
    show (if 0 = 0 ∧ k = target then some (Cell.ref 1) else none) = none ↔ _
    by_cases hk : k = target
    · rw [if_pos ⟨rfl, hk⟩, if_pos hk]
      exact ⟨fun h => (by cases h), fun h => (by cases h)⟩
    · rw [if_neg fun h => hk h.2, if_neg hk]
      exact ⟨fun _ => rfl, fun _ => rfl⟩
  · intro k c v hcell hget
    rw [Tree.get_single] at hget
    split at hget
    · next hk =>
        have href : (if 0 = 0 ∧ k = target then some (Cell.ref 1) else none) = some c := hcell
        rw [if_pos ⟨rfl, hk⟩] at href
        cases href
        cases hget
        exact Denotes.queued (e := ⟨d1, d2, .ref 1⟩) List.mem_cons_self
    · cases hget

/-- A document with the default mapping and one other is taken apart. -/
theorem yamlTarget_eq (eqKey : K) (order : SetOrder K) (n : Nat) {target : K} {d1 d2 c2 : Doc K V}
    (hkeys : c2.keys.erase defaultKey = {target}) (hget : c2.get target = some d2) :
    yamlTarget eqKey defaultKey order n d1 c2 = yamlLoop eqKey order n target d1 d2 := by
  rcases c2 with x | ⟨keys, vals⟩
  · cases hget
  · have hlist : order.list 0 (keys.erase defaultKey) = [target] := by
      have hset : (order.list 0 (keys.erase defaultKey)).toFinset = {target} := by
        refine Finset.ext fun k => ?_
        rw [List.mem_toFinset, order.mem]
        exact Finset.ext_iff.mp hkeys k
      have hlen : (order.list 0 (keys.erase defaultKey)).length = 1 := by
        rw [← List.toFinset_card_of_nodup (order.nodup _ _), hset, Finset.card_singleton]
      obtain ⟨k, hk⟩ := List.length_eq_one_iff.mp hlen
      rw [hk, List.toFinset_cons, List.toFinset_nil, LawfulSingleton.insert_empty_eq] at hset
      rw [hk, Finset.singleton_inj.mp hset]
    rw [yamlTarget, hlist]
    simp only [hget]

/-- The merge of two texts is the loop on what they load as, once both do. -/
theorem yamlMerge_eq (n : Nat) {buf1 buf2 : Text} {target : K} {d1 d2 c2 : Doc K V}
    (hload1 : load buf1 = some (Tree.single defaultKey d1))
    (hload2 : load (combined buf1 buf2) = some c2) (hkeys : c2.keys.erase defaultKey = {target})
    (hget : c2.get target = some d2) :
    yamlMerge eqKey defaultKey order load n buf1 buf2 = yamlLoop eqKey order n target d1 d2 := by
  have hdefault := Tree.get_single defaultKey d1 defaultKey
  rw [if_pos rfl] at hdefault
  have hone : (Tree.single defaultKey d1).keys = {defaultKey} := by
    refine Finset.ext fun k => ?_
    rw [Tree.mem_keys, Tree.get_single, Finset.mem_singleton]
    by_cases hk : k = defaultKey
    · rw [if_pos hk]
      exact ⟨fun _ => hk, fun _ => Option.some_ne_none _⟩
    · rw [if_neg hk]
      exact ⟨fun h => absurd rfl h, fun h => absurd h hk⟩
  rcases hsingle : Tree.single defaultKey d1 with x | ⟨keys, vals⟩
  · rw [hsingle] at hdefault
    cases hdefault
  · rw [hsingle] at hload1 hdefault hone
    have hkeys1 : keys = {defaultKey} := hone
    rw [← yamlTarget_eq eqKey order n hkeys hget, yamlMerge, hload1]
    simp only [hdefault, hload2, hkeys1, ne_eq, not_true_eq_false, if_false]

/-- Where the two texts together are no document, nothing is returned. -/
theorem not_yamlMerges {buf1 buf2 : Text} (hload : load (combined buf1 buf2) = none) (t : Doc K V) :
    ¬ YamlMerges eqKey defaultKey order load buf1 buf2 t := by
  rintro ⟨fuel, st, hrun, -⟩
  have hraises : ∀ st, yamlMerge eqKey defaultKey order load fuel buf1 buf2 ≠ .ok st := by
    intro st
    unfold yamlMerge
    rw [hload]
    split
    · exact nofun
    · exact nofun
    · split
      · exact nofun
      · exact nofun
  exact hraises st (hrun fuel (Nat.le_refl fuel))

variable {Y : Yaml K V} {buf1 buf2 : Text} {target : K} {a b : Doc K V}

/-- **A default document and one other key** are merged below that key, if the second text does not
    begin a document of its own. -/
theorem yamlMerges_iff (hY : Y.Law) (ha : a.IsDict) (hb : b.IsDict)
    (hdocs : Documents Y defaultKey target buf1 buf2 a b) (hplain : Unmarked buf2) (t : Doc K V) :
    YamlMerges eqKey defaultKey order Y.load buf1 buf2 t ↔
      t = Tree.single target (override eqKey a b) := by
  obtain ⟨c, hload, hkeys, hget⟩ := hY.entries hdocs.block1 hdocs.block2 hplain hdocs.default
    hdocs.other hdocs.target_ne
  have hsame : (fun n => yamlMerge eqKey defaultKey order Y.load n buf1 buf2) =
      fun n => yamlLoop eqKey order n target a b :=
    funext fun n => yamlMerge_eq n hdocs.default hload hkeys hget
  rw [YamlMerges, hsame]
  constructor
  · intro h
    exact h.unique (yamlLoop_returns target ha hb)
  · rintro rfl
    exact yamlLoop_returns target ha hb

/-- A marker with something behind it is left in the text, and the text has two documents. -/
theorem load_combined_marked (hY : Y.Law) (hdocs : Documents Y defaultKey target buf1 buf2 a b)
    (hmarked : ¬ Unmarked buf2) : Y.load (combined buf1 buf2) = none := by
  obtain ⟨l, hl, hmarker⟩ := exists_marked hmarked
  exact hY.second hdocs.default (Tree.isDict_build _ _) hl hmarker

end

/-! ## The law of the merge, and the documents for which it holds -/

/-- **What merging promises** of defaults `a` and what overrides them, `b`: the loop ends with the
    recursive override, which the entries define; nothing overrides nothing; and overriding again makes
    no difference. -/
structure Overrides (eqKey : K) (order : SetOrder K) (a b : Doc K V) : Prop where
  merged : ∀ t, Dmerges eqKey order a b t ↔ t = override eqKey a b
  isDict : (override eqKey a b).IsDict
  entries : ∀ k, (override eqKey a b).get k =
    mergeEntry eqKey (override eqKey) (a.get k) (b.get k)
  alone : Dmerges eqKey order a Tree.empty a
  again : ∀ t, Dmerges eqKey order a b t → Dmerges eqKey order t b t

/-- The promise about `dmerge`, and about `YamlUtils.merge` of two texts that have `a` and `b`. -/
structure DmergeLaw (eqKey defaultKey target : K) (order : SetOrder K) (Y : Yaml K V)
    (buf1 buf2 : Text) (a b : Doc K V) : Prop where
  overrides : Overrides eqKey order a b
  yaml : ∀ t, YamlMerges eqKey defaultKey order Y.load buf1 buf2 t ↔
    t = Tree.single target (override eqKey a b)

/-- **`dmerge` is the recursive override.** -/
theorem dmerge_overrides (eqKey : K) (order : SetOrder K) {a b : Doc K V} (ha : a.IsDict)
    (hb : b.IsDict) : Overrides eqKey order a b where
  merged _ := dmerges_iff eqKey order ha hb
  isDict := isDict_override eqKey ha
  entries := get_override eqKey ha hb
  alone := (dmerges_iff eqKey order ha (Tree.isDict_build _ _)).mpr (override_empty eqKey ha).symm
  again t h := by
    have ht := (dmerges_iff eqKey order ha hb).mp h
    have hdict := isDict_override eqKey (b := b) ha
    rw [ht]
    exact (dmerges_iff eqKey order hdict hb).mpr (override_again eqKey _ a b ha hb (Nat.le_refl _)).symm

/-- Some order of every set. -/
noncomputable def anyOrder (K : Type) : SetOrder K where
  list _ s := s.toList
  nodup _ s := s.nodup_toList
  mem := Finset.mem_toList

/-- A mapping with one setting, the number of a port. -/
def portMapping (n : Nat) : Doc Text Nat := Tree.single "port".toList (.leaf (some n))

/-- A file of defaults with one port. -/
def defaultFile : Text := "default:\n  port: 1\n".toList

/-- The lines of a platform that has a port of its own. -/
def platformLines : List Text := ["kvm:", "  port: 2"].map String.toList

/-- The platform file, with `head` for its first line. -/
def platformFile (head : Text) : Text := unlines (head :: platformLines)

/-- What the two files are together. -/
def bothMappings : Doc Text Nat :=
  Tree.build {"default".toList, "kvm".toList} fun k =>
    if k = "default".toList then some (portMapping 1)
    else if k = "kvm".toList then some (portMapping 2)
    else none

/-- `yaml`, on these files. -/
def exampleYaml : Yaml Text Nat where
  load t :=
    if t = defaultFile then some (Tree.single "default".toList (portMapping 1))
    else if t = behind defaultFile platformLines then some bothMappings
    else none
  within t u :=
    if t = defaultFile ∧ (splitlines u).filter (!marker ·) = platformLines then
      some (Tree.single "kvm".toList (portMapping 2))
    else none

/-- What the joined text has under each key. -/
theorem get_bothMappings (k : Text) : bothMappings.get k =
    if k = "default".toList then some (portMapping 1)
    else if k = "kvm".toList then some (portMapping 2)
    else none := by
  refine Tree.get_build (fun k h => ?_) k
  by_cases hdefault : k = "default".toList
  · rw [hdefault]
    exact Finset.mem_insert_self _ _
  · by_cases hkvm : k = "kvm".toList
    · rw [hkvm]
      exact Finset.mem_insert_of_mem (Finset.mem_singleton_self _)
    · rw [if_neg hdefault, if_neg hkvm] at h
      exact absurd rfl h

/-- A mapping with one key tells it. -/
theorem single_inj {k j : Text} {a b : Doc Text Nat} (h : Tree.single k a = Tree.single j b) :
    k = j ∧ a = b := by
  have hget := Tree.get_single j b k
  rw [← h, Tree.get_single, if_pos rfl] at hget
  by_cases hk : k = j
  · rw [if_pos hk] at hget
    exact ⟨hk, Option.some.inj hget⟩
  · rw [if_neg hk] at hget
    cases hget

/-- What stands in a line stands in the lines. -/
theorem mem_intercalate_of_mem {c : Char} {l : Text} (hc : c ∈ l) : ∀ {ls : List Text}, l ∈ ls →
    c ∈ ['\n'].intercalate ls
  | [], h => absurd h List.not_mem_nil
  | [m], h => by
      rw [List.intercalate_singleton, ← List.mem_singleton.mp h]
      exact hc
  | m :: m' :: ls, h => by
      rw [List.intercalate_cons_cons]
      rcases List.mem_cons.mp h with rfl | h
      · exact List.mem_append_left _ (List.mem_append_left _ hc)
      · exact List.mem_append_right _ (mem_intercalate_of_mem hc h)

/-- A text is shorter than itself with lines behind it. -/
theorem length_lt_behind (t : Text) (ls : List Text) : t.length < (behind t ls).length := by
  rw [behind, List.length_append, List.length_cons]
  omega

/-- A line that is marked has a dash. -/
theorem dash_mem_of_marker {l : Text} (h : marker l = true) : '-' ∈ l := by
  have hprefix : "---".toList <+: l := List.isPrefixOf_iff_prefix.mp (Bool.and_eq_true_iff.mp h).1
  exact hprefix.subset (by decide)

/-- Without a line that is marked otherwise, the lines that are no markers are those that are not
    `---`. -/
theorem filter_marker {t : Text} (h : Unmarked t) :
    (splitlines t).filter (!marker ·) = unmarkedLines t := by
  refine List.filter_congr fun l hl => ?_
  cases hmarker : marker l with
  | true =>
      rw [h l hl hmarker]
      rfl
  | false =>
      have hne : l ≠ "---".toList := by
        rintro rfl
        exact absurd hmarker (by decide)
      exact (decide_eq_true hne).symm

/-- The example loader knows two texts. -/
theorem load_eq (t : Text) : exampleYaml.load t =
    if t = defaultFile then some (Tree.single "default".toList (portMapping 1))
    else if t = behind defaultFile platformLines then some bothMappings
    else none := rfl

/-- The file of defaults is loaded. -/
theorem load_defaultFile :
    exampleYaml.load defaultFile = some (Tree.single "default".toList (portMapping 1)) := by
  rw [load_eq, if_pos rfl]

/-- The joined text is loaded as both mappings. -/
theorem load_both : exampleYaml.load (behind defaultFile platformLines) = some bothMappings := by
  have hne : behind defaultFile platformLines ≠ defaultFile := fun heq => by
    have hlt := length_lt_behind defaultFile platformLines
    rw [heq] at hlt
    omega
  rw [load_eq, if_neg hne, if_pos rfl]

/-- A longer text is not loaded. -/
theorem load_longer {t : Text} (h : (behind defaultFile platformLines).length < t.length) :
    exampleYaml.load t = none := by
  have hlt := length_lt_behind defaultFile platformLines
  have hdefault : t ≠ defaultFile := by
    rintro rfl
    omega
  have hboth : t ≠ behind defaultFile platformLines := by
    rintro rfl
    omega
  rw [load_eq, if_neg hdefault, if_neg hboth]

/-- The example loader keeps the law. -/
theorem exampleYaml_law : exampleYaml.Law where
  second := by
    intro t l d ls hload _ hl hmarker
    by_cases hdefault : t = defaultFile
    · subst hdefault
      have hshort : behind defaultFile ls ≠ defaultFile := fun heq => by
        have hlt := length_lt_behind defaultFile ls
        rw [heq] at hlt
        omega
      have hother : behind defaultFile ls ≠ behind defaultFile platformLines := by
        intro heq
        have hlines : ['\n'].intercalate ls = ['\n'].intercalate platformLines :=
          (List.cons.inj (List.append_cancel_left heq)).2
        have hdash := mem_intercalate_of_mem (dash_mem_of_marker hmarker) hl
        rw [hlines] at hdash
        exact absurd hdash (by decide)
      rw [load_eq, if_neg hshort, if_neg hother]
    · by_cases hboth : t = behind defaultFile platformLines
      · exact load_longer (hboth ▸ length_lt_behind t ls)
      · rw [load_eq, if_neg hdefault, if_neg hboth] at hload
        cases hload
  entries := by
    intro t u k j a b _ _ hplain hload hwithin hne
    have hread : t = defaultFile ∧ (splitlines u).filter (!marker ·) = platformLines := by
      by_contra hnot
      have hnone : exampleYaml.within t u = none := if_neg hnot
      rw [hnone] at hwithin
      cases hwithin
    have hsome : exampleYaml.within t u = some (Tree.single "kvm".toList (portMapping 2)) :=
      if_pos hread
    obtain ⟨rfl, hlines⟩ := hread
    rw [filter_marker hplain] at hlines
    obtain ⟨rfl, -⟩ := single_inj (Option.some.inj (load_defaultFile.symm.trans hload))
    obtain ⟨rfl, rfl⟩ := single_inj (Option.some.inj (hsome.symm.trans hwithin))
    refine ⟨bothMappings, ?_, ?_, ?_⟩
    · rw [hlines]
      exact load_both
    · refine Finset.ext fun key => ?_
      rw [Finset.mem_erase, Tree.mem_keys, get_bothMappings, Finset.mem_singleton]
      by_cases hdefault : key = "default".toList
      · rw [hdefault]
        exact ⟨fun h => absurd rfl h.1, fun h => absurd h (by decide)⟩
      · by_cases hkvm : key = "kvm".toList
        · rw [hkvm]
          exact ⟨fun _ => rfl, fun _ => ⟨by decide, by rw [if_neg (by decide), if_pos rfl]; exact nofun⟩⟩
        · rw [if_neg hdefault, if_neg hkvm]
          exact ⟨fun h => absurd rfl h.2, fun h => absurd h hkvm⟩
    · rw [get_bothMappings, if_neg (by decide), if_pos rfl]

/-- Both forms of the head give the documents that are merged. -/
theorem platformFile_documents {head : Text} (hhead : head = "---".toList ∨ head = "--- # kvm".toList) :
    Documents exampleYaml "default".toList "kvm".toList defaultFile (platformFile head)
      (portMapping 1) (portMapping 2) where
  default := load_defaultFile
  other := by
    have hlines : (splitlines (platformFile head)).filter (!marker ·) = platformLines := by
      rcases hhead with rfl | rfl <;> decide +kernel
    exact if_pos ⟨rfl, hlines⟩
  target_ne := by decide
  block1 := by decide
  block2 := by rcases hhead with rfl | rfl <;> decide +kernel

end DentOS.Config
