/-
  Dictionaries, as what they hold under each key.

  `collect` is a dictionary that a loop fills, one assignment an element: the last element with a key
  wins (`collect_eq`), and where no two elements with a key have different values all of them do
  (`collect_of_agree`).  `Items` says what an iteration over a dictionary visits; the order is any.
-/
import Mathlib.Data.List.Induction
import Mathlib.Data.List.Nodup

/-- A dictionary. -/
abbrev Dict (K V : Type) := K → Option V

namespace Dict

variable {K V α : Type}

/-- `{}`. -/
def empty : Dict K V := fun _ => none

/-- `d.update(e)`. -/
def update (d e : Dict K V) : Dict K V := fun k => (e k).or (d k)

/-- An iteration visits every entry once. -/
structure Items (d : Dict K V) (items : List (K × V)) : Prop where
  nodup : (items.map Prod.fst).Nodup
  mem : ∀ k v, (k, v) ∈ items ↔ d k = some v

/-- Another order of the same items is an order too. -/
theorem Items.perm {d : Dict K V} {items items' : List (K × V)} (h : d.Items items)
    (hperm : items'.Perm items) : d.Items items' :=
  ⟨(hperm.map Prod.fst).nodup_iff.mpr h.nodup, fun k v => hperm.mem_iff.trans (h.mem k v)⟩

/-- The empty dictionary has no items. -/
theorem items_empty : (empty : Dict K V).Items [] :=
  ⟨List.nodup_nil, fun _ _ => ⟨fun h => absurd h List.not_mem_nil, fun h => nomatch h⟩⟩

/-! ## Dictionaries that a loop fills -/

variable [DecidableEq K]

/-- `d[k] = v`. -/
def set (d : Dict K V) (k : K) (v : V) : Dict K V := fun x => if x = k then some v else d x

/-- A key that was set has its value. -/
theorem set_self (d : Dict K V) (k : K) (v : V) : d.set k v k = some v := if_pos rfl

/-- Every other key is as it was. -/
theorem set_of_ne (d : Dict K V) {k x : K} (h : x ≠ k) (v : V) : d.set k v x = d x := if_neg h

/-- A loop with one assignment `d[key x] = val x`. -/
def collect (key : α → K) (val : α → V) (xs : List α) : Dict K V :=
  xs.foldl (fun d x => d.set (key x) (val x)) empty

variable {key : α → K} {val : α → V} {xs : List α} {k : K} {v : V}

/-- What is collected last is set last. -/
theorem collect_append (xs : List α) (x : α) :
    collect key val (xs ++ [x]) = (collect key val xs).set (key x) (val x) := by
  rw [collect, List.foldl_append]
  rfl

/-- **The last element with the key** is the one that counts. -/
theorem collect_eq (key : α → K) (val : α → V) (xs : List α) (k : K) :
    collect key val xs k = (xs.reverse.find? fun x => key x = k).map val := by
  induction xs using List.reverseRecOn with
  | nil => rfl
  | append_singleton xs x ih =>
      rw [collect_append, List.reverse_append, List.reverse_singleton, List.singleton_append,
        List.find?_cons]
      by_cases h : key x = k
      · rw [set, if_pos h.symm, decide_eq_true h]
        rfl
      · rw [set, if_neg fun heq => h heq.symm, decide_eq_false h, ih]

/-- A value that was collected comes from an element. -/
theorem mem_of_collect (h : collect key val xs k = some v) : ∃ x ∈ xs, key x = k ∧ val x = v := by
  rw [collect_eq] at h
  obtain ⟨x, hx, hv⟩ := Option.map_eq_some_iff.mp h
  have hkey := List.find?_some hx
  exact ⟨x, List.mem_reverse.mp (List.mem_of_find?_eq_some hx), of_decide_eq_true hkey, hv⟩

/-- Every element's key has a value. -/
theorem collect_of_mem {x : α} (hx : x ∈ xs) : ∃ v, collect key val xs (key x) = some v := by
  cases h : collect key val xs (key x) with
  | some v => exact ⟨v, rfl⟩
  | none =>
      rw [collect_eq, Option.map_eq_none_iff, List.find?_eq_none] at h
      exact absurd (decide_eq_true rfl) (h x (List.mem_reverse.mpr hx))

/-- Elements that agree do not hide each other. -/
theorem collect_of_agree {x : α} (hx : x ∈ xs) (h : ∀ y ∈ xs, key y = key x → val y = val x) :
    collect key val xs (key x) = some (val x) := by
  obtain ⟨v, hv⟩ : ∃ v, collect key val xs (key x) = some v := collect_of_mem hx
  obtain ⟨y, hy, hkey, rfl⟩ := mem_of_collect hv
  rw [hv, h y hy hkey]

/-- An order behind a `set`: the new item, and the others without its key. -/
theorem items_set {d : Dict K V} {items : List (K × V)} (h : d.Items items) (k : K) (v : V) :
    (d.set k v).Items ((k, v) :: items.filter fun x => x.1 ≠ k) := by
  constructor
  · rw [List.map_cons, List.nodup_cons]
    constructor
    · intro hmem
      obtain ⟨x, hx, hkey⟩ := List.mem_map.mp hmem
      exact of_decide_eq_true (List.mem_filter.mp hx).2 hkey
    · exact h.nodup.sublist (List.filter_sublist.map Prod.fst)
  · intro k' v'
    rw [set, List.mem_cons, List.mem_filter]
    split
    · next heq =>
        subst heq
        constructor
        · rintro (h | ⟨-, hne⟩)
          · cases h
            rfl
          · exact absurd rfl (of_decide_eq_true hne)
        · intro h
          cases h
          exact Or.inl rfl
    · next hne =>
        constructor
        · rintro (heq | ⟨hmem, -⟩)
          · exact absurd (Prod.mk.inj heq).1 hne
          · exact (h.mem k' v').mp hmem
        · intro hget
          exact Or.inr ⟨(h.mem k' v').mpr hget, decide_eq_true hne⟩

/-- The entries of a dictionary that a loop fills. -/
def entriesOf (key : α → K) (val : α → V) (xs : List α) : List (K × V) :=
  xs.foldl (fun items x => (key x, val x) :: items.filter fun e => e.1 ≠ key x) []

/-- What a loop fills can be iterated over. -/
theorem items_entriesOf (key : α → K) (val : α → V) (xs : List α) :
    (collect key val xs).Items (entriesOf key val xs) := by
  induction xs using List.reverseRecOn with
  | nil => exact items_empty
  | append_singleton xs x ih =>
      rw [collect_append, entriesOf, List.foldl_append]
      exact items_set ih (key x) (val x)

/-- An iteration visits a key once, or not at all. -/
theorem Items.filter_key {d : Dict K V} {items : List (K × V)} (h : d.Items items) (k : K) :
    items.filter (fun e => e.1 = k) = (d k).toList.map fun v => (k, v) := by
  have hnodup : (items.filter fun e => e.1 = k).Nodup := (List.Nodup.of_map Prod.fst h.nodup).filter _
  have hmem : ∀ e, e ∈ items.filter (fun e => e.1 = k) ↔ d e.1 = some e.2 ∧ e.1 = k := by
    intro e
    rw [List.mem_filter, h.mem e.1 e.2]
    exact and_congr_right fun _ => decide_eq_true_iff
  cases hk : d k with
  | none =>
      refine List.eq_nil_iff_forall_not_mem.mpr ?_
      intro e he
      obtain ⟨hsome, rfl⟩ := (hmem e).mp he
      rw [hk] at hsome
      cases hsome
  | some v =>
      refine List.perm_singleton.mp ((List.perm_ext_iff_of_nodup hnodup (List.nodup_singleton _)).mpr ?_)
      intro e
      rw [hmem, List.mem_singleton]
      constructor
      · rintro ⟨hsome, rfl⟩
        rw [hk] at hsome
        cases hsome
        rfl
      · rintro rfl
        exact ⟨hk, rfl⟩

/-- A loop over the entries, with something done to each value. -/
theorem Items.collect {V' : Type} {d : Dict K V} {items : List (K × V)} (h : d.Items items) (f : V → V') :
    Dict.collect Prod.fst (fun e => f e.2) items = fun k => (d k).map f := by
  funext k
  cases hk : d k with
  | some v =>
      refine collect_of_agree (x := (k, v)) ((h.mem k v).mpr hk) fun e he hkey => ?_
      have hv := (h.mem e.1 e.2).mp he
      rw [hkey, hk] at hv
      exact congrArg f (Option.some.inj hv).symm
  | none =>
      cases hcollect : Dict.collect Prod.fst (fun e => f e.2) items k with
      | none => rfl
      | some v =>
          obtain ⟨e, he, hkey, -⟩ := mem_of_collect hcollect
          have hv := (h.mem e.1 e.2).mp he
          rw [hkey, hk] at hv
          cases hv

/-- The order in which dictionaries are gone through. -/
structure Order where
  iter : ∀ {α : Type}, List α → List α
  perm : ∀ {α : Type} (l : List α), (iter l).Perm l

/-- As the entries come. -/
def Order.same : Order := ⟨id, List.Perm.refl⟩

end Dict
