/-
  Finite nested dictionaries.

  A `Tree` is a leaf, or a dictionary: a finite set of keys with a tree for each.  Two dictionaries
  with the same entries are equal (`ext`), in whatever order they were filled, and `build` makes the
  dictionary of a table of entries.  Recursion over two dictionaries at once goes by their depth,
  which every entry is below (`depth_get_lt`).
-/
import Mathlib.Data.Finset.Lattice.Fold
import Mathlib.Order.Lattice.Nat

namespace Nested

/-- A leaf, or a dictionary. -/
inductive Tree (K L : Type) where
  | leaf (v : L)
  | dict (keys : Finset K) (vals : { k // k ∈ keys } → Tree K L)

namespace Tree

variable {K L : Type}

/-- The keys of a tree. -/
def keys : Tree K L → Finset K
  | .leaf _ => ∅
  | .dict keys _ => keys

/-- The tree is no leaf. -/
def IsDict : Tree K L → Prop
  | .leaf _ => False
  | .dict _ _ => True

instance : (t : Tree K L) → Decidable t.IsDict
  | .leaf _ => inferInstanceAs (Decidable False)
  | .dict _ _ => inferInstanceAs (Decidable True)

/-- The depth: a leaf has none. -/
def depth : Tree K L → Nat
  | .leaf _ => 0
  | .dict keys vals => 1 + keys.attach.sup fun k => (vals k).depth

/-- A dictionary with an entry, or without, has a depth. -/
theorem depth_pos {t : Tree K L} (h : t.IsDict) : 1 ≤ t.depth := by
  cases t with
  | leaf v => exact absurd h not_false
  | dict keys vals =>
      rw [depth]
      omega

/-- The dictionary of the entries `f`, among the keys `s`. -/
def build (s : Finset K) (f : K → Option (Tree K L)) : Tree K L :=
  .dict (s.filter fun k => (f k).isSome) fun k => (f k.1).get (Finset.mem_filter.mp k.2).2

/-- A tree that is built of its values is no leaf. -/
theorem isDict_build (s : Finset K) (f : K → Option (Tree K L)) : (build s f).IsDict := trivial

variable [DecidableEq K]

/-- The entry of a dictionary. -/
def get : Tree K L → K → Option (Tree K L)
  | .leaf _, _ => none
  | .dict keys vals, k => if h : k ∈ keys then some (vals ⟨k, h⟩) else none

/-- The keys are those with a value. -/
theorem mem_keys {t : Tree K L} {k : K} : k ∈ t.keys ↔ t.get k ≠ none := by
  cases t with
  | leaf v => exact ⟨fun h => absurd h (Finset.notMem_empty k), fun h => absurd rfl h⟩
  | dict keys vals =>
      rw [get]
      split
      · next h => exact ⟨fun _ => Option.some_ne_none _, fun _ => h⟩
      · next h => exact ⟨fun h' => absurd h' h, fun h' => absurd rfl h'⟩

/-- **Dictionaries with the same entries are equal.** -/
theorem ext {t t' : Tree K L} (h : t.IsDict) (h' : t'.IsDict) (hget : ∀ k, t.get k = t'.get k) :
    t = t' := by
  cases t with
  | leaf v => exact absurd h not_false
  | dict keys vals =>
      cases t' with
      | leaf v => exact absurd h' not_false
      | dict keys' vals' =>
          have hkeys : keys = keys' := by
            refine Finset.ext fun k => ?_
            have hmem := mem_keys (t := .dict keys vals) (k := k)
            rw [hget k] at hmem
            exact hmem.trans mem_keys.symm
          subst hkeys
          have hvals : vals = vals' := by
            funext k
            have hk := hget k.1
            rw [get, get, dif_pos k.2, dif_pos k.2] at hk
            exact Option.some.inj hk
          rw [hvals]

/-- A value is less deep than its tree. -/
theorem depth_get_lt {t v : Tree K L} {k : K} (h : t.get k = some v) : v.depth < t.depth := by
  cases t with
  | leaf x => cases h
  | dict keys vals =>
      rw [get] at h
      split at h
      · next hk =>
          cases h
          have hle : (vals ⟨k, hk⟩).depth ≤ keys.attach.sup fun k => (vals k).depth :=
            Finset.le_sup (f := fun k => (vals k).depth) (Finset.mem_attach keys ⟨k, hk⟩)
          rw [depth]
          omega
      · cases h

/-- Its entries. -/
theorem get_build {s : Finset K} {f : K → Option (Tree K L)} (h : ∀ k, f k ≠ none → k ∈ s) (k : K) :
    (build s f).get k = f k := by
  rw [build, get]
  split
  · exact Option.some_get _
  · next hk =>
      by_contra hne
      have hsome : f k ≠ none := fun h => hne h.symm
      exact hk (Finset.mem_filter.mpr ⟨h k hsome, Option.isSome_iff_ne_none.mpr hsome⟩)

/-- No entries. -/
def empty : Tree K L := build ∅ fun _ => none

/-- The empty tree has no value. -/
theorem get_empty (k : K) : (empty : Tree K L).get k = none :=
  get_build (fun _ h => absurd rfl h) k

/-- One entry. -/
def single (key : K) (v : Tree K L) : Tree K L := build {key} fun k => if k = key then some v else none

/-- The tree with one value. -/
theorem get_single (key : K) (v : Tree K L) (k : K) :
    (single key v).get k = if k = key then some v else none := by
  refine get_build (fun k h => ?_) k
  split at h
  · next hk => exact Finset.mem_singleton.mpr hk
  · exact absurd rfl h

/-- The depth of a dictionary that leads to nothing but leaves. -/
theorem depth_le_one {t : Tree K L} (h : ∀ k v, t.get k = some v → v.depth = 0) : t.depth ≤ 1 := by
  cases t with
  | leaf v => exact Nat.zero_le 1
  | dict keys vals =>
      rw [depth]
      have hsup : (keys.attach.sup fun k => (vals k).depth) ≤ 0 := by
        refine Finset.sup_le fun k _ => ?_
        have hget : (Tree.dict keys vals).get k.1 = some (vals k) := by rw [get, dif_pos k.2]
        exact Nat.le_of_eq (h k.1 (vals k) hget)
      omega

/-- **Induction** over the entries of dictionaries. -/
theorem induct {motive : Tree K L → Prop} (leaf : ∀ v, motive (.leaf v))
    (dict : ∀ t : Tree K L, t.IsDict → (∀ k v, t.get k = some v → motive v) → motive t) :
    ∀ t, motive t := by
  intro t
  induction t with
  | leaf v => exact leaf v
  | dict keys vals ih =>
      refine dict _ trivial fun k v hv => ?_
      rw [get] at hv
      split at hv
      · cases hv
        exact ih _
      · cases hv

end Tree
end Nested
