/-
  `dmerge` (onl/util/__init__.py) and `merge` (onl/YamlUtils.py): defaults and what overrides them.

  `override` says what a merge is, by recursion over two trees: a key of the defaults stays, a key of
  the other is added, a leaf of the other wins, `None` drops its key, and a dictionary against a leaf
  takes the leaf under '='.  The code has a queue instead, of pairs of dictionaries and the
  dictionary that is to be filled from them, which is part of the result already.

  Dictionaries that are filled live on a heap (`St`), at an address each; the dictionaries that are
  read are trees, with the leaf `none` for None.  The order in which Python iterates over a set is a
  parameter, and may be another one each time.
-/
import DentOS.Lib.Nested

namespace DentOS.Config

open Nested

variable {K V : Type} [DecidableEq K]

/-- What `yaml` reads: leaves that may be None. -/
abbrev Doc (K V : Type) := Tree K (Option V)

/-! ## The merge by recursion on the first dictionary -/

/-- `{ '=' : v, }`. -/
def promote (eqKey : K) (x : Option V) : Doc K V := Tree.single eqKey (.leaf x)

/-- The entry of the merge for the entries of both, where `rec` merges dictionaries. -/
def mergeEntry (eqKey : K) (merge : Doc K V → Doc K V → Doc K V) :
    Option (Doc K V) → Option (Doc K V) → Option (Doc K V)
  | v, none => v
  | _, some (.leaf none) => none
  | none, some (.leaf (some y)) => some (.leaf (some y))
  | none, some (.dict keys vals) => some (merge Tree.empty (.dict keys vals))
  | some (.leaf _), some (.leaf (some y)) => some (.leaf (some y))
  | some (.leaf x), some (.dict keys vals) => some (merge (promote eqKey x) (.dict keys vals))
  | some (.dict keys vals), some (.leaf (some y)) =>
      some (merge (.dict keys vals) (promote eqKey (some y)))
  | some (.dict keys vals), some (.dict keys' vals') =>
      some (merge (.dict keys vals) (.dict keys' vals'))

/-- **The recursive override**, to a depth. -/
def overrideTo (eqKey : K) : Nat → Doc K V → Doc K V → Doc K V
  | 0, _, _ => Tree.empty
  | n + 1, a, b => Tree.build (a.keys ∪ b.keys) fun k =>
      mergeEntry eqKey (overrideTo eqKey n) (a.get k) (b.get k)

/-- **The recursive override.** -/
def override (eqKey : K) (a b : Doc K V) : Doc K V := overrideTo eqKey (a.depth + b.depth) a b

/-- A value that is promoted to a dictionary is one level deep. -/
theorem depth_promote (eqKey : K) (x : Option V) : (promote eqKey x).depth ≤ 1 := by
  refine Tree.depth_le_one fun k v h => ?_
  rw [promote, Tree.get_single] at h
  split at h
  · cases h
    rfl
  · cases h

/-- The empty dictionary is one level deep. -/
theorem depth_empty : (Tree.empty : Doc K V).depth ≤ 1 := by
  refine Tree.depth_le_one fun k v h => ?_
  rw [Tree.get_empty] at h
  cases h

/-- The entries of a merge are merges of less depth. -/
theorem mergeEntry_congr {eqKey : K} {merge merge' : Doc K V → Doc K V → Doc K V} {a b : Doc K V}
    (ha : a.IsDict) (hb : b.IsDict)
    (h : ∀ a' b', a'.IsDict → b'.IsDict → a'.depth + b'.depth < a.depth + b.depth →
      merge a' b' = merge' a' b') (k : K) :
    mergeEntry eqKey merge (a.get k) (b.get k) = mergeEntry eqKey merge' (a.get k) (b.get k) := by
  have hapos := Tree.depth_pos ha
  have hbpos := Tree.depth_pos hb
  have hempty : (Tree.empty : Doc K V).depth ≤ 1 := depth_empty
  rcases hak : a.get k with _ | (x | ⟨keys, vals⟩) <;>
    rcases hbk : b.get k with _ | ((_ | y) | ⟨keys', vals'⟩)
  · rfl
  · rfl
  · rfl
  · have hlt := Tree.depth_get_lt hbk
    exact congrArg some (h _ _ trivial trivial (by omega))
  · rfl
  · rfl
  · rfl
  · have hlt := Tree.depth_get_lt hbk
    have hx := depth_promote (V := V) eqKey x
    exact congrArg some (h _ _ trivial trivial (by omega))
  · rfl
  · rfl
  · have hlt := Tree.depth_get_lt hak
    have hy := depth_promote (V := V) eqKey (some y)
    exact congrArg some (h _ _ trivial trivial (by omega))
  · have hlt := Tree.depth_get_lt hak
    have hlt' := Tree.depth_get_lt hbk
    exact congrArg some (h _ _ trivial trivial (by omega))

/-- A depth that suffices makes no difference. -/
theorem overrideTo_eq {eqKey : K} : ∀ {n m : Nat} {a b : Doc K V}, a.IsDict → b.IsDict →
    a.depth + b.depth ≤ n → a.depth + b.depth ≤ m → overrideTo eqKey n a b = overrideTo eqKey m a b
  | 0, _, a, _, ha, _, hn, _ => by
      have hpos := Tree.depth_pos ha
      omega
  | _, 0, a, _, ha, _, _, hm => by
      have hpos := Tree.depth_pos ha
      omega
  | n + 1, m + 1, a, b, ha, hb, hn, hm => by
      rw [overrideTo, overrideTo]
      refine congrArg _ (funext fun k => mergeEntry_congr ha hb (fun a' b' ha' hb' hlt => ?_) k)
      exact overrideTo_eq ha' hb' (by omega) (by omega)

/-- **The entries of the override.** -/
theorem get_override (eqKey : K) {a b : Doc K V} (ha : a.IsDict) (hb : b.IsDict) (k : K) :
    (override eqKey a b).get k = mergeEntry eqKey (override eqKey) (a.get k) (b.get k) := by
  have hapos := Tree.depth_pos ha
  obtain ⟨n, hn⟩ : ∃ n, a.depth + b.depth = n + 1 := ⟨a.depth + b.depth - 1, by omega⟩
  rw [override, hn, overrideTo, Tree.get_build]
  · refine mergeEntry_congr ha hb (fun a' b' ha' hb' hlt => ?_) k
    exact overrideTo_eq ha' hb' (by omega) (Nat.le_refl _)
  · intro k hk
    rw [Finset.mem_union, Tree.mem_keys, Tree.mem_keys]
    by_contra hnone
    rw [not_or, not_not, not_not] at hnone
    rw [hnone.1, hnone.2] at hk
    exact hk rfl

/-- What a dictionary becomes is a dictionary. -/
theorem isDict_override (eqKey : K) {a b : Doc K V} (ha : a.IsDict) :
    (override eqKey a b).IsDict := by
  have hapos := Tree.depth_pos ha
  obtain ⟨n, hn⟩ : ∃ n, a.depth + b.depth = n + 1 := ⟨a.depth + b.depth - 1, by omega⟩
  rw [override, hn, overrideTo]
  exact Tree.isDict_build _ _

/-- Nothing overrides nothing. -/
theorem override_empty (eqKey : K) {a : Doc K V} (ha : a.IsDict) :
    override eqKey a Tree.empty = a := by
  refine Tree.ext (isDict_override eqKey ha) ha fun k => ?_
  rw [get_override eqKey ha (show (Tree.empty : Doc K V).IsDict from trivial), Tree.get_empty]
  rfl

/-- **Overriding again makes no difference.** -/
theorem override_again (eqKey : K) : ∀ (n : Nat) (a b : Doc K V), a.IsDict → b.IsDict →
    a.depth + b.depth ≤ n → override eqKey (override eqKey a b) b = override eqKey a b
  | 0, a, b, ha, hb, hn => by
      have hpos := Tree.depth_pos ha
      omega
  | n + 1, a, b, ha, hb, hn => by
      have hapos := Tree.depth_pos ha
      have hbpos := Tree.depth_pos hb
      have hempty : (Tree.empty : Doc K V).depth ≤ 1 := depth_empty
      have hdict := isDict_override eqKey (b := b) ha
      refine Tree.ext (isDict_override eqKey hdict) hdict fun k => ?_
      rw [get_override eqKey hdict hb, get_override eqKey ha hb]
      -- an entry that is a merge is a dictionary, which is merged again
      have hagain : ∀ a' b' : Doc K V, a'.IsDict → b'.IsDict → a'.depth + b'.depth ≤ n →
          ∃ keys vals, override eqKey a' b' = .dict keys vals ∧
            override eqKey (.dict keys vals) b' = .dict keys vals := by
        intro a' b' ha' hb' hle
        have hsame := override_again eqKey n a' b' ha' hb' hle
        rcases hm : override eqKey a' b' with x | ⟨keys, vals⟩
        · have hd := isDict_override eqKey (b := b') ha'
          rw [hm] at hd
          exact absurd hd not_false
        · rw [hm] at hsame
          exact ⟨keys, vals, rfl, hsame⟩
      rcases hak : a.get k with _ | (x | ⟨keys, vals⟩) <;>
        rcases hbk : b.get k with _ | ((_ | y) | ⟨keys', vals'⟩)
      · rfl
      · rfl
      · rfl
      · have hlt := Tree.depth_get_lt hbk
        obtain ⟨ks, vs, heq, hsame⟩ := hagain Tree.empty (.dict keys' vals') trivial trivial (by omega)
        simp only [mergeEntry, heq, hsame]
      · rfl
      · rfl
      · rfl
      · have hlt := Tree.depth_get_lt hbk
        have hx := depth_promote (V := V) eqKey x
        obtain ⟨ks, vs, heq, hsame⟩ := hagain (promote eqKey x) (.dict keys' vals') trivial trivial
          (by omega)
        simp only [mergeEntry, heq, hsame]
      · rfl
      · rfl
      · have hlt := Tree.depth_get_lt hak
        have hy := depth_promote (V := V) eqKey (some y)
        obtain ⟨ks, vs, heq, hsame⟩ := hagain (.dict keys vals) (promote eqKey (some y)) trivial trivial
          (by omega)
        simp only [mergeEntry, heq, hsame]
      · have hlt := Tree.depth_get_lt hak
        have hlt' := Tree.depth_get_lt hbk
        obtain ⟨ks, vs, heq, hsame⟩ := hagain (.dict keys vals) (.dict keys' vals') trivial trivial
          (by omega)
        simp only [mergeEntry, heq, hsame]

end DentOS.Config
