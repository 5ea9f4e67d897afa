/-
  Directory trees.

  A `PathTree` says what is under each path, and what is there has a directory over it.  So there is nothing
  below a leaf, or where there is nothing (`dir_above`, `none_below`).

  Three operations build trees, and can be applied where they are possible only: directories are made on a
  path that no leaf blocks (`mkdirs`), a tree is put where there is nothing (`graft`), and a leaf is put
  into a directory, in the place of no directory (`addLeaf`).  The first two keep everything that was there,
  the third everything but the leaf that it replaces.
-/
import Mathlib.Data.List.Infix

namespace DirTree

/-- What is at a path. -/
inductive Node (L : Type) where
  | dir
  | leaf (l : L)
  deriving DecidableEq

/-- What is under each path. -/
structure PathTree (N L : Type) where
  /-- What is under a path, if there is something. -/
  node : List N → Option (Node L)
  /-- The root is a directory. -/
  root : node [] = some .dir
  /-- What is above something is a directory. -/
  closed : ∀ p x n, node (p ++ [x]) = some n → node p = some .dir

namespace PathTree

variable {N L : Type} (t : PathTree N L)

/-- Nothing but the root. -/
def empty : PathTree N L where
  node
    | [] => some .dir
    | _ :: _ => none
  root := rfl
  closed p x n h := by
    cases p with
    | nil => rfl
    | cons y p => cases h

/-! ## Above and below: paths that begin with others -/

variable {t}

/-- Above something there is a directory. -/
theorem dir_of_append {p : List N} {n : Node L} : ∀ {rest : List N}, t.node (p ++ rest) = some n → rest ≠ [] →
    t.node p = some .dir := by
  intro rest
  induction rest using List.reverseRecOn generalizing n with
  | nil => exact fun _ hne => absurd rfl hne
  | append_singleton rest x ih =>
      intro h _
      rw [← List.append_assoc] at h
      have hdir := t.closed _ x n h
      rcases rest with _ | ⟨y, rest⟩
      · rwa [List.append_nil] at hdir
      · exact ih hdir (List.cons_ne_nil y rest)

/-- **Over everything there is a directory.** -/
theorem dir_above {p q : List N} {n : Node L} (h : t.node q = some n) (hp : p <+: q) (hne : p ≠ q) :
    t.node p = some .dir := by
  obtain ⟨rest, rfl⟩ := hp
  refine dir_of_append h fun hnil => hne ?_
  rw [hnil, List.append_nil]

/-- Below nothing there is nothing. -/
theorem none_below {p rest : List N} (h : t.node p = none) : t.node (p ++ rest) = none := by
  rcases hn : t.node (p ++ rest) with _ | n
  · rfl
  · rcases rest with _ | ⟨x, rest⟩
    · rw [List.append_nil, h] at hn
      cases hn
    · rw [dir_of_append hn (List.cons_ne_nil x rest)] at h
      cases h

/-- A directory is there. -/
def isDir (t : PathTree N L) (path : List N) : Bool :=
  match t.node path with
  | some .dir => true
  | _ => false

/-- What the test says. -/
theorem isDir_iff {path : List N} : t.isDir path = true ↔ t.node path = some .dir := by
  rw [isDir]
  rcases t.node path with _ | _ | l
  · exact iff_of_false Bool.false_ne_true nofun
  · exact iff_of_true rfl rfl
  · exact iff_of_false Bool.false_ne_true nofun

/-! ## Directories that are made on the way to a path -/

/-- No leaf is on the path. -/
def free (t : PathTree N L) (path : List N) : Bool := path.inits.all fun q =>
  match t.node q with
  | some (.leaf _) => false
  | _ => true

/-- A path is free when nothing but directories is on it. -/
theorem free_iff {path : List N} :
    t.free path = true ↔ ∀ q, q <+: path → t.node q = none ∨ t.node q = some .dir := by
  rw [free, List.all_eq_true]
  refine forall_congr' fun q => ?_
  rw [List.mem_inits]
  refine imp_congr_right fun _ => ?_
  rcases t.node q with _ | _ | l
  · exact iff_of_true rfl (.inl rfl)
  · exact iff_of_true rfl (.inr rfl)
  · exact iff_of_false Bool.false_ne_true nofun

variable [DecidableEq N]

/-- The path and what is over it is made. -/
def mkdirs (t : PathTree N L) (path : List N) (_h : t.free path = true) : PathTree N L where
  node q := if q <+: path then some .dir else t.node q
  root := if_pos List.nil_prefix
  closed p x n hn := by
    split at hn
    · next hp => exact if_pos ((List.prefix_append p [x]).trans hp)
    · split
      · rfl
      · exact t.closed p x n hn

/-- What is where, once the directories of a path are made. -/
theorem node_mkdirs {path : List N} (h : t.free path = true) (q : List N) :
    (t.mkdirs path h).node q = if q <+: path then some .dir else t.node q := rfl

/-- Making directories takes nothing away. -/
theorem mkdirs_keeps {path : List N} (h : t.free path = true) {q : List N} {n : Node L}
    (hn : t.node q = some n) : (t.mkdirs path h).node q = some n := by
  rw [node_mkdirs]
  split
  · next hq =>
      rcases free_iff.mp h q hq with hnone | hdir
      · rw [hnone] at hn
        cases hn
      · rw [← hdir, hn]
  · exact hn

/-- Making directories adds no leaf. -/
theorem leaf_of_mkdirs {path : List N} (h : t.free path = true) {q : List N} {l : L}
    (hn : (t.mkdirs path h).node q = some (.leaf l)) : t.node q = some (.leaf l) := by
  rw [node_mkdirs] at hn
  split at hn
  · cases hn
  · exact hn

/-! ## Trees: something is put under a path -/

/-- A tree is put on the path. -/
def graft (t : PathTree N L) (path : List N) (s : PathTree N L) (h : t.free path = true) : PathTree N L where
  node q := if path <+: q then s.node (q.drop path.length) else (t.mkdirs path h).node q
  root := by
    split
    · next hp => rw [List.prefix_nil.mp hp]; exact s.root
    · exact (t.mkdirs path h).root
  closed p x n hn := by
    split at hn
    · next hp =>
        rcases List.prefix_concat_iff.mp hp with heq | hp
        · rw [if_neg fun hpp => ?_]
          · refine if_pos ?_
            rw [heq]
            exact List.prefix_append p [x]
          · have hlength := (heq ▸ hpp).length_le
            rw [List.length_append, List.length_singleton] at hlength
            omega
        · rw [if_pos hp]
          rw [List.drop_append_of_le_length hp.length_le] at hn
          exact s.closed _ x n hn
    · next hp =>
        rw [if_neg fun hpp => hp (hpp.trans (List.prefix_append p [x]))]
        exact (t.mkdirs path h).closed p x n hn

/-- A tree that is grafted is found below its path. -/
theorem node_graft_append {path : List N} {s : PathTree N L} (h : t.free path = true) (rel : List N) :
    (t.graft path s h).node (path ++ rel) = s.node rel := by
  show (if path <+: path ++ rel then _ else _) = _
  rw [if_pos (List.prefix_append path rel), List.drop_left]

/-- Where there was nothing, a tree hides nothing. -/
theorem graft_keeps {path : List N} {s : PathTree N L} (h : t.free path = true) (hnone : t.node path = none)
    {q : List N} {n : Node L} (hn : t.node q = some n) : (t.graft path s h).node q = some n := by
  show (if path <+: q then _ else _) = _
  rw [if_neg, mkdirs_keeps h hn]
  rintro ⟨rel, rfl⟩
  rw [none_below hnone] at hn
  cases hn

/-- A leaf is an old one, or one of the tree that was grafted. -/
theorem leaf_of_graft {path : List N} {s : PathTree N L} (h : t.free path = true) {q : List N} {l : L}
    (hn : (t.graft path s h).node q = some (.leaf l)) :
    t.node q = some (.leaf l) ∨ ∃ rel, q = path ++ rel ∧ s.node rel = some (.leaf l) := by
  change (if path <+: q then _ else _) = _ at hn
  split at hn
  · next hp =>
      obtain ⟨rel, rfl⟩ := hp
      rw [List.drop_left] at hn
      exact .inr ⟨rel, rfl, hn⟩
  · exact .inl (leaf_of_mkdirs h hn)

/-! ## Leaves: what stays under the other paths -/

/-- A leaf is put on the path, or in the place of another. -/
def addLeaf (t : PathTree N L) (path : List N) (l : L) (hparent : t.node path.dropLast = some .dir)
    (hnot : t.node path ≠ some .dir) : PathTree N L where
  node q := if q = path then some (.leaf l) else t.node q
  root := by
    have hne : [] ≠ path := by
      rintro rfl
      exact hnot t.root
    rw [if_neg hne]
    exact t.root
  closed p x n hn := by
    have hdir : t.node p = some .dir := by
      split at hn
      · next heq => rwa [← heq, List.dropLast_concat] at hparent
      · exact t.closed p x n hn
    have hne : p ≠ path := by
      rintro rfl
      exact hnot hdir
    rw [if_neg hne]
    exact hdir

/-- What is where, once a leaf is added. -/
theorem node_addLeaf {path : List N} {l : L} (hparent : t.node path.dropLast = some .dir)
    (hnot : t.node path ≠ some .dir) (q : List N) :
    (t.addLeaf path l hparent hnot).node q = if q = path then some (.leaf l) else t.node q := rfl

end PathTree
end DirTree
