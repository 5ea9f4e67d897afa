/-
  The contents of a package (tools/onlpm.py): `OnlPackage.copyf` and `OnlPackage.build`, up to the call of
  fpm.

  Files and links are put into the package root one after the other.  A copy into a place that is taken
  replaces the file there, and a link whose path goes through another link is made where that one leads.
  The line that copies a document stands behind a `raise`, and the two calls that export copyright and
  changelog stand in the function that they call.  So a package that is built has all that is listed
  exactly if the listed sources do not replace each other, no link goes through another, and of the rest
  nothing is listed that is not there anyway (`contains_iff`).

  The files and optional files are those that `_validate_files` has left.  A destination is names between
  slashes, without `.` and `..`, and without two slashes in front.  Where a path goes through a link, what
  the system does is a parameter.  Not modelled: links in the directories that are copied, what fpm is
  given besides the root, and the log.
-/
import DentOS.Lib.DirTree
import DentOS.Lib.PosixPath

namespace DentOS.OnlPackage

open DirTree PosixPath PyText

/-! ## The package root: a tree of files and links -/

/-- What is no directory: a file, or a link. -/
inductive Leaf (C : Type) where
  | file (c : C)
  | link (target : Text)

/-- The tree of the package. -/
abbrev Root (C : Type) := PathTree Text (Leaf C)

/-- A file, or a directory of files. -/
inductive Source (C : Type) where
  | file (c : C)
  | dir (s : Root C) (plain : ∀ p target, s.node p ≠ some (.leaf (.link target)))

/-- What `build` raises. -/
inductive BuildError where
  | exists
  | osError
  | ioError
  | missing
  deriving DecidableEq

/-- The names of a path. -/
def names (p : Text) : List Text := (p.splitOn '/').filter (· ≠ [])

/-- A destination. -/
structure Dst where
  /-- The path as it is written. -/
  text : Text
  /-- It does not begin with two slashes. -/
  single : ¬ ['/', '/'] <+: text
  /-- It does not lead upwards. -/
  proper : ∀ x ∈ names text, x ≠ ".".toList ∧ x ≠ "..".toList

/-- `dst = dst[1:]` if there is a slash in front. -/
def stripSlash : Text → Text
  | '/' :: dst => dst
  | dst => dst

/-- `dst.endswith('/')`. -/
def endsSlash (dst : Text) : Bool := ['/'].isSuffixOf dst

section

variable {C : Type}

/-- `os.makedirs(path)`. -/
def makedirs (path : List Text) (t : Root C) : Except BuildError (Root C) :=
  if (t.node path).isSome then .error .exists
  else if h : t.free path = true then .ok (t.mkdirs path h)
  else .error .osError

/-- `shutil.copytree(src, path)`. -/
def copytree (path : List Text) (s t : Root C) : Except BuildError (Root C) :=
  if (t.node path).isSome then .error .exists
  else if h : t.free path = true then .ok (t.graft path s h)
  else .error .osError

/-- `shutil.copyfile(src, path)`. -/
def copyfile (path : List Text) (c : C) (t : Root C) : Except BuildError (Root C) :=
  if h : t.isDir path.dropLast = true ∧ ¬ t.isDir path = true then
    .ok (t.addLeaf path (.file c) (PathTree.isDir_iff.mp h.1) (mt PathTree.isDir_iff.mpr h.2))
  else .error .ioError

/-- `os.makedirs(path)`, unless it is there. -/
def ensuredirs (path : List Text) (t : Root C) : Except BuildError (Root C) :=
  if (t.node path).isSome then .ok t else makedirs path t

/-- `shutil.copy(src, dstpath)`. -/
def copy (dir : List Text) (base : Text) (c : C) (t : Root C) : Except BuildError (Root C) :=
  if t.isDir dir = true then copyfile (dir ++ [base]) c t else .error .ioError

variable (host : Text → Option (Source C))

/-- `copyf(src, dst, root)`. -/
def copyf (t : Root C) (src : Text) (dst : Dst) : Except BuildError (Root C) :=
  let dst := stripSlash dst.text
  match host src with
  | some (.dir s _) => copytree (names dst) s t
  | some (.file c) =>
      if endsSlash dst then do
        let t ← ensuredirs (names dst) t
        copy (names dst) (basename src) c t
      else do
        let t ← ensuredirs (names (dirname dst)) t
        copyfile (names dst) c t
  | none => .error .missing

/-! ## `build`: files, links and documents, in their order -/

/-- What the system does with a path through a link. -/
structure Through (C : Type) where
  /-- Whether a link is made, and where in the root, if in it. -/
  symlink : Root C → List Text → Option (Option (List Text))
  /-- Whether there is something under the path. -/
  found : Root C → List Text → Bool
  /-- The directories that are made. -/
  makedirs : Root C → List Text → Option (List (List Text))

/-- The path has a link on it. -/
def crosses (t : Root C) (path : List Text) : Bool := path.inits.any fun q =>
  match t.node q with
  | some (.leaf (.link _)) => true
  | _ => false

/-- `os.symlink`: its directory has to be there, and its name free. -/
def addLink (path : List Text) (target : Text) (t : Root C) : Except BuildError (Root C) :=
  if h : t.isDir path.dropLast = true ∧ t.node path = none then
    .ok (t.addLeaf path (.link target) (PathTree.isDir_iff.mp h.1) (by rw [h.2]; exact nofun))
  else .error .osError

/-- `os.symlink(target, link)`. -/
def symlink (th : Through C) (t : Root C) (link : Dst) (target : Text) : Except BuildError (Root C) :=
  if endsSlash link.text then .error .osError
  else match if crosses t (names link.text).dropLast then th.symlink t (names link.text)
      else some (some (names link.text)) with
    | some (some path) => addLink path target t
    | some none => .ok t
    | none => .error .osError

/-- A package.  The links are in the order of the dictionary. -/
structure Package where
  /-- The name of the package. -/
  name : Text
  /-- The files, and where they go. -/
  files : List (Text × Dst)
  /-- The files that may be missing. -/
  optionalFiles : List (Text × Dst)
  /-- The links, and what they lead to. -/
  links : List (Dst × Text)
  /-- The documentation. -/
  docs : List Text
  /-- The copyright file. -/
  copyright : Option Text
  /-- The changelog. -/
  changelog : Option Text

/-- What there is when fpm is called. -/
structure Built (C : Type) where
  /-- The files of the package. -/
  root : List Text → Option (Node (Leaf C))
  /-- The files beside it. -/
  workdir : Text → Option C

/-- The loop over the files. -/
def copyFiles : List (Text × Dst) → Root C → Except BuildError (Root C)
  | [], t => .ok t
  | e :: es, t => do
      let t ← copyf host t e.1 e.2
      copyFiles es t

/-- The loop over the optional files. -/
def copyOptional : List (Text × Dst) → Root C → Except BuildError (Root C)
  | [], t => .ok t
  | e :: es, t =>
      if (host e.1).isSome then do
        let t ← copyf host t e.1 e.2
        copyOptional es t
      else copyOptional es t

/-- The loop over the links. -/
def makeLinks (th : Through C) : List (Dst × Text) → Root C → Except BuildError (Root C)
  | [], t => .ok t
  | (link, target) :: ls, t => do
      let t ← symlink th t link target
      makeLinks th ls t

/-- `docpath`. -/
def docpath (name : Text) : List Text := names ("usr/share/doc/".toList ++ name)

/-- `os.makedirs(docpath)`, unless it exists. -/
def makeDocpath (th : Through C) (path : List Text) (t : Root C) :
    Except BuildError (List Text → Option (Node (Leaf C))) :=
  if crosses t path then
    if th.found t path then .ok t.node
    else match th.makedirs t path with
      | some dirs => .ok fun q => (t.node q).or (if q ∈ dirs then some .dir else none)
      | none => .error .osError
  else (ensuredirs path t).map PathTree.node

/-- The loop over the documents: behind the `raise` nothing is done. -/
def copyDocs : List Text → Except BuildError Unit
  | [] => .ok ()
  | src :: docs => if (host src).isNone then .error .missing else copyDocs docs

/-- `copy_str_or_file(src, dst)`: what `dst` holds then.  It is called from its own body alone. -/
def copyStrOrFile (ofText : Text → C) (src : Text) : Option C :=
  match host src with
  | some (.file c) => some c
  | some (.dir _ _) => none
  | none => some (ofText (src ++ ['\n']))

/-- `build`, up to the call of fpm. -/
def build (th : Through C) (pkg : Package) : Except BuildError (Built C) := do
  let t ← copyFiles host pkg.files PathTree.empty
  let t ← copyOptional host pkg.optionalFiles t
  let t ← makeLinks th pkg.links t
  let root ← makeDocpath th (docpath pkg.name) t
  copyDocs host pkg.docs
  pure ⟨root, fun _ => none⟩

/-! ## Everything listed is in the package -/

/-- What is in a source, by the path inside of it. -/
def Source.node : Source C → List Text → Option (Node (Leaf C))
  | .file c, rel => if rel = [] then some (.leaf (.file c)) else none
  | .dir s _, rel => s.node rel

/-- Where a source goes. -/
def placeOf (src : Text) (dst : Dst) : Source C → List Text
  | .file _ =>
      if endsSlash (stripSlash dst.text) then names (stripSlash dst.text) ++ [basename src]
      else names (stripSlash dst.text)
  | .dir _ _ => names (stripSlash dst.text)

/-- The source is at its destination, with all that is in it. -/
def Holds (root : List Text → Option (Node (Leaf C))) (e : Text × Dst) : Prop :=
  ∃ s, host e.1 = some s ∧ ∀ rel n, s.node rel = some n → root (placeOf e.1 e.2 s ++ rel) = some n

/-- A text, or the file that it names, is in the work directory. -/
def Exported (ofText : Text → C) (workdir : Text → Option C) (file src : Text) : Prop :=
  ∃ c, copyStrOrFile host ofText src = some c ∧ workdir file = some c

/-- **A built package contains everything** its specification lists. -/
structure Contains (ofText : Text → C) (pkg : Package) (b : Built C) : Prop where
  files : ∀ e ∈ pkg.files, Holds host b.root e
  optionalFiles : ∀ e ∈ pkg.optionalFiles, (host e.1).isSome = true → Holds host b.root e
  links : ∀ l ∈ pkg.links, b.root (names l.1.text) = some (.leaf (.link l.2))
  docs : ∀ src ∈ pkg.docs, ∃ s, host src = some s ∧ ∀ rel c, s.node rel = some (.leaf (.file c)) →
    b.root (docpath pkg.name ++ basename src :: rel) = some (.leaf (.file c))
  copyright : ∀ src, pkg.copyright = some src → Exported host ofText b.workdir "copyright".toList src
  changelog : ∀ src, pkg.changelog = some src → Exported host ofText b.workdir "changelog".toList src

/-! ## The condition on what is listed -/

/-- The sources that are copied. -/
def sources (pkg : Package) : List (Text × Dst) :=
  pkg.files ++ pkg.optionalFiles.filter fun e => (host e.1).isSome

/-- A source has a file for the place. -/
def Writes (es : List (Text × Dst)) (q : List Text) (c : C) : Prop :=
  ∃ e ∈ es, ∃ s rel, host e.1 = some s ∧ q = placeOf e.1 e.2 s ++ rel ∧ s.node rel = some (.leaf (.file c))

/-- No path of a link goes through another one. -/
def Straight (ls : List (Dst × Text)) : Prop := ∀ l ∈ ls, ∀ l' ∈ ls,
  names l'.1.text <+: names l.1.text → names l'.1.text = names l.1.text

/-- Everything that is listed is there without a copy that is not made, or is not replaced. -/
structure Fits (pkg : Package) : Prop where
  files : ∀ q c c', Writes host (sources host pkg) q c → Writes host (sources host pkg) q c' → c = c'
  links : Straight pkg.links
  docs : ∀ src ∈ pkg.docs, ∀ s rel c, host src = some s → s.node rel = some (.leaf (.file c)) →
    Writes host (sources host pkg) (docpath pkg.name ++ basename src :: rel) c
  copyright : pkg.copyright = none
  changelog : pkg.changelog = none

end

/-! ## One copy: a file at its place, or all files of a directory -/

section

variable {C : Type} {host : Text → Option (Source C)} {t t' : Root C}

/-- A file is at its own path. -/
theorem node_file (c : C) : (Source.file c).node [] = some (.leaf (.file c)) := rfl

/-- Nothing is changed but that there are more directories. -/
structure Grows (t t' : Root C) : Prop where
  keeps : ∀ q n, t.node q = some n → t'.node q = some n
  leaves : ∀ q l, t'.node q = some (.leaf l) → t.node q = some (.leaf l)

/-- A source was put on the path: files may have been replaced. -/
structure Copied (t t' : Root C) (path : List Text) (s : Source C) : Prop where
  holds : ∀ rel n, s.node rel = some n → t'.node (path ++ rel) = some n
  dirs : ∀ q, t.node q = some .dir → t'.node q = some .dir
  files : ∀ q l, t.node q = some (.leaf l) → t'.node q = some (.leaf l) ∨
    ∃ rel c, q = path ++ rel ∧ s.node rel = some (.leaf (.file c))
  leaves : ∀ q l, t'.node q = some (.leaf l) → t.node q = some (.leaf l) ∨
    ∃ rel, q = path ++ rel ∧ s.node rel = some (.leaf l)

/-- Directories that were made before the copy do not matter. -/
theorem Copied.of_grows {t₁ : Root C} {path : List Text} {s : Source C} (hgrows : Grows t t₁)
    (h : Copied t₁ t' path s) : Copied t t' path s where
  holds := h.holds
  dirs q hq := h.dirs q (hgrows.keeps q _ hq)
  files q l hq := h.files q l (hgrows.keeps q _ hq)
  leaves q l hq := (h.leaves q l hq).imp_left (hgrows.leaves q l)

/-- Making the directories of a path takes nothing away. -/
theorem ensuredirs_grows {path : List Text} (h : ensuredirs path t = .ok t') : Grows t t' := by
  rw [ensuredirs] at h
  split at h
  · cases h
    exact ⟨fun _ _ h => h, fun _ _ h => h⟩
  · rw [makedirs] at h
    split at h
    · cases h
    · split at h
      · next hfree =>
          cases h
          exact ⟨fun _ _ => PathTree.mkdirs_keeps hfree, fun _ _ => PathTree.leaf_of_mkdirs hfree⟩
      · cases h

/-- A file is copied. -/
theorem copyfile_copied {path : List Text} {c : C} (h : copyfile path c t = .ok t') :
    Copied t t' path (.file c) := by
  rw [copyfile] at h
  split at h
  · next hdir =>
      cases h
      have hself : ∀ q l, (if q = path then some (.leaf (.file c)) else t.node q) = some (.leaf l) →
          t.node q = some (.leaf l) ∨ ∃ rel, q = path ++ rel ∧ (Source.file c).node rel = some (.leaf l) := by
        intro q l hq
        split at hq
        · next heq =>
            cases hq
            exact .inr ⟨[], by rw [heq, List.append_nil], node_file c⟩
        · exact .inl hq
      constructor
      · intro rel n hn
        rw [Source.node] at hn
        split at hn
        · next hrel =>
            cases hn
            rw [hrel, List.append_nil, PathTree.node_addLeaf, if_pos rfl]
        · cases hn
      · intro q hq
        rw [PathTree.node_addLeaf, if_neg, hq]
        rintro rfl
        exact hdir.2 (PathTree.isDir_iff.mpr hq)
      · intro q l hq
        rw [PathTree.node_addLeaf]
        by_cases heq : q = path
        · exact .inr ⟨[], c, by rw [heq, List.append_nil], node_file c⟩
        · rw [if_neg heq]
          exact .inl hq
      · exact hself
  · cases h

/-- A directory is copied, with all that is in it. -/
theorem copytree_copied {path : List Text} {s : Root C}
    (plain : ∀ p target, s.node p ≠ some (.leaf (.link target))) (h : copytree path s t = .ok t') :
    Copied t t' path (.dir s plain) := by
  rw [copytree] at h
  split at h
  · cases h
  · next hnone =>
      have hnone := Option.not_isSome_iff_eq_none.mp hnone
      split at h
      · next hfree =>
          cases h
          constructor
          · intro rel n hn
            rw [PathTree.node_graft_append]
            exact hn
          · exact fun q hq => PathTree.graft_keeps hfree hnone hq
          · exact fun q l hq => .inl (PathTree.graft_keeps hfree hnone hq)
          · exact fun q l hq => PathTree.leaf_of_graft hfree hq
      · cases h

/-- **One copy** that succeeded. -/
theorem copyf_copied {src : Text} {dst : Dst} (h : copyf host t src dst = .ok t') :
    ∃ s, host src = some s ∧ Copied t t' (placeOf src dst s) s := by
  rw [copyf] at h
  rcases hsrc : host src with _ | c | ⟨s, plain⟩
  · rw [hsrc] at h
    cases h
  · rw [hsrc] at h
    refine ⟨.file c, rfl, ?_⟩
    change (if endsSlash (stripSlash dst.text) then _ else _) = _ at h
    rw [placeOf]
    by_cases hslash : endsSlash (stripSlash dst.text) = true
    · rw [if_pos hslash] at h ⊢
      rcases hdirs : ensuredirs (names (stripSlash dst.text)) t with e | t₁
      · rw [hdirs] at h
        cases h
      · rw [hdirs] at h
        change copy _ _ c t₁ = _ at h
        rw [copy] at h
        split at h
        · exact (copyfile_copied h).of_grows (ensuredirs_grows hdirs)
        · cases h
    · rw [if_neg hslash] at h ⊢
      rcases hdirs : ensuredirs (names (dirname (stripSlash dst.text))) t with e | t₁
      · rw [hdirs] at h
        cases h
      · rw [hdirs] at h
        exact (copyfile_copied h).of_grows (ensuredirs_grows hdirs)
  · rw [hsrc] at h
    exact ⟨.dir s plain, rfl, copytree_copied plain h⟩

/-! ## All copies, none of them in the way of another -/

/-- What is there when these sources have been copied, into whatever there was. -/
structure Ran (host : Text → Option (Source C)) (es : List (Text × Dst)) (t : Root C) : Prop where
  found : ∀ e ∈ es, ∃ s, host e.1 = some s
  dirs : ∀ e ∈ es, ∀ s rel, host e.1 = some s → s.node rel = some .dir →
    t.node (placeOf e.1 e.2 s ++ rel) = some .dir
  files : ∀ q c, Writes host es q c → ∃ l, t.node q = some (.leaf l)
  leaves : ∀ q l, t.node q = some (.leaf l) → ∃ c, l = .file c ∧ Writes host es q c

/-- Nothing has been copied into the empty tree. -/
theorem ran_empty (host : Text → Option (Source C)) : Ran host [] PathTree.empty where
  found _ h := absurd h List.not_mem_nil
  dirs _ h := absurd h List.not_mem_nil
  files := fun _ _ ⟨_, h, _⟩ => absurd h List.not_mem_nil
  leaves q l h := by
    cases q with
    | nil => cases h
    | cons x q => cases h

/-- A source has no links. -/
theorem Source.leaf_is_file (s : Source C) {rel : List Text} {l : Leaf C} (h : s.node rel = some (.leaf l)) :
    ∃ c, l = .file c := by
  cases l with
  | file c => exact ⟨c, rfl⟩
  | link target =>
      cases s with
      | file c =>
          rw [Source.node] at h
          split at h
          · cases h
          · cases h
      | dir s plain => exact absurd h (plain rel target)

/-- What is written by one copy more. -/
theorem writes_append {es : List (Text × Dst)} {e : Text × Dst} {q : List Text} {c : C} :
    Writes host (es ++ [e]) q c ↔ Writes host es q c ∨ Writes host [e] q c := by
  constructor
  · rintro ⟨e', he', s, rel, h⟩
    rcases List.mem_append.mp he' with he' | he'
    · exact .inl ⟨e', he', s, rel, h⟩
    · exact .inr ⟨e', he', s, rel, h⟩
  · rintro (⟨e', he', s, rel, h⟩ | ⟨e', he', s, rel, h⟩)
    · exact ⟨e', List.mem_append_left _ he', s, rel, h⟩
    · exact ⟨e', List.mem_append_right _ he', s, rel, h⟩

/-- **One more copy**: what it replaces, it replaces by a file. -/
theorem ran_copyf {es : List (Text × Dst)} {e : Text × Dst} (hran : Ran host es t)
    (h : copyf host t e.1 e.2 = .ok t') : Ran host (es ++ [e]) t' := by
  obtain ⟨s, hs, hcopied⟩ := copyf_copied h
  constructor
  · intro e' he'
    rcases List.mem_append.mp he' with he' | he'
    · exact hran.found e' he'
    · rw [List.mem_singleton.mp he']
      exact ⟨s, hs⟩
  · intro e' he' s' rel hs' hdir
    rcases List.mem_append.mp he' with he' | he'
    · exact hcopied.dirs _ (hran.dirs e' he' s' rel hs' hdir)
    · rw [List.mem_singleton.mp he'] at hs' ⊢
      cases hs.symm.trans hs'
      exact hcopied.holds rel _ hdir
  · intro q c hwrites
    -- a file that was there is still there, or another one is in its place
    rcases writes_append.mp hwrites with hold | ⟨e', he', s', rel, hs', rfl, hfile⟩
    · obtain ⟨l, hl⟩ := hran.files q c hold
      rcases hcopied.files q l hl with hl | ⟨rel, c', rfl, hfile⟩
      · exact ⟨l, hl⟩
      · exact ⟨_, hcopied.holds rel _ hfile⟩
    · rw [List.mem_singleton.mp he'] at hs' ⊢
      cases hs.symm.trans hs'
      exact ⟨_, hcopied.holds rel _ hfile⟩
  · intro q l hl
    rcases hcopied.leaves q l hl with hl | ⟨rel, rfl, hleaf⟩
    · obtain ⟨c, rfl, hwrites⟩ := hran.leaves q l hl
      exact ⟨c, rfl, writes_append.mpr (.inl hwrites)⟩
    · obtain ⟨c, rfl⟩ := s.leaf_is_file hleaf
      exact ⟨c, rfl, writes_append.mpr (.inr ⟨e, List.mem_singleton_self e, s, rel, hs, rfl, hleaf⟩)⟩

/-- **The loop over the files** runs, by induction on them. -/
theorem ran_copyFiles {es fs : List (Text × Dst)} (hran : Ran host es t) (h : copyFiles host fs t = .ok t') :
    Ran host (es ++ fs) t' := by
  induction fs generalizing es t with
  | nil =>
      cases h
      rwa [List.append_nil]
  | cons e fs ih =>
      rw [copyFiles] at h
      rcases hcopy : copyf host t e.1 e.2 with err | t₁
      · rw [hcopy] at h
        cases h
      · rw [hcopy] at h
        have hrest := ih (ran_copyf hran hcopy) h
        rwa [List.append_assoc] at hrest

/-- **The loop over the optional files** copies those that are there, by induction on them. -/
theorem ran_copyOptional {es fs : List (Text × Dst)} (hran : Ran host es t)
    (h : copyOptional host fs t = .ok t') :
    Ran host (es ++ fs.filter fun e => (host e.1).isSome) t' := by
  induction fs generalizing es t with
  | nil =>
      cases h
      rwa [List.filter_nil, List.append_nil]
  | cons e fs ih =>
      rw [copyOptional] at h
      by_cases hfound : (host e.1).isSome = true
      · rw [if_pos hfound] at h
        rw [List.filter_cons, if_pos hfound]
        rcases hcopy : copyf host t e.1 e.2 with err | t₁
        · rw [hcopy] at h
          cases h
        · rw [hcopy] at h
          have hrest := ih (ran_copyf hran hcopy) h
          rwa [List.append_assoc] at hrest
      · rw [if_neg hfound] at h
        rw [List.filter_cons, if_neg hfound]
        exact ih hran h

/-! ## Links -/

/-- A path crosses a link when something on it is one. -/
theorem crosses_iff {path : List Text} :
    crosses t path = true ↔ ∃ q, q <+: path ∧ ∃ target, t.node q = some (.leaf (.link target)) := by
  rw [crosses, List.any_eq_true]
  refine exists_congr fun q => ?_
  rw [List.mem_inits]
  refine and_congr_right fun _ => ?_
  rcases t.node q with _ | _ | c | target
  · exact iff_of_false Bool.false_ne_true nofun
  · exact iff_of_false Bool.false_ne_true nofun
  · exact iff_of_false Bool.false_ne_true nofun
  · exact iff_of_true rfl ⟨target, rfl⟩

/-- Links are added where nothing is. -/
structure Linked (t t' : Root C) : Prop where
  keeps : ∀ q n, t.node q = some n → t'.node q = some n
  files : ∀ q c, t'.node q = some (.leaf (.file c)) → t.node q = some (.leaf (.file c))

/-- Links behind links. -/
theorem Linked.trans {t₁ : Root C} (h : Linked t t₁) (h' : Linked t₁ t') : Linked t t' :=
  ⟨fun q n hn => h'.keeps q n (h.keeps q n hn), fun q c hc => h.files q c (h'.files q c hc)⟩

/-- One link is made. -/
theorem addLink_linked {path : List Text} {target : Text} (h : addLink path target t = .ok t') :
    Linked t t' ∧ ∀ q, t'.node q = if q = path then some (.leaf (.link target)) else t.node q := by
  rw [addLink] at h
  split at h
  · next hnone =>
      cases h
      refine ⟨⟨fun q n hn => ?_, fun q c hc => ?_⟩, fun q => rfl⟩
      · rw [PathTree.node_addLeaf, if_neg, hn]
        rintro rfl
        rw [hnone.2] at hn
        cases hn
      · rw [PathTree.node_addLeaf] at hc
        split at hc
        · cases hc
        · exact hc
  · cases h

variable {th : Through C}

/-- **One link**: it is made on its path, if that goes through no other link. -/
theorem symlink_linked {link : Dst} {target : Text} (h : symlink th t link target = .ok t') :
    Linked t t' ∧ (crosses t (names link.text).dropLast = false → ∀ q, t'.node q =
      if q = names link.text then some (.leaf (.link target)) else t.node q) := by
  rw [symlink] at h
  split at h
  · cases h
  · by_cases hcross : crosses t (names link.text).dropLast = true
    · rw [if_pos hcross] at h
      refine ⟨?_, fun hfalse => absurd (hfalse.symm.trans hcross) Bool.false_ne_true⟩
      rcases hmade : th.symlink t (names link.text) with _ | _ | path
      · rw [hmade] at h
        cases h
      · rw [hmade] at h
        cases h
        exact ⟨fun _ _ h => h, fun _ _ h => h⟩
      · rw [hmade] at h
        exact (addLink_linked h).1
    · rw [if_neg hcross] at h
      exact ⟨(addLink_linked h).1, fun _ => (addLink_linked h).2⟩

/-- **The loop over the links** makes links only, by induction on them. -/
theorem makeLinks_linked {ls : List (Dst × Text)} (h : makeLinks th ls t = .ok t') : Linked t t' := by
  induction ls generalizing t with
  | nil =>
      cases h
      exact ⟨fun _ _ h => h, fun _ _ h => h⟩
  | cons l ls ih =>
      obtain ⟨link, target⟩ := l
      rw [makeLinks] at h
      rcases hlink : symlink th t link target with e | t₁
      · rw [hlink] at h
        cases h
      · rw [hlink] at h
        exact (symlink_linked hlink).1.trans (ih h)

/-- **All links**, if none goes through another: each is on its path. -/
theorem makeLinks_straight {before ls : List (Dst × Text)} (hstraight : Straight (before ++ ls))
    (hbefore : ∀ q target, t.node q = some (.leaf (.link target)) → ∃ l ∈ before, names l.1.text = q)
    (h : makeLinks th ls t = .ok t') : ∀ l ∈ ls, t'.node (names l.1.text) = some (.leaf (.link l.2)) := by
  induction ls generalizing t before with
  | nil => exact fun l hl => absurd hl List.not_mem_nil
  | cons l ls ih =>
      obtain ⟨link, target⟩ := l
      rw [makeLinks] at h
      rcases hlink : symlink th t link target with e | t₁
      · rw [hlink] at h
        cases h
      · rw [hlink] at h
        -- the links so far are those in front, and none of them is over this one
        have hcross : crosses t (names link.text).dropLast = false := by
          rw [Bool.eq_false_iff]
          intro hcross
          obtain ⟨q, hq, target', htarget⟩ := crosses_iff.mp hcross
          obtain ⟨l', hl', rfl⟩ := hbefore q target' htarget
          have heq : names l'.1.text = names link.text :=
            hstraight (link, target) (List.mem_append_right _ List.mem_cons_self) l'
              (List.mem_append_left _ hl') (hq.trans (List.dropLast_prefix _))
          rw [heq] at hq htarget
          have hlength := hq.length_le
          rw [List.length_dropLast] at hlength
          have hnil : names link.text = [] := List.length_eq_zero_iff.mp (by omega)
          rw [hnil, t.root] at htarget
          cases htarget
        obtain ⟨-, hnode⟩ := symlink_linked hlink
        have hnode := hnode hcross
        have hstraight' : Straight ((before ++ [(link, target)]) ++ ls) := by
          rw [List.append_assoc]
          exact hstraight
        have hrest := ih hstraight' (fun q target' htarget => ?_) h
        · intro l hl
          rcases List.mem_cons.mp hl with rfl | hl
          · refine (makeLinks_linked h).keeps _ _ ?_
            rw [hnode, if_pos rfl]
          · exact hrest l hl
        · rw [hnode] at htarget
          split at htarget
          · next heq =>
              exact ⟨(link, target), List.mem_append_right _ (List.mem_singleton_self _), heq.symm⟩
          · obtain ⟨l', hl', heq⟩ := hbefore q target' htarget
            exact ⟨l', List.mem_append_left _ hl', heq⟩

/-- Links that are all on their paths do not go through each other. -/
theorem straight_of_links {ls : List (Dst × Text)}
    (h : ∀ l ∈ ls, t.node (names l.1.text) = some (.leaf (.link l.2))) : Straight ls := by
  intro l hl l' hl' hprefix
  by_contra hne
  have hdir := PathTree.dir_above (h l hl) hprefix hne
  rw [h l' hl'] at hdir
  cases hdir

/-! ## The documents -/

/-- The directory of the documents is made over everything that is there. -/
theorem makeDocpath_spec {path : List Text} {root : List Text → Option (Node (Leaf C))}
    (h : makeDocpath th path t = .ok root) : (∀ q n, t.node q = some n → root q = some n) ∧
      ∀ q l, root q = some (.leaf l) → t.node q = some (.leaf l) := by
  rw [makeDocpath] at h
  split at h
  · split at h
    · cases h
      exact ⟨fun _ _ h => h, fun _ _ h => h⟩
    · rcases hdirs : th.makedirs t path with _ | dirs
      · rw [hdirs] at h
        cases h
      · rw [hdirs] at h
        cases h
        refine ⟨fun q n hn => ?_, fun q l hl => ?_⟩
        · show (t.node q).or _ = _
          rw [hn, Option.some_or]
        · change (t.node q).or (if q ∈ dirs then some .dir else none) = _ at hl
          rcases hn : t.node q with _ | n
          · rw [hn, Option.none_or] at hl
            split at hl
            · cases hl
            · cases hl
          · rwa [hn, Option.some_or] at hl
  · rcases hdirs : ensuredirs path t with e | t₁
    · rw [hdirs] at h
      cases h
    · rw [hdirs] at h
      cases h
      have hgrows := ensuredirs_grows hdirs
      exact ⟨hgrows.keeps, hgrows.leaves⟩

/-- Where the loop over the documents returns they are all there. -/
theorem copyDocs_found {docs : List Text} (h : copyDocs host docs = .ok ()) :
    ∀ src ∈ docs, ∃ s, host src = some s := by
  induction docs with
  | nil => exact fun src hsrc => absurd hsrc List.not_mem_nil
  | cons src docs ih =>
      rw [copyDocs] at h
      split at h
      · cases h
      · next hfound =>
          intro src' hsrc'
          rcases List.mem_cons.mp hsrc' with rfl | hsrc'
          · exact Option.ne_none_iff_exists'.mp fun hnone => hfound (by rw [hnone]; rfl)
          · exact ih h src' hsrc'

/-! ## The result: when everything listed is in the package -/

/-- What a build went through. -/
structure Went (host : Text → Option (Source C)) (th : Through C) (pkg : Package) (b : Built C)
    (t t' : Root C) : Prop where
  ran : Ran host (sources host pkg) t
  links : makeLinks th pkg.links t = .ok t'
  keeps : ∀ q n, t'.node q = some n → b.root q = some n
  leaves : ∀ q l, b.root q = some (.leaf l) → t'.node q = some (.leaf l)
  docs : ∀ src ∈ pkg.docs, ∃ s, host src = some s
  workdir : ∀ file, b.workdir file = none

/-- What `build` has done when it returns. -/
theorem build_went {pkg : Package} {b : Built C} (h : build host th pkg = .ok b) :
    ∃ t t', Went host th pkg b t t' := by
  rw [build] at h
  rcases hfiles : copyFiles host pkg.files PathTree.empty with e | t₁
  · rw [hfiles] at h
    cases h
  rw [hfiles] at h
  change copyOptional host pkg.optionalFiles t₁ >>= _ = _ at h
  rcases hoptional : copyOptional host pkg.optionalFiles t₁ with e | t₂
  · rw [hoptional] at h
    cases h
  rw [hoptional] at h
  change makeLinks th pkg.links t₂ >>= _ = _ at h
  rcases hlinks : makeLinks th pkg.links t₂ with e | t₃
  · rw [hlinks] at h
    cases h
  rw [hlinks] at h
  change makeDocpath th (docpath pkg.name) t₃ >>= _ = _ at h
  rcases hdocpath : makeDocpath th (docpath pkg.name) t₃ with e | root
  · rw [hdocpath] at h
    cases h
  rw [hdocpath] at h
  change copyDocs host pkg.docs >>= _ = _ at h
  rcases hdocs : copyDocs host pkg.docs with e | u
  · rw [hdocs] at h
    cases h
  rw [hdocs] at h
  cases h
  obtain ⟨hkeeps, hleaves⟩ := makeDocpath_spec hdocpath
  exact ⟨t₂, t₃, ran_copyOptional (ran_copyFiles (ran_empty host) hfiles) hoptional, hlinks, hkeeps, hleaves,
    copyDocs_found hdocs, fun _ => rfl⟩

variable {pkg : Package} {b : Built C}

/-- A file in the root is the file of a source. -/
theorem Went.writes {t₁ t₂ : Root C} (h : Went host th pkg b t₁ t₂) {q : List Text} {c : C}
    (hq : b.root q = some (.leaf (.file c))) : Writes host (sources host pkg) q c := by
  obtain ⟨c', hc', hwrites⟩ := h.ran.leaves q _ ((makeLinks_linked h.links).files q c (h.leaves q _ hq))
  cases hc'
  exact hwrites

/-- The file of a source is in the root, if no other source has another one for its place. -/
theorem Went.root_of_writes {t₁ t₂ : Root C} (h : Went host th pkg b t₁ t₂)
    (hfiles : ∀ q c c', Writes host (sources host pkg) q c → Writes host (sources host pkg) q c' → c = c')
    {q : List Text} {c : C} (hwrites : Writes host (sources host pkg) q c) :
    b.root q = some (.leaf (.file c)) := by
  obtain ⟨l, hl⟩ := h.ran.files q c hwrites
  obtain ⟨c', rfl, hwrites'⟩ := h.ran.leaves q l hl
  rw [hfiles q c c' hwrites hwrites']
  exact h.keeps q _ ((makeLinks_linked h.links).keeps q _ hl)

/-- A source that was copied is there, if no other one wrote to its place. -/
theorem Went.holds {t₁ t₂ : Root C} (h : Went host th pkg b t₁ t₂)
    (hfiles : ∀ q c c', Writes host (sources host pkg) q c → Writes host (sources host pkg) q c' → c = c')
    {e : Text × Dst} (he : e ∈ sources host pkg) : Holds host b.root e := by
  obtain ⟨s, hs⟩ := h.ran.found e he
  refine ⟨s, hs, fun rel n hn => ?_⟩
  cases n with
  | dir => exact h.keeps _ _ ((makeLinks_linked h.links).keeps _ _ (h.ran.dirs e he s rel hs hn))
  | leaf l =>
      obtain ⟨c, rfl⟩ := s.leaf_is_file hn
      exact h.root_of_writes hfiles ⟨e, he, s, rel, hs, rfl, hn⟩

/-- Sources that are all in the root have no two files for one place. -/
theorem files_of_holds (h : ∀ e ∈ sources host pkg, Holds host b.root e) {q : List Text} {c : C}
    (hwrites : Writes host (sources host pkg) q c) : b.root q = some (.leaf (.file c)) := by
  obtain ⟨e, he, s, rel, hs, rfl, hn⟩ := hwrites
  obtain ⟨s', hs', hholds⟩ := h e he
  cases hs.symm.trans hs'
  exact hholds rel _ hn

/-- **A package that is built contains everything** exactly if the sources do not replace each other, no link
goes through another, the documents are among the sources, and neither copyright nor changelog is given. -/
theorem contains_iff (host : Text → Option (Source C)) (ofText : Text → C) (th : Through C) (pkg : Package)
    (b : Built C) (h : build host th pkg = .ok b) : Contains host ofText pkg b ↔ Fits host pkg := by
  obtain ⟨t, t', hwent⟩ := build_went h
  constructor
  · intro hc
    have hsources : ∀ e ∈ sources host pkg, Holds host b.root e := by
      intro e he
      rcases List.mem_append.mp he with he | he
      · exact hc.files e he
      · obtain ⟨he, hfound⟩ := List.mem_filter.mp he
        exact hc.optionalFiles e he hfound
    refine ⟨fun q c c' hw hw' => ?_, ?_, fun src hsrc s rel c hs hn => ?_, ?_, ?_⟩
    · have heq := (files_of_holds hsources hw).symm.trans (files_of_holds hsources hw')
      cases heq
      rfl
    · exact straight_of_links fun l hl => hwent.leaves _ _ (hc.links l hl)
    · obtain ⟨s', hs', hdoc⟩ := hc.docs src hsrc
      cases hs.symm.trans hs'
      exact hwent.writes (hdoc rel c hn)
    · by_contra hne
      obtain ⟨src, hsrc⟩ := Option.ne_none_iff_exists'.mp hne
      obtain ⟨c, -, hfile⟩ := hc.copyright src hsrc
      rw [hwent.workdir] at hfile
      cases hfile
    · by_contra hne
      obtain ⟨src, hsrc⟩ := Option.ne_none_iff_exists'.mp hne
      obtain ⟨c, -, hfile⟩ := hc.changelog src hsrc
      rw [hwent.workdir] at hfile
      cases hfile
  · intro hf
    refine ⟨fun e he => ?_, fun e he hfound => ?_, fun l hl => ?_, fun src hsrc => ?_, fun src hsrc => ?_,
      fun src hsrc => ?_⟩
    · exact hwent.holds hf.files (List.mem_append_left _ he)
    · exact hwent.holds hf.files (List.mem_append_right _ (List.mem_filter.mpr ⟨he, hfound⟩))
    · have hstraight : Straight ([] ++ pkg.links) := hf.links
      refine hwent.keeps _ _ (makeLinks_straight hstraight (fun q target hq => ?_) hwent.links l hl)
      obtain ⟨c, hc, -⟩ := hwent.ran.leaves q _ hq
      cases hc
    · obtain ⟨s, hs⟩ := hwent.docs src hsrc
      exact ⟨s, hs, fun rel c hn => hwent.root_of_writes hf.files (hf.docs src hsrc s rel c hs hn)⟩
    · rw [hf.copyright] at hsrc
      cases hsrc
    · rw [hf.changelog] at hsrc
      cases hsrc

end

/-! ## Two packages -/

/-- A system on which nothing is done through links. -/
def refusing : Through Nat where
  symlink _ _ := none
  found _ _ := false
  makedirs _ _ := none

/-- There is one file. -/
def oneFile (src : Text) : Option (Source Nat) := if src = "README".toList then some (.file 7) else none

/-- `/opt/`. -/
def optDir : Dst := ⟨"/opt/".toList, by decide, by decide⟩

/-- A package with one file. -/
def filePackage : Package := ⟨"a".toList, [("README".toList, optDir)], [], [], [], none, none⟩

/-- A package with one document. -/
def docPackage : Package := ⟨"a".toList, [], [], [], ["README".toList], none, none⟩

/-- Every file there is holds the same. -/
theorem filePackage_fits : Fits oneFile filePackage := by
  have hseven : ∀ {q c}, Writes oneFile (sources oneFile filePackage) q c → c = 7 := by
    rintro q c ⟨e, -, s, rel, hs, -, hc⟩
    rw [oneFile] at hs
    split at hs
    · cases hs
      rw [Source.node] at hc
      split at hc
      · cases hc
        rfl
      · cases hc
    · cases hs
  constructor
  · intro q c c' h h'
    rw [hseven h, hseven h']
  · intro l hl
    cases hl
  · intro src hsrc
    cases hsrc
  · rfl
  · rfl

/-- **The one file is in the package.** -/
theorem contains_file : ∃ b, build oneFile refusing filePackage = .ok b ∧
    Contains oneFile List.length filePackage b :=
  ⟨_, rfl, (contains_iff oneFile List.length refusing filePackage _ rfl).mpr filePackage_fits⟩

/-- **A document** is not in the package. -/
theorem doc_not_copied : ¬ ∀ b, build oneFile refusing docPackage = .ok b →
    Contains oneFile List.length docPackage b := fun h => by
  obtain ⟨b, hb⟩ : ∃ b, build oneFile refusing docPackage = .ok b := ⟨_, rfl⟩
  obtain ⟨t, t', hwent⟩ := build_went hb
  obtain ⟨s, hs, hdoc⟩ := (h b hb).docs "README".toList List.mem_cons_self
  cases hs
  obtain ⟨e, he, -⟩ := hwent.writes (hdoc [] 7 rfl)
  exact List.not_mem_nil he

end DentOS.OnlPackage
