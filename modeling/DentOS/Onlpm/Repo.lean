/-
  The package repository of onlpm (tools/onlpm.py): `OnlPackageRepoUnlocked`, its
  `add_packages`, `remove_packages`, `lookup_all` and `lookup`.

  A repository is a directory `binary-<arch>` for every architecture, and a directory the names of
  its files (`Repo`); a directory that does not exist has none.  The order of `os.listdir` is no more
  than the order of a list, and nothing is proved from it.  A path is the architecture of its
  directory and the name.  What an add is given may be a file outside of the repository or one of its
  own (`Place`): the old versions are unlinked before the copy is made, so that the copy of a file that
  went with them raises.  Nothing else goes wrong with a file.

  Adding takes a file name apart at its underscores; looking up searches the name for a text.  What
  adds and removals keep is `Valid`: the files are package files of their directory, and a package has
  at most one (`valid_run`).

  Not modelled: the pattern characters of `glob` in the path of the repository itself, and the cache of
  extracted packages, which no lookup reads (Onlpm.Extract).
-/
import Mathlib.Data.List.Infix
import Mathlib.Data.List.Nodup
import DentOS.Lib.PyText

namespace DentOS.Onlpm

open PyText

/-! ## Names of package files, and their parts -/

/-- `os.path.basename(p)`. -/
def basename (p : Text) : Text := (p.splitOn '/').getLast (List.splitOn_ne_nil '/' p)

/-- `x.split('_')`. -/
def pieces (x : Text) : List Text := x.splitOn '_'

/-- A name has a piece at least. -/
theorem pieces_ne_nil (x : Text) : pieces x ≠ [] := List.splitOn_ne_nil '_' x

/-- The package of a file name: what stands in front of its first underscore. -/
def package (x : Text) : Text := (pieces x).head (pieces_ne_nil x)

/-- The architecture: what stands behind the last underscore, up to a dot. -/
def archOf (x : Text) : Text :=
  (((pieces x).getLast (pieces_ne_nil x)).splitOn '.').head (List.splitOn_ne_nil '.' _)

/-- What a package file ends in. -/
def debSuffix : Text := ".deb".toList

/-- `glob` with `"%s_*.deb" % package`, for a package without pattern characters. -/
def globDeb (package x : Text) : Bool :=
  (package ++ ['_']).isPrefixOf x && debSuffix.isSuffixOf (x.drop (package.length + 1))

/-! ## The repository: add, remove, look up -/

/-- The files below `binary-<arch>`. -/
abbrev Repo := Text → List Text

/-- The architecture of the directory, and the name in it. -/
abbrev Path := Text × Text

/-- What the repository raises. -/
inductive RepoError where
  | valueError
  | packageError
  | copyError
  deriving DecidableEq

/-- No file is in the repository. -/
def Repo.empty : Repo := fun _ => []

/-- The files of one architecture. -/
def Repo.setDir (repo : Repo) (arch : Text) (files : List Text) : Repo :=
  fun a => if a = arch then files else repo a

/-- Where a path given to `add_packages` leads: to a file outside of the repository, if it is there, or to
    one of the repository's own, by its name or through a link. -/
inductive Place where
  | outside (present : Bool)
  | inside (path : Path)
  deriving DecidableEq

/-- A path given to `add_packages`. -/
structure Source where
  /-- The path as it was given. -/
  path : Text
  /-- Where it leads. -/
  place : Place

/-- `os.path.exists(p)`. -/
def Place.there (repo : Repo) : Place → Bool
  | .outside present => present
  | .inside q => decide (q.2 ∈ repo q.1)

/-- The path that `p` is copied to. -/
def target (p : Text) : Path := (archOf (basename p), basename p)

/-- "Remove any existing versions of this package." -/
def removeExisting (repo : Repo) (p : Text) : Repo :=
  repo.setDir (archOf (basename p))
    ((repo (archOf (basename p))).filter fun x => ¬ globDeb (package (basename p)) x)

/-- One pass of the loop of `add_packages`, for a path that exists. -/
def addPackage (repo : Repo) (src : Source) : Except RepoError Unit × Repo :=
  let left := removeExisting repo src.path
  -- `shutil.copy` raises where its source is gone by now, or is the copy itself
  if src.place.there left ∧ src.place ≠ .inside (target src.path) then
    (.ok (), left.setDir (target src.path).1 ((left (target src.path).1).insert (target src.path).2))
  else (.error .copyError, left)

/-- `add_packages`. -/
def addPackages : List Source → Repo → Except RepoError Unit × Repo
  | [], repo => (.ok (), repo)
  | src :: srcs, repo =>
      if src.place.there repo then
        match addPackage repo src with
        | (.ok (), repo') => addPackages srcs repo'
        | (.error e, repo') => (.error e, repo')
      else (.error .packageError, repo)

/-- `OnlPackage.idparse`, and the pair that its caller takes it apart to. -/
def idparse (pkg : Text) : Except RepoError (Text × Text) :=
  match pkg.splitOn ':' with
  | [name, arch] => .ok (name, arch)
  | _ => .error .valueError

/-- `arch in x and "%s_" % name in x`. -/
def matching (name arch x : Text) : Bool := decide (arch <:+: x) && decide (name ++ ['_'] <:+: x)

/-- `lookup_all`. -/
def lookupAll (repo : Repo) (pkg : Text) : Except RepoError (List Path) :=
  match idparse pkg with
  | .error e => .error e
  | .ok (name, arch) => .ok (((repo arch).filter (matching name arch)).map fun x => (arch, x))

/-- `lookup`: the first file that is found. -/
def lookup (repo : Repo) (pkg : Text) (ex : Bool) : Except RepoError (Option Path) :=
  match lookupAll repo pkg with
  | .error e => .error e
  | .ok [] => if ex then .error .packageError else .ok none
  | .ok [r] => .ok (some r)
  | .ok _ => if ex then .error .packageError else .ok none

/-- `os.unlink(path)`. -/
def unlink (repo : Repo) (path : Path) : Repo := repo.setDir path.1 ((repo path.1).erase path.2)

/-- `remove_packages`. -/
def removePackages : List Text → Repo → Except RepoError Unit × Repo
  | [], repo => (.ok (), repo)
  | p :: ps, repo =>
      match lookup repo p false with
      | .error e => (.error e, repo)
      | .ok none => removePackages ps repo
      | .ok (some path) => removePackages ps (unlink repo path)

/-- One call. -/
inductive Op where
  | add (srcs : List Source)
  | remove (pkgs : List Text)

/-- What a call leaves, whether it returns or raises. -/
def Op.apply (repo : Repo) : Op → Repo
  | .add srcs => (addPackages srcs repo).2
  | .remove pkgs => (removePackages pkgs repo).2

/-- A sequence of calls on a new repository. -/
def run (ops : List Op) : Repo := ops.foldl Op.apply Repo.empty

/-! ## Package files that are read as they are written -/

/-- A package identifier, `name:arch`, that is read as it is written: by `idparse`, in a file name, and in
    the pattern of an add. -/
structure PkgId where
  /-- The name of the package. -/
  name : Text
  /-- Its architecture. -/
  arch : Text
  /-- No character of the name means something to one of the three. -/
  name_plain : ∀ c ∈ name, c ∉ ['_', ':', '/', '*', '?', '[']
  /-- No character of the architecture does. -/
  arch_plain : ∀ c ∈ arch, c ∉ ['_', ':', '/', '.', '*', '?', '[']

/-- `name:arch`. -/
def PkgId.text (id : PkgId) : Text := id.name ++ ':' :: id.arch

/-- A package file, `name_version_arch.deb`. -/
structure PkgFile where
  /-- The identifier of the package. -/
  id : PkgId
  /-- Its version. -/
  version : Text
  /-- The version stays in its directory. -/
  version_plain : '/' ∉ version

/-- `name_version_arch.deb`. -/
def PkgFile.file (f : PkgFile) : Text :=
  f.id.name ++ '_' :: (f.version ++ '_' :: (f.id.arch ++ debSuffix))

/-- The letters that are not in a name. -/
theorem PkgId.not_mem_name (id : PkgId) {c : Char} (hc : c ∈ ['_', ':', '/', '*', '?', '[']) :
    c ∉ id.name := fun h => id.name_plain c h hc

/-- The letters that are not in an architecture. -/
theorem PkgId.not_mem_arch (id : PkgId) {c : Char} (hc : c ∈ ['_', ':', '/', '.', '*', '?', '[']) :
    c ∉ id.arch := fun h => id.arch_plain c h hc

/-- An identifier is read back. -/
theorem idparse_text (id : PkgId) : idparse id.text = .ok (id.name, id.arch) := by
  have hsplit : id.text.splitOn ':' = [id.name, id.arch] := by
    rw [PkgId.text, List.splitOn_append_cons_self_of_not_mem (id.not_mem_name (by decide)),
      List.splitOn_eq_singleton (id.not_mem_arch (by decide))]
  rw [idparse, hsplit]

/-- A dot and three letters. -/
theorem debSuffix_eq : debSuffix = '.' :: ['d', 'e', 'b'] := by decide

/-- The pieces of a package file. -/
theorem pieces_file (f : PkgFile) :
    pieces f.file = f.id.name :: (f.version.splitOn '_' ++ [f.id.arch ++ debSuffix]) := by
  have harch : '_' ∉ f.id.arch ++ debSuffix := by
    intro h
    rcases List.mem_append.mp h with h | h
    · exact f.id.not_mem_arch (by decide) h
    · exact absurd h (by decide)
  rw [pieces, PkgFile.file, List.splitOn_append_cons_self_of_not_mem (f.id.not_mem_name (by decide)),
    List.splitOn_append_cons_self, List.splitOn_eq_singleton harch]

/-- The name is read back from the file's name. -/
theorem package_file (f : PkgFile) : package f.file = f.id.name := by
  simp only [package, pieces_file, List.head_cons]

/-- The architecture of a file name is read as it was written. -/
theorem archOf_file (f : PkgFile) : archOf f.file = f.id.arch := by
  have hlast : (pieces f.file).getLast (pieces_ne_nil _) = f.id.arch ++ debSuffix := by
    simp only [pieces_file, ← List.cons_append, List.getLast_append_singleton]
  have hsplit : (f.id.arch ++ debSuffix).splitOn '.' = f.id.arch :: ['d', 'e', 'b'].splitOn '.' := by
    rw [debSuffix_eq]
    exact List.splitOn_append_cons_self_of_not_mem (f.id.not_mem_arch (by decide)) _
  simp only [archOf, hlast, hsplit, List.head_cons]

/-- A file is found by the glob of its name. -/
theorem globDeb_file (f : PkgFile) : globDeb f.id.name f.file = true := by
  have hdrop : f.file.drop (f.id.name.length + 1) = f.version ++ '_' :: (f.id.arch ++ debSuffix) := by
    rw [PkgFile.file, List.drop_append, List.drop_of_length_le (Nat.le_succ _)]
    simp
  rw [globDeb, hdrop, Bool.and_eq_true]
  constructor
  · rw [List.isPrefixOf_iff_prefix]
    exact ⟨_, by rw [PkgFile.file, List.append_assoc]; rfl⟩
  · rw [List.isSuffixOf_iff_suffix]
    exact ⟨f.version ++ '_' :: f.id.arch, by rw [List.append_assoc]; rfl⟩

/-- **The pattern of an add** matches the files of the package, and no others. -/
theorem globDeb_iff {n : Text} (hn : '_' ∉ n) (f : PkgFile) :
    globDeb n f.file = true ↔ f.id.name = n := by
  constructor
  · intro h
    rw [globDeb, Bool.and_eq_true, List.isPrefixOf_iff_prefix] at h
    obtain ⟨⟨t, ht⟩, -⟩ := h
    have hpieces : pieces f.file = n :: t.splitOn '_' := by
      rw [← ht, List.append_assoc, List.singleton_append]
      exact List.splitOn_append_cons_self_of_not_mem hn t
    rw [pieces_file] at hpieces
    exact (List.cons.inj hpieces).1
  · rintro rfl
    exact globDeb_file f

/-! ## What a lookup matches: names that hold a text -/

/-- What stands in front of an underscore is found in the text that the pieces make. -/
theorem infix_intercalate {n piece : Text} (hn : n <:+ piece) : ∀ {ls : List Text},
    piece ∈ ls.dropLast → n ++ ['_'] <:+: ['_'].intercalate ls := by
  intro ls
  induction ls with
  | nil => exact fun h => absurd h List.not_mem_nil
  | cons l rest ih =>
      intro h
      by_cases hrest : rest = []
      · rw [hrest] at h
        exact absurd h List.not_mem_nil
      · rw [List.dropLast_cons_of_ne_nil hrest] at h
        rw [List.intercalate_cons_of_ne_nil hrest]
        rcases List.mem_cons.mp h with rfl | h
        · obtain ⟨u, hu⟩ := hn
          refine ⟨u, ['_'].intercalate rest, ?_⟩
          rw [← hu]
          simp only [List.append_assoc]
        · exact (ih h).trans (List.suffix_append _ _).isInfix

/-- A text without underscores, and an underscore, are found in a name where one of its pieces, but
    the last, ends with the text. -/
theorem infix_iff_pieces {n : Text} (hn : '_' ∉ n) (x : Text) :
    n ++ ['_'] <:+: x ↔ ∃ piece ∈ (pieces x).dropLast, n <:+ piece := by
  constructor
  · rintro ⟨u, t, rfl⟩
    rw [List.append_assoc, List.append_assoc, List.singleton_append]
    induction u with
    | nil =>
        refine ⟨n, ?_, List.suffix_refl n⟩
        rw [List.nil_append, pieces, List.splitOn_append_cons_self_of_not_mem hn,
          List.dropLast_cons_of_ne_nil (List.splitOn_ne_nil '_' t)]
        exact List.mem_cons_self
    | cons c u ih =>
        obtain ⟨piece, hpiece, hsuffix⟩ := ih
        rw [List.cons_append, pieces, List.splitOn_cons_eq_if_modifyHead]
        rw [pieces] at hpiece
        split
        · refine ⟨piece, ?_, hsuffix⟩
          rw [List.dropLast_cons_of_ne_nil (List.splitOn_ne_nil '_' _)]
          exact List.mem_cons_of_mem _ hpiece
        · rcases hsplit : (u ++ (n ++ '_' :: t)).splitOn '_' with _ | ⟨first, rest⟩
          · exact absurd hsplit (pieces_ne_nil _)
          · rw [hsplit] at hpiece
            by_cases hrest : rest = []
            · rw [hrest] at hpiece
              exact absurd hpiece List.not_mem_nil
            · rw [List.dropLast_cons_of_ne_nil hrest] at hpiece
              rw [List.modifyHead_cons, List.dropLast_cons_of_ne_nil hrest]
              rcases List.mem_cons.mp hpiece with rfl | hpiece
              · exact ⟨c :: piece, List.mem_cons_self, hsuffix.trans (List.suffix_cons c piece)⟩
              · exact ⟨piece, List.mem_cons_of_mem _ hpiece, hsuffix⟩
  · rintro ⟨piece, hpiece, hsuffix⟩
    have h := infix_intercalate hsuffix hpiece
    rwa [pieces, List.intercalate_splitOn] at h

/-- **What a lookup finds in a directory of its architecture.** -/
theorem matching_file {n : Text} (hn : '_' ∉ n) (f : PkgFile) :
    matching n f.id.arch f.file = true ↔ ∃ piece ∈ (pieces f.file).dropLast, n <:+ piece := by
  have harch : f.id.arch <:+: f.file := by
    refine ⟨f.id.name ++ '_' :: (f.version ++ ['_']), debSuffix, ?_⟩
    rw [PkgFile.file]
    simp only [List.append_assoc, List.cons_append, List.nil_append]
  rw [matching, decide_eq_true harch, Bool.true_and, decide_eq_true_eq, infix_iff_pieces hn]

/-- A file of the package is found. -/
theorem matching_own (f : PkgFile) : matching f.id.name f.id.arch f.file = true := by
  rw [matching_file (f.id.not_mem_name (by decide))]
  refine ⟨f.id.name, ?_, List.suffix_refl _⟩
  rw [pieces_file, List.dropLast_cons_of_ne_nil (List.append_ne_nil_of_right_ne_nil _ (List.cons_ne_nil _ _))]
  exact List.mem_cons_self

/-! ## The repositories that there are: what adds and removals keep -/

/-- **The invariant**: the files are package files of their directory, and a package has one. -/
structure Valid (repo : Repo) : Prop where
  named : ∀ a x, x ∈ repo a → ∃ f : PkgFile, x = f.file ∧ f.id.arch = a
  unique : ∀ a x y, x ∈ repo a → y ∈ repo a → package x = package y → x = y
  nodup : ∀ a, (repo a).Nodup

/-- The empty repository is valid. -/
theorem valid_empty : Valid Repo.empty :=
  ⟨fun _ _ h => absurd h List.not_mem_nil, fun _ _ _ h => absurd h List.not_mem_nil,
    fun _ => List.nodup_nil⟩

/-- The files that are left: those of the other packages. -/
theorem mem_removeExisting {repo : Repo} (hvalid : Valid repo) {f : PkgFile} {p : Text}
    (hp : basename p = f.file) {a x : Text} :
    x ∈ removeExisting repo p a ↔ x ∈ repo a ∧ ¬ (a = f.id.arch ∧ package x = f.id.name) := by
  rw [removeExisting, hp, archOf_file, package_file, Repo.setDir]
  by_cases ha : a = f.id.arch
  · subst ha
    rw [if_pos rfl, List.mem_filter]
    refine and_congr_right fun hx => ?_
    obtain ⟨f', rfl, -⟩ := hvalid.named _ x hx
    rw [decide_eq_true_eq, globDeb_iff (f.id.not_mem_name (by decide)), package_file]
    exact ⟨fun hnot h => hnot h.2, fun hnot h => hnot ⟨rfl, h⟩⟩
  · rw [if_neg ha]
    exact ⟨fun hx => ⟨hx, fun h => ha h.1⟩, And.left⟩

/-- A repository stays valid when the files of a package go. -/
theorem valid_removeExisting {repo : Repo} (hvalid : Valid repo) {f : PkgFile} {p : Text}
    (hp : basename p = f.file) : Valid (removeExisting repo p) := by
  have hmem : ∀ {a x}, x ∈ removeExisting repo p a → x ∈ repo a := fun hx =>
    ((mem_removeExisting hvalid hp).mp hx).1
  refine ⟨fun a x hx => hvalid.named a x (hmem hx),
    fun a x y hx hy => hvalid.unique a x y (hmem hx) (hmem hy), fun a => ?_⟩
  rw [removeExisting, Repo.setDir]
  split
  · exact (hvalid.nodup _).filter _
  · exact hvalid.nodup a

/-- The repository with the copy in it. -/
def withCopy (repo : Repo) (p : Text) : Repo :=
  (removeExisting repo p).setDir (target p).1 ((removeExisting repo p (target p).1).insert (target p).2)

/-- The files behind an add: the new one, and those of the other packages. -/
theorem mem_withCopy {repo : Repo} (hvalid : Valid repo) {f : PkgFile} {p : Text}
    (hp : basename p = f.file) {a x : Text} :
    x ∈ withCopy repo p a ↔
      (a = f.id.arch ∧ x = f.file) ∨ x ∈ repo a ∧ ¬ (a = f.id.arch ∧ package x = f.id.name) := by
  rw [withCopy, target, hp, archOf_file, Repo.setDir]
  dsimp only
  by_cases ha : a = f.id.arch
  · subst ha
    rw [if_pos rfl, List.mem_insert_iff, mem_removeExisting hvalid hp]
    exact or_congr_left ⟨fun hx => ⟨rfl, hx⟩, And.right⟩
  · rw [if_neg ha, mem_removeExisting hvalid hp]
    exact ⟨Or.inr, fun h => h.resolve_left fun h => ha h.1⟩

/-- A repository stays valid when a package file comes. -/
theorem valid_withCopy {repo : Repo} (hvalid : Valid repo) {f : PkgFile} {p : Text}
    (hp : basename p = f.file) : Valid (withCopy repo p) := by
  refine ⟨?_, ?_, ?_⟩
  · intro a x hx
    rcases (mem_withCopy hvalid hp).mp hx with ⟨rfl, rfl⟩ | ⟨hmem, -⟩
    · exact ⟨f, rfl, rfl⟩
    · exact hvalid.named a x hmem
  · intro a x y hx hy hsame
    rcases (mem_withCopy hvalid hp).mp hx with ⟨ha, rfl⟩ | ⟨hmem, hnot⟩
    · rcases (mem_withCopy hvalid hp).mp hy with ⟨-, rfl⟩ | ⟨-, hnot'⟩
      · rfl
      · rw [package_file] at hsame
        exact absurd ⟨ha, hsame.symm⟩ hnot'
    · rcases (mem_withCopy hvalid hp).mp hy with ⟨ha, rfl⟩ | ⟨hmem', -⟩
      · rw [package_file] at hsame
        exact absurd ⟨ha, hsame⟩ hnot
      · exact hvalid.unique a x y hmem hmem' hsame
  · intro a
    rw [withCopy, Repo.setDir]
    split
    · exact List.Nodup.insert ((valid_removeExisting hvalid hp).nodup _)
    · exact (valid_removeExisting hvalid hp).nodup a

/-! ## The repository's own file

  A file that is given from the package's own place in the repository is unlinked as an old version. -/

/-- The source is the repository's own file of the package. -/
def Source.Own (src : Source) (id : PkgId) : Prop :=
  ∃ x, src.place = .inside (id.arch, x) ∧ package x = id.name

/-- **What an add does**: it raises without a copy where the source is the package's own file in the
    repository, and makes the copy elsewhere. -/
theorem addPackage_eq {repo : Repo} (hvalid : Valid repo) {src : Source} {f : PkgFile}
    (hp : basename src.path = f.file) (hthere : src.place.there repo = true) :
    (src.Own f.id ∧ addPackage repo src = (.error .copyError, removeExisting repo src.path)) ∨
    (¬ src.Own f.id ∧ addPackage repo src = (.ok (), withCopy repo src.path)) := by
  have htarget : target src.path = (f.id.arch, f.file) := by rw [target, hp, archOf_file]
  cases hplace : src.place with
  | outside present =>
      rw [hplace] at hthere
      refine Or.inr ⟨?_, if_pos ⟨?_, ?_⟩⟩
      · rintro ⟨x, hinside, -⟩
        rw [hplace] at hinside
        cases hinside
      · rw [hplace]
        exact hthere
      · rw [hplace]
        exact nofun
  | inside q =>
      rw [hplace] at hthere
      have hin : q.2 ∈ repo q.1 := of_decide_eq_true hthere
      have hleft : src.place.there (removeExisting repo src.path) = true ↔
          ¬ (q.1 = f.id.arch ∧ package q.2 = f.id.name) := by
        rw [hplace, Place.there, decide_eq_true_eq, mem_removeExisting hvalid hp]
        exact and_iff_right hin
      have hown : src.Own f.id ↔ q.1 = f.id.arch ∧ package q.2 = f.id.name := by
        rw [Source.Own, hplace]
        constructor
        · rintro ⟨x, hinside, hx⟩
          cases hinside
          exact ⟨rfl, hx⟩
        · rintro ⟨ha, hx⟩
          exact ⟨q.2, by rw [← ha], hx⟩
      by_cases h : q.1 = f.id.arch ∧ package q.2 = f.id.name
      · exact Or.inl ⟨hown.mpr h, if_neg fun hcopy => hleft.mp hcopy.1 h⟩
      · refine Or.inr ⟨fun hsrc => h (hown.mp hsrc), if_pos ⟨hleft.mpr h, ?_⟩⟩
        rw [hplace, htarget]
        intro heq
        rw [Place.inside.inj heq] at h
        exact h ⟨rfl, package_file f⟩

/-- Adding a file that is there keeps it valid. -/
theorem valid_addPackage {repo : Repo} (hvalid : Valid repo) {src : Source} {f : PkgFile}
    (hp : basename src.path = f.file) (hthere : src.place.there repo = true) :
    Valid (addPackage repo src).2 := by
  rcases addPackage_eq hvalid hp hthere with ⟨-, heq⟩ | ⟨-, heq⟩
  · rw [heq]
    exact valid_removeExisting hvalid hp
  · rw [heq]
    exact valid_withCopy hvalid hp

/-- What is left was there. -/
theorem mem_unlink {repo : Repo} {path : Path} {a x : Text} (h : x ∈ unlink repo path a) :
    x ∈ repo a := by
  rw [unlink, Repo.setDir] at h
  split at h
  · next ha =>
      rw [ha]
      exact List.mem_of_mem_erase h
  · exact h

/-- Taking files away keeps the invariant. -/
theorem valid_unlink {repo : Repo} (hvalid : Valid repo) (path : Path) :
    Valid (unlink repo path) := by
  refine ⟨fun a x hx => hvalid.named a x (mem_unlink hx),
    fun a x y hx hy => hvalid.unique a x y (mem_unlink hx) (mem_unlink hy), ?_⟩
  intro a
  rw [unlink, Repo.setDir]
  split
  · exact (hvalid.nodup _).erase _
  · exact hvalid.nodup a

/-- The files that a call adds are package files. -/
def Op.WellNamed : Op → Prop
  | .add srcs => ∀ src ∈ srcs, ∃ f : PkgFile, basename src.path = f.file
  | .remove _ => True

/-- **Adding** files keeps the repository valid, by induction on them. -/
theorem valid_addPackages : ∀ {srcs : List Source} {repo : Repo}, Valid repo →
    (∀ src ∈ srcs, ∃ f : PkgFile, basename src.path = f.file) → Valid (addPackages srcs repo).2
  | [], _, hvalid, _ => hvalid
  | src :: srcs, repo, hvalid, hnamed => by
      rw [addPackages]
      split
      · next hthere =>
          obtain ⟨f, hp⟩ := hnamed src List.mem_cons_self
          have hnext := valid_addPackage hvalid hp hthere
          split
          · next heq =>
              rw [heq] at hnext
              exact valid_addPackages hnext fun x hx => hnamed x (List.mem_cons_of_mem src hx)
          · next heq =>
              rw [heq] at hnext
              exact hnext
      · exact hvalid

/-- **Removing** packages keeps it valid, by induction on them. -/
theorem valid_removePackages : ∀ {pkgs : List Text} {repo : Repo}, Valid repo →
    Valid (removePackages pkgs repo).2
  | [], _, hvalid => hvalid
  | p :: ps, repo, hvalid => by
      rw [removePackages]
      split
      · exact hvalid
      · exact valid_removePackages hvalid
      · exact valid_removePackages (valid_unlink hvalid _)

/-- One call keeps the invariant. -/
theorem valid_apply {repo : Repo} (hvalid : Valid repo) {op : Op} (hnamed : op.WellNamed) :
    Valid (op.apply repo) := by
  cases op with
  | add srcs => exact valid_addPackages hvalid hnamed
  | remove pkgs => exact valid_removePackages hvalid

/-- **Every repository that there is** keeps the invariant. -/
theorem valid_run {ops : List Op} (hnamed : ∀ op ∈ ops, op.WellNamed) : Valid (run ops) := by
  have hrun : ∀ (ops : List Op), (∀ op ∈ ops, op.WellNamed) → ∀ repo, Valid repo →
      Valid (ops.foldl Op.apply repo) := by
    intro ops
    induction ops with
    | nil => exact fun _ _ h => h
    | cons op ops ih =>
        intro hall repo hvalid
        exact ih (fun o ho => hall o (List.mem_cons_of_mem op ho)) _
          (valid_apply hvalid (hall op List.mem_cons_self))
  exact hrun ops hnamed _ valid_empty

end DentOS.Onlpm
