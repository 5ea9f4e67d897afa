/-
  The extract cache of a package repository (tools/onlpm.py): `OnlPackageRepoUnlocked.extract`, and
  what `add_packages` does to the extracts.

  Two things should keep an extract from going stale.  An add removes `extracts/<arch>/<package>`, and
  an extract begins anew unless the time stamp in its directory is the one of the package file.  But
  the directory of an extract is `extracts/<package>_<arch>`: the first removes nothing that the second
  made (`area_added`), and all is left to the time stamps.

  What a time stamp can tell is in the history: `Ledger` has, for each directory, the contents and the
  time of the package file that it was unpacked from last.  Two invariants carry the proof.  The files of
  the repository are the versions that were added last (`Kept`), and a directory has the contents and
  the time in the ledger (`Noted`).  So an extract is right where the lookup finds the package and, unless
  it is forced, the package file has another time than the one in the ledger or the same contents
  (`right_of_told`), and nowhere else while the file is there (`told_of_right`).  `extracts_right_iff` is
  the same along a sequence of calls; the times tell when no two versions of a package with one
  modification time differ (`right_of_distinct`).  What was added is there as long as no add is given a
  file of the repository itself (`there_of_outside`).

  The files below `extracts` are a map from the components of their path.  A directory is there when a
  file is in it.  `dpkg -x` writes the files of the package over those that are there; the time stamp
  itself is no content.
-/
import DentOS.Onlpm.Lookup

namespace DentOS.Onlpm

open PyText

/-! ## Files, and what a package holds -/

/-- What a repository has of a package. -/
structure Entry where
  /-- What is in the package. -/
  data : Text
  /-- When it was changed. -/
  mtime : Int
  deriving DecidableEq

/-- Files, by the components of their path. -/
abbrev Files := List Text → Option Entry

/-- `shutil.rmtree(dir)`. -/
def rmtree (dir : List Text) (area : Files) : Files := fun p => if dir <+: p then none else area p

/-- `dpkg -x deb dir`. -/
def dpkgExtract (deb : Files) (dir : List Text) (area : Files) : Files := fun p =>
  if dir <+: p then (deb (p.drop dir.length)).or (area p) else area p

/-- `touch -r` a file of this time. -/
def touch (mtime : Int) (file : List Text) (area : Files) : Files := fun p =>
  if p = file then some ⟨((area file).map Entry.data).getD [], mtime⟩ else area p

/-- `PKG_TIMESTAMP`. -/
def pkgTimestamp : Text := ".PKG.TIMESTAMP".toList

/-! ## The repository with its extracts, and the operations on it -/

/-- `pkg` has the contents and the modification time of the files in the repository, `area` the files below
    `extracts`. -/
structure Store where
  /-- The names in the repository. -/
  repo : Repo
  /-- The contents and the time of each file. -/
  pkg : Path → Files × Int
  /-- The files below `extracts`. -/
  area : Files

/-- Nothing has been added. -/
def Store.empty : Store where
  repo := Repo.empty
  pkg := fun _ => (fun _ => none, 0)
  area := fun _ => none

/-- A path given to `add_packages`, the contents of what it leads to outside of the repository, and the
    time that the copy gets. -/
structure Delivery where
  /-- The path that was given. -/
  src : Source
  /-- What is in the file there. -/
  deb : Files
  /-- The time that the copy gets. -/
  mtime : Int

/-- The contents of what is copied. -/
def Delivery.contents (d : Delivery) (s : Store) : Files :=
  match d.src.place with
  | .outside _ => d.deb
  | .inside q => (s.pkg q).1

/-- One pass of the loop of `add_packages`; where the copy raises, nothing is done to the extracts. -/
def addDelivery (s : Store) (d : Delivery) : Except RepoError Unit × Store :=
  match addPackage s.repo d.src with
  | (.ok (), repo) => (.ok (),
      { repo := repo
        pkg := fun q => if q = target d.src.path then (d.contents s, d.mtime) else s.pkg q
        area := rmtree [archOf (basename d.src.path), package (basename d.src.path)] s.area })
  | (.error e, repo) => (.error e, { s with repo := repo })

/-- `add_packages`. -/
def addDeliveries : List Delivery → Store → Except RepoError Unit × Store
  | [], s => (.ok (), s)
  | d :: ds, s =>
      if d.src.place.there s.repo then
        match addDelivery s d with
        | (.ok (), s') => addDeliveries ds s'
        | (.error e, s') => (.error e, s')
      else (.error .packageError, s)

/-- `os.path.join(dstdir, pkg.replace(':', '_'))`, below `extracts`. -/
def edirOf (pkg : Text) : List Text := (pkg.map fun c => if c = ':' then '_' else c).splitOn '/'

/-- The time stamp of an extract. -/
def stampOf (s : Store) (edir : List Text) : Option Int :=
  (s.area (edir ++ [pkgTimestamp])).map Entry.mtime

/-- `extract(pkg, force=force)`: the directory, or nothing for `False`. -/
def extract (s : Store) (pkg : Text) (force : Bool) : Except RepoError (Option (List Text)) × Store :=
  match lookup s.repo pkg false with
  | .error e => (.error e, s)
  | .ok none => (.ok none, s)
  | .ok (some path) =>
      let edir := edirOf pkg
      if force = false ∧ stampOf s edir = some (s.pkg path).2 then (.ok (some edir), s)
      else
        let area := dpkgExtract (s.pkg path).1 edir (rmtree edir s.area)
        (.ok (some edir), { s with area := touch (s.pkg path).2 (edir ++ [pkgTimestamp]) area })

/-- A call. -/
inductive Act where
  | add (ds : List Delivery)
  | extract (id : PkgId) (force : Bool)

/-! ## What was added, and what was unpacked: a ledger beside the store -/

/-- A version of a package: the path it was added from, its contents, and the time of its copy. -/
structure Version where
  /-- Where it was added from. -/
  path : Text
  /-- What is in it. -/
  deb : Files
  /-- The time of its copy. -/
  mtime : Int

/-- The versions that an add copies. -/
def versionsOf : List Delivery → Store → List Version
  | [], _ => []
  | d :: ds, s =>
      if d.src.place.there s.repo then
        match addDelivery s d with
        | (.ok (), s') => ⟨d.src.path, d.contents s, d.mtime⟩ :: versionsOf ds s'
        | (.error _, _) => []
      else []

/-- A version of this package. -/
def Version.Of (v : Version) (id : PkgId) : Prop :=
  package (basename v.path) = id.name ∧ archOf (basename v.path) = id.arch

instance (v : Version) (id : PkgId) : Decidable (v.Of id) := inferInstanceAs (Decidable (_ ∧ _))

/-- The version of the package that was added last. -/
def newest (vs : List Version) (id : PkgId) : Option Version := vs.reverse.find? fun v => v.Of id

/-- **The ledger**: the contents and the time of the package file that a directory was unpacked from
    last. -/
abbrev Ledger := List Text → Option (Files × Int)

/-- Nothing has been extracted. -/
def Ledger.empty : Ledger := fun _ => none

/-- What an extract writes into it: the file that the lookup finds, unless the extract is not forced and
    the file has the time that is there. -/
def Ledger.note (l : Ledger) (s : Store) (pkg : Text) (force : Bool) : Ledger :=
  match lookup s.repo pkg false with
  | .ok (some path) =>
      if force = false ∧ (l (edirOf pkg)).map Prod.snd = some (s.pkg path).2 then l
      else fun dir => if dir = edirOf pkg then some (s.pkg path) else l dir
  | _ => l

/-- Every file added is a package file. -/
def Act.WellNamed : Act → Prop
  | .add ds => ∀ d ∈ ds, ∃ f : PkgFile, basename d.src.path = f.file
  | .extract _ _ => True

/-! ## What an extract should give: the contents of the newest version -/

/-- The same files, but for the time stamp. -/
def SameFiles (a b : Files) : Prop := ∀ p, p ≠ [pkgTimestamp] → a p = b p

/-- The directory has these files, and no others. -/
def Holds (area : Files) (dir : List Text) (deb : Files) : Prop := SameFiles (fun p => area (dir ++ p)) deb

/-- **An extract is right**: it gives a directory with the files of the package, and no others. -/
def Right (s : Store) (id : PkgId) (force : Bool) (deb : Files) : Prop :=
  ∃ dir, (extract s id.text force).1 = .ok (some dir) ∧
    Holds (extract s id.text force).2.area dir deb

/-- **The time stamp tells**: the version is there and found, and the extract is forced, or the file that
    the directory was unpacked from last has another time or the same files. -/
structure Told (s : Store) (l : Ledger) (id : PkgId) (force : Bool) (v : Version) : Prop where
  there : basename v.path ∈ s.repo id.arch
  clear : Clear s.repo id
  fresh : force = true ∨
    ∀ last, l (edirOf id.text) = some last → last.2 = v.mtime → SameFiles last.1 v.deb

/-- What the extracts of a sequence have, given the store, the versions and the ledger in front of each. -/
def Along (P : Store → List Version → Ledger → PkgId → Bool → Prop) :
    Store → List Version → Ledger → List Act → Prop
  | _, _, _, [] => True
  | s, vs, l, .add ds :: acts => Along P (addDeliveries ds s).2 (vs ++ versionsOf ds s) l acts
  | s, vs, l, .extract id force :: acts =>
      P s vs l id force ∧ Along P (extract s id.text force).2 vs (l.note s id.text force) acts

/-- What the extracts of the packages that were added have, in a sequence on a new repository. -/
def AllAdded (P : Store → Ledger → PkgId → Bool → Version → Prop) (acts : List Act) : Prop :=
  Along (fun s vs l id force => ∀ v, newest vs id = some v → P s l id force v) Store.empty []
    Ledger.empty acts

/-- **Every extract of a sequence is right.** -/
def AllRight : List Act → Prop := AllAdded fun s _ id force v => Right s id force v.deb

/-- Every one is told by its time stamp. -/
def AllTold : List Act → Prop := AllAdded Told

/-- The version that was added last is there at every extract. -/
def AllThere : List Act → Prop := AllAdded fun s _ id _ v => basename v.path ∈ s.repo id.arch

/-! ## Paths -/

/-- The directory of a package's contents. -/
theorem edirOf_text (id : PkgId) : edirOf id.text = [id.name ++ '_' :: id.arch] := by
  have hplain : ∀ {t : Text}, ':' ∉ t → t.map (fun c => if c = ':' then '_' else c) = t := by
    intro t ht
    refine (List.map_congr_left fun c hc => ?_).trans (List.map_id t)
    have hne : c ≠ ':' := fun h => ht (h ▸ hc)
    rw [if_neg hne]
    rfl
  have hmap : id.text.map (fun c => if c = ':' then '_' else c) = id.name ++ '_' :: id.arch := by
    rw [PkgId.text, List.map_append, List.map_cons, hplain (id.not_mem_name (by decide)),
      hplain (id.not_mem_arch (by decide))]
    rfl
  rw [edirOf, hmap]
  refine List.splitOn_eq_singleton ?_
  intro h
  rcases List.mem_append.mp h with h | h
  · exact id.not_mem_name (by decide) h
  · rcases List.mem_cons.mp h with h | h
    · cases h
    · exact id.not_mem_arch (by decide) h

/-- Two packages have two extracts. -/
theorem edirOf_injective {id id' : PkgId} (h : edirOf id.text = edirOf id'.text) :
    id.name = id'.name ∧ id.arch = id'.arch := by
  rw [edirOf_text, edirOf_text] at h
  have htext : (id.name ++ '_' :: id.arch).splitOn '_' = (id'.name ++ '_' :: id'.arch).splitOn '_' := by
    rw [List.singleton_inj.mp h]
  have hsplit : ∀ id : PkgId, (id.name ++ '_' :: id.arch).splitOn '_' = [id.name, id.arch] := fun id => by
    rw [List.splitOn_append_cons_self_of_not_mem (id.not_mem_name (by decide)),
      List.splitOn_eq_singleton (id.not_mem_arch (by decide))]
  rw [hsplit, hsplit] at htext
  exact ⟨(List.cons.inj htext).1, List.singleton_inj.mp (List.cons.inj htext).2⟩

/-- **The directory that an add removes is no extract.** -/
theorem area_added {area : Files} {p : Text} {f : PkgFile} (hp : basename p = f.file) (id : PkgId)
    (q : List Text) : rmtree [archOf (basename p), package (basename p)] area (edirOf id.text ++ q) =
      area (edirOf id.text ++ q) := by
  rw [rmtree, if_neg]
  intro hpre
  rw [hp, archOf_file, edirOf_text] at hpre
  have hhead : f.id.arch = id.name ++ '_' :: id.arch := by
    obtain ⟨rest, hrest⟩ := hpre
    exact (List.cons.inj hrest).1
  refine f.id.not_mem_arch (c := '_') (by decide) ?_
  rw [hhead]
  exact List.mem_append_right _ List.mem_cons_self

/-! ## A new extract replaces the old files -/

/-- An extract that begins anew has the files of the package. -/
theorem holds_anew (deb area : Files) (dir : List Text) (mtime : Int) :
    Holds (touch mtime (dir ++ [pkgTimestamp]) (dpkgExtract deb dir (rmtree dir area))) dir deb := by
  intro p hp
  have hne : dir ++ p ≠ dir ++ [pkgTimestamp] := fun h => hp (List.append_cancel_left h)
  have hpre : dir <+: dir ++ p := List.prefix_append dir p
  show touch mtime (dir ++ [pkgTimestamp]) _ (dir ++ p) = deb p
  rw [touch, if_neg hne, dpkgExtract, if_pos hpre, List.drop_left, rmtree, if_pos hpre, Option.or_none]

/-- And it bears the time of the package file. -/
theorem stamp_anew (deb area : Files) (dir : List Text) (mtime : Int) :
    (touch mtime (dir ++ [pkgTimestamp]) (dpkgExtract deb dir (rmtree dir area))
      (dir ++ [pkgTimestamp])).map Entry.mtime = some mtime := by
  rw [touch, if_pos rfl]
  rfl

/-- Files outside of the directory stay. -/
theorem area_anew (deb area : Files) {dir p : List Text} (mtime : Int) (h : ¬ dir <+: p) :
    touch mtime (dir ++ [pkgTimestamp]) (dpkgExtract deb dir (rmtree dir area)) p = area p := by
  have hne : p ≠ dir ++ [pkgTimestamp] := fun heq => h (heq ▸ List.prefix_append _ _)
  rw [touch, if_neg hne, dpkgExtract, if_neg h, rmtree, if_neg h]

/-- Extracting leaves the repository as it is. -/
theorem extract_repo (s : Store) (pkg : Text) (force : Bool) :
    (extract s pkg force).2.repo = s.repo ∧ (extract s pkg force).2.pkg = s.pkg := by
  rw [extract]
  split
  · exact ⟨rfl, rfl⟩
  · exact ⟨rfl, rfl⟩
  · dsimp only
    split
    · exact ⟨rfl, rfl⟩
    · exact ⟨rfl, rfl⟩

/-- An extract of the package file `path`. -/
theorem extract_found {s : Store} {pkg : Text} {path : Path}
    (h : lookup s.repo pkg false = .ok (some path)) (force : Bool) :
    extract s pkg force =
      if force = false ∧ stampOf s (edirOf pkg) = some (s.pkg path).2 then
        (.ok (some (edirOf pkg)), s)
      else (.ok (some (edirOf pkg)), { s with
        area := touch (s.pkg path).2 (edirOf pkg ++ [pkgTimestamp])
          (dpkgExtract (s.pkg path).1 (edirOf pkg) (rmtree (edirOf pkg) s.area)) }) := by
  rw [extract, h]

/-- **What one add of a loop does** to the store: nothing but to take the old file away, or to put in the
    copy, which is a version. -/
theorem addDelivery_cases {s : Store} (hvalid : Valid s.repo) {d : Delivery} {f : PkgFile}
    (hp : basename d.src.path = f.file) (hthere : d.src.place.there s.repo = true) :
    (d.src.Own f.id ∧
      addDelivery s d = (.error .copyError, { s with repo := removeExisting s.repo d.src.path })) ∨
    (¬ d.src.Own f.id ∧ addDelivery s d = (.ok (),
      { repo := withCopy s.repo d.src.path
        pkg := fun q => if q = (f.id.arch, f.file) then (d.contents s, d.mtime) else s.pkg q
        area := rmtree [archOf (basename d.src.path), package (basename d.src.path)] s.area })) := by
  have htarget : target d.src.path = (f.id.arch, f.file) := by rw [target, hp, archOf_file]
  rcases addPackage_eq hvalid hp hthere with ⟨hown, heq⟩ | ⟨hown, heq⟩
  · refine Or.inl ⟨hown, ?_⟩
    rw [addDelivery, heq]
  · refine Or.inr ⟨hown, ?_⟩
    rw [addDelivery, heq, ← htarget]

/-! ## What a store keeps of its versions -/

/-- **The invariant of the repository**: it is one that adds make, and a file of a package is the version
    that was added last. -/
structure Kept (s : Store) (vs : List Version) : Prop where
  valid : Valid s.repo
  newest : ∀ (id : PkgId) x, x ∈ s.repo id.arch → package x = id.name →
    ∃ v, newest vs id = some v ∧ basename v.path = x ∧ s.pkg (id.arch, x) = (v.deb, v.mtime)

/-- The empty store keeps no versions. -/
theorem kept_empty : Kept Store.empty [] :=
  ⟨valid_empty, fun _ _ h => absurd h List.not_mem_nil⟩

/-- The newest version is one of the package. -/
theorem of_newest {vs : List Version} {id : PkgId} {v : Version} (h : newest vs id = some v) : v.Of id := by
  have hfound := List.find?_some h
  exact of_decide_eq_true hfound

/-- The file of the version that was added last has what it has. -/
theorem Kept.pkg_newest {s : Store} {vs : List Version} (hkept : Kept s vs) {id : PkgId} {v : Version}
    (hv : Onlpm.newest vs id = some v) (hthere : basename v.path ∈ s.repo id.arch) :
    s.pkg (id.arch, basename v.path) = (v.deb, v.mtime) := by
  obtain ⟨w, hw, -, hpkg⟩ := hkept.newest id _ hthere (of_newest hv).1
  cases hv.symm.trans hw
  exact hpkg

/-- A version that is added last is the newest of its package. -/
theorem newest_append (vs : List Version) (v : Version) (id : PkgId) :
    newest (vs ++ [v]) id = if v.Of id then some v else newest vs id := by
  rw [newest, List.reverse_append, List.reverse_singleton, List.singleton_append, List.find?_cons]
  by_cases h : v.Of id
  · rw [if_pos h, decide_eq_true h]
  · rw [if_neg h, decide_eq_false h]
    rfl

/-- A version that is added is the newest of its package, and the others stay as they are. -/
theorem kept_added {s : Store} {vs : List Version} (hkept : Kept s vs) {d : Delivery} {f : PkgFile}
    (hp : basename d.src.path = f.file) (area : Files) :
    Kept { repo := withCopy s.repo d.src.path
           pkg := fun q => if q = (f.id.arch, f.file) then (d.contents s, d.mtime) else s.pkg q
           area := area } (vs ++ [⟨d.src.path, d.contents s, d.mtime⟩]) := by
  refine ⟨valid_withCopy hkept.valid hp, fun id x hx hname => ?_⟩
  have hof : Version.Of ⟨d.src.path, d.contents s, d.mtime⟩ id ↔ f.id.name = id.name ∧ f.id.arch = id.arch := by
    show package (basename d.src.path) = id.name ∧ archOf (basename d.src.path) = id.arch ↔ _
    rw [hp, package_file, archOf_file]
  rcases (mem_withCopy hkept.valid hp).mp hx with ⟨harch, rfl⟩ | ⟨hmem, hother⟩
  · refine ⟨⟨d.src.path, d.contents s, d.mtime⟩, ?_, hp, if_pos (congrArg (Prod.mk · f.file) harch)⟩
    rw [newest_append, if_pos (hof.mpr ⟨(package_file f).symm.trans hname, harch.symm⟩)]
  · obtain ⟨v, hv, hpath, hpkg⟩ := hkept.newest id x hmem hname
    refine ⟨v, ?_, hpath, ?_⟩
    · rw [newest_append, if_neg fun h => hother ⟨(hof.mp h).2.symm, hname.trans (hof.mp h).1.symm⟩, hv]
    · refine (if_neg fun heq => hother ?_).trans hpkg
      obtain ⟨harch, hfile⟩ := Prod.mk.inj heq
      exact ⟨harch, by rw [hfile, package_file]⟩

/-- An old file that is gone takes no version with it. -/
theorem kept_removed {s : Store} {vs : List Version} (hkept : Kept s vs) {p : Text} {f : PkgFile}
    (hp : basename p = f.file) : Kept { s with repo := removeExisting s.repo p } vs :=
  ⟨valid_removeExisting hkept.valid hp, fun id x hx hname =>
    hkept.newest id x ((mem_removeExisting hkept.valid hp).mp hx).1 hname⟩

/-- Deliveries keep what is newest, by induction on them. -/
theorem kept_addDeliveries : ∀ {ds : List Delivery} {s : Store} {vs : List Version}, Kept s vs →
    (∀ d ∈ ds, ∃ f : PkgFile, basename d.src.path = f.file) →
    Kept (addDeliveries ds s).2 (vs ++ versionsOf ds s)
  | [], s, vs, hkept, _ => by
      rw [versionsOf, List.append_nil]
      exact hkept
  | d :: ds, s, vs, hkept, hnamed => by
      obtain ⟨f, hp⟩ := hnamed d List.mem_cons_self
      rw [addDeliveries, versionsOf]
      by_cases hthere : d.src.place.there s.repo = true
      · rw [if_pos hthere, if_pos hthere]
        rcases addDelivery_cases hkept.valid hp hthere with ⟨-, heq⟩ | ⟨-, heq⟩
        · rw [heq, List.append_nil]
          exact kept_removed hkept hp
        · have hrest := kept_addDeliveries (kept_added hkept hp
              (rmtree [archOf (basename d.src.path), package (basename d.src.path)] s.area))
            fun x hx => hnamed x (List.mem_cons_of_mem d hx)
          rw [List.append_assoc, List.singleton_append] at hrest
          rw [heq]
          exact hrest
      · rw [if_neg hthere, if_neg hthere, List.append_nil]
        exact hkept

/-- Extracting keeps what is newest. -/
theorem kept_extract {s : Store} {vs : List Version} (hkept : Kept s vs) (pkg : Text) (force : Bool) :
    Kept (extract s pkg force).2 vs := by
  obtain ⟨hrepo, hpkg⟩ := extract_repo s pkg force
  refine ⟨?_, ?_⟩
  · rw [hrepo]
    exact hkept.valid
  · rw [hrepo, hpkg]
    exact hkept.newest

/-! ## What the extracts keep of the ledger: what was unpacked is there -/

/-- **The invariant of the extracts**: a directory has the time and the files in the ledger. -/
def Noted (s : Store) (l : Ledger) : Prop :=
  ∀ id : PkgId, stampOf s (edirOf id.text) = (l (edirOf id.text)).map Prod.snd ∧
    ∀ last, l (edirOf id.text) = some last → Holds s.area (edirOf id.text) last.1

/-- Nothing is noted at first. -/
theorem noted_empty : Noted Store.empty Ledger.empty := fun _ => ⟨rfl, fun _ h => by cases h⟩

/-- What leaves the extracts as they are leaves the ledger true. -/
theorem Noted.of_area {s s' : Store} {l : Ledger} (h : Noted s l)
    (harea : ∀ (id : PkgId) q, s'.area (edirOf id.text ++ q) = s.area (edirOf id.text ++ q)) :
    Noted s' l := by
  intro id
  obtain ⟨hstamp, hholds⟩ := h id
  refine ⟨?_, fun last hlast q hq => ?_⟩
  · rw [stampOf, harea]
    exact hstamp
  · show s'.area (edirOf id.text ++ q) = _
    rw [harea]
    exact hholds last hlast q hq

/-- The adds leave the extracts as they are. -/
theorem noted_addDeliveries {l : Ledger} : ∀ {ds : List Delivery} {s : Store} {vs : List Version},
    Kept s vs → Noted s l → (∀ d ∈ ds, ∃ f : PkgFile, basename d.src.path = f.file) →
    Noted (addDeliveries ds s).2 l
  | [], _, _, _, hnoted, _ => hnoted
  | d :: ds, s, vs, hkept, hnoted, hnamed => by
      obtain ⟨f, hp⟩ := hnamed d List.mem_cons_self
      rw [addDeliveries]
      split
      · next hthere =>
          rcases addDelivery_cases hkept.valid hp hthere with ⟨-, heq⟩ | ⟨-, heq⟩
          · rw [heq]
            exact hnoted.of_area fun _ _ => rfl
          · rw [heq]
            exact noted_addDeliveries (kept_added hkept hp _)
              (hnoted.of_area fun id q => area_added hp id q)
              fun x hx => hnamed x (List.mem_cons_of_mem d hx)
      · exact hnoted

/-- An extract leaves what it notes. -/
theorem noted_extract {s : Store} {l : Ledger} (hnoted : Noted s l) (id : PkgId) (force : Bool) :
    Noted (extract s id.text force).2 (l.note s id.text force) := by
  have hstamp := (hnoted id).1
  cases hlookup : lookup s.repo id.text false with
  | error e =>
      rw [extract, Ledger.note, hlookup]
      exact hnoted
  | ok found =>
      cases found with
      | none =>
          rw [extract, Ledger.note, hlookup]
          exact hnoted
      | some path =>
          rw [extract_found hlookup, Ledger.note, hlookup]
          dsimp only
          rw [← hstamp]
          by_cases hkeep : force = false ∧ stampOf s (edirOf id.text) = some (s.pkg path).2
          · rw [if_pos hkeep, if_pos hkeep]
            exact hnoted
          · rw [if_neg hkeep, if_neg hkeep]
            intro id'
            dsimp only
            by_cases hsame : edirOf id'.text = edirOf id.text
            · rw [hsame, if_pos rfl]
              refine ⟨stamp_anew _ _ _ _, ?_⟩
              rintro last ⟨⟩
              exact holds_anew _ _ _ _
            · have hstays : ∀ q, touch (s.pkg path).2 (edirOf id.text ++ [pkgTimestamp])
                  (dpkgExtract (s.pkg path).1 (edirOf id.text) (rmtree (edirOf id.text) s.area))
                  (edirOf id'.text ++ q) = s.area (edirOf id'.text ++ q) := by
                refine fun q => area_anew _ _ _ ?_
                rintro ⟨rest, hrest⟩
                rw [edirOf_text, edirOf_text] at hrest
                refine hsame ?_
                rw [edirOf_text, edirOf_text, (List.cons.inj hrest).1]
              obtain ⟨hstamp', hholds'⟩ := hnoted id'
              rw [if_neg hsame]
              refine ⟨?_, fun last hlast q hq => ?_⟩
              · rw [← hstamp', stampOf, stampOf]
                exact congrArg (Option.map Entry.mtime) (hstays [pkgTimestamp])
              · exact (hstays q).trans (hholds' last hlast q hq)

/-! ## One extract -/

/-- **A lookup that returns something returns the package only where the repository is clear.** -/
theorem clear_of_lookup {repo : Repo} {id : PkgId} (hvalid : Valid repo) {x : Text}
    (hx : x ∈ repo id.arch) (hname : package x = id.name) {path : Path}
    (h : lookup repo id.text false = .ok (some path)) : Clear repo id := by
  have hall : lookupAll repo id.text = .ok [path] := by
    rw [lookup] at h
    split at h
    · cases h
    · cases h
    · next hr =>
        cases h
        exact hr
    · cases h
  rw [lookupAll_text] at hall
  injection hall with hall
  have hone : ∀ y ∈ repo id.arch, matching id.name id.arch y = true → (id.arch, y) = path := by
    intro y hy hmatch
    have hmem : (id.arch, y) ∈ [path] := by
      rw [← hall]
      exact mem_lookupAll.mpr ⟨rfl, hy, hmatch⟩
    exact List.mem_singleton.mp hmem
  intro y hy hpiece
  obtain ⟨f, rfl, harch⟩ := hvalid.named _ y hy
  have hmatch : matching id.name id.arch f.file = true := by
    rw [← harch, matching_file (id.not_mem_name (by decide))]
    exact hpiece
  have hsame := (hone _ hy hmatch).trans (hone x hx (matching_of_package hvalid hx hname)).symm
  rw [(Prod.mk.inj hsame).2, hname]

section

variable {s : Store} {vs : List Version} {l : Ledger} {id : PkgId} {v : Version} {force : Bool}

/-- **An extract that is told is right.** -/
theorem right_of_told (hkept : Kept s vs) (hnoted : Noted s l) (hv : newest vs id = some v)
    (h : Told s l id force v) : Right s id force v.deb := by
  have hpkg := hkept.pkg_newest hv h.there
  have hrun := extract_found (lookup_unique hkept.valid h.clear h.there (of_newest hv).1 false) force
  refine ⟨edirOf id.text, ?_, ?_⟩
  · rw [hrun]
    split <;> rfl
  · rw [hrun, hpkg]
    split
    · next hkeep =>
        -- the directory is kept: it has the time of the version, and what the ledger has
        obtain ⟨hstamp, hholds⟩ := hnoted id
        rw [hkeep.2] at hstamp
        obtain ⟨last, hlast, htime⟩ := Option.map_eq_some_iff.mp hstamp.symm
        have hfresh := h.fresh.resolve_left (by rw [hkeep.1]; decide)
        exact fun q hq => (hholds last hlast q hq).trans (hfresh last hlast htime q hq)
    · exact holds_anew _ _ _ _

/-- **An extract that is right is told**, while the version is there. -/
theorem told_of_right (hkept : Kept s vs) (hnoted : Noted s l) (hv : newest vs id = some v)
    (hthere : basename v.path ∈ s.repo id.arch) (h : Right s id force v.deb) : Told s l id force v := by
  obtain ⟨dir, hdir, hholds⟩ := h
  have hname : package (basename v.path) = id.name := (of_newest hv).1
  have hpkg := hkept.pkg_newest hv hthere
  have hclear : Clear s.repo id := by
    cases hlookup : lookup s.repo id.text false with
    | error e =>
        rw [extract, hlookup] at hdir
        cases hdir
    | ok found =>
        cases found with
        | none =>
            rw [extract, hlookup] at hdir
            cases hdir
        | some path => exact clear_of_lookup hkept.valid hthere hname hlookup
  refine ⟨hthere, hclear, ?_⟩
  cases force with
  | true => exact Or.inl rfl
  | false =>
      refine Or.inr fun last hlast htime => ?_
      obtain ⟨hstamp, hold⟩ := hnoted id
      have hkeep : stampOf s (edirOf id.text) = some (s.pkg (id.arch, basename v.path)).2 := by
        rw [hstamp, hlast, hpkg]
        exact congrArg some htime
      have hrun := extract_found (lookup_unique hkept.valid hclear hthere hname false) false
      rw [if_pos ⟨rfl, hkeep⟩] at hrun
      rw [hrun] at hdir hholds
      cases hdir
      exact fun q hq => (hold last hlast q hq).symm.trans (hholds q hq)

end

/-! ## Sequences of operations -/

/-- What follows in every store that keeps its history follows all along. -/
theorem Along.imp {P Q : Store → List Version → Ledger → PkgId → Bool → Prop}
    (h : ∀ s vs l id force, Kept s vs → Noted s l → P s vs l id force → Q s vs l id force) :
    ∀ {acts : List Act} {s : Store} {vs : List Version} {l : Ledger}, (∀ act ∈ acts, act.WellNamed) →
      Kept s vs → Noted s l → Along P s vs l acts → Along Q s vs l acts
  | [], _, _, _, _, _, _, _ => trivial
  | .add ds :: acts, s, vs, l, hnamed, hkept, hnoted, hall => by
      have hds : (Act.add ds).WellNamed := hnamed _ List.mem_cons_self
      rw [Along] at hall ⊢
      exact hall.imp h (fun act hact => hnamed act (List.mem_cons_of_mem _ hact))
        (kept_addDeliveries hkept hds) (noted_addDeliveries hkept hnoted hds)
  | .extract id force :: acts, s, vs, l, hnamed, hkept, hnoted, hall => by
      obtain ⟨hhere, hrest⟩ := hall
      exact ⟨h s vs l id force hkept hnoted hhere,
        hrest.imp h (fun act hact => hnamed act (List.mem_cons_of_mem _ hact))
          (kept_extract hkept id.text force) (noted_extract hnoted id force)⟩

/-- Two things that hold all along. -/
theorem Along.and {P Q : Store → List Version → Ledger → PkgId → Bool → Prop} :
    ∀ {acts : List Act} {s : Store} {vs : List Version} {l : Ledger}, Along P s vs l acts →
      Along Q s vs l acts → Along (fun s vs l id force => P s vs l id force ∧ Q s vs l id force) s vs l acts
  | [], _, _, _, _, _ => trivial
  | .add _ :: _, _, _, _, hp, hq => by
      rw [Along] at hp hq ⊢
      exact hp.and hq
  | .extract _ _ :: _, _, _, _, hp, hq => ⟨⟨hp.1, hq.1⟩, hp.2.and hq.2⟩

/-- **The extracts of a sequence are right** where each package that was added is there and found, and its
    extract is forced or told by its time stamp; and, while what was added is there, only where they are. -/
theorem extracts_right_iff (acts : List Act) (hnamed : ∀ act ∈ acts, act.WellNamed) :
    (AllTold acts → AllRight acts) ∧ (AllThere acts → AllRight acts → AllTold acts) := by
  constructor
  · intro htold
    exact htold.imp (fun s vs l id force hkept hnoted h v hv => right_of_told hkept hnoted hv (h v hv))
      hnamed kept_empty noted_empty
  · intro hthere hright
    exact (hthere.and hright).imp (fun s vs l id force hkept hnoted h v hv =>
      told_of_right hkept hnoted hv (h.1 v hv) (h.2 v hv)) hnamed kept_empty noted_empty

/-! ## When what was added is there: a condition on the sequence -/

/-- No add is given a file of the repository. -/
def Act.Outside : Act → Prop
  | .add ds => ∀ d ∈ ds, ∃ present, d.src.place = .outside present
  | .extract _ _ => True

/-- The version of a package that was added last is in the repository. -/
def Present (s : Store) (vs : List Version) : Prop :=
  ∀ (id : PkgId) v, newest vs id = some v → basename v.path ∈ s.repo id.arch

/-- Deliveries from outside leave the newest versions there, by induction on them. -/
theorem present_addDeliveries : ∀ {ds : List Delivery} {s : Store} {vs : List Version}, Kept s vs →
    Present s vs → (∀ d ∈ ds, ∃ f : PkgFile, basename d.src.path = f.file) →
    (∀ d ∈ ds, ∃ present, d.src.place = .outside present) →
    Present (addDeliveries ds s).2 (vs ++ versionsOf ds s)
  | [], s, vs, _, hpresent, _, _ => by
      rw [versionsOf, List.append_nil]
      exact hpresent
  | d :: ds, s, vs, hkept, hpresent, hnamed, houtside => by
      obtain ⟨f, hp⟩ := hnamed d List.mem_cons_self
      obtain ⟨present, hplace⟩ := houtside d List.mem_cons_self
      rw [addDeliveries, versionsOf]
      by_cases hthere : d.src.place.there s.repo = true
      · rw [if_pos hthere, if_pos hthere]
        rcases addDelivery_cases hkept.valid hp hthere with ⟨⟨x, hinside, -⟩, -⟩ | ⟨-, heq⟩
        · rw [hplace] at hinside
          cases hinside
        · have hcopied : Present { repo := withCopy s.repo d.src.path
                                   pkg := fun q => if q = (f.id.arch, f.file) then (d.contents s, d.mtime)
                                     else s.pkg q
                                   area := rmtree [archOf (basename d.src.path),
                                     package (basename d.src.path)] s.area }
              (vs ++ [⟨d.src.path, d.contents s, d.mtime⟩]) := by
            intro id v hv
            refine (mem_withCopy hkept.valid hp).mpr ?_
            rw [newest_append] at hv
            split at hv
            · next hof =>
                cases hv
                have harch : archOf (basename d.src.path) = id.arch := hof.2
                rw [hp, archOf_file] at harch
                exact Or.inl ⟨harch.symm, hp⟩
            · next hof =>
                refine Or.inr ⟨hpresent id v hv, ?_⟩
                rintro ⟨harch, hname⟩
                refine hof ⟨?_, ?_⟩
                · show package (basename d.src.path) = id.name
                  rw [hp, package_file, ← hname, (of_newest hv).1]
                · show archOf (basename d.src.path) = id.arch
                  rw [hp, archOf_file, harch]
          have hrest := present_addDeliveries (kept_added hkept hp _) hcopied
            (fun x hx => hnamed x (List.mem_cons_of_mem d hx))
            fun x hx => houtside x (List.mem_cons_of_mem d hx)
          rw [List.append_assoc, List.singleton_append] at hrest
          rw [heq]
          exact hrest
      · rw [if_neg hthere, if_neg hthere, List.append_nil]
        exact hpresent

/-- Along a run of deliveries from outside the newest version is there. -/
theorem there_along : ∀ {acts : List Act} {s : Store} {vs : List Version} {l : Ledger},
    (∀ act ∈ acts, act.WellNamed) → (∀ act ∈ acts, act.Outside) → Kept s vs → Present s vs →
    Along (fun s vs _ id _ => ∀ v, newest vs id = some v → basename v.path ∈ s.repo id.arch) s vs l acts
  | [], _, _, _, _, _, _, _ => trivial
  | .add ds :: acts, s, vs, l, hnamed, houtside, hkept, hpresent => by
      have hds : (Act.add ds).WellNamed := hnamed _ List.mem_cons_self
      rw [Along]
      exact there_along (fun act hact => hnamed act (List.mem_cons_of_mem _ hact))
        (fun act hact => houtside act (List.mem_cons_of_mem _ hact)) (kept_addDeliveries hkept hds)
        (present_addDeliveries hkept hpresent hds (houtside _ List.mem_cons_self))
  | .extract id force :: acts, s, vs, l, hnamed, houtside, hkept, hpresent => by
      have hsame : Present (extract s id.text force).2 vs := by
        intro id' v hv
        rw [(extract_repo s id.text force).1]
        exact hpresent id' v hv
      exact ⟨hpresent id, there_along (fun act hact => hnamed act (List.mem_cons_of_mem _ hact))
        (fun act hact => houtside act (List.mem_cons_of_mem _ hact)) (kept_extract hkept id.text force) hsame⟩

/-- **What was added is there** as long as no add is given a file of the repository. -/
theorem there_of_outside {acts : List Act} (hnamed : ∀ act ∈ acts, act.WellNamed)
    (houtside : ∀ act ∈ acts, act.Outside) : AllThere acts :=
  there_along hnamed houtside kept_empty fun _ _ h => by cases h

/-! ## Modification times that tell versions apart -/

/-- Two versions of a package with one modification time have the same contents. -/
def Distinct (vs : List Version) : Prop :=
  ∀ v ∈ vs, ∀ w ∈ vs, ∀ id : PkgId, v.Of id → w.Of id → v.mtime = w.mtime → v.deb = w.deb

/-- What the ledger has for a package is a version of it. -/
def Traced (l : Ledger) (vs : List Version) : Prop :=
  ∀ (id : PkgId) last, l (edirOf id.text) = some last → ∃ v ∈ vs, v.Of id ∧ last = (v.deb, v.mtime)

/-- An extract of a package that is found notes the version that it finds. -/
theorem traced_note {s : Store} {vs : List Version} {l : Ledger} (hkept : Kept s vs) (htraced : Traced l vs)
    {id : PkgId} (hclear : Clear s.repo id) (force : Bool) : Traced (l.note s id.text force) vs := by
  rw [Ledger.note]
  split
  · next path hlookup =>
      split
      · exact htraced
      · obtain ⟨paths, hpaths, hmem⟩ := mem_of_lookup hlookup
        rw [lookupAll_text] at hpaths
        cases hpaths
        obtain ⟨a, x⟩ := path
        obtain ⟨rfl, hx, hmatch⟩ := mem_lookupAll.mp hmem
        obtain ⟨v, hv, -, hpkg⟩ :=
          hkept.newest id x hx (package_of_matching hkept.valid hclear hx hmatch)
        intro id' last hlast
        dsimp only at hlast
        split at hlast
        · next hsame =>
            obtain ⟨hn, ha⟩ := edirOf_injective hsame
            have hof := of_newest hv
            have hin : v ∈ vs := List.mem_reverse.mp (List.mem_of_find?_eq_some hv)
            refine ⟨v, hin, ⟨hof.1.trans hn.symm, hof.2.trans ha.symm⟩, ?_⟩
            rw [← Option.some.inj hlast, hpkg]
        · exact htraced id' last hlast
  · exact htraced

/-- A version that is there, in a repository that is clear, with times that tell. -/
structure Apart (s : Store) (vs : List Version) (id : PkgId) : Prop where
  there : ∀ v, newest vs id = some v → basename v.path ∈ s.repo id.arch
  clear : Clear s.repo id
  distinct : Distinct vs

/-- Along a run in which every extraction is apart from the one before, what is extracted is what was
    added. -/
theorem told_along : ∀ {acts : List Act} {s : Store} {vs : List Version} {l : Ledger},
    (∀ act ∈ acts, act.WellNamed) → Kept s vs → Traced l vs →
    Along (fun s vs _ id _ => Apart s vs id) s vs l acts →
    Along (fun s vs l id force => ∀ v, newest vs id = some v → Told s l id force v) s vs l acts
  | [], _, _, _, _, _, _, _ => trivial
  | .add ds :: acts, s, vs, l, hnamed, hkept, htraced, hall => by
      have hds : (Act.add ds).WellNamed := hnamed _ List.mem_cons_self
      rw [Along] at hall ⊢
      refine told_along (fun act hact => hnamed act (List.mem_cons_of_mem _ hact))
        (kept_addDeliveries hkept hds) (fun id last hlast => ?_) hall
      obtain ⟨v, hv, h⟩ := htraced id last hlast
      exact ⟨v, List.mem_append_left _ hv, h⟩
  | .extract id force :: acts, s, vs, l, hnamed, hkept, htraced, hall => by
      obtain ⟨hhere, hrest⟩ := hall
      refine ⟨fun v hv => ⟨hhere.there v hv, hhere.clear, Or.inr fun last hlast htime => ?_⟩,
        told_along (fun act hact => hnamed act (List.mem_cons_of_mem _ hact))
          (kept_extract hkept id.text force) (traced_note hkept htraced hhere.clear force) hrest⟩
      obtain ⟨w, hw, hof, rfl⟩ := htraced id last hlast
      have hin : v ∈ vs := List.mem_reverse.mp (List.mem_of_find?_eq_some hv)
      intro q _
      rw [hhere.distinct w hw v hin id hof (of_newest hv) htime]

/-- **Extracts are right** where what was added is there, lookups are clear and the versions of a package
    have their own times. -/
theorem right_of_distinct {acts : List Act} (hnamed : ∀ act ∈ acts, act.WellNamed)
    (hapart : Along (fun s vs _ id _ => Apart s vs id) Store.empty [] Ledger.empty acts) :
    AllRight acts :=
  (told_along hnamed kept_empty (fun _ _ h => by cases h) hapart).imp
    (fun _ _ _ _ _ hkept hnoted h v hv => right_of_told hkept hnoted hv (h v hv)) hnamed kept_empty
    noted_empty

/-! ## Two versions of a package -/

/-- A package of one file. -/
def oneFile (data : Text) : Files := fun p => if p = ["bin".toList] then some ⟨data, 0⟩ else none

/-- `foo` is added from outside and extracted, and added and extracted again. -/
def fooTwice (again : Int) : List Act :=
  [.add [⟨fooFile.source, oneFile "old".toList, 5⟩], .extract fooFile.id false,
    .add [⟨fooFile.source, oneFile "new".toList, again⟩], .extract fooFile.id false]

/-- The example's files are named as packages are. -/
theorem fooTwice_named (again : Int) : ∀ act ∈ fooTwice again, act.WellNamed := by
  have hone : ∀ (deb : Files) (t : Int), (Act.add [⟨fooFile.source, deb, t⟩]).WellNamed := by
    intro deb t d hd
    rw [List.mem_singleton.mp hd]
    exact ⟨fooFile, (by decide : basename fooFile.file = fooFile.file)⟩
  intro act hact
  rcases List.mem_cons.mp hact with rfl | hact
  · exact hone _ _
  · rcases List.mem_cons.mp hact with rfl | hact
    · trivial
    · rcases List.mem_cons.mp hact with rfl | hact
      · exact hone _ _
      · rw [List.mem_singleton.mp hact]
        trivial

/-- A repository that has nothing else is clear. -/
theorem clear_foo {repo : Repo} (h : repo fooFile.id.arch = [fooFile.file]) : Clear repo fooFile.id := by
  intro x hx _
  rw [h] at hx
  rw [List.mem_singleton.mp hx]
  exact package_file fooFile

/-- With another modification time the second version is extracted. -/
theorem fooTwice_right : AllRight (fooTwice 6) := by
  refine (extracts_right_iff (fooTwice 6) (fooTwice_named 6)).1 ⟨?_, ?_, trivial⟩
  · rintro v ⟨⟩
    exact ⟨by decide, clear_foo (by decide), Or.inr nofun⟩
  · rintro v ⟨⟩
    refine ⟨by decide, clear_foo (by decide), Or.inr ?_⟩
    rintro last ⟨⟩ htime
    exact absurd htime (by decide)

/-- **The extract of the old version stays** behind a new one with the same modification time. -/
theorem fooTwice_stale : ¬ AllRight (fooTwice 5) := by
  rintro ⟨-, hright, -⟩
  obtain ⟨dir, hdir, hholds⟩ := hright _ rfl
  have hrun : dir = edirOf fooFile.id.text := by
    injection hdir with h
    exact (Option.some.inj h).symm
  rw [hrun] at hholds
  have hold := hholds ["bin".toList] (by decide)
  exact absurd hold (by decide)

end DentOS.Onlpm
