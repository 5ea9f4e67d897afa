/-
  The package cache (tools/onlpm.py): `OnlPackageManager.load`, with and without caches, and
  `OnlPackageGroup.reload`.

  A cache is kept for a directory, but it is written with all groups that are loaded so far, and a load
  that finds one puts it in place of them.  So what matters of a directory's cache is in the history: the
  files there were when the directory was loaded last, and the directories that were loaded up to it
  then (`Writing`).  A load of it is right where the directories loaded up to it now have the same package
  files, and none of those has kept its time stamp and changed (`Unchanged`); without a cache, where no
  package file of the directory is in one that was loaded before.  The loads of a history are right
  where each meets that, and nowhere else (`loads_right_iff`).

  What carries the proof is an invariant of the caches: as long as the loads are right, the cache of a
  directory has the groups that loads without caches would have given when it was written (`Written`).

  Files are known by their absolute paths, as lists of components.  What `OnlPackageGroup.load` makes of
  a package file is a parameter (`Loader`): a group, `OnlPackageError`, or another exception, which ends
  the program.  A program is a run: it begins without groups, with the files as they are then, and with
  the caches that earlier runs have left, less those that were lost or damaged.  The order of `os.walk`
  is that of the list of files, which is any.
-/
import Mathlib.Data.List.Nodup
import DentOS.Lib.PyText

namespace DentOS.PkgCache

open PyText

/-! ## Files, with the times of their changes -/

/-- The names along a path. -/
abbrev Path := List Text

/-- A file: what is in it, and when it was changed. -/
structure File (C : Type) where
  /-- What is in it. -/
  data : C
  /-- When it was changed. -/
  mtime : Int

/-- Files by their paths. -/
structure Fs (C : Type) where
  /-- The files, with their paths. -/
  files : List (Path × File C)
  /-- A path has one file. -/
  nodup : (files.map Prod.fst).Nodup

/-- The file of a path, if it exists. -/
def Fs.file {C : Type} (fs : Fs C) (p : Path) : Option (File C) :=
  (fs.files.find? fun e => e.1 = p).map Prod.snd

/-- `f in pkgspec`. -/
def isPackage (p : Path) : Bool :=
  p.getLast? = some "PKG.yml".toList || p.getLast? = some "pkg.yml".toList

/-- `"%s.disabled" % f in files`. -/
def disabled {C : Type} (fs : Fs C) (p : Path) : Bool :=
  fs.files.any fun e => e.1 = p.dropLast ++ [p.getLastD [] ++ ".disabled".toList]

/-- The package files that `os.walk` comes to. -/
def walk {C : Type} (fs : Fs C) (dir : Path) : List (Path × File C) :=
  fs.files.filter fun e => dir.isPrefixOf e.1.dropLast && isPackage e.1 && ! disabled fs e.1

/-! ## Package groups, and the loader of a directory -/

/-- What a package file comes to. -/
inductive Parsed (G : Type) where
  | group (g : G)
  | packageError
  | otherError

/-- What package files are loaded as: `distcheck` and `buildercheck`, and the key 'reload', are tests of
    what is loaded. -/
structure Loader (C G : Type) where
  /-- What a file is loaded as. -/
  parse : Path → C → Parsed G
  /-- The two checks of a group. -/
  checks : G → Bool
  /-- The key 'reload'. -/
  reloads : G → Bool

/-- A group: its `__source`, its `__mtime` and the rest. -/
structure Loaded (G : Type) where
  /-- The file it came from. -/
  source : Path
  /-- The time of the file then. -/
  mtime : Int
  /-- What it is. -/
  data : G
  deriving DecidableEq

/-- What loading raises. -/
inductive LoadError where
  | osError
  | packageError
  | otherError
  deriving DecidableEq

/-- What is in a cache file. -/
inductive CacheFile (G : Type) where
  | pickled (groups : List (Loaded G))
  | corrupted

/-- The state: the groups that are loaded, and the cache files of the directories. -/
structure Manager (G : Type) where
  /-- The groups that are loaded. -/
  groups : List (Loaded G)
  /-- The cache file of each directory. -/
  caches : Path → Option (CacheFile G)

/-- The options of a load. -/
structure Opts where
  /-- A cache is looked for. -/
  usecache : Bool
  /-- It is written anew. -/
  rebuildcache : Bool
  /-- It is not written. -/
  roCache : Bool

/-- `load(basedir)`. -/
def Opts.default : Opts := ⟨true, false, false⟩

/-- `load(basedir, usecache=False)`. -/
def Opts.uncached : Opts := ⟨false, false, false⟩

section

variable {C G : Type} (L : Loader C G) (fs : Fs C)

/-- `OnlPackageGroup.load`, over the file that is there. -/
def loadGroup (p : Path) (f : File C) : Except LoadError (Loaded G) :=
  match L.parse p f.data with
  | .group x => .ok ⟨p, f.mtime, x⟩
  | .packageError => .error .packageError
  | .otherError => .error .otherError

/-- `reload`. -/
def reload (g : Loaded G) : Except LoadError (Loaded G) :=
  match fs.file g.source with
  | none => .error .osError
  | some f =>
      if g.mtime ≠ f.mtime ∨ L.reloads g.data = true then loadGroup L g.source f else .ok g

/-- `for pg in self.package_groups: pg.reload()`. -/
def reloadAll : List (Loaded G) → Except LoadError (List (Loaded G))
  | [] => .ok []
  | g :: gs =>
      match reload L fs g with
      | .error e => .error e
      | .ok g' => (reloadAll gs).map (g' :: ·)

/-- `__write_cache`. -/
def writeCache (dir : Path) (m : Manager G) : Manager G :=
  { m with caches := fun d => if d = dir then some (.pickled m.groups) else m.caches d }

/-- `__load_cache`. -/
def loadCache (dir : Path) (ro : Bool) (m : Manager G) : Except LoadError Bool × Manager G :=
  match m.caches dir with
  | none => (.ok false, m)
  | some .corrupted => (.ok false, m)
  | some (.pickled groups) =>
      if ro then (.ok true, { m with groups := groups })
      else
        match reloadAll L fs groups with
        | .error e => (.error e, { m with groups := groups })
        | .ok gs => (.ok true, writeCache dir { m with groups := gs })

/-- The loop of `__build_cache`. -/
def buildFiles : List (Path × File C) → List (Loaded G) → Except LoadError Unit × List (Loaded G)
  | [], gs => (.ok (), gs)
  | e :: es, gs =>
      match loadGroup L e.1 e.2 with
      | .ok g => buildFiles es (if L.checks g.data then gs ++ [g] else gs)
      | .error .packageError => buildFiles es gs
      | .error err => (.error err, gs)

/-- `load` behind a cache that is not loaded. -/
def loadBuild (usecache : Bool) (dir : Path) (m : Manager G) : Except LoadError Unit × Manager G :=
  match buildFiles L (walk fs dir) m.groups with
  | (.error e, gs) => (.error e, { m with groups := gs })
  | (.ok (), gs) =>
      (.ok (), if usecache then writeCache dir { m with groups := gs } else { m with groups := gs })

/-- `load`. -/
def load (opts : Opts) (dir : Path) (m : Manager G) : Except LoadError Unit × Manager G :=
  if opts.usecache = true ∧ opts.rebuildcache = false then
    match loadCache L fs dir opts.roCache m with
    | (.error e, m') => (.error e, m')
    | (.ok true, m') => (.ok (), m')
    | (.ok false, m') => loadBuild L fs true dir m'
  else loadBuild L fs opts.usecache dir m

/-- A load for each directory of a list. -/
def loadAll (opts : Opts) : List Path → Manager G → Except LoadError Unit × Manager G
  | [], m => (.ok (), m)
  | d :: ds, m =>
      match load L fs opts d m with
      | (.error e, m') => (.error e, m')
      | (.ok (), m') => loadAll opts ds m'

end

/-! ## Histories -/

/-- What may become of a cache file between two loads. -/
inductive Fate where
  | kept
  | lost
  | damaged

/-- A run of the program: the files as they are then, what has become of each cache, and the directories
    that are loaded. -/
structure Run (C : Type) where
  /-- The files as they are then. -/
  fs : Fs C
  /-- What has become of each cache. -/
  fate : Path → Fate
  /-- The directories, in the order they are loaded. -/
  dirs : List Path

/-- What is left of the caches. -/
def left {G : Type} (fate : Path → Fate) (caches : Path → Option (CacheFile G)) :
    Path → Option (CacheFile G) := fun d =>
  match fate d with
  | .kept => caches d
  | .lost => none
  | .damaged => (caches d).map fun _ => .corrupted

section

variable {C G : Type} (L : Loader C G)

/-- The manager with which a run begins. -/
def Run.start (r : Run C) (caches : Path → Option (CacheFile G)) : Manager G := ⟨[], left r.fate caches⟩

/-- The caches behind a run. -/
def Run.caches (r : Run C) (caches : Path → Option (CacheFile G)) : Path → Option (CacheFile G) :=
  (loadAll L r.fs .default r.dirs (r.start caches)).2.caches

/-- **The groups are right**: they are the set that loads without caches give, each once. -/
def Right (fs : Fs C) (dirs : List Path) (groups : List (Loaded G)) : Prop :=
  (∃ m, loadAll L fs .uncached dirs ⟨[], fun _ => none⟩ = (.ok (), m) ∧ ∀ g, g ∈ groups ↔ g ∈ m.groups) ∧
    (groups.map Loaded.source).Nodup

/-- Each load of a run returns, and the groups are right behind it. -/
def RightLoads (fs : Fs C) : List Path → Manager G → List Path → Prop
  | _, _, [] => True
  | dirs, m, d :: ds => ∃ m', load L fs .default d m = (.ok (), m') ∧
      Right L fs (dirs ++ [d]) m'.groups ∧ RightLoads fs (dirs ++ [d]) m' ds

/-- **The loads of a history are right**, from these caches on. -/
def AllRight : (Path → Option (CacheFile G)) → List (Run C) → Prop
  | _, [] => True
  | caches, r :: rs => RightLoads L r.fs [] (r.start caches) r.dirs ∧ AllRight (r.caches L caches) rs

/-! ## What a load needs -/

/-- The group of a package file, if it passes the checks. -/
def made (e : Path × File C) : Option (Loaded G) :=
  match L.parse e.1 e.2.data with
  | .group x => if L.checks x then some ⟨e.1, e.2.mtime, x⟩ else none
  | _ => none

/-- The groups of the package files of a directory. -/
def groupsOf (fs : Fs C) (dir : Path) : List (Loaded G) := (walk fs dir).filterMap (made L)

/-- No package file of the directory ends the program. -/
def Clean (fs : Fs C) (dir : Path) : Prop := ∀ e ∈ walk fs dir, L.parse e.1 e.2.data ≠ .otherError

/-- The package files that are loaded from these directories. -/
def sources (fs : Fs C) (dirs : List Path) : List Path :=
  (dirs.flatMap (groupsOf L fs)).map Loaded.source

/-- When a cache was written: the files there were, and the directories loaded up to its own. -/
structure Writing (C : Type) where
  /-- The files there were. -/
  fs : Fs C
  /-- The directories up to its own. -/
  dirs : List Path

/-- **Nothing has changed that is not noticed** since a cache was written: the directories loaded up to
    now have the package files that those then had, and a file with the same time stamp, of a group that is
    not loaded anew, is loaded as the same. -/
structure Unchanged (w : Writing C) (fs : Fs C) (dirs : List Path) : Prop where
  sources : ∀ p, p ∈ sources L w.fs w.dirs ↔ p ∈ sources L fs dirs
  told : ∀ d ∈ w.dirs, ∀ g ∈ groupsOf L w.fs d, ∀ f, fs.file g.source = some f → g.mtime = f.mtime →
    L.reloads g.data = false → L.parse g.source f.data = .group g.data

/-- The history of the caches: for each directory that has an intact one, when it was written. -/
abbrev Writings (C : Type) := Path → Option (Writing C)

/-- What becomes of them between two runs. -/
def Writings.left (fate : Path → Fate) (ws : Writings C) : Writings C := fun d =>
  match fate d with
  | .kept => ws d
  | .lost => none
  | .damaged => none

/-- A load writes the cache of its directory, found or not. -/
def Writings.load (ws : Writings C) (fs : Fs C) (dirs : List Path) (d : Path) : Writings C := fun d' =>
  if d' = d then some ⟨fs, dirs ++ [d]⟩ else ws d'

/-- The loads of a run. -/
def Writings.loads (fs : Fs C) : List Path → Writings C → List Path → Writings C
  | _, ws, [] => ws
  | dirs, ws, d :: ds => Writings.loads fs (dirs ++ [d]) (ws.load fs dirs d) ds

/-- **What a load needs**, behind the directories `dirs`: nothing has changed since its cache was written;
    or it has none, and package files that no earlier directory has. -/
def Coherent (fs : Fs C) (dirs : List Path) (d : Path) (ws : Writings C) : Prop :=
  Clean L fs d ∧
    match ws d with
    | some w => Unchanged L w fs (dirs ++ [d])
    | none => ∀ p ∈ sources L fs [d], p ∉ sources L fs dirs

/-- All directories are coherent, each with what was written when its turn comes. -/
def CoherentLoads (fs : Fs C) : List Path → Writings C → List Path → Prop
  | _, _, [] => True
  | dirs, ws, d :: ds =>
      Coherent L fs dirs d ws ∧ CoherentLoads fs (dirs ++ [d]) (ws.load fs dirs d) ds

/-- Every load of a history meets it. -/
def AllCoherent : Writings C → List (Run C) → Prop
  | _, [] => True
  | ws, r :: rs => CoherentLoads L r.fs [] (ws.left r.fate) r.dirs ∧
      AllCoherent (Writings.loads r.fs [] (ws.left r.fate) r.dirs) rs

end

/-! ## The files of a system, and the groups in them -/

section

variable {C G : Type} {L : Loader C G} {fs : Fs C}

/-- A file of the tree is one of the list. -/
theorem file_eq_some {p : Path} {f : File C} : fs.file p = some f ↔ (p, f) ∈ fs.files := by
  rw [Fs.file, Option.map_eq_some_iff]
  constructor
  · rintro ⟨⟨q, f'⟩, hfind, rfl⟩
    have hfound := List.find?_some hfind
    have hq : q = p := of_decide_eq_true hfound
    rw [← hq]
    exact List.mem_of_find?_eq_some hfind
  · intro hmem
    cases hfind : fs.files.find? fun e => e.1 = p with
    | none => exact absurd (decide_eq_true rfl) (List.find?_eq_none.mp hfind (p, f) hmem)
    | some e =>
        have hfound := List.find?_some hfind
        have he : e.1 = p := of_decide_eq_true hfound
        refine ⟨e, rfl, ?_⟩
        rw [List.inj_on_of_nodup_map fs.nodup (List.mem_of_find?_eq_some hfind) hmem he]

/-- A group is made of a file that is parsed and passes its checks. -/
theorem made_eq_some {e : Path × File C} {g : Loaded G} : made L e = some g ↔
    L.parse e.1 e.2.data = .group g.data ∧ L.checks g.data = true ∧ g.source = e.1 ∧ g.mtime = e.2.mtime := by
  rw [made]
  split
  · next x hx =>
      rw [hx]
      split
      · next hchecks =>
          constructor
          · rintro ⟨⟩
            exact ⟨rfl, hchecks, rfl, rfl⟩
          · rintro ⟨hdata, -, hsource, hmtime⟩
            obtain ⟨source, mtime, data⟩ := g
            cases hdata
            cases hsource
            cases hmtime
            rfl
      · next hchecks =>
          constructor
          · rintro ⟨⟩
          · rintro ⟨hdata, hpass, -⟩
            cases hdata
            exact absurd hpass hchecks
  · next hne =>
      constructor
      · rintro ⟨⟩
      · rintro ⟨hdata, -⟩
        exact absurd hdata (hne g.data)

/-- The group of a path is the one that its file makes. -/
theorem mem_groupsOf {d : Path} {g : Loaded G} : g ∈ groupsOf L fs d ↔
    ∃ f, (g.source, f) ∈ walk fs d ∧ made L (g.source, f) = some g := by
  rw [groupsOf, List.mem_filterMap]
  constructor
  · rintro ⟨⟨p, f⟩, hmem, hmade⟩
    obtain ⟨-, -, hsource, -⟩ := made_eq_some.mp hmade
    rw [show p = g.source from hsource.symm] at hmem hmade
    exact ⟨f, hmem, hmade⟩
  · rintro ⟨f, hmem, hmade⟩
    exact ⟨_, hmem, hmade⟩

/-- The files that are walked are those of the tree. -/
theorem file_of_walk {d p : Path} {f : File C} (h : (p, f) ∈ walk fs d) : fs.file p = some f :=
  file_eq_some.mpr (List.mem_filter.mp h).1

/-- **A package file has one group**, from whatever directory it is reached. -/
theorem eq_of_source {d d' : Path} {g g' : Loaded G} (hg : g ∈ groupsOf L fs d) (hg' : g' ∈ groupsOf L fs d')
    (hsource : g.source = g'.source) : g = g' := by
  obtain ⟨f, hwalk, hmade⟩ := mem_groupsOf.mp hg
  obtain ⟨f', hwalk', hmade'⟩ := mem_groupsOf.mp hg'
  have hf := file_of_walk hwalk
  rw [hsource, file_of_walk hwalk'] at hf
  cases hf
  rw [hsource, hmade'] at hmade
  exact (Option.some.inj hmade).symm

/-- A file makes one group at most. -/
theorem nodup_groupsOf (d : Path) : ((groupsOf L fs d).map Loaded.source).Nodup := by
  have hsub : ((groupsOf L fs d).map Loaded.source).Sublist ((walk fs d).map Prod.fst) := by
    rw [groupsOf]
    induction walk fs d with
    | nil => exact List.Sublist.refl _
    | cons e es ih =>
        rw [List.filterMap_cons]
        cases hmade : made L e with
        | none => exact ih.cons _
        | some g =>
            obtain ⟨-, -, hsource, -⟩ := made_eq_some.mp hmade
            rw [List.map_cons, List.map_cons, hsource]
            exact ih.cons_cons _
  exact (fs.nodup.sublist (List.filter_sublist.map Prod.fst)).sublist hsub

/-! ## Loads without caches give what is in the files -/

/-- A group is loaded with its file and its time. -/
theorem loadGroup_eq_ok {p : Path} {f : File C} {g : Loaded G} : loadGroup L p f = .ok g ↔
    L.parse p f.data = .group g.data ∧ g.source = p ∧ g.mtime = f.mtime := by
  rw [loadGroup]
  cases hparse : L.parse p f.data with
  | group x =>
      constructor
      · rintro ⟨⟩
        exact ⟨rfl, rfl, rfl⟩
      · rintro ⟨hdata, hsource, hmtime⟩
        obtain ⟨source, mtime, data⟩ := g
        cases hdata
        cases hsource
        cases hmtime
        rfl
  | packageError =>
      constructor
      · rintro ⟨⟩
      · rintro ⟨⟨⟩, -⟩
  | otherError =>
      constructor
      · rintro ⟨⟩
      · rintro ⟨⟨⟩, -⟩

/-- The loop over the files makes the groups, by induction on the files. -/
theorem buildFiles_ok : ∀ {es : List (Path × File C)} {gs gs' : List (Loaded G)},
    buildFiles L es gs = (.ok (), gs') ↔
      (∀ e ∈ es, L.parse e.1 e.2.data ≠ .otherError) ∧ gs' = gs ++ es.filterMap (made L)
  | [], gs, gs' => by
      rw [buildFiles, List.filterMap_nil, List.append_nil]
      constructor
      · rintro ⟨⟩
        exact ⟨fun _ h => absurd h List.not_mem_nil, rfl⟩
      · rintro ⟨-, rfl⟩
        rfl
  | e :: es, gs, gs' => by
      rw [List.forall_mem_cons]
      cases hparse : L.parse e.1 e.2.data with
      | group x =>
          have hstep : buildFiles L (e :: es) gs =
              buildFiles L es (if L.checks x then gs ++ [⟨e.1, e.2.mtime, x⟩] else gs) := by
            rw [buildFiles, loadGroup, hparse]
          have hmade : made L e = if L.checks x then some ⟨e.1, e.2.mtime, x⟩ else none := by
            rw [made, hparse]
          have hgroup : Parsed.group x ≠ .otherError := fun h => (nomatch h)
          by_cases hpass : L.checks x = true
          · rw [if_pos hpass] at hstep hmade
            rw [hstep, buildFiles_ok, List.filterMap_cons, hmade, List.append_assoc]
            exact and_congr_left fun _ => ⟨fun h => ⟨hgroup, h⟩, And.right⟩
          · rw [if_neg hpass] at hstep hmade
            rw [hstep, buildFiles_ok, List.filterMap_cons, hmade]
            exact and_congr_left fun _ => ⟨fun h => ⟨hgroup, h⟩, And.right⟩
      | packageError =>
          have hstep : buildFiles L (e :: es) gs = buildFiles L es gs := by
            rw [buildFiles, loadGroup, hparse]
          have hmade : made L e = none := by
            rw [made, hparse]
          rw [hstep, buildFiles_ok, List.filterMap_cons, hmade]
          exact and_congr_left fun _ => ⟨fun h => ⟨fun h => (nomatch h), h⟩, And.right⟩
      | otherError =>
          rw [buildFiles, loadGroup, hparse]
          constructor
          · rintro ⟨⟩
          · rintro ⟨⟨hne, -⟩, -⟩
            exact absurd rfl hne

/-- A build makes the groups of the directory, and writes them if it is told to. -/
theorem loadBuild_ok {usecache : Bool} {d : Path} {m m' : Manager G} :
    loadBuild L fs usecache d m = (.ok (), m') ↔ Clean L fs d ∧
      m' = if usecache then writeCache d { m with groups := m.groups ++ groupsOf L fs d }
        else { m with groups := m.groups ++ groupsOf L fs d } := by
  rw [loadBuild]
  rcases hbuild : buildFiles L (walk fs d) m.groups with ⟨e | ⟨⟩, gs⟩
  · constructor
    · rintro ⟨⟩
    · rintro ⟨hclean, -⟩
      have hok : buildFiles L (walk fs d) m.groups = (.ok (), m.groups ++ groupsOf L fs d) :=
        buildFiles_ok.mpr ⟨hclean, rfl⟩
      rw [hbuild] at hok
      cases hok
  · obtain ⟨hclean, rfl⟩ := buildFiles_ok.mp hbuild
    constructor
    · intro h
      exact ⟨hclean, (Prod.mk.inj h).2.symm⟩
    · rintro ⟨-, rfl⟩
      rfl

/-- Without the cache the directory is built. -/
theorem load_uncached (d : Path) (m : Manager G) : load L fs .uncached d m = loadBuild L fs false d m := by
  rw [load, if_neg]
  · rfl
  · rintro ⟨h, -⟩
    cases h

/-- **Without caches**, the groups are those of all directories. -/
theorem loadAll_uncached : ∀ {dirs : List Path} {m m' : Manager G},
    loadAll L fs .uncached dirs m = (.ok (), m') ↔ (∀ d ∈ dirs, Clean L fs d) ∧
      m' = { m with groups := m.groups ++ dirs.flatMap (groupsOf L fs) }
  | [], m, m' => by
      rw [loadAll, List.flatMap_nil, List.append_nil]
      constructor
      · rintro ⟨⟩
        exact ⟨fun _ h => absurd h List.not_mem_nil, rfl⟩
      · rintro ⟨-, rfl⟩
        rfl
  | d :: ds, m, m' => by
      rw [loadAll, load_uncached, List.forall_mem_cons]
      rcases hbuild : loadBuild L fs false d m with ⟨e | ⟨⟩, m₁⟩
      · constructor
        · rintro ⟨⟩
        · rintro ⟨⟨hclean, -⟩, -⟩
          have hok : loadBuild L fs false d m = (.ok (), { m with groups := m.groups ++ groupsOf L fs d }) :=
            loadBuild_ok.mpr ⟨hclean, rfl⟩
          rw [hbuild] at hok
          cases hok
      · obtain ⟨hclean, hm₁⟩ := loadBuild_ok.mp hbuild
        subst hm₁
        show loadAll L fs .uncached ds _ = _ ↔ _
        rw [loadAll_uncached, List.flatMap_cons, ← List.append_assoc]
        exact and_congr_left fun _ => ⟨fun h => ⟨hclean, h⟩, And.right⟩

/-- **What is right**: the union, over the directories, of the groups of the package files there are. -/
theorem right_iff {dirs : List Path} {groups : List (Loaded G)} : Right L fs dirs groups ↔
    (∀ d ∈ dirs, Clean L fs d) ∧ (∀ g, g ∈ groups ↔ ∃ d ∈ dirs, g ∈ groupsOf L fs d) ∧
      (groups.map Loaded.source).Nodup := by
  rw [Right]
  constructor
  · rintro ⟨⟨m, hm, hmem⟩, hnodup⟩
    obtain ⟨hclean, rfl⟩ := loadAll_uncached.mp hm
    refine ⟨hclean, fun g => ?_, hnodup⟩
    rw [hmem, List.nil_append, List.mem_flatMap]
  · rintro ⟨hclean, hmem, hnodup⟩
    refine ⟨⟨_, loadAll_uncached.mpr ⟨hclean, rfl⟩, fun g => ?_⟩, hnodup⟩
    rw [hmem, List.nil_append, List.mem_flatMap]

/-! ## Loads of caches -/

/-- A cache is current: it has the package files of the directories once each, and no others, and a group
    that is not loaded anew is what its file contains. -/
structure Current (L : Loader C G) (fs : Fs C) (dirs : List Path) (cached : List (Loaded G)) : Prop where
  nodup : (cached.map Loaded.source).Nodup
  sources : ∀ p, p ∈ cached.map Loaded.source ↔ ∃ d ∈ dirs, p ∈ (groupsOf L fs d).map Loaded.source
  told : ∀ g ∈ cached, ∀ f, fs.file g.source = some f → g.mtime = f.mtime → L.reloads g.data = false →
    L.parse g.source f.data = .group g.data

/-- What one load needs of the caches themselves. -/
def Ready (L : Loader C G) (fs : Fs C) (dirs : List Path) (d : Path) (m : Manager G) : Prop :=
  Clean L fs d ∧
    match m.caches d with
    | some (.pickled cached) => Current L fs (dirs ++ [d]) cached
    | _ => ∀ g ∈ groupsOf L fs d, g.source ∉ m.groups.map Loaded.source

/-- A group that is loaded again comes from its file. -/
theorem source_reload {g g' : Loaded G} (h : reload L fs g = .ok g') : g'.source = g.source := by
  rw [reload] at h
  split at h
  · cases h
  · split at h
    · exact (loadGroup_eq_ok.mp h).2.1
    · cases h
      rfl

/-- All groups are loaded again, each from its file; by induction on them. -/
theorem reloadAll_ok : ∀ {gs gs' : List (Loaded G)}, reloadAll L fs gs = .ok gs' →
    gs'.map Loaded.source = gs.map Loaded.source ∧ (∀ g ∈ gs, ∃ g' ∈ gs', reload L fs g = .ok g') ∧
      ∀ g' ∈ gs', ∃ g ∈ gs, reload L fs g = .ok g'
  | [], gs', h => by
      rw [reloadAll] at h
      cases h
      exact ⟨rfl, fun _ h => absurd h List.not_mem_nil, fun _ h => absurd h List.not_mem_nil⟩
  | g :: gs, gs', h => by
      rw [reloadAll] at h
      cases hg : reload L fs g with
      | error e =>
          rw [hg] at h
          cases h
      | ok g₁ =>
          cases hrest : reloadAll L fs gs with
          | error e =>
              rw [hg, hrest] at h
              cases h
          | ok gs₁ =>
              rw [hg, hrest] at h
              cases h
              obtain ⟨hsources, hforth, hback⟩ := reloadAll_ok hrest
              refine ⟨?_, ?_, ?_⟩
              · rw [List.map_cons, List.map_cons, source_reload hg, hsources]
              · intro x hx
                rcases List.mem_cons.mp hx with rfl | hx
                · exact ⟨g₁, List.mem_cons_self, hg⟩
                · obtain ⟨x', hx', hreload⟩ := hforth x hx
                  exact ⟨x', List.mem_cons_of_mem g₁ hx', hreload⟩
              · intro x' hx'
                rcases List.mem_cons.mp hx' with rfl | hx'
                · exact ⟨g, List.mem_cons_self, hg⟩
                · obtain ⟨x, hx, hreload⟩ := hback x' hx'
                  exact ⟨x, List.mem_cons_of_mem g hx, hreload⟩

/-- Where each can be loaded again they all can. -/
theorem reloadAll_total : ∀ {gs : List (Loaded G)}, (∀ g ∈ gs, ∃ g', reload L fs g = .ok g') →
    ∃ gs', reloadAll L fs gs = .ok gs'
  | [], _ => ⟨[], rfl⟩
  | g :: gs, h => by
      obtain ⟨g', hg⟩ := h g List.mem_cons_self
      obtain ⟨gs', hrest⟩ := reloadAll_total fun x hx => h x (List.mem_cons_of_mem g hx)
      rw [reloadAll, hg, hrest]
      exact ⟨g' :: gs', rfl⟩

/-- **A group of a current cache** comes out as what its file makes. -/
theorem reload_current {dirs : List Path} {cached : List (Loaded G)} (hcurrent : Current L fs dirs cached)
    {g : Loaded G} (hg : g ∈ cached) :
    ∃ g', reload L fs g = .ok g' ∧ ∃ d ∈ dirs, g' ∈ groupsOf L fs d := by
  obtain ⟨d, hd, hsource⟩ := (hcurrent.sources g.source).mp (List.mem_map_of_mem hg)
  obtain ⟨x, hx, hsame⟩ := List.mem_map.mp hsource
  obtain ⟨f, hwalk, hmade⟩ := mem_groupsOf.mp hx
  obtain ⟨hparse, -, -, hmtime⟩ := made_eq_some.mp hmade
  have hf : fs.file g.source = some f := by
    rw [← hsame]
    exact file_of_walk hwalk
  refine ⟨x, ?_, d, hd, hx⟩
  rw [reload, hf]
  dsimp only
  split
  · rw [loadGroup_eq_ok, ← hsame]
    exact ⟨hparse, rfl, hmtime⟩
  · next hkeep =>
      -- It keeps its time, and the file makes what it is.
      have htime : g.mtime = f.mtime := Decidable.not_not.mp fun h => hkeep (Or.inl h)
      have hreloads : L.reloads g.data = false := Bool.not_eq_true _ ▸ fun h => hkeep (Or.inr h)
      have htold := hcurrent.told g hg f hf htime hreloads
      rw [← hsame, hparse] at htold
      obtain ⟨source, mtime, data⟩ := g
      obtain ⟨source', mtime', data'⟩ := x
      cases hsame
      cases htold
      have hequal : mtime = mtime' := htime.trans hmtime.symm
      rw [hequal]

/-- **When a cache is right**: exactly where it is current. -/
theorem current_iff {dirs : List Path} {cached : List (Loaded G)} :
    (∃ new, reloadAll L fs cached = .ok new ∧ (∀ g, g ∈ new ↔ ∃ d ∈ dirs, g ∈ groupsOf L fs d) ∧
      (new.map Loaded.source).Nodup) ↔ Current L fs dirs cached := by
  constructor
  · rintro ⟨new, hnew, hmem, hnodup⟩
    obtain ⟨hsources, hforth, -⟩ := reloadAll_ok hnew
    refine ⟨hsources ▸ hnodup, fun p => ?_, fun g hg f hf htime hreloads => ?_⟩
    · rw [← hsources, List.mem_map]
      constructor
      · rintro ⟨g, hg, rfl⟩
        obtain ⟨d, hd, hgd⟩ := (hmem g).mp hg
        exact ⟨d, hd, List.mem_map_of_mem hgd⟩
      · rintro ⟨d, hd, hp⟩
        obtain ⟨g, hg, rfl⟩ := List.mem_map.mp hp
        exact ⟨g, (hmem g).mpr ⟨d, hd, hg⟩, rfl⟩
    · obtain ⟨g', hg', hreload⟩ := hforth g hg
      have hkeep : reload L fs g = .ok g := by
        rw [reload, hf]
        dsimp only
        rw [if_neg]
        rintro (h | h)
        · exact h htime
        · rw [hreloads] at h
          cases h
      rw [hkeep] at hreload
      cases hreload
      obtain ⟨d, hd, hgd⟩ := (hmem g).mp hg'
      obtain ⟨f', hwalk, hmade⟩ := mem_groupsOf.mp hgd
      cases hf.symm.trans (file_of_walk hwalk)
      exact (made_eq_some.mp hmade).1
  · intro hcurrent
    obtain ⟨new, hnew⟩ := reloadAll_total fun g hg =>
      (reload_current hcurrent hg).imp fun _ => And.left
    obtain ⟨hsources, hforth, hback⟩ := reloadAll_ok hnew
    have hmade : ∀ g ∈ cached, ∀ g' , reload L fs g = .ok g' → ∃ d ∈ dirs, g' ∈ groupsOf L fs d := by
      intro g hg g' hreload
      obtain ⟨x, hx, hexpected⟩ := reload_current hcurrent hg
      cases hreload.symm.trans hx
      exact hexpected
    refine ⟨new, hnew, fun g' => ⟨fun hg' => ?_, ?_⟩, hsources.symm ▸ hcurrent.nodup⟩
    · obtain ⟨g, hg, hreload⟩ := hback g' hg'
      exact hmade g hg g' hreload
    · rintro ⟨d, hd, hg'⟩
      have hsource := (hcurrent.sources g'.source).mpr ⟨d, hd, List.mem_map_of_mem hg'⟩
      obtain ⟨g, hg, hsame⟩ := List.mem_map.mp hsource
      obtain ⟨x, hx, hreload⟩ := hforth g hg
      obtain ⟨d', -, hx'⟩ := hmade g hg x hreload
      rw [← eq_of_source hx' hg' ((source_reload hreload).trans hsame)]
      exact hx

/-! ## One load, of several directories -/

/-- Where the other directories are clean, all of them are when the last one is. -/
theorem clean_concat {dirs : List Path} (hclean : ∀ d' ∈ dirs, Clean L fs d') (d : Path) :
    (∀ d' ∈ dirs ++ [d], Clean L fs d') ↔ Clean L fs d := by
  constructor
  · exact fun h => h d (List.mem_append_right _ (List.mem_singleton_self d))
  · intro h d' hd'
    rcases List.mem_append.mp hd' with hd' | hd'
    · exact hclean d' hd'
    · rw [List.mem_singleton.mp hd']
      exact h

/-- The groups of the directories, and those of one more. -/
theorem mem_append_groupsOf {dirs : List Path} {gs : List (Loaded G)}
    (hmem : ∀ g, g ∈ gs ↔ ∃ d' ∈ dirs, g ∈ groupsOf L fs d') (d : Path) (g : Loaded G) :
    g ∈ gs ++ groupsOf L fs d ↔ ∃ d' ∈ dirs ++ [d], g ∈ groupsOf L fs d' := by
  rw [List.mem_append, hmem]
  constructor
  · rintro (⟨d', hd', hg⟩ | hg)
    · exact ⟨d', List.mem_append_left _ hd', hg⟩
    · exact ⟨d, List.mem_append_right _ (List.mem_singleton_self d), hg⟩
  · rintro ⟨d', hd', hg⟩
    rcases List.mem_append.mp hd' with hd' | hd'
    · exact Or.inl ⟨d', hd', hg⟩
    · rw [List.mem_singleton.mp hd'] at hg
      exact Or.inr hg

/-- No file is loaded twice exactly where none of the directory has been loaded before. -/
theorem nodup_append_groupsOf {gs : List (Loaded G)} (hnodup : (gs.map Loaded.source).Nodup) (d : Path) :
    ((gs ++ groupsOf L fs d).map Loaded.source).Nodup ↔
      ∀ g ∈ groupsOf L fs d, g.source ∉ gs.map Loaded.source := by
  rw [List.map_append, List.nodup_append]
  constructor
  · rintro ⟨-, -, hne⟩ g hg hin
    exact hne _ hin _ (List.mem_map_of_mem hg) rfl
  · intro h
    refine ⟨hnodup, nodup_groupsOf d, fun p hp q hq hpq => ?_⟩
    obtain ⟨g, hg, rfl⟩ := List.mem_map.mp hq
    exact h g hg (hpq ▸ hp)

/-- **A load that builds** puts the groups of the directory behind the others. -/
theorem loadBuild_right_iff {dirs : List Path} {m : Manager G} (hright : Right L fs dirs m.groups)
    (d : Path) :
    (∃ m', loadBuild L fs true d m = (.ok (), m') ∧ Right L fs (dirs ++ [d]) m'.groups) ↔
      Clean L fs d ∧ ∀ g ∈ groupsOf L fs d, g.source ∉ m.groups.map Loaded.source := by
  obtain ⟨hclean, hmem, hnodup⟩ := right_iff.mp hright
  constructor
  · rintro ⟨m', hm', hright'⟩
    obtain ⟨hclean', rfl⟩ := loadBuild_ok.mp hm'
    exact ⟨hclean', (nodup_append_groupsOf hnodup d).mp (right_iff.mp hright').2.2⟩
  · rintro ⟨hclean', hdisjoint⟩
    refine ⟨_, loadBuild_ok.mpr ⟨hclean', rfl⟩, right_iff.mpr ⟨(clean_concat hclean d).mpr hclean',
      mem_append_groupsOf hmem d, ?_⟩⟩
    exact (nodup_append_groupsOf hnodup d).mpr hdisjoint

/-- **One load**: behind groups that are right, they stay right exactly where the load has what it
    needs. -/
theorem load_right_iff {dirs : List Path} {m : Manager G} (hright : Right L fs dirs m.groups) (d : Path) :
    (∃ m', load L fs .default d m = (.ok (), m') ∧ Right L fs (dirs ++ [d]) m'.groups) ↔
      Ready L fs dirs d m := by
  have hcleans := clean_concat (right_iff.mp hright).1 d
  have hopts : Opts.default.usecache = true ∧ Opts.default.rebuildcache = false := ⟨rfl, rfl⟩
  rw [Ready, load, if_pos hopts]
  cases hcache : m.caches d with
  | none =>
      rw [loadCache, hcache]
      exact loadBuild_right_iff hright d
  | some cache =>
      cases cache with
      | corrupted =>
          rw [loadCache, hcache]
          exact loadBuild_right_iff hright d
      | pickled cached =>
          rw [loadCache, hcache]
          dsimp only
          rw [if_neg (by decide), ← current_iff]
          cases hreload : reloadAll L fs cached with
          | error e =>
              constructor
              · rintro ⟨m', hm', -⟩
                cases hm'
              · rintro ⟨-, new, hnew, -⟩
                cases hnew
          | ok new =>
              constructor
              · rintro ⟨m', hm', hright'⟩
                cases hm'
                obtain ⟨hclean', hmem', hnodup'⟩ := right_iff.mp hright'
                exact ⟨hcleans.mp hclean', new, rfl, hmem', hnodup'⟩
              · rintro ⟨hclean', new', hnew', hmem', hnodup'⟩
                cases hnew'
                exact ⟨_, rfl, right_iff.mpr ⟨hcleans.mpr hclean', hmem', hnodup'⟩⟩

/-! ## What the caches keep of the history: when each was written -/

/-- **The invariant**: a directory has an intact cache where the history says so, and the cache has the
    groups that were right when it was written. -/
def Written (L : Loader C G) (caches : Path → Option (CacheFile G)) (ws : Writings C) : Prop :=
  ∀ d, match ws d with
    | some w => ∃ cached, caches d = some (.pickled cached) ∧ Right L w.fs w.dirs cached
    | none => ∀ cached, caches d ≠ some (.pickled cached)

/-- At first nothing was written. -/
theorem written_nothing : Written L (fun _ => none) fun _ => none := fun _ _ h => by cases h

/-- What becomes of the cache files is known. -/
theorem written_left {caches : Path → Option (CacheFile G)} {ws : Writings C} (h : Written L caches ws)
    (fate : Path → Fate) : Written L (left fate caches) (ws.left fate) := by
  intro d
  have hd := h d
  rw [Writings.left]
  cases hfate : fate d with
  | kept =>
      have hleft : left fate caches d = caches d := by rw [left, hfate]
      rw [hleft]
      exact hd
  | lost =>
      have hleft : left fate caches d = none := by rw [left, hfate]
      rw [hleft]
      exact fun _ h => by cases h
  | damaged =>
      have hleft : left fate caches d = (caches d).map fun _ => .corrupted := by rw [left, hfate]
      rw [hleft]
      intro cached hcached
      obtain ⟨c, -, hc⟩ := Option.map_eq_some_iff.mp hcached
      cases hc

/-- The sources are those of the directories. -/
theorem mem_sources {fs : Fs C} {dirs : List Path} {p : Path} : p ∈ sources L fs dirs ↔
    ∃ d ∈ dirs, p ∈ (groupsOf L fs d).map Loaded.source := by
  rw [sources, List.map_flatMap, List.mem_flatMap]

/-- The sources of groups that are right are the package files of the directories. -/
theorem Right.mem_sources {dirs : List Path} {groups : List (Loaded G)} (h : Right L fs dirs groups)
    {p : Path} : p ∈ groups.map Loaded.source ↔ p ∈ sources L fs dirs := by
  obtain ⟨-, hmem, -⟩ := right_iff.mp h
  rw [PkgCache.mem_sources, List.mem_map]
  constructor
  · rintro ⟨g, hg, rfl⟩
    obtain ⟨d, hd, hgd⟩ := (hmem g).mp hg
    exact ⟨d, hd, List.mem_map_of_mem hgd⟩
  · rintro ⟨d, hd, hp⟩
    obtain ⟨g, hg, rfl⟩ := List.mem_map.mp hp
    exact ⟨g, (hmem g).mpr ⟨d, hd, hg⟩, rfl⟩

/-- **A cache that was right when it was written is current** where nothing has changed unnoticed. -/
theorem current_iff_unchanged {w : Writing C} {cached : List (Loaded G)}
    (hwritten : Right L w.fs w.dirs cached) {dirs : List Path} :
    Current L fs dirs cached ↔ Unchanged L w fs dirs := by
  obtain ⟨-, hmem, hnodup⟩ := right_iff.mp hwritten
  constructor
  · intro h
    refine ⟨fun p => ?_, fun d hd g hg => h.told g ((hmem g).mpr ⟨d, hd, hg⟩)⟩
    rw [← hwritten.mem_sources, h.sources, PkgCache.mem_sources]
  · intro h
    refine ⟨hnodup, fun p => ?_, fun g hg => ?_⟩
    · rw [hwritten.mem_sources, h.sources, PkgCache.mem_sources]
    · obtain ⟨d, hd, hgd⟩ := (hmem g).mp hg
      exact h.told d hd g hgd

/-- What a load needs of the caches is what it needs of the history. -/
theorem ready_iff {dirs : List Path} {m : Manager G} {ws : Writings C} (hright : Right L fs dirs m.groups)
    (hwritten : Written L m.caches ws) (d : Path) : Ready L fs dirs d m ↔ Coherent L fs dirs d ws := by
  have hd := hwritten d
  rw [Ready, Coherent]
  refine and_congr_right fun _ => ?_
  cases hw : ws d with
  | some w =>
      rw [hw] at hd
      obtain ⟨cached, hcached, hthen⟩ := hd
      rw [hcached]
      exact current_iff_unchanged hthen
  | none =>
      rw [hw] at hd
      have hnew : (∀ g ∈ groupsOf L fs d, g.source ∉ m.groups.map Loaded.source) ↔
          ∀ p ∈ sources L fs [d], p ∉ sources L fs dirs := by
        have hone : sources L fs [d] = (groupsOf L fs d).map Loaded.source := by
          rw [sources, List.flatMap_singleton]
        rw [hone, List.forall_mem_map]
        exact forall₂_congr fun g _ => not_congr hright.mem_sources
      dsimp only
      split
      · next cached hcached => exact absurd hcached (hd cached)
      · exact hnew

/-- **A load that is right leaves the history in the caches.** -/
theorem written_load {dirs : List Path} {m m' : Manager G} {ws : Writings C}
    (hwritten : Written L m.caches ws) {d : Path} (hload : load L fs .default d m = (.ok (), m'))
    (hright : Right L fs (dirs ++ [d]) m'.groups) : Written L m'.caches (ws.load fs dirs d) := by
  have hcaches : m'.caches = fun d' => if d' = d then some (.pickled m'.groups) else m.caches d' := by
    have hopts : Opts.default.usecache = true ∧ Opts.default.rebuildcache = false := ⟨rfl, rfl⟩
    have hbuilt : loadBuild L fs true d m = (.ok (), m') →
        m'.caches = fun d' => if d' = d then some (.pickled m'.groups) else m.caches d' := by
      intro h
      obtain ⟨-, rfl⟩ := loadBuild_ok.mp h
      rfl
    rw [load, if_pos hopts, loadCache] at hload
    cases hcache : m.caches d with
    | none =>
        rw [hcache] at hload
        exact hbuilt hload
    | some cache =>
        rw [hcache] at hload
        cases cache with
        | corrupted => exact hbuilt hload
        | pickled cached =>
            dsimp only at hload
            rw [if_neg (by decide)] at hload
            cases hreload : reloadAll L fs cached with
            | error e =>
                rw [hreload] at hload
                cases hload
            | ok new =>
                rw [hreload] at hload
                cases hload
                rfl
  intro d'
  rw [Writings.load, hcaches]
  by_cases hd : d' = d
  · rw [if_pos hd]
    exact ⟨m'.groups, if_pos hd, hright⟩
  · rw [if_neg hd]
    dsimp only
    rw [if_neg hd]
    exact hwritten d'

/-! ## Histories -/

/-- Without directories nothing is to be loaded. -/
theorem right_nothing : Right L fs [] [] :=
  right_iff.mpr ⟨fun _ h => absurd h List.not_mem_nil,
    fun _ => ⟨fun h => absurd h List.not_mem_nil, fun ⟨_, h, _⟩ => absurd h List.not_mem_nil⟩,
    List.nodup_nil⟩

/-- One run: by induction on the directories to come. -/
theorem rightLoads_iff : ∀ {ds dirs : List Path} {m : Manager G} {ws : Writings C},
    Right L fs dirs m.groups → Written L m.caches ws →
    (RightLoads L fs dirs m ds ↔ CoherentLoads L fs dirs ws ds)
  | [], _, _, _, _, _ => Iff.rfl
  | d :: ds, dirs, m, ws, hright, hwritten => by
      rw [RightLoads, CoherentLoads, ← ready_iff hright hwritten d, ← load_right_iff hright d]
      constructor
      · rintro ⟨m', hm', hright', hrest⟩
        exact ⟨⟨m', hm', hright'⟩,
          (rightLoads_iff hright' (written_load hwritten hm' hright')).mp hrest⟩
      · rintro ⟨⟨m', hm', hright'⟩, hrest⟩
        exact ⟨m', hm', hright',
          (rightLoads_iff hright' (written_load hwritten hm' hright')).mpr hrest⟩

/-- **A run whose loads are right** leaves the history in the caches. -/
theorem written_loads : ∀ {ds dirs : List Path} {m : Manager G} {ws : Writings C},
    Written L m.caches ws → RightLoads L fs dirs m ds →
    Written L (loadAll L fs .default ds m).2.caches (Writings.loads fs dirs ws ds)
  | [], _, _, _, hwritten, _ => hwritten
  | d :: ds, dirs, m, ws, hwritten, hall => by
      obtain ⟨m', hm', hright', hrest⟩ := hall
      rw [loadAll, hm', Writings.loads]
      exact written_loads (written_load hwritten hm' hright') hrest

/-- All runs, one behind the other. -/
theorem allRight_iff (L : Loader C G) : ∀ (runs : List (Run C)) {caches : Path → Option (CacheFile G)}
    {ws : Writings C}, Written L caches ws → (AllRight L caches runs ↔ AllCoherent L ws runs)
  | [], _, _, _ => Iff.rfl
  | r :: rs, caches, ws, hwritten => by
      have hstart : Written L (r.start caches).caches (ws.left r.fate) := written_left hwritten r.fate
      rw [AllRight, AllCoherent, ← rightLoads_iff right_nothing hstart]
      refine and_congr_right fun hright => ?_
      exact allRight_iff L rs (written_loads hstart hright)

/-- **The cache is transparent** in a history that begins without caches, where every load has what it
    needs, and only there. -/
theorem loads_right_iff (L : Loader C G) (runs : List (Run C)) :
    AllRight L (fun _ => none) runs ↔ AllCoherent L (fun _ => none) runs :=
  allRight_iff L runs written_nothing

end

/-! ## Two directories -/

/-- Package files without contents, each a group. -/
def plainLoader : Loader Unit Unit := ⟨fun _ _ => .group (), fun _ => true, fun _ => false⟩

/-- Two directories. -/
def dirA : Path := ["a".toList]

def dirB : Path := ["b".toList]

/-- A package file in each. -/
def twoFiles : Fs Unit where
  files := [(dirA ++ ["PKG.yml".toList], ⟨(), 1⟩), (dirB ++ ["PKG.yml".toList], ⟨(), 1⟩)]
  nodup := by decide

/-- The directories are loaded in one order, and then in the other. -/
def bothOrders : List (Run Unit) :=
  [⟨twoFiles, fun _ => .kept, [dirA, dirB]⟩, ⟨twoFiles, fun _ => .kept, [dirB, dirA]⟩]

/-- **The second order loses a group**: the cache of `a` has no more than `a`. -/
theorem bothOrders_lost : ¬ AllRight plainLoader (fun _ => none) bothOrders := by
  rintro ⟨-, ⟨m, hm, -, ⟨m', hm', hright, -⟩⟩, -⟩
  cases hm
  cases hm'
  obtain ⟨-, hmem, -⟩ := right_iff.mp hright
  have hb : (⟨dirB ++ ["PKG.yml".toList], 1, ()⟩ : Loaded Unit) ∈ groupsOf plainLoader twoFiles dirB := by
    decide
  have hlost := (hmem _).mpr ⟨dirB, List.mem_cons_self, hb⟩
  revert hlost
  decide

end DentOS.PkgCache
