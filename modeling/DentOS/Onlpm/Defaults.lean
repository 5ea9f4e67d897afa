/-
  The defaults of a package (tools/onlpm.py): `OnlPackage.package_defaults_get`.

  The walk up goes on until the directory is "/", in just this spelling.  It comes there from the paths
  that begin with exactly one slash; the others end in an empty text or in two slashes, and are their own
  directories from there on (`exists_found`, `walk_running`).  In "/" itself nothing is read, so a
  default that stands there does not count (`respectsDepth_iff`).

  A directory has up to four files, and what they hold is put at the end of one list.  Read backwards, the
  list has the deepest directory last, so that its values are those that stay (`updateAll_eq`).

  The ancestors of a path are the directories that its text names.  What is in a file, or what it prints,
  is a parameter.  Not modelled: what is written to stderr.
-/
import DentOS.Lib.Dict
import DentOS.Lib.Outcome
import DentOS.Lib.PosixPath

namespace DentOS.Onlpm

open Outcome PosixPath PyText

/-! ## `package_defaults_get`: the walk up from a package file -/

/-- A document of yaml: one that is false, one that a dictionary can be updated with, or another. -/
inductive Document (Y : Type) where
  | falsy
  | items (d : Dict Y Y)
  | other

/-- The exceptions. -/
inductive DefaultsError where
  | load
  | script
  | update

/-- What the walk asks of the files. -/
structure Defaults (Y : Type) where
  /-- `os.path.exists(f)`. -/
  found : Text → Bool
  /-- `os.access(f, os.X_OK)`. -/
  executable : Text → Bool
  /-- `onlyaml.loadf(f)`. -/
  loadf : Text → Except DefaultsError (Document Y)
  /-- `yaml.load(subprocess.check_output(f, shell=True))`. -/
  output : Text → Except DefaultsError (Document Y)

section

variable {Y : Type} (t : Defaults Y)

/-- `PKG_DEFAULTS.yml`, in a directory. -/
def ymlFile (searchdir pre : Text) : Text := join searchdir (pre ++ "PKG_DEFAULTS.yml".toList)

/-- `PKG_DEFAULTS`, in a directory. -/
def execFile (searchdir pre : Text) : Text := join searchdir (pre ++ "PKG_DEFAULTS".toList)

/-- `results.append(..)`, if the file is there. -/
def appendIf (there : Bool) (doc : Except DefaultsError (Document Y)) (results : List (Document Y)) :
    Except DefaultsError (List (Document Y)) :=
  if there then doc.map fun d => results ++ [d] else .ok results

/-- The files of a directory with one prefix. -/
def searchPrefix (searchdir : Text) (results : List (Document Y)) (pre : Text) :
    Except DefaultsError (List (Document Y)) := do
  let f := ymlFile searchdir pre
  let results ← appendIf (t.found f) (t.loadf f) results
  let f := execFile searchdir pre
  appendIf (t.found f && t.executable f) (t.output f) results

/-- `for prefix in ['', '.']`. -/
def search (searchdir : Text) (results : List (Document Y)) : Except DefaultsError (List (Document Y)) :=
  [[], ['.']].foldlM (searchPrefix t searchdir) results

/-- `while searchdir != '/'`, for so many passes. -/
def walk : Nat → Text → List (Document Y) → Outcome DefaultsError (List (Document Y))
  | 0, _, _ => .running
  | n + 1, searchdir, results =>
      if searchdir = ['/'] then .returned results
      else match search t searchdir results with
        | .ok results => walk n (dirname searchdir) results
        | .error e => .raised e

/-- `if d: ddict.update(d)`. -/
def update (ddict : Dict Y Y) : Document Y → Except DefaultsError (Dict Y Y)
  | .falsy => .ok ddict
  | .items d => .ok (ddict.update d)
  | .other => .error .update

/-- `DEFAULTS`: the code name of the distribution, `os.getenv("ONL")`, and the texts of yaml. -/
def builtin [DecidableEq Y] (codename : Text) (onl : Option Text) (str : Text → Y) : Dict Y Y :=
  Dict.collect (fun e => str e.1) (fun e => str e.2)
    [("vendor".toList, "Open Network Linux".toList),
     ("url".toList, "http://opennetlinux.org".toList),
     ("license".toList, "unknown".toList),
     ("PY_INSTALL".toList, "/usr/lib/python2.7/dist-packages".toList),
     ("BUILD_DIR".toList, "BUILD/".toList ++ codename),
     ("ONL_TEMPLATES".toList, onl.getD "None".toList ++ "/packages/base/any/templates".toList),
     ("DISTS".toList, codename)]

/-- `package_defaults_get`, for so many passes. -/
def packageDefaultsGet (DEFAULTS : Dict Y Y) (n : Nat) (pkg : Text) : Outcome DefaultsError (Dict Y Y) := do
  let results ← walk t n (dirname pkg) []
  match results.reverse.foldlM update DEFAULTS with
  | .ok ddict => .returned ddict
  | .error e => .raised e

/-! ## The deepest directory that defines a key decides -/

/-- What is in the defaults files of a directory. -/
def present (dir : Text) : List (Except DefaultsError (Document Y)) :=
  [[], ['.']].flatMap fun pre =>
    (if t.found (ymlFile dir pre) then [t.loadf (ymlFile dir pre)] else []) ++
      if t.found (execFile dir pre) && t.executable (execFile dir pre) then [t.output (execFile dir pre)]
      else []

/-- The value of a key in a document. -/
def Document.get : Document Y → Y → Option Y
  | .items d, k => d k
  | _, _ => none

/-- A defaults file of the directory gives the key this value. -/
def Gives (dir : Text) (k v : Y) : Prop := ∃ d, .ok d ∈ present t dir ∧ d.get k = some v

/-- The value of a key in the deepest directory, from this one up, that defines it. -/
inductive Deepest (k v : Y) : Text → Prop where
  | here {dir : Text} (hgives : Gives t dir k v) : Deepest k v dir
  | up {dir : Text} (hnone : ∀ v', ¬ Gives t dir k v') (hup : Deepest k v (dirname dir)) : Deepest k v dir

/-- **`package_defaults_get` terminates and respects depth.** -/
structure RespectsDepth (DEFAULTS : Dict Y Y) (pkg : Text) : Prop where
  terminates : ∃ n, packageDefaultsGet t DEFAULTS n pkg ≠ .running
  depth : ∀ n ddict, packageDefaultsGet t DEFAULTS n pkg = .returned ddict → ∀ k v, ddict k = some v →
    Deepest t k v (dirname pkg) ∨ ((∀ v', ¬ Deepest t k v' (dirname pkg)) ∧ DEFAULTS k = some v)

/-! ## The condition on the path and on the files -/

/-- The directories from `p` on up to "/", without it. -/
inductive Searched : Text → Text → Prop where
  | here {p : Text} (hroot : p ≠ ['/']) : Searched p p
  | up {p dir : Text} (hroot : p ≠ ['/']) (hup : Searched (dirname p) dir) : Searched p dir

/-- A file on the way up cannot be loaded. -/
def LoadRaises (p : Text) : Prop := ∃ dir, Searched p dir ∧ ∃ e, .error e ∈ present t dir

/-- A file on the way up has a document that is no dictionary. -/
def HasOther (p : Text) : Prop := ∃ dir, Searched p dir ∧ .ok .other ∈ present t dir

/-- A file on the way up defines the key. -/
def DefinedBelow (p : Text) (k : Y) : Prop := ∃ dir, Searched p dir ∧ ∃ v, Gives t dir k v

end

/-! ## One directory adds its keys below those that are there -/

section

variable {Y : Type} {t : Defaults Y}

/-- What files hold is put at the end of the list, unless one cannot be loaded. -/
def put (xs : List (Except DefaultsError (Document Y))) (rs : List (Document Y)) :
    Except DefaultsError (List (Document Y)) := (xs.mapM id).map (rs ++ ·)

/-- Something is put or not. -/
theorem appendIf_eq (c : Bool) (x : Except DefaultsError (Document Y)) :
    appendIf c x = put (if c then [x] else []) := by
  funext rs
  cases c
  · exact congrArg Except.ok (List.append_nil rs).symm
  · cases x <;> rfl

/-- What is put in two parts. -/
theorem put_append (xs ys : List (Except DefaultsError (Document Y))) (rs : List (Document Y)) :
    put (xs ++ ys) rs = put xs rs >>= put ys := by
  rw [put, put, List.mapM_append]
  rcases xs.mapM id with _ | ds
  · rfl
  · rcases hys : ys.mapM id with _ | ds'
    · show _ = put ys (rs ++ ds)
      rw [put, hys]
      rfl
    · show _ = put ys (rs ++ ds)
      rw [put, hys]
      exact congrArg Except.ok (List.append_assoc rs ds ds').symm

/-- Documents are put behind those that are there. -/
theorem put_ok : ∀ (ds rs : List (Document Y)), put (ds.map .ok) rs = .ok (rs ++ ds)
  | [], _ => rfl
  | d :: ds, rs => by
      rw [List.map_cons, ← List.singleton_append, put_append]
      show put (ds.map .ok) (rs ++ [d]) = _
      rw [put_ok ds, List.append_assoc]
      rfl

/-- Files that can all be loaded have a document each. -/
theorem exists_docs : ∀ {xs : List (Except DefaultsError (Document Y))}, (¬ ∃ e, .error e ∈ xs) →
    ∃ ds : List (Document Y), xs = ds.map .ok
  | [], _ => ⟨[], rfl⟩
  | .error e :: xs, h => absurd ⟨e, List.mem_cons_self⟩ h
  | .ok d :: xs, h => by
      obtain ⟨ds, rfl⟩ := exists_docs fun ⟨e, he⟩ => h ⟨e, List.mem_cons_of_mem _ he⟩
      exact ⟨d :: ds, rfl⟩

/-- An error ends it. -/
theorem put_error : ∀ {xs : List (Except DefaultsError (Document Y))} (rs : List (Document Y)),
    (∃ e, .error e ∈ xs) → ∃ e, put xs rs = .error e
  | [], _, ⟨_, he⟩ => absurd he List.not_mem_nil
  | .error e :: xs, rs, _ => ⟨e, rfl⟩
  | .ok d :: xs, rs, ⟨e, he⟩ => by
      have hxs : .error e ∈ xs := (List.mem_cons.mp he).resolve_left nofun
      obtain ⟨e', he'⟩ := put_error (rs ++ [d]) ⟨e, hxs⟩
      refine ⟨e', ?_⟩
      rw [← List.singleton_append, put_append]
      exact he'

/-- **One directory**: its documents are put behind those that are there. -/
theorem search_eq (dir : Text) (rs : List (Document Y)) : search t dir rs = put (present t dir) rs := by
  have hprefix : ∀ (rs : List (Document Y)) (pre : Text), searchPrefix t dir rs pre = put
      ((if t.found (ymlFile dir pre) then [t.loadf (ymlFile dir pre)] else []) ++
        if t.found (execFile dir pre) && t.executable (execFile dir pre) then [t.output (execFile dir pre)]
        else []) rs := by
    intro rs pre
    rw [put_append, ← appendIf_eq, ← appendIf_eq]
    rfl
  rw [present, List.flatMap_cons, List.flatMap_singleton, put_append, search, List.foldlM_cons, hprefix]
  congr 1
  funext rs
  rw [List.foldlM_cons, hprefix]
  exact bind_pure _

/-- A directory without errors adds its documents. -/
theorem search_ok {dir : Text} {ds : List (Document Y)} (h : present t dir = ds.map .ok)
    (rs : List (Document Y)) : search t dir rs = .ok (rs ++ ds) := by
  rw [search_eq, h, put_ok]

/-- A directory with an error ends the search. -/
theorem search_error {dir : Text} (h : ∃ e, .error e ∈ present t dir) (rs : List (Document Y)) :
    ∃ e, search t dir rs = .error e := by
  rw [search_eq]
  exact put_error rs h

/-! ## The walk ends at the root, where the path has one -/

/-- The walk comes to "/" and has found these documents. -/
inductive Found (t : Defaults Y) : Text → List (Document Y) → Prop where
  | root : Found t ['/'] []
  | up {p : Text} {ds ds' : List (Document Y)} (hroot : p ≠ ['/']) (hdir : present t p = ds.map .ok)
      (hup : Found t (dirname p) ds') : Found t p (ds ++ ds')

/-- One directory up. -/
theorem walk_up {p : Text} {ds : List (Document Y)} (hroot : p ≠ ['/']) (hdir : present t p = ds.map .ok)
    (n : Nat) (rs : List (Document Y)) : walk t (n + 1) p rs = walk t n (dirname p) (rs ++ ds) := by
  rw [walk, if_neg hroot, search_ok hdir]

/-- The walk ends at an error. -/
theorem walk_stops {p : Text} (hroot : p ≠ ['/']) (h : ∃ e, .error e ∈ present t p) (n : Nat)
    (rs : List (Document Y)) : ∃ e, walk t (n + 1) p rs = .raised e := by
  obtain ⟨e, he⟩ := search_error h rs
  exact ⟨e, by rw [walk, if_neg hroot, he]⟩

/-- **The walk from a path with one slash in front** comes to "/", if every file can be loaded. -/
theorem exists_found {p : Text} (hp : Rooted p) (hload : ¬ LoadRaises t p) : ∃ ds, Found t p ds := by
  -- a step up is shorter as long as the path is not "/"
  induction hlen : p.length using Nat.strong_induction_on generalizing p with
  | _ n ih =>
      by_cases hroot : p = ['/']
      · exact ⟨[], hroot ▸ .root⟩
      · obtain ⟨ds, hds⟩ := exists_docs fun herr => hload ⟨p, .here hroot, herr⟩
        obtain ⟨ds', hup⟩ := ih (dirname p).length (hlen ▸ length_dirname_lt hp hroot) (rooted_dirname.mpr hp)
          (fun ⟨dir, hdir, herr⟩ => hload ⟨dir, .up hroot hdir, herr⟩) rfl
        exact ⟨ds ++ ds', .up hroot hds hup⟩

/-- **The walk returns** what is found on the way, by induction on the way. -/
theorem walk_found {p : Text} {ds : List (Document Y)} (h : Found t p ds) (rs : List (Document Y)) :
    ∃ n, walk t n p rs = .returned (rs ++ ds) := by
  induction h generalizing rs with
  | root => exact ⟨1, by rw [walk, if_pos rfl, List.append_nil]⟩
  | @up p ds ds' hroot hdir _ ih =>
      obtain ⟨n, hn⟩ := ih (rs ++ ds)
      exact ⟨n + 1, by rw [walk_up hroot hdir, hn, List.append_assoc]⟩

/-- What a walk returns is what it has found on its way to "/". -/
theorem found_of_walk {n : Nat} {p : Text} {rs rs' : List (Document Y)}
    (h : walk t n p rs = .returned rs') : ∃ ds, Found t p ds ∧ rs' = rs ++ ds := by
  induction n generalizing p rs with
  | zero => cases h
  | succ n ih =>
      by_cases hroot : p = ['/']
      · rw [walk, if_pos hroot] at h
        cases h
        exact ⟨[], hroot ▸ .root, (List.append_nil _).symm⟩
      · by_cases herr : ∃ e, .error e ∈ present t p
        · obtain ⟨e, he⟩ := walk_stops hroot herr n rs
          rw [he] at h
          cases h
        · obtain ⟨ds, hds⟩ := exists_docs herr
          rw [walk_up hroot hds] at h
          obtain ⟨ds', hup, rfl⟩ := ih h
          exact ⟨ds ++ ds', .up hroot hds hup, List.append_assoc _ _ _⟩

/-- A file that cannot be loaded ends the walk. -/
theorem walk_raises {p dir : Text} (hdir : Searched p dir) (herr : ∃ e, .error e ∈ present t dir)
    (rs : List (Document Y)) : ∃ n e, walk t n p rs = .raised e := by
  induction hdir generalizing rs with
  | here hroot => exact ⟨1, walk_stops hroot herr 0 rs⟩
  | @up p dir hroot _ ih =>
      by_cases hp : ∃ e, .error e ∈ present t p
      · exact ⟨1, walk_stops hroot hp 0 rs⟩
      · obtain ⟨ds, hds⟩ := exists_docs hp
        obtain ⟨n, e, he⟩ := ih herr (rs ++ ds)
        exact ⟨n + 1, e, by rw [walk_up hroot hds, he]⟩

/-- **The walk from another path** does not end by itself. -/
theorem walk_running {p : Text} (hp : ¬ Rooted p) (hload : ¬ LoadRaises t p) (n : Nat)
    (rs : List (Document Y)) : walk t n p rs = .running := by
  induction n generalizing p rs with
  | zero => rfl
  | succ n ih =>
      have hroot : p ≠ ['/'] := fun heq => hp (heq ▸ rooted_root)
      obtain ⟨ds, hds⟩ := exists_docs fun herr => hload ⟨p, .here hroot, herr⟩
      rw [walk_up hroot hds]
      exact ih (mt rooted_dirname.mp hp) (fun ⟨dir, hdir, herr⟩ => hload ⟨dir, .up hroot hdir, herr⟩) _

/-- A walk that returns has loaded every file. -/
theorem Found.loads {p : Text} {ds : List (Document Y)} (h : Found t p ds) : ¬ LoadRaises t p := by
  rintro ⟨dir, hdir, e, he⟩
  induction hdir generalizing ds with
  | here hroot =>
      cases h with
      | root => exact hroot rfl
      | up _ hds _ =>
          rw [hds] at he
          obtain ⟨d, -, hd⟩ := List.mem_map.mp he
          cases hd
  | up hroot _ ih =>
      cases h with
      | root => exact hroot rfl
      | up _ _ hup => exact ih hup he

/-! ## The update of the defaults by the package -/

/-- **The update**, from the last document to the first: the first one with a key gives its value. -/
theorem updateAll_eq (dd : Dict Y Y) : ∀ {results : List (Document Y)}, .other ∉ results →
    results.reverse.foldlM update dd = .ok fun k => (results.findSome? fun d => d.get k).or (dd k)
  | [], _ => rfl
  | d :: results, h => by
      have hlast : ∀ dd, [d].foldlM update dd = update dd d := fun dd => by
        rw [List.foldlM_cons]
        exact bind_pure _
      rw [List.reverse_cons, List.foldlM_append, updateAll_eq dd fun hmem => h (List.mem_cons_of_mem d hmem)]
      show [d].foldlM update _ = _
      rw [hlast]
      cases d with
      | falsy => rfl
      | items e =>
          refine congrArg Except.ok (funext fun k => ?_)
          show (e k).or _ = _
          have hget : (Document.items e).get k = e k := rfl
          rcases hk : e k with _ | v
          · have hnone : ((Document.items e).get k).isNone = true := by rw [hget, hk]; rfl
            rw [List.findSome?_cons_of_isNone (f := fun d : Document Y => d.get k) hnone, Option.none_or]
          · have hsome : ((Document.items e).get k).isSome = true := by rw [hget, hk]; rfl
            rw [List.findSome?_cons_of_isSome (f := fun d : Document Y => d.get k) hsome, hget, hk]
            rfl
      | other => exact absurd List.mem_cons_self h

/-- A document that is no dictionary cannot be merged. -/
theorem updateAll_other (dd : Dict Y Y) : ∀ {results : List (Document Y)}, .other ∈ results →
    ∃ e, results.reverse.foldlM update dd = .error e
  | [], h => absurd h List.not_mem_nil
  | d :: results, h => by
      rw [List.reverse_cons, List.foldlM_append]
      rcases hrest : results.reverse.foldlM update dd with e | dd'
      · exact ⟨e, rfl⟩
      · rcases List.mem_cons.mp h with rfl | hmem
        · exact ⟨.update, rfl⟩
        · obtain ⟨e, he⟩ := updateAll_other dd hmem
          rw [hrest] at he
          cases he

/-- Such a document is among those that were found when it is on the way. -/
theorem Found.hasOther {p : Text} {ds : List (Document Y)} (h : Found t p ds) :
    .other ∈ ds ↔ HasOther t p := by
  constructor
  · intro hmem
    induction h with
    | root => exact absurd hmem List.not_mem_nil
    | up hroot hdir _ ih =>
        rcases List.mem_append.mp hmem with hmem | hmem
        · exact ⟨_, .here hroot, hdir ▸ List.mem_map_of_mem hmem⟩
        · obtain ⟨dir, hsearched, hother⟩ := ih hmem
          exact ⟨dir, .up hroot hsearched, hother⟩
  · rintro ⟨dir, hsearched, hother⟩
    induction hsearched generalizing ds with
    | here hroot =>
        cases h with
        | root => exact absurd rfl hroot
        | up _ hdir _ =>
            rw [hdir] at hother
            obtain ⟨d, hd, heq⟩ := List.mem_map.mp hother
            cases heq
            exact List.mem_append_left _ hd
    | up hroot _ ih =>
        cases h with
        | root => exact absurd rfl hroot
        | up _ _ hup => exact List.mem_append_right _ (ih hup hother)

/-! ## The depth of the directory that a value came from -/

/-- What a directory gives, in its documents. -/
theorem gives_iff {dir : Text} {ds : List (Document Y)} (h : present t dir = ds.map .ok) (k v : Y) :
    Gives t dir k v ↔ ∃ d ∈ ds, d.get k = some v := by
  rw [Gives, h]
  constructor
  · rintro ⟨d, hd, hv⟩
    obtain ⟨d', hd', heq⟩ := List.mem_map.mp hd
    cases heq
    exact ⟨d, hd', hv⟩
  · rintro ⟨d, hd, hv⟩
    exact ⟨d, List.mem_map_of_mem hd, hv⟩

/-- Above the root is the root. -/
theorem deepest_root (k v : Y) : Deepest t k v ['/'] ↔ Gives t ['/'] k v := by
  refine ⟨fun h => ?_, .here⟩
  generalize hdir : ['/'] = dir at h
  induction h with
  | here hgives => exact hgives
  | up hnone _ ih =>
      subst hdir
      exact absurd (ih rfl) (hnone v)

/-- Where the directory does not give the key the ones above decide. -/
theorem deepest_up {p : Text} {k : Y} (hnone : ∀ v, ¬ Gives t p k v) (v : Y) :
    Deepest t k v p ↔ Deepest t k v (dirname p) := by
  refine ⟨fun h => ?_, .up hnone⟩
  cases h with
  | here hgives => exact absurd hgives (hnone v)
  | up _ hup => exact hup

/-- **What is found first** is what the deepest directory gives; where nothing is found, only "/" is left. -/
theorem Found.value {p : Text} {ds : List (Document Y)} (h : Found t p ds) (k : Y) :
    (∃ v, ds.findSome? (fun d => d.get k) = some v ∧ DefinedBelow t p k ∧ Deepest t k v p) ∨
      (ds.findSome? (fun d => d.get k) = none ∧ ¬ DefinedBelow t p k ∧
        ∀ v, Deepest t k v p ↔ Gives t ['/'] k v) := by
  induction h with
  | root =>
      refine .inr ⟨rfl, ?_, deepest_root k⟩
      rintro ⟨dir, hsearched, -⟩
      cases hsearched with
      | here hroot => exact hroot rfl
      | up hroot _ => exact hroot rfl
  | @up p ds ds' hroot hdir _ ih =>
      rw [List.findSome?_append]
      -- the first document with the key is in this directory, or further up
      rcases hfirst : ds.findSome? fun d => d.get k with _ | v
      · have hnone : ∀ v, ¬ Gives t p k v := by
          intro v hgives
          obtain ⟨d, hd, hv⟩ := (gives_iff hdir k v).mp hgives
          rw [List.findSome?_eq_none_iff.mp hfirst d hd] at hv
          cases hv
        rw [hfirst, Option.none_or]
        rcases ih with ⟨v, hv, ⟨dir, hsearched, hgives⟩, hdeepest⟩ | ⟨hnil, hbelow, hdeepest⟩
        · exact .inl ⟨v, hv, ⟨dir, .up hroot hsearched, hgives⟩, .up hnone hdeepest⟩
        · refine .inr ⟨hnil, ?_, fun v => (deepest_up hnone v).trans (hdeepest v)⟩
          rintro ⟨dir, hsearched, v, hgives⟩
          cases hsearched with
          | here _ => exact hnone v hgives
          | up _ hsearched => exact hbelow ⟨dir, hsearched, v, hgives⟩
      · obtain ⟨d, hd, hv⟩ := List.exists_of_findSome?_eq_some hfirst
        have hgives : Gives t p k v := (gives_iff hdir k v).mpr ⟨d, hd, hv⟩
        exact .inl ⟨v, by rw [hfirst, Option.some_or], ⟨p, .here hroot, v, hgives⟩, .here hgives⟩

/-! ## The result: the deepest decides, exactly under the condition -/

variable {DEFAULTS : Dict Y Y} {pkg : Text}

/-- What the function returns, where it does. -/
theorem packageDefaultsGet_returned {n : Nat} {ddict : Dict Y Y}
    (h : packageDefaultsGet t DEFAULTS n pkg = .returned ddict) : ∃ ds, Found t (dirname pkg) ds ∧
      .other ∉ ds ∧ ddict = fun k => (ds.findSome? fun d => d.get k).or (DEFAULTS k) := by
  obtain ⟨results, hwalk, h⟩ := bind_eq_returned h
  obtain ⟨ds, hfound, hds⟩ := found_of_walk hwalk
  rw [hds, List.nil_append] at h
  by_cases hother : .other ∈ ds
  · obtain ⟨e, he⟩ := updateAll_other DEFAULTS hother
    rw [he] at h
    cases h
  · rw [updateAll_eq DEFAULTS hother] at h
    cases h
    exact ⟨ds, hfound, hother, rfl⟩

/-- Where the way is found the function ends, and returns the first value of every key. -/
theorem packageDefaultsGet_found (DEFAULTS : Dict Y Y) {ds : List (Document Y)}
    (h : Found t (dirname pkg) ds) :
    (∃ n, packageDefaultsGet t DEFAULTS n pkg ≠ .running) ∧ (.other ∉ ds →
      ∃ n, packageDefaultsGet t DEFAULTS n pkg =
        .returned fun k => (ds.findSome? fun d => d.get k).or (DEFAULTS k)) := by
  obtain ⟨n, hn⟩ := walk_found h []
  have hget : packageDefaultsGet t DEFAULTS n pkg = match ds.reverse.foldlM update DEFAULTS with
      | .ok ddict => .returned ddict
      | .error e => .raised e := by
    rw [packageDefaultsGet, hn]
    rfl
  constructor
  · refine ⟨n, ?_⟩
    rw [hget]
    rcases ds.reverse.foldlM update DEFAULTS with e | ddict
    · exact nofun
    · exact nofun
  · intro hother
    exact ⟨n, by rw [hget, updateAll_eq DEFAULTS hother]⟩

/-- **`package_defaults_get` terminates and respects depth** exactly if a file cannot be loaded, or the path
has one slash in front and, if nothing else raises, "/" has no default in the place of a built-in one. -/
theorem respectsDepth_iff (t : Defaults Y) (DEFAULTS : Dict Y Y) (pkg : Text) :
    RespectsDepth t DEFAULTS pkg ↔ LoadRaises t (dirname pkg) ∨ (Rooted pkg ∧ (HasOther t (dirname pkg) ∨
      ∀ k b, DEFAULTS k = some b → (∃ v, Gives t ['/'] k v) →
        DefinedBelow t (dirname pkg) k ∨ Gives t ['/'] k b)) := by
  -- a file that cannot be loaded ends the walk on any path, and there is no result
  by_cases hload : LoadRaises t (dirname pkg)
  · refine iff_of_true ⟨?_, fun n ddict h => ?_⟩ (.inl hload)
    · obtain ⟨dir, hdir, herr⟩ := hload
      obtain ⟨n, e, he⟩ := walk_raises hdir herr []
      exact ⟨n, by rw [packageDefaultsGet, he]; exact nofun⟩
    · obtain ⟨ds, hfound, -⟩ := packageDefaultsGet_returned h
      exact absurd hload hfound.loads
  rw [or_iff_right hload]
  by_cases hrooted : Rooted pkg
  · obtain ⟨ds, hfound⟩ := exists_found (rooted_dirname.mpr hrooted) hload
    obtain ⟨hends, hreturns⟩ := packageDefaultsGet_found DEFAULTS hfound
    rw [and_iff_right hrooted]
    constructor
    · intro h
      refine or_iff_not_imp_left.mpr fun hother k b hb ⟨v, hv⟩ => ?_
      obtain ⟨n, hn⟩ := hreturns (mt hfound.hasOther.mp hother)
      rcases hfound.value k with ⟨-, -, hbelow, -⟩ | ⟨hnil, -, hdeepest⟩
      · exact .inl hbelow
      · have hvalue := h.depth n _ hn k b (by rw [hnil]; exact hb)
        rcases hvalue with hvalue | ⟨hnone, -⟩
        · exact .inr ((hdeepest b).mp hvalue)
        · exact absurd ((hdeepest v).mpr hv) (hnone v)
    · refine fun hcond => ⟨hends, fun n ddict hn k v hv => ?_⟩
      obtain ⟨ds', hfound', hother, rfl⟩ := packageDefaultsGet_returned hn
      have hbuiltin := hcond.resolve_left (mt hfound'.hasOther.mpr hother)
      replace hv : (ds'.findSome? fun d => d.get k).or (DEFAULTS k) = some v := hv
      rcases hfound'.value k with ⟨v', hv', -, hdeepest⟩ | ⟨hnil, hbelow, hdeepest⟩
      · rw [hv'] at hv
        cases hv
        exact .inl hdeepest
      · rw [hnil] at hv
        by_cases hroot : ∃ v', Gives t ['/'] k v'
        · exact .inl ((hdeepest v).mpr ((hbuiltin k v hv hroot).resolve_left hbelow))
        · exact .inr ⟨fun v' h => hroot ⟨v', (hdeepest v').mp h⟩, hv⟩
  · refine iff_of_false (fun h => ?_) fun h => hrooted h.1
    obtain ⟨n, hn⟩ := h.terminates
    exact hn (by rw [packageDefaultsGet, walk_running (mt rooted_dirname.mp hrooted) hload]; rfl)

end

/-- No defaults anywhere. -/
def noDefaults : Defaults Text where
  found _ := false
  executable _ := false
  loadf _ := .error .load
  output _ := .error .script

/-- **A package file that is named by its relative path** keeps the walk going. -/
theorem relative_never_ends :
    ¬ RespectsDepth noDefaults (builtin "stretch".toList none id) "base/PKG.yml".toList := fun h => by
  have hrooted : ¬ Rooted (dirname "base/PKG.yml".toList) := fun h => absurd h.1 (by decide)
  have hload : ¬ LoadRaises noDefaults (dirname "base/PKG.yml".toList) := fun ⟨_, _, _, he⟩ =>
    absurd he List.not_mem_nil
  obtain ⟨n, hn⟩ := h.terminates
  exact hn (by rw [packageDefaultsGet, walk_running hrooted hload]; rfl)

end DentOS.Onlpm
