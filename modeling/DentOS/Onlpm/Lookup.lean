/-
  Which packages a lookup returns (tools/onlpm.py, `lookup_all`, `lookup`, `remove_packages`).

  A lookup searches the names of a directory for a text, and an add takes a name apart.  In every
  repository that adds and removals make, a lookup is exact where no other package of its architecture
  has a name, or a piece of a version, that ends with the name looked for (`Clear`, `exact_iff`).  A
  removal then takes no file of another package, and behind an add the lookup has one file to return:
  the invariant leaves a package with one.  But an add of the file that the repository has of the
  package deletes it (`Replaces`), and there is nothing to look up.  The law holds in neither case, and
  in all others (`lookup_law_iff`).
-/
import DentOS.Onlpm.Repo

namespace DentOS.Onlpm

open PyText

/-- The source is a package file of this identifier. -/
def Source.Of (src : Source) (id : PkgId) : Prop := ∃ f : PkgFile, basename src.path = f.file ∧ f.id = id

/-- **What lookups promise** of a repository, a package identifier, and a path that may be added. -/
structure LookupLaw (repo : Repo) (id : PkgId) (src : Source) : Prop where
  /-- all files of the package are found, and no others -/
  exact : ∃ paths, lookupAll repo id.text = .ok paths ∧
    ∀ a x, (a, x) ∈ paths ↔ x ∈ repo a ∧ package x = id.name ∧ archOf x = id.arch
  /-- behind an add of the package its file is found -/
  added : src.Of id → src.place.there repo = true → ∀ ex,
    lookup (addPackages [src] repo).2 id.text ex = .ok (some (target src.path))
  /-- a removal takes files of the package only -/
  removed : ∀ a x, x ∈ repo a → x ∉ (removePackages [id.text] repo).2 a →
    package x = id.name ∧ archOf x = id.arch

/-- No other package of the architecture has a name, or a piece of its version, that ends with the
    name. -/
def Clear (repo : Repo) (id : PkgId) : Prop :=
  ∀ x ∈ repo id.arch, (∃ piece ∈ (pieces x).dropLast, id.name <:+ piece) → package x = id.name

/-- The add is one of the file that the repository has of the package. -/
def Replaces (repo : Repo) (id : PkgId) (src : Source) : Prop :=
  src.Of id ∧ src.place.there repo = true ∧ src.Own id

variable {repo : Repo} {id : PkgId}

/-- The lookup of a package by name and architecture. -/
theorem lookupAll_text (repo : Repo) (id : PkgId) : lookupAll repo id.text =
    .ok (((repo id.arch).filter (matching id.name id.arch)).map fun x => (id.arch, x)) := by
  rw [lookupAll, idparse_text]

/-- What is found is in the repository, and matches. -/
theorem mem_lookupAll {a x : Text} :
    (a, x) ∈ ((repo id.arch).filter (matching id.name id.arch)).map (fun x => (id.arch, x)) ↔
      a = id.arch ∧ x ∈ repo id.arch ∧ matching id.name id.arch x = true := by
  rw [List.mem_map]
  constructor
  · rintro ⟨y, hy, h⟩
    cases h
    exact ⟨rfl, List.mem_filter.mp hy⟩
  · rintro ⟨rfl, hx⟩
    exact ⟨x, List.mem_filter.mpr hx, rfl⟩

/-- The files of the package are found. -/
theorem matching_of_package (hvalid : Valid repo) {x : Text} (hx : x ∈ repo id.arch)
    (hname : package x = id.name) : matching id.name id.arch x = true := by
  obtain ⟨f, rfl, harch⟩ := hvalid.named _ x hx
  rw [package_file] at hname
  rw [← hname, ← harch]
  exact matching_own f

/-- **Where the repository is clear**, nothing else is. -/
theorem package_of_matching (hvalid : Valid repo) (hclear : Clear repo id) {x : Text}
    (hx : x ∈ repo id.arch) (hmatch : matching id.name id.arch x = true) : package x = id.name := by
  obtain ⟨f, rfl, harch⟩ := hvalid.named _ x hx
  rw [← harch, matching_file (id.not_mem_name (by decide))] at hmatch
  exact hclear _ hx hmatch

/-- In a valid repository a file is in the directory of its architecture. -/
theorem archOf_of_mem (hvalid : Valid repo) {a x : Text} (hx : x ∈ repo a) : archOf x = a := by
  obtain ⟨f, rfl, harch⟩ := hvalid.named _ x hx
  rw [archOf_file, harch]

/-- A lookup is exact where the repository is clear, and only there. -/
theorem exact_iff (hvalid : Valid repo) :
    (∃ paths, lookupAll repo id.text = .ok paths ∧
      ∀ a x, (a, x) ∈ paths ↔ x ∈ repo a ∧ package x = id.name ∧ archOf x = id.arch) ↔
    Clear repo id := by
  constructor
  · rintro ⟨paths, hpaths, hexact⟩ x hx hpiece
    rw [lookupAll_text] at hpaths
    cases hpaths
    obtain ⟨f, rfl, harch⟩ := hvalid.named _ x hx
    have hmatch : matching id.name id.arch f.file = true := by
      rw [← harch, matching_file (id.not_mem_name (by decide))]
      exact hpiece
    exact ((hexact id.arch f.file).mp (mem_lookupAll.mpr ⟨rfl, hx, hmatch⟩)).2.1
  · intro hclear
    refine ⟨_, lookupAll_text repo id, ?_⟩
    intro a x
    rw [mem_lookupAll]
    constructor
    · rintro ⟨rfl, hx, hmatch⟩
      exact ⟨hx, package_of_matching hvalid hclear hx hmatch, archOf_of_mem hvalid hx⟩
    · rintro ⟨hx, hname, harch⟩
      have ha : a = id.arch := (archOf_of_mem hvalid hx).symm.trans harch
      subst ha
      exact ⟨rfl, hx, matching_of_package hvalid hx hname⟩

/-- A list of one element, again and again, and never twice. -/
theorem eq_singleton_of_nodup {α : Type} {l : List α} {x : α} (hnodup : l.Nodup) (hx : x ∈ l)
    (hall : ∀ y ∈ l, y = x) : l = [x] := by
  rcases l with _ | ⟨y, rest⟩
  · exact absurd hx List.not_mem_nil
  · have hy : y = x := hall y List.mem_cons_self
    subst hy
    have hrest : rest = [] := by
      rw [List.eq_nil_iff_forall_not_mem]
      intro z hz
      have hzy : z = y := hall z (List.mem_cons_of_mem y hz)
      rw [hzy] at hz
      exact (List.nodup_cons.mp hnodup).1 hz
    rw [hrest]

/-- **The file of a package is the one that a lookup returns.** -/
theorem lookup_unique (hvalid : Valid repo) (hclear : Clear repo id) {x : Text}
    (hx : x ∈ repo id.arch) (hname : package x = id.name) (ex : Bool) :
    lookup repo id.text ex = .ok (some (id.arch, x)) := by
  have hone : (repo id.arch).filter (matching id.name id.arch) = [x] := by
    refine eq_singleton_of_nodup ((hvalid.nodup _).filter _)
      (List.mem_filter.mpr ⟨hx, matching_of_package hvalid hx hname⟩) ?_
    intro y hy
    obtain ⟨hmem, hmatch⟩ := List.mem_filter.mp hy
    refine hvalid.unique _ y x hmem hx ?_
    rw [hname]
    exact package_of_matching hvalid hclear hmem hmatch
  rw [lookup, lookupAll_text, hone]
  rfl

/-- What a lookup returns is one of the files that match. -/
theorem mem_of_lookup {pkg : Text} {ex : Bool} {path : Path}
    (h : lookup repo pkg ex = .ok (some path)) : ∃ paths, lookupAll repo pkg = .ok paths ∧ path ∈ paths := by
  rw [lookup] at h
  split at h
  · cases h
  · split at h <;> cases h
  · next r hall =>
      cases h
      exact ⟨[path], hall, List.mem_cons_self⟩
  · split at h <;> cases h

/-- A removal takes away the file that the lookup returns. -/
theorem lookup_of_removed {pkg a x : Text} (hx : x ∈ repo a)
    (hgone : x ∉ (removePackages [pkg] repo).2 a) : lookup repo pkg false = .ok (some (a, x)) := by
  rw [removePackages] at hgone
  split at hgone
  · exact absurd hx hgone
  · exact absurd hx hgone
  · next path hlookup =>
      have hpath : path = (a, x) := by
        by_contra hne
        refine hgone ?_
        show x ∈ unlink repo path a
        rw [unlink, Repo.setDir]
        split
        · next ha =>
            refine (List.mem_erase_of_ne ?_).mpr (by rw [← ha]; exact hx)
            rintro rfl
            exact hne (Prod.ext ha.symm rfl)
        · exact hx
      rw [hlookup, hpath]

/-- An add of the package leaves the repository clear. -/
theorem clear_withCopy (hvalid : Valid repo) (hclear : Clear repo id) {f : PkgFile} {p : Text}
    (hp : basename p = f.file) (hid : f.id = id) : Clear (withCopy repo p) id := by
  intro x hx hpiece
  rcases (mem_withCopy hvalid hp).mp hx with ⟨-, rfl⟩ | ⟨hmem, -⟩
  · rw [package_file, hid]
  · exact hclear x hmem hpiece

/-- Behind an add that made its copy, the copy is what a lookup returns. -/
theorem lookup_withCopy (hvalid : Valid repo) (hclear : Clear repo id) {f : PkgFile} {p : Text}
    (hp : basename p = f.file) (hid : f.id = id) (ex : Bool) :
    lookup (withCopy repo p) id.text ex = .ok (some (target p)) := by
  have htarget : target p = (id.arch, f.file) := by rw [target, hp, archOf_file, hid]
  rw [htarget]
  refine lookup_unique (valid_withCopy hvalid hp) (clear_withCopy hvalid hclear hp hid) ?_ ?_ ex
  · exact (mem_withCopy hvalid hp).mpr (Or.inl ⟨by rw [hid], rfl⟩)
  · rw [package_file, hid]

/-- Behind one that lost the file, no lookup returns it. -/
theorem lookup_removeExisting (hvalid : Valid repo) {f : PkgFile} {p : Text} (hp : basename p = f.file)
    (hid : f.id = id) : lookup (removeExisting repo p) id.text false ≠ .ok (some (target p)) := by
  have htarget : target p = (id.arch, f.file) := by rw [target, hp, archOf_file, hid]
  intro h
  obtain ⟨paths, hpaths, hmem⟩ := mem_of_lookup h
  rw [lookupAll_text] at hpaths
  cases hpaths
  rw [htarget] at hmem
  obtain ⟨-, hx, -⟩ := mem_lookupAll.mp hmem
  refine ((mem_removeExisting hvalid hp).mp hx).2 ⟨by rw [hid], package_file f⟩

/-- **What a lookup returns is exactly the package** in every repository that adds and removals make,
    where no other name and no version of its architecture ends with its name, and what is added is not
    the file that the repository has of it; and only there. -/
theorem lookup_law_iff (ops : List Op) (hnamed : ∀ op ∈ ops, op.WellNamed) (id : PkgId) (src : Source) :
    LookupLaw (run ops) id src ↔ Clear (run ops) id ∧ ¬ Replaces (run ops) id src := by
  have hvalid := valid_run hnamed
  have hadd : ∀ hthere : src.place.there (run ops) = true,
      (addPackages [src] (run ops)).2 = (addPackage (run ops) src).2 := by
    intro hthere
    rw [addPackages, if_pos hthere]
    split
    · next heq =>
        rw [heq]
        rfl
    · next heq => rw [heq]
  constructor
  · intro law
    refine ⟨(exact_iff hvalid).mp law.exact, ?_⟩
    rintro ⟨⟨f, hp, hid⟩, hthere, hown⟩
    have hfound := law.added ⟨f, hp, hid⟩ hthere false
    rcases addPackage_eq hvalid hp hthere with ⟨-, heq⟩ | ⟨hnot, -⟩
    · rw [hadd hthere, heq] at hfound
      exact lookup_removeExisting hvalid hp hid hfound
    · exact hnot (hid ▸ hown)
  · rintro ⟨hclear, hreplaces⟩
    refine ⟨(exact_iff hvalid).mpr hclear, ?_, ?_⟩
    · rintro ⟨f, hp, hid⟩ hthere ex
      rcases addPackage_eq hvalid hp hthere with ⟨hown, -⟩ | ⟨-, heq⟩
      · exact absurd ⟨⟨f, hp, hid⟩, hthere, hid ▸ hown⟩ hreplaces
      · rw [hadd hthere, heq]
        exact lookup_withCopy hvalid hclear hp hid ex
    · intro a x hx hgone
      obtain ⟨paths, hpaths, hmem⟩ := mem_of_lookup (lookup_of_removed hx hgone)
      obtain ⟨paths', hpaths', hexact⟩ := (exact_iff hvalid).mpr hclear
      rw [hpaths] at hpaths'
      cases hpaths'
      exact ((hexact a x).mp hmem).2

/-! ## Two packages -/

/-- A package. -/
def fooFile : PkgFile where
  id := ⟨"foo".toList, "amd64".toList, forall_mem_of_all (by decide), forall_mem_of_all (by decide)⟩
  version := "1.0".toList
  version_plain := by decide

/-- Another one, the name of which it begins. -/
def foobarFile : PkgFile where
  id := ⟨"foobar".toList, "amd64".toList, forall_mem_of_all (by decide), forall_mem_of_all (by decide)⟩
  version := "1.0".toList
  version_plain := by decide

/-- Another one, the name of which it ends. -/
def libfooFile : PkgFile where
  id := ⟨"libfoo".toList, "amd64".toList, forall_mem_of_all (by decide), forall_mem_of_all (by decide)⟩
  version := "2.0".toList
  version_plain := by decide

/-- A file from outside of the repository. -/
def PkgFile.source (f : PkgFile) : Source := ⟨f.file, .outside true⟩

/-- One add of a list of files. -/
def addFiles (files : List PkgFile) : Op := .add (files.map PkgFile.source)

/-- Files without a slash are named as packages are. -/
theorem addFiles_named {files : List PkgFile} (hslash : ∀ f ∈ files, basename f.file = f.file) :
    (addFiles files).WellNamed := by
  intro src hsrc
  obtain ⟨f, hf, rfl⟩ := List.mem_map.mp hsrc
  exact ⟨f, hslash f hf⟩

/-- A package that only begins with the name is told from it. -/
theorem foo_beside_foobar :
    LookupLaw (run [addFiles [fooFile, foobarFile]]) fooFile.id fooFile.source := by
  refine (lookup_law_iff _ ?_ _ _).mpr ⟨?_, ?_⟩
  · intro op hop
    rw [List.mem_singleton.mp hop]
    exact addFiles_named (by decide)
  · have hdir : run [addFiles [fooFile, foobarFile]] fooFile.id.arch = [foobarFile.file, fooFile.file] := by
      decide
    intro x hx hpiece
    rw [hdir] at hx
    revert x
    decide +kernel
  · rintro ⟨-, -, x, hinside, -⟩
    cases hinside

/-- The repository's own file is unlinked before it could be copied. -/
example : addPackages [⟨fooFile.file, .inside (fooFile.id.arch, fooFile.file)⟩] (run [addFiles [fooFile]]) =
    (.error .copyError, removeExisting (run [addFiles [fooFile]]) fooFile.file) := rfl

/-- Without a package of its own, `foo` is looked up as `libfoo`. -/
theorem foo_is_libfoo : ¬ LookupLaw (run [addFiles [libfooFile]]) fooFile.id fooFile.source := by
  intro law
  obtain ⟨paths, hpaths, hexact⟩ := law.exact
  have hfound : lookupAll (run [addFiles [libfooFile]]) fooFile.id.text =
      .ok [("amd64".toList, libfooFile.file)] := by decide
  rw [hfound] at hpaths
  cases hpaths
  have hname := ((hexact _ _).mp List.mem_cons_self).2.1
  exact absurd hname (by decide)

end DentOS.Onlpm
