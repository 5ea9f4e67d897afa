/-
  `installSwi` and `ubi_installSwi` (onl/install/BaseInstall.py): the SWI that the installer carries goes to
  ONL-IMAGES, on a partition of a disk or on a UBI volume.

  Both look for names that end in `.swi` in the installer's directory and in its zip file, one list behind
  the other.  With one such entry both install it.  With none the second goes on to take the first of none,
  since it lacks a `return`; with more the first gives up quietly and the second with an error, also where
  it is one name that stands in both lists (`decidesAlike_iff`).

  What happens outside, the mounts and the copies, is a parameter (`Outside`); the two can only be compared
  where it goes well (`Works`).  Not modelled: the log, but for the two lines that the installers share.
-/
import DentOS.Install.Gpt

namespace DentOS.Install

open Effects PyText

/-! ## What the installers meet -/

/-- The installer's directory, and the members of its zip file. -/
structure Archives where
  /-- The files in the installer's directory. -/
  dirEntries : List Text
  /-- The members of its zip file. -/
  members : List Text

/-- A volume that `ubinfo -a` lists. -/
structure UbiPart where
  /-- The name of the volume. -/
  name : Text
  /-- Its device. -/
  device : Text
  /-- Its number. -/
  volumeId : Text
  /-- The type of its file system. -/
  fsType : Text
  deriving DecidableEq

/-- Which operations succeed: `present` is `os.path.exists` in the installer's directory, `copy2` and
    `extract` copy to ONL-IMAGES from there and from the zip file. -/
structure Outside where
  /-- Whether a file is in the installer's directory. -/
  present : Text → Bool
  /-- Whether it can be copied from there. -/
  copy2 : Text → Bool
  /-- Whether it can be copied from the zip file. -/
  extract : Text → Bool
  /-- The partitions. -/
  blkidParts : List BlkidEntry
  /-- Whether a device can be mounted. -/
  mount : Text → Bool
  /-- Whether it can be unmounted. -/
  umount : Text → Bool
  /-- The volumes; `none` where `ubinfo` fails. -/
  ubinfo : Option (List UbiPart)
  /-- Whether a directory can be made. -/
  makedirs : Text → Bool
  /-- Whether a volume can be mounted. -/
  ubiMount : Text → Bool
  /-- Whether `sync` succeeds. -/
  sync : Bool
  /-- Whether a volume can be unmounted. -/
  ubiUmount : Text → Bool

/-- What a step leaves behind: the two lines of the log, what is on ONL-IMAGES, and `self.ubiParts`. -/
structure SwiState where
  /-- The log says that ZTN will be needed. -/
  ztnRequired : Bool
  /-- The file that the log says is installed. -/
  installing : Option Text
  /-- The file on ONL-IMAGES. -/
  images : Option Text
  /-- The volumes, once they were listed. -/
  ubiParts : Option (List UbiPart)

/-- Nothing has been done. -/
def SwiState.start : SwiState := ⟨false, none, none, none⟩

/-- A step of the installer. -/
abbrev SwiStep := Prog SwiState PyError

/-! ## The steps of an install, in the two installers -/

/-- `x.endswith('.swi')`. -/
def isSwi (x : Text) : Bool := ".swi".toList.isSuffixOf x

/-- `swis`. -/
def swis (a : Archives) : List Text := (a.dirEntries ++ a.members).filter isSwi

/-- `swis[0]`. -/
def firstSwi : List Text → Except PyError Text
  | [] => .error .indexError
  | x :: _ => .ok x

section

variable (o : Outside) (a : Archives)

/-- `installerCopy`, to ONL-IMAGES. -/
def installerCopy (basename : Text) (optional : Bool) : SwiStep Bool :=
  if o.present basename then do
    Prog.check (o.copy2 basename) .otherError
    Prog.modify fun s => { s with images := some basename }
    pure true
  else if basename ∈ a.members then do
    Prog.check (o.extract basename) .otherError
    Prog.modify fun s => { s with images := some basename }
    pure true
  else if !optional then Prog.throw .valueError
  else pure false

/-- `with MountContext(dev)`: the device is unmounted however the body ends. -/
def withMount {α : Type} (dev : Text) (body : SwiStep α) : SwiStep α := fun s =>
  if o.mount dev then
    let (r, s') := body s
    if o.umount dev then (r, s') else (.error .calledProcessError, s')
  else (.error .calledProcessError, s)

/-- The partition of the images. -/
def onlImages : Text := "ONL-IMAGES".toList

/-- What `installSwi` does from 'Installing ONL Software Image' on. -/
def installBase (base : Text) : SwiStep (Option Nat) := do
  let dev ← Prog.ofExcept (blkidNamed o.blkidParts onlImages)
  let _ ← withMount o dev.device (installerCopy o a base false)
  pure (some 0)

/-- `installSwi`: none is a `return` without a value. -/
def installSwi : SwiStep (Option Nat) :=
  if swis a = [] then do
    Prog.modify fun s => { s with ztnRequired := true }
    pure none
  else if (swis a).length > 1 then pure none
  else do
    let base ← Prog.ofExcept (firstSwi (swis a))
    Prog.modify fun s => { s with installing := some base }
    installBase o a base

/-- `self.ubiParts`, read if it was not yet; none is an exception of the parser. -/
def ubiPartsOf : SwiStep (Option (List UbiPart)) := do
  let s ← Prog.get
  if s.ubiParts.isSome then pure s.ubiParts
  else do
    Prog.modify fun s => { s with ubiParts := o.ubinfo }
    pure o.ubinfo

/-- `ubi_mount`. -/
def ubiMount (dir devpart : Option Text) : SwiStep Nat :=
  match devpart, dir with
  | none, _ => pure 1
  | some _, none => pure 1
  | some devpart, some dir => do
      let ubiParts ← ubiPartsOf o
      match ubiParts with
      | none => pure 1
      | some parts =>
          match parts.find? fun part => part.name = devpart with
          | none => pure 1
          | some dev => do
              Prog.check (o.makedirs dir) .otherError
              Prog.check (o.ubiMount ("/dev/".toList ++ dev.device ++ "_".toList ++ dev.volumeId))
                .calledProcessError
              pure 0

/-- `ubi_unmount`. -/
def ubiUnmount (dir : Option Text) : SwiStep Nat :=
  match dir with
  | none => pure 1
  | some dir => do
      Prog.check (o.ubiUmount dir) .calledProcessError
      pure 0

/-- Where the UBI volume is mounted. -/
def ubifsDir : Text := "/tmp/ubifs".toList

/-- What `ubi_installSwi` does from 'Installing ONL Software Image' on. -/
def ubiInstallBase (base : Text) : SwiStep Nat := do
  let code ← ubiMount o (some ubifsDir) (some onlImages)
  if code ≠ 0 then pure 1
  else do
    let _ ← installerCopy o a base false
    Prog.check o.sync .calledProcessError
    let _ ← ubiUnmount o (some ubifsDir)
    pure 0

/-- `ubi_installSwi`. -/
def ubiInstallSwi : SwiStep Nat := do
  if swis a = [] then Prog.modify fun s => { s with ztnRequired := true } else pure ()
  if (swis a).length > 1 then pure 1
  else do
    let base ← Prog.ofExcept (firstSwi (swis a))
    Prog.modify fun s => { s with installing := some base }
    ubiInstallBase o a base

/-! ## Alike: the same log, the same files -/

/-- `if code: return code`, or an exception. -/
def aborts : Except PyError (Option Nat) → Bool
  | .error _ => true
  | .ok none => false
  | .ok (some code) => code ≠ 0

/-- How each of the two ends. -/
def blockEnd : Bool × SwiState :=
  (aborts (installSwi o a .start).1, (installSwi o a .start).2)

/-- How the UBI installer ends. -/
def ubiEnd : Bool × SwiState :=
  (aborts ((ubiInstallSwi o a .start).1.map some), (ubiInstallSwi o a .start).2)

/-- Outside everything goes well. -/
structure Works : Prop where
  copies : ∀ n ∈ swis a, (o.present n = true ∧ o.copy2 n = true) ∨ (o.present n = false ∧ n ∈ a.members ∧
    o.extract n = true)
  block : ∃ dev, blkidNamed o.blkidParts onlImages = .ok dev ∧ o.mount dev.device = true ∧
    o.umount dev.device = true
  ubi : ∃ parts dev, o.ubinfo = some parts ∧ (parts.find? fun part => part.name = onlImages) = some dev ∧
    o.ubiMount ("/dev/".toList ++ dev.device ++ "_".toList ++ dev.volumeId) = true
  makedirs : o.makedirs ubifsDir = true
  sync : o.sync = true
  ubiUmount : o.ubiUmount ubifsDir = true

/-- A step that ended well, with the SWI installed. -/
def Installs (n : Text) (out : Bool × SwiState) : Prop := out.1 = false ∧ out.2.images = some n

/-- A step that ended well without a SWI. -/
def LeavesToZtn (out : Bool × SwiState) : Prop := out.1 = false ∧ out.2.ztnRequired = true

/-- **The two installers decide alike.** -/
structure Alike : Prop where
  one : ∀ n, (∀ x, x ∈ swis a ↔ x = n) → Installs n (blockEnd o a) ∧ Installs n (ubiEnd o a)
  none : swis a = [] → LeavesToZtn (blockEnd o a) ∧ LeavesToZtn (ubiEnd o a)
  several : (∃ x ∈ swis a, ∃ y ∈ swis a, x ≠ y) → (blockEnd o a).1 = (ubiEnd o a).1

end

/-- The two installers select the same SWI, and where everything goes well outside they decide alike. -/
def DecidesAlike (a : Archives) : Prop :=
  ∀ o : Outside, (blockEnd o a).2.installing = (ubiEnd o a).2.installing ∧ (Works o a → Alike o a)

/-! ## The cases, by the number of SWIs -/

section

variable {o : Outside} {a : Archives} {n : Text}

/-- What both do with the one SWI, up to what differs between them. -/
theorem installerCopy_works (h : Works o a) (hn : n ∈ swis a) (s : SwiState) :
    installerCopy o a n false s = (.ok true, { s with images := some n }) := by
  rw [installerCopy]
  rcases h.copies n hn with ⟨hpresent, hcopy⟩ | ⟨habsent, hmember, hextract⟩
  · rw [if_pos hpresent, Prog.check_bind_apply, if_pos hcopy]
    rfl
  · rw [if_neg (by rw [habsent]; decide), if_pos hmember, Prog.check_bind_apply, if_pos hextract]
    rfl

/-- The volume is mounted. -/
theorem ubiMount_works (h : Works o a) (s : SwiState) (hs : s.ubiParts = none) :
    ubiMount o (some ubifsDir) (some onlImages) s = (.ok 0, { s with ubiParts := o.ubinfo }) := by
  obtain ⟨parts, dev, hubinfo, hfind, hmount⟩ := h.ubi
  have hparts : ubiPartsOf o s = (.ok (some parts), { s with ubiParts := o.ubinfo }) := by
    rw [ubiPartsOf, Prog.get_bind_apply, if_neg (by rw [hs]; decide), Prog.modify_bind_apply, hubinfo]
    rfl
  show (ubiPartsOf o >>= _) s = _
  rw [Prog.bind_of_ok hparts]
  simp only [hfind, Prog.check_bind_apply, h.makedirs, hmount, if_true]
  rfl

/-- One SWI is installed by the block installer. -/
theorem installSwi_one (hone : swis a = [n]) :
    installSwi o a .start = installBase o a n { SwiState.start with installing := some n } := by
  have hlength : ¬ (swis a).length > 1 := by
    rw [hone]
    exact Nat.lt_irrefl 1
  rw [installSwi, if_neg (hone ▸ List.cons_ne_nil n []), if_neg hlength, hone]
  rfl

/-- One SWI is installed by the UBI installer. -/
theorem ubiInstallSwi_one (hone : swis a = [n]) :
    ubiInstallSwi o a .start = ubiInstallBase o a n { SwiState.start with installing := some n } := by
  have hlength : ¬ (swis a).length > 1 := by
    rw [hone]
    exact Nat.lt_irrefl 1
  rw [ubiInstallSwi, if_neg (hone ▸ List.cons_ne_nil n [])]
  show (if (swis a).length > 1 then pure 1 else _ : SwiStep Nat) _ = _
  rw [if_neg hlength, hone]
  rfl

/-- **One SWI** is installed by both. -/
theorem installs_one (h : Works o a) (hone : swis a = [n]) :
    Installs n (blockEnd o a) ∧ Installs n (ubiEnd o a) := by
  have hn : n ∈ swis a := hone ▸ List.mem_singleton_self n
  constructor
  · obtain ⟨dev, hdev, hmount, humount⟩ := h.block
    have hmounted : withMount o dev.device (installerCopy o a n false)
        { SwiState.start with installing := some n } =
          (.ok true, { SwiState.start with installing := some n, images := some n }) := by
      rw [withMount, if_pos hmount, installerCopy_works h hn]
      exact if_pos humount
    have hend : installSwi o a .start =
        (.ok (some 0), { SwiState.start with installing := some n, images := some n }) := by
      rw [installSwi_one hone, installBase, hdev]
      exact Prog.bind_of_ok hmounted
    rw [blockEnd, hend]
    exact ⟨rfl, rfl⟩
  · have hend : ubiInstallSwi o a .start =
        (.ok 0, ⟨false, some n, some n, o.ubinfo⟩) := by
      rw [ubiInstallSwi_one hone, ubiInstallBase, Prog.bind_of_ok (ubiMount_works h _ rfl),
        if_neg (fun hne => hne rfl),
        Prog.bind_of_ok (installerCopy_works h hn _), Prog.check_bind_apply, if_pos h.sync]
      have humount : ∀ s, ubiUnmount o (some ubifsDir) s = (.ok 0, s) := by
        intro s
        rw [ubiUnmount, Prog.check_bind_apply, if_pos h.ubiUmount]
        rfl
      exact Prog.bind_of_ok (humount _)
    rw [ubiEnd, hend]
    exact ⟨rfl, rfl⟩

/-- **No SWI**: the first leaves it to ZTN, and the second takes the first of none. -/
theorem ends_none (h : swis a = []) :
    LeavesToZtn (blockEnd o a) ∧ (ubiEnd o a).1 = true ∧ (ubiEnd o a).2.installing = none := by
  have hblock : installSwi o a .start = (.ok none, { SwiState.start with ztnRequired := true }) := by
    rw [installSwi, if_pos h]
    rfl
  have hubi : ubiInstallSwi o a .start =
      (.error .indexError, { SwiState.start with ztnRequired := true }) := by
    rw [ubiInstallSwi, h]
    rfl
  rw [blockEnd, ubiEnd, hblock, hubi]
  exact ⟨⟨rfl, rfl⟩, rfl, rfl⟩

/-- **Several entries**: the first goes on without one, and the second stops. -/
theorem ends_several (h : 1 < (swis a).length) :
    blockEnd o a = (false, .start) ∧ ubiEnd o a = (true, .start) := by
  have hne : ¬ swis a = [] := by
    intro hnil
    rw [hnil] at h
    exact absurd h (Nat.not_lt_zero 1)
  have hblock : installSwi o a .start = (.ok none, .start) := by
    rw [installSwi, if_neg hne, if_pos h]
    rfl
  have hubi : ubiInstallSwi o a .start = (.ok 1, .start) := by
    rw [ubiInstallSwi, if_neg hne, if_pos h]
    rfl
  rw [blockEnd, ubiEnd, hblock, hubi]
  exact ⟨rfl, rfl⟩

/-- The SWI that was chosen stays chosen. -/
theorem keeps_installerCopy (n : Text) (optional : Bool) (chosen : Option Text) :
    Prog.Keeps (fun s : SwiState => s.installing = chosen) (installerCopy o a n optional) := by
  have hcopied : ∀ b : Bool, Prog.Keeps (fun s : SwiState => s.installing = chosen) (do
      Prog.check b .otherError
      Prog.modify fun s => { s with images := some n }
      pure true : SwiStep Bool) := fun b =>
    Prog.keeps_bind (Prog.keeps_check _ _ _) fun _ =>
      Prog.keeps_bind (Prog.keeps_modify fun _ hs => hs) fun _ => Prog.keeps_pure _ _
  exact Prog.keeps_ite (hcopied _) (Prog.keeps_ite (hcopied _)
    (Prog.keeps_ite (Prog.keeps_throw _ _) (Prog.keeps_pure _ _)))

/-- The choice does not change while the SWI is copied. -/
theorem keeps_installBase (n : Text) (chosen : Option Text) :
    Prog.Keeps (fun s : SwiState => s.installing = chosen) (installBase o a n) := by
  refine Prog.keeps_bind (Prog.keeps_ofExcept _ _) fun dev =>
    Prog.keeps_bind (fun s hs => ?_) fun _ => Prog.keeps_pure _ _
  rw [withMount]
  split
  · have hcopy : (installerCopy o a n false s).2.installing = chosen :=
      keeps_installerCopy n false chosen s hs
    dsimp only
    split <;> exact hcopy
  · exact hs

/-- The choice does not change by the mount. -/
theorem keeps_ubiMount (dir devpart : Option Text) (chosen : Option Text) :
    Prog.Keeps (fun s : SwiState => s.installing = chosen) (ubiMount o dir devpart) := by
  cases devpart with
  | none => exact Prog.keeps_pure _ _
  | some devpart =>
      cases dir with
      | none => exact Prog.keeps_pure _ _
      | some dir =>
          refine Prog.keeps_bind (Prog.keeps_bind (Prog.keeps_get _) fun s => Prog.keeps_ite
            (Prog.keeps_pure _ _) (Prog.keeps_bind (Prog.keeps_modify fun _ hs => hs)
              fun _ => Prog.keeps_pure _ _)) fun ubiParts => ?_
          cases ubiParts with
          | none => exact Prog.keeps_pure _ _
          | some parts =>
              dsimp only
              split
              · exact Prog.keeps_pure _ _
              · exact Prog.keeps_bind (Prog.keeps_check _ _ _) fun _ =>
                  Prog.keeps_bind (Prog.keeps_check _ _ _) fun _ => Prog.keeps_pure _ _

/-- The choice does not change in the UBI installer. -/
theorem keeps_ubiInstallBase (n : Text) (chosen : Option Text) :
    Prog.Keeps (fun s : SwiState => s.installing = chosen) (ubiInstallBase o a n) := by
  refine Prog.keeps_bind (keeps_ubiMount _ _ chosen) fun code => Prog.keeps_ite (Prog.keeps_pure _ _) ?_
  refine Prog.keeps_bind (keeps_installerCopy n false chosen) fun _ =>
    Prog.keeps_bind (Prog.keeps_check _ _ _) fun _ => Prog.keeps_bind ?_ fun _ => Prog.keeps_pure _ _
  exact Prog.keeps_bind (Prog.keeps_check _ _ _) fun _ => Prog.keeps_pure _ _

/-- With one SWI it is selected by both, whatever happens then. -/
theorem installing_one (hone : swis a = [n]) :
    (blockEnd o a).2.installing = some n ∧ (ubiEnd o a).2.installing = some n := by
  constructor
  · rw [blockEnd, installSwi_one hone]
    exact keeps_installBase n (some n) _ rfl
  · rw [ubiEnd, ubiInstallSwi_one hone]
    exact keeps_ubiInstallBase n (some n) _ rfl

end

/-! ## Both installers decide alike, exactly on one SWI -/

/-- Everything goes well, and the SWIs are in the directory. -/
def allWell : Outside where
  present _ := true
  copy2 _ := true
  extract _ := true
  blkidParts := [⟨"/dev/sda5".toList, some onlImages, none⟩]
  mount _ := true
  umount _ := true
  ubinfo := some [⟨onlImages, "ubi0".toList, "1".toList, "ubifs".toList⟩]
  makedirs _ := true
  ubiMount _ := true
  sync := true
  ubiUmount _ := true

/-- With all calls succeeding everything works. -/
theorem works_allWell (a : Archives) : Works allWell a where
  copies _ _ := .inl ⟨rfl, rfl⟩
  block := ⟨_, rfl, rfl, rfl⟩
  ubi := ⟨_, _, rfl, rfl, rfl⟩
  makedirs := rfl
  sync := rfl
  ubiUmount := rfl

/-- **The two installers decide alike** exactly when one entry of the two lists ends in `.swi`. -/
theorem decidesAlike_iff (a : Archives) : DecidesAlike a ↔ (swis a).length = 1 := by
  constructor
  · intro h
    have halike := (h allWell).2 (works_allWell a)
    rcases hswis : swis a with _ | ⟨x, _ | ⟨y, rest⟩⟩
    · have hubi := (halike.none hswis).2.1
      rw [(ends_none hswis).2.1] at hubi
      cases hubi
    · rfl
    · -- one name twice is not installed, and two names are not treated alike
      have hlength : 1 < (swis a).length := by
        rw [hswis, List.length_cons, List.length_cons]
        omega
      obtain ⟨hblock, hubi⟩ := ends_several (o := allWell) hlength
      by_cases hsame : ∀ z ∈ swis a, z = x
      · have hx : ∀ z, z ∈ swis a ↔ z = x := fun z =>
          ⟨hsame z, fun hz => hz ▸ hswis ▸ List.mem_cons_self⟩
        have hinstalled := (halike.one x hx).1.2
        rw [hblock] at hinstalled
        cases hinstalled
      · obtain ⟨z, hz, hne⟩ : ∃ z ∈ swis a, z ≠ x := by
          by_contra hnone
          exact hsame fun z hz => by_contra fun hne => hnone ⟨z, hz, hne⟩
        have hverdict := halike.several ⟨z, hz, x, hswis ▸ List.mem_cons_self, hne⟩
        rw [hblock, hubi] at hverdict
        cases hverdict
  · intro hlength o
    obtain ⟨n, hone⟩ := List.length_eq_one_iff.mp hlength
    obtain ⟨hblock, hubi⟩ := installing_one (o := o) hone
    refine ⟨hblock.trans hubi.symm, fun h => ⟨fun x hx => ?_, fun hnone => ?_, fun hseveral => ?_⟩⟩
    · obtain rfl : n = x := (hx n).mp (hone ▸ List.mem_singleton_self n)
      exact installs_one h hone
    · rw [hnone] at hone
      cases hone
    · obtain ⟨x, hx, y, hy, hne⟩ := hseveral
      rw [hone, List.mem_singleton] at hx hy
      exact absurd (hx.trans hy.symm) hne

/-- No SWI at all. -/
theorem none_not_alike : ¬ ∀ a : Archives, DecidesAlike a := by
  intro h
  have hubi := (((h ⟨[], []⟩) allWell).2 (works_allWell _)).none rfl
  exact absurd hubi.2.1 (by decide)

end DentOS.Install
