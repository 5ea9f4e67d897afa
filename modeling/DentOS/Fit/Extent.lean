/-
  The extent of the initrd, from the build to the boot loader.

  Four programs hand on where the initrd lies in the FIT image, as text:

  * `pyfit offset` prints the first and the last offset, both inclusive;
  * `add_fit` (tools/mkinstaller.py) turns these into an offset and a size, for the installer;
  * installer.sh cuts the initrd out with two calls of `dd`: one skips a block of `offset` bytes, one
    truncates the copy to a block of `size` bytes;
  * `installUbootEnv` (onl/install/BaseInstall.py) turns offset and size into an inclusive range again,
    for the boot environment.

  `add_fit` takes the difference of the two offsets for the size, and that is one too few: of `n`
  bytes `n - 1` are extracted, and the range ends one byte early (`extent_one_short`).
-/
import DentOS.Fit.Initrd
import DentOS.Fit.RoundTrip

namespace DentOS.Fit

open Outcome PyText

/-! ## The programs: what pyfit prints, and what mkinstaller makes of it -/

/-- `int(text)`. -/
def pyInt (t : Text) : Py Int :=
  match intOf t with
  | some i => .returned i
  | none => .raised (.valueError "invalid literal for int() with base 10")

/-- `add_fit` on the exit code and the output of `pyfit -v offset FIT --initrd`: the values of
    `INITRD_OFFSET` and `INITRD_SIZE`. -/
def addFit (result : Nat × Text) : Py (Text × Text) :=
  if result.1 ≠ 0 then .raised (.calledProcessError result.1)
  else
    match split result.2 with
    | first :: last :: _ => do
        let e ← pyInt last
        let s ← pyInt first
        pure (first, strInt (e - s))
    | _ => .raised .indexError

/-- The block size that `dd` takes from `bs=`; it refuses 0. -/
def ddBlock (bs : Text) : Option Nat :=
  match digits bs with
  | some 0 => none
  | bs => bs

/-- What `dd if=/dev/null of=FILE bs=n seek=1` leaves of a file. -/
def truncate (n : Nat) (bs : Bytes) : Bytes := (bs ++ List.replicate (n - bs.length) 0).take n

/-- The compressed initrd that installer.sh unpacks; `none` when a `dd` fails, at which the script,
    run with `set -e`, stops. -/
def installerInitrd (archive : Bytes) (initrdOffset initrdSize : Text) : Option Bytes :=
  if initrdOffset = [] then some archive
  else
    match ddBlock initrdOffset with
    | none => none
    | some skip =>
        match ddBlock initrdSize with
        | none => none
        | some seek => some (truncate seek (archive.drop skip))

/-- `"%s:%x:%x" % (a, s, e)`. -/
def initrdEnv (a : Text) (s e : Int) : Text := a ++ ':' :: (hexInt s ++ ':' :: hexInt e)

/-- `installUbootEnv`: the value of `onl_installer_initrd`. -/
def installUbootEnv (a initrdOffset initrdSize : Text) : Py Text := do
  let s ← pyInt initrdOffset
  let sz ← pyInt initrdSize
  let e := s + sz - 1
  pure (initrdEnv a s e)

/-! ## The extent of a property, first and last byte -/

section

variable (dictKeys : List Bytes → List Bytes) (fit : Bytes) (fuel : Nat)

/-- The data property of the ramdisk that the selected configuration of the image names. -/
def ramdiskData : Py (Option FdtProperty) := do
  let p ← parseStream fit fuel
  dataProp dictKeys fit p none none

/-- What the build puts into the installer. -/
def buildExtent : Py (Text × Text) := do
  let result ← pyfitOffset dictKeys fit fuel none none
  addFit result

/-- The installer extracts exactly the `n` bytes at `o`. -/
def Extracts (o n : Nat) : Prop :=
  ∃ initrdOffset initrdSize, buildExtent dictKeys fit fuel = .returned (initrdOffset, initrdSize) ∧
    installerInitrd fit initrdOffset initrdSize = some ((fit.drop o).take n)

/-- The boot environment gets the range from `o` to `o + n - 1`. -/
def WritesRange (a : Text) (o n : Nat) : Prop :=
  ∃ initrdOffset initrdSize, buildExtent dictKeys fit fuel = .returned (initrdOffset, initrdSize) ∧
    installUbootEnv a initrdOffset initrdSize = .returned (initrdEnv a o (o + n - 1))

end

/-! ## What is handed on: the size is one less than it should be -/

/-- A text without words. -/
theorem split_nil : split [] = [] := rfl

/-- Two numbers, a space between them and a newline behind. -/
theorem split_two (i j : Int) : split (strInt i ++ ' ' :: (strInt j ++ ['\n'])) =
    [strInt i, strInt j] := by
  rw [split_word (fun c hc => not_isSpace_of_mem hc) (strInt_ne_nil i) (by decide),
    split_word (fun c hc => not_isSpace_of_mem hc) (strInt_ne_nil j) (by decide), split_nil]

/-- `int(str(i))` is `i`. -/
theorem pyInt_strInt (i : Int) : pyInt (strInt i) = .returned i := by
  rw [pyInt, intOf_strInt]

/-- What the offset runner prints for a property. -/
theorem pyfitOffset_eq {dictKeys : List Bytes → List Bytes} {fit : Bytes} {fuel : Nat}
    {prop : FdtProperty} (h : ramdiskData dictKeys fit fuel = .returned (some prop)) :
    ∃ nops, pyfitOffset dictKeys fit fuel none none =
      .returned (0, nopLines nops ++ printOffsets prop) := by
  obtain ⟨p, hp, hprop⟩ := bind_eq_returned h
  refine ⟨p.nops, ?_⟩
  rw [pyfitOffset, offsetRun, hp, returned_bind, hprop, returned_bind]
  rfl

/-- A line "NOP" is taken for an offset, and is no number. -/
theorem addFit_nop (nops : Nat) (prop : FdtProperty) (r : Text × Text) :
    addFit (0, nopLines (nops + 1) ++ printOffsets prop) ≠ .returned r := by
  have hword : (['N', 'O', 'P'].all fun c => !isSpace c) = true := by decide
  have hsplit : split (nopLines (nops + 1) ++ printOffsets prop) =
      ['N', 'O', 'P'] :: split (nopLines nops ++ printOffsets prop) :=
    split_word (fun c hc => Bool.not_eq_eq_eq_not.mp (List.all_eq_true.mp hword c hc)) (by decide)
      (by decide) _
  have hnop : pyInt ['N', 'O', 'P'] =
      .raised (.valueError "invalid literal for int() with base 10") := by decide
  intro h
  unfold addFit at h
  rw [if_neg (fun hne => hne rfl), hsplit] at h
  split at h
  · rename_i first last rest hwords
    obtain ⟨rfl, -⟩ := List.cons.inj hwords
    obtain ⟨e, -, h⟩ := bind_eq_returned h
    rw [hnop] at h
    cases h
  · cases h

/-- The line that `pyfit` prints is read back as two numbers. -/
theorem addFit_offsets (prop : FdtProperty) :
    addFit (0, nopLines 0 ++ printOffsets prop) =
      .returned (strInt prop.offset, strInt (prop.sz - 1)) := by
  have hsplit : split (nopLines 0 ++ printOffsets prop) =
      [strInt prop.offset, strInt (prop.offset + prop.sz - 1)] := split_two _ _
  unfold addFit
  rw [if_neg (fun hne => hne rfl), hsplit]
  dsimp only
  rw [pyInt_strInt, returned_bind, pyInt_strInt, returned_bind,
    show (prop.offset : Int) + prop.sz - 1 - prop.offset = prop.sz - 1 by omega]
  rfl

/-- **One too few.**  When the build gives the installer an extent at all, its size is one less than
    that of the property. -/
theorem extent_one_short {dictKeys : List Bytes → List Bytes} {fit : Bytes} {fuel : Nat}
    {prop : FdtProperty} (h : ramdiskData dictKeys fit fuel = .returned (some prop))
    {initrdOffset initrdSize : Text}
    (hb : buildExtent dictKeys fit fuel = .returned (initrdOffset, initrdSize)) :
    initrdOffset = strInt prop.offset ∧ initrdSize = strInt (prop.sz - 1) := by
  obtain ⟨nops, hrun⟩ := pyfitOffset_eq h
  rw [buildExtent, hrun, returned_bind] at hb
  cases nops with
  | zero =>
      rw [addFit_offsets] at hb
      injection hb with hb
      exact ⟨(Prod.mk.inj hb).1.symm, (Prod.mk.inj hb).2.symm⟩
  | succ nops => exact absurd hb (addFit_nop nops prop _)

/-! ## The verdict: the size is never right -/

/-- The environment tells apart the ends of the range. -/
theorem initrdEnv_last {a : Text} {s e e' : Int} (h : initrdEnv a s e = initrdEnv a s e') :
    e = e' := by
  have htail := List.append_cancel_left h
  have hlast := List.append_cancel_left (List.cons.inj htail).2
  exact hexInt_injective (List.cons.inj hlast).2

/-- The block sizes that `dd` is given. -/
theorem ddBlock_strInt (n : Nat) : ddBlock (strInt n) = if n = 0 then none else some n := by
  rw [ddBlock, show digits (strInt n) = some n from digits_toDigits n]
  cases n <;> rfl

/-- What the installer extracts with that extent is shorter than the property. -/
theorem length_installerInitrd {fit initrd : Bytes} {o k : Nat}
    (h : installerInitrd fit (strInt o) (strInt k) = some initrd) : initrd.length = k := by
  rw [installerInitrd, if_neg (strInt_ne_nil _), ddBlock_strInt, ddBlock_strInt] at h
  by_cases ho : o = 0
  · rw [if_pos ho] at h
    cases h
  by_cases hk : k = 0
  · rw [if_neg ho, if_pos hk] at h
    cases h
  · rw [if_neg ho, if_neg hk] at h
    injection h with h
    rw [← h, truncate, List.length_take, List.length_append, List.length_replicate]
    omega

/-- **The extents never agree.**  For every image whose selected configuration names a ramdisk with
    data, the installer does not extract the data and the boot environment does not get its range. -/
theorem extents_never_agree (dictKeys : List Bytes → List Bytes) (fit : Bytes) (fuel : Nat)
    (a : Text) (prop : FdtProperty)
    (h : ramdiskData dictKeys fit fuel = .returned (some prop)) (hpos : 0 < prop.sz)
    (hin : prop.offset + prop.sz ≤ fit.length) :
    ¬ Extracts dictKeys fit fuel prop.offset prop.sz ∧
      ¬ WritesRange dictKeys fit fuel a prop.offset prop.sz := by
  constructor
  · rintro ⟨initrdOffset, initrdSize, hb, hextract⟩
    obtain ⟨rfl, rfl⟩ := extent_one_short h hb
    rw [show (prop.sz : Int) - 1 = ((prop.sz - 1 : Nat) : Int) by omega] at hextract
    have hlen := length_installerInitrd hextract
    rw [List.length_take, List.length_drop] at hlen
    omega
  · rintro ⟨initrdOffset, initrdSize, hb, henv⟩
    obtain ⟨rfl, rfl⟩ := extent_one_short h hb
    rw [installUbootEnv, pyInt_strInt, returned_bind, pyInt_strInt, returned_bind] at henv
    injection henv with henv
    have hlast := initrdEnv_last henv
    omega

/-- An image with one configuration, whose ramdisk has three bytes of data. -/
def fitRoots : DtItems :=
  .node [] (.node (ascii "images")
      (.node (ascii "r") (.prop (ascii "data") 0 [0x1F, 0x8B, 0x08] .nil) .nil)
    (.node (ascii "configurations")
      (.prop (ascii "default") 5 (ascii "c" ++ [0x00])
        (.node (ascii "c") (.prop (ascii "ramdisk") 13 (ascii "r" ++ [0x00]) .nil) .nil)) .nil)) .nil

/-- The header of a small image with one ramdisk. -/
def fitHeader : FdtHeader where
  totalsize := 205
  offDtStruct := 56
  offDtStrings := 184
  offMemRsvmap := 40
  version := 17
  lastCompVersion := 16
  bootCpuidPhys := 0
  sizeDtStrings := 21
  sizeDtStruct := 128

/-- The image: its tree, and the strings behind it. -/
def fitFile : Bytes :=
  fitHeader.words.flatMap word ++ List.replicate 16 0 ++ (fitRoots.encode ++ word fdtEnd) ++
    (ascii "data" ++ 0x00 :: (ascii "default" ++ 0x00 :: (ascii "ramdisk" ++ [0x00])))

/-- Three bytes at 96. -/
theorem fitFile_ramdisk :
    ramdiskData id fitFile 206 = .returned (some ⟨ascii "data", 96, 3⟩) := by decide +kernel

/-- `pyfit` extracts them, and the range that is written is another one. -/
theorem fitFile_never_agrees :
    ¬ Extracts id fitFile 206 96 3 ∧ ¬ WritesRange id fitFile 206 ['r', 'd'] 96 3 :=
  extents_never_agree id fitFile 206 ['r', 'd'] ⟨ascii "data", 96, 3⟩ fitFile_ramdisk (by decide)
    (by decide +kernel)

/-- The three bytes at 96 are built in as an extent of two. -/
theorem fitFile_short : buildExtent id fitFile 206 = .returned (['9', '6'], ['2']) ∧
    ¬ (Extracts id fitFile 206 96 3 ∧ WritesRange id fitFile 206 ['r', 'd'] 96 3) := by
  have hbuild : buildExtent id fitFile 206 = .returned (['9', '6'], ['2']) := by decide +kernel
  refine ⟨hbuild, ?_⟩
  rintro ⟨⟨initrdOffset, initrdSize, hb, hextract⟩, -⟩
  rw [hbuild] at hb
  injection hb with hb
  obtain ⟨rfl, rfl⟩ := Prod.mk.inj hb
  exact absurd hextract (by decide +kernel)

end DentOS.Fit
