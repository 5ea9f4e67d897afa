/-
  mkshar and the header of its shar agree (src/tools/mkshar, src/tools/scripts/sfx.sh.in).

  What they agree on (`Agrees`): whenever mkshar writes a shar, its checksum step gets to "checksum is
  OK", and with `--unzip-pad` its pad reset brings the archive back, but for the data of pad.bin.

  The condition is enough (`agrees_of_fits`):

  1. The header's blocks end where the header ends, so that the step digests the header without its
     checksum line and then the rest, which is the text that mkshar digested (`checksumStep_written`).

  2. With blocks of 512 bytes the block in front of that end is the first of the archive, and it goes
     back to the start (`padReset_written`, `sameOutside_written`).  The fragment's other bytes lie
     over the data of pad.bin, which is as long as the header.
-/
import DentOS.Shar.Written

namespace DentOS.Shar

open PyText

/-! ## What the two agree on: checksum and pad -/

/-- Two files with the same bytes but in a range. -/
def SameOutside (a b : Text) (place n : Nat) : Prop :=
  a.length = b.length ∧ ∀ i, ¬ (place ≤ i ∧ i < place + n) → a[i]? = b[i]?

/-- When mkshar writes a shar, its checksum step gets through, and its pad reset brings the archive
    back but for the data of pad.bin. -/
def Agrees (Z : Zip) (sh : Shell) (o : Options) (shar sfx install : Text) (args : List Text) : Prop :=
  ∀ file, mkshar Z o shar sfx install args = .ok file →
    checksumStep sh file = true ∧
      (o.unzipPad = true → ∃ zip out, zipFile Z o shar sfx install args = some zip ∧
        padReset sh file = some out ∧
        SameOutside out zip (dataAt zip) (padContent (padSfx o sfx).length).length)

variable {Z : Zip} {sh : Shell} {o : Options} {shar sfx install : Text} {args : List Text}

/-- A run of `mkshar` that succeeds, step by step. -/
theorem mkshar_cases {file : Text} (h : mkshar Z o shar sfx install args = .ok file) :
    ∃ script buf made, unsealed Z o shar sfx install args = .ok (script, buf, made) ∧
      adjustChecksum script buf made = .ok file := by
  obtain ⟨⟨script, buf, made⟩, hparts, h⟩ := bind_ok h
  exact ⟨script, buf, made, hparts, h⟩

/-! ## The condition is enough -/

variable {k g rest : Text}

/-- **The checksum is that of the file.** -/
theorem checksumStep_written (hsfx : SfxFragment sfx) (hfit : Fits sh o sfx install)
    (hw : Written o sfx install k g rest) : checksumStep sh (k ++ (g ++ rest)) = true := by
  have hbs : 0 < o.blocksize := Nat.lt_trans Nat.zero_lt_one hfit.blocked
  have hmod := length_padSfx_mod hbs sfx
  obtain ⟨vars, hheader⟩ := header_of_isSome
    ((assigned_isSome_iff hsfx hw sh (g ++ rest)).mpr ⟨hfit.installRead, hfit.permsRead⟩)
  obtain ⟨hbytes, hsize, hck, -⟩ := vars_written hw hheader
  have hfile : k ++ (g ++ rest) = (k ++ g) ++ rest := (List.append_assoc k g rest).symm
  rw [checksumStep_eq hheader (sfxBlocks_eq hfit.blocked hmod hsize hbytes)]
  refine decide_eq_true ?_
  rw [hck, newck, piped_eq hbs hmod hsize, ← hw.length, hfile, List.take_left, List.drop_left]

/-- The pad reset takes the block in front of the header's last 512 bytes, when it counts in its own
    blocks. -/
theorem padReset_written (hw : Written o sfx install k g rest) (hbs : 1 < o.blocksize)
    (hup : o.unzipPad = true) {vars : Tag → Text} (hheader : header sh (k ++ (g ++ rest)) = some vars) :
    padReset sh (k ++ (g ++ rest)) = some (overwrite (k ++ (g ++ rest)) 0
      (((k ++ (g ++ rest)).drop (512 * ((padSfx o sfx).length / o.blocksize - 1))).take 512)) := by
  have hpos : 0 < o.blocksize := Nat.lt_trans Nat.zero_lt_one hbs
  have hmod := length_padSfx_mod hpos sfx
  obtain ⟨hbytes, hsize, -, hpad⟩ := vars_written hw hheader
  have hblocks : (sfxBlocks sh vars).bind digits = some ((padSfx o sfx).length / o.blocksize) := by
    rw [sfxBlocks_eq hbs hmod hsize hbytes, Option.bind_some, digits_toDigits]
  have hset : vars .pad ≠ [] := by
    rw [hpad, if_pos hup]
    decide
  have hlong : o.blocksize ≤ (padSfx o sfx).length := by
    rw [length_padSfx hpos, padding, hup]
    show o.blocksize ≤ sfx.length + (_ + o.blocksize)
    omega
  have hne : (padSfx o sfx).length / o.blocksize ≠ 0 :=
    Nat.ne_of_gt (Nat.div_pos hlong hpos)
  rw [padReset_eq hheader hblocks hset hne, dd_block, List.take_take, Nat.min_self]

/-- A byte of a file that was written over from its start. -/
theorem getElem?_overwrite {file data : Text} (i : Nat) :
    (overwrite file 0 data)[i]? = if i < data.length then data[i]? else file[i]? := by
  rw [overwrite, List.take_zero, List.nil_append, Nat.zero_add]
  split
  · next h => exact List.getElem?_append_left h
  · next h =>
      rw [List.getElem?_append_right (by omega), List.getElem?_drop]
      congr 1
      omega

/-- The archive with `--unzip-pad`: the header of pad.bin, its data, and the rest. -/
theorem length_zip (hZ : Z.Format) (hbs : 0 < o.blocksize) (hup : o.unzipPad = true) {zip : Text}
    (hzip : zipFile Z o shar sfx install args = some zip) :
    dataAt zip + (padSfx o sfx).length ≤ zip.length ∧ zip.head? = some 'P' := by
  obtain ⟨head, tail, hzip', hdata, -, ⟨w, hw⟩, -⟩ := stored_pad hZ hup hzip
  have hpos := padding_pos hbs sfx.length
  have hsize := length_padSfx hbs sfx
  constructor
  · rw [← hdata, hzip', List.length_append, List.length_append, length_padContent (by omega)]
    omega
  · rw [hzip', ← hw]
    rfl

/-- **The first block of the archive comes back.** -/
theorem sameOutside_written (hZ : Z.Format) (hbs : o.blocksize = 512) (hup : o.unzipPad = true)
    {zip : Text} (hzip : zipFile Z o shar sfx install args = some zip) (hblock : Block o sfx zip g rest)
    (hw : Written o sfx install k g rest) :
    SameOutside (overwrite (k ++ (g ++ rest)) 0
      (((k ++ (g ++ rest)).drop (512 * ((padSfx o sfx).length / 512 - 1))).take 512)) zip (dataAt zip)
      (padContent (padSfx o sfx).length).length := by
  have hpos : 0 < o.blocksize := by omega
  obtain ⟨hzlen, -⟩ := length_zip hZ hpos hup hzip
  obtain ⟨hg, hrest⟩ := hblock.pad hup
  have hmod := length_padSfx_mod hpos sfx
  rw [hbs] at hg hmod
  have hlen := hw.length
  have hmagic : (zip.take 512).length = 512 := by
    have hp := padding_pos hpos sfx.length
    have hsize := length_padSfx hpos sfx
    rw [List.length_take]
    omega
  -- the last block of the header begins where the reset looks for it
  have hplace : 512 * ((padSfx o sfx).length / 512 - 1) =
      (k ++ List.replicate (padding o sfx.length - 512) '#').length := by
    rw [hg, ← List.append_assoc, List.length_append, hmagic] at hlen
    omega
  have hfile : k ++ (g ++ rest) =
      (k ++ List.replicate (padding o sfx.length - 512) '#') ++ (zip.take 512 ++ rest) := by
    rw [hg]
    simp only [List.append_assoc]
  have htaken : (zip.take 512 ++ rest).take 512 = zip.take 512 := by
    rw [List.take_append_of_le_length (by omega), List.take_take, Nat.min_self]
  have hcontent : (padContent (padSfx o sfx).length).length = (padSfx o sfx).length := by
    have hp := padding_pos hpos sfx.length
    have hsize := length_padSfx hpos sfx
    exact length_padContent (by omega)
  rw [hfile, hplace, List.drop_left, htaken, ← hfile]
  have hlong : 512 ≤ (padSfx o sfx).length := by
    rw [hg, List.length_append, List.length_append, hmagic] at hlen
    omega
  refine ⟨?_, fun i hi => ?_⟩
  · rw [overwrite, List.take_zero, List.nil_append, List.length_append, List.length_drop,
      ← List.append_assoc, List.length_append, hlen, hrest, List.length_drop]
    omega
  · rw [hcontent] at hi
    rw [getElem?_overwrite, hmagic]
    split
    · next h => rw [List.getElem?_take_of_lt h]
    · next h =>
        have hshort : dataAt zip ≤ 512 := by
          obtain ⟨head, tail, -, hdata, hshort, -, -⟩ := stored_pad hZ hup hzip
          omega
        rw [← List.append_assoc, List.getElem?_append_right (by omega), hrest, List.getElem?_drop, hlen]
        congr 1
        omega

/-- **The condition is enough.** -/
theorem agrees_of_fits (hZ : Z.Format) (hsfx : SfxFragment sfx) (hfit : Fits sh o sfx install) :
    Agrees Z sh o shar sfx install args := by
  intro file hfile
  obtain ⟨script, buf, made, hparts, hseal⟩ := mkshar_cases hfile
  obtain ⟨hbs, zip, k, g, rest, hzip, rfl, rfl, rfl, hblock, hrun⟩ :=
    unsealed_parts hZ hsfx hfit.toPlaced hparts
  obtain ⟨pre, l, r, hmark, hlines⟩ := hrun.marked
  obtain ⟨k', rfl, hw, -⟩ := written_of_room hbs hblock hrun hmark hlines hfit.room hseal
  refine ⟨checksumStep_written hsfx hfit hw, fun hup => ?_⟩
  obtain ⟨vars, hheader⟩ := header_of_isSome
    ((assigned_isSome_iff hsfx hw sh (g ++ rest)).mpr ⟨hfit.installRead, hfit.permsRead⟩)
  have hreset := padReset_written hw hfit.blocked hup hheader
  rw [hfit.padBlock hup] at hreset
  exact ⟨zip, _, hzip, hreset, sameOutside_written hZ (hfit.padBlock hup) hup hzip hblock hw⟩

end DentOS.Shar
