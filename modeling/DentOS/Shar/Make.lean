/-
  src/tools/mkshar: a self-extracting shar from an SFX fragment and a zip archive.

  A byte of a file is the character with its code.  `zip` is a parameter (`Zip`): the archive that its
  commands leave, and what `zip -A` makes of a file; of the files that they read only pad.bin is
  mkshar's own.  What is relied on is the layout of a zip file (`Zip.Format`).  A path names the same
  file with `os.path.abspath` around it.  Not modelled: the log, the file modes, and the removal of
  the files that are not the shar.

  A run is `unsealed`, the archive behind the blocked script with all tags spliced but the checksum,
  and `adjustChecksum`, which splices the digest of that.  `padSfx_eq` is the blocked script as a text.
-/
import DentOS.Lib.Md5
import DentOS.Shar.Tags

namespace DentOS.Shar

open PyText

/-! ## `zip`: what is known of the archive -/

/-- The zip program, in a directory with its files: the archive that is there when the commands have
    been run, with pad.bin as given during the first of them, and the file that `-A` leaves; `none`
    when a command fails. -/
structure Zip where
  /-- The archive that the commands leave. -/
  archive : Option Text → List (List Text) → Option Text
  /-- The file that `-A` leaves. -/
  adjust : Text → Option Text

/-- A number of two bytes, low byte first. -/
def le16 (t : Text) (i : Nat) : Nat := (t.getD i '\x00').toNat + 256 * (t.getD (i + 1) '\x00').toNat

/-- Where the data of the first entry begins: behind the 30 bytes of its header, its name and its
    extra field, whose lengths stand at 26 and 28. -/
def dataAt (zip : Text) : Nat := 30 + le16 zip 26 + le16 zip 28

/-- `ZIP_OPTS`. -/
def zipOpts : List Text :=
  ["-v", "-y", "-n", ".zip:.loader:.swi:.jar:.gz:.bz:.bz2:.xz"].map String.toList

/-- The command of `_addfile(path, *opts)`. -/
def addfile (zipFile path : Text) (opts : List Text) : List Text :=
  "/usr/bin/zip".toList :: zipOpts ++ opts ++ ["-u".toList, zipFile, path]

/-- The command of `_addfiles(paths, *opts)`. -/
def addfiles (zipFile : Text) (paths opts : List Text) : List Text :=
  "/usr/bin/zip".toList :: zipOpts ++ opts ++ zipFile :: paths

/-- `PAD_BIN`, as it is in the archive. -/
def padBin : Text := "pad.bin".toList

/-- The command that stores pad.bin. -/
def addPad (zipFile : Text) : List Text := addfile zipFile padBin ["-0".toList, "-j".toList]

/-- The layout of a zip file.  A file that is stored first stands as it is behind its header, which
    has its sizes, times and owners and is short; `-A` changes offsets in the archive, and nothing of
    what is in front of it. -/
structure Zip.Format (Z : Zip) : Prop where
  stored : ∀ {pad zipFile : Text} {cmds : List (List Text)} {zip : Text},
    Z.archive (some pad) (addPad zipFile :: cmds) = some zip →
    ∃ header rest, zip = header ++ (pad ++ rest) ∧ header.length = dataAt zip ∧
      header.length ≤ 512 ∧ "PK".toList <+: header ∧ ¬ Tag.checksum.key <:+: header
  preamble : ∀ {cmds : List (List Text)} {zip pre file : Text},
    Z.archive none cmds = some zip → Z.adjust (pre ++ zip) = some file → pre <+: file

/-! ## The options -/

/-- The options.  `fixupPerms` is empty when `--fixup-perms` is not given, or is given as ''. -/
structure Options where
  /-- `--blocksize`. -/
  blocksize : Nat
  /-- `--bzip`. -/
  bzip : Bool
  /-- `--lazy`. -/
  lazy : Bool
  /-- `--unzip-sfx`. -/
  unzipSfx : Bool
  /-- `--unzip-pipe`. -/
  unzipPipe : Bool
  /-- `--unzip-loop`. -/
  unzipLoop : Bool
  /-- `--unzip-pad`. -/
  unzipPad : Bool
  /-- `--inplace`. -/
  inplace : Bool
  /-- `--fixup-perms`. -/
  fixupPerms : Text

/-- The options of `zip` that say how to compress. -/
def Options.compressOpts (o : Options) : List Text :=
  if o.bzip then ["-Z", "bzip2", "-8"].map String.toList else ["-8".toList]

/-- `os.path.split(path)[1]`. -/
def basename (path : Text) : Text := (path.reverse.takeWhile (· ≠ '/')).reverse

/-! ## The SFX: the fragment, padded to whole blocks -/

/-- The characters that are added to the script, the newline included. -/
def padding (o : Options) (sz : Nat) : Nat :=
  let pad := o.blocksize - sz % o.blocksize
  if o.unzipPad then pad + o.blocksize else pad

/-- The script, blocked. -/
def padSfx (o : Options) (sfx : Text) : Text :=
  let pad := padding o sfx.length
  if pad = 1 then sfx ++ ['\n']
  else if 1 < pad then sfx ++ List.replicate (pad - 1) '#' ++ ['\n']
  else sfx

/-- What is written into pad.bin, for a script of `n` bytes. -/
def padContent (n : Nat) : Text := List.replicate (n - 1) '#' ++ ['\n']

/-- The commands that make the archive. -/
def zipCommands (o : Options) (zipFile install : Text) (args : List Text) : List (List Text) :=
  (if o.unzipPad then [addPad zipFile] else []) ++ [addfile zipFile install ["-0".toList]] ++
    (if o.fixupPerms = [] then [] else [addfile zipFile o.fixupPerms ["-0".toList]]) ++
    [addfiles zipFile args ("-r".toList :: o.compressOpts)]

/-- The archive, `shar + ".zip.in"`. -/
def zipFile (Z : Zip) (o : Options) (shar sfx install : Text) (args : List Text) : Option Text :=
  Z.archive (if o.unzipPad then some (padContent (padSfx o sfx).length) else none)
    (zipCommands o (shar ++ ".zip.in".toList) install args)

/-- `'1'` for an option that is given. -/
def flag (b : Bool) : Text := if b then ['1'] else []

/-- The value that `_spliceMaybe` splices. -/
def maybe (t : Tag) (v : Text) : Text := "$\x7b".toList ++ t.name ++ "-\"".toList ++ v ++ "\"\x7d".toList

/-- The splices in their order, for a script of `n` bytes. -/
def splices (o : Options) (n : Nat) (install : Text) : List (Tag × Text) :=
  [(.bytes, Nat.toDigits 10 n), (.blocksize, Nat.toDigits 10 o.blocksize),
    (.install, basename install), (.checksum, []), (.lazy, flag o.lazy),
    (.unzip, maybe .unzip (flag o.unzipSfx)), (.pipe, maybe .pipe (flag o.unzipPipe)),
    (.loop, maybe .loop (flag o.unzipLoop)), (.pad, if o.unzipPad then padBin else [])] ++
    (if o.fixupPerms = [] then [] else [(.perms, o.fixupPerms)]) ++
    [(.inplace, maybe .inplace (flag o.inplace))]

/-! ## The shar: the values, the archive, the checksum -/

/-- Bytes are written over a file, from a place in it on. -/
def overwrite (file : Text) (place : Nat) (data : Text) : Text :=
  file.take place ++ data ++ file.drop (place + data.length)

/-- The shar without its checksum, and the bytes of its header. -/
def assemble (Z : Zip) (o : Options) (zip buf : Text) : Except Failure (Text × Text) :=
  if o.unzipPad then
    let magic := zip.take o.blocksize
    let last := buf.length - o.blocksize
    .ok (overwrite (overwrite zip 0 buf) last magic, buf.take last ++ magic)
  else
    match Z.adjust (buf ++ zip) with
    | none => .error .zip
    | some file => .ok (file, buf)

/-- `md5` of a text of bytes. -/
def md5 (t : Text) : Text := Md5.hexdigest (t.map Char.toUInt8)

/-- What the checksum is of, when its line begins at `ckStart`: `script` is the script with its
    values, `buf` the header with the first block of the archive in its place. -/
def ckText (ckStart : Nat) (script buf file : Text) : Text :=
  -- the place behind the line; `ckEnd` is -1 when there is no newline
  let behind := ((findFrom ['\n'] script (ckStart + 1)).map (· + 1)).getD 0
  buf.take ckStart ++ buf.drop behind ++ file.drop buf.length

/-- The checksum is computed and written. -/
def adjustChecksum (script buf file : Text) : Except Failure Text :=
  match find Tag.checksum.key script with
  | none => .error .seek
  | some ckStart =>
      .ok (overwrite file ckStart (spliced .checksum (md5 (ckText ckStart script buf file))))

/-- All but the checksum: the script with its values, the bytes of the header, and the shar. -/
def unsealed (Z : Zip) (o : Options) (shar sfx install : Text) (args : List Text) :
    Except Failure (Text × Text × Text) :=
  if o.blocksize = 0 then .error .zeroDivision
  else
    match zipFile Z o shar sfx install args with
    | none => .error .zip
    | some zip => do
        let buf := padSfx o sfx
        let script ← spliceAll (splices o buf.length install) buf
        let (file, header) ← assemble Z o zip script
        .ok (script, header, file)

/-- The shar that mkshar writes. -/
def mkshar (Z : Zip) (o : Options) (shar sfx install : Text) (args : List Text) :
    Except Failure Text := do
  let (script, buf, file) ← unsealed Z o shar sfx install args
  adjustChecksum script buf file

/-! ## The blocked script: how much is padded -/

/-- There is always something to pad. -/
theorem padding_pos {o : Options} (h : 0 < o.blocksize) (sz : Nat) : 0 < padding o sz := by
  have hlt := Nat.mod_lt sz h
  rw [padding]
  split <;> omega

/-- **The padded fragment**: the fragment, a run of `#` and a newline. -/
theorem padSfx_eq {o : Options} (h : 0 < o.blocksize) (sfx : Text) :
    padSfx o sfx = sfx ++ List.replicate (padding o sfx.length - 1) '#' ++ ['\n'] := by
  have hpos := padding_pos h sfx.length
  rw [padSfx]
  split
  · next hone =>
      rw [hone, Nat.sub_self, List.replicate_zero, List.append_nil]
  · next hone => rw [if_pos (by omega)]

/-- Its length. -/
theorem length_padSfx {o : Options} (h : 0 < o.blocksize) (sfx : Text) :
    (padSfx o sfx).length = sfx.length + padding o sfx.length := by
  have hpos := padding_pos h sfx.length
  rw [padSfx_eq h, List.length_append, List.length_append, List.length_replicate,
    List.length_singleton]
  omega

/-- The script fills whole blocks. -/
theorem length_padSfx_mod {o : Options} (h : 0 < o.blocksize) (sfx : Text) :
    (padSfx o sfx).length % o.blocksize = 0 := by
  have hlt := Nat.mod_lt sfx.length h
  have hdiv := Nat.div_add_mod sfx.length o.blocksize
  have hsum : sfx.length + (o.blocksize - sfx.length % o.blocksize) =
      o.blocksize * (sfx.length / o.blocksize + 1) := by
    rw [Nat.mul_add, Nat.mul_one]
    omega
  rw [length_padSfx h, padding]
  split
  · rw [← Nat.add_assoc, hsum, Nat.add_mod_right, Nat.mul_mod_right]
  · rw [hsum, Nat.mul_mod_right]

/-! ## What is spliced, tag by tag -/

/-- What is spliced for a tag. -/
def spliceValue (o : Options) (n : Nat) (install : Text) : Tag → Text
  | .bytes => Nat.toDigits 10 n
  | .blocksize => Nat.toDigits 10 o.blocksize
  | .install => basename install
  | .checksum => []
  | .lazy => flag o.lazy
  | .unzip => maybe .unzip (flag o.unzipSfx)
  | .pipe => maybe .pipe (flag o.unzipPipe)
  | .loop => maybe .loop (flag o.unzipLoop)
  | .pad => if o.unzipPad then padBin else []
  | .perms => o.fixupPerms
  | .inplace => maybe .inplace (flag o.inplace)

/-- Every tag is spliced, `SFX_PERMS` with `--fixup-perms` only. -/
theorem mem_splices (o : Options) (n : Nat) (install : Text) {t : Tag}
    (h : t = .perms → o.fixupPerms ≠ []) : (t, spliceValue o n install t) ∈ splices o n install := by
  rw [splices]
  cases t with
  | perms =>
      rw [if_neg (h rfl)]
      exact List.mem_append_left _ (List.mem_append_right _ List.mem_cons_self)
  | inplace => exact List.mem_append_right _ List.mem_cons_self
  | _ =>
      refine List.mem_append_left _ (List.mem_append_left _ ?_)
      simp only [spliceValue, List.mem_cons, true_or, or_true]

/-- Every tag is spliced once at most. -/
theorem nodup_splices (o : Options) (n : Nat) (install : Text) :
    ((splices o n install).map Prod.fst).Nodup := by
  by_cases hp : o.fixupPerms = []
  · have htags : (splices o n install).map Prod.fst =
        [.bytes, .blocksize, .install, .checksum, .lazy, .unzip, .pipe, .loop, .pad, .inplace] := by
      rw [splices, if_pos hp]
      rfl
    rw [htags]
    decide
  · have htags : (splices o n install).map Prod.fst =
        [.bytes, .blocksize, .install, .checksum, .lazy, .unzip, .pipe, .loop, .pad, .perms,
          .inplace] := by
      rw [splices, if_neg hp]
      rfl
    rw [htags]
    decide

/-- No value has a newline, when no name has. -/
theorem newline_splices {o : Options} {install : Text} (hi : '\n' ∉ basename install)
    (hp : '\n' ∉ o.fixupPerms) (n : Nat) : ∀ p ∈ splices o n install, '\n' ∉ p.2 := by
  have hdigits : ∀ k, '\n' ∉ Nat.toDigits 10 k := fun k h => absurd (isDigit_of_mem h) (by decide)
  have hflag : ∀ b, '\n' ∉ flag b := by decide
  have hmaybe : ∀ (t : Tag) (b : Bool), '\n' ∉ maybe t (flag b) := fun t b =>
    Tag.all_iff (p := fun t => '\n' ∉ maybe t (flag b)) (by cases b <;> decide) t
  intro p hmem
  rw [splices, List.mem_append, List.mem_append] at hmem
  rcases hmem with (hmem | hmem) | hmem
  · simp only [List.mem_cons, List.not_mem_nil, or_false] at hmem
    rcases hmem with rfl | rfl | rfl | rfl | rfl | rfl | rfl | rfl | rfl
    · exact hdigits n
    · exact hdigits o.blocksize
    · exact hi
    · exact List.not_mem_nil
    · exact hflag o.lazy
    · exact hmaybe .unzip o.unzipSfx
    · exact hmaybe .pipe o.unzipPipe
    · exact hmaybe .loop o.unzipLoop
    · show '\n' ∉ if o.unzipPad then padBin else []
      cases o.unzipPad
      · decide
      · decide
  · split at hmem
    · cases hmem
    · rw [List.mem_singleton.mp hmem]
      exact hp
  · rw [List.mem_singleton.mp hmem]
    exact hmaybe .inplace o.inplace

/-! ## What is written: the checksum over the rest -/

/-- What is written over the middle of a file. -/
theorem overwrite_append (a b c : Text) {d : Text} (h : d.length = b.length) :
    overwrite (a ++ (b ++ c)) a.length d = a ++ (d ++ c) := by
  rw [overwrite, List.take_left, h, List.drop_length_add_append, List.drop_left, List.append_assoc]

/-- A digest has 32 digits. -/
theorem length_md5 (t : Text) : (md5 t).length = 32 := Md5.length_hexdigest _

/-- A digest has no newline. -/
theorem newline_not_mem_md5 (t : Text) : '\n' ∉ md5 t := fun hc =>
  absurd (Md5.mem_hexdigest hc) (by decide)

/-- Its characters are hexadecimal digits. -/
theorem md5_text {t : Text} {c : Char} (h : c ∈ md5 t) : c ∈ "0123456789abcdef".toList :=
  Md5.mem_hexdigest h

/-- What the checksum is of: everything but the line it goes into.  The script is `k` and `e` behind
    it, in the place of `e` the header has `g`, and `rest` is the rest of the file. -/
theorem ckText_eq {pre : List Text} {l : Text} (hl : Tag.checksum.key <+: l) (hnl : '\n' ∉ l)
    (r e g rest : Text) :
    ckText (unlines pre).length (unlines pre ++ (l ++ '\n' :: (r ++ e)))
        (unlines pre ++ (l ++ '\n' :: (r ++ g))) (unlines pre ++ (l ++ '\n' :: (r ++ (g ++ rest)))) =
      unlines pre ++ (r ++ g) ++ rest := by
  have hbehind : (unlines pre ++ (l ++ '\n' :: (r ++ g))).drop ((unlines pre).length + l.length + 1) =
      r ++ g := by
    rw [Nat.add_assoc, List.drop_length_add_append, List.drop_length_add_append]
    rfl
  have hrest : (unlines pre ++ (l ++ '\n' :: (r ++ (g ++ rest)))).drop
      (unlines pre ++ (l ++ '\n' :: (r ++ g))).length = rest := by
    have hsame : unlines pre ++ (l ++ '\n' :: (r ++ (g ++ rest))) =
        unlines pre ++ (l ++ '\n' :: (r ++ g)) ++ rest := by
      rw [List.append_assoc (unlines pre), List.append_assoc l, List.cons_append, List.append_assoc r]
    rw [hsame, List.drop_left]
  show _ ++ List.drop (Option.getD (Option.map _ (findFrom ['\n'] _ _)) 0) _ ++ _ = _
  rw [find_end hl hnl, Option.map_some, Option.getD_some, List.take_left, hbehind, hrest]

/-- **The checksum goes over its line**, and over what is behind that when the line is short. -/
theorem adjustChecksum_eq {pre : List Text} {l : Text} (hl : Tag.checksum.key <+: l) (hnl : '\n' ∉ l)
    (hpre : ∀ x ∈ pre, ¬ Tag.checksum.key <:+: x) (r e g rest : Text) :
    adjustChecksum (unlines pre ++ (l ++ '\n' :: (r ++ e))) (unlines pre ++ (l ++ '\n' :: (r ++ g)))
        (unlines pre ++ (l ++ '\n' :: (r ++ (g ++ rest)))) =
      .ok (overwrite (unlines pre ++ (l ++ '\n' :: (r ++ (g ++ rest)))) (unlines pre).length
        (spliced .checksum (md5 (unlines pre ++ (r ++ g) ++ rest)))) := by
  rw [adjustChecksum, find_field hl hpre]
  show Except.ok (overwrite _ _ (spliced .checksum (md5 (ckText _ _ _ _)))) = _
  rw [ckText_eq hl hnl]

/-- The line of the checksum fits 47 characters. -/
theorem length_sealed (t : Text) : (spliced .checksum (md5 t)).length = 47 := by
  rw [length_spliced, length_md5]
  rfl

/-- Where the line has the room, the checksum is one more splice. -/
theorem overwrite_fill {n : Nat} (hn : 47 ≤ n) (u t rest : Text) :
    overwrite (u ++ (fill (spliced .checksum []) n ++ rest)) u.length (spliced .checksum (md5 t)) =
      u ++ (fill (spliced .checksum (md5 t)) n ++ rest) := by
  have hshort : (spliced .checksum []).length = 15 := length_spliced _ _
  generalize hk : fill (spliced .checksum []) n = l
  have hlen : l.length = n := by rw [← hk, length_fill _ (by omega)]
  -- what the checksum does not cover of the line is `#`
  have hdrop : l.drop 47 = List.replicate (n - 47) '#' := by
    rw [← hk, fill, List.drop_append, hshort, List.drop_eq_nil_of_le (by omega), List.nil_append,
      List.drop_replicate]
    congr 1
  have hcut : l ++ rest = l.take 47 ++ (l.drop 47 ++ rest) := by
    rw [← List.append_assoc, List.take_append_drop]
  have hwidth : (spliced .checksum (md5 t)).length = (l.take 47).length := by
    rw [length_sealed, List.length_take]
    omega
  rw [hcut, overwrite_append _ _ _ hwidth, hdrop, fill, length_sealed,
    List.append_assoc (spliced .checksum (md5 t))]

end DentOS.Shar
