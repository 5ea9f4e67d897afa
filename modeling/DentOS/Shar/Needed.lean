/-
  The condition is necessary: what goes wrong without each part of it (src/tools/mkshar,
  src/tools/scripts/sfx.sh.in).

  1. **A short checksum line** (`digest_short`).  The checksum is written without a look at the line
     that it goes into.  What it runs over is the newline behind the line and the beginning of the
     next, which then stands in the checksum's line; `sed` deletes both.  The header digests a
     shorter text than mkshar did (`room_of_digest`).

  2. **A name that the shell does not get past** ends the script (`assigned_isSome_iff`).

  3. **Blocks of one byte**: `SFX_BLOCKS` is not set, and `dd` refuses it (`piped_unset`).

  4. **Blocks not of 512 bytes, with `--unzip-pad`**: the reset does not find the block.

  In each case the two may agree by a coincidence, and so a shar is asked to be `Ordinary`: MD5 tells
  the texts apart that it is taken of, no line of the archive looks like a tag line, the archive's first
  letter does not stand where the reset happens to look, and the environment has no `SFX_BLOCKS`.

  What a splice does that goes astray depends on the text it goes over, which may be a comment or a
  command, and is not said here: that the splices go into their lines (`Placed`) is supposed.
-/
import DentOS.Shar.Agree

namespace DentOS.Shar

open PyText

variable {Z : Zip} {sh : Shell} {o : Options} {shar sfx install : Text} {args : List Text}

/-- What mkshar takes the checksum of. -/
def digested (Z : Zip) (o : Options) (shar sfx install : Text) (args : List Text) : Except Failure Text := do
  let (script, buf, file) ← unsealed Z o shar sfx install args
  match find Tag.checksum.key script with
  | none => .error .seek
  | some ckStart => .ok (ckText ckStart script buf file)

/-- What the header takes it of. -/
def reread (sh : Shell) (file : Text) : Option Text :=
  (header sh file).bind fun vars => (sfxBlocks sh vars).map fun blocks => piped vars blocks file

/-- A shar that agrees with its header by no coincidence. -/
structure Ordinary (Z : Zip) (sh : Shell) (o : Options) (shar sfx install : Text) (args : List Text)
    (file : Text) : Prop where
  env : sh.env "SFX_BLOCKS".toList = none
  /-- Every tag line of the shar stands in its fragment. -/
  inside : ∀ t, t ≠ Tag.checksum → ∀ l ∈ lines file, t.key <+: l → l ∈ lines (file.take sfx.length)
  /-- The archive's first letter is not at the other place, nor in front of the shar. -/
  elsewhere : o.unzipPad = true → o.blocksize ≠ 512 → file.head? ≠ some 'P' ∧
    file[512 * ((padSfx o sfx).length / o.blocksize - 1)]? ≠ some 'P'
  /-- Two texts with one checksum are one. -/
  digest : ∀ a b, digested Z o shar sfx install args = .ok a → reread sh file = some b →
    md5 a = md5 b → a = b

/-! ## A short checksum line -/

/-- A short line, with the checksum over it and over what is behind. -/
theorem overwrite_short {u l r sum : Text} (hsum : sum.length = 47) (hl : l.length < 47) (behind : Text) :
    overwrite (u ++ (l ++ '\n' :: r) ++ behind) u.length sum =
      u ++ (sum ++ (r ++ behind).drop (46 - l.length)) := by
  have hcount : u.length + sum.length = u.length + (l.length + ((46 - l.length) + 1)) := by omega
  rw [overwrite, List.append_assoc u, List.take_left, hcount, List.drop_length_add_append,
    List.append_assoc l, List.drop_length_add_append, List.append_assoc, List.cons_append,
    List.drop_succ_cons]

/-- Lines behind the first, of a text behind a cut. -/
theorem mem_lines_of_drop {u l : Text} (n : Nat) (h : l ∈ (lines (u.drop n)).tail) : l ∈ lines u := by
  rcases List.eq_nil_or_concat' (lines (u.take n)) with hnil | ⟨init, y, hinit⟩
  · exact absurd hnil (lines_ne_nil _)
  cases hz : lines (u.drop n) with
  | nil => exact absurd hz (lines_ne_nil _)
  | cons z zs =>
      rw [hz] at h
      have hlines := lines_append hinit hz
      rw [List.take_append_drop] at hlines
      rw [hlines]
      exact List.mem_append_right init (List.mem_cons_of_mem _ h)

/-- A line of another tag, in a line that begins with the checksum. -/
theorem not_prefix_sum {t : Tag} (hne : t ≠ .checksum) {sum w : Text} (h : Tag.checksum.key <+: sum) :
    ¬ t.key <+: sum ++ w := fun hkey =>
  hne (Tag.eq_of_prefix (h.trans (List.prefix_append sum w)) hkey)

/-- Of the lines of a fragment with the checksum over a short line, those of another tag are lines
    that were there. -/
theorem mem_of_short {t : Tag} (hne : t ≠ .checksum) {pre : List Text} {sum r l' : Text} {n : Nat}
    (hpre : ∀ x ∈ pre, '\n' ∉ x) (hsum : Tag.checksum.key <+: sum) (hflat : '\n' ∉ sum)
    (hlen : sum.length = 47) (hn : 13 ≤ n) (hshort : n < 47) (behind : Text)
    (hmem : l' ∈ lines ((unlines pre ++ (sum ++ (r ++ behind).drop (46 - n))).take
      ((unlines pre).length + (n + 1 + r.length)))) (hkey : t.key <+: l') : l' ∈ pre ∨ l' ∈ lines r := by
  rw [List.take_length_add_append, lines_unlines_append hpre] at hmem
  rcases List.mem_append.mp hmem with hmem | hmem
  · exact Or.inl hmem
  by_cases hm : n + 1 + r.length ≤ 47
  · -- the checksum runs over the end of the fragment
    rw [List.take_append_of_le_length (by omega),
      lines_of_not_mem fun h => hflat (List.mem_of_mem_take h)] at hmem
    rw [List.mem_singleton.mp hmem] at hkey
    have hbegins : Tag.checksum.key <+: sum.take (n + 1 + r.length) := by
      refine List.prefix_of_prefix_length_le hsum (List.take_prefix _ _) ?_
      rw [List.length_take]
      show 13 ≤ _
      omega
    exact absurd (Tag.eq_of_prefix hbegins hkey) hne
  · have hcount : n + 1 + r.length = sum.length + (r.length - (46 - n)) := by omega
    have hrest : ((r ++ behind).drop (46 - n)).take (r.length - (46 - n)) = r.drop (46 - n) := by
      rw [List.drop_append_of_le_length (by omega), List.take_append_of_le_length
        (by rw [List.length_drop]), ← List.length_drop, List.take_length]
    rw [hcount, List.take_length_add_append, hrest] at hmem
    cases hz : lines (r.drop (46 - n)) with
    | nil => exact absurd hz (lines_ne_nil _)
    | cons z zs =>
        have hone : lines sum = [] ++ [sum] := lines_of_not_mem hflat
        rw [lines_append hone hz] at hmem
        rcases List.mem_cons.mp hmem with rfl | hmem
        · exact absurd hkey (not_prefix_sum hne hsum)
        · refine Or.inr (mem_lines_of_drop (46 - n) ?_)
          rw [hz]
          exact hmem

/-- A value that was spliced is the one that the line has. -/
theorem value_of_holds {t : Tag} {m : Nat} {old ls : List Text} (h : Holds t (Nat.toDigits 10 m) old ls)
    (sh : Shell) {l : Text} (hl : l ∈ ls) (hkey : t.key <+: l) : value sh t l = some (Nat.toDigits 10 m) := by
  obtain ⟨l₀, -, -, rfl⟩ := h l hl hkey
  exact value_digits sh t m l₀.length

/-- The tag lines of a shar with a short checksum line. -/
theorem lines_short {pre : List Text} {sum : Text} (hpre : ∀ x ∈ pre, '\n' ∉ x) (hflat : '\n' ∉ sum)
    (u : Text) : ∃ x xs, lines u = x :: xs ∧ lines (unlines pre ++ (sum ++ u)) = pre ++ (sum ++ x) :: xs := by
  cases hx : lines u with
  | nil => exact absurd hx (lines_ne_nil _)
  | cons x xs =>
      have hone : lines sum = [] ++ [sum] := lines_of_not_mem hflat
      refine ⟨x, xs, rfl, ?_⟩
      rw [lines_unlines_append hpre, lines_append hone hx]
      rfl

/-- What the header reads of a shar with a short checksum line: the numbers that were spliced, where
    their lines are still there, and the checksum. -/
theorem vars_short {k l r : Text} {pre : List Text} (hmark : Marked k pre l r)
    (hlines : lines k = pre ++ l :: lines r) (hrun : Run (splices o (padSfx o sfx).length install) sfx k)
    (h13 : 13 ≤ l.length) (hshort : l.length < 47) {text behind : Text} {vars : Tag → Text}
    {file : Text} (hfile : file = unlines pre ++ (spliced .checksum (md5 text) ++
      (r ++ behind).drop (46 - l.length)))
    (hinside : ∀ t, t ≠ Tag.checksum → ∀ l ∈ lines file, t.key <+: l → l ∈ lines (file.take sfx.length))
    (hheader : header sh file = some vars) :
    vars .bytes = Nat.toDigits 10 (padSfx o sfx).length ∧
      vars .blocksize = Nat.toDigits 10 o.blocksize ∧ vars .checksum = md5 text := by
  generalize hsumeq : spliced .checksum (md5 text) = sum at hfile
  have hsum : Tag.checksum.key <+: sum := hsumeq ▸ List.prefix_append _ _
  have hflat : '\n' ∉ sum := hsumeq ▸ newline_not_mem_spliced (newline_not_mem_md5 text)
  have hlen : sum.length = 47 := hsumeq ▸ length_sealed text
  have hsize : sfx.length = (unlines pre).length + (l.length + 1 + r.length) := by
    rw [← hrun.length, hmark.text, List.length_append, List.length_append, List.length_cons]
    omega
  -- a number is that of its line in the fragment
  have hnumber : ∀ (t : Tag) (m : Nat), t ≠ .checksum →
      (t, Nat.toDigits 10 m) ∈ splices o (padSfx o sfx).length install →
      vars t = Nat.toDigits 10 m := by
    intro t m hne hmem
    have hread := assigned_of_header hheader t
    obtain ⟨l', hfind, hval⟩ := Option.bind_eq_some_iff.mp hread
    have hkey : t.key <+: l' := by simpa using List.find?_some hfind
    have hl' := hinside t hne l' (List.mem_of_find?_eq_some hfind) hkey
    rw [hfile, hsize] at hl'
    have hold : l' ∈ lines k := by
      rw [hlines]
      rcases mem_of_short hne hmark.preFlat hsum hflat hlen h13 hshort behind hl' hkey with h | h
      · exact List.mem_append_left _ h
      · exact List.mem_append_right pre (List.mem_cons_of_mem l h)
    rw [value_of_holds (hrun.holds _ hmem) sh hold hkey] at hval
    exact (Option.some.inj hval).symm
  refine ⟨hnumber .bytes _ (by decide) ?_, hnumber .blocksize _ (by decide) ?_, ?_⟩
  · exact mem_splices o _ install (t := .bytes) fun h => by cases h
  · exact mem_splices o _ install (t := .blocksize) fun h => by cases h
  · have hread := assigned_of_header hheader .checksum
    obtain ⟨x, xs, -, hfl⟩ := lines_short hmark.preFlat hflat ((r ++ behind).drop (46 - l.length))
    have hnone : pre.find? (fun l => Tag.checksum.key <+: l) = none :=
      List.find?_eq_none.mpr fun m hm hp => hmark.front m hm (of_decide_eq_true hp).isInfix
    rw [assigned, hfile, hfl, List.find?_append, hnone, Option.none_or,
      List.find?_cons_of_pos (p := fun l => decide (Tag.checksum.key <+: l))
        (decide_eq_true (hsum.trans (List.prefix_append sum x))), Option.bind_some, ← hsumeq,
      value_comment (md5_plain text).1 (md5_plain text).2] at hread
    exact (Option.some.inj hread).symm

/-- `sed` adds nothing. -/
theorem length_sed_le : ∀ ls : List Text, (sed ls).length ≤ (['\n'].intercalate ls).length
  | [] => Nat.le_refl _
  | [l] => by
      rw [List.intercalate_singleton, sed]
      split
      · exact Nat.zero_le _
      · exact Nat.le_refl _
  | l :: m :: ls => by
      have hih := length_sed_le (m :: ls)
      rw [sed_cons (List.cons_ne_nil m ls), List.intercalate_cons_cons, List.length_append,
        List.length_append]
      split
      · omega
      · rw [List.length_append, List.length_cons, List.length_singleton]
        omega

/-- With a checksum line goes all that stands in it. -/
theorem length_sed_sum {sum u : Text} (hsum : Tag.checksum.key <+: sum) (hflat : '\n' ∉ sum) (hu : u ≠ []) :
    (sed (lines (sum ++ u))).length + sum.length + 1 ≤ (sum ++ u).length := by
  have hnil : ∀ x ∈ ([] : List Text), '\n' ∉ x := fun x hx => absurd hx List.not_mem_nil
  obtain ⟨x, xs, hx, hlines⟩ := lines_short hnil hflat u
  have hline : Tag.checksum.key <+: sum ++ x := hsum.trans (List.prefix_append sum x)
  have hpos : 0 < u.length := List.length_pos_of_ne_nil hu
  change lines (sum ++ u) = (sum ++ x) :: xs at hlines
  have hjoin := intercalate_lines (sum ++ u)
  rw [hlines] at hjoin ⊢
  cases xs with
  | nil =>
      have hsed : sed [sum ++ x] = [] := if_pos hline
      rw [hsed, List.length_append]
      show 0 + _ + 1 ≤ _
      omega
  | cons y ys =>
      have hle := length_sed_le (y :: ys)
      rw [sed_cons (List.cons_ne_nil y ys), if_pos hline, ← hjoin, List.intercalate_cons_cons,
        List.length_append, List.length_append, List.length_append, List.length_singleton]
      omega

/-- **The header digests another text.**  `D` characters of the header stand behind the beginning of
    the checksum's line; what is deleted of the file is 48 of them at least, or all of them. -/
theorem digest_short {pre : List Text} {l r g rest sum : Text}
    (hfront : ∀ x ∈ pre, ¬ Tag.checksum.key <+: x) (hpre : ∀ x ∈ pre, '\n' ∉ x)
    (hsum : Tag.checksum.key <+: sum) (hflat : '\n' ∉ sum) (hlen : sum.length = 47)
    (h15 : 15 ≤ l.length) (hshort : l.length < 47) (hg : g ≠ []) (hline : '\n' ∈ g ∨ 30 ≤ rest.length)
    {n : Nat} (hn : n = (unlines pre).length + (l.length + 1 + (r ++ g).length)) {file : Text}
    (hfile : file = unlines pre ++ (sum ++ (r ++ (g ++ rest)).drop (46 - l.length))) :
    unlines pre ++ (r ++ g) ++ rest ≠ sed (lines (file.take n)) ++ file.drop n := by
  intro heq
  have hpos : 0 < g.length := List.length_pos_of_ne_nil hg
  have hsize : (r ++ (g ++ rest)).length = (r ++ g).length + rest.length := by
    rw [← List.append_assoc, List.length_append]
  have hgr : (r ++ g).length = r.length + g.length := List.length_append
  generalize hX : (r ++ (g ++ rest)).drop (46 - l.length) = X at hfile
  have hXlen : X.length = (r ++ g).length + rest.length - (46 - l.length) := by
    rw [← hX, List.length_drop, hsize]
  have htake : file.take n = unlines pre ++ (sum ++ X).take (l.length + 1 + (r ++ g).length) := by
    rw [hfile, hn, List.take_length_add_append]
  have hdrop : file.drop n = (sum ++ X).drop (l.length + 1 + (r ++ g).length) := by
    rw [hfile, hn, List.drop_length_add_append]
  have hsed (q : Text) : sed (lines (unlines pre ++ q)) = unlines pre ++ sed (lines q) := by
    rw [lines_unlines_append hpre, sed_append (lines_ne_nil q) hfront]
  rw [htake, hdrop, hsed, List.append_assoc (unlines pre), List.append_assoc (unlines pre),
    List.append_right_inj] at heq
  generalize hDeq : l.length + 1 + (r ++ g).length = D at heq
  have hcount := congrArg List.length heq
  simp only [List.length_append, List.length_drop, hlen, hXlen] at hcount
  by_cases hD : D ≤ 47
  · -- the checksum runs over the end of the header: the whole end goes
    have hq : (sum ++ X).take D = sum.take D := List.take_append_of_le_length (by omega)
    have hbegins : Tag.checksum.key <+: sum.take D := by
      refine List.prefix_of_prefix_length_le hsum (List.take_prefix _ _) ?_
      rw [List.length_take]
      show 13 ≤ _
      omega
    have hgone : sed (lines ((sum ++ X).take D)) = [] := by
      rw [hq, lines_of_not_mem fun h => hflat (List.mem_of_mem_take h)]
      exact if_pos hbegins
    rw [hgone, List.length_nil] at hcount
    rw [hgone, List.nil_append, List.drop_append_of_le_length (by omega)] at heq
    -- nothing of the rest is left, and what was read is from the checksum
    have hnil : X = [] := List.eq_nil_of_length_eq_zero (by omega)
    rw [hnil, List.append_nil] at heq
    rcases hline with hnl | hlong
    · have hmem : '\n' ∈ r ++ g ++ rest :=
        List.mem_append_left rest (List.mem_append_right r hnl)
      rw [heq] at hmem
      exact hflat (List.mem_of_mem_drop hmem)
    · omega
  · -- a line of 47 characters at least goes, with its newline
    have htaken : (sum ++ X).take D = sum ++ X.take (D - 47) := by
      rw [List.take_append, List.take_of_length_le (by omega), hlen]
    have hulen : (X.take (D - 47)).length = D - 47 := by
      rw [List.length_take, hXlen]
      omega
    have hune : X.take (D - 47) ≠ [] := List.ne_nil_of_length_pos (by omega)
    have hgone := length_sed_sum hsum hflat hune
    rw [List.length_append, hulen] at hgone
    rw [htaken] at hcount
    omega

/-! ## The parts of the condition, each of them needed -/

/-- What the checksum was computed over, for a file with one checksum line. -/
theorem digested_eq {k l r e g rest : Text} {pre : List Text} (hmark : Marked k pre l r)
    (h : unsealed Z o shar sfx install args = .ok (k ++ e, k ++ g, k ++ (g ++ rest))) :
    digested Z o shar sfx install args = .ok (unlines pre ++ (r ++ g) ++ rest) := by
  have hfind : find Tag.checksum.key (k ++ e) = some (unlines pre).length := by
    rw [hmark.text, List.append_assoc, List.append_assoc]
    exact find_field hmark.begins hmark.front
  rw [digested, h]
  show (match find Tag.checksum.key (k ++ e) with | none => _ | some ckStart => _) = _
  rw [hfind, ← (hmark.sealed e g rest).1]

/-- The checksum step gets through: what was read, and what it was compared with. -/
theorem checksumStep_cases {file : Text} (h : checksumStep sh file = true) :
    ∃ vars blocks, header sh file = some vars ∧ sfxBlocks sh vars = some blocks ∧
      vars .checksum = md5 (piped vars blocks file) := by
  unfold checksumStep at h
  split at h
  · cases h
  · next vars hheader =>
      split at h
      · cases h
      · next blocks hblocks => exact ⟨vars, blocks, hheader, hblocks, of_decide_eq_true h⟩

/-- What the archive reads again, by what its header says. -/
theorem reread_eq {file blocks : Text} {vars : Tag → Text} (hheader : header sh file = some vars)
    (hblocks : sfxBlocks sh vars = some blocks) : reread sh file = some (piped vars blocks file) := by
  rw [reread, hheader, Option.bind_some, hblocks]
  rfl

/-- **With blocks of one byte** the number of blocks is not set, and nothing is digested. -/
theorem piped_unset (henv : sh.env "SFX_BLOCKS".toList = none) {vars : Tag → Text}
    (hsize : vars .blocksize = Nat.toDigits 10 1) (file : Text) :
    sfxBlocks sh vars = some [] ∧ piped vars [] file = [] := by
  constructor
  · rw [sfxBlocks, hsize, digits_toDigits, henv]
    rfl
  · rw [piped, hsize]
    rfl

/-- The header divides by its block size when what it digests is not nothing. -/
theorem blocked_of_piped (henv : sh.env "SFX_BLOCKS".toList = none) (hbs : 0 < o.blocksize)
    {vars : Tag → Text} (hsize : vars .blocksize = Nat.toDigits 10 o.blocksize) {blocks file : Text}
    (hblocks : sfxBlocks sh vars = some blocks) (hne : piped vars blocks file ≠ []) : 1 < o.blocksize := by
  by_contra hle
  have hone : o.blocksize = 1 := by omega
  rw [hone] at hsize
  obtain ⟨hunset, hnil⟩ := piped_unset henv hsize file
  rw [hunset] at hblocks
  rw [← Option.some.inj hblocks] at hne
  exact hne hnil

/-- **The checksum's line has room**, when the header digests what mkshar digested. -/
theorem room_of_digest (hZ : Z.Format) (hsfx : SfxFragment sfx) (hbs : 0 < o.blocksize)
    {zip k l r g rest file : Text} {pre : List Text}
    (hzip : zipFile Z o shar sfx install args = some zip) (hblock : Block o sfx zip g rest)
    (hrun : Run (splices o (padSfx o sfx).length install) sfx k) (hmark : Marked k pre l r)
    (hlines : lines k = pre ++ l :: lines r)
    (hseal : adjustChecksum (k ++ padText o sfx) (k ++ g) (k ++ (g ++ rest)) = .ok file)
    (hord : Ordinary Z sh o shar sfx install args file) {vars : Tag → Text} {blocks : Text}
    (hheader : header sh file = some vars) (hblocks : sfxBlocks sh vars = some blocks)
    (hsame : vars .checksum = md5 (unlines pre ++ (r ++ g) ++ rest) →
      unlines pre ++ (r ++ g) ++ rest = piped vars blocks file) :
    ∀ l₀ ∈ lines sfx, Tag.checksum.key <+: l₀ → 47 ≤ l₀.length := by
  intro l₀ hl₀ hkey₀
  by_contra hlt
  have hmem : l ∈ lines k := hlines ▸ List.mem_append_right pre List.mem_cons_self
  have hempty : Holds .checksum [] (lines sfx) (lines k) :=
    hrun.holds _ (mem_splices o _ install fun h => by cases h)
  obtain ⟨l₁, hl₁, hkey₁, hfill⟩ := hempty l hmem hmark.begins
  rw [(hsfx.field .checksum).unique hl₁ hkey₁ hl₀ hkey₀] at hfill
  have hlen : l.length = 15 + (l₀.length - 15) := by
    have hshort : (spliced .checksum []).length = 15 := length_spliced _ _
    rw [hfill, fill, List.length_append, List.length_replicate, hshort]
  -- the shar, with the checksum over what is behind the line
  have hfile : file = unlines pre ++ (spliced .checksum (md5 (unlines pre ++ (r ++ g) ++ rest)) ++
      (r ++ (g ++ rest)).drop (46 - l.length)) := by
    rw [(hmark.sealed _ g rest).2] at hseal
    rw [← Except.ok.inj hseal]
    conv_lhs => rw [hmark.text]
    exact overwrite_short (length_sealed _) (by omega) _
  obtain ⟨hbytes, hsize, hck⟩ :=
    vars_short hmark hlines hrun (by omega) (by omega) hfile hord.inside hheader
  have hdigest := hsame hck
  have hg : g ≠ [] := by
    refine List.ne_nil_of_length_pos ?_
    rw [hblock.length]
    exact padding_pos hbs _
  have hne : piped vars blocks file ≠ [] := by
    rw [← hdigest]
    exact List.append_ne_nil_of_left_ne_nil (List.append_ne_nil_of_right_ne_nil _
      (List.append_ne_nil_of_right_ne_nil r hg)) rest
  have hblocked := blocked_of_piped hord.env hbs hsize hblocks hne
  have hmod := length_padSfx_mod hbs sfx
  rw [sfxBlocks_eq hblocked hmod hsize hbytes] at hblocks
  rw [← Option.some.inj hblocks, piped_eq hbs hmod hsize] at hdigest
  have hline : '\n' ∈ g ∨ 30 ≤ rest.length := by
    cases hup : o.unzipPad with
    | false => exact Or.inl (hblock.line hup)
    | true =>
        obtain ⟨hzlen, -⟩ := length_zip hZ hbs hup hzip
        rw [(hblock.pad hup).2, List.length_drop]
        have hdata : 30 ≤ dataAt zip := Nat.le_trans (Nat.le_add_right 30 _) (Nat.le_add_right _ _)
        exact Or.inr (by omega)
  have hflat : '\n' ∉ spliced .checksum (md5 (unlines pre ++ (r ++ g) ++ rest)) :=
    newline_not_mem_spliced (newline_not_mem_md5 _)
  have hcount : (padSfx o sfx).length = (unlines pre).length + (l.length + 1 + (r ++ g).length) := by
    have hk := congrArg List.length hmark.text
    rw [hrun.length, List.length_append, List.length_append, List.length_cons] at hk
    rw [length_padSfx hbs, ← hblock.length, List.length_append]
    omega
  exact digest_short (fun x hx h => hmark.front x hx h.isInfix) hmark.preFlat (List.prefix_append _ _)
    hflat (length_sealed _) (by omega) (by omega) hg hline hcount hfile hdigest

/-- **The blocks are of 512 bytes with `--unzip-pad`**, when the first byte of the archive comes back. -/
theorem padBlock_of_reset (hZ : Z.Format) {zip k g rest out : Text}
    (hzip : zipFile Z o shar sfx install args = some zip) (hw : Written o sfx install k g rest)
    (hbs : 1 < o.blocksize) (hup : o.unzipPad = true)
    (hord : Ordinary Z sh o shar sfx install args (k ++ (g ++ rest))) {vars : Tag → Text}
    (hheader : header sh (k ++ (g ++ rest)) = some vars)
    (hreset : padReset sh (k ++ (g ++ rest)) = some out) {n : Nat}
    (hsame : SameOutside out zip (dataAt zip) n) : o.blocksize = 512 := by
  by_contra hne
  obtain ⟨hhead, hplace⟩ := hord.elsewhere hup hne
  have hpos : 30 ≤ dataAt zip := Nat.le_trans (Nat.le_add_right 30 _) (Nat.le_add_right _ _)
  have hfirst : out[0]? = some 'P' := by
    rw [hsame.2 0 (by omega), ← List.head?_eq_getElem?]
    exact (length_zip hZ (by omega) hup hzip).2
  rw [padReset_written hw hbs hup hheader] at hreset
  rw [← Option.some.inj hreset, getElem?_overwrite] at hfirst
  split at hfirst
  · rw [List.getElem?_take_of_lt (by decide), List.getElem?_drop, Nat.add_zero] at hfirst
    exact hplace hfirst
  · rw [← List.head?_eq_getElem?] at hfirst
    exact hhead hfirst

/-- **The condition is necessary**, where the splices go into their lines and nothing coincides. -/
theorem fits_of_agrees (hZ : Z.Format) (hsfx : SfxFragment sfx) (hplaced : Placed o sfx install)
    {file : Text} (hfile : mkshar Z o shar sfx install args = .ok file)
    (hord : Ordinary Z sh o shar sfx install args file) (h : Agrees Z sh o shar sfx install args) :
    Fits sh o sfx install := by
  obtain ⟨hstep, hreset⟩ := h file hfile
  obtain ⟨script, buf, made, hparts, hseal⟩ := mkshar_cases hfile
  obtain ⟨hbs, zip, k, g, rest, hzip, rfl, rfl, rfl, hblock, hrun⟩ := unsealed_parts hZ hsfx hplaced hparts
  obtain ⟨pre, l, r, hmark, hlines⟩ := hrun.marked
  obtain ⟨vars, blocks, hheader, hblocks, hck⟩ := checksumStep_cases hstep
  have hsame : vars .checksum = md5 (unlines pre ++ (r ++ g) ++ rest) →
      unlines pre ++ (r ++ g) ++ rest = piped vars blocks file := fun hsum =>
    hord.digest _ _ (digested_eq hmark hparts) (reread_eq hheader hblocks) (hsum.symm.trans hck)
  have hroom := room_of_digest hZ hsfx hbs hzip hblock hrun hmark hlines hseal hord hheader hblocks hsame
  obtain ⟨k', rfl, hw, hsed⟩ := written_of_room hbs hblock hrun hmark hlines hroom hseal
  obtain ⟨-, hsize, hsum, -⟩ := vars_written hw hheader
  have hread : ∀ t, (assigned sh (k' ++ (g ++ rest)) t).isSome = true := fun t => by
    rw [assigned_of_header hheader t]
    rfl
  obtain ⟨hinstall, hperms⟩ := (assigned_isSome_iff hsfx hw sh (g ++ rest)).mp hread
  have hblocked : 1 < o.blocksize := by
    rw [hsed] at hsum
    have hg : g ≠ [] := List.ne_nil_of_length_pos (hblock.length ▸ padding_pos hbs _)
    have hne : piped vars blocks (k' ++ (g ++ rest)) ≠ [] := by
      rw [← hsame hsum]
      exact List.append_ne_nil_of_left_ne_nil (List.append_ne_nil_of_right_ne_nil _
        (List.append_ne_nil_of_right_ne_nil r hg)) rest
    exact blocked_of_piped hord.env hbs hsize hblocks hne
  refine ⟨hplaced, hblocked, fun hup => ?_, hroom, hinstall, hperms⟩
  obtain ⟨zip', out, hzip', hout, hoff⟩ := hreset hup
  rw [hzip] at hzip'
  cases hzip'
  exact padBlock_of_reset hZ hzip hw hblocked hup hord hheader hout hoff

/-- **mkshar and the header agree** where nothing is taken for granted that does not hold; and where
    the splices go into their lines and nothing coincides, they agree nowhere else. -/
theorem mkshar_agrees (hZ : Z.Format) (hsfx : SfxFragment sfx) :
    (Fits sh o sfx install → Agrees Z sh o shar sfx install args) ∧
      (Placed o sfx install → ∀ file, mkshar Z o shar sfx install args = .ok file →
        Ordinary Z sh o shar sfx install args file → Agrees Z sh o shar sfx install args →
        Fits sh o sfx install) :=
  ⟨agrees_of_fits hZ hsfx, fun hplaced _ hfile => fits_of_agrees hZ hsfx hplaced hfile⟩

/-! ## A shar of three files -/

/-- A number of `k` bytes, low byte first. -/
def lowBytes (k n : Nat) : Text := (List.range k).map fun i => Char.ofNat (n >>> (8 * i) % 256)

/-- A file that is stored, with the check of its data. -/
structure Entry where
  /-- The name of the member. -/
  name : Text
  /-- What is in it. -/
  data : Text
  /-- Its checksum. -/
  crc : Nat

namespace Entry

/-- What the header of a file and its record in the directory share. -/
def fields (e : Entry) : Text :=
  lowBytes 2 10 ++ lowBytes 4 0 ++ lowBytes 4 0x58210000 ++ lowBytes 4 e.crc ++
    lowBytes 4 e.data.length ++ lowBytes 4 e.data.length ++ lowBytes 2 e.name.length ++ lowBytes 2 0

/-- The local part of a stored member. -/
def stored (e : Entry) : Text := "PK\x03\x04".toList ++ e.fields ++ e.name ++ e.data

/-- Its record in the directory. -/
def record (e : Entry) (offset : Nat) : Text :=
  "PK\x01\x02".toList ++ lowBytes 2 0x031e ++ e.fields ++ lowBytes 6 0 ++ lowBytes 4 0x81a40000 ++
    lowBytes 4 offset ++ e.name

end Entry

/-- A zip file of stored files. -/
def storedZip (es : List Entry) : Text :=
  let files := es.flatMap Entry.stored
  let offsets := es.scanl (fun n e => n + e.stored.length) 0
  let directory := (es.zip offsets).flatMap fun p => p.1.record p.2
  files ++ directory ++ "PK\x05\x06".toList ++ lowBytes 4 0 ++ lowBytes 2 es.length ++
    lowBytes 2 es.length ++ lowBytes 4 directory.length ++ lowBytes 4 files.length ++ lowBytes 2 0

/-- An archive with a pad file, a script and a kernel. -/
def exampleZipFile (n crc : Nat) : Text :=
  storedZip [⟨padBin, padContent n, crc⟩,
    ⟨"install.sh".toList, "#!/bin/sh\n".toList, 0x04fb9d1d⟩, ⟨"boot".toList, "kernel\n".toList, 0x738eae69⟩]

/-- `zip` on the files of the example, with a pad of either length. -/
def exampleZip : Zip where
  archive pad _ :=
    if pad = some (padContent 1024) then some (exampleZipFile 1024 0x593dc6b4)
    else if pad = some (padContent 768) then some (exampleZipFile 768 0x12682cb0)
    else none
  adjust _ := none

/-- The example's `zip` writes the format. -/
theorem exampleZip_format : exampleZip.Format := by
  have hfile : ∀ p ∈ [(1024, 0x593dc6b4), (768, 0x12682cb0)],
      exampleZipFile p.1 p.2 = (exampleZipFile p.1 p.2).take 37 ++
        (padContent p.1 ++ (exampleZipFile p.1 p.2).drop (37 + p.1)) ∧
      ((exampleZipFile p.1 p.2).take 37).length = dataAt (exampleZipFile p.1 p.2) ∧
      ((exampleZipFile p.1 p.2).take 37).length ≤ 512 ∧
      "PK".toList <+: (exampleZipFile p.1 p.2).take 37 ∧
      ¬ Tag.checksum.key <:+: (exampleZipFile p.1 p.2).take 37 := by decide +kernel
  refine ⟨?_, fun h => by cases h⟩
  intro pad zipFile cmds zip h
  change (if some pad = _ then _ else if some pad = _ then _ else none) = some zip at h
  split at h
  · next hpad =>
      cases hpad
      cases h
      exact ⟨_, _, hfile (1024, 0x593dc6b4) List.mem_cons_self⟩
  · split at h
    · next hpad =>
        cases hpad
        cases h
        exact ⟨_, _, hfile (768, 0x12682cb0) (List.mem_cons_of_mem _ List.mem_cons_self)⟩
    · cases h

/-- A fragment with a comment on `--fixup-perms`, its tag lines, and a step. -/
def exampleSfx : Text :=
  unlines (["#!/bin/sh".toList, "# SFX_PERMS= is optional".toList] ++
    Tag.all.map (fun t => fill (t.key ++ " ##".toList) (if t = .checksum then 47 else 36)) ++
    ["exit 0".toList])

/-- Nothing is set, and no word but a plain one has a value. -/
def exampleShell : Shell := ⟨fun _ => none, fun _ => none⟩

/-- `--unzip-pad`, and a block size. -/
def exampleOptions (blocksize : Nat) : Options :=
  ⟨blocksize, false, false, false, false, false, true, false, []⟩

/-- The example is a fragment. -/
theorem exampleSfx_fragment : SfxFragment exampleSfx where
  once := Tag.all_iff (p := fun t => (lines exampleSfx).countP (fun l => t.key <+: l) = 1)
    (by decide +kernel)
  steps := Tag.all_iff (p := fun t => ∀ l ∈ (lines exampleSfx).getLast?, ¬ t.key <+: l)
    (by decide +kernel)

/-- Its tags are in their places. -/
theorem exampleSfx_placed : ∀ bs ∈ [256, 512], Placed (exampleOptions bs) exampleSfx "install.sh".toList := by
  have hlands : ∀ bs ∈ [256, 512], LandsAll (splices (exampleOptions bs)
      (padSfx (exampleOptions bs) exampleSfx).length "install.sh".toList) (lines exampleSfx) := by
    decide +kernel
  exact fun bs hbs => ⟨hlands bs hbs, by decide, List.not_mem_nil⟩

/-- Its options fit it. -/
theorem exampleSfx_fits : Fits exampleShell (exampleOptions 512) exampleSfx "install.sh".toList where
  toPlaced := exampleSfx_placed 512 (by decide)
  blocked := by decide
  padBlock _ := rfl
  room := by decide +kernel
  installRead l _ _ :=
    read_of_plain (forall_mem_of_all (by decide)) (tilde_of_not_mem (by decide)) _ _ l.length
  permsRead := by decide +kernel

/-- The shar with blocks of 256 bytes. -/
theorem exampleShar_ordinary {file : Text} (h : mkshar exampleZip (exampleOptions 256) "shar".toList
    exampleSfx "install.sh".toList ["boot".toList] = .ok file) :
    Ordinary exampleZip exampleShell (exampleOptions 256) "shar".toList exampleSfx "install.sh".toList
      ["boot".toList] file := by
  have hrun : ∀ file ∈ (mkshar exampleZip (exampleOptions 256) "shar".toList exampleSfx
      "install.sh".toList ["boot".toList]).toOption,
      (∀ t ∈ Tag.all, t ≠ Tag.checksum → ∀ l ∈ lines file, t.key <+: l →
        l ∈ lines (file.take exampleSfx.length)) ∧
      (file.head? ≠ some 'P' ∧
        file[512 * ((padSfx (exampleOptions 256) exampleSfx).length / (exampleOptions 256).blocksize -
          1)]? ≠ some 'P') ∧
      (digested exampleZip (exampleOptions 256) "shar".toList exampleSfx "install.sh".toList
        ["boot".toList]).toOption = reread exampleShell file := by
    decide +kernel
  obtain ⟨hinside, helse, hdigest⟩ := hrun file (congrArg Except.toOption h)
  refine ⟨rfl, fun t => hinside t t.mem_all, fun _ _ => helse, fun a b ha hb _ => ?_⟩
  rw [ha, hb] at hdigest
  exact Option.some.inj hdigest

/-- With blocks of 512 bytes mkshar writes a shar, and the two agree; with blocks of 256 they do not. -/
theorem mkshar_agrees_example :
    (mkshar exampleZip (exampleOptions 512) "shar".toList exampleSfx "install.sh".toList
      ["boot".toList]).toOption.isSome = true ∧
    Agrees exampleZip exampleShell (exampleOptions 512) "shar".toList exampleSfx "install.sh".toList
      ["boot".toList] ∧
    ¬ Agrees exampleZip exampleShell (exampleOptions 256) "shar".toList exampleSfx "install.sh".toList
      ["boot".toList] := by
  refine ⟨by decide +kernel, (mkshar_agrees exampleZip_format exampleSfx_fragment).1 exampleSfx_fits,
    fun h => ?_⟩
  have hok : (mkshar exampleZip (exampleOptions 256) "shar".toList exampleSfx "install.sh".toList
      ["boot".toList]).toOption.isSome = true := by decide +kernel
  cases hmk : mkshar exampleZip (exampleOptions 256) "shar".toList exampleSfx "install.sh".toList
      ["boot".toList] with
  | error f =>
      rw [hmk] at hok
      cases hok
  | ok file =>
      have hfits := (mkshar_agrees exampleZip_format exampleSfx_fragment).2
        (exampleSfx_placed 256 (by decide)) file hmk (exampleShar_ordinary hmk) h
      exact absurd (hfits.padBlock rfl) (by decide)

/-- **They do not agree in general**: with blocks of 256 bytes the reset takes its block from a
    place behind the one where it is. -/
theorem mkshar_disagrees : exampleZip.Format ∧ SfxFragment exampleSfx ∧
    1 ≤ (exampleOptions 256).blocksize ∧
    ¬ Agrees exampleZip exampleShell (exampleOptions 256) "shar".toList exampleSfx
      "install.sh".toList ["boot".toList] := by
  refine ⟨exampleZip_format, exampleSfx_fragment, by decide, fun h => ?_⟩
  have hrun : (mkshar exampleZip (exampleOptions 256) "shar".toList exampleSfx "install.sh".toList
      ["boot".toList]).toOption.any (fun file => (padReset exampleShell file).any
        fun out => out[0]? ≠ some 'P') = true := by
    decide +kernel
  have hzip : (zipFile exampleZip (exampleOptions 256) "shar".toList exampleSfx "install.sh".toList
      ["boot".toList]).bind (·[0]?) = some 'P' := by decide +kernel
  cases hmk : mkshar exampleZip (exampleOptions 256) "shar".toList exampleSfx "install.sh".toList
      ["boot".toList] with
  | error f =>
      rw [hmk] at hrun
      cases hrun
  | ok file =>
      rw [hmk] at hrun
      obtain ⟨-, hreset⟩ := h file hmk
      obtain ⟨zip, out, hz, hout, -, hsame⟩ := hreset rfl
      have hfirst : out[0]? = zip[0]? := hsame 0 fun h => by
        have hpos : 30 ≤ dataAt zip := Nat.le_trans (Nat.le_add_right 30 _) (Nat.le_add_right _ _)
        omega
      have hrun : (padReset exampleShell file).any (fun out => out[0]? ≠ some 'P') = true := hrun
      rw [hout] at hrun
      rw [hz] at hzip
      have hother : out[0]? ≠ some 'P' := of_decide_eq_true hrun
      have hp : zip[0]? = some 'P' := hzip
      exact hother (hfirst.trans hp)

end DentOS.Shar
