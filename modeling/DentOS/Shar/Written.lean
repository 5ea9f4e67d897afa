/-
  What mkshar writes, and what the header of the shar reads of it.

  A fragment with its values, `k`, has padding behind it.  In the header of the shar, `g` stands in
  the place of the padding: the padding itself, or with `--unzip-pad` the padding without its last
  block and then the first block of the archive.  Behind that is the rest of the shar (`Block`,
  `unsealed_parts`).

  1. The checksum is of all that but the line it goes into.  Where the line has the room, it is one
     more splice, and what it is of is what the header will read, since no checksum line begins in
     `g` (`unmarked_lines`, `Written`).

  2. Of the tag lines the header reads what was spliced (`assigned_spliced`), and of `SFX_PERMS`
     without `--fixup-perms` what the fragment has.
-/
import DentOS.Shar.Fragment

namespace DentOS.Shar

open PyText

variable {Z : Zip} {sh : Shell} {o : Options} {shar sfx install : Text} {args : List Text}

/-! ## What stands behind the fragment: padding, and the archive -/

/-- The padding. -/
def padText (o : Options) (sfx : Text) : Text := List.replicate (padding o sfx.length - 1) '#' ++ ['\n']

/-- The padded fragment is the fragment and its padding. -/
theorem padSfx_append (h : 0 < o.blocksize) (sfx : Text) : padSfx o sfx = sfx ++ padText o sfx := by
  rw [padSfx_eq h, padText, List.append_assoc]

/-- The padding sets no variable. -/
theorem equals_not_mem_replicate (n : Nat) : '=' ∉ List.replicate n '#' :=
  fun h => absurd (List.eq_of_mem_replicate h) (by decide)

/-- A text that no checksum line begins in, whatever is in front of it. -/
def Unmarked (g : Text) : Prop :=
  (g.head? = some '#' ∨ g.head? = some '\n') ∧ ¬ Tag.checksum.key <:+: g

/-- What the header of a shar has behind the fragment, and what is behind the header. -/
structure Block (o : Options) (sfx zip g rest : Text) : Prop where
  length : g.length = padding o sfx.length
  unmarked : Unmarked g
  /-- The padding ends with a newline. -/
  line : o.unzipPad = false → '\n' ∈ g
  pad : o.unzipPad = true →
    g = List.replicate (padding o sfx.length - o.blocksize) '#' ++ zip.take o.blocksize ∧
      rest = zip.drop (padSfx o sfx).length

/-- **No checksum line begins in the block.** -/
theorem unmarked_lines {r g : Text} (hr : ∀ l ∈ lines r, ¬ Tag.checksum.key <+: l) (hg : Unmarked g) :
    ∀ l ∈ lines (r ++ g), ¬ Tag.checksum.key <+: l := by
  obtain ⟨hhead, hnot⟩ := hg
  intro l hl hkey
  rcases List.eq_nil_or_concat' (lines r) with hnil | ⟨init, y, hinit⟩
  · exact lines_ne_nil r hnil
  have hy : ¬ Tag.checksum.key <+: y := hr y (hinit ▸ List.mem_append_right init (List.mem_singleton_self y))
  cases hz : lines g with
  | nil => exact lines_ne_nil g hz
  | cons z zs =>
      rw [lines_append hinit hz] at hl
      rcases List.mem_append.mp hl with hl | hl
      · exact hr l (hinit ▸ List.mem_append_left [y] hl) hkey
      rcases List.mem_cons.mp hl with rfl | hl
      · -- a tag that goes on into the block would have its first character
        rcases List.prefix_or_prefix_of_prefix hkey (List.prefix_append y z) with h | ⟨w, hw⟩
        · exact hy h
        · cases w with
          | nil =>
              rw [List.append_nil] at hw
              exact hy (hw ▸ List.prefix_refl _)
          | cons c w =>
              rw [← hw, List.prefix_append_right_inj] at hkey
              obtain ⟨u, hu⟩ := hkey.trans (prefix_of_lines hz)
              have hc : g.head? = some c := by
                rw [← hu]
                rfl
              have hmem : c ∈ Tag.checksum.key := hw ▸ List.mem_append_right y List.mem_cons_self
              rcases hhead with h | h
              · exact absurd (Option.some.inj (hc.symm.trans h) ▸ hmem) (by decide)
              · exact absurd (Option.some.inj (hc.symm.trans h) ▸ hmem) (by decide)
      · have hmem : l ∈ lines g := hz ▸ List.mem_cons_of_mem z hl
        exact hnot (hkey.isInfix.trans (infix_of_mem_lines hmem))

/-- A tag behind `#`. -/
theorem infix_behind_hash {m : Text} : ∀ {n : Nat},
    Tag.checksum.key <:+: List.replicate n '#' ++ m → Tag.checksum.key <:+: m
  | 0, h => h
  | n + 1, h => by
      rcases List.infix_cons_iff.mp h with hp | hin
      · obtain ⟨u, hu⟩ := hp
        have hc : 'S' = '#' := (List.cons.inj hu).1
        exact absurd hc (by decide)
      · exact infix_behind_hash hin

/-- The archive begins with pad.bin, stored. -/
theorem stored_pad (hZ : Z.Format) (hup : o.unzipPad = true) {zip : Text}
    (hzip : zipFile Z o shar sfx install args = some zip) :
    ∃ header rest, zip = header ++ (padContent (padSfx o sfx).length ++ rest) ∧
      header.length = dataAt zip ∧ header.length ≤ 512 ∧ "PK".toList <+: header ∧
      ¬ Tag.checksum.key <:+: header := by
  rw [zipFile, zipCommands, if_pos hup, if_pos hup] at hzip
  exact hZ.stored hzip

/-- The pad file is as long as asked for. -/
theorem length_padContent {n : Nat} (h : 0 < n) : (padContent n).length = n := by
  rw [padContent, List.length_append, List.length_replicate, List.length_singleton]
  omega

/-- The first block of the archive has no tag of a checksum. -/
theorem unmarked_magic {header rest : Text} {n b : Nat} (hb : b < n)
    (hnot : ¬ Tag.checksum.key <:+: header) :
    ¬ Tag.checksum.key <:+: (header ++ (padContent n ++ rest)).take b := by
  intro h
  have htake : (header ++ (padContent n ++ rest)).take b <+: header ++ List.replicate (n - 1) '#' := by
    have hlong : b ≤ (header ++ List.replicate (n - 1) '#').length := by
      rw [List.length_append, List.length_replicate]
      omega
    rw [padContent, List.append_assoc, ← List.append_assoc header, List.take_append_of_le_length hlong]
    exact List.take_prefix _ _
  exact hnot (infix_of_infix_append (h.trans htake.isInfix) (equals_not_mem_replicate _))

/-! ## The parts of a shar: script, pad, members -/

/-- The padding is as long as was reckoned. -/
theorem length_padText (hbs : 0 < o.blocksize) : (padText o sfx).length = padding o sfx.length := by
  have hpos := padding_pos hbs sfx.length
  rw [padText, List.length_append, List.length_replicate, List.length_singleton]
  omega

/-- Without a pad file, `zip -A` is left to put the shar together. -/
theorem assemble_adjusted (hZ : Z.Format) (hbs : 0 < o.blocksize) (hup : o.unzipPad = false)
    {zip k made header : Text} (hzip : zipFile Z o shar sfx install args = some zip)
    (h : assemble Z o zip (k ++ padText o sfx) = .ok (made, header)) :
    ∃ g rest, header = k ++ g ∧ made = k ++ (g ++ rest) ∧ Block o sfx zip g rest := by
  rw [assemble, hup] at h
  rw [zipFile, hup] at hzip
  cases hadjust : Z.adjust (k ++ padText o sfx ++ zip) with
  | none =>
      rw [hadjust] at h
      cases h
  | some file =>
      rw [hadjust] at h
      cases h
      obtain ⟨rest, hrest⟩ := hZ.preamble hzip hadjust
      refine ⟨padText o sfx, rest, rfl, ?_, length_padText hbs, ⟨?_, ?_⟩, fun _ => ?_, fun h => ?_⟩
      · rw [← hrest, List.append_assoc]
      · rw [padText]
        cases padding o sfx.length - 1 with
        | zero => exact Or.inr rfl
        | succ n => exact Or.inl rfl
      · intro hin
        exact absurd (infix_behind_hash hin).length_le (by decide)
      · exact List.mem_append_right _ (List.mem_singleton_self '\n')
      · exact absurd (hup.symm.trans h) Bool.false_ne_true

/-- The padding in front of the last block of the script, and that block. -/
theorem padText_cut (hbs : 0 < o.blocksize) (hlong : o.blocksize ≤ padding o sfx.length) :
    ∃ last, last.length = o.blocksize ∧
      padText o sfx = List.replicate (padding o sfx.length - o.blocksize) '#' ++ last := by
  refine ⟨List.replicate (o.blocksize - 1) '#' ++ ['\n'], ?_, ?_⟩
  · rw [List.length_append, List.length_replicate, List.length_singleton]
    omega
  · have hsum : padding o sfx.length - 1 =
        padding o sfx.length - o.blocksize + (o.blocksize - 1) := by omega
    rw [padText, hsum, ← List.replicate_append_replicate, List.append_assoc]

/-- With a pad file, the script is written over the front of the archive, and the archive's first block
    over the last block of the script. -/
theorem assemble_padded (hZ : Z.Format) (hbs : 0 < o.blocksize) (hup : o.unzipPad = true)
    {zip k made header : Text} (hzip : zipFile Z o shar sfx install args = some zip)
    (hk : k.length = sfx.length) (h : assemble Z o zip (k ++ padText o sfx) = .ok (made, header)) :
    ∃ g rest, header = k ++ g ∧ made = k ++ (g ++ rest) ∧ Block o sfx zip g rest := by
  obtain ⟨head, tail, hzip', -, -, -, hnot⟩ := stored_pad hZ hup hzip
  have hcount : padding o sfx.length = o.blocksize - sfx.length % o.blocksize + o.blocksize := by
    rw [padding, hup]
    rfl
  have hrem := Nat.mod_lt sfx.length hbs
  have hsize := length_padSfx hbs sfx
  have hzlen : (padSfx o sfx).length ≤ zip.length := by
    rw [hzip', List.length_append, List.length_append, length_padContent (by omega)]
    omega
  have hlong : o.blocksize ≤ padding o sfx.length := by omega
  obtain ⟨last, hlast, hpt⟩ := padText_cut hbs hlong
  generalize hhash : List.replicate (padding o sfx.length - o.blocksize) '#' = hash at hpt
  have hlen : hash.length = padding o sfx.length - o.blocksize := by
    rw [← hhash, List.length_replicate]
  have hmagic : (zip.take o.blocksize).length = last.length := by
    rw [List.length_take, hlast]
    omega
  have hplace : (k ++ padText o sfx).length - o.blocksize = (k ++ hash).length := by
    rw [hpt, ← List.append_assoc, List.length_append, hlast]
    omega
  have hfront : overwrite zip 0 (k ++ padText o sfx) =
      (k ++ hash) ++ (last ++ zip.drop (padSfx o sfx).length) := by
    rw [overwrite, List.take_zero, List.nil_append, Nat.zero_add, List.length_append, hk,
      length_padText hbs, ← hsize, hpt]
    simp only [List.append_assoc]
  have htake : (k ++ padText o sfx).take (k ++ hash).length = k ++ hash := by
    rw [hpt, ← List.append_assoc, List.take_left]
  rw [assemble, hup] at h
  have hpair : (overwrite (overwrite zip 0 (k ++ padText o sfx))
      ((k ++ padText o sfx).length - o.blocksize) (zip.take o.blocksize),
      (k ++ padText o sfx).take ((k ++ padText o sfx).length - o.blocksize) ++
        zip.take o.blocksize) = (made, header) := Except.ok.inj h
  rw [hplace, hfront, overwrite_append _ _ _ hmagic, htake] at hpair
  obtain ⟨hmade, hheader⟩ := Prod.mk.inj hpair
  refine ⟨hash ++ zip.take o.blocksize, zip.drop (padSfx o sfx).length, ?_, ?_, ?_, ⟨?_, ?_⟩,
    fun h => ?_, fun _ => ⟨by rw [hhash], rfl⟩⟩
  · rw [← hheader, List.append_assoc]
  · rw [← hmade]
    simp only [List.append_assoc]
  · rw [List.length_append, hmagic, hlast, hlen]
    omega
  · obtain ⟨n, hn⟩ : ∃ n, padding o sfx.length - o.blocksize = n + 1 :=
      Nat.exists_eq_succ_of_ne_zero (by omega)
    rw [← hhash, hn]
    exact Or.inl rfl
  · intro hin
    rw [← hhash, hzip'] at hin
    exact unmarked_magic (by omega) hnot (infix_behind_hash hin)
  · exact absurd (h.symm.trans hup) Bool.false_ne_true

/-- **The shar is put together**, in either way. -/
theorem assemble_block (hZ : Z.Format) (hbs : 0 < o.blocksize) {zip k made header : Text}
    (hzip : zipFile Z o shar sfx install args = some zip) (hk : k.length = sfx.length)
    (h : assemble Z o zip (k ++ padText o sfx) = .ok (made, header)) :
    ∃ g rest, header = k ++ g ∧ made = k ++ (g ++ rest) ∧ Block o sfx zip g rest := by
  cases hup : o.unzipPad with
  | false => exact assemble_adjusted hZ hbs hup hzip h
  | true => exact assemble_padded hZ hbs hup hzip hk h

/-- The archive before its checksum, step by step. -/
theorem unsealed_cases {script buf made : Text}
    (h : unsealed Z o shar sfx install args = .ok (script, buf, made)) :
    0 < o.blocksize ∧ ∃ zip, zipFile Z o shar sfx install args = some zip ∧
      spliceAll (splices o (padSfx o sfx).length install) (padSfx o sfx) = .ok script ∧
      assemble Z o zip script = .ok (made, buf) := by
  rw [unsealed] at h
  split at h
  · cases h
  · next hbs =>
      refine ⟨Nat.pos_of_ne_zero hbs, ?_⟩
      split at h
      · cases h
      · next zip hzip =>
          obtain ⟨script', hscript, h⟩ := bind_ok h
          obtain ⟨⟨made', buf'⟩, hmade, h⟩ := bind_ok h
          cases h
          exact ⟨zip, hzip, hscript, hmade⟩

/-- **The parts of a shar without its checksum.** -/
theorem unsealed_parts (hZ : Z.Format) (hsfx : SfxFragment sfx) (hplaced : Placed o sfx install)
    {script buf made : Text} (h : unsealed Z o shar sfx install args = .ok (script, buf, made)) :
    0 < o.blocksize ∧ ∃ zip k g rest, zipFile Z o shar sfx install args = some zip ∧
      script = k ++ padText o sfx ∧ buf = k ++ g ∧ made = k ++ (g ++ rest) ∧
      Block o sfx zip g rest ∧ Run (splices o (padSfx o sfx).length install) sfx k := by
  obtain ⟨hbs, zip, hzip, hscript, hmade⟩ := unsealed_cases h
  generalize hn : (padSfx o sfx).length = n at hscript
  rw [padSfx_append hbs] at hscript
  obtain ⟨k, rfl, hrun⟩ := spliceAll_run (nodup_splices o n install)
    (newline_splices hplaced.installFlat hplaced.permsFlat n) hsfx.field (hn ▸ hplaced.lands) hscript
  obtain ⟨g, rest, rfl, rfl, hblock⟩ := assemble_block hZ hbs hzip hrun.length hmade
  exact ⟨hbs, zip, k, g, rest, hzip, rfl, rfl, rfl, hblock, hrun⟩

/-- The checksum's line in a fragment with its values. -/
structure Marked (k : Text) (pre : List Text) (l r : Text) : Prop where
  text : k = unlines pre ++ (l ++ '\n' :: r)
  begins : Tag.checksum.key <+: l
  flat : '\n' ∉ l
  preFlat : ∀ m ∈ pre, '\n' ∉ m
  front : ∀ m ∈ pre, ¬ Tag.checksum.key <:+: m
  behind : ∀ m ∈ lines r, ¬ Tag.checksum.key <+: m

/-- A fragment with its values has one checksum line, as before. -/
theorem Run.marked {kvs : List (Tag × Text)} {k₀ k : Text} (h : Run kvs k₀ k) :
    ∃ pre l r, Marked k pre l r ∧ lines k = pre ++ l :: lines r := by
  obtain ⟨pre, l, r, hk, hlines, hl, hnl, hpre, hprenl, hnot⟩ := (h.fields .checksum).cut
  exact ⟨pre, l, r, ⟨hk, hl, hnl, hprenl, (hlines ▸ h.found).front hpre, hnot⟩, hlines⟩

/-- What mkshar takes the checksum of, and what it makes of the shar then. -/
theorem Marked.sealed {k l r : Text} {pre : List Text} (h : Marked k pre l r) (e g rest : Text) :
    ckText (unlines pre).length (k ++ e) (k ++ g) (k ++ (g ++ rest)) = unlines pre ++ (r ++ g) ++ rest ∧
    adjustChecksum (k ++ e) (k ++ g) (k ++ (g ++ rest)) = .ok (overwrite (k ++ (g ++ rest))
      (unlines pre).length (spliced .checksum (md5 (unlines pre ++ (r ++ g) ++ rest)))) := by
  have hwhole (u : Text) : k ++ u = unlines pre ++ (l ++ '\n' :: (r ++ u)) := by
    rw [h.text, List.append_assoc, List.append_assoc, List.cons_append]
  rw [hwhole e, hwhole g, hwhole (g ++ rest)]
  exact ⟨ckText_eq h.begins h.flat r e g rest,
    adjustChecksum_eq h.begins h.flat h.front r e g rest⟩

/-! ## A shar with its checksum written into its line -/

/-- A shar: the fragment with its values, what is behind it in the header, and the rest.  The checksum
    is that of the text that the header reads. -/
structure Written (o : Options) (sfx install k g rest : Text) : Prop where
  length : (k ++ g).length = (padSfx o sfx).length
  fields : ∀ t, Field t (lines k)
  holds : ∀ p ∈ splices o (padSfx o sfx).length install, p.1 ≠ .checksum →
    Holds p.1 p.2 (lines sfx) (lines k)
  perms : o.fixupPerms = [] → ∀ l ∈ lines k, Tag.perms.key <+: l → l ∈ lines sfx
  checksum : ∃ old, Holds .checksum (md5 (sed (lines (k ++ g)) ++ rest)) old (lines k)

/-- **A checksum that has the room is one more splice**, and what it is of is what the header reads. -/
theorem written_of_room (hbs : 0 < o.blocksize) {zip k g rest file : Text}
    (hblock : Block o sfx zip g rest) (hrun : Run (splices o (padSfx o sfx).length install) sfx k)
    {pre : List Text} {l r : Text} (hmark : Marked k pre l r) (hlines : lines k = pre ++ l :: lines r)
    (hroom : ∀ l ∈ lines sfx, Tag.checksum.key <+: l → 47 ≤ l.length)
    (h : adjustChecksum (k ++ padText o sfx) (k ++ g) (k ++ (g ++ rest)) = .ok file) :
    ∃ k', file = k' ++ (g ++ rest) ∧ Written o sfx install k' g rest ∧
      sed (lines (k' ++ g)) = unlines pre ++ (r ++ g) := by
  have hempty : Holds .checksum [] (lines sfx) (lines k) :=
    hrun.holds _ (mem_splices o _ install fun h => by cases h)
  have hmem : l ∈ lines k := hlines ▸ List.mem_append_right pre List.mem_cons_self
  obtain ⟨l₀, hl₀, hkey₀, hfill⟩ := hempty l hmem hmark.begins
  have hn : 47 ≤ l₀.length := hroom l₀ hl₀ hkey₀
  have hshort : (spliced .checksum []).length = 15 := length_spliced _ _
  have hlen : l.length = l₀.length := by rw [hfill, length_fill _ (by omega)]
  rw [(hmark.sealed _ g rest).2] at h
  generalize hsum : unlines pre ++ (r ++ g) ++ rest = text at h
  have hhex : '\n' ∉ md5 text := newline_not_mem_md5 text
  have hfront := hmark.front
  -- the line with the checksum, as a splice leaves it
  have hsplice : splice .checksum (md5 text) (k ++ []) =
      .ok (unlines pre ++ (fill (spliced .checksum (md5 text)) l.length ++ '\n' :: r)) := by
    have hlong := length_sealed text
    rw [List.append_nil, hmark.text, splice_at hmark.begins hmark.flat hfront, if_neg (by omega)]
  obtain ⟨k', hk', hlen', hlines'⟩ := splice_lines (hrun.fields .checksum) hrun.found hhex hsplice
  rw [List.append_nil] at hk'
  have hsed : sed (lines (k' ++ g)) = unlines pre ++ (r ++ g) := by
    rw [← hk', List.append_assoc, List.append_assoc, List.cons_append, lines_unlines_append hmark.preFlat,
      lines_line (newline_not_mem_fill hhex _), sed_checksum (lines_ne_nil _) (key_prefix_fill _ _ _)
        (fun x hx h => hfront x hx h.isInfix), sed_lines (unmarked_lines hmark.behind hblock.unmarked)]
  refine ⟨k', ?_, ⟨?_, ?_, ?_, ?_, ?_⟩, hsed⟩
  · have hfile := Except.ok.inj h
    rw [hlen] at hk'
    rw [← hfile, ← hk', hmark.text, hfill]
    simp only [List.append_assoc, List.cons_append]
    exact overwrite_fill hn _ _ _
  · rw [List.length_append, hlen', hrun.length, hblock.length, length_padSfx hbs]
  · exact fun t => hlines' ▸ (hrun.fields t).setLine
  · intro p hp hne l' hl' hkey
    exact hrun.holds p hp l' (mem_of_setLine hne l' (hlines' ▸ hl') hkey) hkey
  · intro hp l' hl' hkey
    have hline := mem_of_setLine (by decide : Tag.perms ≠ .checksum) l' (hlines' ▸ hl') hkey
    refine hrun.kept .perms ?_ l' hline hkey
    rw [splices, if_pos hp]
    show Tag.perms ∉ ([.bytes, .blocksize, .install, .checksum, .lazy, .unzip, .pipe, .loop, .pad,
      .inplace] : List Tag)
    decide
  · refine ⟨lines k, ?_⟩
    rw [hsed, hsum, hlines']
    exact holds_setLine .checksum (md5 text) (lines k)

/-! ## What the header reads: each tag as it was spliced -/

variable {k g rest : Text}

/-- What the shell reads of a tag is the value of the line that was spliced for it. -/
theorem assigned_spliced (hw : Written o sfx install k g rest) {t : Tag} (hck : t ≠ .checksum)
    (hperms : t = .perms → o.fixupPerms ≠ []) (sh : Shell) (u : Text) :
    ∃ l₀ ∈ lines sfx, t.key <+: l₀ ∧ assigned sh (k ++ u) t =
      value sh t (fill (spliced t (spliceValue o (padSfx o sfx).length install t)) l₀.length) :=
  assigned_of_holds (hw.fields t) (hw.holds _ (mem_splices o _ install hperms) hck) sh u

/-- **A plain value is read as it was spliced.** -/
theorem assigned_plain (hw : Written o sfx install k g rest) {t : Tag} (hck : t ≠ .checksum)
    (hperms : t = .perms → o.fixupPerms ≠ [])
    (hv : ∀ c ∈ spliceValue o (padSfx o sfx).length install t, literal c = true)
    (htilde : tilde (spliceValue o (padSfx o sfx).length install t) = false) (sh : Shell) (u : Text) :
    assigned sh (k ++ u) t = some (spliceValue o (padSfx o sfx).length install t) := by
  obtain ⟨l₀, -, -, hl₀⟩ := assigned_spliced hw hck hperms sh u
  rw [hl₀, value_plain hv htilde]

/-- A flag is read as something, on or off. -/
theorem assigned_maybe (hw : Written o sfx install k g rest) {t : Tag} {b : Bool} (hck : t ≠ .checksum)
    (hperms : t = .perms → o.fixupPerms ≠ [])
    (hv : spliceValue o (padSfx o sfx).length install t = maybe t (flag b)) (sh : Shell) (u : Text) :
    (assigned sh (k ++ u) t).isSome = true := by
  obtain ⟨l₀, -, -, hl₀⟩ := assigned_spliced hw hck hperms sh u
  rw [hl₀, hv, value_maybe]
  rfl

/-- `SFX_BYTES` is read as the length of the padded fragment. -/
theorem assigned_bytes (hw : Written o sfx install k g rest) (sh : Shell) (u : Text) :
    assigned sh (k ++ u) .bytes = some (Nat.toDigits 10 (padSfx o sfx).length) := by
  obtain ⟨l₀, -, -, hl₀⟩ := assigned_spliced hw (t := .bytes) (by decide) (fun h => by cases h) sh u
  rw [hl₀, spliceValue, value_digits]

/-- `SFX_BLOCKSIZE` is read as the block size. -/
theorem assigned_blocksize (hw : Written o sfx install k g rest) (sh : Shell) (u : Text) :
    assigned sh (k ++ u) .blocksize = some (Nat.toDigits 10 o.blocksize) := by
  obtain ⟨l₀, -, -, hl₀⟩ :=
    assigned_spliced hw (t := .blocksize) (by decide) (fun h => by cases h) sh u
  rw [hl₀, spliceValue, value_digits]

/-- A checksum is a plain word. -/
theorem md5_plain (t : Text) : (∀ c ∈ md5 t, literal c = true) ∧ tilde (md5 t) = false := by
  have hlit : ∀ c ∈ "0123456789abcdef".toList, literal c = true := forall_mem_of_all (by decide)
  exact ⟨fun c hc => hlit c (md5_text hc),
    tilde_of_not_mem fun hc => absurd (md5_text hc) (by decide)⟩

/-- `SFX_CHECKSUM` is read as the digest. -/
theorem assigned_checksum (hw : Written o sfx install k g rest) (sh : Shell) (u : Text) :
    assigned sh (k ++ u) .checksum = some (md5 (sed (lines (k ++ g)) ++ rest)) := by
  obtain ⟨old, hold⟩ := hw.checksum
  obtain ⟨l₀, -, -, hl₀⟩ := assigned_of_holds (hw.fields .checksum) hold sh u
  rw [hl₀, value_plain (md5_plain _).1 (md5_plain _).2]

/-- `SFX_PAD` is read as the pad file, or as nothing. -/
theorem assigned_pad (hw : Written o sfx install k g rest) (sh : Shell) (u : Text) :
    assigned sh (k ++ u) .pad = some (if o.unzipPad then padBin else []) := by
  refine assigned_plain hw (t := .pad) (by decide) (fun h => by cases h) ?_ ?_ sh u
  · refine forall_mem_of_all ?_
    rw [spliceValue]
    cases o.unzipPad
    · decide
    · decide
  · refine tilde_of_not_mem ?_
    rw [spliceValue]
    cases o.unzipPad
    · decide
    · decide

/-- `SFX_INSTALL` is read from the line that was spliced for it. -/
theorem assigned_install (hw : Written o sfx install k g rest) (sh : Shell) (u : Text) :
    ∃ l₀ ∈ lines sfx, Tag.install.key <+: l₀ ∧ assigned sh (k ++ u) .install =
      value sh .install (fill (spliced .install (basename install)) l₀.length) :=
  assigned_spliced hw (t := .install) (by decide) (fun h => by cases h) sh u

/-- The name for `--fixup-perms`, or the fragment's own line. -/
theorem assigned_perms (hw : Written o sfx install k g rest) (sh : Shell) (u : Text) :
    ∃ l₀ ∈ lines sfx, Tag.perms.key <+: l₀ ∧
      assigned sh (k ++ u) .perms = value sh .perms (permsLine o l₀) := by
  by_cases hp : o.fixupPerms = []
  · obtain ⟨l, hl, hkey, hfind⟩ := find_line_of_field (hw.fields .perms)
    refine ⟨l, hw.perms hp l hl hkey, hkey, ?_⟩
    rw [assigned, hfind, permsLine, if_pos hp]
    rfl
  · obtain ⟨l₀, hl₀, hkey, hread⟩ := assigned_spliced hw (t := .perms) (by decide) (fun _ => hp) sh u
    refine ⟨l₀, hl₀, hkey, ?_⟩
    rw [hread, permsLine, if_neg hp]
    rfl

/-- **The shell gets past the tag lines** when it gets past the two with a name. -/
theorem assigned_isSome_iff (hsfx : SfxFragment sfx) (hw : Written o sfx install k g rest) (sh : Shell)
    (u : Text) : (∀ t, (assigned sh (k ++ u) t).isSome = true) ↔
      (∀ l ∈ lines sfx, Tag.install.key <+: l →
        (value sh .install (fill (spliced .install (basename install)) l.length)).isSome = true) ∧
      ∀ l ∈ lines sfx, Tag.perms.key <+: l → (value sh .perms (permsLine o l)).isSome = true := by
  obtain ⟨li, hli, hikey, hinstall⟩ := assigned_install hw sh u
  obtain ⟨lp, hlp, hpkey, hperms⟩ := assigned_perms hw sh u
  constructor
  · refine fun hall => ⟨fun l hl hkey => ?_, fun l hl hkey => ?_⟩
    · rw [(hsfx.field .install).unique hl hkey hli hikey, ← hinstall]
      exact hall .install
    · rw [(hsfx.field .perms).unique hl hkey hlp hpkey, ← hperms]
      exact hall .perms
  rintro ⟨hi, hp⟩ t
  cases t with
  | bytes =>
      rw [assigned_bytes hw]
      rfl
  | blocksize =>
      rw [assigned_blocksize hw]
      rfl
  | checksum =>
      rw [assigned_checksum hw]
      rfl
  | pad =>
      rw [assigned_pad hw]
      rfl
  | install =>
      rw [hinstall]
      exact hi li hli hikey
  | perms =>
      rw [hperms]
      exact hp lp hlp hpkey
  | lazy =>
      have hflag : (∀ c ∈ flag o.lazy, literal c = true) ∧ tilde (flag o.lazy) = false := by
        cases o.lazy
        · exact ⟨forall_mem_of_all (by decide), tilde_of_not_mem (by decide)⟩
        · exact ⟨forall_mem_of_all (by decide), tilde_of_not_mem (by decide)⟩
      rw [assigned_plain hw (t := .lazy) (by decide) (fun h => by cases h) hflag.1 hflag.2]
      rfl
  | unzip => exact assigned_maybe hw (b := o.unzipSfx) (by decide) (fun h => by cases h) rfl sh u
  | loop => exact assigned_maybe hw (b := o.unzipLoop) (by decide) (fun h => by cases h) rfl sh u
  | pipe => exact assigned_maybe hw (b := o.unzipPipe) (by decide) (fun h => by cases h) rfl sh u
  | inplace => exact assigned_maybe hw (b := o.inplace) (by decide) (fun h => by cases h) rfl sh u

/-- What the steps have in their variables. -/
theorem vars_written (hw : Written o sfx install k g rest) {vars : Tag → Text} {u : Text}
    (h : header sh (k ++ u) = some vars) :
    vars .bytes = Nat.toDigits 10 (padSfx o sfx).length ∧ vars .blocksize = Nat.toDigits 10 o.blocksize ∧
      vars .checksum = md5 (sed (lines (k ++ g)) ++ rest) ∧
      vars .pad = if o.unzipPad then padBin else [] := by
  have hvar := assigned_of_header h
  have hof : ∀ {t : Tag} {v : Text}, assigned sh (k ++ u) t = some v → vars t = v := by
    intro t v hv
    exact Option.some.inj ((hvar t).symm.trans hv)
  exact ⟨hof (assigned_bytes hw sh u), hof (assigned_blocksize hw sh u),
    hof (assigned_checksum hw sh u), hof (assigned_pad hw sh u)⟩

/-- The block arithmetic, with blocks to divide by. -/
theorem sfxBlocks_eq {vars : Tag → Text} {bs n : Nat} (h : 1 < bs) (hmod : n % bs = 0)
    (hsize : vars .blocksize = Nat.toDigits 10 bs) (hbytes : vars .bytes = Nat.toDigits 10 n) :
    sfxBlocks sh vars = some (Nat.toDigits 10 (n / bs)) := by
  rw [sfxBlocks, hsize, digits_toDigits, hbytes, digits_toDigits]
  show (if 1 < bs then aligned bs n else _) = _
  rw [if_pos h, aligned, if_pos hmod]

/-- The header and the rest of the file go into `md5sum`. -/
theorem piped_eq {vars : Tag → Text} {bs n : Nat} (hbs : 0 < bs) (hmod : n % bs = 0)
    (hsize : vars .blocksize = Nat.toDigits 10 bs) (file : Text) :
    piped vars (Nat.toDigits 10 (n / bs)) file = sed (lines (file.take n)) ++ file.drop n := by
  have hmul : bs * (n / bs) = n := Nat.mul_div_cancel' (Nat.dvd_of_mod_eq_zero hmod)
  rw [piped, hsize, dd_head _ hbs, dd_rest _ hbs, hmul]

end DentOS.Shar
