/-
  Which fragments, options and names mkshar's splices are right for.

  1. **The fragment** (`SfxFragment`): each tag begins one line, and the steps of the header, which read
     the variables, stand behind those lines.  Then every tag is a field (`SfxFragment.field`).

  2. **The places** (`Placed`): every splice goes into its tag's line.  This is asked of the tags that
     are spliced, each at its turn.  A comment with `SFX_PERMS=` in it does no harm without
     `--fixup-perms`, nor does a name with a tag in it whose line stands in front of the name's.

  3. **The condition** (`Fits`): what mkshar and the header take for granted besides and do not
     check: a block size that the header divides by, 512 under `--unzip-pad`, room for the checksum,
     and names that the shell gets past.

  What the condition asks of a name is about the line that the name is spliced into, with its length;
  without `--fixup-perms` the fragment's own line is executed.
-/
import DentOS.Shar.Extract

namespace DentOS.Shar

open PyText

/-- An SFX fragment: each tag begins one line, and behind those lines stand the steps. -/
structure SfxFragment (sfx : Text) : Prop where
  once : ∀ t : Tag, (lines sfx).countP (fun l => t.key <+: l) = 1
  /-- A tag line is not the last. -/
  steps : ∀ t : Tag, ∀ l ∈ (lines sfx).getLast?, ¬ t.key <+: l

/-- Every splice goes into its tag's line, and adds no line. -/
structure Placed (o : Options) (sfx install : Text) : Prop where
  lands : LandsAll (splices o (padSfx o sfx).length install) (lines sfx)
  installFlat : '\n' ∉ basename install
  permsFlat : '\n' ∉ o.fixupPerms

/-- The line of `SFX_PERMS` that is executed, in the place of the fragment's. -/
def permsLine (o : Options) (l : Text) : Text :=
  if o.fixupPerms = [] then l else fill (spliced .perms o.fixupPerms) l.length

/-- A fragment and options that every step of the archive works with. -/
structure Fits (sh : Shell) (o : Options) (sfx install : Text) : Prop extends Placed o sfx install where
  blocked : 1 < o.blocksize
  /-- The pad reset copies 512 bytes. -/
  padBlock : o.unzipPad = true → o.blocksize = 512
  /-- The checksum goes into its line. -/
  room : ∀ l ∈ lines sfx, Tag.checksum.key <+: l → 47 ≤ l.length
  installRead : ∀ l ∈ lines sfx, Tag.install.key <+: l →
    (value sh .install (fill (spliced .install (basename install)) l.length)).isSome = true
  permsRead : ∀ l ∈ lines sfx, Tag.perms.key <+: l → (value sh .perms (permsLine o l)).isSome = true

/-- **Every tag of a fragment is a field.** -/
theorem SfxFragment.field {sfx : Text} (h : SfxFragment sfx) (t : Tag) : Field t (lines sfx) := by
  have hone := h.once t
  have hpos : 0 < (lines sfx).countP (fun l => t.key <+: l) := by omega
  obtain ⟨l, hmem, hl⟩ := List.countP_pos_iff.mp hpos
  have hl : t.key <+: l := of_decide_eq_true hl
  obtain ⟨pre, post, hsplit⟩ := List.append_of_mem hmem
  rw [hsplit, List.countP_append, List.countP_cons, if_pos (decide_eq_true hl)] at hone
  have hfront : pre.countP (fun l => t.key <+: l) = 0 := by omega
  have hbehind : post.countP (fun l => t.key <+: l) = 0 := by omega
  refine ⟨pre, l, post, hsplit, ?_, hl,
    fun m hm hp => List.countP_eq_zero.mp hfront m hm (decide_eq_true hp),
    fun m hm hp => List.countP_eq_zero.mp hbehind m hm (decide_eq_true hp)⟩
  rintro rfl
  refine h.steps t l ?_ hl
  rw [hsplit, List.getLast?_concat]
  rfl

/-- A plain name is read, whatever the length of its line. -/
theorem read_of_plain {v : Text} (hv : ∀ c ∈ v, literal c = true) (htilde : tilde v = false)
    (sh : Shell) (t : Tag) (n : Nat) : (value sh t (fill (spliced t v) n)).isSome = true := by
  rw [value_plain hv htilde]
  rfl

end DentOS.Shar
