/-
  src/tools/scripts/sfx.sh.in: what the header of a shar does with the file it stands in, up to the
  checksum, and the pad reset.

  Of the script itself the tag lines are executed, as assignments (`Header`); what else stands in the
  fragment is its own affair.  What the shell makes of a word with blanks, quotes, expansions or a
  tilde in it is a parameter (`Shell.word`); where it has no value, the steps are not reached.  `dd` is run
  with operands that are texts; with one that is not a number it does nothing.

  The two steps are `checksumStep`, which compares the digest in the header with that of the file
  without its line, and `padReset`, which writes one block of it over its front.  The
  lemmas at the end say what `sed` and `dd` do with a file that has the parts of a shar.
-/
import DentOS.Shar.Make

namespace DentOS.Shar

open PyText

/-! ## The tag lines: what the shell reads of them -/

/-- The shell that the script runs in: its environment, and the value of a word in an assignment that
    is neither plain nor `${SFX_TAG-"word"}`; `none` where the script does not get past it. -/
structure Shell where
  /-- The environment. -/
  env : Text → Option Text
  /-- The value of a word that is not plain. -/
  word : Text → Option Text

/-- A character that is itself in the value of an assignment, which is not split and no pattern. -/
def literal (c : Char) : Bool :=
  c ∉ [' ', '\t', '\n', '"', '\'', '`', '$', '\\', ';', '&', '|', '<', '>', '(', ')']

/-- A tilde that the shell expands. -/
def tilde (v : Text) : Bool := v.head? = some '~' || decide (":~".toList <:+: v)

/-- `[:blank:]`. -/
def blank (c : Char) : Bool := c = ' ' || c = '\t'

/-- Nothing but a comment stands behind the word. -/
def ends (rest : Text) : Bool :=
  rest = [] || rest.head?.any blank && (rest.dropWhile blank).head?.all (· = '#')

/-- The value of `word # comment`. -/
def plainValue (w : Text) : Option Text :=
  let v := w.takeWhile literal
  if ends (w.dropWhile literal) && !tilde v then some v else none

/-- The value of `${SFX_TAG-"word"} # comment`. -/
def defaultValue (sh : Shell) (t : Tag) (w : Text) : Option Text :=
  let opening := "$\x7b".toList ++ t.name ++ "-\"".toList
  let rest := w.drop opening.length
  let closed := rest.dropWhile literal
  if opening <+: w ∧ "\"\x7d".toList <+: closed ∧ ends (closed.drop 2) then
    some ((sh.env t.name).getD (rest.takeWhile literal))
  else none

/-- The value that a tag line assigns. -/
def value (sh : Shell) (t : Tag) (l : Text) : Option Text :=
  let w := l.drop t.key.length
  ((plainValue w).or (defaultValue sh t w)).or (sh.word w)

/-- The value of a tag: that of the first line of the file that begins with it. -/
def assigned (sh : Shell) (shar : Text) (t : Tag) : Option Text :=
  ((lines shar).find? fun l => t.key <+: l).bind (value sh t)

/-- The variables, when all tag lines can be executed. -/
def header (sh : Shell) (shar : Text) : Option (Tag → Text) :=
  if Tag.all.all fun t => (assigned sh shar t).isSome then
    some fun t => (assigned sh shar t).getD []
  else none

/-! ## Block arithmetic: `dd` and the number of blocks -/

/-- `$((SFX_BYTES / SFX_BLOCKSIZE))`, when there is no trailer. -/
def aligned (bs n : Nat) : Option Text :=
  if n % bs = 0 then some (Nat.toDigits 10 (n / bs)) else none

/-- `SFX_BLOCKS`, as text; `none` where the script exits.  With a block size of 1 the variable keeps
    what it has from the environment. -/
def sfxBlocks (sh : Shell) (vars : Tag → Text) : Option Text :=
  match digits (vars .blocksize) with
  | some bs =>
      if 1 < bs then (digits (vars .bytes)).bind (aligned bs)
      else some ((sh.env "SFX_BLOCKS".toList).getD [])
  | none => some ((sh.env "SFX_BLOCKS".toList).getD [])

/-- What `dd if=file bs=bs skip=skip count=count` writes; nothing when it refuses an operand. -/
def dd (file bs : Text) (skip count : Option Text) : Text :=
  let operand (o : Option Text) (other : Nat) : Option Nat := o.elim (some other) digits
  match digits bs, operand skip 0, operand count file.length with
  | some bs, some skip, some count => if bs = 0 then [] else (file.drop (bs * skip)).take (bs * count)
  | _, _, _ => []

/-! ## The checksum: computed again without its line -/

/-- `sed -e "/^SFX_CHECKSUM=/d"`: the lines that begin so go, with their newlines.  The last line
    need not have one. -/
def sed : List Text → Text
  | [] => []
  | [l] => if Tag.checksum.key <+: l then [] else l
  | l :: ls => if Tag.checksum.key <+: l then sed ls else l ++ '\n' :: sed ls

/-- What goes into `md5sum`: the header without its checksum line, and the rest of the file. -/
def piped (vars : Tag → Text) (blocks shar : Text) : Text :=
  sed (lines (dd shar (vars .blocksize) none (some blocks))) ++
    dd shar (vars .blocksize) (some blocks) none

/-- The new checksum. -/
def newck (vars : Tag → Text) (blocks shar : Text) : Text := md5 (piped vars blocks shar)

/-- The checksum step gets to "checksum is OK". -/
def checksumStep (sh : Shell) (shar : Text) : Bool :=
  match header sh shar with
  | none => false
  | some vars =>
      match sfxBlocks sh vars with
      | none => false
      | some blocks => vars .checksum = newck vars blocks shar

/-- The checksum test, by what the archive's header says. -/
theorem checksumStep_eq {sh : Shell} {shar : Text} {vars : Tag → Text} {blocks : Text}
    (hheader : header sh shar = some vars) (hblocks : sfxBlocks sh vars = some blocks) :
    checksumStep sh shar = decide (vars .checksum = newck vars blocks shar) := by
  unfold checksumStep
  rw [hheader]
  simp only [hblocks]

/-! ## The pad: one block in front of the script -/

/-- The pad reset: what is in `$_ZIP` afterwards, which is the shar or a copy of it.  `none` when
    there is no pad, or when the block in front of the first is asked for. -/
def padReset (sh : Shell) (shar : Text) : Option Text :=
  match header sh shar with
  | none => none
  | some vars =>
      match (sfxBlocks sh vars).bind digits with
      | none => none
      | some blocks =>
          if vars .pad = [] ∨ blocks = 0 then none
          else
            let zipBin := dd shar "512".toList (some (Nat.toDigits 10 (blocks - 1))) (some ['1'])
            some (overwrite shar 0 (zipBin.take 512))

/-- The reset of the pad file, by what the header says. -/
theorem padReset_eq {sh : Shell} {shar : Text} {vars : Tag → Text} {blocks : Nat}
    (hheader : header sh shar = some vars) (hblocks : (sfxBlocks sh vars).bind digits = some blocks)
    (hpad : vars .pad ≠ []) (hpos : blocks ≠ 0) :
    padReset sh shar = some (overwrite shar 0
      ((dd shar "512".toList (some (Nat.toDigits 10 (blocks - 1))) (some ['1'])).take 512)) := by
  unfold padReset
  rw [hheader]
  simp only [hblocks]
  rw [if_neg (not_or.mpr ⟨hpad, hpos⟩)]

/-! ## Lines that are executed, one by one -/

/-- A comment ends a line of the shell. -/
theorem ends_tail (u : Text) : ends (' ' :: '#' :: u) = true := rfl

/-- A plain value is assigned, whatever the comment behind it. -/
theorem value_comment {v : Text} (hv : ∀ c ∈ v, literal c = true) (htilde : tilde v = false)
    (sh : Shell) (t : Tag) (u : Text) : value sh t (spliced t v ++ u) = some v := by
  have hshape : spliced t v ++ u = t.key ++ (v ++ ' ' :: '#' :: u) := by
    rw [spliced, List.append_assoc, List.append_assoc]
    rfl
  have htake : (v ++ ' ' :: '#' :: u).takeWhile literal = v := by
    rw [List.takeWhile_append_of_pos hv]
    show v ++ [] = v
    rw [List.append_nil]
  have hdrop : (v ++ ' ' :: '#' :: u).dropWhile literal = ' ' :: '#' :: u := by
    rw [List.dropWhile_append_of_pos hv]
    rfl
  have hplain : plainValue (v ++ ' ' :: '#' :: u) = some v := by
    rw [plainValue, htake, hdrop, htilde, ends_tail]
    rfl
  rw [hshape, value, List.drop_left, hplain]
  rfl

/-- The value that was spliced is assigned. -/
theorem value_plain {v : Text} (hv : ∀ c ∈ v, literal c = true) (htilde : tilde v = false)
    (sh : Shell) (t : Tag) (n : Nat) : value sh t (fill (spliced t v) n) = some v :=
  value_comment hv htilde sh t _

/-- Behind its key, a filled line is the value and a comment. -/
theorem drop_key (t : Tag) (v : Text) (n : Nat) : (fill (spliced t v) n).drop t.key.length =
    v ++ ' ' :: '#' :: List.replicate (n - (spliced t v).length) '#' := by
  rw [fill_spliced, List.drop_left]

/-- The value that was spliced is assigned, unless the environment has one. -/
theorem value_maybe (sh : Shell) (t : Tag) (b : Bool) (n : Nat) :
    value sh t (fill (spliced t (maybe t (flag b))) n) = some ((sh.env t.name).getD (flag b)) := by
  generalize hu : ' ' :: '#' ::
    List.replicate (n - (spliced t (maybe t (flag b))).length) '#' = u
  have hu' : ends u = true := hu ▸ ends_tail _
  have hshape : maybe t (flag b) ++ u =
      ("$\x7b".toList ++ t.name ++ "-\"".toList) ++ (flag b ++ ("\"\x7d".toList ++ u)) := by
    simp only [maybe, List.append_assoc]
  have hflag : ∀ c ∈ flag b, literal c = true := forall_mem_of_all (by cases b <;> decide)
  have htake : (flag b ++ ("\"\x7d".toList ++ u)).takeWhile literal = flag b := by
    rw [List.takeWhile_append_of_pos hflag]
    show flag b ++ [] = flag b
    rw [List.append_nil]
  have hdrop : (flag b ++ ("\"\x7d".toList ++ u)).dropWhile literal = "\"\x7d".toList ++ u := by
    rw [List.dropWhile_append_of_pos hflag]
    rfl
  have hplain : plainValue (maybe t (flag b) ++ u) = none := by
    rw [hshape]
    rfl
  have hdefault : defaultValue sh t (maybe t (flag b) ++ u) = some ((sh.env t.name).getD (flag b)) := by
    rw [hshape]
    unfold defaultValue
    dsimp only
    rw [List.drop_left, htake, hdrop,
      if_pos ⟨List.prefix_append _ _, List.prefix_append _ _, hu'⟩]
  rw [value, drop_key, hu, hplain, hdefault]
  rfl

/-- A word without a tilde has none that the shell expands. -/
theorem tilde_of_not_mem {v : Text} (h : '~' ∉ v) : tilde v = false := by
  rw [tilde, Bool.or_eq_false_iff]
  refine ⟨decide_eq_false fun hhead => h (List.mem_of_head? hhead), decide_eq_false fun hin => ?_⟩
  exact h (hin.subset (by decide))

/-- A digit stands for itself. -/
theorem literal_of_isDigit {c : Char} (h : c.isDigit = true) : literal c = true := by
  have hnot : ∀ d ∈ [' ', '\t', '\n', '"', '\'', '`', '$', '\\', ';', '&', '|', '<', '>', '(', ')'],
      d.isDigit = false := forall_mem_of_all (by decide)
  refine decide_eq_true fun hmem => ?_
  rw [hnot c hmem] at h
  cases h

/-- A number is assigned as it stands. -/
theorem value_digits (sh : Shell) (t : Tag) (k n : Nat) :
    value sh t (fill (spliced t (Nat.toDigits 10 k)) n) = some (Nat.toDigits 10 k) :=
  value_plain (fun _ hc => literal_of_isDigit (isDigit_of_mem hc))
    (tilde_of_not_mem fun hc => absurd (isDigit_of_mem hc) (by decide)) sh t n

/-- The line of a field is the one that is executed, whatever stands behind the text. -/
theorem find_line_of_field {t : Tag} {k : Text} (h : Field t (lines k)) :
    ∃ l ∈ lines k, t.key <+: l ∧
      ∀ rest, (lines (k ++ rest)).find? (fun l => t.key <+: l) = some l := by
  obtain ⟨pre, l, r, hk, hlines, hl, hnl, hpre, hprenl, -⟩ := h.cut
  refine ⟨l, hlines ▸ List.mem_append_right pre List.mem_cons_self, hl, fun rest => ?_⟩
  have hsplit : k ++ rest = unlines pre ++ (l ++ '\n' :: (r ++ rest)) := by
    rw [hk, List.append_assoc, List.append_assoc, List.cons_append]
  have hnone : pre.find? (fun l => t.key <+: l) = none :=
    List.find?_eq_none.mpr fun m hm hp => hpre m hm (of_decide_eq_true hp)
  rw [hsplit, lines_unlines_append hprenl, lines_line hnl, List.find?_append, hnone,
    Option.none_or, List.find?_cons_of_pos (p := fun l => decide (t.key <+: l)) (decide_eq_true hl)]

/-- What a tag is assigned that holds a value. -/
theorem assigned_of_holds {t : Tag} {v k : Text} {old : List Text} (hf : Field t (lines k))
    (hv : Holds t v old (lines k)) (sh : Shell) (rest : Text) :
    ∃ l₀ ∈ old, t.key <+: l₀ ∧
      assigned sh (k ++ rest) t = value sh t (fill (spliced t v) l₀.length) := by
  obtain ⟨l, hmem, hl, hfind⟩ := find_line_of_field hf
  obtain ⟨l₀, hl₀, hkey, rfl⟩ := hv l hmem hl
  refine ⟨l₀, hl₀, hkey, ?_⟩
  rw [assigned, hfind]
  rfl

/-- The variables that the steps have are those that were assigned. -/
theorem assigned_of_header {shar : Text} {sh : Shell} {vars : Tag → Text}
    (h : header sh shar = some vars) (t : Tag) : assigned sh shar t = some (vars t) := by
  rw [header] at h
  split at h
  · next hall =>
      cases h
      obtain ⟨v, hv⟩ := Option.isSome_iff_exists.mp (List.all_eq_true.mp hall t t.mem_all)
      show assigned sh shar t = some ((assigned sh shar t).getD [])
      rw [hv]
      rfl
  · cases h

/-- All tag lines can be executed. -/
theorem header_of_isSome {shar : Text} {sh : Shell}
    (h : ∀ t, (assigned sh shar t).isSome = true) : ∃ vars, header sh shar = some vars :=
  ⟨_, if_pos (List.all_eq_true.mpr fun t _ => h t)⟩

/-! ## Lines that are deleted by `sed` -/

/-- `sed` drops the lines of the checksum and keeps the others. -/
theorem sed_cons {l : Text} {ls : List Text} (h : ls ≠ []) :
    sed (l :: ls) = if Tag.checksum.key <+: l then sed ls else l ++ '\n' :: sed ls := by
  cases ls with
  | nil => exact absurd rfl h
  | cons m ls => rfl

/-- A text without a checksum line stays. -/
theorem sed_intercalate : ∀ {ls : List Text}, (∀ l ∈ ls, ¬ Tag.checksum.key <+: l) →
    sed ls = ['\n'].intercalate ls
  | [], _ => rfl
  | [l], h => by
      rw [List.intercalate_singleton]
      exact if_neg (h l List.mem_cons_self)
  | l :: m :: ls, h => by
      rw [sed_cons (List.cons_ne_nil m ls), if_neg (h l List.mem_cons_self),
        sed_intercalate fun x hx => h x (List.mem_cons_of_mem l hx), List.intercalate_cons_cons,
        List.append_assoc]
      rfl

/-- A text without such a line stays as it is. -/
theorem sed_lines {t : Text} (h : ∀ l ∈ lines t, ¬ Tag.checksum.key <+: l) : sed (lines t) = t := by
  rw [sed_intercalate h, intercalate_lines]

/-- Lines in front that are no checksum lines stay. -/
theorem sed_append {ls : List Text} (hls : ls ≠ []) :
    ∀ {pre : List Text}, (∀ m ∈ pre, ¬ Tag.checksum.key <+: m) → sed (pre ++ ls) = unlines pre ++ sed ls
  | [], _ => rfl
  | m :: pre, h => by
      have hne : pre ++ ls ≠ [] := List.append_ne_nil_of_right_ne_nil pre hls
      rw [List.cons_append, sed_cons hne, if_neg (h m List.mem_cons_self),
        sed_append hls fun x hx => h x (List.mem_cons_of_mem m hx), unlines_cons, List.append_assoc,
        List.cons_append]

/-- **The checksum line goes, with its newline, and nothing else.** -/
theorem sed_checksum {l : Text} {ls pre : List Text} (hls : ls ≠ []) (hl : Tag.checksum.key <+: l)
    (hpre : ∀ m ∈ pre, ¬ Tag.checksum.key <+: m) : sed (pre ++ l :: ls) = unlines pre ++ sed ls := by
  rw [sed_append (List.cons_ne_nil l ls) hpre, sed_cons hls, if_pos hl]

/-! ## Blocks that are read by `dd` -/

/-- `dd` of the first blocks. -/
theorem dd_head (file : Text) {bs : Nat} (h : 0 < bs) (count : Nat) :
    dd file (Nat.toDigits 10 bs) none (some (Nat.toDigits 10 count)) = file.take (bs * count) := by
  show (match digits _, some 0, digits _ with | some bs, some skip, some count => _ | _, _, _ => _) = _
  rw [digits_toDigits, digits_toDigits]
  show (if bs = 0 then [] else (file.drop (bs * 0)).take (bs * count)) = _
  rw [if_neg (by omega), Nat.mul_zero, List.drop_zero]

/-- `dd` of what is behind them. -/
theorem dd_rest (file : Text) {bs : Nat} (h : 0 < bs) (skip : Nat) :
    dd file (Nat.toDigits 10 bs) (some (Nat.toDigits 10 skip)) none = file.drop (bs * skip) := by
  show (match digits _, digits _, some file.length with
    | some bs, some skip, some count => _ | _, _, _ => _) = _
  rw [digits_toDigits, digits_toDigits]
  show (if bs = 0 then [] else (file.drop (bs * skip)).take (bs * file.length)) = _
  have hle : file.length ≤ bs * file.length := Nat.le_mul_of_pos_left _ h
  rw [if_neg (by omega), List.take_of_length_le (by rw [List.length_drop]; omega)]

/-- `dd` of one block of 512 bytes. -/
theorem dd_block (file : Text) (skip : Nat) :
    dd file "512".toList (some (Nat.toDigits 10 skip)) (some ['1']) =
      (file.drop (512 * skip)).take 512 := by
  have hbs : digits "512".toList = some 512 := by decide
  have hone : digits ['1'] = some 1 := by decide
  show (match digits _, digits _, digits _ with
    | some bs, some skip, some count => _ | _, _, _ => _) = _
  rw [hbs, hone, digits_toDigits]
  rfl

end DentOS.Shar
