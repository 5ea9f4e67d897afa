/-
  The tag lines of an SFX fragment, and `_splice` (src/tools/mkshar).

  A tag line is `SFX_TAG=value # comment`.  `_splice` looks for the first `SFX_TAG=` in the text,
  wherever it stands, and writes a value over what is there up to the newline, filled with `#` to the
  same length.

  1. The text is followed as its lines.  A tag is a field of a text (`Field`) when one line begins
     with it and that line ends.  No splice takes a field away (`Field.setLine`).

  2. A splice goes into its tag's line when the first line that has the tag begins with it (`Lands`);
     then it replaces that line and nothing else (`splice_lines`).  Of a run of splices each is asked
     for this in the text as those in front of it have left it (`LandsAll`): a value that was spliced
     has the text of another tag in it only if it came from a name.

  3. A run of splices over different tags leaves for each tag the line with its value, and the lines
     of the other tags as they were (`spliceAll_run`).
-/
import DentOS.Lib.Lines
import Mathlib.Data.List.Infix

namespace DentOS.Shar

open PyText

/-- The tags that `mkshar` writes values for. -/
inductive Tag where
  | bytes
  | blocksize
  | checksum
  | install
  | perms
  | pad
  | lazy
  | unzip
  | loop
  | pipe
  | inplace
  deriving DecidableEq

namespace Tag

/-- All of them. -/
def all : List Tag :=
  [bytes, blocksize, checksum, install, perms, pad, lazy, unzip, loop, pipe, inplace]

/-- A tag as it is in the script. -/
def name : Tag → Text
  | bytes => "SFX_BYTES".toList
  | blocksize => "SFX_BLOCKSIZE".toList
  | checksum => "SFX_CHECKSUM".toList
  | install => "SFX_INSTALL".toList
  | perms => "SFX_PERMS".toList
  | pad => "SFX_PAD".toList
  | lazy => "SFX_LAZY".toList
  | unzip => "SFX_UNZIP".toList
  | loop => "SFX_LOOP".toList
  | pipe => "SFX_PIPE".toList
  | inplace => "SFX_INPLACE".toList

/-- What a splice looks for. -/
def key (t : Tag) : Text := t.name ++ ['=']

/-- Every tag is in the list. -/
theorem mem_all (t : Tag) : t ∈ all := by
  cases t <;> decide

/-- What holds of the list holds of every tag. -/
theorem all_iff {p : Tag → Prop} (h : ∀ t ∈ all, p t) (t : Tag) : p t := h t (mem_all t)

/-- A key is on one line. -/
theorem newline_not_mem_key (t : Tag) : '\n' ∉ t.key :=
  all_iff (p := fun t => '\n' ∉ t.key) (by decide) t

/-- No key is empty. -/
theorem key_ne_nil (t : Tag) : t.key ≠ [] := List.append_ne_nil_of_right_ne_nil _ (List.cons_ne_nil _ _)

/-- **No key begins another**: a line is for one tag. -/
theorem eq_of_keys {t u : Tag} (h : u.key <+: t.key) : u = t :=
  all_iff (p := fun t => ∀ u ∈ all, u.key <+: t.key → u = t) (by decide) t u (mem_all u) h

/-- A line begins with one tag. -/
theorem eq_of_prefix {t u : Tag} {l : Text} (ht : t.key <+: l) (hu : u.key <+: l) : u = t := by
  rcases List.prefix_or_prefix_of_prefix hu ht with h | h
  · exact eq_of_keys h
  · exact (eq_of_keys h).symm

end Tag

/-! ## One splice: the line of a tag is replaced -/

/-- `"%s=%s #" % (tag, val)`. -/
def spliced (t : Tag) (v : Text) : Text := t.key ++ (v ++ " #".toList)

/-- A line with as many `#` behind it as it takes to fill `n` characters. -/
def fill (line : Text) (n : Nat) : Text := line ++ List.replicate (n - line.length) '#'

/-- How mkshar ends without a shar. -/
inductive Failure where
  /-- `ValueError("cannot find tag %s" % repr(tag))` -/
  | noTag (t : Tag)
  /-- `SystemExit("cannot insert byte count marker")`; also when the tag's line does not end -/
  | noRoom
  /-- `zip` failed, a `CalledProcessError` -/
  | zip
  /-- `sz % 0`, a `ZeroDivisionError` -/
  | zeroDivision
  /-- `seek(-1, 0)`, an `IOError` -/
  | seek
  deriving DecidableEq

/-- `_splice(tag, val)`, on `buf`. -/
def splice (t : Tag) (v buf : Text) : Except Failure Text :=
  match find t.key buf with
  | none => .error (.noTag t)
  | some p =>
      match findFrom ['\n'] buf (p + 1) with
      | none => .error .noRoom
      | some q =>
          if q - p < (spliced t v).length then .error .noRoom
          else .ok (buf.take p ++ fill (spliced t v) (q - p) ++ buf.drop q)

/-- One splice after another. -/
def spliceAll : List (Tag × Text) → Text → Except Failure Text
  | [], buf => .ok buf
  | (t, v) :: rest, buf => (splice t v buf).bind (spliceAll rest)

/-- Two steps succeed one behind the other. -/
theorem bind_ok {α β : Type} {x : Except Failure α} {f : α → Except Failure β} {b : β}
    (h : x.bind f = .ok b) : ∃ a, x = .ok a ∧ f a = .ok b := by
  cases x with
  | error e => cases h
  | ok a => exact ⟨a, rfl, h⟩

/-- What a splice makes of a line. -/
def setLine (t : Tag) (v l : Text) : Text := if t.key <+: l then fill (spliced t v) l.length else l

/-- A tag is a field: one line begins with it, and the line ends. -/
def Field (t : Tag) (ls : List Text) : Prop :=
  ∃ pre l post, ls = pre ++ l :: post ∧ post ≠ [] ∧ t.key <+: l ∧
    (∀ m ∈ pre, ¬ t.key <+: m) ∧ ∀ m ∈ post, ¬ t.key <+: m

/-- The first line that has the tag begins with it. -/
def Lands (t : Tag) (ls : List Text) : Prop := ∀ l ∈ ls.find? (fun l => t.key <:+: l), t.key <+: l

instance (t : Tag) (ls : List Text) : Decidable (Lands t ls) :=
  inferInstanceAs (Decidable (∀ l ∈ ls.find? (fun l => t.key <:+: l), t.key <+: l))

/-- Every splice of a run finds its tag's line, in the text as the splices in front of it left it, and
    in the end the checksum's line is found. -/
def LandsAll : List (Tag × Text) → List Text → Prop
  | [], ls => Lands .checksum ls
  | (t, v) :: rest, ls => Lands t ls ∧ LandsAll rest (ls.map (setLine t v))

instance decidableLandsAll : ∀ (kvs : List (Tag × Text)) (ls : List Text), Decidable (LandsAll kvs ls)
  | [], ls => inferInstanceAs (Decidable (Lands .checksum ls))
  | (t, v) :: rest, ls => @instDecidableAnd _ _ _ (decidableLandsAll rest (ls.map (setLine t v)))

/-! ## Lines with a value, filled up with a comment -/

/-- A filled line is as long as asked for, where there is room. -/
theorem length_fill (line : Text) {n : Nat} (h : line.length ≤ n) : (fill line n).length = n := by
  rw [fill, List.length_append, List.length_replicate]
  omega

/-- How long a line is that gives a value to a tag. -/
theorem length_spliced (t : Tag) (v : Text) :
    (spliced t v).length = t.name.length + v.length + 3 := by
  rw [spliced, Tag.key, List.length_append, List.length_append, List.length_append,
    List.length_singleton]
  show _ + (_ + 2) = _
  omega

/-- Such a line, filled: the key, the value and a comment. -/
theorem fill_spliced (t : Tag) (v : Text) (n : Nat) : fill (spliced t v) n =
    t.key ++ (v ++ ' ' :: '#' :: List.replicate (n - (spliced t v).length) '#') := by
  rw [fill, spliced, List.append_assoc, List.append_assoc]
  rfl

/-- A filled line is one line where its value is. -/
theorem newline_not_mem_spliced {t : Tag} {v : Text} (hv : '\n' ∉ v) : '\n' ∉ spliced t v := by
  intro hmem
  rcases List.mem_append.mp hmem with h | hmem
  · exact t.newline_not_mem_key h
  rcases List.mem_append.mp hmem with h | h
  · exact hv h
  · exact absurd h (by decide)

/-- A filled line stays one line when it is filled up. -/
theorem newline_not_mem_fill {t : Tag} {v : Text} (hv : '\n' ∉ v) (n : Nat) :
    '\n' ∉ fill (spliced t v) n := by
  intro hmem
  rcases List.mem_append.mp hmem with h | h
  · exact newline_not_mem_spliced hv h
  · exact absurd (List.eq_of_mem_replicate h) (by decide)

/-- A filled line begins with its key. -/
theorem key_prefix_fill (t : Tag) (v : Text) (n : Nat) : t.key <+: fill (spliced t v) n := by
  rw [fill, spliced, List.append_assoc]
  exact List.prefix_append _ _

/-- The line of a tag is set. -/
theorem setLine_self {t : Tag} {v l : Text} (h : t.key <+: l) :
    setLine t v l = fill (spliced t v) l.length := if_pos h

/-- Every other line stays. -/
theorem setLine_other {t : Tag} {v l : Text} (h : ¬ t.key <+: l) : setLine t v l = l := if_neg h

/-- A line that begins with a tag after a splice began with it before. -/
theorem prefix_of_setLine {t u : Tag} {v l : Text} (h : u.key <+: setLine t v l) : u.key <+: l := by
  by_cases ht : t.key <+: l
  · rw [setLine_self ht] at h
    rwa [Tag.eq_of_prefix (key_prefix_fill t v _) h]
  · rwa [setLine_other ht] at h

/-- A splice of another tag leaves a tag's line alone. -/
theorem setLine_ne {t u : Tag} {v l : Text} (hne : u ≠ t) (h : u.key <+: l) : setLine t v l = l :=
  setLine_other fun ht => hne (Tag.eq_of_prefix ht h)

/-- Where no line is the tag's, all stay. -/
theorem map_setLine_of_not {t : Tag} {v : Text} {ls : List Text} (h : ∀ m ∈ ls, ¬ t.key <+: m) :
    ls.map (setLine t v) = ls := by
  have hsame : ∀ m ∈ ls, setLine t v m = id m := fun m hm => setLine_other (h m hm)
  rw [List.map_congr_left hsame, List.map_id]

/-- **A splice leaves every tag a field.** -/
theorem Field.setLine {t u : Tag} {v : Text} {ls : List Text} (h : Field u ls) :
    Field u (ls.map (setLine t v)) := by
  obtain ⟨pre, l, post, rfl, hpost, hl, hpre, hnot⟩ := h
  have hmap : ∀ {ms : List Text}, (∀ m ∈ ms, ¬ u.key <+: m) →
      ∀ m ∈ ms.map (Shar.setLine t v), ¬ u.key <+: m := by
    intro ms hms m hm
    obtain ⟨m₀, hm₀, rfl⟩ := List.mem_map.mp hm
    exact fun h => hms m₀ hm₀ (prefix_of_setLine h)
  refine ⟨pre.map (Shar.setLine t v), Shar.setLine t v l, post.map (Shar.setLine t v), ?_, ?_, ?_,
    hmap hpre, hmap hnot⟩
  · rw [List.map_append, List.map_cons]
  · exact fun h => hpost (List.map_eq_nil_iff.mp h)
  · by_cases hut : u = t
    · subst hut
      rw [setLine_self hl]
      exact key_prefix_fill u v _
    · rw [setLine_ne hut hl]
      exact hl

/-- A field has one line. -/
theorem Field.unique {t : Tag} {ls : List Text} (h : Field t ls) {l l' : Text} (hl : l ∈ ls)
    (hkey : t.key <+: l) (hl' : l' ∈ ls) (hkey' : t.key <+: l') : l = l' := by
  obtain ⟨pre, x, post, rfl, -, -, hpre, hnot⟩ := h
  have hx : ∀ m ∈ pre ++ x :: post, t.key <+: m → m = x := by
    intro m hm hmkey
    rcases List.mem_append.mp hm with hm | hm
    · exact absurd hmkey (hpre m hm)
    rcases List.mem_cons.mp hm with rfl | hm
    · rfl
    · exact absurd hmkey (hnot m hm)
  rw [hx l hl hkey, hx l' hl' hkey']

/-- In front of the line where a splice lands nothing has the tag. -/
theorem Lands.front {t : Tag} {pre post : List Text} {l : Text} (h : Lands t (pre ++ l :: post))
    (hpre : ∀ m ∈ pre, ¬ t.key <+: m) : ∀ m ∈ pre, ¬ t.key <:+: m := by
  intro m hm hin
  have hsome : (pre.find? fun l => t.key <:+: l).isSome = true :=
    List.find?_isSome.mpr ⟨m, hm, decide_eq_true hin⟩
  obtain ⟨m', hfind⟩ := Option.isSome_iff_exists.mp hsome
  have hfirst : (pre ++ l :: post).find? (fun l => t.key <:+: l) = some m' := by
    rw [List.find?_append, hfind]
    rfl
  exact hpre m' (List.mem_of_find?_eq_some hfind) (h m' hfirst)

/-! ## A splice on the text is one on its lines -/

/-- The first line that has the tag begins with it. -/
theorem find_field {t : Tag} {l rest : Text} {pre : List Text} (hl : t.key <+: l)
    (hpre : ∀ m ∈ pre, ¬ t.key <:+: m) :
    find t.key (unlines pre ++ (l ++ rest)) = some (unlines pre).length :=
  find_unlines t.newline_not_mem_key t.key_ne_nil (hl.trans (List.prefix_append _ _)) hpre

/-- The newline is looked for behind the first character of the line. -/
theorem find_end {t : Tag} {l : Text} (hl : t.key <+: l) (hnl : '\n' ∉ l) (u rest : Text) :
    findFrom ['\n'] (u ++ (l ++ '\n' :: rest)) (u.length + 1) = some (u.length + l.length) := by
  cases l with
  | nil => exact absurd (List.prefix_nil.mp hl) t.key_ne_nil
  | cons c l =>
      have hdrop : (u ++ (c :: l ++ '\n' :: rest)).drop (u.length + 1) = l ++ '\n' :: rest := by
        rw [List.drop_length_add_append]
        rfl
      rw [findFrom, hdrop, find_newline fun h => hnl (List.mem_cons_of_mem c h), Option.map_some,
        List.length_cons]
      congr 1
      omega

/-- What a splice finds of a field. -/
theorem splice_at {t : Tag} {v l rest : Text} {pre : List Text} (hl : t.key <+: l) (hnl : '\n' ∉ l)
    (hpre : ∀ m ∈ pre, ¬ t.key <:+: m) :
    splice t v (unlines pre ++ (l ++ '\n' :: rest)) =
      if l.length < (spliced t v).length then .error .noRoom
      else .ok (unlines pre ++ (fill (spliced t v) l.length ++ '\n' :: rest)) := by
  have hroom : (unlines pre).length + l.length - (unlines pre).length = l.length := by omega
  have htake : (unlines pre ++ (l ++ '\n' :: rest)).take (unlines pre).length = unlines pre :=
    List.take_left
  have hdrop : (unlines pre ++ (l ++ '\n' :: rest)).drop ((unlines pre).length + l.length) =
      '\n' :: rest := by
    rw [List.drop_length_add_append, List.drop_left]
  rw [splice, find_field hl hpre]
  show (match findFrom ['\n'] _ _ with | none => _ | some q => _) = _
  rw [find_end hl hnl]
  show (if _ - _ < _ then _ else _) = _
  rw [hroom, htake, hdrop, List.append_assoc]

/-- A field cuts a text in front of its line and behind it. -/
theorem Field.cut {t : Tag} {k : Text} (h : Field t (lines k)) :
    ∃ pre l rest, k = unlines pre ++ (l ++ '\n' :: rest) ∧ lines k = pre ++ l :: lines rest ∧
      t.key <+: l ∧ '\n' ∉ l ∧ (∀ m ∈ pre, ¬ t.key <+: m) ∧ (∀ m ∈ pre, '\n' ∉ m) ∧
      ∀ m ∈ lines rest, ¬ t.key <+: m := by
  obtain ⟨pre, l, post, hk, hpost, hl, hpre, hnot⟩ := h
  have hcut : lines k = (pre ++ [l]) ++ post := by rw [hk, List.append_assoc, List.singleton_append]
  obtain ⟨rest, hrest, hlines⟩ := unlines_of_lines hcut hpost
  have hnl : ∀ m ∈ lines k, '\n' ∉ m := fun m hm => not_mem_of_mem_lines hm
  subst hlines
  refine ⟨pre, l, rest, ?_, hk, hl, hnl l (hk ▸ List.mem_append_right pre List.mem_cons_self), hpre,
    fun m hm => hnl m (hk ▸ List.mem_append_left _ hm), hnot⟩
  rw [hrest, unlines_append, unlines_cons, List.append_assoc, List.append_assoc]
  rfl

/-- **One splice**: a field's line gets the value, and what stands behind the text stays. -/
theorem splice_lines {t : Tag} {v k e b : Text} (hf : Field t (lines k)) (hland : Lands t (lines k))
    (hv : '\n' ∉ v) (h : splice t v (k ++ e) = .ok b) :
    ∃ k', b = k' ++ e ∧ k'.length = k.length ∧ lines k' = (lines k).map (setLine t v) := by
  obtain ⟨pre, l, rest, hk, hlines, hl, hlnl, hpre, hprenl, hnot⟩ := hf.cut
  have hfront : ∀ m ∈ pre, ¬ t.key <:+: m := (hlines ▸ hland).front hpre
  have hsplit : k ++ e = unlines pre ++ (l ++ '\n' :: (rest ++ e)) := by
    rw [hk, List.append_assoc, List.append_assoc, List.cons_append]
  rw [hsplit, splice_at hl hlnl hfront] at h
  split at h
  · cases h
  · next hroom =>
      cases h
      refine ⟨unlines pre ++ (fill (spliced t v) l.length ++ '\n' :: rest), ?_, ?_, ?_⟩
      · rw [List.append_assoc, List.append_assoc, List.cons_append]
      · rw [hk, List.length_append, List.length_append, List.length_append, List.length_append,
          length_fill _ (by omega)]
      · rw [lines_unlines_append hprenl, lines_line (newline_not_mem_fill hv _), hlines,
          List.map_append, List.map_cons, setLine_self hl, map_setLine_of_not hnot,
          map_setLine_of_not hpre]

/-! ## A run of splices: every tag has its value in the end -/

/-- A tag's line has a value, in the room of the line that was there. -/
def Holds (t : Tag) (v : Text) (old ls : List Text) : Prop :=
  ∀ l ∈ ls, t.key <+: l → ∃ l₀ ∈ old, t.key <+: l₀ ∧ l = fill (spliced t v) l₀.length

/-- Behind the splice, the lines hold the value. -/
theorem holds_setLine (t : Tag) (v : Text) (ls : List Text) : Holds t v ls (ls.map (setLine t v)) := by
  intro l hl ht
  obtain ⟨m, hm, rfl⟩ := List.mem_map.mp hl
  exact ⟨m, hm, prefix_of_setLine ht, setLine_self (prefix_of_setLine ht)⟩

/-- The lines of another tag are those that were there. -/
theorem mem_of_setLine {t u : Tag} {v : Text} {ls : List Text} (hne : u ≠ t) :
    ∀ l ∈ ls.map (setLine t v), u.key <+: l → l ∈ ls := by
  intro l hl hu
  obtain ⟨m, hm, rfl⟩ := List.mem_map.mp hl
  rwa [setLine_ne hne (prefix_of_setLine hu)]

/-- A run of splices, each of a tag of its own, into a text whose tags are fields. -/
structure Run (kvs : List (Tag × Text)) (k k' : Text) : Prop where
  length : k'.length = k.length
  fields : ∀ t, Field t (lines k')
  found : Lands .checksum (lines k')
  /-- The lines of a tag that was spliced. -/
  holds : ∀ p ∈ kvs, Holds p.1 p.2 (lines k) (lines k')
  /-- The lines of a tag that was not. -/
  kept : ∀ t : Tag, t ∉ kvs.map Prod.fst → ∀ l ∈ lines k', t.key <+: l → l ∈ lines k

/-- **A run of splices.** -/
theorem spliceAll_run : ∀ {kvs : List (Tag × Text)} {k e b : Text},
    (kvs.map Prod.fst).Nodup → (∀ p ∈ kvs, '\n' ∉ p.2) → (∀ t, Field t (lines k)) →
    LandsAll kvs (lines k) → spliceAll kvs (k ++ e) = .ok b → ∃ k', b = k' ++ e ∧ Run kvs k k'
  | [], k, e, b, _, _, hf, hland, h => by
      cases h
      exact ⟨k, rfl, rfl, hf, hland, fun p hp => (by cases hp), fun _ _ l hl _ => hl⟩
  | (t, v) :: rest, k, e, b, hnd, hnl, hf, hland, h => by
      have hv : '\n' ∉ v := hnl (t, v) List.mem_cons_self
      rw [List.map_cons, List.nodup_cons] at hnd
      obtain ⟨b₁, hsplice, hrest⟩ := bind_ok h
      obtain ⟨k₁, rfl, hlen, hlines⟩ := splice_lines (hf t) hland.1 hv hsplice
      have hf₁ : ∀ u, Field u (lines k₁) := fun u => hlines ▸ (hf u).setLine
      obtain ⟨k', hb, hrun⟩ := spliceAll_run hnd.2
        (fun p hp => hnl p (List.mem_cons_of_mem _ hp)) hf₁ (hlines ▸ hland.2) hrest
      refine ⟨k', hb, hrun.length.trans hlen, hrun.fields, hrun.found, ?_, ?_⟩
      · intro p hp
        rcases List.mem_cons.mp hp with rfl | hp
        · intro l hl ht
          have hold := holds_setLine t v (lines k)
          rw [← hlines] at hold
          exact hold l (hrun.kept t hnd.1 l hl ht) ht
        · have hmem : p.1 ∈ rest.map Prod.fst := List.mem_map_of_mem hp
          have hne : p.1 ≠ t := fun h => hnd.1 (h ▸ hmem)
          intro l hl ht
          obtain ⟨l₀, hl₀, ht₀, hfill⟩ := hrun.holds p hp l hl ht
          rw [hlines] at hl₀
          exact ⟨l₀, mem_of_setLine hne l₀ hl₀ ht₀, ht₀, hfill⟩
      · intro u hu l hl hul
        rw [List.map_cons, List.mem_cons, not_or] at hu
        have hmem := hrun.kept u hu.2 l hl hul
        rw [hlines] at hmem
        exact mem_of_setLine hu.1 l hmem hul

end DentOS.Shar
