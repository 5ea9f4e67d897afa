/-
  A text as its lines.

  `lines` is `text.split('\n')`: the pieces between the newlines, so that a text which ends with a
  newline has an empty last piece.  A line and a newline in front of a text come out as that line in
  front of the others (`lines_line`), and no line has a newline in it (`not_mem_of_mem_lines`).
  `splitlines` and `xreadlines` cut behind each line break instead; lines written with a newline each
  come out of both (`splitlines_unlines`, `xreadlines_unlines`).

  `find` is `text.find(pattern)`.  A pattern without a newline is found in the first line that has it,
  so that the lines in front of one that begins with it are skipped (`find_unlines`).
-/
import DentOS.Lib.Words

namespace PyText

/-- `text.split('\n')`. -/
def lines (t : Text) : List Text := t.splitOn '\n'

/-- There is a line at least, if an empty one. -/
theorem lines_ne_nil (t : Text) : lines t ≠ [] := List.splitOn_ne_nil '\n' t

/-- The lines with a newline between any two. -/
theorem intercalate_lines (t : Text) : ['\n'].intercalate (lines t) = t :=
  List.intercalate_splitOn '\n'

/-- A text without a newline is one line. -/
theorem lines_of_not_mem {t : Text} (h : '\n' ∉ t) : lines t = [t] := List.splitOn_eq_singleton h

/-- The lines on both sides of a newline. -/
theorem lines_append_newline (t u : Text) : lines (t ++ '\n' :: u) = lines t ++ lines u :=
  List.splitOn_append_cons_self t u

/-- The first line comes out first. -/
theorem lines_line {l : Text} (h : '\n' ∉ l) (t : Text) : lines (l ++ '\n' :: t) = l :: lines t := by
  rw [lines_append_newline, lines_of_not_mem h]
  rfl

/-- No newline is in a line. -/
theorem not_mem_of_mem_lines {t l : Text} (h : l ∈ lines t) : '\n' ∉ l := not_mem_of_mem_splitOn h

/-- Lines, each with its newline. -/
def unlines (ls : List Text) : Text := ls.flatMap (· ++ ['\n'])

/-- One line, and the others behind its newline. -/
theorem unlines_cons (l : Text) (ls : List Text) : unlines (l :: ls) = l ++ '\n' :: unlines ls := by
  rw [unlines, List.flatMap_cons, List.append_assoc]
  rfl

/-- The text of two lists of lines. -/
theorem unlines_append (ls ls' : List Text) : unlines (ls ++ ls') = unlines ls ++ unlines ls' :=
  List.flatMap_append

/-- Lines in front of a text come out in front of its own. -/
theorem lines_unlines_append : ∀ {ls : List Text}, (∀ l ∈ ls, '\n' ∉ l) → ∀ t,
    lines (unlines ls ++ t) = ls ++ lines t
  | [], _, _ => rfl
  | l :: ls, h, t => by
      rw [unlines_cons, List.append_assoc, List.cons_append,
        lines_line (h l List.mem_cons_self), List.cons_append,
        lines_unlines_append (fun l' hl' => h l' (List.mem_cons_of_mem l hl'))]

/-- A text is cut in front of any line but the first. -/
theorem unlines_of_lines : ∀ {pre : List Text} {post : List Text} {t : Text},
    lines t = pre ++ post → post ≠ [] → ∃ u, t = unlines pre ++ u ∧ lines u = post
  | [], _, t, h, _ => ⟨t, rfl, h⟩
  | l :: pre, post, t, h, hpost => by
      have hjoin : ['\n'].intercalate (l :: (pre ++ post)) = t := by
        rw [← List.cons_append, ← h]
        exact intercalate_lines t
      obtain ⟨m, ms, hms⟩ := List.exists_cons_of_ne_nil (List.append_ne_nil_of_right_ne_nil pre hpost)
      have hsplit : t = l ++ '\n' :: ['\n'].intercalate (pre ++ post) := by
        rw [← hjoin, hms, List.intercalate_cons_cons]
        exact List.append_assoc l ['\n'] _
      have hl : '\n' ∉ l := not_mem_of_mem_lines (t := t) (by rw [h]; exact List.mem_cons_self)
      have hrest : lines (['\n'].intercalate (pre ++ post)) = pre ++ post := by
        rw [hsplit, lines_line hl] at h
        exact (List.cons.inj h).2
      obtain ⟨u, hu, hlines⟩ := unlines_of_lines hrest hpost
      refine ⟨u, ?_, hlines⟩
      rw [hsplit, hu, unlines_cons, List.append_assoc, List.cons_append]

/-- What stands behind a text continues its last line. -/
theorem lines_append_of_not_mem {t w : Text} {init : List Text} {x : Text}
    (h : lines t = init ++ [x]) (hw : '\n' ∉ w) : lines (t ++ w) = init ++ [x ++ w] := by
  obtain ⟨u, hu, hlines⟩ := unlines_of_lines h (List.cons_ne_nil x [])
  have hx : u = x := by
    have hjoin := intercalate_lines u
    rw [hlines, List.intercalate_singleton] at hjoin
    exact hjoin.symm
  have hinit : ∀ l ∈ init, '\n' ∉ l := fun l hl =>
    not_mem_of_mem_lines (h ▸ List.mem_append_left [x] hl)
  have hnot : '\n' ∉ x ++ w := by
    intro hmem
    rcases List.mem_append.mp hmem with hmem | hmem
    · exact not_mem_of_mem_lines (h ▸ List.mem_append_right init (List.mem_singleton_self x)) hmem
    · exact hw hmem
  rw [hu, hx, List.append_assoc, lines_unlines_append hinit, lines_of_not_mem hnot]

/-- Two texts in a row: the last line of the first and the first line of the second are one. -/
theorem lines_append {t u : Text} {init zs : List Text} {y z : Text} (ht : lines t = init ++ [y])
    (hu : lines u = z :: zs) : lines (t ++ u) = init ++ (y ++ z) :: zs := by
  have hz : '\n' ∉ z := not_mem_of_mem_lines (t := u) (by rw [hu]; exact List.mem_cons_self)
  cases zs with
  | nil =>
      have hjoin := intercalate_lines u
      rw [hu, List.intercalate_singleton] at hjoin
      rw [← hjoin]
      exact lines_append_of_not_mem ht hz
  | cons z' zs =>
      have hcut : lines u = [z] ++ z' :: zs := hu
      obtain ⟨v, hv, hlines⟩ := unlines_of_lines hcut (List.cons_ne_nil z' zs)
      have hone : unlines [z] = z ++ ['\n'] := unlines_cons z []
      have hsplit : t ++ u = (t ++ z) ++ '\n' :: v := by
        rw [hv, hone, List.append_assoc, List.append_assoc]
        rfl
      rw [hsplit, lines_append_newline, lines_append_of_not_mem ht hz, hlines, List.append_assoc]
      rfl

/-- The first line stands first. -/
theorem prefix_of_lines {t l : Text} {ls : List Text} (h : lines t = l :: ls) : l <+: t := by
  have hjoin := intercalate_lines t
  rw [h] at hjoin
  cases ls with
  | nil =>
      rw [List.intercalate_singleton] at hjoin
      exact hjoin ▸ List.prefix_refl l
  | cons m ls =>
      rw [List.intercalate_cons_cons, List.append_assoc] at hjoin
      exact hjoin ▸ List.prefix_append l _

/-- A line is a part of the text. -/
theorem infix_of_mem_lines {t l : Text} (h : l ∈ lines t) : l <:+: t := by
  obtain ⟨pre, post, hsplit⟩ := List.append_of_mem h
  obtain ⟨u, hu, hlines⟩ := unlines_of_lines hsplit (List.cons_ne_nil l post)
  exact hu ▸ (prefix_of_lines hlines).isInfix.trans (List.suffix_append _ u).isInfix

/-! ## Lines with their breaks -/

/-- The lines of a text, with the letters `line` of the first read already. -/
def splitlinesFrom : Text → Text → List Text
  | line, [] => if line = [] then [] else [line]
  | line, '\r' :: '\n' :: cs => line :: splitlinesFrom [] cs
  | line, c :: cs =>
      if c = '\n' ∨ c = '\r' then line :: splitlinesFrom [] cs else splitlinesFrom (line ++ [c]) cs

/-- `text.splitlines()`. -/
def splitlines (t : Text) : List Text := splitlinesFrom [] t

/-- The lines of a file, with the letters `line` of the first read already. -/
def xreadlinesFrom : Text → Text → List Text
  | line, [] => if line = [] then [] else [line]
  | line, c :: cs =>
      if c = '\n' then (line ++ [c]) :: xreadlinesFrom [] cs else xreadlinesFrom (line ++ [c]) cs

/-- `file.xreadlines()`: a line keeps its newline. -/
def xreadlines (t : Text) : List Text := xreadlinesFrom [] t

/-- No line break. -/
def OneLine (t : Text) : Prop := '\n' ∉ t ∧ '\r' ∉ t

instance (t : Text) : Decidable (OneLine t) := inferInstanceAs (Decidable (_ ∧ _))

/-- What is on one line is so from each of its letters on. -/
theorem OneLine.of_cons {c : Char} {t : Text} (h : OneLine (c :: t)) : (c ≠ '\n' ∧ c ≠ '\r') ∧ OneLine t := by
  have hn := List.ne_and_not_mem_of_not_mem_cons h.1
  have hr := List.ne_and_not_mem_of_not_mem_cons h.2
  exact ⟨⟨hn.1.symm, hr.1.symm⟩, hn.2, hr.2⟩

/-- Two texts on one line. -/
theorem OneLine.append {t u : Text} (ht : OneLine t) (hu : OneLine u) : OneLine (t ++ u) := by
  refine ⟨fun h => ?_, fun h => ?_⟩
  · exact (List.mem_append.mp h).elim ht.1 hu.1
  · exact (List.mem_append.mp h).elim ht.2 hu.2

/-- `splitlines` takes one line off the front, by induction on the line. -/
theorem splitlinesFrom_line : ∀ {l : Text}, OneLine l → ∀ line t,
    splitlinesFrom line (l ++ '\n' :: t) = (line ++ l) :: splitlinesFrom [] t
  | [], _, line, t => by
      rw [List.nil_append, List.append_nil, splitlinesFrom, if_pos (Or.inl rfl)]
      exact fun _ h => absurd h (by decide)
  | c :: l, h, line, t => by
      obtain ⟨hc, hl⟩ := h.of_cons
      rw [List.cons_append, splitlinesFrom, if_neg (not_or.mpr hc), splitlinesFrom_line hl,
        List.append_assoc]
      · rfl
      · exact fun _ heq => absurd heq hc.2

/-- `xreadlines` takes one line off the front, with its newline. -/
theorem xreadlinesFrom_line : ∀ {l : Text}, '\n' ∉ l → ∀ line t,
    xreadlinesFrom line (l ++ '\n' :: t) = (line ++ l ++ ['\n']) :: xreadlinesFrom [] t
  | [], _, line, t => by
      rw [List.nil_append, List.append_nil, xreadlinesFrom, if_pos rfl]
  | c :: l, h, line, t => by
      have hc := List.ne_and_not_mem_of_not_mem_cons h
      rw [List.cons_append, xreadlinesFrom, if_neg hc.1.symm, xreadlinesFrom_line hc.2]
      simp only [List.append_assoc, List.singleton_append]

/-- **Lines are split as they were joined.** -/
theorem splitlines_unlines : ∀ {ls : List Text}, (∀ l ∈ ls, OneLine l) → splitlines (unlines ls) = ls
  | [], _ => rfl
  | l :: ls, h => by
      have ih := splitlines_unlines fun l' hl' => h l' (List.mem_cons_of_mem l hl')
      rw [splitlines] at ih
      rw [unlines_cons, splitlines, splitlinesFrom_line (h l List.mem_cons_self), ih]
      rfl

/-- **Lines are read as they were joined**, each with its newline. -/
theorem xreadlines_unlines : ∀ {ls : List Text}, (∀ l ∈ ls, '\n' ∉ l) →
    xreadlines (unlines ls) = ls.map (· ++ ['\n'])
  | [], _ => rfl
  | l :: ls, h => by
      have ih := xreadlines_unlines fun l' hl' => h l' (List.mem_cons_of_mem l hl')
      rw [xreadlines] at ih
      rw [unlines_cons, xreadlines, xreadlinesFrom_line (h l List.mem_cons_self), ih]
      rfl

/-! ## Searching a list of lines -/

/-- `text.find(pattern)`. -/
def find (pat : Text) : Text → Option Nat
  | [] => if pat = [] then some 0 else none
  | c :: t => if pat <+: c :: t then some 0 else (find pat t).map (· + 1)

/-- `text.find(pattern, start)`. -/
def findFrom (pat t : Text) (start : Nat) : Option Nat :=
  (find pat (t.drop start)).map (· + start)

/-- A text that begins with the pattern has it at 0. -/
theorem find_of_prefix {pat t : Text} (h : pat <+: t) : find pat t = some 0 := by
  cases t with
  | nil => exact if_pos (List.prefix_nil.mp h)
  | cons c t => exact if_pos h

/-- A pattern without a newline begins in the line or behind it. -/
theorem prefix_line {pat l t : Text} (hpat : '\n' ∉ pat) (h : pat <+: l ++ '\n' :: t) : pat <+: l := by
  rcases List.prefix_or_prefix_of_prefix h (List.prefix_append l _) with hl | ⟨w, hw⟩
  · exact hl
  · obtain ⟨s, hs⟩ := h
    rw [← hw, List.append_assoc] at hs
    cases w with
    | nil =>
        exact ⟨[], by rw [List.append_nil, ← hw, List.append_nil]⟩
    | cons c w =>
        have hc : c = '\n' := (List.cons.inj (List.append_cancel_left hs)).1
        exact absurd (hw ▸ List.mem_append_right l (hc ▸ List.mem_cons_self)) hpat

/-- A line without the pattern is skipped. -/
theorem find_line {pat t : Text} (hpat : '\n' ∉ pat) (hne : pat ≠ []) : ∀ {l : Text},
    ¬ pat <:+: l → find pat (l ++ '\n' :: t) = (find pat t).map (· + (l.length + 1))
  | [], _ => by
      refine if_neg fun h => hne ?_
      exact List.prefix_nil.mp (prefix_line hpat h)
  | c :: l, h => by
      have hnot : ¬ pat <+: c :: l := fun h' => h h'.isInfix
      have hih := find_line (t := t) hpat hne fun h' => h (h'.trans (List.suffix_cons c l).isInfix)
      have hstep : ¬ pat <+: c :: (l ++ '\n' :: t) := fun h' => hnot (prefix_line hpat h')
      rw [List.cons_append, find, if_neg hstep, hih, Option.map_map]
      rfl

/-- **The first line that has the pattern begins with it.** -/
theorem find_unlines {pat t : Text} (hpat : '\n' ∉ pat) (hne : pat ≠ []) (h : pat <+: t) :
    ∀ {ls : List Text}, (∀ l ∈ ls, ¬ pat <:+: l) →
      find pat (unlines ls ++ t) = some (unlines ls).length
  | [], _ => find_of_prefix h
  | l :: ls, hls => by
      have hih := find_unlines hpat hne h fun l' hl' => hls l' (List.mem_cons_of_mem l hl')
      rw [unlines_cons, List.append_assoc, List.cons_append,
        find_line hpat hne (hls l List.mem_cons_self), hih, Option.map_some, List.length_append,
        List.length_cons]
      congr 1
      omega

/-- The end of a line. -/
theorem find_newline {l t : Text} (h : '\n' ∉ l) : find ['\n'] (l ++ '\n' :: t) = some l.length := by
  induction l with
  | nil => exact find_of_prefix (List.prefix_append ['\n'] t)
  | cons c l ih =>
      have hc : ¬ ['\n'] <+: c :: (l ++ '\n' :: t) := by
        intro hp
        exact h ((List.cons_prefix_cons.mp hp).1 ▸ List.mem_cons_self)
      rw [List.cons_append, find, if_neg hc, ih fun hl => h (List.mem_cons_of_mem c hl)]
      rfl

/-! ## Patterns that end in a character -/

/-- A character that the rest does not have ends the pattern in front of the rest. -/
theorem infix_of_infix_append {w a b : Text} {c : Char} (h : w ++ [c] <:+: a ++ b) (hc : c ∉ b) :
    w ++ [c] <:+: a := by
  obtain ⟨x, y, hxy⟩ := h
  rcases List.append_eq_append_iff.mp hxy with ⟨z, ha, -⟩ | ⟨z, hz, hb⟩
  · exact ⟨x, z, ha.symm⟩
  · cases hlast : z.getLast? with
    | none =>
        rw [List.getLast?_eq_none_iff.mp hlast, List.append_nil] at hz
        exact ⟨x, [], by rw [List.append_nil, hz]⟩
    | some d =>
        have hd : d = c := by
          have hend : (x ++ (w ++ [c])).getLast? = some c := by
            rw [← List.append_assoc, List.getLast?_append, List.getLast?_singleton]
            rfl
          rw [hz, List.getLast?_append, hlast] at hend
          exact Option.some.inj hend
        have hmem : d ∈ b := hb ▸ List.mem_append_left y (List.mem_of_getLast? hlast)
        exact absurd (hd ▸ hmem) hc

end PyText
