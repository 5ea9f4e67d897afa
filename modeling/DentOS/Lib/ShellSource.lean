/-
  What a POSIX shell makes of a file of assignments (`. file`).

  A line without quotes, expansions and operators is cut into words at its blanks.  If all of them are
  assignments they set the shell's variables; assignments in front of a command are the command's alone,
  and a command whose name has a slash is a program, which leaves the variables of the shell as they
  are.  Any other line is not modelled (`none`).

  `sourceLine_item` says what comes of a line `name=value`: the value, if it is one word, and nothing if
  more words follow.
-/
import DentOS.Lib.Dict
import DentOS.Lib.Lines
import DentOS.Lib.ShellWords
import DentOS.Lib.Words

namespace ShellSource

open PyText ShellWords

/-- The variables that are set. -/
abbrev Vars := Dict Text Text

/-- The name of a variable. -/
def IsName (k : Text) : Prop := k.head?.any nameStart = true ∧ k.all nameChar = true

instance (k : Text) : Decidable (IsName k) := inferInstanceAs (Decidable (_ ∧ _))

/-- What separates words on a line. -/
def blank (c : Char) : Bool := c = ' ' || c = '\t'

/-- A character that means itself, wherever in a word it stands. -/
def wordChar (c : Char) : Bool := plainChar c && !isSpace c && c ≠ '~'

/-- `name=value`. -/
def assignment (w : Text) : Option (Text × Text) :=
  let k := w.takeWhile (· ≠ '=')
  if '=' ∈ w ∧ IsName k then some (k, (w.dropWhile (· ≠ '=')).tail) else none

/-- The word is done as an assignment. -/
def assign (env : Vars) (w : Text) : Vars :=
  match assignment w with
  | some (k, v) => env.set k v
  | none => env

/-- The words of a line, up to a comment. -/
def runWords (env : Vars) (ws : List Text) : Option Vars :=
  let ws := ws.takeWhile fun w => w.head? ≠ some '#'
  match ws.dropWhile fun w => (assignment w).isSome with
  | [] => some (ws.foldl assign env)
  | command :: _ => if '/' ∈ command then some env else none

/-- A line: a comment, or words; none where the shell would do more. -/
def sourceLine (env : Vars) (l : Text) : Option Vars :=
  if (l.dropWhile blank).head? = some '#' then some env
  else if l.all (fun c => wordChar c || blank c) then runWords env (split l)
  else none

/-- `. file`. -/
def source (env : Vars) (t : Text) : Option Vars := (lines t).foldlM sourceLine env

/-! ## A line of one assignment -/

/-- A value whose words, behind the first, would be programs. -/
structure Plain (v : Text) : Prop where
  chars : v.all (fun c => wordChar c || blank c) = true
  stripped : strip v = v
  programs : ∀ p ∈ (split v).tail, '/' ∈ p ∧ '=' ∉ p ∧ p.head? ≠ some '#'

/-- A value without blanks is one word. -/
def OneWord (v : Text) : Prop := ∀ c ∈ v, isSpace c = false

instance (v : Text) : Decidable (OneWord v) := inferInstanceAs (Decidable (∀ c ∈ v, _))

section

variable {k v : Text}

/-- What may begin a name may go on in it. -/
theorem nameChar_of_nameStart {c : Char} (h : nameStart c = true) : nameChar c = true := by
  rw [nameStart, Bool.or_eq_true] at h
  rw [nameChar, Bool.or_eq_true, Char.isAlphanum, Bool.or_eq_true]
  rcases h with h | h
  · exact .inl (.inl h)
  · exact .inr h

/-- A name is not empty. -/
theorem IsName.ne_nil (h : IsName k) : k ≠ [] := by
  rintro rfl
  cases h.1

/-- The characters of a name mean themselves. -/
theorem wordChar_of_nameChar {c : Char} (h : nameChar c = true) : wordChar c = true ∧ c ≠ '=' := by
  have hne : ∀ d : Char, nameChar d = false → c ≠ d := by
    intro d hd heq
    rw [heq, hd] at h
    cases h
  have hspace : isSpace c = false := by
    simp only [isSpace, Bool.or_eq_false_iff, beq_eq_false_iff_ne]
    refine ⟨⟨⟨⟨⟨?_, ?_⟩, ?_⟩, ?_⟩, ?_⟩, ?_⟩ <;> exact hne _ (by decide)
  refine ⟨?_, hne '=' (by decide)⟩
  rw [wordChar, hspace, plainChar]
  simp only [List.mem_cons, List.not_mem_nil, or_false, Bool.not_false, Bool.and_true, Bool.and_eq_true,
    decide_eq_true_eq]
  refine ⟨?_, hne '~' (by decide)⟩
  rintro (h | h | h | h | h | h | h | h | h | h | h | h | h | h | h | h | h | h) <;>
    exact hne _ (by decide) h

/-- The letters of a word are no blanks. -/
theorem not_isSpace_of_wordChar {c : Char} (h : wordChar c = true) : isSpace c = false := by
  rw [wordChar, Bool.and_eq_true, Bool.and_eq_true] at h
  exact Bool.not_eq_true' _ ▸ h.1.2

/-- The letters of a name are letters of a word, and not `=`. -/
theorem IsName.chars (h : IsName k) : ∀ c ∈ k, wordChar c = true ∧ c ≠ '=' :=
  fun c hc => wordChar_of_nameChar (List.all_eq_true.mp h.2 c hc)

/-- The name is in front of the `=`. -/
theorem takeWhile_key (h : IsName k) (v : Text) : (k ++ '=' :: v).takeWhile (· ≠ '=') = k := by
  rw [List.takeWhile_append_of_pos fun c hc => decide_eq_true (h.chars c hc).2]
  exact List.append_nil k

/-- The value is behind the name. -/
theorem dropWhile_key (h : IsName k) (v : Text) : (k ++ '=' :: v).dropWhile (· ≠ '=') = '=' :: v := by
  rw [List.dropWhile_append_of_pos fun c hc => decide_eq_true (h.chars c hc).2]
  rfl

/-- `name=value` is an assignment. -/
theorem assignment_item (h : IsName k) (v : Text) : assignment (k ++ '=' :: v) = some (k, v) := by
  rw [assignment, takeWhile_key h, dropWhile_key h]
  exact if_pos ⟨List.mem_append_right k List.mem_cons_self, h⟩

/-- A text that `strip` leaves begins and ends with a letter. -/
theorem ends_of_strip (h : strip v = v) :
    (∀ c ∈ v.head?, isSpace c = false) ∧ ∀ c ∈ v.getLast?, isSpace c = false := by
  have hstrip : strip v = (v.dropWhile isSpace).rdropWhile isSpace := rfl
  have hpre : v <+: v.dropWhile isSpace := by
    have hp := List.rdropWhile_prefix isSpace (v.dropWhile isSpace)
    rwa [← hstrip, h] at hp
  have hdrop : v.dropWhile isSpace = v :=
    (hpre.eq_of_length_le (List.dropWhile_suffix isSpace).length_le).symm
  have hlast : v.rdropWhile isSpace = v := by
    rw [hstrip, hdrop] at h
    exact h
  constructor
  · intro c hc
    obtain ⟨cs, rfl⟩ : ∃ cs, v = c :: cs := by
      cases v with
      | nil => cases hc
      | cons d cs =>
          cases hc
          exact ⟨cs, rfl⟩
    have hnot := List.dropWhile_eq_self_iff.mp hdrop (by simp)
    simpa using hnot
  · intro c hc
    have hne : v ≠ [] := by
      rintro rfl
      cases hc
    have hnot := List.rdropWhile_eq_self_iff.mp hlast hne
    rw [List.getLast?_eq_some_getLast hne] at hc
    cases hc
    exact Bool.not_eq_true _ ▸ hnot

/-- A letter is in a word. -/
theorem splitFrom_ne_nil : ∀ {t word : Text}, (word ≠ [] ∨ ∃ c ∈ t, isSpace c = false) →
    splitFrom word t ≠ []
  | [], word, h => by
      rcases h with h | ⟨c, hc, -⟩
      · rw [splitFrom, if_neg h]
        exact List.cons_ne_nil _ _
      · cases hc
  | c :: t, word, h => by
      rw [splitFrom]
      by_cases hc : isSpace c = true
      · rw [if_pos hc]
        by_cases hw : word = []
        · rw [if_pos hw]
          refine splitFrom_ne_nil (.inr ?_)
          rcases h with h | ⟨d, hd, hspace⟩
          · exact absurd hw h
          · rcases List.mem_cons.mp hd with rfl | hd
            · rw [hc] at hspace
              cases hspace
            · exact ⟨d, hd, hspace⟩
        · rw [if_neg hw]
          exact List.cons_ne_nil _ _
      · rw [if_neg hc]
        exact splitFrom_ne_nil (.inl (by simp))

/-- A value of more words: the first, a blank, and what has the others. -/
theorem exists_words (hstrip : strip v = v) (h : ¬ OneWord v) :
    ∃ w c rest, v = w ++ c :: rest ∧ Word w ∧ isSpace c = true ∧ split rest ≠ [] := by
  obtain ⟨hfirst, hlast⟩ := ends_of_strip hstrip
  obtain ⟨d, hd, hspace⟩ : ∃ d ∈ v, isSpace d = true := by
    by_contra hnone
    refine h fun c hc => ?_
    by_contra hc'
    exact hnone ⟨c, hc, by simpa using hc'⟩
  have hsplit : v.takeWhile (fun c => !isSpace c) ++ v.dropWhile (fun c => !isSpace c) = v :=
    List.takeWhile_append_dropWhile
  rcases hdrop : v.dropWhile (fun c => !isSpace c) with _ | ⟨c, rest⟩
  · have hall := List.dropWhile_eq_nil_iff.mp hdrop d hd
    rw [hspace] at hall
    cases hall
  · rw [hdrop] at hsplit
    have hc : isSpace c = true := by
      have hnot := List.head_dropWhile_not (fun c => !isSpace c) (l := v) (by rw [hdrop]; simp)
      simp only [hdrop, List.head_cons, Bool.not_eq_false'] at hnot
      exact hnot
    refine ⟨_, c, rest, hsplit.symm, ⟨?_, fun e he => ?_⟩, hc, ?_⟩
    · intro hnil
      rw [hnil, List.nil_append] at hsplit
      have hhead := hfirst c (by rw [← hsplit]; rfl)
      rw [hc] at hhead
      cases hhead
    · simpa using List.mem_takeWhile_imp he
    · -- the last letter of the value is no blank
      refine splitFrom_ne_nil (.inr ?_)
      rcases List.eq_nil_or_concat rest with rfl | ⟨init, e, rfl⟩
      · have hend := hlast c (by rw [← hsplit, List.getLast?_append]; rfl)
        rw [hc] at hend
        cases hend
      · refine ⟨e, by simp, hlast e ?_⟩
        rw [← hsplit, List.getLast?_append, List.getLast?_cons, List.concat_eq_append,
          List.getLast?_concat]
        rfl

/-- An assignment begins as a name does. -/
theorem head_key (h : IsName k) (v : Text) : ∃ c cs, k ++ '=' :: v = c :: cs ∧ nameStart c = true := by
  obtain ⟨c, cs, rfl⟩ := List.exists_cons_of_ne_nil h.ne_nil
  have hc := h.1
  simp only [List.head?_cons, Option.any_some] at hc
  exact ⟨c, cs ++ '=' :: v, rfl, hc⟩

/-- An assignment is no comment. -/
theorem head_ne_hash (h : IsName k) (v : Text) : (k ++ '=' :: v).head? ≠ some '#' := by
  obtain ⟨c, cs, hl, hc⟩ := head_key h v
  rw [hl]
  intro heq
  cases heq
  exact absurd hc (by decide)

/-- A line with a plain value is done word by word. -/
theorem sourceLine_of_plain (h : IsName k) (hv : Plain v) (env : Vars) :
    sourceLine env (k ++ '=' :: v) = runWords env (split (k ++ '=' :: v)) := by
  have hdrop : (k ++ '=' :: v).dropWhile blank = k ++ '=' :: v := by
    obtain ⟨c, cs, hl, hc⟩ := head_key h v
    rw [hl, List.dropWhile_cons_of_neg]
    intro hblank
    rw [blank, Bool.or_eq_true, decide_eq_true_eq, decide_eq_true_eq] at hblank
    rcases hblank with rfl | rfl <;> exact absurd hc (by decide)
  have hall : (k ++ '=' :: v).all (fun c => wordChar c || blank c) = true := by
    rw [List.all_append, Bool.and_eq_true, List.all_cons, hv.chars]
    refine ⟨List.all_eq_true.mpr fun c hc => ?_, by decide⟩
    rw [(h.chars c hc).1, Bool.true_or]
  rw [sourceLine, hdrop, if_neg (head_ne_hash h v), if_pos hall]

/-- **A line `name=value`**: it sets the variable, if the value is one word. -/
theorem sourceLine_item (h : IsName k) (hv : Plain v) (env : Vars) :
    sourceLine env (k ++ '=' :: v) = some (if OneWord v then env.set k v else env) := by
  rw [sourceLine_of_plain h hv]
  have hkey : ∀ c ∈ k ++ ['='], isSpace c = false := by
    intro c hc
    rcases List.mem_append.mp hc with hc | hc
    · exact not_isSpace_of_wordChar (h.chars c hc).1
    · rw [List.mem_singleton.mp hc]
      decide
  by_cases hone : OneWord v
  · have hword : Word (k ++ '=' :: v) := by
      refine ⟨List.append_ne_nil_of_right_ne_nil k (List.cons_ne_nil _ _), fun c hc => ?_⟩
      rcases List.mem_append.mp hc with hc | hc
      · exact hkey c (List.mem_append_left _ hc)
      · rcases List.mem_cons.mp hc with rfl | hc
        · decide
        · exact hone c hc
    have htake : [k ++ '=' :: v].takeWhile (fun w => decide (w.head? ≠ some '#')) = [k ++ '=' :: v] := by
      refine List.takeWhile_eq_self_iff.mpr fun u hu => ?_
      rw [List.mem_singleton.mp hu]
      exact decide_eq_true (head_ne_hash h v)
    rw [split_of_word hword, if_pos hone, runWords, htake, List.dropWhile_cons_of_pos
      (by rw [assignment_item h]; rfl), List.dropWhile_nil]
    show some (assign env (k ++ '=' :: v)) = _
    rw [assign, assignment_item h]
  · obtain ⟨w, c, rest, hvw, hw, hc, hrest⟩ := exists_words hv.stripped hone
    have hfirst : Word (k ++ '=' :: w) := by
      refine ⟨List.append_ne_nil_of_right_ne_nil k (List.cons_ne_nil _ _), fun d hd => ?_⟩
      rcases List.mem_append.mp hd with hd | hd
      · exact hkey d (List.mem_append_left _ hd)
      · rcases List.mem_cons.mp hd with rfl | hd
        · decide
        · exact hw.2 d hd
    have hline : k ++ '=' :: v = (k ++ '=' :: w) ++ c :: rest := by
      rw [hvw, List.append_assoc, List.cons_append]
    have hprograms : ∀ p ∈ split rest, '/' ∈ p ∧ '=' ∉ p ∧ p.head? ≠ some '#' := by
      have htail := hv.programs
      rw [hvw, split_word hw.2 hw.1 hc] at htail
      exact htail
    rw [hline, split_word hfirst.2 hfirst.1 hc, if_neg hone]
    -- the words behind the first are a command and its arguments
    obtain ⟨p, ps, hps⟩ := List.exists_cons_of_ne_nil hrest
    rw [hps] at hprograms ⊢
    have htake : ((k ++ '=' :: w) :: p :: ps).takeWhile (fun w => decide (w.head? ≠ some '#'))
        = (k ++ '=' :: w) :: p :: ps := by
      refine List.takeWhile_eq_self_iff.mpr fun u hu => ?_
      rcases List.mem_cons.mp hu with rfl | hu
      · exact decide_eq_true (head_ne_hash h w)
      · exact decide_eq_true (hprograms u hu).2.2
    obtain ⟨hslash, heq, -⟩ := hprograms p List.mem_cons_self
    have hnone : assignment p = none := if_neg fun hboth => heq hboth.1
    rw [runWords, htake, List.dropWhile_cons_of_pos (by rw [assignment_item h]; rfl),
      List.dropWhile_cons_of_neg (by rw [hnone]; decide)]
    exact if_pos hslash

end

/-! ## A file of such lines -/

/-- `name=value`. -/
def line (item : Text × Text) : Text := item.1 ++ '=' :: item.2

/-- A value of one word is set; with several words the shell sets nothing here, and runs a command. -/
def setItem (env : Vars) (item : Text × Text) : Vars :=
  if OneWord item.2 then env.set item.1 item.2 else env

/-- The items of such a file. -/
def Sourced (items : List (Text × Text)) : Prop := ∀ item ∈ items, IsName item.1 ∧ Plain item.2

section

variable {items : List (Text × Text)}

/-- A plain value is on one line. -/
theorem Plain.no_newline {v : Text} (h : Plain v) : '\n' ∉ v := by
  intro hmem
  have hchar := List.all_eq_true.mp h.chars '\n' hmem
  exact absurd hchar (by decide)

/-- A name is on one line. -/
theorem IsName.no_newline {k : Text} (h : IsName k) : '\n' ∉ k :=
  fun hmem => absurd (h.chars '\n' hmem).1 (by decide)

/-- **A file of items** is sourced item by item. -/
theorem source_items (h : Sourced items) (env : Vars) :
    source env (unlines (items.map line)) = some (items.foldl setItem env) := by
  have hfold : ∀ (items : List (Text × Text)) (env : Vars), Sourced items →
      (lines (unlines (items.map line))).foldlM sourceLine env = some (items.foldl setItem env) := by
    intro items
    induction items with
    | nil => exact fun env _ => rfl
    | cons item items ih =>
        intro env hall
        obtain ⟨hname, hplain⟩ := hall item List.mem_cons_self
        have hnl : '\n' ∉ line item := by
          intro hmem
          rcases List.mem_append.mp hmem with hmem | hmem
          · exact hname.no_newline hmem
          · rcases List.mem_cons.mp hmem with hmem | hmem
            · cases hmem
            · exact hplain.no_newline hmem
        rw [List.map_cons, unlines_cons, lines_line hnl, List.foldlM_cons, List.foldl_cons]
        show (sourceLine env (item.1 ++ '=' :: item.2) >>= _) = _
        rw [sourceLine_item hname hplain]
        exact ih _ fun i hi => hall i (List.mem_cons_of_mem item hi)
  exact hfold items env h

/-- A name that is there once has its value, if it is one word, and else what it had. -/
theorem foldl_setItem {k v : Text} : ∀ {items : List (Text × Text)} {env : Vars},
    (items.map Prod.fst).Nodup → (k, v) ∈ items →
    items.foldl setItem env k = if OneWord v then some v else env k := by
  intro items
  have hother : ∀ (items : List (Text × Text)) (env : Vars), k ∉ items.map Prod.fst →
      items.foldl setItem env k = env k := by
    intro items
    induction items with
    | nil => exact fun env _ => rfl
    | cons item items ih =>
        intro env hk
        rw [List.map_cons, List.mem_cons, not_or] at hk
        rw [List.foldl_cons, ih _ hk.2, setItem]
        split
        · exact Dict.set_of_ne env hk.1 item.2
        · rfl
  induction items with
  | nil => exact fun _ hmem => absurd hmem List.not_mem_nil
  | cons item items ih =>
      intro env hnodup hmem
      rw [List.map_cons, List.nodup_cons] at hnodup
      rcases List.mem_cons.mp hmem with rfl | hmem
      · rw [List.foldl_cons, hother items _ hnodup.1, setItem]
        split
        · exact Dict.set_self env k v
        · rfl
      · have hne : k ≠ item.1 := fun heq => hnodup.1 (heq ▸ List.mem_map_of_mem hmem)
        rw [List.foldl_cons, ih hnodup.2 hmem, setItem]
        split
        · rfl
        · split
          · exact Dict.set_of_ne env hne item.2
          · rfl

end

end ShellSource
