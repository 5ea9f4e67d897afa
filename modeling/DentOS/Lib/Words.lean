/-
  The pieces of a text: what `split` and `splitOn` leave, letter by letter.

  `text.split()` gives words: they have no blanks and are not empty (`word_of_mem_split`), a word comes
  out as itself (`split_of_word`), and a blank between two texts takes them apart (`split_blank`).
  `text.split(sep)` gives pieces without the separator (`not_mem_of_mem_splitOn`), which have every
  other letter of the text (`mem_piece`).
-/
import DentOS.Lib.PyText

namespace PyText

/-! ## Words -/

/-- A word: letters, none of them a blank. -/
def Word (t : Text) : Prop := t ≠ [] ∧ ∀ c ∈ t, isSpace c = false

/-- A blank ends a word. -/
theorem splitFrom_append (sp : Char) (hsp : isSpace sp = true) (u : Text) : ∀ (t word : Text),
    splitFrom word (t ++ sp :: u) = splitFrom word t ++ split u
  | [], word => by
      have hblank : splitFrom word (sp :: u) = if word = [] then split u else word :: split u := by
        rw [splitFrom, if_pos hsp]
        rfl
      rw [List.nil_append, hblank, splitFrom]
      split <;> rfl
  | c :: t, word => by
      rw [List.cons_append, splitFrom, splitFrom]
      split
      · split
        · exact splitFrom_append sp hsp u t []
        · rw [splitFrom_append sp hsp u t [], List.cons_append]
      · exact splitFrom_append sp hsp u t (word ++ [c])

/-- **A blank takes a text apart.** -/
theorem split_blank (t u : Text) : split (t ++ ' ' :: u) = split t ++ split u :=
  splitFrom_append ' ' (by decide) u t []

/-- `" ".join(ts)` has the words of its parts. -/
theorem split_join : ∀ ts : List Text, split ([' '].intercalate ts) = ts.flatMap split
  | [] => rfl
  | [t] => by rw [List.intercalate_singleton, List.flatMap_singleton]
  | t :: t' :: ts => by
      rw [List.intercalate_cons_cons, List.append_assoc, List.singleton_append, split_blank,
        split_join (t' :: ts), ← List.flatMap_cons]

/-- What is split off is a word. -/
theorem word_of_mem_splitFrom : ∀ {t word w : Text}, (∀ c ∈ word, isSpace c = false) →
    w ∈ splitFrom word t → Word w
  | [], word, w, hword, hw => by
      rw [splitFrom] at hw
      split at hw
      · exact absurd hw List.not_mem_nil
      · next hne =>
          rw [List.mem_singleton.mp hw]
          exact ⟨hne, hword⟩
  | c :: t, word, w, hword, hw => by
      have hnil : ∀ c ∈ ([] : Text), isSpace c = false := fun _ h => absurd h List.not_mem_nil
      rw [splitFrom] at hw
      split at hw
      · split at hw
        · exact word_of_mem_splitFrom hnil hw
        · next hne =>
            rcases List.mem_cons.mp hw with rfl | hw
            · exact ⟨hne, hword⟩
            · exact word_of_mem_splitFrom hnil hw
      · next hc =>
          refine word_of_mem_splitFrom (fun d hd => ?_) hw
          rcases List.mem_append.mp hd with hd | hd
          · exact hword d hd
          · rw [List.mem_singleton.mp hd]
            exact Bool.not_eq_true _ ▸ hc

/-- What is split off is a word. -/
theorem word_of_mem_split {t w : Text} (h : w ∈ split t) : Word w :=
  word_of_mem_splitFrom (fun _ hc => absurd hc List.not_mem_nil) h

/-- **A word is one word.** -/
theorem split_of_word {t : Text} (h : Word t) : split t = [t] := by
  have hrun := splitFrom_word t h.2 [] []
  rw [List.append_nil, List.nil_append] at hrun
  rw [split, hrun, splitFrom, if_neg h.1]

/-- A text is its own only word exactly when it is one. -/
theorem split_eq_self_iff {t : Text} : split t = [t] ↔ Word t :=
  ⟨fun h => word_of_mem_split (h ▸ List.mem_singleton_self t), split_of_word⟩

/-- Letters may be changed before or behind the split, if blanks stay blanks. -/
theorem splitFrom_map {f : Char → Char} (hf : ∀ c, isSpace (f c) = isSpace c) : ∀ t word : Text,
    splitFrom (word.map f) (t.map f) = (splitFrom word t).map (List.map f)
  | [], word => by
      rw [List.map_nil, splitFrom, splitFrom]
      by_cases h : word = []
      · rw [if_pos h, if_pos (by rw [h]; rfl)]
        rfl
      · rw [if_neg h, if_neg fun heq => h (List.map_eq_nil_iff.mp heq)]
        rfl
  | c :: t, word => by
      rw [List.map_cons, splitFrom, splitFrom, hf c]
      have hnil := splitFrom_map hf t []
      split
      · by_cases h : word = []
        · rw [if_pos h, if_pos (by rw [h]; rfl)]
          exact hnil
        · rw [if_neg h, if_neg fun heq => h (List.map_eq_nil_iff.mp heq)]
          exact congrArg (List.cons (word.map f)) hnil
      · have hrun := splitFrom_map hf t (word ++ [c])
        rw [List.map_append] at hrun
        exact hrun

/-- Letters that are changed in place, blanks to blanks and others to others, leave the words. -/
theorem split_map {f : Char → Char} (hf : ∀ c, isSpace (f c) = isSpace c) (t : Text) :
    split (t.map f) = (split t).map (List.map f) := splitFrom_map hf t []

/-- A word stays one. -/
theorem word_map {f : Char → Char} (hf : ∀ c, isSpace (f c) = isSpace c) {t : Text} :
    Word (t.map f) ↔ Word t := by
  constructor
  · rintro ⟨hne, hchars⟩
    refine ⟨fun h => hne (by rw [h]; rfl), fun c hc => ?_⟩
    rw [← hf c]
    exact hchars _ (List.mem_map_of_mem hc)
  · rintro ⟨hne, hchars⟩
    refine ⟨fun h => hne (List.map_eq_nil_iff.mp h), fun c hc => ?_⟩
    obtain ⟨d, hd, rfl⟩ := List.mem_map.mp hc
    rw [hf d]
    exact hchars d hd

/-! ## Pieces -/

/-- One letter more in front. -/
theorem splitOn_cons (sep c : Char) (t : Text) : ∃ head rest, t.splitOn sep = head :: rest ∧
    (c :: t).splitOn sep = if c = sep then [] :: head :: rest else (c :: head) :: rest := by
  rcases hsplit : t.splitOn sep with _ | ⟨head, rest⟩
  · exact absurd hsplit (List.splitOn_ne_nil sep t)
  · refine ⟨head, rest, rfl, ?_⟩
    rw [List.splitOn_cons_eq_if_modifyHead, hsplit]
    by_cases hc : c = sep
    · rw [if_pos hc, if_pos (beq_iff_eq.mpr hc)]
    · rw [if_neg hc, if_neg fun h => hc (beq_iff_eq.mp h)]
      rfl

/-- No piece has the separator. -/
theorem not_mem_of_mem_splitOn {sep : Char} : ∀ {t piece : Text}, piece ∈ t.splitOn sep → sep ∉ piece
  | [], piece, h => by
      rw [List.mem_singleton.mp h]
      exact List.not_mem_nil
  | c :: t, piece, h => by
      obtain ⟨head, rest, ht, hct⟩ := splitOn_cons sep c t
      have hrest : ∀ p ∈ head :: rest, sep ∉ p := fun p hp => not_mem_of_mem_splitOn (ht ▸ hp)
      rw [hct] at h
      split at h
      · rcases List.mem_cons.mp h with rfl | h
        · exact List.not_mem_nil
        · exact hrest piece h
      · next hc =>
          rcases List.mem_cons.mp h with rfl | h
          · intro hmem
            rcases List.mem_cons.mp hmem with rfl | hmem
            · exact hc rfl
            · exact hrest head List.mem_cons_self hmem
          · exact hrest piece (List.mem_cons_of_mem head h)

/-- Every other letter is in a piece. -/
theorem mem_piece {sep d : Char} (hd : d ≠ sep) : ∀ {t : Text}, d ∈ t → ∃ piece ∈ t.splitOn sep, d ∈ piece
  | [], h => absurd h List.not_mem_nil
  | c :: t, h => by
      obtain ⟨head, rest, ht, hct⟩ := splitOn_cons sep c t
      rw [hct]
      rcases List.mem_cons.mp h with rfl | h
      · rw [if_neg hd]
        exact ⟨_, List.mem_cons_self, List.mem_cons_self⟩
      · obtain ⟨piece, hpiece, hmem⟩ := mem_piece hd h
        rw [ht] at hpiece
        split
        · exact ⟨piece, List.mem_cons_of_mem _ hpiece, hmem⟩
        · rcases List.mem_cons.mp hpiece with rfl | hpiece
          · exact ⟨_, List.mem_cons_self, List.mem_cons_of_mem c hmem⟩
          · exact ⟨piece, List.mem_cons_of_mem _ hpiece, hmem⟩

end PyText
