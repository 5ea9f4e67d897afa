/-
  Numbers as text, the way Python 2 and the shell exchange them.

  `strInt` is `str(i)` and `hexInt` is `"%x" % i`; `intOf` is `int(text)`, with `none` for a
  `ValueError`; `split` is `text.split()`.  What the programs that exchange numbers rely on: a number
  written and read back is the number (`intOf_strInt`), different numbers are written differently
  (`hexInt_injective`), and words come out of `split` as they went in (`split_word`).
  `strip` takes the blanks off either end, and takes no more off what it left (`strip_strip`).  `strLe` is
  the order of texts, in which a text comes before all that begin with it (`strLe_of_isPrefix`).
-/
import Mathlib.Data.List.DropRight

namespace PyText

/-- A text of Python 2: its characters. -/
abbrev Text := List Char

instance : LawfulBEq Text := inferInstance

/-! ## Writing numbers -/

/-- A sign, and the digits of the magnitude. -/
def signed (b : Nat) : Int → Text
  | .ofNat n => Nat.toDigits b n
  | .negSucc n => '-' :: Nat.toDigits b (n + 1)

/-- `str(i)`. -/
def strInt (i : Int) : Text := signed 10 i

/-- `"%x" % i`. -/
def hexInt (i : Int) : Text := signed 16 i

/-! ## Reading numbers -/

/-- `str.isspace`, for one character. -/
def isSpace (c : Char) : Bool :=
  c == ' ' || c == '\t' || c == '\n' || c == '\r' || c == '\x0b' || c == '\x0c'

/-- `text.strip()`. -/
def strip (t : Text) : Text := ((t.dropWhile isSpace).reverse.dropWhile isSpace).reverse

/-- A non-empty string of decimal digits. -/
def digits (t : Text) : Option Nat :=
  if t ≠ [] ∧ t.all Char.isDigit then some (Nat.ofDigitChars 10 t 0) else none

/-- `int(text)`. -/
def intOf (t : Text) : Option Int :=
  match strip t with
  | '-' :: ds => (digits ds).map fun (n : Nat) => -(n : Int)
  | '+' :: ds => (digits ds).map fun (n : Nat) => (n : Int)
  | ds => (digits ds).map fun (n : Nat) => (n : Int)

/-! ## Words -/

/-- The words of a text, with the letters `word` of the first read already. -/
def splitFrom : Text → Text → List Text
  | word, [] => if word = [] then [] else [word]
  | word, c :: cs =>
      if isSpace c then
        if word = [] then splitFrom [] cs else word :: splitFrom [] cs
      else splitFrom (word ++ [c]) cs

/-- `text.split()`. -/
def split (t : Text) : List Text := splitFrom [] t

/-- A fact about the letters of a text, letter by letter. -/
theorem forall_mem_of_all {p : Char → Prop} [DecidablePred p] {t : Text}
    (h : t.all (fun c => p c) = true) : ∀ c ∈ t, p c :=
  fun c hc => of_decide_eq_true (List.all_eq_true.mp h c hc)

/-! ## Digits -/

/-- A decimal number is made of digits. -/
theorem isDigit_of_mem {n : Nat} {c : Char} (h : c ∈ Nat.toDigits 10 n) : c.isDigit = true :=
  Nat.isDigit_of_mem_toDigits (by decide) (by decide) h

/-- A digit is no blank. -/
theorem not_isSpace_of_isDigit {c : Char} (h : c.isDigit = true) : isSpace c = false := by
  have hge : '0'.toNat ≤ c.toNat := by
    simp only [Char.isDigit, Bool.and_eq_true, decide_eq_true_eq] at h
    exact h.1
  have hne : ∀ d : Char, d.toNat < '0'.toNat → (c == d) = false := by
    intro d hd
    refine beq_eq_false_iff_ne.mpr fun he => ?_
    rw [he] at hge
    omega
  simp only [isSpace, hne ' ' (by decide), hne '\t' (by decide), hne '\n' (by decide),
    hne '\r' (by decide), hne '\x0b' (by decide), hne '\x0c' (by decide), Bool.or_false]

/-- No letter of a written number is a space. -/
theorem not_isSpace_of_mem {i : Int} {c : Char} (h : c ∈ strInt i) : isSpace c = false := by
  cases i with
  | ofNat n => exact not_isSpace_of_isDigit (isDigit_of_mem h)
  | negSucc n =>
      rcases List.mem_cons.mp h with rfl | h
      · decide
      · exact not_isSpace_of_isDigit (isDigit_of_mem h)

/-- A number is not the empty text. -/
theorem strInt_ne_nil (i : Int) : strInt i ≠ [] := by
  cases i with
  | ofNat n => exact Nat.toDigits_ne_nil
  | negSucc n => exact List.cons_ne_nil _ _

/-- Nothing is dropped where nothing has the property. -/
theorem dropWhile_of_none {p : Char → Bool} {t : Text} (h : ∀ c ∈ t, p c = false) :
    t.dropWhile p = t := by
  cases t with
  | nil => rfl
  | cons c cs =>
      rw [List.dropWhile_cons, h c List.mem_cons_self]
      rfl

/-- A text without blanks is not stripped. -/
theorem strip_of_none {t : Text} (h : ∀ c ∈ t, isSpace c = false) : strip t = t := by
  rw [strip, dropWhile_of_none h,
    dropWhile_of_none (fun c hc => h c (List.mem_reverse.mp hc)), List.reverse_reverse]

/-- A number is read back from its digits. -/
theorem digits_toDigits (n : Nat) : digits (Nat.toDigits 10 n) = some n := by
  have hall : (Nat.toDigits 10 n).all Char.isDigit = true :=
    List.all_eq_true.mpr fun c hc => isDigit_of_mem hc
  rw [digits, if_pos ⟨Nat.toDigits_ne_nil, hall⟩, Nat.ofDigitChars_ten_toDigits]

/-- **A number written and read back.** -/
theorem intOf_strInt (i : Int) : intOf (strInt i) = some i := by
  rw [intOf, strip_of_none fun c hc => not_isSpace_of_mem hc]
  cases i with
  | ofNat n =>
      have hstr : strInt (.ofNat n) = Nat.toDigits 10 n := rfl
      rw [hstr]
      have hdigits := digits_toDigits n
      split
      · rename_i ds he
        exact absurd (isDigit_of_mem (he ▸ List.mem_cons_self : '-' ∈ Nat.toDigits 10 n))
          (by decide)
      · rename_i ds he
        exact absurd (isDigit_of_mem (he ▸ List.mem_cons_self : '+' ∈ Nat.toDigits 10 n))
          (by decide)
      · rw [hdigits]
        rfl
  | negSucc n =>
      show (digits (Nat.toDigits 10 (n + 1))).map _ = _
      rw [digits_toDigits]
      rfl

/-! ## Stripping -/

/-- Stripping adds no letter. -/
theorem mem_of_mem_strip {c : Char} {t : Text} (h : c ∈ strip t) : c ∈ t := by
  rw [strip, List.mem_reverse] at h
  have h := (List.dropWhile_suffix isSpace).subset h
  rw [List.mem_reverse] at h
  exact (List.dropWhile_suffix isSpace).subset h

/-- What is stripped has no blank at either end. -/
theorem strip_strip (t : Text) : strip (strip t) = strip t := by
  have hstrip : ∀ u, strip u = (u.dropWhile isSpace).rdropWhile isSpace := fun _ => rfl
  have hfront : (strip t).dropWhile isSpace = strip t := by
    rw [List.dropWhile_eq_self_iff]
    intro hlen hspace
    have hleft : strip t <+: t.dropWhile isSpace := by
      rw [hstrip]
      exact List.rdropWhile_prefix isSpace _
    have hlen' : 0 < (t.dropWhile isSpace).length := Nat.lt_of_lt_of_le hlen hleft.length_le
    have hhead : (t.dropWhile isSpace)[0] = (strip t)[0] := (hleft.getElem hlen).symm
    have hnot := List.dropWhile_get_zero_not isSpace t hlen'
    exact hnot (by rw [List.get_eq_getElem, hhead]; exact hspace)
  rw [hstrip (strip t), hfront, hstrip t, List.rdropWhile_idempotent]

/-- A text with no blank at either end, and not empty. -/
structure Trimmed (t : Text) : Prop where
  ne_nil : t ≠ []
  first : ∀ c ∈ t.head?, isSpace c = false
  last : ∀ c ∈ t.getLast?, isSpace c = false

/-- A text that neither begins nor ends with a blank. -/
theorem strip_of_ends {t : Text} (hfirst : ∀ c ∈ t.head?, isSpace c = false)
    (hlast : ∀ c ∈ t.getLast?, isSpace c = false) : strip t = t := by
  have hdrop : ∀ u : Text, (∀ c ∈ u.head?, isSpace c = false) → u.dropWhile isSpace = u := by
    intro u hu
    cases u with
    | nil => rfl
    | cons c u => rw [List.dropWhile_cons_of_neg (by rw [hu c rfl]; decide)]
  rw [strip, hdrop t hfirst, hdrop t.reverse (by rwa [List.head?_reverse]), List.reverse_reverse]

/-- A trimmed text is not stripped. -/
theorem Trimmed.strip {t : Text} (h : Trimmed t) : strip t = t := strip_of_ends h.first h.last

/-- One blank behind such a text. -/
theorem Trimmed.strip_concat {t : Text} (h : Trimmed t) {sp : Char} (hsp : isSpace sp = true) :
    PyText.strip (t ++ [sp]) = t := by
  have hstrip := h.strip
  have hfirst := h.first
  obtain ⟨c, cs, rfl⟩ := List.exists_cons_of_ne_nil h.ne_nil
  have hc : ¬ isSpace c = true := by rw [hfirst c rfl]; decide
  rw [PyText.strip, List.dropWhile_cons_of_neg hc] at hstrip
  rw [PyText.strip, List.cons_append, List.dropWhile_cons_of_neg hc, ← List.cons_append,
    List.reverse_append, List.reverse_singleton, List.singleton_append,
    List.dropWhile_cons_of_pos hsp, hstrip]

/-! ## Cutting -/

/-- The first of a character, where it does not stand in front. -/
theorem idxOf?_append {c : Char} : ∀ {t : Text}, c ∉ t → ∀ u, (t ++ c :: u).idxOf? c = some t.length
  | [], _, u => by
      rw [List.nil_append, List.idxOf?_cons, if_pos (beq_self_eq_true c)]
      rfl
  | d :: t, h, u => by
      have hne : (d == c) = false := beq_eq_false_iff_ne.mpr fun heq => h (heq ▸ List.mem_cons_self)
      have ih := idxOf?_append (fun hmem => h (List.mem_cons_of_mem d hmem)) u
      rw [List.cons_append, List.idxOf?_cons, hne, ih]
      rfl

/-- What is behind a letter. -/
theorem drop_behind (a : Text) (c : Char) (u : Text) : (a ++ c :: u).drop (a.length + 1) = u := by
  rw [← List.singleton_append, ← List.append_assoc,
    show a.length + 1 = (a ++ [c]).length by rw [List.length_append, List.length_singleton],
    List.drop_left]

/-! ## Hexadecimal -/

/-- The value of a hexadecimal digit. -/
def hexVal (c : Char) : Nat := if c.isDigit then c.toNat - 48 else c.toNat - 87

/-- A digit has its value. -/
theorem hexVal_digitChar : ∀ {d : Nat}, d < 16 → hexVal d.digitChar = d := by
  decide

/-- The value of a string of hexadecimal digits. -/
def hexFold (t : Text) : Nat := t.foldl (fun n c => 16 * n + hexVal c) 0

/-- A number is read back from its digits to the base 16. -/
theorem hexFold_toDigits (n : Nat) : hexFold (Nat.toDigits 16 n) = n := by
  induction n using Nat.strongRecOn with
  | _ n ih =>
      rcases Nat.lt_or_ge n 16 with hlt | hge
      · rw [Nat.toDigits_of_lt_base hlt]
        show 16 * 0 + hexVal n.digitChar = n
        rw [hexVal_digitChar hlt]
        omega
      · have hrec := ih (n / 16) (by omega)
        rw [Nat.toDigits_of_base_le (by decide) hge, hexFold, List.foldl_append]
        show 16 * hexFold (Nat.toDigits 16 (n / 16)) + hexVal (n % 16).digitChar = n
        rw [hrec, hexVal_digitChar (Nat.mod_lt n (by decide))]
        omega

/-- Digits do not begin with a minus. -/
theorem toDigits_ne_minus (n : Nat) (t : Text) : Nat.toDigits 16 n ≠ '-' :: t := by
  induction n using Nat.strongRecOn generalizing t with
  | _ n ih =>
      have hne : ∀ d, d < 16 → d.digitChar ≠ '-' := by decide
      intro he
      rcases Nat.lt_or_ge n 16 with hlt | hge
      · rw [Nat.toDigits_of_lt_base hlt] at he
        exact hne n hlt (List.cons.inj he).1
      · rw [Nat.toDigits_of_base_le (by decide) hge] at he
        rcases hd : Nat.toDigits 16 (n / 16) with _ | ⟨c, cs⟩
        · exact Nat.toDigits_ne_nil hd
        · rw [hd, List.cons_append] at he
          exact ih (n / 16) (by omega) cs (by rw [hd, (List.cons.inj he).1])

/-- **Different numbers are written differently.** -/
theorem hexInt_injective {i j : Int} (h : hexInt i = hexInt j) : i = j := by
  cases i with
  | ofNat n =>
      cases j with
      | ofNat k =>
          have hnk : hexFold (Nat.toDigits 16 n) = hexFold (Nat.toDigits 16 k) := congrArg hexFold h
          rw [hexFold_toDigits, hexFold_toDigits] at hnk
          rw [hnk]
      | negSucc k => exact absurd h (toDigits_ne_minus n _)
  | negSucc n =>
      cases j with
      | ofNat k => exact absurd h.symm (toDigits_ne_minus k _)
      | negSucc k =>
          have hnk : hexFold (Nat.toDigits 16 (n + 1)) = hexFold (Nat.toDigits 16 (k + 1)) :=
            congrArg hexFold (List.cons.inj h).2
          rw [hexFold_toDigits, hexFold_toDigits] at hnk
          rw [Nat.succ.inj hnk]

/-! ## Order -/

/-- `s <= t`. -/
def strLe : Text → Text → Bool
  | [], _ => true
  | _ :: _, [] => false
  | c :: s, d :: t => decide (c.toNat < d.toNat) || (c == d && strLe s t)

/-- The order looks at the first letters, and at the rest where they agree. -/
theorem strLe_cons {c d : Char} {s t : Text} :
    strLe (c :: s) (d :: t) = true ↔ c.toNat < d.toNat ∨ c = d ∧ strLe s t = true := by
  rw [strLe, Bool.or_eq_true, decide_eq_true_eq, Bool.and_eq_true, beq_iff_eq]

/-- The order is total. -/
theorem strLe_total : ∀ s t : Text, strLe s t = true ∨ strLe t s = true
  | [], _ => Or.inl rfl
  | _ :: _, [] => Or.inr rfl
  | c :: s, d :: t => by
      rw [strLe_cons, strLe_cons]
      rcases Nat.lt_trichotomy c.toNat d.toNat with hlt | heq | hlt
      · exact Or.inl (Or.inl hlt)
      · have hcd : c = d := Char.toNat_inj.mp heq
        rcases strLe_total s t with h | h
        · exact Or.inl (Or.inr ⟨hcd, h⟩)
        · exact Or.inr (Or.inr ⟨hcd.symm, h⟩)
      · exact Or.inr (Or.inl hlt)

/-- The order is transitive. -/
theorem strLe_trans : ∀ {s t u : Text}, strLe s t = true → strLe t u = true → strLe s u = true
  | [], _, _, _, _ => rfl
  | _ :: _, [], _, h, _ => nomatch h
  | _ :: _, _ :: _, [], _, h => nomatch h
  | c :: s, d :: t, e :: u, hst, htu => by
      rw [strLe_cons] at hst htu ⊢
      rcases hst with hlt | ⟨rfl, hst⟩
      · rcases htu with hlt' | ⟨rfl, -⟩
        · exact Or.inl (Nat.lt_trans hlt hlt')
        · exact Or.inl hlt
      · rcases htu with hlt | ⟨rfl, htu⟩
        · exact Or.inl hlt
        · exact Or.inr ⟨rfl, strLe_trans hst htu⟩

/-- The order is antisymmetric. -/
theorem strLe_antisymm : ∀ {s t : Text}, strLe s t = true → strLe t s = true → s = t
  | [], [], _, _ => rfl
  | [], _ :: _, _, h => nomatch h
  | _ :: _, [], h, _ => nomatch h
  | c :: s, d :: t, hst, hts => by
      rw [strLe_cons] at hst hts
      rcases hst with hlt | ⟨rfl, hst⟩
      · rcases hts with hlt' | ⟨rfl, -⟩
        · exact absurd (Nat.lt_trans hlt hlt') (Nat.lt_irrefl _)
        · exact absurd hlt (Nat.lt_irrefl _)
      · rcases hts with hlt | ⟨-, hts⟩
        · exact absurd hlt (Nat.lt_irrefl _)
        · rw [strLe_antisymm hst hts]

/-- A text comes before what begins with it. -/
theorem strLe_of_isPrefix : ∀ {s t : Text}, s <+: t → strLe s t = true
  | [], _, _ => rfl
  | c :: s, t, h => by
      obtain ⟨u, rfl⟩ := h
      exact strLe_cons.mpr (Or.inr ⟨rfl, strLe_of_isPrefix (List.prefix_append s u)⟩)

/-! ## Splitting -/

/-- A word is read to its end before anything else is. -/
theorem splitFrom_word : ∀ (w : Text), (∀ c ∈ w, isSpace c = false) → ∀ (word rest : Text),
    splitFrom word (w ++ rest) = splitFrom (word ++ w) rest
  | [], _, word, rest => by rw [List.nil_append, List.append_nil]
  | c :: cs, h, word, rest => by
      rw [List.cons_append, splitFrom, if_neg (by rw [h c List.mem_cons_self]; decide),
        splitFrom_word cs (fun d hd => h d (List.mem_cons_of_mem c hd)), List.append_assoc]
      rfl

/-- A word and a space in front of a text come out as that word in front of the others. -/
theorem split_word {w : Text} (hw : ∀ c ∈ w, isSpace c = false) (hne : w ≠ []) {sp : Char}
    (hsp : isSpace sp = true) (rest : Text) : split (w ++ sp :: rest) = w :: split rest := by
  rw [split, splitFrom_word w hw, List.nil_append, splitFrom, if_pos hsp, if_neg hne]
  rfl

end PyText
