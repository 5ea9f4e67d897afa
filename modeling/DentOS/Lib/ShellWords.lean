/-
  The words of a simple command, as a POSIX shell expands them.

  `words env t` reads a command line from left to right: blanks between words, double quotes, the
  backslash, and the values of variables, `$name` and `${name}`, from `env`, where a variable that is
  not set is empty.  The lexer is a step function on one character (`step`), so that what a piece of
  a line does to a lexer is said once, whatever stands before and behind it.

  Everything else has no words here (`none`): operators, redirections, single quotes, patterns,
  command substitutions and the other forms of `${…}`, a variable outside of quotes whose value would
  be split, and quotes that are not closed.
-/
import DentOS.Lib.PyText
import Mathlib.Algebra.GroupWithZero.Nat

namespace ShellWords

open PyText

/-- The shell's variables. -/
abbrev Env := Text → Text

/-- What has been begun and is not complete. -/
inductive Pending where
  | nothing
  | escape
  | dollar
  | name (nm : Text)
  | brace (nm : Text)

/-- The state of the shell's reader: between quotes or not, the word so far, those in front, and what is
    waited for. -/
structure Lexer where
  /-- The reader is between quotes. -/
  quoted : Bool
  /-- The word so far, if one has begun. -/
  word : Option Text
  /-- The words in front of it. -/
  done : List Text
  /-- What it waits for. -/
  pending : Pending

/-- A character that an unquoted word keeps. -/
def plainChar (c : Char) : Bool :=
  c ∉ [' ', '\t', '\n', '"', '\'', '`', '$', '\\', ';', '&', '|', '<', '>', '(', ')', '*', '?', '[']

/-- A character that means something at the start of a word only. -/
def startsComment (c : Char) : Bool := c = '#' || c = '~'

/-- What the name of a variable may begin with. -/
def nameStart (c : Char) : Bool := c.isAlpha || c = '_'

/-- What it may go on with. -/
def nameChar (c : Char) : Bool := c.isAlphanum || c = '_'

/-- The characters that a backslash in double quotes quotes. -/
def quotable (c : Char) : Bool := c = '$' || c = '`' || c = '"' || c = '\\'

/-- The characters behind a `$` that are parameters of the shell or open a substitution. -/
def special (c : Char) : Bool := c.isDigit || c ∈ ['(', '@', '*', '#', '?', '-', '$', '!']

namespace Lexer

/-- Letters for the word. -/
def push (s : Lexer) (t : Text) : Lexer := { s with word := some (s.word.getD [] ++ t) }

/-- The word is done. -/
def endWord (s : Lexer) : Lexer :=
  match s.word with
  | some w => { s with word := none, done := s.done ++ [w] }
  | none => s

/-- What is waited for. -/
def wait (s : Lexer) (p : Pending) : Lexer := { s with pending := p }

/-- The value of a variable.  Outside of quotes an empty value does not begin a word. -/
def expand (env : Env) (s : Lexer) (nm : Text) : Option Lexer :=
  if s.quoted then some ((s.wait .nothing).push (env nm))
  else if (env nm).all plainChar then
    some (if env nm = [] then s.wait .nothing else (s.wait .nothing).push (env nm))
  else none

/-- A character with nothing pending. -/
def base (s : Lexer) (c : Char) : Option Lexer :=
  if c = '$' then some (s.wait .dollar)
  else if c = '\\' then some (s.wait .escape)
  else if s.quoted then
    if c = '"' then some { s with quoted := false }
    else if c = '`' then none
    else some (s.push [c])
  else if c = '"' then some { s.push [] with quoted := true }
  else if c = ' ' ∨ c = '\t' then some s.endWord
  else if plainChar c ∧ ¬ (s.word = none ∧ startsComment c) then some (s.push [c])
  else none

/-- One character. -/
def step (env : Env) (s : Lexer) (c : Char) : Option Lexer :=
  match s.pending with
  | .nothing => s.base c
  | .escape =>
      if s.quoted ∧ ¬ quotable c then some ((s.wait .nothing).push ['\\', c])
      else if c = '\n' then none
      else some ((s.wait .nothing).push [c])
  | .dollar =>
      if nameStart c then some (s.wait (.name [c]))
      else if c = '{' then some (s.wait (.brace []))
      else if special c then none
      else ((s.wait .nothing).push ['$']).base c
  | .name nm =>
      if nameChar c then some (s.wait (.name (nm ++ [c])))
      else (s.expand env nm).bind (base · c)
  | .brace nm =>
      if c = '}' then if nm = [] then none else s.expand env nm
      else if nameChar c ∧ ¬ (nm = [] ∧ c.isDigit) then some (s.wait (.brace (nm ++ [c])))
      else none

/-- The characters of a text, one after another. -/
def run (env : Env) (s : Lexer) (t : Text) : Option Lexer := t.foldlM (step env) s

/-- What is pending at the end of a line. -/
def settle (env : Env) (s : Lexer) : Option Lexer :=
  match s.pending with
  | .nothing => some s
  | .dollar => some ((s.wait .nothing).push ['$'])
  | .name nm => s.expand env nm
  | .escape => none
  | .brace _ => none

/-- The words at the end of a line. -/
def finish (env : Env) (s : Lexer) : Option (List Text) :=
  (s.settle env).bind fun s => if s.quoted then none else some s.endWord.done

end Lexer

/-- The words of a line. -/
def words (env : Env) (t : Text) : Option (List Text) :=
  (Lexer.run env ⟨false, none, [], .nothing⟩ t).bind (Lexer.finish env)

/-! ## Texts that are kept -/

/-- A text that is a word of its own. -/
def PlainWord (t : Text) : Prop :=
  t ≠ [] ∧ t.all plainChar = true ∧ t.head?.all (fun c => ¬ startsComment c) = true

instance (t : Text) : Decidable (PlainWord t) := inferInstanceAs (Decidable (_ ∧ _ ∧ _))

/-- A text that double quotes keep: no quote, no backquote, no `$` that begins an expansion, and no
    backslash that quotes what follows it, the closing quote included. -/
def Inert : Text → Prop
  | [] => True
  | c :: cs =>
      c ≠ '"' ∧ c ≠ '`' ∧
      (c = '\\' → ∃ d, cs.head? = some d ∧ ¬ quotable d) ∧
      (c = '$' → ∀ d, cs.head? = some d → ¬ (nameStart d ∨ d = '{' ∨ special d)) ∧
      Inert cs

namespace Lexer

variable {env : Env}

/-- Reading two texts is reading one behind the other. -/
theorem run_append (s : Lexer) (t u : Text) :
    run env s (t ++ u) = (run env s t).bind (run env · u) := List.foldlM_append

/-- Reading one letter, and the others. -/
theorem run_cons (s : Lexer) (c : Char) (t : Text) :
    run env s (c :: t) = (step env s c).bind (run env · t) := List.foldlM_cons

/-- A plain letter is added to the word. -/
theorem base_plain {s : Lexer} {c : Char} (hs : s.quoted = false) (hc : plainChar c = true)
    (hstart : s.word = none → startsComment c = false) : s.base c = some (s.push [c]) := by
  have hnot : ∀ d ∈ [' ', '\t', '\n', '"', '\'', '`', '$', '\\', ';', '&', '|', '<', '>', '(', ')',
      '*', '?', '['], c ≠ d := by
    rintro d hd rfl
    exact of_decide_eq_true hc hd
  rw [base, if_neg (hnot '$' (by decide)), if_neg (hnot '\\' (by decide)),
    if_neg (by rw [hs]; decide), if_neg (hnot '"' (by decide)),
    if_neg (not_or.mpr ⟨hnot ' ' (by decide), hnot '\t' (by decide)⟩), if_pos]
  refine ⟨hc, ?_⟩
  rintro ⟨hnone, hcomment⟩
  rw [hstart hnone] at hcomment
  cases hcomment

/-- Plain characters behind the start of a word. -/
theorem run_plain_chars : ∀ (t : Text), t.all plainChar = true → ∀ (w : Text) (done : List Text),
    run env ⟨false, some w, done, .nothing⟩ t = some ⟨false, some (w ++ t), done, .nothing⟩
  | [], _, w, done => by
      rw [List.append_nil]
      rfl
  | c :: t, h, w, done => by
      rw [List.all_cons, Bool.and_eq_true] at h
      have hstep : step env ⟨false, some w, done, .nothing⟩ c =
          some ⟨false, some (w ++ [c]), done, .nothing⟩ := base_plain rfl h.1 (fun hn => by cases hn)
      rw [run_cons, hstep, Option.bind_some, run_plain_chars t h.2, List.append_assoc]
      rfl

/-- **A plain word is kept.** -/
theorem run_plain {t : Text} (h : PlainWord t) (done : List Text) :
    run env ⟨false, none, done, .nothing⟩ t = some ⟨false, some t, done, .nothing⟩ := by
  obtain ⟨hne, hall, hstart⟩ := h
  cases t with
  | nil => exact absurd rfl hne
  | cons c t =>
      rw [List.all_cons, Bool.and_eq_true] at hall
      have hcomment : startsComment c = false := by
        have hdec : decide (¬ startsComment c = true) = true := hstart
        exact Bool.not_eq_true _ ▸ of_decide_eq_true hdec
      have hstep : step env ⟨false, none, done, .nothing⟩ c =
          some ⟨false, some [c], done, .nothing⟩ := base_plain rfl hall.1 (fun _ => hcomment)
      rw [run_cons, hstep, Option.bind_some, run_plain_chars t hall.2]
      rfl

/-- A blank ends the word. -/
theorem run_blank (w : Text) (done : List Text) (t : Text) :
    run env ⟨false, some w, done, .nothing⟩ (' ' :: t) =
      run env ⟨false, none, done ++ [w], .nothing⟩ t :=
  rfl

/-- A `$` that opens nothing stands for itself. -/
theorem run_dollar {q : Bool} {w : Text} {done : List Text} {d : Char} {t : Text}
    (h : ¬ (nameStart d ∨ d = '{' ∨ special d)) :
    run env ⟨q, some w, done, .dollar⟩ (d :: t) =
      run env ⟨q, some (w ++ ['$']), done, .nothing⟩ (d :: t) := by
  have hstep : step env ⟨q, some w, done, .dollar⟩ d =
      step env ⟨q, some (w ++ ['$']), done, .nothing⟩ d := by
    show (if nameStart d = true then _ else if d = '{' then _ else if special d = true then _ else _) = _
    rw [if_neg fun h' => h (Or.inl h'), if_neg fun h' => h (Or.inr (Or.inl h')),
      if_neg fun h' => h (Or.inr (Or.inr h'))]
    rfl
  rw [run_cons, run_cons, hstep]

/-- A backslash in quotes that quotes nothing stands for itself. -/
theorem run_escape {w : Text} {done : List Text} {d : Char} {t : Text} (h : ¬ quotable d) :
    run env ⟨true, some w, done, .escape⟩ (d :: t) =
      run env ⟨true, some (w ++ ['\\']), done, .nothing⟩ (d :: t) := by
  have hnot : d ≠ '$' ∧ d ≠ '`' ∧ d ≠ '"' ∧ d ≠ '\\' := by
    refine ⟨?_, ?_, ?_, ?_⟩ <;>
      · rintro rfl
        exact h (by decide)
  have hleft : step env ⟨true, some w, done, .escape⟩ d =
      some ⟨true, some (w ++ ['\\', d]), done, .nothing⟩ := by
    show (if true = true ∧ ¬ quotable d = true then _ else _) = _
    rw [if_pos ⟨rfl, h⟩]
    rfl
  have hright : step env ⟨true, some (w ++ ['\\']), done, .nothing⟩ d =
      some ⟨true, some (w ++ ['\\', d]), done, .nothing⟩ := by
    show base _ d = _
    rw [base, if_neg hnot.1, if_neg hnot.2.2.2, if_pos rfl, if_neg hnot.2.2.1, if_neg hnot.2.1, push]
    simp only [Option.getD_some, List.append_assoc, List.singleton_append]
  rw [run_cons, run_cons, hleft, hright]

/-- **Quotes keep an inert text.** -/
theorem run_inert : ∀ (v : Text), Inert v → ∀ (w : Text) (done : List Text) (t : Text),
    run env ⟨true, some w, done, .nothing⟩ (v ++ '"' :: t) =
      run env ⟨false, some (w ++ v), done, .nothing⟩ t
  | [], _, w, done, t => by
      rw [List.append_nil]
      rfl
  | c :: v, h, w, done, t => by
      obtain ⟨hquote, hback, hslash, hdollar, hrest⟩ := h
      have hih := run_inert v hrest (w ++ [c]) done t
      rw [List.append_assoc, List.singleton_append] at hih
      rw [← hih, List.cons_append, run_cons]
      by_cases hd : c = '$'
      · subst hd
        show run env ⟨true, some w, done, .dollar⟩ (v ++ '"' :: t) = _
        cases v with
        | nil => exact run_dollar (by decide)
        | cons d v => exact run_dollar (hdollar rfl d rfl)
      · by_cases hb : c = '\\'
        · subst hb
          show run env ⟨true, some w, done, .escape⟩ (v ++ '"' :: t) = _
          obtain ⟨d, hhead, hnot⟩ := hslash rfl
          cases v with
          | nil => cases hhead
          | cons e v =>
              cases hhead
              exact run_escape hnot
        · have hstep : step env ⟨true, some w, done, .nothing⟩ c =
              some ⟨true, some (w ++ [c]), done, .nothing⟩ := by
            show base _ c = _
            rw [base, if_neg hd, if_neg hb, if_pos rfl, if_neg hquote, if_neg hback]
            rfl
          rw [hstep, Option.bind_some]

/-- The letters of a name are collected, by induction on them. -/
theorem run_names (env : Env) (q : Bool) (done : List Text) (t : Text) : ∀ (u nm : Text),
    u.all nameChar = true →
    run env ⟨q, none, done, .name nm⟩ (u ++ t) = run env ⟨q, none, done, .name (nm ++ u)⟩ t
  | [], nm, _ => by
      rw [List.append_nil]
      rfl
  | d :: u, nm, hu => by
      rw [List.all_cons, Bool.and_eq_true] at hu
      have hstep : step env ⟨q, none, done, .name nm⟩ d = some ⟨q, none, done, .name (nm ++ [d])⟩ :=
        if_pos hu.1
      rw [List.cons_append, run_cons, hstep, Option.bind_some, run_names env q done t u _ hu.2,
        List.append_assoc]
      rfl

/-- The value of a variable as a word of its own, outside of quotes. -/
theorem expand_plain {nm : Text} {p : Pending} (hplain : (env nm).all plainChar = true)
    (hne : env nm ≠ []) (done : List Text) :
    expand env ⟨false, none, done, p⟩ nm = some ⟨false, some (env nm), done, .nothing⟩ := by
  show (if (env nm).all plainChar then _ else _) = _
  rw [if_pos hplain, if_neg hne]
  rfl

/-- `$name` in front of a character that is not of the name. -/
theorem run_name {c d : Char} {nm t : Text} (hc : nameStart c = true) (hnm : nm.all nameChar = true)
    (hplain : (env (c :: nm)).all plainChar = true) (hne : env (c :: nm) ≠ [])
    (hd : nameChar d = false) (done : List Text) :
    run env ⟨false, none, done, .nothing⟩ ('$' :: c :: nm ++ d :: t) =
      run env ⟨false, some (env (c :: nm)), done, .nothing⟩ (d :: t) := by
  have hdollar : step env ⟨false, none, done, .dollar⟩ c = some ⟨false, none, done, .name [c]⟩ :=
    if_pos hc
  have hstep : step env ⟨false, none, done, .name (c :: nm)⟩ d =
      step env ⟨false, some (env (c :: nm)), done, .nothing⟩ d := by
    show (if nameChar d = true then _ else _) = _
    rw [if_neg (by rw [hd]; decide), expand_plain hplain hne]
    rfl
  show run env ⟨false, none, done, .dollar⟩ (c :: (nm ++ d :: t)) = _
  rw [run_cons, hdollar, Option.bind_some, run_names env false done _ nm [c] hnm, run_cons, run_cons]
  exact congrArg (Option.bind · _) hstep

/-- A variable that is not set, in front of a character that is not of its name. -/
theorem run_unset {c d : Char} {nm t : Text} (hc : nameStart c = true) (hnm : nm.all nameChar = true)
    (hunset : env (c :: nm) = []) (hd : nameChar d = false) (done : List Text) :
    run env ⟨false, none, done, .nothing⟩ ('$' :: c :: nm ++ d :: t) =
      run env ⟨false, none, done, .nothing⟩ (d :: t) := by
  have hdollar : step env ⟨false, none, done, .dollar⟩ c = some ⟨false, none, done, .name [c]⟩ :=
    if_pos hc
  have hexpand : expand env ⟨false, none, done, .name (c :: nm)⟩ (c :: nm) =
      some ⟨false, none, done, .nothing⟩ := by
    show (if (env (c :: nm)).all plainChar then _ else _) = _
    rw [hunset]
    rfl
  have hstep : step env ⟨false, none, done, .name (c :: nm)⟩ d =
      step env ⟨false, none, done, .nothing⟩ d := by
    show (if nameChar d = true then _ else _) = _
    rw [if_neg (by rw [hd]; decide), hexpand]
    rfl
  show run env ⟨false, none, done, .dollar⟩ (c :: (nm ++ d :: t)) = _
  rw [run_cons, hdollar, Option.bind_some, run_names env false done _ nm [c] hnm, run_cons, run_cons]
  exact congrArg (Option.bind · _) hstep

/-- `$name` at the end of a line. -/
theorem finish_name {c : Char} {nm : Text} (hc : nameStart c = true) (hnm : nm.all nameChar = true)
    (hplain : (env (c :: nm)).all plainChar = true) (hne : env (c :: nm) ≠ []) (done : List Text) :
    (run env ⟨false, none, done, .nothing⟩ ('$' :: c :: nm)).bind (finish env) =
      some (done ++ [env (c :: nm)]) := by
  have hdollar : step env ⟨false, none, done, .dollar⟩ c = some ⟨false, none, done, .name [c]⟩ :=
    if_pos hc
  have hnames := run_names env false done [] nm [c] hnm
  rw [List.append_nil] at hnames
  show (run env ⟨false, none, done, .dollar⟩ (c :: nm)).bind (finish env) = _
  rw [run_cons, hdollar, Option.bind_some, hnames]
  show (expand env ⟨false, none, done, .name (c :: nm)⟩ (c :: nm)).bind _ = _
  rw [expand_plain hplain hne]
  rfl

/-- `${name}`. -/
theorem run_braces {c : Char} {nm : Text} (hc : nameChar c = true) (hdigit : c.isDigit = false)
    (hnm : nm.all nameChar = true) (hplain : (env (c :: nm)).all plainChar = true)
    (hne : env (c :: nm) ≠ []) (done : List Text) (t : Text) :
    run env ⟨false, none, done, .nothing⟩ ('$' :: '{' :: c :: nm ++ '}' :: t) =
      run env ⟨false, some (env (c :: nm)), done, .nothing⟩ t := by
  have hbraces : ∀ (u pre : Text), u.all nameChar = true → pre ≠ [] →
      run env ⟨false, none, done, .brace pre⟩ (u ++ '}' :: t) =
        run env ⟨false, none, done, .brace (pre ++ u)⟩ ('}' :: t) := by
    intro u
    induction u with
    | nil =>
        intro pre _ _
        rw [List.append_nil]
        rfl
    | cons d u ih =>
        intro pre hu hpre
        rw [List.all_cons, Bool.and_eq_true] at hu
        have hd : d ≠ '}' := by
          rintro rfl
          exact absurd hu.1 (by decide)
        have hstep : step env ⟨false, none, done, .brace pre⟩ d =
            some ⟨false, none, done, .brace (pre ++ [d])⟩ := by
          show (if d = '}' then _ else _) = _
          rw [if_neg hd, if_pos ⟨hu.1, fun h => hpre h.1⟩]
          rfl
        rw [List.cons_append, run_cons, hstep, Option.bind_some,
          ih _ hu.2 (List.append_ne_nil_of_right_ne_nil _ (List.cons_ne_nil _ _)), List.append_assoc]
        rfl
  have hc' : c ≠ '}' := by
    rintro rfl
    exact absurd hc (by decide)
  have hfirst : step env ⟨false, none, done, .brace []⟩ c =
      some ⟨false, none, done, .brace [c]⟩ := by
    show (if c = '}' then _ else _) = _
    rw [if_neg hc', if_pos ⟨hc, fun h => by rw [hdigit] at h; exact absurd h.2 (by decide)⟩]
    rfl
  have hlast : step env ⟨false, none, done, .brace (c :: nm)⟩ '}' =
      some ⟨false, some (env (c :: nm)), done, .nothing⟩ := expand_plain hplain hne done
  show run env ⟨false, none, done, .brace []⟩ (c :: (nm ++ '}' :: t)) = _
  rw [run_cons, hfirst, Option.bind_some, hbraces nm [c] hnm (List.cons_ne_nil _ _), run_cons]
  show (step env ⟨false, none, done, .brace (c :: nm)⟩ '}').bind _ = _
  rw [hlast, Option.bind_some]

/-- Quotes open behind the start of a word. -/
theorem run_open_quote (w : Text) (done : List Text) (t : Text) :
    run env ⟨false, some w, done, .nothing⟩ ('"' :: t) =
      run env ⟨true, some w, done, .nothing⟩ t := by
  have hstep : step env ⟨false, some w, done, .nothing⟩ '"' =
      some ⟨true, some w, done, .nothing⟩ := by
    show some (Lexer.mk true (some (w ++ [])) done .nothing) = _
    rw [List.append_nil]
  rw [run_cons, hstep, Option.bind_some]

/-! ## Words that are complete -/

/-- A variable ends no word. -/
theorem done_expand {s s' : Lexer} {nm : Text} (h : expand env s nm = some s') :
    s'.done = s.done := by
  unfold expand at h
  split at h
  · cases h
    rfl
  · split at h
    · cases h
      split <;> rfl
    · cases h

/-- The words that are done stay. -/
theorem done_endWord (s : Lexer) : s.done <+: s.endWord.done := by
  rcases s with ⟨q, _ | w, done, p⟩
  · exact List.prefix_refl _
  · exact List.prefix_append _ _

/-- The words that are done stay behind a letter outside of a name. -/
theorem done_base {s s' : Lexer} {c : Char} (h : base s c = some s') : s.done <+: s'.done := by
  rw [base] at h
  split at h
  · cases h
    exact List.prefix_refl _
  · split at h
    · cases h
      exact List.prefix_refl _
    · split at h
      · split at h
        · cases h
          exact List.prefix_refl _
        · split at h
          · cases h
          · cases h
            exact List.prefix_refl _
      · split at h
        · cases h
          exact List.prefix_refl _
        · split at h
          · cases h
            exact done_endWord s
          · split at h
            · cases h
              exact List.prefix_refl _
            · cases h

/-- The words that are done stay behind every letter. -/
theorem done_step {s s' : Lexer} {c : Char} (h : step env s c = some s') : s.done <+: s'.done := by
  rw [step] at h
  split at h
  · exact done_base h
  · split at h
    · cases h
      exact List.prefix_refl _
    · split at h
      · cases h
      · cases h
        exact List.prefix_refl _
  · split at h
    · cases h
      exact List.prefix_refl _
    · split at h
      · cases h
        exact List.prefix_refl _
      · split at h
        · cases h
        · have hbase := done_base h
          exact hbase
  · split at h
    · cases h
      exact List.prefix_refl _
    · obtain ⟨s₁, hexp, hbase⟩ := Option.bind_eq_some_iff.mp h
      rw [← done_expand hexp]
      exact done_base hbase
  · split at h
    · split at h
      · cases h
      · exact ⟨[], by rw [List.append_nil, done_expand h]⟩
    · split at h
      · cases h
        exact List.prefix_refl _
      · cases h

/-- The words that are complete stay. -/
theorem done_run {s s' : Lexer} {t : Text} (h : run env s t = some s') : s.done <+: s'.done := by
  induction t generalizing s with
  | nil =>
      cases h
      exact List.prefix_refl _
  | cons c t ih =>
      rw [run_cons] at h
      obtain ⟨s₁, hstep, hrest⟩ := Option.bind_eq_some_iff.mp h
      exact (done_step hstep).trans (ih hrest)

/-- The words that are done are among the result. -/
theorem done_finish {s : Lexer} {ws : List Text} (h : finish env s = some ws) : s.done <+: ws := by
  obtain ⟨s₁, hs₁, hws⟩ := Option.bind_eq_some_iff.mp h
  have hdone : s₁.done = s.done := by
    rw [settle] at hs₁
    split at hs₁
    · cases hs₁
      rfl
    · cases hs₁
      rfl
    · exact done_expand hs₁
    · cases hs₁
    · cases hs₁
  split at hws
  · cases hws
  · cases hws
    rw [← hdone]
    exact done_endWord s₁

/-! ## Characters that get lost -/

/-- A character that the shell acts on in double quotes. -/
def hot (c : Char) : Bool := c = '$' || c = '`' || c = '"' || c = '\\'

/-- The number of them in a text. -/
def heat (t : Text) : Nat := t.countP hot

/-- Those that are pending.  The `$` of a variable is lost when its name begins. -/
def owed : Pending → Nat
  | .escape => 1
  | .dollar => 1
  | _ => 0

/-- A plain text has no heat. -/
theorem heat_of_plain {t : Text} (h : t.all plainChar = true) : heat t = 0 := by
  rw [heat, List.countP_eq_zero]
  intro c hc hhot
  have hplain : plainChar c = true := List.all_eq_true.mp h c hc
  have hnot := of_decide_eq_true hplain
  rw [hot, Bool.or_eq_true, Bool.or_eq_true, Bool.or_eq_true, decide_eq_true_eq, decide_eq_true_eq,
    decide_eq_true_eq, decide_eq_true_eq] at hhot
  rcases hhot with ((rfl | rfl) | rfl) | rfl
  · exact hnot (by decide)
  · exact hnot (by decide)
  · exact hnot (by decide)
  · exact hnot (by decide)

/-- Plain characters in front of a text are nothing to quotes. -/
theorem inert_plain_append {v : Text} : ∀ {u : Text}, u.all plainChar = true →
    (Inert (u ++ v) ↔ Inert v)
  | [], _ => Iff.rfl
  | c :: u, h => by
      rw [List.all_cons, Bool.and_eq_true] at h
      have hnot : ∀ d ∈ ['"', '`', '\\', '$'], c ≠ d := by
        rintro d hd rfl
        have hsub : ∀ d ∈ ['"', '`', '\\', '$'], plainChar d = false :=
          forall_mem_of_all (by decide)
        exact absurd ((hsub c hd).symm.trans h.1) (by decide)
      have hih := inert_plain_append (v := v) h.2
      constructor
      · rintro ⟨-, -, -, -, hrest⟩
        exact hih.mp hrest
      · intro hv
        exact ⟨hnot '"' (by decide), hnot '`' (by decide), fun he => absurd he (hnot '\\' (by decide)),
          fun he => absurd he (hnot '$' (by decide)), hih.mpr hv⟩

/-- Those of a list of words. -/
def total (ws : List Text) : Nat := (ws.map heat).sum

/-- Those that a lexer holds. -/
def held (s : Lexer) : Nat := heat (s.word.getD []) + total s.done + owed s.pending

/-- The heat of two texts. -/
theorem heat_append (t u : Text) : heat (t ++ u) = heat t + heat u := List.countP_append

/-- The heat of a letter, and of the others. -/
theorem heat_cons (c : Char) (t : Text) : heat (c :: t) = heat [c] + heat t := heat_append [c] t

/-- The heat of a letter. -/
theorem heat_singleton (c : Char) : heat [c] = if hot c then 1 else 0 := by
  rw [heat, List.countP_singleton]

/-- The heat of two lists of words. -/
theorem total_append (ws ws' : List Text) : total (ws ++ ws') = total ws + total ws' := by
  rw [total, List.map_append, List.sum_append]
  rfl

/-- Letters that are pushed are held. -/
theorem held_push (s : Lexer) (t : Text) : held (s.push t) = held s + heat t := by
  have hpush : held (s.push t) = heat (s.word.getD [] ++ t) + total s.done + owed s.pending := rfl
  rw [hpush, heat_append, held]
  omega

/-- Ending a word holds what was held. -/
theorem held_endWord (s : Lexer) : held s.endWord = held s := by
  rcases s with ⟨q, _ | w, done, p⟩
  · rfl
  · show heat [] + total (done ++ [w]) + owed p = heat w + total done + owed p
    have hone : total [w] = heat w := rfl
    have hnil : heat [] = 0 := rfl
    rw [total_append, hone, hnil]
    omega

/-- What is waited for is owed. -/
theorem held_wait (s : Lexer) (p : Pending) : held (s.wait p) = held (s.wait .nothing) + owed p := rfl

/-- What is held is what is there and what is owed. -/
theorem held_eq (s : Lexer) : held s = held (s.wait .nothing) + owed s.pending := rfl

/-- Waiting for nothing changes nothing. -/
theorem held_nothing {s : Lexer} (h : s.pending = .nothing) : s.wait .nothing = s := by
  cases s
  cases h
  rfl

/-- A character adds itself at most, and a quote nothing. -/
theorem held_base {s s' : Lexer} {c : Char} (hs : s.pending = .nothing) (h : base s c = some s') :
    held s' ≤ held s + if c = '"' then 0 else heat [c] := by
  rw [base] at h
  split at h
  · next hc =>
      cases h
      subst hc
      rw [held_wait, held_nothing hs, if_neg (by decide)]
      exact Nat.le_refl _
  · split at h
    · next hc =>
        cases h
        subst hc
        rw [held_wait, held_nothing hs, if_neg (by decide)]
        exact Nat.le_refl _
    · split at h
      · split at h
        · next hc =>
            cases h
            rw [if_pos hc]
            exact Nat.le_refl _
        · next hc =>
            split at h
            · cases h
            · cases h
              rw [if_neg hc, held_push]
      · split at h
        · next hc =>
            cases h
            rw [if_pos hc]
            have hopen : held { s.push [] with quoted := true } = held (s.push []) := rfl
            rw [hopen, held_push]
            exact Nat.le_refl _
        · next hc =>
            split at h
            · cases h
              rw [held_endWord]
              exact Nat.le_add_right _ _
            · split at h
              · cases h
                rw [if_neg hc, held_push]
              · cases h

variable (hcold : ∀ nm, heat (env nm) = 0)
include hcold

/-- A variable's value adds no heat. -/
theorem held_expand {s s' : Lexer} {nm : Text} (h : expand env s nm = some s') :
    s'.pending = .nothing ∧ held s' ≤ held (s.wait .nothing) := by
  have hpush : held ((s.wait .nothing).push (env nm)) ≤ held (s.wait .nothing) := by
    rw [held_push, hcold]
    exact Nat.le_refl _
  unfold expand at h
  split at h
  · cases h
    exact ⟨rfl, hpush⟩
  · split at h
    · cases h
      split
      · exact ⟨rfl, Nat.le_refl _⟩
      · exact ⟨rfl, hpush⟩
    · cases h

/-- **One character** adds itself at most, and a quote nothing. -/
theorem held_step {s s' : Lexer} {c : Char} (h : step env s c = some s') :
    held s' ≤ held s + if c = '"' then 0 else heat [c] := by
  have heq := held_eq s
  rw [step] at h
  split at h
  · next hp => exact held_base hp h
  · next hp =>
      have hone : owed s.pending = 1 := by rw [hp]; rfl
      split at h
      · next hq =>
          cases h
          have hnot : c ≠ '"' := by
            rintro rfl
            exact hq.2 (by decide)
          have htwo : heat ['\\', c] = 1 + heat [c] := heat_append ['\\'] [c]
          rw [held_push, if_neg hnot, htwo]
          omega
      · split at h
        · cases h
        · cases h
          have hle : heat [c] ≤ 1 := by
            rw [heat_singleton]
            split <;> omega
          rw [held_push]
          split <;> omega
  · next hp =>
      have hone : owed s.pending = 1 := by rw [hp]; rfl
      split at h
      · cases h
        have hname : held (s.wait (.name [c])) = held (s.wait .nothing) := rfl
        omega
      · split at h
        · cases h
          have hbrace : held (s.wait (.brace [])) = held (s.wait .nothing) := rfl
          omega
        · split at h
          · cases h
          · have hbase := held_base rfl h
            have hdollar : heat ['$'] = 1 := rfl
            rw [held_push, hdollar] at hbase
            omega
  · next nm hp =>
      split at h
      · cases h
        have hname : held (s.wait (.name (nm ++ [c]))) = held (s.wait .nothing) := rfl
        omega
      · obtain ⟨s₁, hexp, hbase⟩ := Option.bind_eq_some_iff.mp h
        obtain ⟨hp₁, hle⟩ := held_expand hcold hexp
        have hb := held_base hp₁ hbase
        omega
  · next nm hp =>
      split at h
      · split at h
        · cases h
        · obtain ⟨-, hle⟩ := held_expand hcold h
          omega
      · split at h
        · cases h
          have hbrace : held (s.wait (.brace (nm ++ [c]))) = held (s.wait .nothing) := rfl
          omega
        · cases h

/-- A text adds its own at most. -/
theorem held_run {s s' : Lexer} {t : Text} (h : run env s t = some s') :
    held s' ≤ held s + heat t := by
  induction t generalizing s with
  | nil =>
      cases h
      exact Nat.le_refl _
  | cons c t ih =>
      rw [run_cons] at h
      obtain ⟨s₁, hstep, hrest⟩ := Option.bind_eq_some_iff.mp h
      have h₁ := held_step hcold hstep
      have h₂ := ih hrest
      have hcons := heat_cons c t
      split at h₁ <;> omega

/-- The words have no more heat than was held. -/
theorem total_finish {s : Lexer} {ws : List Text} (h : finish env s = some ws) :
    total ws ≤ held s := by
  have heq := held_eq s
  obtain ⟨s₁, hs₁, hws⟩ := Option.bind_eq_some_iff.mp h
  have hle : held s₁ ≤ held s := by
    rw [settle] at hs₁
    split at hs₁
    · cases hs₁
      exact Nat.le_refl _
    · next hp =>
        cases hs₁
        have hone : owed s.pending = 1 := by rw [hp]; rfl
        have hdollar : heat ['$'] = 1 := rfl
        rw [held_push, hdollar]
        omega
    · have hexp := (held_expand hcold hs₁).2
      omega
    · cases hs₁
    · cases hs₁
  split at hws
  · cases hws
  · cases hws
    have hdone : total s₁.endWord.done ≤ held s₁.endWord := by
      rw [held]
      omega
    rw [held_endWord] at hdone
    omega

/-- A text and a quote behind it add the text's own at most. -/
theorem total_quoted {s₁ s : Lexer} {u : Text} {ws : List Text} (hrun : run env s₁ (u ++ ['"']) = some s)
    (hfinish : finish env s = some ws) : total ws ≤ held s₁ + heat u := by
  have hend := total_finish hcold hfinish
  rw [run_append] at hrun
  obtain ⟨s₂, h₂, hquote⟩ := Option.bind_eq_some_iff.mp hrun
  rw [run_cons] at hquote
  obtain ⟨s₃, hstep, hnil⟩ := Option.bind_eq_some_iff.mp hquote
  cases hnil
  have h₃ := held_step hcold hstep
  have h₂ := held_run hcold h₂
  rw [if_pos rfl] at h₃
  omega

omit hcold in
/-- A `$` that begins an expansion is gone. -/
theorem held_dollar {w : Text} {done : List Text} {s : Lexer} {d : Char}
    (hopen : nameStart d ∨ d = '{' ∨ special d) (h : step env ⟨true, some w, done, .dollar⟩ d = some s) :
    held s ≤ heat w + total done := by
  rw [step] at h
  split at h <;> try (next hp => cases hp)
  split at h
  · cases h
    exact Nat.le_refl _
  · next hname =>
      split at h
      · cases h
        exact Nat.le_refl _
      · next hbrace =>
          split at h
          · cases h
          · next hspecial =>
              rcases hopen with h | h | h
              · exact absurd h hname
              · exact absurd h hbrace
              · exact absurd h hspecial

omit hcold in
/-- A backslash that quotes what follows it is gone. -/
theorem held_escape {w : Text} {done : List Text} {s : Lexer} {d : Char} (hq : quotable d = true)
    (h : step env ⟨true, some w, done, .escape⟩ d = some s) :
    held s ≤ heat w + total done + heat [d] := by
  have hval : some s = some ((Lexer.mk true (some w) done .nothing).push [d]) := by
    rw [← h, step]
    show (if true = true ∧ ¬ quotable d = true then _ else _) = _
    rw [if_neg (fun h => h.2 hq), if_neg]
    · rfl
    · rintro rfl
      exact absurd hq (by decide)
  cases hval
  rw [held_push]
  exact Nat.le_refl _

/-- What is left when a character that quotes do not keep has been read. -/
theorem total_lost {s₁ s : Lexer} {d : Char} {v : Text} {ws : List Text} {n : Nat}
    (hstep : ∀ s₂, step env s₁ d = some s₂ → held s₂ ≤ n)
    (hrun : run env s₁ (d :: v ++ ['"']) = some s) (hfinish : finish env s = some ws) :
    total ws ≤ n + heat v := by
  rw [List.cons_append, run_cons] at hrun
  obtain ⟨s₂, hstep₂, hrun⟩ := Option.bind_eq_some_iff.mp hrun
  have hlast := total_quoted hcold hrun hfinish
  have hheld := hstep s₂ hstep₂
  omega

/-- **What quotes do not keep is lost**: a text that is not inert, and the quote behind it, leave at
    least two of their characters behind. -/
theorem inert_or_lost {v : Text} : ∀ {w : Text} {done : List Text} {s : Lexer} {ws : List Text},
    run env ⟨true, some w, done, .nothing⟩ (v ++ ['"']) = some s → finish env s = some ws →
    Inert v ∨ total ws + 1 ≤ heat w + total done + heat v := by
  induction v with
  | nil => exact fun _ _ => Or.inl trivial
  | cons c v ih =>
      intro w done s ws hrun hfinish
      have hcons := heat_cons c v
      rw [List.cons_append, run_cons] at hrun
      obtain ⟨s₁, hstep, hrun⟩ := Option.bind_eq_some_iff.mp hrun
      by_cases hd : c = '$'
      · subst hd
        cases hstep
        have hone : heat ['$'] = 1 := rfl
        rcases v with _ | ⟨d, v⟩
        · refine Or.inl ⟨by decide, by decide, fun h => absurd h (by decide), fun _ d hd => ?_, trivial⟩
          cases hd
        · by_cases hopen : nameStart d ∨ d = '{' ∨ special d
          · have hlast : total ws ≤ heat w + total done + heat v :=
              total_lost hcold (fun s₂ => held_dollar hopen) hrun hfinish
            have hd := heat_cons d v
            right
            omega
          · have hsame : run env ⟨true, some (w ++ ['$']), done, .nothing⟩ (d :: v ++ ['"']) =
                some s := by
              rw [← hrun]
              exact (run_dollar hopen).symm
            rcases ih hsame hfinish with hinert | hlost
            · refine Or.inl ⟨by decide, by decide, fun h => absurd h (by decide), ?_, hinert⟩
              rintro - e he
              cases he
              exact hopen
            · right
              rw [heat_append, hone] at hlost
              omega
      · by_cases hb : c = '\\'
        · subst hb
          cases hstep
          have hone : heat ['\\'] = 1 := rfl
          rcases v with _ | ⟨d, v⟩
          · -- the backslash quotes the closing quote, and the line ends in quotes
            exact absurd hfinish (by cases hrun; exact fun h => by cases h)
          · by_cases hq : quotable d = true
            · have hlast : total ws ≤ heat w + total done + heat [d] + heat v :=
                total_lost hcold (fun s₂ => held_escape hq) hrun hfinish
              have hd := heat_cons d v
              right
              omega
            · have hsame : run env ⟨true, some (w ++ ['\\']), done, .nothing⟩ (d :: v ++ ['"']) =
                  some s := by
                rw [← hrun]
                exact (run_escape hq).symm
              rcases ih hsame hfinish with hinert | hlost
              · exact Or.inl ⟨by decide, by decide, fun _ => ⟨d, rfl, hq⟩,
                  fun h => absurd h (by decide), hinert⟩
              · right
                rw [heat_append, hone] at hlost
                omega
        · by_cases hquote : c = '"'
          · subst hquote
            cases hstep
            have hone : heat ['"'] = 1 := rfl
            have hlast : total ws ≤ heat w + total done + 0 + heat v := total_quoted hcold hrun hfinish
            right
            omega
          · have hstep' : (if c = '`' then none else
                some ((Lexer.mk true (some w) done .nothing).push [c])) = some s₁ := by
              rw [← hstep]
              show _ = base _ c
              rw [base, if_neg hd, if_neg hb, if_pos rfl, if_neg hquote]
            split at hstep'
            · cases hstep'
            · next hback =>
                cases hstep'
                rcases ih hrun hfinish with hinert | hlost
                · exact Or.inl ⟨hquote, hback, fun h => absurd h hb, fun h => absurd h hd, hinert⟩
                · right
                  have hlost : total ws + 1 ≤ heat (w ++ [c]) + total done + heat v := hlost
                  rw [heat_append] at hlost
                  omega

end Lexer
end ShellWords
