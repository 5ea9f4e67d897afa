/-
  The source text of a tree of nodes, as it is read.

  `scan` cuts a text into words, strings in quotes and marks; blanks and comments come out as nothing.
  `read` goes over the pieces with the nodes that are open (`St`), and gives the nodes in the order in
  which they are closed, each with its path from the root and its properties.  A text whose braces do not
  match, or with a piece out of its place, is no source.

  `Leads t a b` is that the text `t` takes the reader from `a` to `b`, whatever stands behind it:

  * texts in a row lead from the first state to the last (`Leads.append`, `leads_flatMap`);
  * `key = "value";` adds a property to the innermost node (`leads_string`), and so does a value that is
    not quoted (`leads_value`);
  * `name {` opens a node (`leads_open`), and `};` closes it under its path (`leads_close`).

  A text that leads from the first state to one without an open node is read as the nodes closed by then
  (`read_of_leads`).
-/
import DentOS.Lib.PyText

namespace TreeSource

open PyText

/-! ## Pieces of a text

  A text is read letter by letter, in a `Mode` that says what the letter belongs to. -/

/-- A piece of a source. -/
inductive Token where
  | word (w : Text)
  | str (v : Text)
  | mark (c : Char)
  /-- a string or a comment without an end, or an escape, which is not read -/
  | bad
  deriving DecidableEq

/-- What the next letter belongs to. -/
inductive Mode where
  /-- a word, with the letters of it so far -/
  | plain (w : Text)
  /-- a string, with what stands behind its quote so far -/
  | str (v : Text)
  | comment
  /-- nothing: it is passed over -/
  | skip (m : Mode)

/-- The word that has been read, if there is one. -/
def flush (w : Text) : List Token := if w = [] then [] else [.word w]

/-- A letter that is a piece of its own. -/
def isMark (c : Char) : Bool := c ∈ ['\x7b', '\x7d', ';', '=', '(', ')', '<', '>']

/-- The pieces of a text. -/
def scan : Mode → Text → List Token
  | .plain w, [] => flush w
  | .plain w, c :: t =>
      if c = '"' then flush w ++ scan (.str []) t
      else if c = '/' ∧ t.head? = some '*' then flush w ++ scan (.skip .comment) t
      else if isSpace c then flush w ++ scan (.plain []) t
      else if isMark c then flush w ++ .mark c :: scan (.plain []) t
      else scan (.plain (w ++ [c])) t
  | .str _, [] => [.bad]
  | .str v, c :: t =>
      if c = '"' then .str v :: scan (.plain []) t
      else if c = '\\' then [.bad]
      else scan (.str (v ++ [c])) t
  | .comment, [] => [.bad]
  | .comment, c :: t =>
      if c = '*' ∧ t.head? = some '/' then scan (.skip (.plain [])) t else scan .comment t
  | .skip _, [] => [.bad]
  | .skip m, _ :: t => scan m t

/-! ## Nodes, and the reader that collects them -/

/-- A node that is open, with its properties so far. -/
structure Open where
  /-- The name of the node. -/
  name : Text
  /-- Its properties so far. -/
  props : List (Text × List Token)

/-- A node that has been closed: the names from the root down to it, and its properties. -/
structure Node where
  /-- The names from the root down to it. -/
  path : List Text
  /-- Its properties. -/
  props : List (Text × List Token)

/-- The value of a property that is one string. -/
def Node.string (n : Node) (key : Text) : Option Text :=
  match n.props.lookup key with
  | some [.str v] => some v
  | _ => none

/-- The file of a property that is `/incbin/("file")`. -/
def Node.incbin (n : Node) (key : Text) : Option Text :=
  match n.props.lookup key with
  | some [.word w, .mark '(', .str f, .mark ')'] => if w = "/incbin/".toList then some f else none
  | _ => none

/-- The reader: the open nodes from the innermost out, those closed, and the pieces of the statement that
    it is in. -/
structure St where
  /-- The open nodes, from the innermost out. -/
  opened : List Open
  /-- The nodes that have been closed. -/
  closed : List Node
  /-- The pieces of the statement so far. -/
  pending : List Token

/-- The path of the innermost node. -/
def pathOf (opened : List Open) : List Text := (opened.map Open.name).reverse

/-- A semicolon: the end of a property, of a directive of the file, or of a node. -/
def St.statement (s : St) : Option St :=
  match s.pending, s.opened with
  | [], _ => some s
  | [.word _], [] => some { s with pending := [] }
  | .word key :: .mark '=' :: value, o :: os =>
      some { s with opened := { o with props := o.props ++ [(key, value)] } :: os, pending := [] }
  | _, _ => none

/-- A brace that opens a node. -/
def St.openNode (s : St) : Option St :=
  match s.pending with
  | [.word name] => some { s with opened := ⟨name, []⟩ :: s.opened, pending := [] }
  | _ => none

/-- A brace that closes one. -/
def St.closeNode (s : St) : Option St :=
  match s.pending, s.opened with
  | [], o :: os => some { s with opened := os, closed := s.closed ++ [⟨pathOf (o :: os), o.props⟩] }
  | _, _ => none

/-- The next piece. -/
def St.step (s : St) (k : Token) : Option St :=
  if k = .bad then none
  else if k = .mark ';' then s.statement
  else if k = .mark '\x7b' then s.openNode
  else if k = .mark '\x7d' then s.closeNode
  else some { s with pending := s.pending ++ [k] }

/-- **The nodes of a source**, in the order in which they are closed. -/
def read (t : Text) : Option (List Node) :=
  match (scan (.plain []) t).foldlM St.step ⟨[], [], []⟩ with
  | some ⟨[], closed, []⟩ => some closed
  | _ => none

/-- The nodes of a path. -/
def nodesAt (ns : List Node) (path : List Text) : List Node := ns.filter fun n => n.path = path

/-! ## What a text does to the reader, whatever is in front of it -/

/-- A text that comes out as these pieces, whatever stands behind it. -/
def Scans (t : Text) (ks : List Token) : Prop :=
  ∀ u, scan (.plain []) (t ++ u) = ks ++ scan (.plain []) u

/-- **A text takes the reader from a state to another**, whatever stands behind it. -/
def Leads (t : Text) (a b : St) : Prop := ∃ ks, Scans t ks ∧ ks.foldlM St.step a = some b

/-- Two texts are scanned one behind the other. -/
theorem Scans.append {t u : Text} {ks ls : List Token} (ht : Scans t ks) (hu : Scans u ls) :
    Scans (t ++ u) (ks ++ ls) := by
  intro v
  rw [List.append_assoc, ht, hu, List.append_assoc]

/-- Two texts lead one behind the other. -/
theorem Leads.append {t u : Text} {a b c : St} (ht : Leads t a b) (hu : Leads u b c) :
    Leads (t ++ u) a c := by
  obtain ⟨ks, hks, ha⟩ := ht
  obtain ⟨ls, hls, hb⟩ := hu
  refine ⟨ks ++ ls, hks.append hls, ?_⟩
  rw [List.foldlM_append, ha]
  exact hb

/-- Nothing leads nowhere. -/
theorem leads_nil (a : St) : Leads [] a a := ⟨[], fun _ => rfl, rfl⟩

/-- Texts in a row, of which each adds its nodes to those closed. -/
theorem leads_flatMap {α : Type} {text : α → Text} {nodes : α → List Node} {os : List Open} :
    ∀ {l : List α} {ns : List Node},
      (∀ x ∈ l, ∀ ns, Leads (text x) ⟨os, ns, []⟩ ⟨os, ns ++ nodes x, []⟩) →
      Leads (l.flatMap text) ⟨os, ns, []⟩ ⟨os, ns ++ l.flatMap nodes, []⟩
  | [], ns, _ => by
      rw [List.flatMap_nil, List.flatMap_nil, List.append_nil]
      exact leads_nil _
  | x :: l, ns, h => by
      rw [List.flatMap_cons, List.flatMap_cons, ← List.append_assoc]
      exact (h x List.mem_cons_self ns).append
        (leads_flatMap fun y hy => h y (List.mem_cons_of_mem x hy))

/-- **A source is read** where it leads to a state without an open node. -/
theorem read_of_leads {t : Text} {ns : List Node} (h : Leads t ⟨[], [], []⟩ ⟨[], ns, []⟩) :
    read t = some ns := by
  obtain ⟨ks, hks, hrun⟩ := h
  have hscan : scan (.plain []) t = ks := by
    have h := hks []
    rw [List.append_nil] at h
    exact h.trans (List.append_nil ks)
  rw [read, hscan, hrun]

/-! ## Words, strings and comments -/

/-- A letter of a word; a slash is none, since it may begin a comment. -/
def wordChar (c : Char) : Bool := c ≠ '"' && c ≠ '\\' && c ≠ '/' && !isSpace c && !isMark c

/-- A text that can stand for a node, or for a key. -/
def IsName (t : Text) : Prop := t ≠ [] ∧ ∀ c ∈ t, wordChar c

instance (t : Text) : Decidable (IsName t) :=
  decidable_of_iff (t ≠ [] ∧ t.all wordChar = true) (and_congr_right fun _ => List.all_eq_true)

/-- A text that can stand between quotes. -/
def Quotable (t : Text) : Prop := '"' ∉ t ∧ '\\' ∉ t

instance (t : Text) : Decidable (Quotable t) := inferInstanceAs (Decidable ('"' ∉ t ∧ '\\' ∉ t))

/-- A name can stand between quotes. -/
theorem IsName.quotable {t : Text} (h : IsName t) : Quotable t :=
  ⟨fun hquote => absurd (h.2 _ hquote) (by decide), fun hescape => absurd (h.2 _ hescape) (by decide)⟩

/-- The letters of a word are put to it. -/
theorem scan_word : ∀ {w : Text}, (∀ c ∈ w, wordChar c) → ∀ u t,
    scan (.plain u) (w ++ t) = scan (.plain (u ++ w)) t
  | [], _, u, t => by rw [List.append_nil, List.nil_append]
  | c :: w, h, u, t => by
      have hc := h c List.mem_cons_self
      rw [wordChar, Bool.and_eq_true, Bool.and_eq_true, Bool.and_eq_true, Bool.and_eq_true] at hc
      obtain ⟨⟨⟨⟨hquote, -⟩, hslash⟩, hspace⟩, hmark⟩ := hc
      rw [List.cons_append, scan, if_neg (of_decide_eq_true hquote),
        if_neg fun h => of_decide_eq_true hslash h.1, if_neg (by simpa using hspace),
        if_neg (by simpa using hmark), scan_word fun x hx => h x (List.mem_cons_of_mem c hx),
        List.append_assoc]
      rfl

/-- A blank or a mark ends the word in front of it. -/
theorem scan_ends {c : Char} (hc : isSpace c ∨ isMark c) (hquote : c ≠ '"') (hslash : c ≠ '/') (w t : Text) :
    scan (.plain w) (c :: t) = flush w ++ scan (.plain []) (c :: t) := by
  have hscan : ∀ w, scan (.plain w) (c :: t) =
      flush w ++ if isSpace c then scan (.plain []) t else .mark c :: scan (.plain []) t := by
    intro w
    rw [scan, if_neg hquote, if_neg fun h => hslash h.1]
    by_cases hspace : isSpace c
    · rw [if_pos hspace, if_pos hspace]
    · rw [if_neg hspace, if_neg hspace, if_pos (hc.resolve_left hspace)]
  rw [hscan w, hscan []]
  rfl

/-- A word, and a blank or a mark behind it. -/
theorem scan_name {w : Text} (h : IsName w) {c : Char} (hc : isSpace c ∨ isMark c) (hquote : c ≠ '"')
    (hslash : c ≠ '/') (t : Text) :
    scan (.plain []) (w ++ c :: t) = .word w :: scan (.plain []) (c :: t) := by
  rw [scan_word h.2, List.nil_append, scan_ends hc hquote hslash, flush, if_neg h.1]
  rfl

/-- A string, up to its quote. -/
theorem scan_quotable : ∀ {v : Text}, Quotable v → ∀ u t,
    scan (.str u) (v ++ '"' :: t) = .str (u ++ v) :: scan (.plain []) t
  | [], _, u, t => by
      rw [List.append_nil, List.nil_append, scan, if_pos rfl]
  | c :: v, h, u, t => by
      obtain ⟨hquote, hescape⟩ := h
      have hc : c ≠ '"' ∧ c ≠ '\\' :=
        ⟨fun hc => hquote (hc ▸ List.mem_cons_self), fun hc => hescape (hc ▸ List.mem_cons_self)⟩
      rw [List.cons_append, scan, if_neg hc.1, if_neg hc.2,
        scan_quotable ⟨fun hc => hquote (List.mem_cons_of_mem c hc),
          fun hc => hescape (List.mem_cons_of_mem c hc)⟩, List.append_assoc]
      rfl

/-- A comment goes on over a text that does not end it. -/
theorem scan_comment : ∀ {v : Text}, ¬ ['*', '/'] <:+: v → ∀ {c : Char}, c ≠ '/' → ∀ t,
    scan .comment (v ++ c :: t) = scan .comment (c :: t)
  | [], _, c, _, t => rfl
  | x :: v, h, c, hc, t => by
      have hgo : ¬ (x = '*' ∧ (v ++ c :: t).head? = some '/') := by
        rintro ⟨rfl, hhead⟩
        cases v with
        | nil => exact hc (Option.some.inj hhead)
        | cons y v =>
            rw [Option.some.inj hhead] at h
            exact h ⟨[], v, rfl⟩
      rw [List.cons_append, scan, if_neg hgo]
      exact scan_comment (fun hv => h (hv.trans (List.suffix_cons x v).isInfix)) hc t

/-! ## Properties and braces

  The forms that sources are made of, each with any blanks around it (`Leads.indent`, `Leads.trail`). -/

/-- Blanks come out as nothing. -/
theorem scans_blanks : ∀ {t : Text}, t.all isSpace → Scans t []
  | [], _, _ => rfl
  | c :: t, h, u => by
      rw [List.all_cons, Bool.and_eq_true] at h
      obtain ⟨hspace, hrest⟩ := h
      have hletter : c ≠ '"' ∧ c ≠ '/' := by
        constructor <;> rintro rfl <;> exact absurd hspace (by decide)
      rw [List.cons_append, scan, if_neg hletter.1, if_neg fun h => hletter.2 h.1, if_pos hspace]
      exact scans_blanks hrest u

/-- Blanks in front of a text take nothing away. -/
theorem Leads.indent {t : Text} {a b : St} (h : Leads t a b) (front : Text)
    (hfront : front.all isSpace) : Leads (front ++ t) a b :=
  Leads.append ⟨[], scans_blanks hfront, rfl⟩ h

/-- Blanks behind a text do nothing to the reader. -/
theorem Leads.trail {t : Text} {a b : St} (h : Leads t a b) (back : Text) (hback : back.all isSpace) :
    Leads (t ++ back) a b :=
  h.append ⟨[], scans_blanks hback, rfl⟩

/-- `key = "value";` is a property of the innermost node. -/
theorem leads_string {key value : Text} (hkey : IsName key) (hvalue : Quotable value) (o : Open)
    (os : List Open) (ns : List Node) :
    Leads (key ++ (" = \"".toList ++ (value ++ "\";".toList))) ⟨o :: os, ns, []⟩
      ⟨{ o with props := o.props ++ [(key, [.str value])] } :: os, ns, []⟩ := by
  refine ⟨[.word key, .mark '=', .str value, .mark ';'], fun u => ?_, rfl⟩
  have hquote : ∀ t, scan (.plain []) (" = \"".toList ++ t) = .mark '=' :: scan (.str []) t := fun _ => rfl
  calc scan (.plain []) (key ++ (" = \"".toList ++ (value ++ "\";".toList)) ++ u)
      = scan (.plain []) (key ++ ' ' :: ("= \"".toList ++ (value ++ '"' :: ';' :: u))) := by
        simp only [List.append_assoc]
        rfl
    _ = .word key :: scan (.plain []) (" = \"".toList ++ (value ++ '"' :: ';' :: u)) :=
        scan_name hkey (Or.inl rfl) (by decide) (by decide) _
    _ = .word key :: .mark '=' :: scan (.str []) (value ++ '"' :: ';' :: u) := by rw [hquote]
    _ = .word key :: .mark '=' :: .str value :: scan (.plain []) (';' :: u) := by
        rw [scan_quotable hvalue, List.nil_append]
    _ = [.word key, .mark '=', .str value, .mark ';'] ++ scan (.plain []) u := rfl

/-- `key = /incbin/("file");` is one, too. -/
theorem leads_incbin {key file : Text} (hkey : IsName key) (hfile : Quotable file) (o : Open)
    (os : List Open) (ns : List Node) :
    Leads (key ++ (" = /incbin/(\"".toList ++ (file ++ "\");".toList))) ⟨o :: os, ns, []⟩
      ⟨{ o with props := o.props ++
          [(key, [.word "/incbin/".toList, .mark '(', .str file, .mark ')'])] } :: os, ns, []⟩ := by
  refine ⟨[.word key, .mark '=', .word "/incbin/".toList, .mark '(', .str file, .mark ')', .mark ';'],
    fun u => ?_, rfl⟩
  have hquote : ∀ t, scan (.plain []) (" = /incbin/(\"".toList ++ t) =
      .mark '=' :: .word "/incbin/".toList :: .mark '(' :: scan (.str []) t := fun _ => rfl
  calc scan (.plain []) (key ++ (" = /incbin/(\"".toList ++ (file ++ "\");".toList)) ++ u)
      = scan (.plain []) (key ++ ' ' :: ("= /incbin/(\"".toList ++ (file ++ '"' :: ')' :: ';' :: u))) := by
        simp only [List.append_assoc]
        rfl
    _ = .word key :: scan (.plain []) (" = /incbin/(\"".toList ++ (file ++ '"' :: ')' :: ';' :: u)) :=
        scan_name hkey (Or.inl rfl) (by decide) (by decide) _
    _ = .word key :: .mark '=' :: .word "/incbin/".toList :: .mark '(' ::
          scan (.str []) (file ++ '"' :: ')' :: ';' :: u) := by rw [hquote]
    _ = .word key :: .mark '=' :: .word "/incbin/".toList :: .mark '(' :: .str file ::
          scan (.plain []) (')' :: ';' :: u) := by rw [scan_quotable hfile, List.nil_append]
    _ = _ := rfl

/-- A value that is no string: words and marks, but none that ends or opens a statement. -/
def IsValue (t : Text) : Prop := ∀ c ∈ t, c ≠ '"' ∧ c ≠ '/' ∧ c ≠ ';' ∧ c ≠ '\x7b' ∧ c ≠ '\x7d'

/-- The pieces of such a value, up to the semicolon behind it. -/
theorem scan_value : ∀ {t : Text}, IsValue t → ∀ w u,
    scan (.plain w) (t ++ ';' :: u) = scan (.plain w) t ++ scan (.plain []) (';' :: u)
  | [], _, w, u => by
      rw [List.nil_append, scan_ends (Or.inr rfl) (by decide) (by decide)]
      rfl
  | c :: t, h, w, u => by
      have htail : IsValue t := fun x hx => h x (List.mem_cons_of_mem c hx)
      obtain ⟨hquote, hslash, -⟩ := h c List.mem_cons_self
      have hscan : ∀ t, scan (.plain w) (c :: t) =
          if isSpace c then flush w ++ scan (.plain []) t
          else if isMark c then flush w ++ .mark c :: scan (.plain []) t
          else scan (.plain (w ++ [c])) t := by
        intro t
        rw [scan, if_neg hquote, if_neg fun h => hslash h.1]
      rw [List.cons_append, hscan, hscan]
      split
      · rw [scan_value htail, List.append_assoc]
      · split
        · rw [scan_value htail, List.append_assoc]
          rfl
        · exact scan_value htail _ u

/-- The pieces of such a value stay in the statement. -/
theorem step_of_value : ∀ {t : Text}, IsValue t → ∀ {w : Text} {k : Token}, k ∈ scan (.plain w) t →
    ∀ s : St, s.step k = some { s with pending := s.pending ++ [k] }
  | [], _, w, k, hk, s => by
      rw [scan, flush] at hk
      split at hk
      · cases hk
      · rw [List.mem_singleton.mp hk]
        rfl
  | c :: t, h, w, k, hk, s => by
      have htail : IsValue t := fun x hx => h x (List.mem_cons_of_mem c hx)
      obtain ⟨hquote, hslash, hend, hopen, hclose⟩ := h c List.mem_cons_self
      have hflush : k ∈ flush w → s.step k = some { s with pending := s.pending ++ [k] } := by
        intro hk
        rw [flush] at hk
        split at hk
        · cases hk
        · rw [List.mem_singleton.mp hk]
          rfl
      rw [scan, if_neg hquote, if_neg fun h => hslash h.1] at hk
      split at hk
      · exact (List.mem_append.mp hk).elim hflush fun hk => step_of_value htail hk s
      · split at hk
        · rcases List.mem_append.mp hk with hk | hk
          · exact hflush hk
          · rcases List.mem_cons.mp hk with rfl | hk
            · have hmark : ∀ {d : Char}, c ≠ d → Token.mark c ≠ .mark d := fun hne h =>
                hne (Token.mark.inj h)
              rw [St.step, if_neg nofun, if_neg (hmark hend), if_neg (hmark hopen), if_neg (hmark hclose)]
            · exact step_of_value htail hk s
        · exact step_of_value htail hk s

/-- A run over pieces that stay in the statement. -/
theorem foldlM_pending : ∀ {ks : List Token},
    (∀ k ∈ ks, ∀ s : St, s.step k = some { s with pending := s.pending ++ [k] }) → ∀ s : St,
    ks.foldlM St.step s = some { s with pending := s.pending ++ ks }
  | [], _, s => by rw [List.append_nil]; rfl
  | k :: ks, h, s => by
      rw [List.foldlM_cons, h k List.mem_cons_self]
      refine (foldlM_pending (fun k' hk' => h k' (List.mem_cons_of_mem k hk')) _).trans ?_
      rw [List.append_assoc]
      rfl

/-- `key = value;`, with a value that is not quoted. -/
theorem leads_value {key value : Text} (hkey : IsName key) (hvalue : IsValue value) (o : Open)
    (os : List Open) (ns : List Node) :
    Leads (key ++ (" = ".toList ++ (value ++ [';']))) ⟨o :: os, ns, []⟩
      ⟨{ o with props := o.props ++ [(key, scan (.plain []) value)] } :: os, ns, []⟩ := by
  refine ⟨.word key :: .mark '=' :: scan (.plain []) value ++ [.mark ';'], fun u => ?_, ?_⟩
  · calc scan (.plain []) (key ++ (" = ".toList ++ (value ++ [';'])) ++ u)
        = scan (.plain []) (key ++ ' ' :: ("= ".toList ++ (value ++ ';' :: u))) := by
          simp only [List.append_assoc]
          rfl
      _ = .word key :: .mark '=' :: scan (.plain []) (value ++ ';' :: u) :=
          scan_name hkey (Or.inl rfl) (by decide) (by decide) _
      _ = .word key :: .mark '=' :: (scan (.plain []) value ++ .mark ';' :: scan (.plain []) u) := by
          rw [scan_value hvalue]
          rfl
      _ = _ := by
          rw [List.append_assoc]
          rfl
  · rw [List.foldlM_append]
    have hpieces : ∀ k ∈ scan (.plain []) value, ∀ s : St,
        s.step k = some { s with pending := s.pending ++ [k] } := fun k hk => step_of_value hvalue hk
    have hrun := foldlM_pending hpieces ⟨o :: os, ns, [.word key, .mark '=']⟩
    have hfold : (Token.word key :: .mark '=' :: scan (.plain []) value).foldlM St.step
        ⟨o :: os, ns, []⟩ = some ⟨o :: os, ns, .word key :: .mark '=' :: scan (.plain []) value⟩ := hrun
    rw [hfold]
    rfl

/-- `name {` opens a node. -/
theorem leads_open {name : Text} (h : IsName name) (os : List Open) (ns : List Node) :
    Leads (name ++ " \x7b".toList) ⟨os, ns, []⟩ ⟨⟨name, []⟩ :: os, ns, []⟩ := by
  refine ⟨[.word name, .mark '\x7b'], fun u => ?_, rfl⟩
  calc scan (.plain []) (name ++ " \x7b".toList ++ u)
      = scan (.plain []) (name ++ ' ' :: '\x7b' :: u) := by
        rw [List.append_assoc]
        rfl
    _ = .word name :: scan (.plain []) (' ' :: '\x7b' :: u) :=
        scan_name h (Or.inl rfl) (by decide) (by decide) _
    _ = _ := rfl

/-- `};` closes the innermost node. -/
theorem leads_close (o : Open) (os : List Open) (ns : List Node) :
    Leads "\x7d;".toList ⟨o :: os, ns, []⟩ ⟨os, ns ++ [⟨pathOf (o :: os), o.props⟩], []⟩ :=
  ⟨[.mark '\x7d', .mark ';'], fun _ => rfl, rfl⟩

end TreeSource
