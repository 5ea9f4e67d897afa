/-
  `string.Template` and its `substitute`.

  A text is read letter by letter (`scan`): `$$` is a dollar, `$name` and `${name}` are references, and
  any other dollar is an error.  Every reference is replaced by what the table holds under its name, in
  one pass: what is put in is not read again.

  A result depends on the names that are referred to, and on nothing else of the table
  (`substitute_congr`).  It does depend on each of them: two tables that differ in one name that is
  referred to have different results (`eq_of_substitute`).
-/
import DentOS.Lib.Dict
import DentOS.Lib.PyText

namespace Template

open PyText

/-! ## Reading a text into pieces and names -/

/-- A piece of a template. -/
inductive Token where
  | lit (c : Char)
  | ref (name : Text)
  | invalid
  deriving DecidableEq

/-- What was read last: a name so far, behind a dollar or a dollar and a brace. -/
inductive Reading where
  | text
  | dollar
  | named (name : Text)
  | opened
  | braced (name : Text)

/-- `[_a-z]`, in either case. -/
def nameStart (c : Char) : Bool := c.isAlpha || c = '_'

/-- `[_a-z0-9]`. -/
def nameChar (c : Char) : Bool := c.isAlphanum || c = '_'

/-- A template's pieces, letter by letter. -/
def scan : Reading → Text → List Token
  | .text, [] => []
  | .text, c :: t => if c = '$' then scan .dollar t else .lit c :: scan .text t
  | .dollar, [] => [.invalid]
  | .dollar, c :: t =>
      if c = '$' then .lit '$' :: scan .text t
      else if nameStart c then scan (.named [c]) t
      else if c = '\x7b' then scan .opened t
      else [.invalid]
  | .named name, [] => [.ref name]
  | .named name, c :: t =>
      if nameChar c then scan (.named (name ++ [c])) t
      else if c = '$' then .ref name :: scan .dollar t
      else .ref name :: .lit c :: scan .text t
  | .opened, [] => [.invalid]
  | .opened, c :: t => if nameStart c then scan (.braced [c]) t else [.invalid]
  | .braced _, [] => [.invalid]
  | .braced name, c :: t =>
      if nameChar c then scan (.braced (name ++ [c])) t
      else if c = '\x7d' then .ref name :: scan .text t
      else [.invalid]

/-- A text without dollars stands for itself. -/
theorem scan_plain : ∀ {t : Text}, '$' ∉ t → scan .text t = t.map Token.lit
  | [], _ => rfl
  | c :: t, h => by
      have hc : c ≠ '$' := fun heq => h (heq ▸ List.mem_cons_self)
      have ht : '$' ∉ t := fun hmem => h (List.mem_cons_of_mem c hmem)
      rw [scan, if_neg hc, scan_plain ht, List.map_cons]

/-! ## Substitution of the names, over a table -/

/-- What `substitute` raises. -/
inductive TemplateError where
  | unresolved (name : Text)
  | valueError
  deriving DecidableEq

/-- Names and their values. -/
abbrev Table := Dict Text Text

/-- What a token stands for. -/
def expand (d : Table) : Token → Except TemplateError Text
  | .lit c => .ok [c]
  | .ref name =>
      match d name with
      | some v => .ok v
      | none => .error (.unresolved name)
  | .invalid => .error .valueError

/-- The pieces expanded, one behind the other. -/
def expandAll (d : Table) : List Token → Except TemplateError Text
  | [] => .ok []
  | t :: ts =>
      match expand d t with
      | .error e => .error e
      | .ok v => (expandAll d ts).map (v ++ ·)

/-- `Template(s).substitute(d)`. -/
def substitute (s : Text) (d : Table) : Except TemplateError Text := expandAll d (scan .text s)

/-- The names that a text refers to. -/
def refs (s : Text) : List Text := (scan .text s).filterMap fun t =>
  match t with
  | .ref name => some name
  | _ => none

/-- The references are those among the pieces. -/
theorem mem_refs {s name : Text} : name ∈ refs s ↔ Token.ref name ∈ scan .text s := by
  rw [refs, List.mem_filterMap]
  constructor
  · rintro ⟨t, ht, hname⟩
    cases t with
    | lit c => cases hname
    | invalid => cases hname
    | ref n =>
        cases hname
        exact ht
  · exact fun h => ⟨_, h, rfl⟩

/-- A list of pieces is expanded when the first and the others are. -/
theorem expandAll_cons_ok {d : Table} {t : Token} {ts : List Token} {r : Text} :
    expandAll d (t :: ts) = .ok r ↔
      ∃ v r', expand d t = .ok v ∧ expandAll d ts = .ok r' ∧ r = v ++ r' := by
  rw [expandAll]
  cases expand d t with
  | error e =>
      constructor
      · rintro ⟨⟩
      · rintro ⟨_, _, h, -⟩
        cases h
  | ok v =>
      cases expandAll d ts with
      | error e =>
          constructor
          · rintro ⟨⟩
          · rintro ⟨_, _, -, h, -⟩
            cases h
      | ok r' =>
          constructor
          · rintro ⟨⟩
            exact ⟨v, r', rfl, rfl, rfl⟩
          · rintro ⟨_, _, h, h', rfl⟩
            cases h
            cases h'
            rfl

/-- A text without references stands for itself. -/
theorem expandAll_lit (d : Table) : ∀ t : Text, expandAll d (t.map Token.lit) = .ok t
  | [] => rfl
  | c :: t => by
      rw [List.map_cons, expandAll_cons_ok]
      exact ⟨[c], t, rfl, expandAll_lit d t, rfl⟩

/-- **A text without dollars** is left as it is. -/
theorem substitute_plain {s : Text} (h : '$' ∉ s) (d : Table) : substitute s d = .ok s := by
  rw [substitute, scan_plain h, expandAll_lit]

/-- The result depends on the variables that are referred to. -/
theorem expandAll_congr {d d' : Table} : ∀ {ts : List Token},
    (∀ name, Token.ref name ∈ ts → d name = d' name) → expandAll d ts = expandAll d' ts
  | [], _ => rfl
  | t :: ts, h => by
      have hhead : expand d t = expand d' t := by
        cases t with
        | lit c => rfl
        | invalid => rfl
        | ref name => rw [expand, expand, h name List.mem_cons_self]
      rw [expandAll, expandAll, hhead, expandAll_congr fun name hmem => h name (List.mem_cons_of_mem t hmem)]

/-- **Only the names that are referred to count.** -/
theorem substitute_congr {d d' : Table} {s : Text} (h : ∀ name ∈ refs s, d name = d' name) :
    substitute s d = substitute s d' :=
  expandAll_congr fun name hmem => h name (mem_refs.mpr hmem)

/-- Where these have values there is a result. -/
theorem expandAll_total {d d' : Table} : ∀ {ts : List Token} {r : Text},
    (∀ name, Token.ref name ∈ ts → ∃ v, d' name = some v) → expandAll d ts = .ok r →
    ∃ r', expandAll d' ts = .ok r'
  | [], _, _, _ => ⟨[], rfl⟩
  | t :: ts, r, hdefined, h => by
      obtain ⟨v, r', hv, hr', -⟩ := expandAll_cons_ok.mp h
      have hhead : ∃ v', expand d' t = .ok v' := by
        cases t with
        | lit c => exact ⟨[c], rfl⟩
        | invalid => cases hv
        | ref name =>
            obtain ⟨v', hv'⟩ := hdefined name List.mem_cons_self
            rw [expand, hv']
            exact ⟨v', rfl⟩
      obtain ⟨v', hv'⟩ := hhead
      obtain ⟨r'', hr''⟩ := expandAll_total (fun name hmem => hdefined name (List.mem_cons_of_mem t hmem)) hr'
      exact ⟨v' ++ r'', expandAll_cons_ok.mpr ⟨v', r'', hv', hr'', rfl⟩⟩

/-- A text that can be read with one table can be with every other that has its names. -/
theorem substitute_total {d d' : Table} {s r : Text} (h : substitute s d = .ok r)
    (hdefined : ∀ name ∈ refs s, ∃ v, d' name = some v) : ∃ r', substitute s d' = .ok r' :=
  expandAll_total (fun name hmem => hdefined name (mem_refs.mpr hmem)) h

/-- Where there is a result, the variables that are referred to have values. -/
theorem defined_of_expandAll {d : Table} {name : Text} : ∀ {ts : List Token} {r : Text},
    expandAll d ts = .ok r → Token.ref name ∈ ts → ∃ v, d name = some v
  | [], _, _, hmem => absurd hmem List.not_mem_nil
  | t :: ts, r, h, hmem => by
      obtain ⟨v, r', hv, hr', -⟩ := expandAll_cons_ok.mp h
      rcases List.mem_cons.mp hmem with rfl | hmem
      · rw [expand] at hv
        split at hv
        · next w hw => exact ⟨w, hw⟩
        · cases hv
      · exact defined_of_expandAll hr' hmem

/-- A text that can be read has its names in the table. -/
theorem defined_of_substitute {d : Table} {s r name : Text} (h : substitute s d = .ok r)
    (hmem : name ∈ refs s) : ∃ v, d name = some v := defined_of_expandAll h (mem_refs.mp hmem)

/-! ## One name with two values: what is not substituted twice -/

section

variable {d : Table} {name v w : Text}

/-- A token that is another reference, or none, stands for the same. -/
theorem expand_set_ne {t : Token} (ht : t ≠ .ref name) : expand (d.set name w) t = expand d t := by
  cases t with
  | lit c => rfl
  | invalid => rfl
  | ref n =>
      have hne : n ≠ name := fun h => ht (by rw [h])
      rw [expand, expand, Dict.set, if_neg hne]

/-- A variable that was set expands to its value. -/
theorem expand_set_self : expand (d.set name w) (.ref name) = .ok w := by
  rw [expand, Dict.set, if_pos rfl]

/-- Two results differ in length by as much as the two values do, a reference at a time. -/
theorem length_expandAll (hv : d name = some v) : ∀ {ts : List Token} {r r' : Text},
    expandAll d ts = .ok r → expandAll (d.set name w) ts = .ok r' →
    r.length + (ts.count (.ref name)) * w.length = r'.length + (ts.count (.ref name)) * v.length
  | [], r, r', h, h' => by
      cases h
      cases h'
      rw [List.count_nil, Nat.zero_mul, Nat.zero_mul]
  | t :: ts, r, r', h, h' => by
      obtain ⟨x, y, hx, hy, rfl⟩ := expandAll_cons_ok.mp h
      obtain ⟨x', y', hx', hy', rfl⟩ := expandAll_cons_ok.mp h'
      have ih := length_expandAll hv hy hy'
      by_cases ht : t = .ref name
      · subst ht
        rw [expand_set_self] at hx'
        rw [expand, hv] at hx
        cases hx
        cases hx'
        rw [List.count_cons_self, List.length_append, List.length_append, Nat.add_mul, Nat.add_mul,
          Nat.one_mul, Nat.one_mul]
        omega
      · rw [expand_set_ne ht, hx] at hx'
        cases hx'
        rw [List.count_cons_of_ne ht, List.length_append, List.length_append]
        omega

/-- Values of one length that give one result are one value, by induction on the pieces. -/
theorem eq_of_expandAll (hv : d name = some v) (hlength : v.length = w.length) :
    ∀ {ts : List Token} {r : Text}, Token.ref name ∈ ts → expandAll d ts = .ok r →
      expandAll (d.set name w) ts = .ok r → v = w
  | [], _, hmem, _, _ => absurd hmem List.not_mem_nil
  | t :: ts, r, hmem, h, h' => by
      obtain ⟨x, y, hx, hy, rfl⟩ := expandAll_cons_ok.mp h
      obtain ⟨x', y', hx', hy', heq⟩ := expandAll_cons_ok.mp h'
      by_cases ht : t = .ref name
      · subst ht
        rw [expand_set_self] at hx'
        rw [expand, hv] at hx
        cases hx
        cases hx'
        exact List.append_inj_left heq hlength
      · have hrest : Token.ref name ∈ ts := (List.mem_cons.mp hmem).resolve_left fun h => ht h.symm
        rw [expand_set_ne ht, hx] at hx'
        cases hx'
        rw [← List.append_cancel_left heq] at hy'
        exact eq_of_expandAll hv hlength hrest hy hy'

/-- **A name that is referred to counts**: another value for it makes another result. -/
theorem eq_of_substitute {s r : Text} (hv : d name = some v) (hmem : name ∈ refs s)
    (h : substitute s d = .ok r) (h' : substitute s (d.set name w) = .ok r) : v = w := by
  have href := mem_refs.mp hmem
  have hlength : v.length = w.length := by
    have hsum := length_expandAll hv h h'
    have hcount : 0 < (scan .text s).count (.ref name) := List.count_pos_iff.mpr href
    exact (Nat.eq_of_mul_eq_mul_left hcount (Nat.add_left_cancel hsum)).symm
  exact eq_of_expandAll hv hlength href h h'

end

end Template
