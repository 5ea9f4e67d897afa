/-
  Where included files are lexically scoped (tools/onlyaml.py).

  `Scoped` asks that no name is bound where another file would find it.  The definitions of a file are
  written in it (`Own`), and come neither from an include that is the whole document nor from one under
  'variables': those would be read with the tables of two files.  And what a file and its includes look
  for outside of it (`Needs`) is neither defined in the file around it nor left behind by another include
  (`Leaves`), the includes themselves are found with what was there in front of both loads, and a file that
  refers to its directory is in that of the first one.

  The proof follows the registered table.  A load leaves in it what it was called with, but for the names
  that it leaves (`keeps`), so that every include is loaded over a table that agrees with the scope around it
  on what it needs.  `agrees` says from there that what is returned is what `lex` returns; `loads` says that
  something is returned, and for that the first load of a file matters, which has the options as they are
  written.
-/
import DentOS.Onlyaml.Include

namespace DentOS.Onlyaml

open PyText Template

variable {env : Table} {order : DictOrder}

/-! ## Names: what a file refers to, needs from outside, and leaves behind -/

/-- The names of definitions or options. -/
def keys (l : List (Text × Text)) : List Text := l.map Prod.fst

/-- The document may be loaded as the values, as it is written: texts are themselves, and what is
    included is any data. -/
def Items.Fills : Items → List Val → Prop
  | .nil, vals => vals = []
  | .text t rest, vals => ∃ vals', vals = .text t :: vals' ∧ rest.Fills vals'
  | .incl _ _ _ rest, vals => ∃ v vals', vals = v :: vals' ∧ rest.Fills vals'

/-- The document as it is written, where what is included defines nothing. -/
def Items.raw : Items → List Val
  | .nil => []
  | .text t rest => .text t :: rest.raw
  | .incl _ _ _ rest => .scalar :: rest.raw

/-- The definitions that are written in a file. -/
def written (order : DictOrder) (compose : List Val → Val) (items : Items) : List (Text × Text) :=
  match definitions order (compose items.raw) with
  | .ok defs => defs
  | .error _ => []

/-- **A file has no definitions but its own**: they are those that are written in it, whatever comes of
    what it includes. -/
def Own (order : DictOrder) (compose : List Val → Val) (items : Items) : Prop :=
  ∀ vals, items.Fills vals → definitions order (compose vals) = .ok (written order compose items)

/-- A reference in a document, its directives included. -/
def Items.Refers (n : Text) : Items → Prop
  | .nil => False
  | .text t rest => n ∈ refs t ∨ rest.Refers n
  | .incl path options _ rest => n ∈ refs path ∨ (∃ o ∈ options, n ∈ refs o.2) ∨ rest.Refers n

/-- No includes. -/
def Items.Alone : Items → Prop
  | .nil => True
  | .text _ rest => rest.Alone
  | .incl _ _ _ _ => False

section

variable (order : DictOrder)

mutual

/-- A name that a load leaves in the table that is registered then: an option, or a definition of a file
    that includes none. -/
def Tree.Leaves (n : Text) : Tree → Prop
  | .file _ _ compose items =>
      (items.Alone ∧ n ∈ keys (written order compose items)) ∨ items.Leaves n

/-- One that the includes of a document leave. -/
def Items.Leaves (n : Text) : Items → Prop
  | .nil => False
  | .text _ rest => rest.Leaves n
  | .incl _ options child rest => n ∈ keys options ∨ child.Leaves n ∨ rest.Leaves n

end

mutual

/-- A name that a file, or what it includes, looks for outside of it. -/
def Tree.Needs (n : Text) : Tree → Prop
  | .file _ _ compose items =>
      n ∉ keys (written order compose items) ∧
        ((∃ d ∈ written order compose items, n ∈ refs d.2) ∨ items.Refers n ∨ items.Needs n)

/-- One that the included files look for outside of them. -/
def Items.Needs (n : Text) : Items → Prop
  | .nil => False
  | .text _ rest => rest.Needs n
  | .incl _ options child rest => (child.Needs n ∧ n ∉ keys options) ∨ rest.Needs n

end

end

/-- A reference in a path. -/
def Items.PathRefs (n : Text) : Items → Prop
  | .nil => False
  | .text _ rest => rest.PathRefs n
  | .incl path _ _ rest => n ∈ refs path ∨ rest.PathRefs n

mutual

/-- A name that the paths of includes look for outside of a file. -/
def Tree.PathNeeds (n : Text) : Tree → Prop
  | .file _ _ _ items => items.PathNeeds n

/-- The path of some include, or a file in it, needs the name from outside. -/
def Items.PathNeeds (n : Text) : Items → Prop
  | .nil => False
  | .text _ rest => rest.PathNeeds n
  | .incl path options child rest =>
      n ∈ refs path ∨ (child.PathNeeds n ∧ n ∉ keys options) ∨ rest.PathNeeds n

end

/-- The options of the first include: the only ones that are put into the table of the file itself. -/
def Items.firstOptions : Items → List (Text × Text)
  | .nil => []
  | .text _ rest => rest.firstOptions
  | .incl _ options _ _ => options

/-- A name that a file itself refers to. -/
def OwnRef (defs : List (Text × Text)) (items : Items) (n : Text) : Prop :=
  (∃ d ∈ defs, n ∈ refs d.2) ∨ items.Refers n

/-- **What an include needs**, where `Bound` are the names that the file defines or one of its includes
    leaves: what is looked for outside of the included file is none of these, and no option is its directory;
    the names and the path have no dollars of their own, nor has an option that is for paths. -/
structure Apart (order : DictOrder) (Bound : Text → Prop) (options : List (Text × Text))
    (child : Tree) : Prop where
  needs : ∀ n, child.Needs order n → n ∉ keys options → ¬ Bound n
  dir : child.Needs order dirName → dirName ∉ keys options
  names : ∀ o ∈ options, '$' ∉ o.1
  fname : '$' ∉ child.fname
  plain : ∀ o ∈ options, child.PathNeeds o.1 → '$' ∉ o.2

/-- No path refers to what is defined or left in front of it, or to an option beside it. -/
def Items.PathsApart (order : DictOrder) (Before : Text → Prop) : Items → Prop
  | .nil => True
  | .text _ rest => rest.PathsApart order Before
  | .incl path options child rest =>
      (∀ n ∈ refs path, ¬ (Before n ∨ n ∈ keys options)) ∧
        rest.PathsApart order fun n => Before n ∨ n ∈ keys options ∨ child.Leaves order n

mutual

/-- **No name is bound where another file would find it**, in a tree whose first file is in `root`. -/
def Tree.Scoped (order : DictOrder) (root : Text) : Tree → Prop
  | .file _ dir compose items =>
      let defs := written order compose items
      Own order compose items ∧ (∀ d ∈ defs, '$' ∉ d.1) ∧
        (OwnRef defs items dirName → dirName ∉ keys defs → dir = root) ∧
        (∀ n ∈ keys items.firstOptions, OwnRef defs items n → n ∈ keys defs) ∧
        items.PathsApart order (fun n => n ∈ keys defs) ∧
        items.Scoped order root fun n => n ∈ keys defs ∨ items.Leaves order n

/-- No name is bound among the includes of a document, in a file that binds `Bound`. -/
def Items.Scoped (order : DictOrder) (root : Text) (Bound : Text → Prop) : Items → Prop
  | .nil => True
  | .text _ rest => rest.Scoped order root Bound
  | .incl _ options child rest =>
      Apart order Bound options child ∧ child.Scoped order root ∧ rest.Scoped order root Bound

end

/-! ## Definitions that are written in the file itself -/

/-- What the constructor makes of the items fills them. -/
theorem fills_of_construct : ∀ (items : Items) {s s' : Frames} {vals : List Val},
    construct env order .ok items s = .ok (vals, s') → items.Fills vals
  | .nil, s, s', vals, h => by
      rw [construct] at h
      cases h
      rfl
  | .text t rest, s, s', vals, h => by
      obtain ⟨v, vals', ht, hrest, rfl⟩ := construct_text_ok.mp h
      cases ht
      exact ⟨vals', rfl, fills_of_construct rest hrest⟩
  | .incl path options child rest, s, s', vals, h => by
      obtain ⟨table, v, nested, vals', -, hrest, rfl⟩ := construct_incl_ok.mp h
      exact ⟨v, vals', rfl, fills_of_construct rest hrest⟩

/-- What the items mean with the references left in fills them. -/
theorem fills_lexRaw (table : Table) (items : Items) : items.Fills (lexRaw env order items table) := by
  cases items with
  | nil =>
      rw [lexRaw]
      rfl
  | text t rest =>
      rw [lexRaw]
      exact ⟨_, rfl, fills_lexRaw table rest⟩
  | incl path options child rest =>
      rw [lexRaw]
      exact ⟨_, _, rfl, fills_lexRaw table rest⟩

section

variable {fname dir : Text} {compose : List Val → Val} {items : Items} {v : Val}

/-- **A file with definitions of its own** is loaded with those that are written. -/
theorem loadf_own_ok (hown : Own order compose items) {vard W : Table} :
    loadf env order (.file fname dir compose items) vard = .ok (v, W) ↔ ∃ raw s table vals s',
      construct env order .ok items ⟨baseOf env dir vard, none⟩ = .ok (raw, s) ∧
      define (written order compose items) s.own = .ok table ∧
      construct env order (fun t => interpolate t table) items ⟨table, s.other⟩ = .ok (vals, s') ∧
      v = compose vals ∧ W = s'.registered := by
  rw [loadf_ok]
  constructor
  · rintro ⟨raw, s, defs, table, vals, s', hraw, hdefs, hrest⟩
    rw [hown raw (fills_of_construct items hraw)] at hdefs
    cases hdefs
    exact ⟨raw, s, table, vals, s', hraw, hrest⟩
  · rintro ⟨raw, s, table, vals, s', hraw, hrest⟩
    exact ⟨raw, s, _, table, vals, s', hraw, hown raw (fills_of_construct items hraw), hrest⟩

/-- The meaning of a file that brings its own definitions, step by step. -/
theorem lex_own_ok (hown : Own order compose items) {outer : Table} :
    lex env order (.file fname dir compose items) outer = .ok v ↔ ∃ table vals,
      define (written order compose items) (scopeOf env dir outer) = .ok table ∧
      lexItems env order items table = .ok vals ∧ v = compose vals := by
  have hdefs := hown _ (@fills_lexRaw env order (scopeOf env dir outer) items)
  rw [lex_ok]
  constructor
  · rintro ⟨defs, table, vals, hd, hrest⟩
    rw [hdefs] at hd
    cases hd
    exact ⟨table, vals, hrest⟩
  · rintro ⟨table, vals, hrest⟩
    exact ⟨_, table, vals, hdefs, hrest⟩

end

/-! ## What paths refer to is needed as well -/

/-- A name in the path of an include is a name that the items refer to. -/
theorem refers_of_pathRefs {n : Text} : ∀ items : Items, items.PathRefs n → items.Refers n
  | .text _ rest, h => Or.inr (refers_of_pathRefs rest h)
  | .incl _ _ _ rest, h => h.imp id fun hrest => Or.inr (refers_of_pathRefs rest hrest)

/-- A name in the path of an include is one that the paths need. -/
theorem pathNeeds_of_pathRefs {n : Text} : ∀ items : Items, items.PathRefs n → items.PathNeeds n
  | .text _ rest, h => pathNeeds_of_pathRefs rest h
  | .incl _ _ _ rest, h => h.imp id fun hrest => Or.inr (pathNeeds_of_pathRefs rest hrest)

/-- No path of an include uses a name that is given only before it. -/
theorem not_before_of_pathRefs {n : Text} : ∀ {Before : Text → Prop} (items : Items),
    items.PathsApart order Before → items.PathRefs n → ¬ Before n
  | _, .text _ rest, hapart, h => not_before_of_pathRefs rest hapart h
  | _, .incl _ _ _ rest, ⟨hpath, hapart⟩, h =>
      h.elim (fun hn hbefore => hpath n hn (Or.inl hbefore))
        fun hrest hbefore => not_before_of_pathRefs rest hapart hrest (Or.inl hbefore)

/-! ## Reading with two tables that agree where it matters -/

/-- Where the first has a value, the second has one. -/
def Defined (a b : Option Text) : Prop := (∃ v, a = some v) → ∃ v, b = some v

/-- **A relation of values that reading respects**: a text that one table gives a value to, a table whose
    values are related to those gives a related one. -/
def Respected (R : Option Text → Option Text → Prop) : Prop :=
  ∀ {A B : Table} {t r : Text}, (∀ n ∈ refs t, R (A n) (B n)) → substitute t A = .ok r →
    ∃ r', substitute t B = .ok r' ∧ R (some r) (some r')

/-- Interpolation respects equality of the two values. -/
theorem respected_eq : Respected Eq := by
  intro A B t r hagree hr
  rw [substitute_congr hagree] at hr
  exact ⟨r, hr, rfl⟩

/-- Interpolation respects that a name is defined in the second table when it is in the first. -/
theorem respected_defined : Respected Defined := by
  intro A B t r hdefined hr
  obtain ⟨r', hr'⟩ := substitute_total hr fun n hn => hdefined n hn (defined_of_substitute hr hn)
  exact ⟨r', hr', fun _ => ⟨r', rfl⟩⟩

/-- Interpolation is substitution as far as its results go. -/
theorem interpolate_ok {t r : Text} {d : Table} : interpolate t d = .ok r ↔ substitute t d = .ok r := by
  rw [interpolate, mapError_ok_iff]

/-- **It looks only at the names that the text refers to.** -/
theorem interpolate_congr {t : Text} {A B : Table} (h : ∀ n ∈ refs t, A n = B n) :
    interpolate t A = interpolate t B := by
  rw [interpolate, interpolate, substitute_congr h]

/-- A text that resolves in one table resolves in every table that defines its names too. -/
theorem interpolate_defined {t r : Text} {A B : Table} (h : ∀ n ∈ refs t, Defined (A n) (B n))
    (hr : interpolate t A = .ok r) : ∃ r', interpolate t B = .ok r' := by
  obtain ⟨r', hr', -⟩ := respected_defined h (interpolate_ok.mp hr)
  exact ⟨r', interpolate_ok.mpr hr'⟩

/-- A whole list of definitions keeps what a single step respects, over the names in use. -/
theorem interpolateAll_respects {R : Option Text → Option Text → Prop} (hR : Respected R)
    {S : Text → Prop} : ∀ {items : List (Text × Text)} {A B A' : Table}, (∀ x ∈ items, '$' ∉ x.1) →
      (∀ x ∈ items, ∀ n ∈ refs x.2, S n) → (∀ n, S n → R (A n) (B n)) →
      interpolateAll items A = .ok A' →
      ∃ B', interpolateAll items B = .ok B' ∧ ∀ n, S n → R (A' n) (B' n)
  | [], A, B, A', _, _, hagree, h => by
      rw [interpolateAll] at h
      cases h
      exact ⟨B, rfl, hagree⟩
  | (k, v) :: items, A, B, A', hnames, hrefs, hagree, h => by
      obtain ⟨hk, hnames'⟩ := List.forall_mem_cons.mp hnames
      obtain ⟨hv, hrefs'⟩ := List.forall_mem_cons.mp hrefs
      obtain ⟨r, hr, hrest⟩ := (interpolateAll_cons_ok hk).mp h
      obtain ⟨r', hr', hrel⟩ := hR (fun n hn => hagree n (hv n hn)) hr
      have hset : ∀ n, S n → R (A.set k r n) (B.set k r' n) := by
        intro n hn
        rw [Dict.set, Dict.set]
        split
        · exact hrel
        · exact hagree n hn
      obtain ⟨B', hB', hagree'⟩ := interpolateAll_respects hR hnames' hrefs' hset hrest
      exact ⟨B', (interpolateAll_cons_ok hk).mpr ⟨r', hr', hB'⟩, hagree'⟩

/-! ## Definitions, interpolated in the table of them all -/

section

variable {defs : List (Text × Text)} {A B A' : Table}

/-- A name that is not among the keys has no value. -/
theorem tableOf_none {n : Text} (hn : n ∉ keys defs) : tableOf defs n = none := by
  cases h : tableOf defs n with
  | none => rfl
  | some v => exact absurd (List.mem_map_of_mem (mem_of_tableOf h)) hn

/-- Defining is interpolating every definition in the table that holds them all. -/
theorem define_ok : define defs A = .ok A' ↔ interpolateAll defs (A.update (tableOf defs)) = .ok A' := by
  rw [define, mapError_ok_iff, variablesOf]

/-- What is not defined stays. -/
theorem define_other (hnames : ∀ d ∈ defs, '$' ∉ d.1) (h : define defs A = .ok A') {n : Text}
    (hn : n ∉ keys defs) : A' n = A n := by
  rw [interpolateAll_keeps hnames (define_ok.mp h) n hn]
  exact update_none (tableOf_none hn)

/-- Two tables that are related outside of the definitions are related behind them. -/
theorem define_respects {R : Option Text → Option Text → Prop} (hR : Respected R) (hrefl : ∀ a, R a a)
    (hnames : ∀ d ∈ defs, '$' ∉ d.1) {S : Text → Prop} (hrefs : ∀ d ∈ defs, ∀ n ∈ refs d.2, S n)
    (hagree : ∀ n, S n → n ∉ keys defs → R (A n) (B n)) (h : define defs A = .ok A') :
    ∃ B', define defs B = .ok B' ∧ ∀ n, S n → R (A' n) (B' n) := by
  have hupdate : ∀ n, S n → R (A.update (tableOf defs) n) (B.update (tableOf defs) n) := by
    intro n hn
    cases hdef : tableOf defs n with
    | some v =>
        rw [update_some hdef, update_some hdef]
        exact hrefl _
    | none =>
        rw [update_none hdef, update_none hdef]
        refine hagree n hn fun hkey => ?_
        obtain ⟨x, hx, rfl⟩ := List.mem_map.mp hkey
        obtain ⟨v, hv⟩ : ∃ v, tableOf defs x.1 = some v := Dict.collect_of_mem hx
        rw [hdef] at hv
        cases hv
  obtain ⟨B', hB', hrel⟩ := interpolateAll_respects hR hnames hrefs hupdate (define_ok.mp h)
  exact ⟨B', define_ok.mpr hB', hrel⟩

end

/-! ## Options of an include, set one behind the other -/

/-- Text without references is read as it is. -/
def Plain (read : Text → Except LoadError Text) : Prop := ∀ t, '$' ∉ t → read t = .ok t

/-- Leaving a text as it is leaves a text without `$` as it is. -/
theorem plain_ok : Plain .ok := fun _ _ => rfl

/-- Interpolation leaves a text without `$` as it is. -/
theorem plain_interpolate (d : Table) : Plain fun t => interpolate t d :=
  fun _ ht => interpolate_ok.mpr (substitute_plain ht d)

section

variable {read read' : Text → Except LoadError Text}

/-- One option of an include, and those behind it. -/
theorem setOptions_cons_ok (hplain : Plain read) {k v : Text} (hk : '$' ∉ k)
    {options : List (Text × Text)} {d d' : Table} :
    setOptions read ((k, v) :: options) d = .ok d' ↔
      ∃ r, read v = .ok r ∧ setOptions read options (d.set k r) = .ok d' := by
  rw [setOptions, hplain k hk]
  show (read v >>= fun r => setOptions read options (d.set k r)) = .ok d' ↔ _
  exact bind_ok_iff

/-- Options leave every other name alone. -/
theorem setOptions_other (hplain : Plain read) : ∀ {options : List (Text × Text)} {d d' : Table},
    (∀ o ∈ options, '$' ∉ o.1) → setOptions read options d = .ok d' →
    ∀ {n}, n ∉ keys options → d' n = d n
  | [], d, d', _, h, n, _ => by
      rw [setOptions] at h
      cases h
      rfl
  | (k, v) :: options, d, d', hnames, h, n, hn => by
      obtain ⟨hk, hnames'⟩ := List.forall_mem_cons.mp hnames
      obtain ⟨r, -, hrest⟩ := (setOptions_cons_ok hplain hk).mp h
      have hne : n ≠ k := fun heq => hn (heq ▸ List.mem_cons_self)
      rw [setOptions_other hplain hnames' hrest fun hmem => hn (List.mem_cons_of_mem k hmem), Dict.set,
        if_neg hne]

/-- Where the options are set, every one of them could be read. -/
theorem read_of_setOptions (hplain : Plain read) : ∀ {options : List (Text × Text)} {d d' : Table},
    (∀ o ∈ options, '$' ∉ o.1) → setOptions read options d = .ok d' → ∀ o ∈ options, ∃ r, read o.2 = .ok r
  | [], _, _, _, _, _, ho => absurd ho List.not_mem_nil
  | (k, v) :: options, d, d', hnames, h, o, ho => by
      obtain ⟨hk, hnames'⟩ := List.forall_mem_cons.mp hnames
      obtain ⟨r, hr, hrest⟩ := (setOptions_cons_ok hplain hk).mp h
      rcases List.mem_cons.mp ho with rfl | ho
      · exact ⟨r, hr⟩
      · exact read_of_setOptions hplain hnames' hrest o ho

/-- Where every option can be read, they can be set. -/
theorem setOptions_total (hplain : Plain read) : ∀ {options : List (Text × Text)},
    (∀ o ∈ options, '$' ∉ o.1) → (∀ o ∈ options, ∃ r, read o.2 = .ok r) →
    ∀ d, ∃ d', setOptions read options d = .ok d'
  | [], _, _, d => ⟨d, rfl⟩
  | (k, v) :: options, hnames, h, d => by
      obtain ⟨hk, hnames'⟩ := List.forall_mem_cons.mp hnames
      obtain ⟨⟨r, hr⟩, hrest⟩ := List.forall_mem_cons.mp h
      obtain ⟨d', hd'⟩ := setOptions_total hplain hnames' hrest (d.set k r)
      exact ⟨d', (setOptions_cons_ok hplain hk).mpr ⟨r, hr, hd'⟩⟩

/-- **An option has the value that was read last for it**: two readings that agree on it leave the same. -/
theorem setOptions_agree (hplain : Plain read) (hplain' : Plain read') {n : Text} :
    ∀ {options : List (Text × Text)} {d d' e e' : Table}, (∀ o ∈ options, '$' ∉ o.1) →
    setOptions read options d = .ok d' → setOptions read' options e = .ok e' →
    (∀ o ∈ options, o.1 = n → read o.2 = read' o.2) → d n = e n ∨ n ∈ keys options → d' n = e' n
  | [], d, d', e, e', _, h, h', _, hor => by
      rw [setOptions] at h h'
      cases h
      cases h'
      exact hor.resolve_right List.not_mem_nil
  | (k, v) :: options, d, d', e, e', hnames, h, h', hread, hor => by
      obtain ⟨hk, hnames'⟩ := List.forall_mem_cons.mp hnames
      obtain ⟨hkv, hread'⟩ := List.forall_mem_cons.mp hread
      obtain ⟨r, hr, hrest⟩ := (setOptions_cons_ok hplain hk).mp h
      obtain ⟨r', hr', hrest'⟩ := (setOptions_cons_ok hplain' hk).mp h'
      refine setOptions_agree hplain hplain' hnames' hrest hrest' hread' ?_
      rw [Dict.set, Dict.set]
      by_cases hn : n = k
      · have hsame := hkv hn.symm
        rw [hr, hr'] at hsame
        cases hsame
        rw [if_pos hn, if_pos hn]
        exact Or.inl rfl
      · rw [if_neg hn, if_neg hn]
        exact hor.imp_right fun hmem => (List.mem_cons.mp hmem).resolve_left hn

/-- What has a value keeps one, and options get one. -/
theorem setOptions_defined (hplain : Plain read) {n : Text} :
    ∀ {options : List (Text × Text)} {d d' : Table}, (∀ o ∈ options, '$' ∉ o.1) →
    setOptions read options d = .ok d' → (∃ v, d n = some v) ∨ n ∈ keys options → ∃ v, d' n = some v
  | [], d, d', _, h, hor => by
      rw [setOptions] at h
      cases h
      exact hor.resolve_right List.not_mem_nil
  | (k, v) :: options, d, d', hnames, h, hor => by
      obtain ⟨hk, hnames'⟩ := List.forall_mem_cons.mp hnames
      obtain ⟨r, -, hrest⟩ := (setOptions_cons_ok hplain hk).mp h
      refine setOptions_defined hplain hnames' hrest ?_
      rw [Dict.set]
      by_cases hn : n = k
      · rw [if_pos hn]
        exact Or.inl ⟨r, rfl⟩
      · rw [if_neg hn]
        exact hor.imp_right fun hmem => (List.mem_cons.mp hmem).resolve_left hn

end

/-! ## What stays of the registered table behind a nested load -/

section

variable {dir n : Text} {vard : Table}

/-- A value that nested loads leave as it is. -/
def Steady (env : Table) (n : Text) (x : Option Text) : Prop := x = none → n ≠ dirName ∧ env n = none

/-- A name among the included file's own variables has the value it has there. -/
theorem baseOf_some {v : Text} (h : vard n = some v) : baseOf env dir vard n = some v := update_some h

/-- A name other than `__DIR__` comes from there, or from the environment. -/
theorem baseOf_ne (hn : n ≠ dirName) : baseOf env dir vard n = env.update vard n := by
  rw [baseOf, Dict.update, Dict.update, Dict.set, if_neg hn]

/-- `__DIR__` is the one that came along, and the file's own only without one. -/
theorem baseOf_dirName : baseOf env dir vard dirName = some ((vard dirName).getD dir) := by
  rw [baseOf, Dict.update, Dict.set, if_pos rfl]
  cases vard dirName with
  | none => rfl
  | some v => rfl

/-- A base is steady in every name. -/
theorem steady_baseOf : Steady env n (baseOf env dir vard n) := by
  intro h
  by_cases hn : n = dirName
  · subst hn
    rw [baseOf_dirName] at h
    cases h
  · rw [baseOf_ne hn] at h
    exact ⟨hn, (Option.or_eq_none_iff.mp h).2⟩

/-- In a steady name, it adds nothing. -/
theorem baseOf_steady (h : Steady env n (vard n)) : baseOf env dir vard n = vard n := by
  cases hv : vard n with
  | some v => exact baseOf_some hv
  | none =>
      obtain ⟨hn, henv⟩ := h hv
      rw [baseOf_ne hn, Dict.update, hv, henv]
      rfl

end

section

variable {read : Text → Except LoadError Text} {s s' : Frames} {vals : List Val} {n : Text}
  {root : Text} {Bound : Text → Prop}

/-- Behind an include, the registered table is the one that the nested load left. -/
theorem registered_behind {table nested : Table} : (s.behind table nested).registered = nested := rfl

/-- The file's own table is untouched by it where another frame is open. -/
theorem own_behind {table nested : Table} (hother : s.other ≠ none) :
    (s.behind table nested).own = s.own := by
  obtain ⟨other, hsome⟩ := Option.ne_none_iff_exists'.mp hother
  rw [Frames.behind, hsome]
  rfl

/-- Without one, it is the table that the options were set in. -/
theorem own_behind_none {table nested : Table} (hother : s.other = none) :
    (s.behind table nested).own = table := by
  rw [Frames.behind, hother]
  rfl

/-- From the second include on, the constructor of another file is registered. -/
theorem construct_own_other : ∀ (items : Items) {s : Frames} {vals : List Val}, s.other ≠ none →
    construct env order read items s = .ok (vals, s') → s'.own = s.own ∧ s'.other ≠ none
  | .nil, s, vals, hother, h => by
      rw [construct] at h
      cases h
      exact ⟨rfl, hother⟩
  | .text t rest, s, vals, hother, h => by
      obtain ⟨v, vals', -, hrest, -⟩ := construct_text_ok.mp h
      exact construct_own_other rest hother hrest
  | .incl path options child rest, s, vals, hother, h => by
      obtain ⟨table, v, nested, vals', -, hrest, -⟩ := construct_incl_ok.mp h
      obtain ⟨hown, hother'⟩ := construct_own_other rest (Option.some_ne_none nested) hrest
      exact ⟨hown.trans (own_behind hother), hother'⟩

/-- Where none is, there was no include. -/
theorem construct_alone : ∀ (items : Items) {s : Frames} {vals : List Val},
    construct env order read items s = .ok (vals, s') → s'.other = none → items.Alone
  | .nil, _, _, _, _ => trivial
  | .text t rest, s, vals, h, hnone => by
      obtain ⟨v, vals', -, hrest, -⟩ := construct_text_ok.mp h
      exact construct_alone rest hrest hnone
  | .incl path options child rest, s, vals, h, hnone => by
      obtain ⟨table, v, nested, vals', -, hrest, -⟩ := construct_incl_ok.mp h
      exact absurd hnone (construct_own_other rest (Option.some_ne_none nested) hrest).2

/-- **The table of a file changes where its first include has an option**, and nowhere else. -/
theorem construct_own (hplain : Plain read) : ∀ (items : Items) {s : Frames} {vals : List Val},
    items.Scoped order root Bound → construct env order read items s = .ok (vals, s') →
    n ∉ keys items.firstOptions → s'.own n = s.own n
  | .nil, s, vals, _, h, _ => by
      rw [construct] at h
      cases h
      rfl
  | .text t rest, s, vals, hscoped, h, hn => by
      obtain ⟨v, vals', -, hrest, -⟩ := construct_text_ok.mp h
      exact construct_own hplain rest hscoped hrest hn
  | .incl path options child rest, s, vals, ⟨hapart, _, _⟩, h, hn => by
      obtain ⟨table, v, nested, vals', hincl, hrest, -⟩ := construct_incl_ok.mp h
      rw [(construct_own_other rest (Option.some_ne_none nested) hrest).1]
      by_cases hother : s.other = none
      · have hregistered : s.registered = s.own := by
          rw [Frames.registered, hother]
          rfl
        rw [own_behind_none hother, ← hregistered]
        exact setOptions_other hplain hapart.names hincl.options hn
      · rw [own_behind hother]

/-- The table that a load leaves registered has the values that were passed to it, but for the names that it
    leaves. -/
def Keeps (env : Table) (order : DictOrder) (root : Text) (t : Tree) : Prop :=
  t.Scoped order root → ∀ {vard W : Table} {v : Val} {n : Text}, loadf env order t vard = .ok (v, W) →
    ¬ t.Leaves order n → Steady env n (vard n) → W n = vard n

/-- A directive, likewise. -/
theorem included_kept (hplain : Plain read) {path : Text} {options : List (Text × Text)} {child : Tree}
    {registered table nested : Table} {v : Val} (hapart : Apart order Bound options child)
    (hkeeps : Keeps env order root child) (hchild : child.Scoped order root)
    (h : Included env order read path options child registered table v nested)
    (hoptions : n ∉ keys options) (hn : ¬ child.Leaves order n) (hsteady : Steady env n (registered n)) :
    nested n = registered n := by
  have htable : table n = registered n := setOptions_other hplain hapart.names h.options hoptions
  rw [hkeeps hchild h.child hn (htable ▸ hsteady), htable]

/-- **The items keep the registered value of every name that they do not leave behind.** -/
theorem construct_kept (hplain : Plain read) : ∀ (items : Items) {s : Frames} {vals : List Val},
    items.All (Keeps env order root) → items.Scoped order root Bound →
    construct env order read items s = .ok (vals, s') →
    ¬ items.Leaves order n → Steady env n (s.registered n) → s'.registered n = s.registered n
  | .nil, s, vals, _, _, h, _, _ => by
      rw [construct] at h
      cases h
      rfl
  | .text t rest, s, vals, hall, hscoped, h, hn, hsteady => by
      obtain ⟨v, vals', -, hrest, -⟩ := construct_text_ok.mp h
      exact construct_kept hplain rest hall hscoped hrest hn hsteady
  | .incl path options child rest, s, vals, ⟨hkeeps, hall⟩, ⟨hapart, hchild, hscoped⟩, h, hn, hsteady => by
      obtain ⟨table, v, nested, vals', hincl, hrest, -⟩ := construct_incl_ok.mp h
      have hnested : nested n = s.registered n := included_kept hplain hapart hkeeps hchild hincl
        (fun hmem => hn (Or.inl hmem)) (fun hleaves => hn (Or.inr (Or.inl hleaves))) hsteady
      have hsteady' : Steady env n ((s.behind table nested).registered n) := by
        rw [registered_behind, hnested]
        exact hsteady
      have hn' : ¬ rest.Leaves order n := fun hleaves => hn (Or.inr (Or.inr hleaves))
      rw [construct_kept hplain rest hall hscoped hrest hn' hsteady']
      exact hnested

/-- The options of the first include are names that the items leave behind. -/
theorem leaves_firstOptions : ∀ (items : Items), n ∈ keys items.firstOptions → items.Leaves order n
  | .nil, h => absurd h List.not_mem_nil
  | .text _ rest, h => leaves_firstOptions rest h
  | .incl _ _ _ _, h => Or.inl h

section

variable {defs : List (Text × Text)} {items : Items} {raw : List Val} {base table : Table}

/-- **Between the two loads of a file**, its table has the values from in front of the first for what is
    neither defined nor an option of the first include. -/
theorem own_between (hscoped : items.Scoped order root Bound) (hnames : ∀ d ∈ defs, '$' ∉ d.1)
    (hraw : construct env order .ok items ⟨base, none⟩ = .ok (raw, s)) (hdefine : define defs s.own = .ok table)
    (hdefs : n ∉ keys defs) (hn : n ∉ keys items.firstOptions) : table n = base n := by
  rw [define_other hnames hdefine hdefs]
  exact construct_own plain_ok items hscoped hraw hn

/-- Between the two loads of a file, its table has the old values for what paths refer to. -/
theorem path_between (hscoped : items.Scoped order root Bound) (hnames : ∀ d ∈ defs, '$' ∉ d.1)
    (hfirst : ∀ n ∈ keys items.firstOptions, OwnRef defs items n → n ∈ keys defs)
    (hpaths : items.PathsApart order fun n => n ∈ keys defs)
    (hraw : construct env order .ok items ⟨base, none⟩ = .ok (raw, s)) (hdefine : define defs s.own = .ok table)
    (hn : items.PathRefs n) : table n = base n := by
  have hdefs : n ∉ keys defs := not_before_of_pathRefs items hpaths hn
  exact own_between hscoped hnames hraw hdefine hdefs fun hmem =>
    hdefs (hfirst n hmem (Or.inr (refers_of_pathRefs items hn)))

/-- And the registered one for what no include leaves, nor the file itself where it includes none. -/
theorem registered_between (hall : items.All (Keeps env order root)) (hscoped : items.Scoped order root Bound)
    (hnames : ∀ d ∈ defs, '$' ∉ d.1) (hraw : construct env order .ok items ⟨base, none⟩ = .ok (raw, s))
    (hdefine : define defs s.own = .ok table) (hdefs : items.Alone → n ∉ keys defs)
    (hn : ¬ items.Leaves order n) (hsteady : Steady env n (base n)) :
    (Frames.mk table s.other).registered n = base n := by
  have hregistered : s.registered n = base n := construct_kept plain_ok items hall hscoped hraw hn hsteady
  rw [Frames.registered] at hregistered ⊢
  dsimp only
  cases hother : s.other with
  | none =>
      exact own_between hscoped hnames hraw hdefine (hdefs (construct_alone items hraw hother))
        fun hmem => hn (leaves_firstOptions items hmem)
  | some other =>
      rw [hother] at hregistered
      exact hregistered

end

/-- **Every file keeps them**, by induction over the tree. -/
theorem keeps (t : Tree) : Keeps env order root t := by
  induction t using Tree.induct with
  | h fname dir compose items hall =>
      rintro ⟨hwritten, hnames, -, -, -, hscoped⟩ vard W v n h hn hsteady
      obtain ⟨raw, s, table, vals, s', hraw, hdefine, hload, rfl, rfl⟩ := (loadf_own_ok hwritten).mp h
      have hitems : ¬ items.Leaves order n := fun hleaves => hn (Or.inr hleaves)
      have hstart := registered_between hall hscoped hnames hraw hdefine
        (fun halone hmem => hn (Or.inl ⟨halone, hmem⟩)) hitems steady_baseOf
      rw [construct_kept (plain_interpolate table) items hall hscoped hload hitems
        (hstart ▸ steady_baseOf), hstart, baseOf_steady hsteady]

end

/-! ## The files that are found, with one table and with the other -/

section

variable {read : Text → Except LoadError Text} {root : Text} {Bound Before : Text → Prop} {base d d' : Table}

/-- Every path is that of the file which is meant. -/
def Items.Found (d : Table) : Items → Prop
  | .nil => True
  | .text _ rest => rest.Found d
  | .incl path _ child rest => interpolate path d = .ok child.fname ∧ rest.Found d

/-- Whether the files of the includes are found depends on the names in their paths only. -/
theorem found_agree : ∀ items : Items, (∀ n, items.PathRefs n → d n = d' n) → items.Found d → items.Found d'
  | .nil, _, _ => trivial
  | .text _ rest, hagree, h => found_agree rest hagree h
  | .incl _ _ _ rest, hagree, ⟨hpath, h⟩ =>
      ⟨(interpolate_congr fun n hn => hagree n (Or.inl hn)).symm.trans hpath,
        found_agree rest (fun n hn => hagree n (Or.inr hn)) h⟩

/-- A load with a table for every file finds them. -/
theorem found_of_lexItems : ∀ (items : Items) {vals : List Val}, lexItems env order items d = .ok vals →
    items.Found d
  | .nil, _, _ => trivial
  | .text _ rest, _, h => by
      obtain ⟨v, vals', -, hrest, -⟩ := lexItems_text_ok.mp h
      exact found_of_lexItems rest hrest
  | .incl path options child rest, _, h => by
      obtain ⟨inner, v, vals', hpath, -, -, hrest, -⟩ := lexItems_incl_ok.mp h
      exact ⟨hpath, found_of_lexItems rest hrest⟩

/-- The table has outside of `Bound` what was in front of the first load. -/
def Around (Bound : Text → Prop) (base d : Table) : Prop := ∀ n, ¬ Bound n → d n = base n

/-- More names may be bound around a table. -/
theorem Around.mono (h : Around Before base d) (hmono : ∀ n, Before n → Bound n) : Around Bound base d :=
  fun n hn => h n fun hbefore => hn (hmono n hbefore)

/-- **A directive keeps what is around it**: first its options are bound, then what the included file
    leaves. -/
theorem around_setOptions (hplain : Plain read) {options : List (Text × Text)} {registered table : Table}
    (hnames : ∀ o ∈ options, '$' ∉ o.1) (h : setOptions read options registered = .ok table)
    (haround : Around Before base registered) : Around (fun n => Before n ∨ n ∈ keys options) base table := by
  intro n hn
  rw [setOptions_other hplain hnames h fun hmem => hn (Or.inr hmem)]
  exact haround n fun hbefore => hn (Or.inl hbefore)

/-- What is around the table of an included file. -/
theorem around_included (hplain : Plain read) (hsteady : ∀ n, Steady env n (base n)) {path : Text}
    {options : List (Text × Text)} {child : Tree} {registered table nested : Table} {v : Val}
    (hapart : Apart order Bound options child) (hchild : child.Scoped order root)
    (h : Included env order read path options child registered table v nested)
    (haround : Around Before base registered) :
    Around (fun n => Before n ∨ n ∈ keys options ∨ child.Leaves order n) base nested := by
  intro n hn
  have hregistered : registered n = base n := haround n fun hbefore => hn (Or.inl hbefore)
  rw [included_kept hplain hapart (keeps child) hchild h (fun hmem => hn (Or.inr (Or.inl hmem)))
    (fun hleaves => hn (Or.inr (Or.inr hleaves))) (hregistered ▸ hsteady n), hregistered]

/-- The first load finds them. -/
theorem found_of_construct (hsteady : ∀ n, Steady env n (base n)) : ∀ {Before : Text → Prop} (items : Items)
    {s s' : Frames} {vals : List Val}, items.Scoped order root Bound → items.PathsApart order Before →
    construct env order .ok items s = .ok (vals, s') → Around Before base s.registered → items.Found base
  | _, .nil, _, _, _, _, _, _, _ => trivial
  | _, .text _ rest, _, _, _, hscoped, hpaths, h, haround => by
      obtain ⟨v, vals', -, hrest, -⟩ := construct_text_ok.mp h
      exact found_of_construct hsteady rest hscoped hpaths hrest haround
  | _, .incl path options child rest, s, _, _, ⟨hapart, hchild, hscoped⟩, ⟨hrefs, hpaths⟩, h, haround => by
      obtain ⟨table, v, nested, vals', hincl, hrest, -⟩ := construct_incl_ok.mp h
      have htable := around_setOptions plain_ok hapart.names hincl.options haround
      obtain ⟨p, hp, hpath⟩ := hincl.path
      cases hp
      refine ⟨(interpolate_congr fun n hn => htable n (hrefs n hn)).symm.trans hpath, ?_⟩
      exact found_of_construct hsteady rest hscoped hpaths hrest
        (around_included plain_ok hsteady hapart hchild hincl haround)

end

/-! ## What is loaded is what is meant, and the other way round -/

section

variable {root : Text} {Bound : Text → Prop} {base table L : Table}

/-- In the scope of a file, a name other than `__DIR__` comes from outside or from the environment. -/
theorem scopeOf_ne {dir n : Text} {outer : Table} (hn : n ≠ dirName) :
    scopeOf env dir outer n = env.update outer n := by
  rw [scopeOf, Dict.set, if_neg hn]

/-- `__DIR__` is its own directory. -/
theorem scopeOf_dirName {dir : Text} {outer : Table} : scopeOf env dir outer dirName = some dir := by
  rw [scopeOf, Dict.set, if_pos rfl]

/-- Two tables that agree in a name agree in it over the environment. -/
theorem update_congr {A B : Table} {n : Text} (h : A n = B n) : env.update A n = env.update B n := by
  rw [Dict.update, Dict.update, h]

/-- A name that is defined in the one and then in the other stays so over the environment. -/
theorem defined_update {A B : Table} {n : Text} (h : Defined (A n) (B n)) :
    Defined (env.update A n) (env.update B n) := by
  rintro ⟨v, hv⟩
  cases hB : B n with
  | some w => exact ⟨w, update_some hB⟩
  | none =>
      cases hA : A n with
      | some w =>
          obtain ⟨w', hw'⟩ := h ⟨w, hA⟩
          rw [hB] at hw'
          cases hw'
      | none =>
          rw [update_none hA] at hv
          exact ⟨v, (update_none hB).trans hv⟩

/-- A file that looks for its directory, or includes one that does, is loaded with that of the first. -/
theorem baseOf_root {fname dir : Text} {compose : List Val → Val} {items : Items} {vard : Table}
    (hroot : (Tree.file fname dir compose items).Needs order dirName → (vard dirName).getD dir = root)
    (hdefs : dirName ∉ keys (written order compose items))
    (hneeds : OwnRef (written order compose items) items dirName ∨ items.Needs order dirName) :
    baseOf env dir vard dirName = some root :=
  baseOf_dirName.trans (congrArg some (hroot ⟨hdefs, or_assoc.mp hneeds⟩))

/-- An included file that looks for its directory has that of the file around it. -/
theorem dir_included {options : List (Text × Text)} {child : Tree} {inner : Table}
    (hapart : Apart order Bound options child)
    (haround : ∀ n, child.Needs order n → n ∉ keys options → inner n = base n)
    (hroot : child.Needs order dirName ∧ dirName ∉ keys options → ¬ Bound dirName → base dirName = some root)
    (hneeds : child.Needs order dirName) : (inner dirName).getD child.dir = root := by
  have hmem : dirName ∉ keys options := hapart.dir hneeds
  rw [haround _ hneeds hmem, hroot ⟨hneeds, hmem⟩ (hapart.needs _ hneeds hmem)]
  rfl

/-- What `loadf` returns, the load with a table for every file returns as well. -/
def Agrees (env : Table) (order : DictOrder) (root : Text) (t : Tree) : Prop :=
  t.Scoped order root → ∀ {outer vard W : Table} {v : Val},
    (t.Needs order dirName → (vard dirName).getD t.dir = root) →
    (∀ n, t.Needs order n → n ≠ dirName → env.update vard n = env.update outer n) →
    loadf env order t vard = .ok (v, W) → lex env order t outer = .ok v

/-- **What the constructor makes of the items is what they mean**, where each file in them agrees. -/
theorem lexItems_of_construct (hsteady : ∀ n, Steady env n (base n)) :
    ∀ (items : Items) {s s' : Frames} {vals : List Val}, items.All (Agrees env order root) →
    items.Scoped order root Bound → (∀ n, items.Leaves order n → Bound n) → items.Found table →
    (items.Needs order dirName → ¬ Bound dirName → base dirName = some root) →
    (∀ n, items.Refers n → table n = L n) →
    (∀ n, items.Needs order n → ¬ Bound n → n ≠ dirName → base n = L n) →
    construct env order (fun t => interpolate t table) items s = .ok (vals, s') →
    Around Bound base s.registered →
    lexItems env order items L = .ok vals
  | .nil, s, s', vals, _, _, _, _, _, _, _, h, _ => by
      rw [construct] at h
      cases h
      rfl
  | .text t rest, s, s', vals, hall, hscoped, hbound, hfound, hroot, hrefs, hneeds, h, haround => by
      obtain ⟨v, vals', ht, hrest, rfl⟩ := construct_text_ok.mp h
      refine lexItems_text_ok.mpr ⟨v, vals', ?_, ?_, rfl⟩
      · rw [← interpolate_congr fun n hn => hrefs n (Or.inl hn)]
        exact ht
      · exact lexItems_of_construct hsteady rest hall hscoped hbound hfound hroot
          (fun n hn => hrefs n (Or.inr hn)) hneeds hrest haround
  | .incl path options child rest, s, s', vals, ⟨hagrees, hall⟩, ⟨hapart, hchild, hscoped⟩, hbound,
      ⟨hpath, hfound⟩, hroot, hrefs, hneeds, h, haround => by
      obtain ⟨inner', v, nested, vals', hincl, hrest, rfl⟩ := construct_incl_ok.mp h
      have hplain := plain_interpolate table
      have hread : ∀ o ∈ options, interpolate o.2 table = interpolate o.2 L := fun o ho =>
        interpolate_congr fun n hn => hrefs n (Or.inr (Or.inl ⟨o, ho, hn⟩))
      obtain ⟨inner, hinner⟩ := setOptions_total (plain_interpolate L) hapart.names (fun o ho =>
        hread o ho ▸ read_of_setOptions hplain hapart.names hincl.options o ho) L
      have haround' : ∀ n, child.Needs order n → n ∉ keys options → inner' n = base n := fun n hn hmem =>
        (setOptions_other hplain hapart.names hincl.options hmem).trans (haround n (hapart.needs n hn hmem))
      have hsame : ∀ n, child.Needs order n → n ≠ dirName → inner' n = inner n := by
        intro n hn hne
        by_cases hmem : n ∈ keys options
        · exact setOptions_agree hplain (plain_interpolate L) hapart.names hincl.options hinner
            (fun o ho _ => hread o ho) (Or.inr hmem)
        · rw [haround' n hn hmem, hneeds n (Or.inl ⟨hn, hmem⟩) (hapart.needs n hn hmem) hne,
            setOptions_other (plain_interpolate L) hapart.names hinner hmem]
      refine lexItems_incl_ok.mpr ⟨inner, v, vals', ?_, hinner, ?_, ?_, rfl⟩
      · rw [← interpolate_congr fun n hn => hrefs n (Or.inl hn)]
        exact hpath
      · exact hagrees hchild (dir_included hapart haround' fun h => hroot (Or.inl h))
          (fun n hn hne => update_congr (hsame n hn hne)) hincl.child
      · exact lexItems_of_construct hsteady rest hall hscoped
          (fun n hn => hbound n (Or.inr (Or.inr hn))) hfound (fun h => hroot (Or.inr h))
          (fun n hn => hrefs n (Or.inr (Or.inr hn))) (fun n hn => hneeds n (Or.inr hn)) hrest
          ((around_included hplain hsteady hapart hchild hincl haround).mono fun n hn =>
            hn.elim id fun hn => hbound n (hn.imp id Or.inl))

/-- **Every file agrees with its meaning**, by induction over the tree. -/
theorem agrees (t : Tree) : Agrees env order root t := by
  induction t using Tree.induct with
  | h fname dir compose items hall =>
      let defs := written order compose items
      rintro ⟨hwritten, hnames, hown, hfirst, hpaths, hscoped⟩ outer vard W v hroot hneeds h
      obtain ⟨raw, s, table, vals, s', hraw, hdefine, hload, rfl, rfl⟩ := (loadf_own_ok hwritten).mp h
      have hsteady : ∀ n, Steady env n (baseOf env dir vard n) := fun n => steady_baseOf
      have hkeeps : items.All (Keeps env order root) := Items.induct (fun _ _ _ _ _ => keeps _) items
      -- The definitions are read alike, over what the first load has left and over the scope.
      have hscope : ∀ n, OwnRef defs items n → n ∉ keys defs → s.own n = scopeOf env dir outer n := by
        intro n href hn
        rw [construct_own plain_ok items hscoped hraw fun hmem => hn (hfirst n hmem href)]
        by_cases hne : n = dirName
        · subst hne
          rw [scopeOf_dirName]
          exact (baseOf_root hroot hn (Or.inl href)).trans (congrArg some (hown href hn).symm)
        · rw [scopeOf_ne hne, ← hneeds n ⟨hn, href.imp id Or.inl⟩ hne]
          exact baseOf_ne hne
      obtain ⟨L, hL, hsame⟩ := define_respects respected_eq (fun _ => rfl) hnames
        (fun d hd n hn => Or.inl ⟨d, hd, hn⟩) hscope hdefine
      have hfound : items.Found table := by
        refine found_agree items (fun n hn => ?_) (found_of_construct hsteady items hscoped hpaths hraw
          fun n _ => rfl)
        exact (path_between hscoped hnames hfirst hpaths hraw hdefine hn).symm
      refine (lex_own_ok hwritten).mpr ⟨L, vals, hL, ?_, rfl⟩
      refine lexItems_of_construct hsteady items hall hscoped (fun n hn => Or.inr hn) hfound
        (fun h hout => baseOf_root hroot (fun hmem => hout (Or.inl hmem)) (Or.inr h))
        (fun n hn => hsame n (Or.inr hn))
        (fun n hn hout hne => ?_) hload fun n hn => ?_
      · have hdefs : n ∉ keys defs := fun hmem => hout (Or.inl hmem)
        rw [define_other hnames hL hdefs, scopeOf_ne hne, baseOf_ne hne]
        exact hneeds n ⟨hdefs, Or.inr (Or.inr hn)⟩ hne
      · exact registered_between hkeeps hscoped hnames hraw hdefine (fun _ hmem => hn (Or.inl hmem))
          (fun hleaves => hn (Or.inr hleaves)) steady_baseOf

mutual

/-- What the paths of a file need is needed by the file. -/
theorem needs_of_pathNeeds {n : Text} : ∀ t : Tree, t.Scoped order root → t.PathNeeds n → t.Needs order n
  | .file _ _ _ items, ⟨_, _, _, _, hpaths, hscoped⟩, h => by
      obtain ⟨hout, hneeds⟩ := needsItems_of_pathNeeds items hscoped hpaths h
      exact ⟨fun hmem => hout ⟨hmem, Or.inl hmem⟩, Or.inr hneeds⟩

/-- **A path looks outside of the file** for what it refers to. -/
theorem needsItems_of_pathNeeds {n : Text} : ∀ {Bound Before : Text → Prop} (items : Items),
    items.Scoped order root Bound → items.PathsApart order Before → items.PathNeeds n →
    ¬ (Before n ∧ Bound n) ∧ (items.Refers n ∨ items.Needs order n)
  | _, _, .text _ rest, hscoped, hpaths, h => by
      obtain ⟨hout, hneeds⟩ := needsItems_of_pathNeeds rest hscoped hpaths h
      exact ⟨hout, hneeds.imp Or.inr id⟩
  | _, _, .incl path options child rest, ⟨hapart, hchild, hscoped⟩, ⟨hrefs, hpaths⟩, h => by
      rcases h with hpath | ⟨hpath, hmem⟩ | hrest
      · exact ⟨fun hn => hrefs n hpath (Or.inl hn.1), Or.inl (Or.inl hpath)⟩
      · have hneeds := needs_of_pathNeeds child hchild hpath
        exact ⟨fun hn => hapart.needs n hneeds hmem hn.2, Or.inr (Or.inl ⟨hneeds, hmem⟩)⟩
      · obtain ⟨hout, hneeds⟩ := needsItems_of_pathNeeds rest hscoped hpaths hrest
        exact ⟨fun hn => hout ⟨Or.inl hn.1, hn.2⟩, hneeds.imp (fun h => Or.inr (Or.inr h)) Or.inr⟩

end

/-- Every text of a document can be read, and every file is found over what agrees around it. -/
def Items.Readable (order : DictOrder) (read : Text → Except LoadError Text) (base : Table)
    (Before : Text → Prop) : Items → Prop
  | .nil => True
  | .text t rest => (∃ v, read t = .ok v) ∧ rest.Readable order read base Before
  | .incl path options child rest =>
      (∃ p, read path = .ok p ∧
        ∀ d, Around (fun n => Before n ∨ n ∈ keys options) base d → interpolate p d = .ok child.fname) ∧
        (∀ o ∈ options, ∃ v, read o.2 = .ok v) ∧
        rest.Readable order read base fun n => Before n ∨ n ∈ keys options ∨ child.Leaves order n

/-- A document whose names in paths are apart can be loaded as it is written. -/
theorem readable_raw : ∀ {Before : Text → Prop} (items : Items), items.PathsApart order Before →
    items.Found base → items.Readable order .ok base Before
  | _, .nil, _, _ => trivial
  | _, .text t rest, hpaths, hfound => ⟨⟨t, rfl⟩, readable_raw rest hpaths hfound⟩
  | _, .incl path options child rest, ⟨hrefs, hpaths⟩, ⟨hpath, hfound⟩ => by
      refine ⟨⟨path, rfl, fun d hd => ?_⟩, fun o _ => ⟨o.2, rfl⟩, readable_raw rest hpaths hfound⟩
      rw [interpolate_congr fun n hn => hd n (hrefs n hn)]
      exact hpath

/-- And with the table of the file, where the scope has all that it refers to. -/
theorem readable_interpolated : ∀ {Before : Text → Prop} (items : Items) {vals : List Val},
    items.Scoped order root Bound → items.Found table → (∀ n, items.Refers n → Defined (L n) (table n)) →
    lexItems env order items L = .ok vals → items.Readable order (fun t => interpolate t table) base Before
  | _, .nil, _, _, _, _, _ => trivial
  | _, .text t rest, _, hscoped, hfound, hrefs, h => by
      obtain ⟨v, vals', ht, hrest, -⟩ := lexItems_text_ok.mp h
      exact ⟨interpolate_defined (fun n hn => hrefs n (Or.inl hn)) ht,
        readable_interpolated rest hscoped hfound (fun n hn => hrefs n (Or.inr hn)) hrest⟩
  | _, .incl path options child rest, _, ⟨hapart, _, hscoped⟩, ⟨hpath, hfound⟩, hrefs, h => by
      obtain ⟨inner, v, vals', -, hinner, -, hrest, -⟩ := lexItems_incl_ok.mp h
      refine ⟨⟨child.fname, hpath, fun d _ => plain_interpolate d _ hapart.fname⟩, fun o ho => ?_,
        readable_interpolated rest hscoped hfound (fun n hn => hrefs n (Or.inr (Or.inr hn))) hrest⟩
      obtain ⟨r, hr⟩ := read_of_setOptions (plain_interpolate L) hapart.names hinner o ho
      exact interpolate_defined (fun n hn => hrefs n (Or.inr (Or.inl ⟨o, ho, hn⟩))) hr

/-- What the load with a table for every file returns something for, so does `loadf`, be it that options
    have other values, as long as no path needs them. -/
def Loads (env : Table) (order : DictOrder) (root : Text) (t : Tree) : Prop :=
  t.Scoped order root → ∀ {outer vard : Table} {v : Val},
    (t.Needs order dirName → (vard dirName).getD t.dir = root) →
    (∀ n, t.Needs order n → n ≠ dirName → Defined (env.update outer n) (env.update vard n)) →
    (∀ n, t.PathNeeds n → n ≠ dirName → env.update outer n = env.update vard n) →
    lex env order t outer = .ok v → ∃ r, loadf env order t vard = .ok r

/-- **Either load of a document succeeds**: by induction on the document, over whatever table is registered
    that agrees around it. -/
theorem construct_of_lexItems {read : Text → Except LoadError Text} (hplain : Plain read)
    (hsteady : ∀ n, Steady env n (base n)) : ∀ {Before : Text → Prop} (items : Items) {s : Frames}
    {vals : List Val}, items.All (Loads env order root) → items.Scoped order root Bound →
    (∀ n, items.Leaves order n → Bound n) → (∀ n, Before n → Bound n) → items.Readable order read base Before →
    (items.Needs order dirName → ¬ Bound dirName → base dirName = some root) →
    (∀ n, items.Needs order n → ¬ Bound n → n ≠ dirName → Defined (L n) (base n)) →
    (∀ n, items.PathNeeds n → ¬ Bound n → n ≠ dirName → L n = base n) →
    lexItems env order items L = .ok vals → Around Before base s.registered →
    ∃ r, construct env order read items s = .ok r
  | _, .nil, s, _, _, _, _, _, _, _, _, _, _, _ => ⟨([], s), rfl⟩
  | _, .text t rest, s, _, hall, hscoped, hbound, hbefore, ⟨⟨v, hv⟩, hreadable⟩, hroot, hneeds, hpaths, h,
      haround => by
      obtain ⟨_, vals', -, hrest, -⟩ := lexItems_text_ok.mp h
      obtain ⟨⟨vals'', s'⟩, hr⟩ := construct_of_lexItems hplain hsteady rest hall hscoped hbound hbefore
        hreadable hroot hneeds hpaths hrest haround
      exact ⟨_, construct_text_ok.mpr ⟨v, vals'', hv, hr, rfl⟩⟩
  | Before, .incl path options child rest, s, _, ⟨hloads, hall⟩, ⟨hapart, hchild, hscoped⟩, hbound, hbefore,
      ⟨⟨p, hp, hpath⟩, hread, hreadable⟩, hroot, hneeds, hpaths, h, haround => by
      obtain ⟨inner, v, vals', -, hinner, hlex, hrest, -⟩ := lexItems_incl_ok.mp h
      obtain ⟨inner', hinner'⟩ := setOptions_total hplain hapart.names hread s.registered
      have hother : ∀ n, n ∉ keys options → inner n = L n := fun n hn =>
        setOptions_other (plain_interpolate L) hapart.names hinner hn
      have haround' : ∀ n, child.Needs order n → n ∉ keys options → inner' n = base n := fun n hn hmem =>
        (setOptions_other hplain hapart.names hinner' hmem).trans
          (haround n fun h => hapart.needs n hn hmem (hbefore n h))
      have hdefined : ∀ n, child.Needs order n → n ≠ dirName → Defined (inner n) (inner' n) := by
        intro n hn hne
        by_cases hmem : n ∈ keys options
        · exact fun _ => setOptions_defined hplain hapart.names hinner' (Or.inr hmem)
        · rw [hother n hmem, haround' n hn hmem]
          exact hneeds n (Or.inl ⟨hn, hmem⟩) (hapart.needs n hn hmem) hne
      have hsame : ∀ n, child.PathNeeds n → n ≠ dirName → inner n = inner' n := by
        intro n hn hne
        by_cases hmem : n ∈ keys options
        · refine setOptions_agree (plain_interpolate L) hplain hapart.names hinner hinner' ?_ (Or.inr hmem)
          rintro o ho rfl
          have hvalue : '$' ∉ o.2 := hapart.plain o ho hn
          exact (plain_interpolate L _ hvalue).trans (hplain _ hvalue).symm
        · have hneeds' : child.Needs order n := needs_of_pathNeeds child hchild hn
          rw [hother n hmem, haround' n hneeds' hmem]
          exact hpaths n (Or.inr (Or.inl ⟨hn, hmem⟩)) (hapart.needs n hneeds' hmem) hne
      obtain ⟨⟨v', nested⟩, hload⟩ := hloads hchild (dir_included hapart haround' fun h => hroot (Or.inl h))
        (fun n hn hne => defined_update (hdefined n hn hne))
        (fun n hn hne => update_congr (hsame n hn hne)) hlex
      have hincl : Included env order read path options child s.registered inner' v' nested :=
        ⟨⟨p, hp, hpath inner' (around_setOptions hplain hapart.names hinner' haround)⟩, hinner', hload⟩
      have hbehind : Around (fun n => Before n ∨ n ∈ keys options ∨ child.Leaves order n) base
          (s.behind inner' nested).registered := around_included hplain hsteady hapart hchild hincl haround
      obtain ⟨⟨vals'', s'⟩, hr⟩ := construct_of_lexItems hplain hsteady rest hall hscoped
        (fun n hn => hbound n (Or.inr (Or.inr hn)))
        (fun n hn => hn.elim (hbefore n) fun hn => hbound n (hn.imp id Or.inl)) hreadable
        (fun h => hroot (Or.inr h)) (fun n hn => hneeds n (Or.inr hn))
        (fun n hn => hpaths n (Or.inr (Or.inr hn))) hrest hbehind
      exact ⟨_, construct_incl_ok.mpr ⟨inner', v', nested, vals'', hincl, hr, rfl⟩⟩

/-- **Every file whose meaning is defined loads**, by induction over the tree. -/
theorem loads (t : Tree) : Loads env order root t := by
  induction t using Tree.induct with
  | h fname dir compose items hall =>
      let defs := written order compose items
      rintro ⟨hwritten, hnames, hown, hfirst, hpaths, hscoped⟩ outer vard v hroot hneeds hpathNeeds h
      obtain ⟨L, vals, hL, hitems, rfl⟩ := (lex_own_ok hwritten).mp h
      have hsteady : ∀ n, Steady env n (baseOf env dir vard n) := fun n => steady_baseOf
      have hkeeps : items.All (Keeps env order root) := Items.induct (fun _ _ _ _ _ => keeps _) items
      have hscope : ∀ n, n ≠ dirName → n ∉ keys defs → L n = env.update outer n := fun n hne hn =>
        (define_other hnames hL hn).trans (scopeOf_ne hne)
      have hneeds' : ∀ n, items.Needs order n → ¬ (n ∈ keys defs ∨ items.Leaves order n) → n ≠ dirName →
          Defined (L n) (baseOf env dir vard n) := by
        intro n hn hout hne
        have hdefs : n ∉ keys defs := fun hmem => hout (Or.inl hmem)
        rw [hscope n hne hdefs, baseOf_ne hne]
        exact hneeds n ⟨hdefs, Or.inr (Or.inr hn)⟩ hne
      have hpaths' : ∀ n, items.PathNeeds n → n ∉ keys defs → n ≠ dirName → L n = baseOf env dir vard n := by
        intro n hn hdefs hne
        rw [hscope n hne hdefs, baseOf_ne hne]
        exact hpathNeeds n hn hne
      have hroot' : items.Needs order dirName → ¬ (dirName ∈ keys defs ∨ items.Leaves order dirName) →
          baseOf env dir vard dirName = some root := fun h hout =>
        baseOf_root hroot (fun hmem => hout (Or.inl hmem)) (Or.inr h)
      have hfound : items.Found (baseOf env dir vard) := by
        refine found_agree items (fun n hn => ?_) (found_of_lexItems items hitems)
        have hdefs := not_before_of_pathRefs items hpaths hn
        have href : OwnRef defs items n := Or.inr (refers_of_pathRefs items hn)
        by_cases hne : n = dirName
        · subst hne
          rw [define_other hnames hL hdefs, scopeOf_dirName, baseOf_root hroot hdefs (Or.inl href),
            hown href hdefs]
        · exact hpaths' n (pathNeeds_of_pathRefs items hn) hdefs hne
      -- The first load.
      obtain ⟨⟨raw, s⟩, hraw⟩ := construct_of_lexItems (s := ⟨baseOf env dir vard, none⟩) plain_ok hsteady
        items hall hscoped (fun n hn => Or.inr hn) (fun n hn => Or.inl hn)
        (readable_raw items hpaths hfound) hroot' hneeds'
        (fun n hn hout => hpaths' n hn fun hmem => hout (Or.inl hmem)) hitems fun n _ => rfl
      have hdefined : ∀ n, OwnRef defs items n → n ∉ keys defs →
          Defined (scopeOf env dir outer n) (s.own n) := by
        intro n href hn
        have hkept : s.own n = baseOf env dir vard n :=
          construct_own plain_ok items hscoped hraw fun hmem => hn (hfirst n hmem href)
        rw [hkept]
        by_cases hne : n = dirName
        · subst hne
          exact fun _ => ⟨root, baseOf_root hroot hn (Or.inl href)⟩
        · rw [scopeOf_ne hne, baseOf_ne hne]
          exact hneeds n ⟨hn, href.imp id Or.inl⟩ hne
      -- The definitions, and the second load.
      obtain ⟨table, hdefine, hsame⟩ := define_respects respected_defined (fun _ h => h) hnames
        (fun d hd n hn => Or.inl ⟨d, hd, hn⟩) hdefined hL
      have hfound' : items.Found table := found_agree items
        (fun n hn => (path_between hscoped hnames hfirst hpaths hraw hdefine hn).symm) hfound
      obtain ⟨⟨vals', s'⟩, hload⟩ := construct_of_lexItems (plain_interpolate table) hsteady items hall
        hscoped (fun n hn => Or.inr hn) (fun n hn => hn)
        (readable_interpolated items hscoped hfound' (fun n hn => hsame n (Or.inr hn)) hitems) hroot' hneeds'
        (fun n hn hout => hpaths' n hn fun hmem => hout (Or.inl hmem)) hitems fun n hn =>
          registered_between hkeeps hscoped hnames hraw hdefine (fun _ hmem => hn (Or.inl hmem))
            (fun hleaves => hn (Or.inr hleaves)) steady_baseOf
      exact ⟨_, (loadf_own_ok hwritten).mpr ⟨raw, s, table, vals', s', hraw, hdefine, hload, rfl, rfl⟩⟩

end

/-! ## An option, and a directory -/

/-- The entries of a dictionary in the order in which they stand in the text. -/
def textOrder : DictOrder := ⟨id, List.Perm.refl⟩

/-- A file whose text is its option. -/
def opted : Tree := .file "o.yml".toList "/r".toList .list (.text (refTo 'K') .nil)

/-- A mapping with a definition, the first text, and a sequence of everything else. -/
def optingData : List Val → Val
  | [] => .scalar
  | v :: vals => .dict [("variables".toList, .dict [(['A'], v)]), ("values".toList, .list vals)]

/-- A file that includes the other, with what its own definition has. -/
def opting : Tree :=
  .file "i.yml".toList "/r".toList optingData
    (.text ['x'] (.text (refTo 'A') (.incl "o.yml".toList [(['K'], refTo 'A')] opted .nil)))

/-- A list brings no definitions of its own. -/
theorem own_list (items : Items) : Own textOrder .list items := fun _ _ => rfl

/-- The example with an option is well scoped. -/
theorem opted_scoped : opted.Scoped textOrder "/r".toList :=
  ⟨own_list _, fun _ h => absurd h List.not_mem_nil, fun _ _ => rfl,
    fun _ h => absurd h List.not_mem_nil, trivial, trivial⟩

/-- The example around it is well scoped. -/
theorem opting_scoped : opting.Scoped textOrder "/r".toList := by
  have hrefs : refs (refTo 'A') = [['A']] := by decide
  have hrefs' : refs (refTo 'K') = [['K']] := by decide
  have hpath : refs ['o', '.', 'y', 'm', 'l'] = [] := by decide
  have hdef : refs ['x'] = [] := by decide
  have hwritten : written textOrder optingData
      (.text ['x'] (.text (refTo 'A') (.incl "o.yml".toList [(['K'], refTo 'A')] opted .nil))) =
        [(['A'], ['x'])] := rfl
  have hneeds : ∀ n, opted.Needs textOrder n → n = ['K'] := by
    rintro n ⟨-, h⟩
    have hnone : written textOrder .list (.text (refTo 'K') .nil) = [] := rfl
    simpa [Items.Refers, Items.Needs, hrefs', hnone] using h
  have hown : Own textOrder optingData
      (.text ['x'] (.text (refTo 'A') (.incl "o.yml".toList [(['K'], refTo 'A')] opted .nil))) := by
    rintro vals ⟨vals', rfl, -⟩
    rw [hwritten]
    rfl
  refine ⟨hown, ?_, fun _ _ => rfl, ?_, ⟨?_, trivial⟩, ⟨?_, ?_, by decide, by decide, fun _ _ h => ?_⟩,
    opted_scoped, trivial⟩
  · rw [hwritten]
    decide
  · intro n hn href
    rw [List.mem_singleton.mp hn, hwritten] at href
    simp [OwnRef, Items.Refers, hrefs, hpath, hdef] at href
  · intro n hn
    have hnil : n ∈ refs ['o', '.', 'y', 'm', 'l'] := hn
    rw [hpath] at hnil
    cases hnil
  · intro n hn hout
    exact absurd (hneeds n hn ▸ List.mem_cons_self) hout
  · exact fun hn => absurd (hneeds _ hn) (by decide)
  · exact h.elim

/-- **A document that is one include** takes its definitions from another file. -/
theorem not_own_whole {path : Text} {options : List (Text × Text)} {child : Tree}
    {compose : List Val → Val} (hwhole : ∀ v, compose [v] = v) :
    ¬ Own order compose (.incl path options child .nil) := by
  intro hown
  have hnone := hown [.dict []] ⟨_, _, rfl, rfl⟩
  have hsome := hown [.dict [("variables".toList, .dict [(['X'], .text ['q'])])]] ⟨_, _, rfl, rfl⟩
  rw [hwhole] at hnone hsome
  rw [← hnone] at hsome
  have hlist : order.list [(['X'], ['q'])] = [] := Except.ok.inj hsome
  have hperm := order.perm [(['X'], ['q'])]
  rw [hlist] at hperm
  cases hperm.length_eq

/-- A file whose text is its directory. -/
def located : Tree := .file "d/l.yml".toList "/r/d".toList .list (.text ('$' :: dirName) .nil)

/-- And one that includes it, from above. -/
def locating : Tree := .file "i.yml".toList "/r".toList .list (.incl "d/l.yml".toList [] located .nil)

end DentOS.Onlyaml
