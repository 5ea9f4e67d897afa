/-
  Files that include others (tools/onlyaml.py): `loadf` and its `!include` constructor.

  A load makes a table and registers a constructor that reads and writes it; a nested load registers
  another, and what was registered before does not come back.  Every file is loaded twice: as it is
  written, to find its definitions, and once more with them put in.  So an include is resolved with the
  table of the file that was entered last, whose options and definitions are still in it, and the
  directory of the first file counts in all of them.

  `lex` is the load with a table for every file, and `Lexical` that the two agree.

  A file is the texts and includes of its document, in the order in which yaml comes to them, and the
  function that makes its data of what they are loaded as (`compose`), for yaml has sequences and mappings
  of them.  The definitions of a file are taken from the data of its first load, under 'variables'
  (`definitions`).  So a file may have definitions that are not written in it: with `!include` for a
  whole document, its data is that of another file; with `!include` under 'variables', its definitions are.

  What is put into a text stays in it: values have no blanks and no yaml in directives.  `!script` is not
  modelled.
-/
import DentOS.Onlyaml.Variables

namespace DentOS.Onlyaml

open PyText Template

/-! ## Files, as trees of includes -/

/-- What yaml makes of a text: a string, another scalar, a sequence or a mapping. -/
inductive Val where
  | text (t : Text)
  | scalar
  | list (l : List Val)
  | dict (entries : List (Text × Val))

mutual

/-- A file: the name that includes know it by, its directory, and its document, of whose texts and
    includes `compose` makes the data. -/
inductive Tree where
  | file (fname dir : Text) (compose : List Val → Val) (items : Items)

/-- A document: texts, and `!include path k=v ..` directives with the file that is meant. -/
inductive Items where
  | nil
  | text (t : Text) (rest : Items)
  | incl (path : Text) (options : List (Text × Text)) (child : Tree) (rest : Items)

end

/-- The name that includes know a file by. -/
def Tree.fname : Tree → Text
  | .file fname _ _ _ => fname

/-- The directory of a file. -/
def Tree.dir : Tree → Text
  | .file _ dir _ _ => dir

/-- How a load ends without data. -/
inductive LoadError where
  /-- An `OnlYamlError`. -/
  | yaml (e : OnlYamlError)
  /-- The included file does not exist. -/
  | noFile
  /-- `Template` of something that is no string, a `TypeError`. -/
  | notText

/-- `'__DIR__'`. -/
def dirName : Text := "__DIR__".toList

/-- `interpolate`. -/
def interpolate (t : Text) (d : Table) : Except LoadError Text :=
  (substitute t d).mapError fun e => .yaml (.template e)

/-! ## The definitions of a file are read from what was loaded -/

/-- The order in which Python iterates over a dictionary. -/
structure DictOrder where
  /-- The entries in the order they are listed. -/
  list : List (Text × Text) → List (Text × Text)
  /-- Every entry is listed once. -/
  perm : ∀ l, (list l).Perm l

/-- `rv[k] = v`, in a dictionary by its entries. -/
def putEntry (rv : List (Text × Val)) (e : Text × Val) : List (Text × Val) :=
  if e.1 ∈ rv.map Prod.fst then rv.map fun x => if x.1 = e.1 then e else x else rv ++ [e]

mutual

/-- `dflatten`, on the entries of dictionaries whose values need not be texts. -/
def flatten (rv : List (Text × Val)) : Val → Except OnlYamlError (List (Text × Val))
  | .dict entries => .ok (entries.foldl putEntry rv)
  | .list l => flattenAll rv l
  | .text _ => .error .element
  | .scalar => .error .element

/-- Its loop. -/
def flattenAll (rv : List (Text × Val)) : List Val → Except OnlYamlError (List (Text × Val))
  | [] => .ok rv
  | e :: l =>
      match flatten rv e with
      | .error err => .error err
      | .ok rv' => flattenAll rv' l

end

/-- Entries that are all texts, as `interpolate` needs them. -/
def textEntries : List (Text × Val) → Except LoadError (List (Text × Text))
  | [] => .ok []
  | (k, .text v) :: rest => (textEntries rest).map ((k, v) :: ·)
  | (_, .scalar) :: _ => .error .notText
  | (_, .list _) :: _ => .error .notText
  | (_, .dict _) :: _ => .error .notText

/-- `_v`, in the order in which it is iterated over: what is under 'variables', when the data is a
    mapping. -/
def definitions (order : DictOrder) : Val → Except LoadError (List (Text × Text))
  | .dict entries =>
      match entries.lookup "variables".toList with
      | none => .ok []
      | some sec => do
          let rv ← (flatten [] sec).mapError .yaml
          let defs ← textEntries rv
          return order.list defs
  | .text _ => .ok []
  | .scalar => .ok []
  | .list _ => .ok []

/-- The definitions of a file over what was in its table in front of them. -/
def define (defs : List (Text × Text)) (base : Table) : Except LoadError Table :=
  (variablesOf base (tableOf defs) defs).mapError .yaml

/-- `variables[k] = v` for the options of a directive, where `read` is how the text is read. -/
def setOptions (read : Text → Except LoadError Text) :
    List (Text × Text) → Table → Except LoadError Table
  | [], d => .ok d
  | (k, v) :: options, d => do
      let k' ← read k
      let v' ← read v
      setOptions read options (d.set k' v')

/-! ## The loads: a constructor that is registered, and replaced by nested loads -/

/-- The table of the file that is loaded, and of the constructor that is registered, if it is another. -/
structure Frames where
  /-- The table of the file that is loaded. -/
  own : Table
  /-- The table of the constructor that is registered. -/
  other : Option Table

/-- The table that the registered constructor reads and writes. -/
def Frames.registered (s : Frames) : Table := s.other.getD s.own

/-- The constructor has put options into its table, and a nested load has registered another. -/
def Frames.behind (s : Frames) (table nested : Table) : Frames :=
  ⟨if s.other.isNone then table else s.own, some nested⟩

section

variable (env : Table) (order : DictOrder)

/-- The table of a file in front of its first load. -/
def baseOf (dir : Text) (vard : Table) : Table := (env.set dirName dir).update vard

mutual

/-- `loadf(fname, vard)`: the data, and the table of the constructor that it leaves. -/
def loadf : Tree → Table → Except LoadError (Val × Table)
  | .file _ dir compose items, vard => do
      let first ← construct .ok items ⟨baseOf env dir vard, none⟩
      let defs ← definitions order (compose first.1)
      let table ← define defs first.2.own
      let second ← construct (fun t => interpolate t table) items ⟨table, first.2.other⟩
      return (compose second.1, second.2.registered)

/-- `yaml.load`, of a document in which every text is read by `read`. -/
def construct (read : Text → Except LoadError Text) :
    Items → Frames → Except LoadError (List Val × Frames)
  | .nil, s => .ok ([], s)
  | .text t rest, s => do
      let v ← read t
      let vals ← construct read rest s
      return (.text v :: vals.1, vals.2)
  | .incl path options child rest, s => do
      let path' ← read path
      let table ← setOptions read options s.registered
      let fname ← interpolate path' table
      if fname = child.fname then
        let loaded ← loadf child table
        let vals ← construct read rest (s.behind table loaded.2)
        return (loaded.1 :: vals.1, vals.2)
      else .error .noFile

end

/-! ## Lexical scopes: what a tree of files should mean -/

/-- The table of a file: what is visible around it, and its own directory. -/
def scopeOf (dir : Text) (outer : Table) : Table := (env.update outer).set dirName dir

mutual

/-- **The load with a table for every file.**  Its definitions are those of its data as it is written,
    where what it includes is loaded with the scope around it. -/
def lex : Tree → Table → Except LoadError Val
  | .file _ dir compose items, outer => do
      let defs ← definitions order (compose (lexRaw items (scopeOf env dir outer)))
      let table ← define defs (scopeOf env dir outer)
      let vals ← lexItems items table
      return compose vals

/-- A document as it is written, with the data of what it includes; where that is not to be had, there
    is no definition in it. -/
def lexRaw : Items → Table → List Val
  | .nil, _ => []
  | .text t rest, table => .text t :: lexRaw rest table
  | .incl path options child rest, table =>
      let loaded : Except LoadError Val := do
        let fname ← interpolate path table
        let inner ← setOptions (fun t => interpolate t table) options table
        if fname = child.fname then lex child inner else .error .noFile
      loaded.toOption.getD .scalar :: lexRaw rest table

/-- A document, with the table of its file. -/
def lexItems : Items → Table → Except LoadError (List Val)
  | .nil, _ => .ok []
  | .text t rest, table => do
      let v ← interpolate t table
      let vals ← lexItems rest table
      return .text v :: vals
  | .incl path options child rest, table => do
      let fname ← interpolate path table
      let inner ← setOptions (fun t => interpolate t table) options table
      if fname = child.fname then
        let v ← lex child inner
        let vals ← lexItems rest table
        return v :: vals
      else .error .noFile

end

/-- **A tree is loaded with lexical scopes**: `loadf` returns what it is with a table for every file, and
    nothing where it is nothing. -/
def Lexical (t : Tree) (vard : Table) : Prop :=
  ∀ v, lex env order t vard = .ok v ↔ ∃ table, loadf env order t vard = .ok (v, table)

end

/-! ## Induction over trees -/

/-- What holds of every file that is included. -/
def Items.All (P : Tree → Prop) : Items → Prop
  | .nil => True
  | .text _ rest => rest.All P
  | .incl _ _ child rest => P child ∧ rest.All P

mutual

/-- What holds of a file when it holds of all files that it includes holds of every tree. -/
theorem Tree.induct {P : Tree → Prop}
    (h : ∀ fname dir compose items, Items.All P items → P (.file fname dir compose items)) : ∀ t, P t
  | .file fname dir compose items => h fname dir compose items (Items.induct h items)

/-- Induction over the items, and the files in them. -/
theorem Items.induct {P : Tree → Prop}
    (h : ∀ fname dir compose items, Items.All P items → P (.file fname dir compose items)) :
    ∀ items, Items.All P items
  | .nil => trivial
  | .text _ rest => Items.induct h rest
  | .incl _ _ child rest => ⟨Tree.induct h child, Items.induct h rest⟩

end

/-! ## What the loads do, step by step -/

variable {env : Table} {order : DictOrder}

/-- What the constructor does with one directive, over the table that is registered. -/
structure Included (env : Table) (order : DictOrder) (read : Text → Except LoadError Text) (path : Text)
    (options : List (Text × Text)) (child : Tree) (registered table : Table) (v : Val) (nested : Table) :
    Prop where
  path : ∃ p, read path = .ok p ∧ interpolate p table = .ok child.fname
  options : setOptions read options registered = .ok table
  child : loadf env order child table = .ok (v, nested)

/-- Two steps succeed one behind the other. -/
theorem bind_ok_iff {α β : Type} {x : Except LoadError α} {f : α → Except LoadError β} {b : β} :
    (x >>= f) = .ok b ↔ ∃ a, x = .ok a ∧ f a = .ok b := by
  cases x with
  | error e =>
      constructor
      · rintro ⟨⟩
      · rintro ⟨_, ⟨⟩, -⟩
  | ok a =>
      constructor
      · exact fun h => ⟨a, rfl, h⟩
      · rintro ⟨_, ⟨⟩, h⟩
        exact h

/-- A result is what it is. -/
theorem pure_ok_iff {α : Type} {a b : α} : (pure a : Except LoadError α) = .ok b ↔ b = a := by
  constructor
  · rintro ⟨⟩
    rfl
  · rintro rfl
    rfl

/-- Renaming an error does not make a result. -/
theorem mapError_ok_iff {ε α : Type} {x : Except ε α} {f : ε → LoadError} {a : α} :
    x.mapError f = .ok a ↔ x = .ok a := by
  cases x with
  | error e =>
      constructor
      · rintro ⟨⟩
      · rintro ⟨⟩
  | ok a' =>
      constructor
      · rintro ⟨⟩
        rfl
      · rintro ⟨⟩
        rfl

/-- The file that is found has to be the one that is meant. -/
theorem found_ok_iff {α : Type} {fname fname' : Text} {x : Except LoadError α} {a : α} :
    (if fname = fname' then x else .error .noFile) = .ok a ↔ fname = fname' ∧ x = .ok a := by
  by_cases h : fname = fname'
  · rw [if_pos h, and_iff_right h]
  · rw [if_neg h]
    constructor
    · rintro ⟨⟩
    · exact fun h' => absurd h'.1 h

/-- What a load comes to, step by step. -/
theorem loadf_ok {fname dir : Text} {compose : List Val → Val} {items : Items} {vard W : Table}
    {v : Val} : loadf env order (.file fname dir compose items) vard = .ok (v, W) ↔
      ∃ raw s defs table vals s',
        construct env order .ok items ⟨baseOf env dir vard, none⟩ = .ok (raw, s) ∧
        definitions order (compose raw) = .ok defs ∧ define defs s.own = .ok table ∧
        construct env order (fun t => interpolate t table) items ⟨table, s.other⟩ = .ok (vals, s') ∧
        v = compose vals ∧ W = s'.registered := by
  simp only [loadf, bind_ok_iff, pure_ok_iff, Prod.exists, Prod.mk.injEq, exists_and_left]

section

variable {read : Text → Except LoadError Text} {t path : Text} {options : List (Text × Text)} {child : Tree}
  {rest : Items} {vals : List Val}

/-- A scalar, and the items behind it. -/
theorem construct_text_ok {s s' : Frames} : construct env order read (.text t rest) s = .ok (vals, s') ↔
    ∃ v vals', read t = .ok v ∧ construct env order read rest s = .ok (vals', s') ∧ vals = .text v :: vals' := by
  simp only [construct, bind_ok_iff, pure_ok_iff, Prod.exists, Prod.mk.injEq, exists_and_left]
  constructor
  · rintro ⟨v, hv, vals', s'', hrest, rfl, rfl⟩
    exact ⟨v, hv, vals', hrest, rfl⟩
  · rintro ⟨v, hv, vals', hrest, rfl⟩
    exact ⟨v, hv, vals', s', hrest, rfl, rfl⟩

/-- An include, and the items behind it. -/
theorem construct_incl_ok {s s' : Frames} :
    construct env order read (.incl path options child rest) s = .ok (vals, s') ↔
    ∃ table v nested vals', Included env order read path options child s.registered table v nested ∧
      construct env order read rest (s.behind table nested) = .ok (vals', s') ∧ vals = v :: vals' := by
  simp only [construct, bind_ok_iff, pure_ok_iff, found_ok_iff, Prod.exists, Prod.mk.injEq]
  constructor
  · rintro ⟨p, hp, table, htable, _, hpath, rfl, v, nested, hchild, vals', _, hrest, rfl, rfl⟩
    exact ⟨table, v, nested, vals', ⟨⟨p, hp, hpath⟩, htable, hchild⟩, hrest, rfl⟩
  · rintro ⟨table, v, nested, vals', ⟨⟨p, hp, hpath⟩, htable, hchild⟩, hrest, rfl⟩
    exact ⟨p, hp, table, htable, _, hpath, rfl, v, nested, hchild, vals', s', hrest, rfl, rfl⟩

/-- What the meaning of a file comes to, step by step. -/
theorem lex_ok {fname dir : Text} {compose : List Val → Val} {items : Items} {outer : Table} {v : Val} :
    lex env order (.file fname dir compose items) outer = .ok v ↔ ∃ defs table vals,
      definitions order (compose (lexRaw env order items (scopeOf env dir outer))) = .ok defs ∧
      define defs (scopeOf env dir outer) = .ok table ∧ lexItems env order items table = .ok vals ∧
      v = compose vals := by
  simp only [lex, bind_ok_iff, pure_ok_iff, exists_and_left]

/-- The meaning of a scalar, and of the items behind it. -/
theorem lexItems_text_ok {table : Table} : lexItems env order (.text t rest) table = .ok vals ↔
    ∃ v vals', interpolate t table = .ok v ∧ lexItems env order rest table = .ok vals' ∧
      vals = .text v :: vals' := by
  simp only [lexItems, bind_ok_iff, pure_ok_iff, exists_and_left]

/-- The meaning of an include, and of the items behind it. -/
theorem lexItems_incl_ok {table : Table} : lexItems env order (.incl path options child rest) table = .ok vals ↔
    ∃ inner v vals', interpolate path table = .ok child.fname ∧
      setOptions (fun t => interpolate t table) options table = .ok inner ∧ lex env order child inner = .ok v ∧
      lexItems env order rest table = .ok vals' ∧ vals = v :: vals' := by
  simp only [lexItems, bind_ok_iff, pure_ok_iff, found_ok_iff]
  constructor
  · rintro ⟨_, hpath, inner, hinner, rfl, v, hv, vals', hrest, rfl⟩
    exact ⟨inner, v, vals', hpath, hinner, hv, hrest, rfl⟩
  · rintro ⟨inner, v, vals', hpath, hinner, hv, hrest, rfl⟩
    exact ⟨_, hpath, inner, hinner, rfl, v, hv, vals', hrest, rfl⟩

end

end DentOS.Onlyaml
