/-
  Configuration files `key="value"` (onl/install/ConfUtils.py).

  `ConfBase.dumps` puts one layer of double quotes around each value, and `_feedLine` takes it off
  again; what is left is the value (`unquote_double`).  Then `_feedLine` looks for single quotes, too.
  They are the value's own: a value that begins and ends with one loses both, and a value that is
  just one loses it (`unquote_eq_self_iff`).

  So the reader gets every key back, and each value without a layer of single quotes
  (`feedLines_rows`), whatever breaks the lines (`read_dumps`); and the map is the same exactly where no
  value has such a layer (`inverse_iff`).
-/
import DentOS.Lib.Dict
import DentOS.Lib.Lines

namespace DentOS.Conf

open PyText

/-! ## Reading: one line, and all of them -/

/-- What the file objects raise. -/
inductive ConfError where
  | valueError (message : Text)
  | attributeError (message : Text)
  deriving DecidableEq

/-- `val[:1] == q and val[-1:] == q`. -/
def Quoted (q : Char) (val : Text) : Prop := val.head? = some q ∧ val.getLast? = some q

instance (q : Char) (val : Text) : Decidable (Quoted q val) := inferInstanceAs (Decidable (_ ∧ _))

/-- `val[1:-1]` where there are quotes. -/
def unquote (q : Char) (val : Text) : Text := if Quoted q val then val.tail.dropLast else val

/-- `raise ValueError("invalid line in %s: %s" % (self.path, line,))`.  A `ConfBuf` has no path of its own,
    and looks it up among the data. -/
def invalidLine (path : Option Text) (data : Dict Text Text) (line : Text) : ConfError :=
  match path.or (data "path".toList) with
  | some path => .valueError ("invalid line in ".toList ++ path ++ ": ".toList ++ line)
  | none => .attributeError "'path'".toList

/-- `ConfBase._feedLine`. -/
def feedLine (path : Option Text) (data : Dict Text Text) (line : Text) :
    Except ConfError (Dict Text Text) :=
  let line := strip line
  if line = [] then .ok data
  else
    match line.idxOf? '=' with
    | none => .error (invalidLine path data line)
    | some idx =>
        .ok (data.set (line.take idx) (unquote '\'' (unquote '"' (line.drop (idx + 1)))))

/-- The loop over the lines. -/
def feedLines (path : Option Text) : List Text → Dict Text Text → Except ConfError (Dict Text Text)
  | [], data => .ok data
  | line :: lines, data => do feedLines path lines (← feedLine path data line)

/-- `ConfBuf._parse`. -/
def ConfBuf.parse (buf : Text) : Except ConfError (Dict Text Text) :=
  feedLines none (splitlines buf) Dict.empty

/-- `ConfFileBase._parse`, without a shell, on the content of the file. -/
def ConfFileBase.parse (path content : Text) : Except ConfError (Dict Text Text) :=
  feedLines (some path) (xreadlines content) Dict.empty

/-! ## Writing: the rows in their order -/

/-- The line of an entry, without its newline. -/
def row (e : Text × Text) : Text := e.1 ++ '=' :: '"' :: (e.2 ++ ['"'])

/-- `ConfBase.dumps`, with the entries in the order of the iteration. -/
def dumps (items : List (Text × Text)) : Text := items.flatMap fun e => row e ++ ['\n']

/-- A name that can stand in front of an `=`. -/
structure Key (k : Text) : Prop where
  trimmed : Trimmed k
  no_equals : '=' ∉ k
  one_line : OneLine k

/-- A configuration that fits on lines. -/
structure Fits (data : Dict Text Text) : Prop where
  key : ∀ k v, data k = some v → Key k
  value : ∀ k v, data k = some v → OneLine v

/-- **Dump and parse are inverse**, for either reader. -/
structure Inverse (data : Dict Text Text) (items : List (Text × Text)) : Prop where
  buf : ConfBuf.parse (dumps items) = .ok data
  file : ∀ path, ConfFileBase.parse path (dumps items) = .ok data

/-! ## Quotes: what is stripped from a value -/

/-- The layer that was put around a value. -/
theorem unquote_double (v : Text) : unquote '"' ('"' :: (v ++ ['"'])) = v := by
  have hquoted : Quoted '"' ('"' :: (v ++ ['"'])) :=
    ⟨rfl, by rw [← List.cons_append, List.getLast?_concat]⟩
  rw [unquote, if_pos hquoted, List.tail_cons, List.dropLast_concat]

/-- A layer that is taken off is missed. -/
theorem unquote_eq_self_iff (q : Char) (v : Text) : unquote q v = v ↔ ¬ Quoted q v := by
  constructor
  · intro h hquoted
    rw [unquote, if_pos hquoted] at h
    have hlen := congrArg List.length h
    rw [List.length_dropLast, List.length_tail] at hlen
    have hnil : v = [] := List.eq_nil_of_length_eq_zero (by omega)
    rw [hnil] at hquoted
    cases hquoted.1
  · exact fun h => if_neg h

/-! ## A line that is written is read again -/

section

variable {e : Text × Text} {path : Option Text} {data : Dict Text Text} {items : List (Text × Text)}

/-- A row has no blanks around it. -/
theorem trimmed_row (h : Key e.1) : Trimmed (row e) := by
  refine ⟨List.append_ne_nil_of_left_ne_nil h.trimmed.ne_nil _, fun c hc => ?_, fun c hc => ?_⟩
  · rw [row, List.head?_append_of_ne_nil _ h.trimmed.ne_nil] at hc
    exact h.trimmed.first c hc
  · have hend : row e = (e.1 ++ '=' :: '"' :: e.2) ++ ['"'] := by
      rw [row, List.append_assoc]
      rfl
    rw [hend, List.getLast?_concat] at hc
    cases hc
    rfl

/-- A row is on one line. -/
theorem oneLine_row (hkey : Key e.1) (hvalue : OneLine e.2) : OneLine (row e) := by
  have hquote : OneLine ['"'] := by decide
  have hequals : OneLine ['=', '"'] := by decide
  exact hkey.one_line.append (hequals.append (hvalue.append hquote))

/-- A line that reads as the row of an entry. -/
theorem feedLine_of_strip {line : Text} (hkey : Key e.1) (hline : strip line = row e) :
    feedLine path data line = .ok (data.set e.1 (unquote '\'' e.2)) := by
  have hfind : (row e).idxOf? '=' = some e.1.length := idxOf?_append hkey.no_equals _
  have hbehind : (row e).drop (e.1.length + 1) = '"' :: (e.2 ++ ['"']) := drop_behind _ _ _
  have hfront : (row e).take e.1.length = e.1 := List.take_left
  rw [feedLine, hline]
  simp only [if_neg (trimmed_row hkey).ne_nil, hfind, hbehind, hfront, unquote_double]

/-! ## The rows of a file are, exactly where no value loses a quote -/

/-- **What the reader gets**: every value without a layer of single quotes. -/
theorem feedLines_rows (f : Text × Text → Text) : ∀ {items : List (Text × Text)},
    (∀ e ∈ items, Key e.1) → (∀ e ∈ items, strip (f e) = row e) → ∀ data,
    feedLines path (items.map f) data =
      .ok (items.foldl (fun d e => d.set e.1 (unquote '\'' e.2)) data)
  | [], _, _, _ => rfl
  | e :: items, hkey, hstrip, data => by
      have ih := feedLines_rows f (fun e' he' => hkey e' (List.mem_cons_of_mem e he'))
        fun e' he' => hstrip e' (List.mem_cons_of_mem e he')
      rw [List.map_cons, feedLines,
        feedLine_of_strip (hkey e List.mem_cons_self) (hstrip e List.mem_cons_self)]
      exact ih _

/-- The text is the rows, each on its line. -/
theorem dumps_eq (items : List (Text × Text)) : dumps items = unlines (items.map row) := by
  rw [unlines, List.flatMap_map]
  rfl

/-- Both readers see the same rows. -/
theorem read_dumps (h : data.Items items) (hdata : Fits data) :
    ConfBuf.parse (dumps items) = .ok (fun k => (data k).map (unquote '\'')) ∧
      ∀ path, ConfFileBase.parse path (dumps items) = .ok (fun k => (data k).map (unquote '\'')) := by
  have hkey : ∀ e ∈ items, Key e.1 := fun e he => hdata.key e.1 e.2 ((h.mem e.1 e.2).mp he)
  have hvalue : ∀ e ∈ items, OneLine e.2 := fun e he => hdata.value e.1 e.2 ((h.mem e.1 e.2).mp he)
  have hone : ∀ l ∈ items.map row, OneLine l := by
    intro l hl
    obtain ⟨e, he, rfl⟩ := List.mem_map.mp hl
    exact oneLine_row (hkey e he) (hvalue e he)
  rw [← h.collect (unquote '\'')]
  constructor
  · rw [ConfBuf.parse, dumps_eq, splitlines_unlines hone]
    exact feedLines_rows row hkey (fun e he => (trimmed_row (hkey e he)).strip) Dict.empty
  · intro path
    rw [ConfFileBase.parse, dumps_eq, xreadlines_unlines fun l hl => (hone l hl).1, List.map_map]
    exact feedLines_rows (fun e => row e ++ ['\n']) hkey
      (fun e he => (trimmed_row (hkey e he)).strip_concat (by decide)) Dict.empty

/-- A map survives exactly where each of its values does. -/
theorem map_unquote_iff : (fun k => (data k).map (unquote '\'')) = data ↔
    ∀ k v, data k = some v → ¬ Quoted '\'' v := by
  constructor
  · intro h k v hv
    have hk := congrFun h k
    rw [hv, Option.map_some] at hk
    exact (unquote_eq_self_iff '\'' v).mp (Option.some.inj hk)
  · intro h
    funext k
    cases hv : data k with
    | none => rfl
    | some v => rw [Option.map_some, (unquote_eq_self_iff '\'' v).mpr (h k v hv)]

end

/-- **Dump and parse are inverse** exactly where no value begins and ends with a single quote. -/
theorem inverse_iff (data : Dict Text Text) (items : List (Text × Text)) (h : data.Items items)
    (hdata : Fits data) : Inverse data items ↔ ∀ k v, data k = some v → ¬ Quoted '\'' v := by
  have hread := read_dumps h hdata
  rw [← map_unquote_iff]
  constructor
  · intro hinverse
    exact Except.ok.inj (hread.1.symm.trans hinverse.buf)
  · intro hmap
    rw [hmap] at hread
    exact ⟨hread.1, hread.2⟩

/-- A configuration with one entry. -/
def single (v : Text) : Dict Text Text := Dict.empty.set "k".toList v

/-- The dictionary with one key. -/
theorem items_single (v : Text) : (single v).Items [("k".toList, v)] :=
  Dict.items_set Dict.items_empty "k".toList v

/-- A dictionary with one key fits when the value is on one line. -/
theorem fits_single {v : Text} (hv : OneLine v) : Fits (single v) := by
  have hk : Key "k".toList :=
    ⟨⟨by decide, fun c hc => (by cases hc; rfl), fun c hc => (by cases hc; rfl)⟩, by decide, by decide⟩
  have hone : ∀ k w, single v k = some w → k = "k".toList ∧ w = v := by
    intro k w h
    have hmem := ((items_single v).mem k w).mpr h
    exact Prod.mk.inj (List.mem_singleton.mp hmem)
  exact ⟨fun k w h => (hone k w h).1 ▸ hk, fun k w h => (hone k w h).2 ▸ hv⟩

/-- A value in double quotes keeps them. -/
theorem inverse_double : Inverse (single "\"a\"".toList) [("k".toList, "\"a\"".toList)] := by
  refine (inverse_iff _ _ (items_single _) (fits_single (by decide))).mpr fun k v hv hquoted => ?_
  obtain ⟨-, rfl⟩ := Prod.mk.inj (List.mem_singleton.mp (((items_single _).mem k v).mpr hv))
  exact absurd hquoted (by decide)

/-- A value in single quotes loses them. -/
theorem single_quotes_lost : ¬ ∀ (data : Dict Text Text) (items : List (Text × Text)), data.Items items →
    Fits data → Inverse data items := by
  intro h
  have hread := (h _ _ (items_single "'a'".toList) (fits_single (by decide))).buf
  have hcode : (ConfBuf.parse (dumps [("k".toList, "'a'".toList)])).toOption.bind
      (fun data => data "k".toList) = some "a".toList := by decide
  rw [hread] at hcode
  exact absurd hcode (by decide)

end DentOS.Conf
