/-
  A line of blkid, written and read (onl/install/InstallUtils.py).

  blkid prints a device, a colon, and attributes `NAME=value` with blanks between them; a value stands in
  quotes of either kind, or bare where it has no blank.  `BlkidEntry.fromLine` scans the attributes from
  the left, and each form of value has its own way of cutting the line.

  A quoted value is cut right (`readValue_single`).  For a bare value with more behind it the two halves
  of the cut are swapped: the value becomes all that is left, and what is left becomes the line up to
  the blank, which is this attribute again.  So the scan comes to it a second time, with nothing behind
  it, reads it right, and ends (`scan_bare_last`).  Everything behind the first bare value is lost.

  The scan ends on every line, since each pass leaves less of it (`scan_total`); and what it collects
  from a line that blkid wrote are the attributes up to the first bare one (`scan_body`).
-/
import Mathlib.Data.List.Basic
import DentOS.Lib.Dict
import DentOS.Lib.PyText

namespace DentOS.Blkid

open PyText

/-! ## Lines of the output, and the scan of one -/

/-- `text.find(c)`, for one letter. -/
def find (c : Char) (t : Text) : Option Nat := t.idxOf? c

/-- `text.find(c, start)`. -/
def findFrom (c : Char) (t : Text) (start : Nat) : Option Nat :=
  (find c (t.drop start)).map (· + start)

/-- `text[i:j]`. -/
def slice (i j : Nat) (t : Text) : Text := (t.take j).drop i

/-- What `fromLine` raises. -/
inductive ParseError where
  | valueError
  | typeError
  deriving DecidableEq

/-- `BlkidEntry`. -/
structure BlkidEntry where
  /-- The path of the device. -/
  device : Text
  /-- `LABEL` or `PARTLABEL`. -/
  label : Option Text
  /-- `UUID`. -/
  uuid : Option Text
  /-- `TYPE`. -/
  fsType : Option Text
  deriving DecidableEq

/-- `cls(dev, **attrs)`: two of the names are taken by arguments that are there already. -/
def BlkidEntry.init (device : Text) (kwargs : Dict Text Text) : Except ParseError BlkidEntry :=
  if (kwargs "device".toList).isSome || (kwargs "self".toList).isSome then .error .typeError
  else .ok {
    device := device
    label := kwargs "label".toList
    uuid := kwargs "uuid".toList
    fsType := kwargs "fsType".toList }

/-- The value and the rest of the line, behind a quote. -/
def readQuoted (c : Char) (line : Text) (p : Nat) : Text × Text :=
  match findFrom c line (p + 2) with
  | none => (line.drop (p + 1), [])
  | some q => (slice (p + 2) q line, strip (line.drop (q + 1)))

/-- The value and the rest of the line, behind an `=` at `p`. -/
def readValue (line : Text) (p : Nat) : Text × Text :=
  if slice (p + 1) (p + 2) line = ['\''] then readQuoted '\'' line p
  else if slice (p + 1) (p + 2) line = ['"'] then readQuoted '"' line p
  else
    match findFrom ' ' line (p + 1) with
    | none => (line.drop (p + 1), [])
    | some q => (line.drop (p + 1), strip (line.take q))

/-- The name under which an attribute is passed on. -/
def keyword (name : Text) : Text :=
  let key := name.map Char.toLower
  if key = "type".toList then "fsType".toList else key

/-- The loop over the attributes; `none` when its fuel is used up. -/
def scan : Nat → Text → Dict Text Text → Option (Except ParseError (Dict Text Text))
  | 0, line, attrs => if line = [] then some (.ok attrs) else none
  | fuel + 1, line, attrs =>
      if line = [] then some (.ok attrs)
      else
        match find '=' line with
        | none => some (.error .valueError)
        | some p =>
            let r := readValue line p
            scan fuel r.2 (attrs.set (keyword (line.take p)) r.1)

/-- `BlkidEntry.fromLine`. -/
def fromLine (fuel : Nat) (line : Text) : Option (Except ParseError BlkidEntry) :=
  let line := strip line
  match find ':' line with
  | none => some (.error .valueError)
  | some p =>
      (scan fuel (strip (line.drop (p + 1))) Dict.empty).map fun attrs =>
        attrs.bind (BlkidEntry.init (line.take p))

/-! ## What `blkid` writes: a device, and its attributes -/

/-- How a value stands in the line. -/
inductive Quoting where
  | single
  | double
  | bare
  deriving DecidableEq

/-- An attribute as it is printed. -/
structure Attr where
  /-- The tag. -/
  name : Text
  /-- Its value. -/
  value : Text
  /-- How the value is quoted. -/
  quoting : Quoting
  deriving DecidableEq

/-- The value between its quotes. -/
def Attr.valueText (a : Attr) : Text :=
  match a.quoting with
  | .single => '\'' :: (a.value ++ ['\''])
  | .double => '"' :: (a.value ++ ['"'])
  | .bare => a.value

/-- `NAME="value"`. -/
def Attr.render (a : Attr) : Text := a.name ++ '=' :: a.valueText

/-- The attributes of a line, with a blank in front of each. -/
def attrsText (as : List Attr) : Text := as.flatMap fun a => ' ' :: a.render

/-- A line of `blkid`. -/
def render (device : Text) (as : List Attr) : Text := device ++ ':' :: attrsText as

/-- A value in quotes lacks them.  A bare one has no blank, and does not look like a quoted one. -/
def Attr.ValueFits (a : Attr) : Prop :=
  match a.quoting with
  | .single => '\'' ∉ a.value
  | .double => '"' ∉ a.value
  | .bare => (∀ c ∈ a.value, isSpace c = false) ∧ a.value.head? ≠ some '\'' ∧ a.value.head? ≠ some '"'

/-- An attribute that blkid can write in this way. -/
structure Attr.Written (a : Attr) : Prop where
  name : ∀ c ∈ a.name, c ≠ '=' ∧ isSpace c = false
  value : a.ValueFits

/-- Names count without their case. -/
def Attr.key (a : Attr) : Text := a.name.map Char.toLower

/-- The value of the attribute with a name. -/
def valueOf (key : String) (as : List Attr) : Option Text :=
  (as.find? fun a => a.key = key.toList).map Attr.value

/-- The entry that was written. -/
def entryOf (device : Text) (as : List Attr) : BlkidEntry where
  device := device
  label := valueOf "label" as
  uuid := valueOf "uuid" as
  fsType := valueOf "type" as

/-- **`fromLine` recovers the entry**, with any fuel that covers the line. -/
def Recovers (device : Text) (as : List Attr) : Prop :=
  ∀ fuel, (render device as).length ≤ fuel →
    fromLine fuel (render device as) = some (.ok (entryOf device as))

/-- The attributes up to the first bare one. -/
def reached : List Attr → List Attr
  | [] => []
  | a :: as => if a.quoting = .bare then [a] else a :: reached as

/-- The attributes behind the first bare one. -/
def lost : List Attr → List Attr
  | [] => []
  | a :: as => if a.quoting = .bare then as else lost as

/-- What a line has to be: the device does not begin with a blank, no attribute that is reached has the
    name of an argument, and none that is lost is one of the entry's. -/
structure Fits (device : Text) (as : List Attr) : Prop where
  device : ∀ c ∈ device.head?, isSpace c = false
  arguments : ∀ a ∈ reached as, a.key ≠ "device".toList ∧ a.key ≠ "self".toList
  nothing_lost : ∀ a ∈ lost as, a.key ≠ "label".toList ∧ a.key ≠ "uuid".toList ∧ a.key ≠ "type".toList

/-! ## Every scan ends: each turn cuts something off the line -/

/-- `strip` adds nothing. -/
theorem length_strip_le (t : Text) : (strip t).length ≤ t.length := by
  rw [strip, List.length_reverse]
  refine ((List.dropWhile_suffix isSpace).length_le).trans ?_
  rw [List.length_reverse]
  exact (List.dropWhile_suffix isSpace).length_le

/-- What is found is in the text. -/
theorem find_lt {c : Char} {t : Text} {p : Nat} (h : find c t = some p) : p < t.length := by
  obtain ⟨hp, -⟩ := List.idxOf?_eq_some_iff.mp h
  exact hp

/-- What is found from a place on is not in front of it. -/
theorem findFrom_bounds {c : Char} {t : Text} {start q : Nat} (h : findFrom c t start = some q) :
    start ≤ q ∧ q < t.length := by
  obtain ⟨i, hi, rfl⟩ := Option.map_eq_some_iff.mp h
  have hlt := find_lt hi
  rw [List.length_drop] at hlt
  omega

/-- Each pass leaves less of the line. -/
theorem length_readValue_lt {line : Text} (hline : line ≠ []) (p : Nat) :
    (readValue line p).2.length < line.length := by
  have hpos := List.length_pos_iff.mpr hline
  have hquoted : ∀ c, (readQuoted c line p).2.length < line.length := by
    intro c
    rw [readQuoted]
    split
    · exact hpos
    · next q hq =>
        refine (length_strip_le _).trans_lt ?_
        rw [List.length_drop]
        omega
  rw [readValue]
  split
  · exact hquoted '\''
  · split
    · exact hquoted '"'
    · split
      · exact hpos
      · next q hq =>
          refine (length_strip_le _).trans_lt ?_
          rw [List.length_take]
          have hlt := (findFrom_bounds hq).2
          omega

/-- **The loop ends**: as much fuel as letters is enough. -/
theorem scan_total : ∀ {fuel : Nat} {line : Text} (attrs : Dict Text Text), line.length ≤ fuel →
    scan fuel line attrs ≠ none
  | 0, line, attrs, h => by
      rw [scan, if_pos (List.length_eq_zero_iff.mp (Nat.le_zero.mp h))]
      exact Option.some_ne_none _
  | fuel + 1, line, attrs, h => by
      rw [scan]
      split
      · exact Option.some_ne_none _
      · next hline =>
          split
          · exact Option.some_ne_none _
          · next p hp =>
              have hlt := length_readValue_lt hline p
              exact scan_total _ (by omega)

/-- **`fromLine` terminates** on every line. -/
theorem fromLine_total (line : Text) {fuel : Nat} (h : line.length ≤ fuel) :
    fromLine fuel line ≠ none := by
  rw [fromLine]
  split
  · exact Option.some_ne_none _
  · next p hp =>
      have hle : (strip ((strip line).drop (p + 1))).length ≤ fuel := by
        have hstrip := length_strip_le line
        have hrest := length_strip_le ((strip line).drop (p + 1))
        rw [List.length_drop] at hrest
        omega
      intro hnone
      exact scan_total Dict.empty hle (Option.map_eq_none_iff.mp hnone)

/-! ## Cutting a line -/

/-- A letter that is not in front is found where it stands. -/
theorem find_append {c : Char} {t : Text} (h : c ∉ t) (u : Text) : find c (t ++ c :: u) = some t.length :=
  idxOf?_append h u

/-- A letter that is nowhere is not found. -/
theorem find_of_not_mem {c : Char} {t : Text} (h : c ∉ t) : find c t = none :=
  List.idxOf?_eq_none_iff.mpr h

/-- The middle one of three pieces. -/
theorem slice_append (a b u : Text) : slice a.length (a.length + b.length) (a ++ (b ++ u)) = b := by
  rw [slice, ← List.append_assoc, ← List.length_append, List.take_left, List.drop_left]

/-! ## What was written: a line of attributes -/

/-- The attributes of a line, without the blank in front. -/
def body : List Attr → Text
  | [] => []
  | a :: as => a.render ++ attrsText as

section

variable {a : Attr} {as : List Attr}

/-- A written attribute begins with no blank. -/
theorem Attr.Written.head (h : a.Written) (u : Text) : ∀ c ∈ (a.render ++ u).head?, isSpace c = false := by
  rw [Attr.render]
  cases hname : a.name with
  | nil =>
      intro c hc
      cases hc
      rfl
  | cons d name =>
      intro c hc
      cases hc
      exact (h.name d (by rw [hname]; exact List.mem_cons_self)).2

/-- A written attribute ends in no blank. -/
theorem Attr.Written.last (h : a.Written) : ∀ c ∈ a.render.getLast?, isSpace c = false := by
  intro c hc
  rw [Attr.render, List.getLast?_append_of_ne_nil _ (List.cons_ne_nil _ _), Attr.valueText] at hc
  have hvalue := h.value
  rw [Attr.ValueFits] at hvalue
  split at hc
  · rw [← List.cons_append, ← List.cons_append, List.getLast?_concat] at hc
    cases hc
    rfl
  · rw [← List.cons_append, ← List.cons_append, List.getLast?_concat] at hc
    cases hc
    rfl
  · next hbare =>
      rw [hbare] at hvalue
      rcases List.mem_cons.mp (List.mem_of_getLast? hc) with rfl | hmem
      · rfl
      · exact hvalue.1 c hmem

/-- A list of written attributes begins and ends with no blank. -/
theorem body_ends (has : ∀ a ∈ as, a.Written) :
    (∀ c ∈ (body as).head?, isSpace c = false) ∧ ∀ c ∈ (body as).getLast?, isSpace c = false := by
  induction as with
  | nil => exact ⟨fun c hc => (by cases hc), fun c hc => (by cases hc)⟩
  | cons a as ih =>
      have ha := has a List.mem_cons_self
      refine ⟨ha.head _, ?_⟩
      cases as with
      | nil =>
          rw [body, attrsText, List.flatMap_nil, List.append_nil]
          exact ha.last
      | cons b bs =>
          have hrest : body (a :: b :: bs) = (a.render ++ [' ']) ++ body (b :: bs) := by
            rw [body, body, attrsText, List.flatMap_cons, List.append_assoc]
            rfl
          have hne : body (b :: bs) ≠ [] := by
            rw [body, Attr.render]
            simp
          rw [hrest, List.getLast?_append_of_ne_nil _ hne]
          exact (ih fun a ha => has a (List.mem_cons_of_mem _ ha)).2

/-- Nothing is stripped from a list of written attributes. -/
theorem strip_body (has : ∀ a ∈ as, a.Written) : strip (body as) = body as :=
  strip_of_ends (body_ends has).1 (body_ends has).2

/-- The blank in front of the attributes is stripped. -/
theorem strip_attrsText (has : ∀ a ∈ as, a.Written) : strip (attrsText as) = body as := by
  cases as with
  | nil => rfl
  | cons a as =>
      rw [← strip_body has]
      rfl

/-- The first `=` is behind the name. -/
theorem find_render (h : a.Written) (u : Text) : find '=' (a.render ++ u) = some a.name.length := by
  rw [Attr.render, List.append_assoc]
  exact find_append (fun hmem => (h.name _ hmem).1 rfl) _

/-- What is in front of the first `=` is the name. -/
theorem take_render (u : Text) : (a.render ++ u).take a.name.length = a.name := by
  rw [Attr.render, List.append_assoc, List.take_left]

/-! ## One attribute is scanned to its name and its value -/

/-- A value between quotes is read up to the second one. -/
theorem readQuoted_append {c : Char} {front value : Text} (hvalue : c ∉ value) {p : Nat}
    (hp : front.length = p + 2) (u : Text) :
    readQuoted c (front ++ (value ++ c :: u)) p = (value, strip u) := by
  have hfind : findFrom c (front ++ (value ++ c :: u)) (p + 2) = some (value.length + front.length) := by
    rw [findFrom, ← hp, List.drop_left, find_append hvalue]
    rfl
  have hslice := slice_append front value (c :: u)
  have hdrop := drop_behind (front ++ value) c u
  rw [List.length_append, List.append_assoc] at hdrop
  rw [readQuoted, hfind]
  show (slice (p + 2) (value.length + front.length) _,
    strip (List.drop (value.length + front.length + 1) _)) = _
  rw [← hp, Nat.add_comm value.length, hslice, hdrop]

/-- The letter behind the `=`. -/
theorem slice_first (t u : Text) : slice (t.length + 1) (t.length + 2) (t ++ '=' :: u) = u.take 1 := by
  rw [slice, List.drop_take, drop_behind, Nat.add_sub_add_left]

/-- A value between single quotes is read. -/
theorem readValue_single (hq : a.quoting = .single) (h : a.Written) (u : Text) :
    readValue (a.render ++ u) a.name.length = (a.value, strip u) := by
  have hvalue := h.value
  rw [Attr.ValueFits, hq] at hvalue
  have hline : a.render ++ u = (a.name ++ ['=', '\'']) ++ (a.value ++ '\'' :: u) := by
    simp [Attr.render, Attr.valueText, hq]
  have hfirst : slice (a.name.length + 1) (a.name.length + 2) (a.render ++ u) = ['\''] := by
    rw [Attr.render, Attr.valueText, hq, List.append_assoc, List.cons_append, slice_first]
    rfl
  rw [readValue, if_pos hfirst, hline]
  exact readQuoted_append hvalue (List.length_append) u

/-- A value between double quotes is read. -/
theorem readValue_double (hq : a.quoting = .double) (h : a.Written) (u : Text) :
    readValue (a.render ++ u) a.name.length = (a.value, strip u) := by
  have hvalue := h.value
  rw [Attr.ValueFits, hq] at hvalue
  have hline : a.render ++ u = (a.name ++ ['=', '"']) ++ (a.value ++ '"' :: u) := by
    simp [Attr.render, Attr.valueText, hq]
  have hfirst : slice (a.name.length + 1) (a.name.length + 2) (a.render ++ u) = ['"'] := by
    rw [Attr.render, Attr.valueText, hq, List.append_assoc, List.cons_append, slice_first]
    rfl
  rw [readValue, hfirst, if_neg (by decide), if_pos rfl, hline]
  exact readQuoted_append hvalue (List.length_append) u

/-- A value without quotes. -/
theorem render_bare (hq : a.quoting = .bare) : a.render = a.name ++ '=' :: a.value := by
  rw [Attr.render, Attr.valueText, hq]

/-- A bare value goes to the third form, with all of the line behind the `=`. -/
theorem readValue_bare (hq : a.quoting = .bare) (h : a.Written) {u : Text}
    (hu : u.head? ≠ some '\'' ∧ u.head? ≠ some '"') :
    readValue (a.render ++ u) a.name.length = (a.value ++ u, (find ' ' (a.value ++ u)).elim []
      fun q => strip ((a.render ++ u).take (q + (a.name.length + 1)))) := by
  have hvalue := h.value
  rw [Attr.ValueFits, hq] at hvalue
  have hhead : (a.value ++ u).head? ≠ some '\'' ∧ (a.value ++ u).head? ≠ some '"' := by
    cases hv : a.value with
    | nil => exact hu
    | cons c v =>
        rw [hv] at hvalue
        exact hvalue.2
  have htake : ∀ (c : Char) (t : Text), t.head? ≠ some c → t.take 1 ≠ [c] := by
    intro c t ht heq
    cases t with
    | nil => cases heq
    | cons d t =>
        cases heq
        exact ht rfl
  have hline : a.render ++ u = a.name ++ '=' :: (a.value ++ u) := by
    rw [render_bare hq, List.append_assoc]
    rfl
  have hfind : findFrom ' ' (a.name ++ '=' :: (a.value ++ u)) (a.name.length + 1) =
      (find ' ' (a.value ++ u)).map (· + (a.name.length + 1)) := by
    rw [findFrom, drop_behind]
  rw [hline, readValue, slice_first, if_neg (htake _ _ hhead.1), if_neg (htake _ _ hhead.2), hfind]
  cases find ' ' (a.value ++ u) with
  | none => simp only [Option.map_none, drop_behind, Option.elim_none]
  | some q => simp only [Option.map_some, drop_behind, Option.elim_some]

/-- The last attribute, bare. -/
theorem readValue_bare_last (hq : a.quoting = .bare) (h : a.Written) :
    readValue a.render a.name.length = (a.value, []) := by
  have hvalue := h.value
  rw [Attr.ValueFits, hq] at hvalue
  have hread := readValue_bare hq h (u := []) ⟨by decide, by decide⟩
  have hblank : ' ' ∉ a.value := fun hmem => absurd (hvalue.1 _ hmem) (by decide)
  rw [List.append_nil, List.append_nil, find_of_not_mem hblank] at hread
  exact hread

/-- A bare attribute with more behind it: it is left in the line. -/
theorem readValue_bare_more (hq : a.quoting = .bare) (h : a.Written) (u : Text) :
    ∃ val, readValue (a.render ++ ' ' :: u) a.name.length = (val, a.render) := by
  have hvalue := h.value
  rw [Attr.ValueFits, hq] at hvalue
  have hread := readValue_bare hq h (u := ' ' :: u) ⟨by simp, by simp⟩
  have hblank : ' ' ∉ a.value := fun hmem => absurd (hvalue.1 _ hmem) (by decide)
  have hlength : a.render.length = a.value.length + (a.name.length + 1) := by
    rw [render_bare hq, List.length_append, List.length_cons]
    omega
  have hhead := h.head []
  rw [List.append_nil] at hhead
  rw [find_append hblank] at hread
  refine ⟨a.value ++ ' ' :: u, hread.trans ?_⟩
  show (_, strip ((a.render ++ ' ' :: u).take (a.value.length + (a.name.length + 1)))) = _
  rw [← hlength, List.take_left, strip_of_ends hhead h.last]

/-! ## The scan of a line takes its attributes one by one -/

/-- `attrs[key] = val`, attribute by attribute. -/
def gather (attrs : Dict Text Text) (as : List Attr) : Dict Text Text :=
  as.foldl (fun attrs a => attrs.set (keyword a.name) a.value) attrs

/-- At the end of the line the loop returns. -/
theorem scan_nil (fuel : Nat) (attrs : Dict Text Text) : scan fuel [] attrs = some (.ok attrs) := by
  cases fuel <;> rfl

/-- One turn of the loop takes one attribute. -/
theorem scan_step (h : a.Written) (u : Text) (fuel : Nat) (attrs : Dict Text Text) :
    scan (fuel + 1) (a.render ++ u) attrs =
      scan fuel (readValue (a.render ++ u) a.name.length).2
        (attrs.set (keyword a.name) (readValue (a.render ++ u) a.name.length).1) := by
  have hne : a.render ++ u ≠ [] := by
    rw [Attr.render]
    simp
  rw [scan, if_neg hne, find_render h]
  show scan fuel _ (attrs.set (keyword ((a.render ++ u).take a.name.length)) _) = _
  rw [take_render]

/-- An attribute is not empty. -/
theorem length_render_pos (a : Attr) : 0 < a.render.length := by
  rw [Attr.render, List.length_append, List.length_cons]
  omega

/-- The attributes are not longer than with their blanks. -/
theorem length_body_le (as : List Attr) : (body as).length ≤ (attrsText as).length := by
  cases as with
  | nil => exact Nat.le_refl _
  | cons a as => exact Nat.le_succ _

/-- A bare attribute at the end of the line. -/
theorem scan_bare_last (hq : a.quoting = .bare) (h : a.Written) {fuel : Nat}
    (hfuel : a.render.length ≤ fuel) (attrs : Dict Text Text) :
    scan fuel a.render attrs = some (.ok (attrs.set (keyword a.name) a.value)) := by
  obtain ⟨f, rfl⟩ := Nat.exists_eq_succ_of_ne_zero
    (Nat.pos_iff_ne_zero.mp (Nat.lt_of_lt_of_le (length_render_pos a) hfuel))
  have hstep := scan_step h [] f attrs
  rw [List.append_nil, readValue_bare_last hq h, scan_nil] at hstep
  exact hstep

/-- A key that is set again. -/
theorem set_set (attrs : Dict Text Text) (k v v' : Text) : (attrs.set k v').set k v = attrs.set k v := by
  funext x
  by_cases hx : x = k
  · simp only [Dict.set, if_pos hx]
  · simp only [Dict.set, if_neg hx]

/-- **What a line gives**: its attributes up to the first bare one. -/
theorem scan_body : ∀ {as : List Attr} {fuel : Nat} (attrs : Dict Text Text), (∀ a ∈ as, a.Written) →
    (body as).length ≤ fuel → scan fuel (body as) attrs = some (.ok (gather attrs (reached as)))
  | [], fuel, attrs, _, _ => scan_nil fuel attrs
  | a :: as, fuel, attrs, has, hfuel => by
      have ha := has a List.mem_cons_self
      have has' : ∀ b ∈ as, b.Written := fun b hb => has b (List.mem_cons_of_mem a hb)
      have hlength := length_render_pos a
      have hbody := length_body_le as
      rw [body, List.length_append] at hfuel
      obtain ⟨f, rfl⟩ := Nat.exists_eq_succ_of_ne_zero (show fuel ≠ 0 by omega)
      -- a quoted value: on with what is behind it
      have hquoted : a.quoting ≠ .bare →
          readValue (a.render ++ attrsText as) a.name.length = (a.value, strip (attrsText as)) →
          scan (f + 1) (body (a :: as)) attrs = some (.ok (gather attrs (reached (a :: as)))) := by
        intro hq hread
        rw [body, scan_step ha, hread, strip_attrsText has', reached, if_neg hq]
        exact scan_body _ has' (by omega)
      cases hq : a.quoting with
      | single => exact hquoted (by rw [hq]; decide) (readValue_single hq ha _)
      | double => exact hquoted (by rw [hq]; decide) (readValue_double hq ha _)
      | bare =>
          rw [reached, if_pos hq]
          cases as with
          | nil =>
              rw [body, attrsText, List.flatMap_nil, List.append_nil]
              exact scan_bare_last hq ha (by omega) attrs
          | cons b bs =>
              -- the second time there is nothing behind it
              obtain ⟨val, hread⟩ := readValue_bare_more hq ha (body (b :: bs))
              have hline : body (a :: b :: bs) = a.render ++ ' ' :: body (b :: bs) := rfl
              have hf : a.render.length ≤ f := by
                have hcons : (attrsText (b :: bs)).length = (body (b :: bs)).length + 1 := rfl
                omega
              rw [hline, scan_step ha, hread, scan_bare_last hq ha hf, set_set]
              rfl

/-! ## The line as a whole: the device is cut at its colon -/

/-- The blanks in front of a device. -/
theorem dropWhile_colon (device u : Text) :
    (device ++ ':' :: u).dropWhile isSpace = device.dropWhile isSpace ++ ':' :: u := by
  induction device with
  | nil => rfl
  | cons c device ih =>
      rw [List.cons_append, List.dropWhile_cons, List.dropWhile_cons]
      split
      · exact ih
      · rfl

/-- The line without the blanks around it. -/
theorem strip_render (device : Text) (has : ∀ a ∈ as, a.Written) :
    strip (render device as) = device.dropWhile isSpace ++ ':' :: attrsText as := by
  have hstrip : ∀ t, strip t = strip (t.dropWhile isSpace) := fun t => by
    rw [strip, strip, List.dropWhile_idempotent]
  rw [hstrip, render, dropWhile_colon]
  refine strip_of_ends ?_ ?_
  · intro c hc
    cases hd : device.dropWhile isSpace with
    | nil =>
        rw [hd] at hc
        cases hc
        rfl
    | cons d rest =>
        rw [hd] at hc
        cases hc
        have hnot := List.head?_dropWhile_not isSpace device
        rw [hd] at hnot
        exact hnot
  · rw [List.getLast?_append_of_ne_nil _ (List.cons_ne_nil _ _)]
    cases as with
    | nil =>
        intro c hc
        cases hc
        rfl
    | cons a as =>
        have hne : body (a :: as) ≠ [] := by
          rw [body]
          exact List.append_ne_nil_of_left_ne_nil (List.ne_nil_of_length_pos (length_render_pos a)) _
        have hline : ':' :: attrsText (a :: as) = [':', ' '] ++ body (a :: as) := rfl
        rw [hline, List.getLast?_append_of_ne_nil _ hne]
        exact (body_ends has).2

/-- **The line is taken apart** into the attributes that the loop gets to. -/
theorem fromLine_render {device : Text} (hdevice : ':' ∉ device) (has : ∀ a ∈ as, a.Written) {fuel : Nat}
    (hfuel : (render device as).length ≤ fuel) :
    fromLine fuel (render device as) =
      some (BlkidEntry.init (device.dropWhile isSpace) (gather Dict.empty (reached as))) := by
  have hcolon : ':' ∉ device.dropWhile isSpace := fun h => hdevice ((List.dropWhile_suffix _).subset h)
  have hbody : (body as).length ≤ fuel := by
    have hle := length_body_le as
    rw [render, List.length_append, List.length_cons] at hfuel
    omega
  rw [fromLine, strip_render device has, find_append hcolon]
  show Option.map _ (scan fuel (strip (List.drop (_ + 1) _)) Dict.empty) = _
  rw [drop_behind, strip_attrsText has, scan_body Dict.empty has hbody, List.take_left]
  rfl

/-! ## The entry: every attribute that is asked for is found -/

/-- The others come behind them. -/
theorem reached_lost : ∀ as : List Attr, reached as ++ lost as = as
  | [] => rfl
  | a :: as => by
      rw [reached, lost]
      split
      · rfl
      · rw [List.cons_append, reached_lost as]

/-- Only `fsType` is spelt with a capital. -/
theorem toLower_ne_upper (c : Char) : c.toLower ≠ 'T' := by
  intro heq
  by_cases h : c.val ≥ 'A'.val ∧ c.val ≤ 'Z'.val
  · have hlower : c.toLower.val = c.val + 32 := congrArg Char.val (dif_pos h)
    have hval : c.val + 32 = 84 := hlower.symm.trans (congrArg Char.val heq)
    have hsum : (c.val.toNat + 32) % 2 ^ 32 = 84 :=
      (UInt32.toNat_add c.val 32).symm.trans (congrArg UInt32.toNat hval)
    have hge : 65 ≤ c.val.toNat := UInt32.le_iff_toNat_le.mp h.1
    have hle : c.val.toNat ≤ 90 := UInt32.le_iff_toNat_le.mp h.2
    omega
  · have hsame : c.toLower = c := dif_neg h
    rw [hsame] at heq
    subst heq
    exact h (by decide)

/-- The name under which the type is passed on is nobody else's. -/
theorem keyword_fsType (a : Attr) : keyword a.name = "fsType".toList ↔ a.key = "type".toList := by
  rw [keyword, Attr.key]
  by_cases h : a.name.map Char.toLower = "type".toList
  · exact iff_of_true (if_pos h) h
  · refine iff_of_false (fun heq => ?_) h
    rw [if_neg h] at heq
    have hmem : 'T' ∈ a.name.map Char.toLower := by
      rw [heq]
      decide
    obtain ⟨c, -, hc⟩ := List.mem_map.mp hmem
    exact toLower_ne_upper c hc

/-- Every key but that of the type is spelt as it is. -/
theorem keyword_other (a : Attr) {key : Text} (hkey : key ≠ "fsType".toList) (htype : key ≠ "type".toList) :
    keyword a.name = key ↔ a.key = key := by
  rw [keyword, Attr.key]
  by_cases h : a.name.map Char.toLower = "type".toList
  · exact iff_of_false (fun heq => hkey (heq.symm.trans (if_pos h))) (fun heq => htype (heq.symm.trans h))
  · exact Iff.of_eq (congrArg (· = key) (if_neg h))

/-- What is gathered under a name is the value of the attribute that is passed on under it. -/
theorem gather_eq {key : String} {k : Text} (hk : ∀ a : Attr, keyword a.name = k ↔ a.key = key.toList)
    (hnodup : (as.map Attr.key).Nodup) : gather Dict.empty as k = valueOf key as := by
  have hgather : gather Dict.empty as = Dict.collect (fun a : Attr => keyword a.name) Attr.value as := rfl
  rw [hgather, valueOf]
  cases hfind : as.find? fun a => a.key = key.toList with
  | none =>
      cases hcollect : Dict.collect (fun a : Attr => keyword a.name) Attr.value as k with
      | none => rfl
      | some v =>
          obtain ⟨a, ha, hkey, -⟩ := Dict.mem_of_collect hcollect
          exact absurd (decide_eq_true ((hk a).mp hkey)) (List.find?_eq_none.mp hfind a ha)
  | some a =>
      have ha : a ∈ as := List.mem_of_find?_eq_some hfind
      have hkey : a.key = key.toList := by simpa using List.find?_some hfind
      have hunique : ∀ b ∈ as, keyword b.name = keyword a.name → b.value = a.value := by
        intro b hb heq
        have hbkey := (hk b).mp (heq.trans ((hk a).mpr hkey))
        rw [List.inj_on_of_nodup_map hnodup hb ha (hbkey.trans hkey.symm)]
      rw [← (hk a).mpr hkey]
      exact Dict.collect_of_agree ha hunique

/-- A value is in the first list or in the second. -/
theorem valueOf_append (key : String) (as bs : List Attr) :
    valueOf key (as ++ bs) = (valueOf key as).or (valueOf key bs) := by
  rw [valueOf, valueOf, valueOf, List.find?_append, Option.map_or]

/-- A key without a value is not in the list. -/
theorem valueOf_eq_none_iff {key : String} : valueOf key as = none ↔ ∀ a ∈ as, a.key ≠ key.toList := by
  rw [valueOf, Option.map_eq_none_iff, List.find?_eq_none]
  simp only [decide_eq_true_eq, ne_eq]

/-- One with a value is. -/
theorem mem_of_valueOf {key : String} {v : Text} (h : valueOf key as = some v) :
    ∃ a ∈ as, a.key = key.toList := by
  obtain ⟨a, hfind, -⟩ := Option.map_eq_some_iff.mp h
  exact ⟨a, List.mem_of_find?_eq_some hfind, by simpa using List.find?_some hfind⟩

/-- What is reached has the value that was written unless it is lost. -/
theorem valueOf_reached_iff {key : String} (hnodup : (as.map Attr.key).Nodup) :
    valueOf key (reached as) = valueOf key as ↔ ∀ a ∈ lost as, a.key ≠ key.toList := by
  have hsplit := valueOf_append key (reached as) (lost as)
  rw [reached_lost] at hsplit
  rw [hsplit, ← valueOf_eq_none_iff]
  cases hlost : valueOf key (lost as) with
  | none => rw [Option.or_none]; exact iff_of_true rfl rfl
  | some v =>
      refine iff_of_false (fun heq => ?_) (fun h => by cases h)
      cases hreached : valueOf key (reached as) with
      | none =>
          rw [hreached] at heq
          cases heq
      | some w =>
          -- the name would stand on either side
          obtain ⟨a, ha, hakey⟩ := mem_of_valueOf hreached
          obtain ⟨c, hc, hckey⟩ := mem_of_valueOf hlost
          rw [← reached_lost as, List.map_append, List.nodup_append] at hnodup
          exact hnodup.2.2 a.key (List.mem_map_of_mem ha) c.key (List.mem_map_of_mem hc)
            (hakey.trans hckey.symm)

/-- What the constructor makes of the keywords, and when it can. -/
theorem init_eq_ok_iff {device : Text} {kwargs : Dict Text Text} {e : BlkidEntry} :
    BlkidEntry.init device kwargs = .ok e ↔
      (kwargs "device".toList = none ∧ kwargs "self".toList = none) ∧
        device = e.device ∧ kwargs "label".toList = e.label ∧ kwargs "uuid".toList = e.uuid ∧
        kwargs "fsType".toList = e.fsType := by
  rw [BlkidEntry.init]
  cases kwargs "device".toList with
  | some v => exact iff_of_false (fun h => by cases h) (fun h => by cases h.1.1)
  | none =>
      cases kwargs "self".toList with
      | some v => exact iff_of_false (fun h => by cases h) (fun h => by cases h.1.2)
      | none =>
          rw [if_neg (by decide), Except.ok.injEq, BlkidEntry.mk.injEq]
          exact ⟨fun h => ⟨⟨rfl, rfl⟩, h⟩, fun h => h.2⟩

/-- No blank is taken off exactly when there is none in front. -/
theorem dropWhile_eq_self_iff_head {t : Text} :
    t.dropWhile isSpace = t ↔ ∀ c ∈ t.head?, isSpace c = false := by
  cases t with
  | nil => exact iff_of_true rfl fun c hc => by cases hc
  | cons d t =>
      rw [List.dropWhile_cons]
      cases hd : isSpace d with
      | false => exact iff_of_true rfl fun c hc => by cases hc; exact hd
      | true =>
          refine iff_of_false (fun heq => ?_) fun h => by rw [h d rfl] at hd; cases hd
          have hlength := congrArg List.length heq
          have hle := (List.dropWhile_suffix isSpace (l := t)).length_le
          rw [if_pos rfl, List.length_cons] at hlength
          omega

/-- **`fromLine` recovers the entry** that blkid wrote exactly where the line fits. -/
theorem recovers_iff (device : Text) (as : List Attr) (hdevice : ':' ∉ device)
    (has : ∀ a ∈ as, a.Written) (hnodup : (as.map Attr.key).Nodup) :
    Recovers device as ↔ Fits device as := by
  have hnodup' : ((reached as).map Attr.key).Nodup := by
    rw [← reached_lost as, List.map_append] at hnodup
    exact (List.nodup_append.mp hnodup).1
  have hgather : ∀ key : String, key.toList ≠ "fsType".toList → key.toList ≠ "type".toList →
      gather Dict.empty (reached as) key.toList = valueOf key (reached as) :=
    fun key h h' => gather_eq (fun a => keyword_other a h h') hnodup'
  have htype : gather Dict.empty (reached as) "fsType".toList = valueOf "type" (reached as) :=
    gather_eq keyword_fsType hnodup'
  have hrecovers : Recovers device as ↔
      BlkidEntry.init (device.dropWhile isSpace) (gather Dict.empty (reached as)) =
        .ok (entryOf device as) := by
    constructor
    · intro h
      have hall := h _ (Nat.le_refl _)
      rw [fromLine_render hdevice has (Nat.le_refl _)] at hall
      exact Option.some.inj hall
    · intro h fuel hfuel
      rw [fromLine_render hdevice has hfuel, h]
  rw [hrecovers, init_eq_ok_iff, hgather "device" (by decide) (by decide),
    hgather "self" (by decide) (by decide), hgather "label" (by decide) (by decide),
    hgather "uuid" (by decide) (by decide), htype]
  show _ ∧ _ = device ∧ _ = valueOf "label" as ∧ _ = valueOf "uuid" as ∧ _ = valueOf "type" as ↔ _
  rw [dropWhile_eq_self_iff_head, valueOf_reached_iff hnodup, valueOf_reached_iff hnodup,
    valueOf_reached_iff hnodup, valueOf_eq_none_iff, valueOf_eq_none_iff]
  constructor
  · rintro ⟨⟨hd, hs⟩, hhead, hlabel, huuid, hfs⟩
    exact ⟨hhead, fun a ha => ⟨hd a ha, hs a ha⟩, fun a ha => ⟨hlabel a ha, huuid a ha, hfs a ha⟩⟩
  · rintro ⟨hhead, harguments, hlost⟩
    exact ⟨⟨fun a ha => (harguments a ha).1, fun a ha => (harguments a ha).2⟩, hhead,
      fun a ha => (hlost a ha).1, fun a ha => (hlost a ha).2.1, fun a ha => (hlost a ha).2.2⟩

end

/-- A label. -/
def labelAttr (quoting : Quoting) : Attr := ⟨"LABEL".toList, "ONL-BOOT".toList, quoting⟩
/-- A type. -/
def typeAttr : Attr := ⟨"TYPE".toList, "ext4".toList, .double⟩

/-- The label of the example is written as `blkid` writes one. -/
theorem written_labelAttr (quoting : Quoting) : (labelAttr quoting).Written := by
  refine ⟨forall_mem_of_all (by decide : "LABEL".toList.all _ = true), ?_⟩
  cases quoting with
  | single => exact (by decide : '\'' ∉ "ONL-BOOT".toList)
  | double => exact (by decide : '"' ∉ "ONL-BOOT".toList)
  | bare => exact ⟨forall_mem_of_all (by decide), by decide, by decide⟩

theorem written_typeAttr : typeAttr.Written :=
  ⟨forall_mem_of_all (by decide), (by decide : '"' ∉ "ext4".toList)⟩

/-- The example line, with two kinds of quotes. -/
theorem recovers_quoted : Recovers "/dev/sda1".toList [labelAttr .single, typeAttr] := by
  refine (recovers_iff "/dev/sda1".toList [labelAttr .single, typeAttr] (by decide) ?_ (by decide)).mpr
    ⟨fun c hc => ?_, by decide, by decide⟩
  · exact List.forall_mem_cons.mpr
      ⟨written_labelAttr .single, List.forall_mem_singleton.mpr written_typeAttr⟩
  · cases hc
    rfl

/-- Behind a bare `LABEL` the `TYPE` is lost. -/
theorem recovers_bare : ¬ ∀ (device : Text) (as : List Attr), ':' ∉ device → (∀ a ∈ as, a.Written) →
    (as.map Attr.key).Nodup → Recovers device as := by
  intro h
  have hwritten : ∀ a ∈ [labelAttr .bare, typeAttr], a.Written :=
    List.forall_mem_cons.mpr ⟨written_labelAttr .bare, List.forall_mem_singleton.mpr written_typeAttr⟩
  have hrecovers := h "/dev/sda1".toList [labelAttr .bare, typeAttr] (by decide) hwritten (by decide)
  exact absurd (hrecovers 50 (by decide)) (by decide)

end DentOS.Blkid
