/-
  The variables of a yaml file (tools/onlyaml.py): `dflatten`, and the loop of `loadf` that
  interpolates the definitions.

  The loop goes once through the definitions, in the order of the dictionary, and reads each with the
  table as it is then: the definitions that were visited are in it as they came out, the others as they
  are written.  So a definition comes out in full where what it refers to is written as it comes out,
  and where not, some order gives something else (`variables_resolve_iff`).

  `Resolution` is the table that the definitions are meant to make: each is its text with all
  references replaced, by what they stand for in the same table.  Definitions without circles have one
  such table, when all they refer to is there (`resolution_exists`).

  The values of definitions are texts.  Python 2 promises nothing about the order of a dictionary, so
  a theorem is about every order.
-/
import DentOS.Lib.Acyclic
import DentOS.Lib.Template

namespace DentOS.Onlyaml

open PyText Template

/-! ## The section: lists and dictionaries, flattened -/

/-- What can stand under 'variables'. -/
inductive Section where
  | dict (entries : List (Text × Text))
  | list (l : List Section)
  | scalar

/-- What a load can raise: a reference that does not resolve, or an element of the wrong kind. -/
inductive OnlYamlError where
  | template (e : TemplateError)
  | element
  deriving DecidableEq

mutual

/-- `dflatten`. -/
def dflatten (rv : Table) : Section → Except OnlYamlError Table
  | .dict entries => .ok (entries.foldl (fun d e => d.set e.1 e.2) rv)
  | .list l => dflattenAll rv l
  | .scalar => .error .element

/-- Its loop. -/
def dflattenAll (rv : Table) : List Section → Except OnlYamlError Table
  | [] => .ok rv
  | e :: l =>
      match dflatten rv e with
      | .error err => .error err
      | .ok rv' => dflattenAll rv' l

end

/-! ## The loop over the definitions, in the order of the dictionary -/

/-- The passes of `for (k,v) in _v.iteritems()`. -/
def interpolateAll : List (Text × Text) → Table → Except OnlYamlError Table
  | [], table => .ok table
  | (k, v) :: items, table =>
      match substitute k table, substitute v table with
      | .error e, _ => .error (.template e)
      | .ok _, .error e => .error (.template e)
      | .ok k', .ok v' => interpolateAll items (table.set k' v')

/-- The table of a file, over what was in it in front of the definitions. -/
def variablesOf (base defs : Table) (items : List (Text × Text)) : Except OnlYamlError Table :=
  interpolateAll items (base.update defs)

/-! ## What the table should be: every name in full -/

/-- **The definitions in full**: each is its text, with every reference replaced by what it stands for. -/
structure Resolution (base defs table : Table) : Prop where
  defined : ∀ k v, defs k = some v → ∃ r, table k = some r ∧ substitute v table = .ok r
  other : ∀ k, defs k = none → table k = base k

/-- The first definition refers to the second. -/
def Refers (defs : Table) (k m : Text) : Prop :=
  ∃ v w, defs k = some v ∧ defs m = some w ∧ m ∈ refs v

/-- No definition refers to itself, however indirectly. -/
def Acyclic (defs : Table) : Prop := ∀ k, ¬ Relation.TransGen (Refers defs) k k

/-- The names of definitions have no references of their own. -/
def PlainNames (defs : Table) : Prop := ∀ k v, defs k = some v → '$' ∉ k

/-- **What one pass needs**: every definition can be read, and one that is referred to is written as it
    comes out. -/
structure Settled (base defs : Table) : Prop where
  read : ∀ k v, defs k = some v → ∃ r, substitute v (base.update defs) = .ok r
  own : ∀ k m w, Refers defs k m → defs m = some w → substitute w (base.update defs) = .ok w

/-! ## Orders in which the loop can go -/

/-- Setting entries one by one keeps a table that lists its items. -/
theorem items_foldl : ∀ (entries : List (Text × Text)) {rv : Table} {items : List (Text × Text)},
    rv.Items items → ∃ items', (entries.foldl (fun d e => d.set e.1 e.2) rv).Items items'
  | [], _, items, h => ⟨items, h⟩
  | e :: entries, _, _, h => items_foldl entries (Dict.items_set h e.1 e.2)

mutual

/-- A section has an order. -/
theorem items_dflatten : ∀ {sec : Section} {rv d : Table} {items : List (Text × Text)},
    rv.Items items → dflatten rv sec = .ok d → ∃ items', d.Items items'
  | .dict entries, rv, d, items, h, hd => by
      rw [dflatten] at hd
      cases hd
      exact items_foldl entries h
  | .list l, rv, d, items, h, hd => by
      rw [dflatten] at hd
      exact items_dflattenAll h hd
  | .scalar, _, _, _, _, hd => by
      rw [dflatten] at hd
      cases hd

/-- Flattening a list of sections keeps a table that lists its items. -/
theorem items_dflattenAll : ∀ {l : List Section} {rv d : Table} {items : List (Text × Text)},
    rv.Items items → dflattenAll rv l = .ok d → ∃ items', d.Items items'
  | [], rv, d, items, h, hd => by
      rw [dflattenAll] at hd
      cases hd
      exact ⟨items, h⟩
  | e :: l, rv, d, items, h, hd => by
      rw [dflattenAll] at hd
      cases he : dflatten rv e with
      | error err =>
          rw [he] at hd
          cases hd
      | ok rv' =>
          rw [he] at hd
          obtain ⟨items', h'⟩ := items_dflatten h he
          exact items_dflattenAll h' hd

end

variable {base defs table : Table}

/-- A name that is defined has its definition. -/
theorem update_some {k v : Text} (h : defs k = some v) : base.update defs k = some v := by
  rw [Dict.update, h]
  rfl

/-- A name that is not has its base value. -/
theorem update_none {k : Text} (h : defs k = none) : base.update defs k = base k := by
  rw [Dict.update, h]
  rfl

/-- The first pass of the loop. -/
theorem interpolateAll_cons_ok {k v : Text} {items : List (Text × Text)} {t t' : Table}
    (hname : '$' ∉ k) : interpolateAll ((k, v) :: items) t = .ok t' ↔
      ∃ r, substitute v t = .ok r ∧ interpolateAll items (t.set k r) = .ok t' := by
  rw [interpolateAll, substitute_plain hname]
  cases substitute v t with
  | error e =>
      constructor
      · rintro ⟨⟩
      · rintro ⟨_, h, -⟩
        cases h
  | ok r =>
      constructor
      · exact fun h => ⟨r, rfl, h⟩
      · rintro ⟨_, h, hrest⟩
        cases h
        exact hrest

/-- Names that are not visited keep their values. -/
theorem interpolateAll_keeps : ∀ {items : List (Text × Text)} {t t' : Table},
    (∀ x ∈ items, '$' ∉ x.1) → interpolateAll items t = .ok t' →
    ∀ k, k ∉ items.map Prod.fst → t' k = t k
  | [], t, t', _, h, k, _ => by
      rw [interpolateAll] at h
      cases h
      rfl
  | (m, w) :: items, t, t', hnames, h, k, hk => by
      obtain ⟨r, -, hrest⟩ := (interpolateAll_cons_ok (hnames _ List.mem_cons_self)).mp h
      have hne : k ≠ m := fun heq => hk (heq ▸ List.mem_cons_self)
      have hout : k ∉ items.map Prod.fst := fun hmem => hk (List.mem_cons_of_mem m hmem)
      rw [interpolateAll_keeps (fun x hx => hnames x (List.mem_cons_of_mem _ hx)) hrest k hout, Dict.set,
        if_neg hne]

/-! ## The definitions in full, where no name leads back to itself -/

/-- Definitions without circles come to an end. -/
theorem refers_wf {items : List (Text × Text)} (hitems : defs.Items items) (hacyclic : Acyclic defs) :
    WellFounded fun m k => Refers defs k m := by
  refine wellFounded_of_acyclic (l := items.map Prod.fst) ?_ hacyclic
  rintro k m ⟨v, w, -, hm, -⟩
  exact List.mem_map.mpr ⟨(m, w), (hitems.mem m w).mpr hm, rfl⟩

open Classical in
/-- The definition of a name, with what those it refers to stand for. -/
noncomputable def inFull (base : Table) (hwf : WellFounded fun m k => Refers defs k m) : Table :=
  hwf.fix fun k full =>
    match defs k with
    | some v => (substitute v fun m => if h : Refers defs k m then full m h else base m).toOption
    | none => base k

/-- In full, a name without a definition is its base value. -/
theorem inFull_none {hwf : WellFounded fun m k => Refers defs k m} {k : Text} (h : defs k = none) :
    inFull base hwf k = base k := by
  rw [inFull, WellFounded.fix_eq, h]

open Classical in
/-- A name with one is that definition with every name in full. -/
theorem inFull_some {hwf : WellFounded fun m k => Refers defs k m} {k v : Text} (h : defs k = some v) :
    inFull base hwf k = (substitute v (inFull base hwf)).toOption := by
  have hsame : ∀ m ∈ refs v, (if _ : Refers defs k m then inFull base hwf m else base m) =
      inFull base hwf m := by
    intro m hm
    by_cases hr : Refers defs k m
    · rw [dif_pos hr]
    · rw [dif_neg hr]
      cases hdef : defs m with
      | none => rw [inFull_none hdef]
      | some w => exact absurd ⟨v, w, h, hdef, hm⟩ hr
  rw [← substitute_congr hsame, inFull, WellFounded.fix_eq, h]

/-- **Definitions without circles have a table** that is them in full, when all of them can be read. -/
theorem resolution_exists {items : List (Text × Text)} (hitems : defs.Items items)
    (hacyclic : Acyclic defs)
    (hread : ∀ k v, defs k = some v → ∃ r, substitute v (base.update defs) = .ok r) :
    ∃ table, Resolution base defs table := by
  have hwf := refers_wf hitems hacyclic
  have hdefined : ∀ k v, defs k = some v → ∃ r, substitute v (inFull base hwf) = .ok r := by
    intro k
    induction k using hwf.induction with
    | _ k ih =>
        intro v hk
        obtain ⟨r, hr⟩ := hread k v hk
        refine substitute_total hr fun m hm => ?_
        cases hdef : defs m with
        | none =>
            have hbase : base.update defs m = base m := update_none hdef
            rw [inFull_none hdef, ← hbase]
            exact defined_of_substitute hr hm
        | some w =>
            obtain ⟨r', hr'⟩ := ih m ⟨v, w, hk, hdef, hm⟩ w hdef
            exact ⟨r', by rw [inFull_some hdef, hr']; rfl⟩
  refine ⟨inFull base hwf, fun k v hk => ?_, fun k hk => inFull_none hk⟩
  obtain ⟨r, hr⟩ := hdefined k v hk
  exact ⟨r, by rw [inFull_some hk, hr]; rfl, hr⟩

/-- And no more than one. -/
theorem resolution_unique {items : List (Text × Text)} (hitems : defs.Items items)
    (hacyclic : Acyclic defs) {table' : Table} (h : Resolution base defs table)
    (h' : Resolution base defs table') : table = table' := by
  funext k
  induction k using (refers_wf hitems hacyclic).induction with
  | _ k ih =>
      cases hdef : defs k with
      | none => rw [h.other k hdef, h'.other k hdef]
      | some v =>
          obtain ⟨r, hr, hsub⟩ := h.defined k v hdef
          obtain ⟨r', hr', hsub'⟩ := h'.defined k v hdef
          have hsame : substitute v table = substitute v table' := by
            refine substitute_congr fun m hm => ?_
            cases hm' : defs m with
            | none => rw [h.other m hm', h'.other m hm']
            | some w => exact ih m ⟨v, w, hdef, hm', hm⟩
          rw [hsame, hsub'] at hsub
          cases hsub
          rw [hr, hr']

/-! ## Settled definitions -/

/-- What each definition comes out as, where they are settled. -/
def settledTable (base defs : Table) : Table := fun k =>
  match defs k with
  | some v => (substitute v (base.update defs)).toOption
  | none => base k

/-- In the settled table, a definition is the definition with its names substituted once. -/
theorem settledTable_some (hsettled : Settled base defs) {k v : Text} (h : defs k = some v) :
    ∃ r, settledTable base defs k = some r ∧ substitute v (base.update defs) = .ok r := by
  obtain ⟨r, hr⟩ := hsettled.read k v h
  refine ⟨r, ?_, hr⟩
  rw [settledTable, h]
  show (substitute v (base.update defs)).toOption = some r
  rw [hr]
  rfl

/-- **Every table between the two is read alike**: what is written as it comes out is the same in it,
    whether it was visited or not. -/
theorem substitute_between (hsettled : Settled base defs) {k v : Text} (h : defs k = some v) {t : Table}
    (ht : ∀ m, t m = base.update defs m ∨ t m = settledTable base defs m) :
    substitute v t = substitute v (base.update defs) := by
  refine substitute_congr fun m hm => ?_
  rcases ht m with hm' | hm'
  · exact hm'
  · rw [hm']
    cases hdef : defs m with
    | none =>
        rw [update_none hdef, settledTable, hdef]
    | some w =>
        obtain ⟨r, hr, hw⟩ := settledTable_some hsettled hdef
        rw [hsettled.own k m w ⟨v, w, h, hdef, hm⟩ hdef] at hw
        cases hw
        rw [update_some hdef, hr]

/-- **Where one round settles, its table is the resolution.** -/
theorem resolution_of_settled (hsettled : Settled base defs) :
    Resolution base defs (settledTable base defs) := by
  constructor
  · intro k v h
    obtain ⟨r, hr, hv⟩ := settledTable_some hsettled h
    refine ⟨r, hr, ?_⟩
    rw [substitute_between hsettled h fun m => Or.inr rfl, hv]
  · intro k h
    rw [settledTable, h]

/-- **The loop**, behind any number of passes: by induction on the definitions to come, over every table
    that has some of them as they are written and the others as they come out. -/
theorem interpolateAll_settled (hsettled : Settled base defs) (hnames : PlainNames defs) :
    ∀ {items : List (Text × Text)} {t : Table}, (∀ x ∈ items, defs x.1 = some x.2) →
      (∀ m, t m = base.update defs m ∨ t m = settledTable base defs m) →
      (∀ m, m ∉ items.map Prod.fst → t m = settledTable base defs m) →
      interpolateAll items t = .ok (settledTable base defs)
  | [], t, _, _, hdone => by
      rw [interpolateAll]
      exact congrArg Except.ok (funext fun m => hdone m List.not_mem_nil)
  | (k, v) :: items, t, hdefs, hbetween, hdone => by
      have hk : defs k = some v := hdefs _ List.mem_cons_self
      obtain ⟨r, hr, hv⟩ := settledTable_some hsettled hk
      refine (interpolateAll_cons_ok (hnames k v hk)).mpr ⟨r, ?_, ?_⟩
      · rw [substitute_between hsettled hk hbetween, hv]
      · refine interpolateAll_settled hsettled hnames
          (fun x hx => hdefs x (List.mem_cons_of_mem _ hx)) ?_ ?_
        · intro m
          by_cases hm : m = k
          · rw [Dict.set, if_pos hm, hm]
            exact Or.inr hr.symm
          · rw [Dict.set, if_neg hm]
            exact hbetween m
        · intro m hm
          by_cases hmk : m = k
          · rw [Dict.set, if_pos hmk, hmk, hr]
          · rw [Dict.set, if_neg hmk]
            refine hdone m fun hmem => ?_
            rcases List.mem_cons.mp hmem with heq | hmem
            · exact hmk heq
            · exact hm hmem

/-! ## All orders -/

section

variable {items : List (Text × Text)}

/-- The names of the items are plain. -/
theorem plain_items (hnames : PlainNames defs) (hitems : defs.Items items) : ∀ x ∈ items, '$' ∉ x.1 :=
  fun x hx => hnames x.1 x.2 ((hitems.mem x.1 x.2).mp hx)

/-- A definition that is visited first is read with all others as they are written. -/
theorem read_first (hitems : defs.Items items) (hnames : PlainNames defs)
    (hall : ∀ items, defs.Items items → variablesOf base defs items = .ok table) {k v : Text}
    (hk : defs k = some v) : ∃ r, substitute v (base.update defs) = .ok r ∧ table k = some r := by
  have hperm : ((k, v) :: items.erase (k, v)).Perm items :=
    (List.perm_cons_erase ((hitems.mem k v).mpr hk)).symm
  have hitems' := hitems.perm hperm
  obtain ⟨r, hr, hrest⟩ := (interpolateAll_cons_ok (hnames k v hk)).mp (hall _ hitems')
  have hout : k ∉ (items.erase (k, v)).map Prod.fst := (List.nodup_cons.mp hitems'.nodup).1
  refine ⟨r, hr, ?_⟩
  rw [interpolateAll_keeps (fun x hx => plain_items hnames hitems' x (List.mem_cons_of_mem _ hx)) hrest k
    hout, Dict.set, if_pos rfl]

/-- And one that is visited second, behind one that it refers to. -/
theorem read_second (hitems : defs.Items items) (hnames : PlainNames defs)
    (hall : ∀ items, defs.Items items → variablesOf base defs items = .ok table) {k m v w : Text}
    (hk : defs k = some v) (hm : defs m = some w) (hkm : k ≠ m) :
    ∃ rm rk, substitute w (base.update defs) = .ok rm ∧
      substitute v ((base.update defs).set m rm) = .ok rk ∧ table k = some rk := by
  have hne : (k, v) ≠ (m, w) := fun heq => hkm (congrArg Prod.fst heq)
  have hmem : (k, v) ∈ items.erase (m, w) := (List.mem_erase_of_ne hne).mpr ((hitems.mem k v).mpr hk)
  have hperm : ((m, w) :: (k, v) :: (items.erase (m, w)).erase (k, v)).Perm items :=
    ((List.perm_cons_erase hmem).symm.cons _).trans
      (List.perm_cons_erase ((hitems.mem m w).mpr hm)).symm
  have hitems' := hitems.perm hperm
  obtain ⟨rm, hrm, hrest⟩ := (interpolateAll_cons_ok (hnames m w hm)).mp (hall _ hitems')
  obtain ⟨rk, hrk, hrest'⟩ := (interpolateAll_cons_ok (hnames k v hk)).mp hrest
  have hout : k ∉ ((items.erase (m, w)).erase (k, v)).map Prod.fst :=
    (List.nodup_cons.mp (List.nodup_cons.mp hitems'.nodup).2).1
  refine ⟨rm, rk, hrm, hrk, ?_⟩
  rw [interpolateAll_keeps (fun x hx => plain_items hnames hitems' x
    (List.mem_cons_of_mem _ (List.mem_cons_of_mem _ hx))) hrest' k hout, Dict.set, if_pos rfl]

/-- **Definitions that come out alike in every order are settled**: a definition reads the same whether
    what it refers to was visited or not, so that this came out as it was written. -/
theorem settled_of_orders (hitems : defs.Items items) (hnames : PlainNames defs) (hacyclic : Acyclic defs)
    (hall : ∀ items, defs.Items items → variablesOf base defs items = .ok table) : Settled base defs := by
  refine ⟨fun k v hk => ?_, ?_⟩
  · obtain ⟨r, hr, -⟩ := read_first hitems hnames hall hk
    exact ⟨r, hr⟩
  · rintro k m w ⟨v, w', hk, hm, hmem⟩ hw
    cases hm.symm.trans hw
    have hkm : k ≠ m := by
      rintro rfl
      exact hacyclic k (Relation.TransGen.single ⟨v, w, hk, hm, hmem⟩)
    obtain ⟨r, hr, htable⟩ := read_first hitems hnames hall hk
    obtain ⟨rm, rk, hrm, hrk, htable'⟩ := read_second hitems hnames hall hk hm hkm
    rw [htable] at htable'
    cases htable'
    have hsame : w = rm := eq_of_substitute (update_some hm) hmem hr hrk
    rw [hrm, ← hsame]

end

/-- **The definitions are resolved in every order** where they are settled, and only there. -/
theorem variables_resolve_iff (base : Table) {sec : Section} {defs : Table}
    (hdefs : dflatten Dict.empty sec = .ok defs) (hnames : PlainNames defs) (hacyclic : Acyclic defs) :
    (∃ table, Resolution base defs table ∧
      ∀ items, defs.Items items → variablesOf base defs items = .ok table) ↔ Settled base defs := by
  constructor
  · rintro ⟨table, -, hall⟩
    obtain ⟨items, hitems⟩ := items_dflatten Dict.items_empty hdefs
    exact settled_of_orders hitems hnames hacyclic hall
  · intro hsettled
    refine ⟨settledTable base defs, resolution_of_settled hsettled, fun items hitems => ?_⟩
    refine interpolateAll_settled hsettled hnames (fun x hx => (hitems.mem x.1 x.2).mp hx)
      (fun m => Or.inl rfl) fun m hm => ?_
    cases hdef : defs m with
    | none => rw [update_none hdef, settledTable, hdef]
    | some v =>
        refine absurd ?_ hm
        exact List.mem_map.mpr ⟨(m, v), (hitems.mem m v).mpr hdef, rfl⟩

/-! ## A chain of three -/

/-- `$\x7bname\x7d`. -/
def refTo (name : Char) : Text := ['$', '\x7b', name, '\x7d']

/-- `A` refers to `C`, which is `x`. -/
def pair : List (Text × Text) := [(['A'], refTo 'C'), (['C'], ['x'])]

/-- `A` refers to `B`, and that to `C`, which is `x`. -/
def chain : List (Text × Text) := [(['A'], refTo 'B'), (['B'], refTo 'C'), (['C'], ['x'])]

/-- The table of definitions. -/
def tableOf (entries : List (Text × Text)) : Table := Dict.collect Prod.fst Prod.snd entries

/-- A section that is a mapping is the table of its entries. -/
theorem dflatten_entries (entries : List (Text × Text)) :
    dflatten Dict.empty (.dict entries) = .ok (tableOf entries) := rfl

/-- What such a table gives is one of the entries. -/
theorem mem_of_tableOf {entries : List (Text × Text)} {k v : Text} (h : tableOf entries k = some v) :
    (k, v) ∈ entries := by
  obtain ⟨x, hx, rfl, rfl⟩ := Dict.mem_of_collect h
  exact hx

/-- A table lists exactly its entries, where no name comes twice. -/
theorem items_tableOf {entries : List (Text × Text)} (hnodup : (entries.map Prod.fst).Nodup) :
    (tableOf entries).Items entries := by
  refine ⟨hnodup, fun k v => ⟨fun hmem => ?_, mem_of_tableOf⟩⟩
  have hagree : ∀ y ∈ entries, y.1 = k → y.2 = v := by
    intro y hy hyk
    have heq : y = (k, v) := List.inj_on_of_nodup_map hnodup hy hmem hyk
    rw [heq]
  exact Dict.collect_of_agree (x := (k, v)) hmem hagree

/-- Its names are plain where those of the entries are. -/
theorem plainNames_tableOf {entries : List (Text × Text)} (h : ∀ x ∈ entries, '$' ∉ x.1) :
    PlainNames (tableOf entries) := fun k v hk => h (k, v) (mem_of_tableOf hk)

/-- Definitions that refer to later ones only have no circles. -/
theorem acyclic_tableOf {entries : List (Text × Text)} (rank : Text → Nat)
    (h : ∀ x ∈ entries, ∀ m ∈ refs x.2, rank m < rank x.1) : Acyclic (tableOf entries) := by
  refine acyclic_of_rank rank ?_
  rintro k m ⟨v, w, hk, -, hm⟩
  exact h (k, v) (mem_of_tableOf hk) m hm

/-- The later a letter, the lower. -/
def below (name : Text) : Nat := 1000 - (name.headD 'A').toNat

/-- The second definition is the text that comes out for it. -/
theorem pair_settled : Settled Dict.empty (tableOf pair) := by
  constructor
  · intro k v hk
    have hmem := mem_of_tableOf hk
    rw [pair, List.mem_cons, List.mem_singleton] at hmem
    obtain h | h := hmem
    · cases h
      exact ⟨['x'], rfl⟩
    · cases h
      exact ⟨['x'], rfl⟩
  · rintro k m w ⟨v, -, hk, -, hm⟩ hw
    have hC : m = ['C'] := by
      have hmem := mem_of_tableOf hk
      rw [pair, List.mem_cons, List.mem_singleton] at hmem
      obtain h | h := hmem
      · cases h
        exact List.mem_singleton.mp hm
      · cases h
        exact absurd hm List.not_mem_nil
    rw [hC] at hw
    cases hw
    rfl

/-- **Every order leaves one table** for a chain of two. -/
theorem pair_resolves : ∃ table, Resolution Dict.empty (tableOf pair) table ∧
    ∀ items, (tableOf pair).Items items → variablesOf Dict.empty (tableOf pair) items = .ok table :=
  (variables_resolve_iff Dict.empty (dflatten_entries pair) (plainNames_tableOf (by decide))
    (acyclic_tableOf below (by decide))).mpr pair_settled

/-- **Two orders leave two tables** for a chain of three. -/
theorem chain_orders : dflatten Dict.empty (.dict chain) = .ok (tableOf chain) ∧
    PlainNames (tableOf chain) ∧ Acyclic (tableOf chain) ∧
    ¬ ∃ table, Resolution Dict.empty (tableOf chain) table ∧ ∀ items, (tableOf chain).Items items →
      variablesOf Dict.empty (tableOf chain) items = .ok table := by
  refine ⟨dflatten_entries chain, plainNames_tableOf (by decide), acyclic_tableOf below (by decide), ?_⟩
  rintro ⟨table, -, hall⟩
  have hitems : (tableOf chain).Items chain := items_tableOf (by decide)
  have hforth := hall chain hitems
  have hback := hall chain.reverse (hitems.perm (List.reverse_perm chain))
  have hsame := congrArg (Except.map fun t : Table => t ['A']) (hforth.trans hback.symm)
  exact absurd hsame (by decide)

end DentOS.Onlyaml
