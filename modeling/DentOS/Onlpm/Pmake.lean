/-
  The parallel makefile (tools/onlpm.py): `OnlPackageManager.pmake`.

  The same prerequisites are read twice.  `prerequisite_packages` flattens them and splits their texts
  at commas; `pmake` joins them with blanks, and leaves it to make to take them apart.  The two agree
  on lists of plain words without commas (`written_iff`), and the rules of the makefile are the
  prerequisites when all that is listed is written so, and no two packages of the list share a target
  or differ in what they require (`pmake_edges_iff`).

  `list()` is one dictionary for all groups that are not filtered: of two groups with a package, the
  later one counts.  Its order of iteration is any.

  A rule has the words in front of its colon for targets and those behind it for prerequisites; what
  make does with special letters in a word is not modelled, nor the targets `arch_..._stage...`, which
  name the same packages again by their stages.
-/
import DentOS.Lib.Dict
import DentOS.Lib.Words
import DentOS.Onlpm.Require

namespace DentOS.Onlpm

open PyText

/-! ## The makefile: targets, stages and architectures -/

/-- A group, with what else stands in its prerequisites.  The stage is 0 where there is none. -/
structure Listing extends Group where
  /-- Something else stands in its prerequisites. -/
  broken : Bool
  /-- The stage of its build. -/
  stage : Int

/-- `p.replace(':', '_')`. -/
def underscored (p : Text) : Text := p.map fun c => if c = ':' then '_' else c

/-- `filtered_package_groups`. -/
def shown (groups : List Listing) : List Listing := groups.filter fun g => ! g.filtered

/-- `list()`: what each package requires stands with its group. -/
def listed (groups : List Listing) : Dict Text Listing :=
  Dict.collect Prod.fst Prod.snd ((shown groups).flatMap fun g => g.packages.map fun p => (p, g))

/-- An entry of `TARGETS`. -/
structure Target where
  /-- The name of the target. -/
  name : Text
  /-- The targets in front of it. -/
  depends : Text
  /-- The package that it builds. -/
  package : Text
  /-- Its stage. -/
  stage : Int

/-- What `pmake` raises. -/
inductive MakeError where
  | valueError
  | typeError
  deriving DecidableEq

/-- The texts that `" ".join` is called with: it takes no lists. -/
def texts : List Nested → Except MakeError (List Text)
  | [] => .ok []
  | .str t :: is => (texts is).map (t :: ·)
  | .list _ :: _ => .error .typeError

/-- The stage that a target is built in. -/
def stageOf (g : Listing) (depends : Text) : Int :=
  if g.broken then 20 else if g.stage ≠ 0 then g.stage else if depends = [] then 0 else 1

/-- One pass of the first loop: the architecture and the target of a package. -/
def targetOf (p : Text) (g : Listing) : Except MakeError (Text × Target) :=
  match p.splitOn ':' with
  | [_, arch] => (texts g.prerequisites).map fun ts =>
      (arch, ⟨underscored p, underscored ([' '].intercalate ts), p,
        stageOf g (underscored ([' '].intercalate ts))⟩)
  | _ => .error .valueError

/-- The loop. -/
def targetsOf : List (Text × Listing) → Except MakeError (List (Text × Target))
  | [] => .ok []
  | (p, g) :: items => do
      let t ← targetOf p g
      let ts ← targetsOf items
      .ok (t :: ts)

/-- `TARGETS`, and for each architecture the targets in `ARCHS`. -/
structure Makefile where
  /-- The targets by their names. -/
  rules : Dict Text Target
  /-- The targets of an architecture. -/
  archs : Text → List Text

/-- `pmake`, for an iteration over `list()`. -/
def pmake (items : List (Text × Listing)) : Except MakeError Makefile :=
  (targetsOf items).map fun ts => {
    rules := Dict.collect (fun t => t.2.name) Prod.snd ts
    archs := fun arch => (ts.filter fun t => t.1 = arch).map fun t => t.2.name }

/-! ## What make reads of a list of prerequisites -/

/-- The targets of a rule. -/
def Target.targets (t : Target) : List Text := split t.name

/-- The prerequisites of a rule. -/
def Target.dependencies (t : Target) : List Text := split t.depends

/-- **An order that make may build in**: what a rule depends on stands in front of its targets. -/
def Makefile.Allows (mk : Makefile) (order : List Text) : Prop :=
  ∀ before t behind, order = before ++ t :: behind → ∀ name r, mk.rules name = some r →
    t ∈ r.targets → ∀ d ∈ r.dependencies, d ∈ before

/-- A package of a group requires what the group does. -/
def Insists (groups : List Listing) (p q : Text) : Prop :=
  ∃ g ∈ shown groups, p ∈ g.packages ∧ q ∈ g.prerequisitePackages

/-- **The makefile has the prerequisite edges**: one rule for a package, which depends on the targets
    of what its group requires; and nothing is built in front of what it insists on. -/
structure Edges (groups : List Listing) (mk : Makefile) : Prop where
  rule : ∀ g ∈ shown groups, ∀ p ∈ g.packages, ∃ name r, mk.rules name = some r ∧ r.package = p ∧
    (∀ name' r', mk.rules name' = some r' → r'.package = p → name' = name) ∧
    r.targets = [underscored p] ∧ r.dependencies = g.prerequisitePackages.map underscored
  order : ∀ order, mk.Allows order → ∀ p q, Relation.TransGen (Insists groups) p q →
    ∀ before behind, order = before ++ underscored p :: behind → underscored q ∈ before

/-- A prerequisite that both readings take for one package. -/
def Plain (t : Text) : Prop := Word t ∧ ',' ∉ t

/-- Prerequisites written as a list of such texts. -/
def Written (l : List Nested) : Prop := ∃ ts : List Text, l = ts.map Nested.str ∧ ∀ t ∈ ts, Plain t

/-- **What pmake needs** of the list: identifiers of two parts and no blanks, with targets of their
    own, prerequisites in plain writing, and no group that requires something else than the group
    listed for its package. -/
structure Tidy (groups : List Listing) : Prop where
  named : ∀ p g, listed groups p = some g → Word p ∧ (p.splitOn ':').length = 2
  written : ∀ p g, listed groups p = some g → Written g.prerequisites
  targets : ∀ p g p' g', listed groups p = some g → listed groups p' = some g' →
    underscored p = underscored p' → p = p'
  agree : ∀ g ∈ shown groups, ∀ p ∈ g.packages, ∀ g', listed groups p = some g' →
    g.prerequisitePackages.map underscored = g'.prerequisitePackages.map underscored

/-! ## Two readings of the prerequisites -/

/-- An underscore is no more of a blank than a colon. -/
theorem isSpace_underscored (c : Char) : isSpace (if c = ':' then '_' else c) = isSpace c := by
  split
  · next h =>
      rw [h]
      decide
  · rfl

/-- The words may be taken before the colons are replaced, or behind. -/
theorem split_underscored (t : Text) : split (underscored t) = (split t).map underscored :=
  split_map isSpace_underscored t

/-- A word stays one. -/
theorem word_underscored {t : Text} : Word (underscored t) ↔ Word t := word_map isSpace_underscored

/-- Other letters stay. -/
theorem mem_underscored {c : Char} (hc : c ≠ ':') (h_ : c ≠ '_') {t : Text} :
    c ∈ underscored t ↔ c ∈ t := by
  rw [underscored, List.mem_map]
  constructor
  · rintro ⟨d, hd, heq⟩
    split at heq
    · exact absurd heq.symm h_
    · exact heq ▸ hd
  · intro h
    exact ⟨c, h, if_neg hc⟩

/-- The prerequisites are texts. -/
theorem texts_eq_ok {l : List Nested} : ∀ {ts : List Text}, texts l = .ok ts ↔ l = ts.map Nested.str := by
  induction l with
  | nil =>
      intro ts
      constructor
      · rintro ⟨⟩
        rfl
      · intro h
        rw [List.map_eq_nil_iff.mp h.symm]
        rfl
  | cons i is ih =>
      intro ts
      cases i with
      | list l =>
          constructor
          · rintro ⟨⟩
          · intro h
            cases ts with
            | nil => cases h
            | cons t ts => cases h
      | str t =>
          rw [texts]
          constructor
          · intro h
            cases his : texts is with
            | error e =>
                rw [his] at h
                cases h
            | ok us =>
                rw [his] at h
                cases h
                rw [ih.mp his]
                rfl
          · intro h
            cases ts with
            | nil => cases h
            | cons u us =>
                injection h with hhead htail
                injection hhead with hhead
                rw [ih.mpr htail, hhead]
                rfl

/-- Texts are flattened to themselves. -/
theorem flattenAll_str : ∀ ts : List Text, flattenAll (ts.map Nested.str) = ts
  | [] => rfl
  | t :: ts => by
      rw [List.map_cons, flattenAll, flattenOne, flattenAll_str ts]
      rfl

/-- A text without a comma is its own only part. -/
theorem splitOn_of_plain {t : Text} (h : Plain t) : t.splitOn ',' = [t] := List.splitOn_eq_singleton h.2

/-- **Where the two readings agree**: on texts that are words without commas. -/
theorem split_eq_splitOn_iff (ts : List Text) :
    (ts.flatMap split).map underscored = (ts.flatMap fun e => e.splitOn ',').map underscored ↔
      ∀ t ∈ ts, Plain t := by
  constructor
  · intro h
    -- Every piece between two commas is a word, since what it becomes is one on the other side.
    have hpiece : ∀ t ∈ ts, ∀ piece ∈ t.splitOn ',', Word piece := by
      intro t ht piece hpiece
      have hmem : underscored piece ∈ (ts.flatMap split).map underscored := by
        rw [h]
        exact List.mem_map_of_mem (List.mem_flatMap.mpr ⟨t, ht, hpiece⟩)
      obtain ⟨w, hw, heq⟩ := List.mem_map.mp hmem
      obtain ⟨u, -, hwu⟩ := List.mem_flatMap.mp hw
      rw [← word_underscored, ← heq, word_underscored]
      exact word_of_mem_split hwu
    intro t ht
    have hword : Word t := by
      constructor
      · rintro rfl
        exact (hpiece [] ht [] List.mem_cons_self).1 rfl
      · intro c hc
        by_cases hcomma : c = ','
        · rw [hcomma]
          decide
        · obtain ⟨piece, hmem, hcp⟩ := mem_piece hcomma hc
          exact (hpiece t ht piece hmem).2 c hcp
    refine ⟨hword, fun hcomma => ?_⟩
    -- The word stands on the left with its comma, and no piece on the right has one.
    have hmem : underscored t ∈ (ts.flatMap fun e => e.splitOn ',').map underscored := by
      rw [← h]
      refine List.mem_map_of_mem (List.mem_flatMap.mpr ⟨t, ht, ?_⟩)
      rw [split_of_word hword]
      exact List.mem_singleton_self t
    obtain ⟨piece, hpieces, heq⟩ := List.mem_map.mp hmem
    obtain ⟨u, -, hpu⟩ := List.mem_flatMap.mp hpieces
    refine not_mem_of_mem_splitOn hpu ?_
    rw [← mem_underscored (by decide) (by decide), heq, mem_underscored (by decide) (by decide)]
    exact hcomma
  · intro h
    have hsame : ts.flatMap split = ts.flatMap fun e => e.splitOn ',' := by
      refine List.flatMap_congr fun t ht => ?_
      rw [split_of_word (h t ht).1, splitOn_of_plain (h t ht)]
    rw [hsame]

/-! ## The loop over the groups -/

/-- The target of a package, without its stage. -/
structure TargetFor (p : Text) (g : Listing) (r : Target) : Prop where
  parts : (p.splitOn ':').length = 2
  name : r.name = underscored p
  package : r.package = p
  depends : ∃ ts : List Text, g.prerequisites = ts.map Nested.str ∧
    r.depends = underscored ([' '].intercalate ts)

/-- What the target of a package is. -/
theorem targetFor_of_ok {p : Text} {g : Listing} {t : Text × Target} (h : targetOf p g = .ok t) :
    TargetFor p g t.2 := by
  rw [targetOf] at h
  split at h
  · next hparts =>
      cases hts : texts g.prerequisites with
      | error e =>
          rw [hts] at h
          cases h
      | ok ts =>
          rw [hts] at h
          cases h
          exact ⟨by rw [hparts]; rfl, rfl, rfl, ts, texts_eq_ok.mp hts, rfl⟩
  · cases h

/-- A name of two parts, with texts for prerequisites, has a target. -/
theorem targetOf_total {p : Text} {g : Listing} (hparts : (p.splitOn ':').length = 2) {ts : List Text}
    (hts : g.prerequisites = ts.map Nested.str) : ∃ t, targetOf p g = .ok t := by
  obtain ⟨name, arch, hsplit⟩ := List.length_eq_two.mp hparts
  rw [targetOf, hsplit, texts_eq_ok.mpr hts]
  exact ⟨_, rfl⟩

/-- The targets are those of the items. -/
theorem mem_targetsOf : ∀ {items : List (Text × Listing)} {ts : List (Text × Target)},
    targetsOf items = .ok ts →
    (∀ t ∈ ts, ∃ x ∈ items, targetOf x.1 x.2 = .ok t) ∧ ∀ x ∈ items, ∃ t ∈ ts, targetOf x.1 x.2 = .ok t
  | [], ts, h => by
      cases h
      exact ⟨fun _ h => absurd h List.not_mem_nil, fun _ h => absurd h List.not_mem_nil⟩
  | (p, g) :: items, ts, h => by
      rw [targetsOf] at h
      cases ht : targetOf p g with
      | error e =>
          rw [ht] at h
          cases h
      | ok t =>
          cases hrest : targetsOf items with
          | error e =>
              rw [ht, hrest] at h
              cases h
          | ok us =>
              rw [ht, hrest] at h
              cases h
              obtain ⟨hback, hforth⟩ := mem_targetsOf hrest
              constructor
              · intro t' ht'
                rcases List.mem_cons.mp ht' with rfl | ht'
                · exact ⟨(p, g), List.mem_cons_self, ht⟩
                · obtain ⟨x, hx, htarget⟩ := hback t' ht'
                  exact ⟨x, List.mem_cons_of_mem _ hx, htarget⟩
              · intro x hx
                rcases List.mem_cons.mp hx with rfl | hx
                · exact ⟨t, List.mem_cons_self, ht⟩
                · obtain ⟨t', ht', htarget⟩ := hforth x hx
                  exact ⟨t', List.mem_cons_of_mem _ ht', htarget⟩

/-- Where every item has a target there is a makefile. -/
theorem targetsOf_total : ∀ {items : List (Text × Listing)},
    (∀ x ∈ items, ∃ t, targetOf x.1 x.2 = .ok t) → ∃ ts, targetsOf items = .ok ts
  | [], _ => ⟨[], rfl⟩
  | (p, g) :: items, h => by
      obtain ⟨t, ht⟩ := h _ List.mem_cons_self
      obtain ⟨ts, hts⟩ := targetsOf_total fun x hx => h x (List.mem_cons_of_mem _ hx)
      rw [targetsOf, ht, hts]
      exact ⟨t :: ts, rfl⟩

/-! ## The rules -/

variable {groups : List Listing} {items : List (Text × Listing)} {mk : Makefile}

/-- What is listed for a package is a group that has it. -/
theorem shown_of_listed {p : Text} {g : Listing} (h : listed groups p = some g) :
    g ∈ shown groups ∧ p ∈ g.packages := by
  obtain ⟨x, hx, rfl, rfl⟩ := Dict.mem_of_collect h
  obtain ⟨g', hg', hx⟩ := List.mem_flatMap.mp hx
  obtain ⟨p', hp', rfl⟩ := List.mem_map.mp hx
  exact ⟨hg', hp'⟩

/-- A package of a group that is shown is listed. -/
theorem listed_of_mem {g : Listing} (hg : g ∈ shown groups) {p : Text} (hp : p ∈ g.packages) :
    ∃ g', listed groups p = some g' := by
  have hmem : (p, g) ∈ (shown groups).flatMap fun g => g.packages.map fun p => (p, g) :=
    List.mem_flatMap.mpr ⟨g, hg, List.mem_map_of_mem hp⟩
  exact Dict.collect_of_mem hmem

/-- **A rule is the rule of a package of the list**, -/
theorem targetFor_of_rule (hitems : (listed groups).Items items) (hmk : pmake items = .ok mk)
    {name : Text} {r : Target} (h : mk.rules name = some r) :
    ∃ g, listed groups r.package = some g ∧ TargetFor r.package g r ∧ name = underscored r.package := by
  rw [pmake] at hmk
  cases hts : targetsOf items with
  | error e =>
      rw [hts] at hmk
      cases hmk
  | ok ts =>
      rw [hts] at hmk
      cases hmk
      obtain ⟨t, ht, rfl, rfl⟩ := Dict.mem_of_collect h
      obtain ⟨⟨p, g⟩, hx, htarget⟩ := (mem_targetsOf hts).1 t ht
      have hfor := targetFor_of_ok htarget
      have hp : t.2.package = p := hfor.package
      rw [hp]
      exact ⟨g, (hitems.mem p g).mp hx, hfor, hfor.name⟩

/-- and every package of the list has one of its target. -/
theorem rule_of_listed (hitems : (listed groups).Items items) (hmk : pmake items = .ok mk)
    {p : Text} {g : Listing} (h : listed groups p = some g) : ∃ r, mk.rules (underscored p) = some r := by
  rw [pmake] at hmk
  cases hts : targetsOf items with
  | error e =>
      rw [hts] at hmk
      cases hmk
  | ok ts =>
      rw [hts] at hmk
      cases hmk
      obtain ⟨t, ht, htarget⟩ := (mem_targetsOf hts).2 (p, g) ((hitems.mem p g).mpr h)
      rw [← (targetFor_of_ok htarget).name]
      exact Dict.collect_of_mem ht

/-- What a rule depends on. -/
theorem dependencies_of_targetFor {p : Text} {g : Listing} {r : Target} (h : TargetFor p g r) :
    ∃ ts : List Text, g.prerequisites = ts.map Nested.str ∧
      r.dependencies = (ts.flatMap split).map underscored ∧
      g.prerequisitePackages = ts.flatMap fun e => e.splitOn ',' := by
  obtain ⟨ts, hts, hdepends⟩ := h.depends
  refine ⟨ts, hts, ?_, ?_⟩
  · rw [Target.dependencies, hdepends, split_underscored, split_join]
  · rw [Group.prerequisitePackages, hts, flattenAll_str]

/-- **Where the dependencies of a rule are the prerequisites of its group.** -/
theorem written_iff {p : Text} {g : Listing} {r : Target} (h : TargetFor p g r) :
    r.dependencies = g.prerequisitePackages.map underscored ↔ Written g.prerequisites := by
  obtain ⟨ts, hts, hdeps, hpkgs⟩ := dependencies_of_targetFor h
  rw [hdeps, hpkgs, split_eq_splitOn_iff]
  constructor
  · exact fun hplain => ⟨ts, hts, hplain⟩
  · rintro ⟨us, hus, hplain⟩
    have hsame : ts.map Nested.str = us.map Nested.str := hts.symm.trans hus
    have hinj : Function.Injective Nested.str := fun _ _ heq => Nested.str.inj heq
    rw [List.map_injective_iff.mpr hinj hsame]
    exact hplain

/-- A rule has one target when the name of the package is a word. -/
theorem targets_iff {p : Text} {g : Listing} {r : Target} (h : TargetFor p g r) :
    r.targets = [underscored p] ↔ Word p := by
  rw [Target.targets, h.name, split_eq_self_iff, word_underscored]

/-- What stands in front of what, edge by edge. -/
theorem order_of_rule (hrule : ∀ g ∈ shown groups, ∀ p ∈ g.packages, ∃ name r,
      mk.rules name = some r ∧ r.targets = [underscored p] ∧
        r.dependencies = g.prerequisitePackages.map underscored)
    {order : List Text} (hallows : mk.Allows order) {p q : Text}
    (h : Relation.TransGen (Insists groups) p q) {before behind : List Text}
    (horder : order = before ++ underscored p :: behind) : underscored q ∈ before := by
  have hedge : ∀ {p q : Text}, Insists groups p q → ∀ {before behind : List Text},
      order = before ++ underscored p :: behind → underscored q ∈ before := by
    rintro p q ⟨g, hg, hp, hq⟩ before behind horder
    obtain ⟨name, r, hr, htargets, hdeps⟩ := hrule g hg p hp
    refine hallows before _ behind horder name r hr ?_ _ ?_
    · rw [htargets]
      exact List.mem_singleton_self _
    · rw [hdeps]
      exact List.mem_map_of_mem hq
  induction h with
  | single hpq => exact hedge hpq horder
  | tail _ hbc ih =>
      obtain ⟨first, rest, hsplit⟩ := List.append_of_mem ih
      rw [hsplit, List.append_assoc, List.cons_append] at horder
      rw [hsplit]
      exact List.mem_append_left _ (hedge hbc horder)

/-- In a makefile with the edges, the rule of a package is that of the group listed for it. -/
theorem rule_of_edges {items : List (Text × Listing)} (hitems : (listed groups).Items items)
    (hmk : pmake items = .ok mk) (hedges : Edges groups mk) {g g' : Listing} (hg : g ∈ shown groups) {p : Text}
    (hp : p ∈ g.packages) (hg' : listed groups p = some g') :
    ∃ r, mk.rules (underscored p) = some r ∧ r.package = p ∧ TargetFor p g' r ∧
      r.targets = [underscored p] ∧ r.dependencies = g.prerequisitePackages.map underscored := by
  obtain ⟨name, r, hr, rfl, -, htargets, hdeps⟩ := hedges.rule g hg p hp
  obtain ⟨g₀, hg₀, hfor, rfl⟩ := targetFor_of_rule hitems hmk hr
  rw [hg'] at hg₀
  cases hg₀
  exact ⟨r, hr, rfl, hfor, htargets, hdeps⟩

/-- A makefile with the edges was made of a tidy list. -/
theorem tidy_of_edges {items : List (Text × Listing)} (hitems : (listed groups).Items items)
    (hmk : pmake items = .ok mk) (hedges : Edges groups mk) : Tidy groups := by
  have hown : ∀ p g, listed groups p = some g →
      ∃ r, mk.rules (underscored p) = some r ∧ r.package = p ∧ TargetFor p g r ∧
        r.targets = [underscored p] ∧ r.dependencies = g.prerequisitePackages.map underscored :=
    fun p g hg => rule_of_edges hitems hmk hedges (shown_of_listed hg).1 (shown_of_listed hg).2 hg
  refine ⟨?_, ?_, ?_, ?_⟩
  · intro p g hg
    obtain ⟨r, -, -, hfor, htargets, -⟩ := hown p g hg
    exact ⟨(targets_iff hfor).mp htargets, hfor.parts⟩
  · intro p g hg
    obtain ⟨r, -, -, hfor, -, hdeps⟩ := hown p g hg
    exact (written_iff hfor).mp hdeps
  · intro p g p' g' hg hg' hsame
    obtain ⟨r, hr, hp, -⟩ := hown p g hg
    obtain ⟨r', hr', hp', -⟩ := hown p' g' hg'
    rw [hsame, hr'] at hr
    cases hr
    rw [← hp, hp']
  · intro g hg p hp g' hg'
    obtain ⟨r, hr, -, -, -, hdeps⟩ := rule_of_edges hitems hmk hedges hg hp hg'
    obtain ⟨r', hr', -, -, -, hdeps'⟩ := hown p g' hg'
    rw [hr'] at hr
    cases hr
    rw [← hdeps, hdeps']

/-- A tidy list has a makefile. -/
theorem pmake_of_tidy {items : List (Text × Listing)} (hitems : (listed groups).Items items)
    (htidy : Tidy groups) : ∃ mk, pmake items = .ok mk := by
  have htotal : ∀ x ∈ items, ∃ t, targetOf x.1 x.2 = .ok t := by
    rintro ⟨p, g⟩ hx
    have hg := (hitems.mem p g).mp hx
    obtain ⟨ts, hts, -⟩ := htidy.written p g hg
    exact targetOf_total (htidy.named p g hg).2 hts
  obtain ⟨ts, hts⟩ := targetsOf_total htotal
  rw [pmake, hts]
  exact ⟨_, rfl⟩

/-- A tidy list makes a makefile with the edges. -/
theorem edges_of_tidy {items : List (Text × Listing)} (hitems : (listed groups).Items items)
    (hmk : pmake items = .ok mk) (htidy : Tidy groups) : Edges groups mk := by
  have hrule : ∀ g ∈ shown groups, ∀ p ∈ g.packages, ∃ name r, mk.rules name = some r ∧
      r.package = p ∧ (∀ name' r', mk.rules name' = some r' → r'.package = p → name' = name) ∧
      r.targets = [underscored p] ∧ r.dependencies = g.prerequisitePackages.map underscored := by
    intro g hg p hp
    obtain ⟨g', hg'⟩ := listed_of_mem hg hp
    obtain ⟨r, hr⟩ := rule_of_listed hitems hmk hg'
    obtain ⟨g₀, hg₀, hfor, hname⟩ := targetFor_of_rule hitems hmk hr
    have hpkg : r.package = p := (htidy.targets p g' r.package g₀ hg' hg₀ hname).symm
    rw [hpkg] at hg₀ hfor
    rw [hg'] at hg₀
    cases hg₀
    refine ⟨underscored p, r, hr, hpkg, ?_, ?_, ?_⟩
    · rintro name' r' hr' rfl
      obtain ⟨-, -, -, hname'⟩ := targetFor_of_rule hitems hmk hr'
      exact hname'
    · exact (targets_iff hfor).mpr (htidy.named p g' hg').1
    · rw [htidy.agree g hg p hp g' hg']
      exact (written_iff hfor).mpr (htidy.written p g' hg')
  refine ⟨hrule, ?_⟩
  intro order hallows p q hpq before behind horder
  refine order_of_rule (fun g hg p hp => ?_) hallows hpq horder
  obtain ⟨name, r, hr, -, -, htargets, hdeps⟩ := hrule g hg p hp
  exact ⟨name, r, hr, htargets, hdeps⟩

/-- **The makefile has exactly the prerequisite edges** of the groups that are not filtered, where their
    list is tidy, and only there. -/
theorem pmake_edges_iff (groups : List Listing) (items : List (Text × Listing))
    (hitems : (listed groups).Items items) :
    (∃ mk, pmake items = .ok mk ∧ Edges groups mk) ↔ Tidy groups := by
  constructor
  · rintro ⟨mk, hmk, hedges⟩
    exact tidy_of_edges hitems hmk hedges
  · intro htidy
    obtain ⟨mk, hmk⟩ := pmake_of_tidy hitems htidy
    exact ⟨mk, hmk, edges_of_tidy hitems hmk htidy⟩

/-! ## A comma -/

/-- A package that requires two, in one text. -/
def commaListing : Listing :=
  ⟨⟨["app:amd64".toList], false, [], [.str "liba:amd64,libb:amd64".toList]⟩, false, 0⟩

/-- And in two. -/
def plainListing : Listing :=
  ⟨⟨["app:amd64".toList], false, [], [.str "liba:amd64".toList, .str "libb:amd64".toList]⟩, false, 0⟩

/-- The list of one group with one package. -/
theorem listed_one (g : Listing) {p : Text} (hp : g.packages = [p]) (hfiltered : g.filtered = false) :
    (listed [g]).Items [(p, g)] := by
  have hshown : shown [g] = [g] := by
    rw [shown, List.filter_cons_of_pos (by rw [hfiltered]; rfl)]
    rfl
  have hlisted : listed [g] = Dict.set Dict.empty p g := by
    rw [listed, hshown, List.flatMap_singleton, hp]
    rfl
  refine ⟨List.nodup_singleton p, fun k v => ?_⟩
  rw [hlisted, Dict.set, List.mem_singleton]
  split
  · next h =>
      rw [h]
      constructor
      · rintro ⟨⟩
        rfl
      · rintro ⟨⟩
        rfl
  · next h =>
      constructor
      · rintro ⟨⟩
        exact absurd rfl h
      · rintro ⟨⟩

/-- The list that shows nothing else is tidy. -/
theorem plainListing_tidy : Tidy [plainListing] := by
  have honly : ∀ {p g}, listed [plainListing] p = some g → p = "app:amd64".toList ∧ g = plainListing := by
    intro p g h
    have hmem := ((listed_one plainListing rfl rfl).2 p g).mpr h
    cases List.mem_singleton.mp hmem
    exact ⟨rfl, rfl⟩
  constructor
  · intro p g h
    obtain ⟨rfl, -⟩ := honly h
    exact ⟨⟨by decide, forall_mem_of_all (by decide)⟩, by decide⟩
  · intro p g h
    obtain ⟨-, rfl⟩ := honly h
    refine ⟨["liba:amd64".toList, "libb:amd64".toList], rfl, ?_⟩
    intro t ht
    obtain rfl | rfl : t = "liba:amd64".toList ∨ t = "libb:amd64".toList := by
      simpa only [List.mem_cons, List.not_mem_nil, or_false] using ht
    · exact ⟨⟨by decide, forall_mem_of_all (by decide)⟩, by decide⟩
    · exact ⟨⟨by decide, forall_mem_of_all (by decide)⟩, by decide⟩
  · intro p g p' g' h h' _
    rw [(honly h).1, (honly h').1]
  · intro g hg p hp g' h'
    obtain ⟨-, rfl⟩ := honly h'
    cases List.mem_singleton.mp (List.mem_of_mem_filter hg)
    rfl

/-- **Both prerequisites are rules** of the makefile of the second list. -/
theorem plainListing_edges :
    ∃ mk, pmake [("app:amd64".toList, plainListing)] = .ok mk ∧ Edges [plainListing] mk :=
  (pmake_edges_iff [plainListing] _ (listed_one plainListing rfl rfl)).mpr plainListing_tidy

/-- **A comma is left in the name of one target.** -/
theorem commaListing_edges : (listed [commaListing]).Items [("app:amd64".toList, commaListing)] ∧
    ¬ ∃ mk, pmake [("app:amd64".toList, commaListing)] = .ok mk ∧ Edges [commaListing] mk := by
  refine ⟨listed_one commaListing rfl rfl, ?_⟩
  rintro ⟨mk, hmk, hedges⟩
  obtain ⟨name, r, hr, -, -, -, hdeps⟩ := hedges.rule commaListing List.mem_cons_self _ List.mem_cons_self
  obtain ⟨g, hg, hfor, -⟩ := targetFor_of_rule (listed_one commaListing rfl rfl) hmk hr
  obtain ⟨hshown, -⟩ := shown_of_listed hg
  rw [List.mem_singleton.mp hshown] at hfor
  obtain ⟨ts, hts, hplain⟩ := (written_iff hfor).mp hdeps
  rcases ts with _ | ⟨t, ts⟩
  · cases hts
  · have ht : "liba:amd64,libb:amd64".toList = t := Nested.str.inj (List.cons.inj hts).1
    have hcomma : ',' ∈ t := by
      rw [← ht]
      decide
    exact (hplain t List.mem_cons_self).2 hcomma

end DentOS.Onlpm
