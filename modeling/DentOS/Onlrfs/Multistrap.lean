/-
  `OnlMultistrapConfig` (tools/onlrfs.py): the sections that the General section lists, by architecture.

  The validation goes through the list of each option and deletes a section that excludes General's arch.
  It looks for the sections in what it deletes from, so a section that is excluded and comes again, in the
  same list or in the other, is missing the second time.  Each turn is the same for the code: a
  verdict on a section (`State.verdict`), none where the section is missing or the test fails.  The loop
  ends well exactly where there is a verdict on each section and none that goes comes twice
  (`sectionLoop_iff`), and so do the two loops in a row (`validate_iff`).

  The test takes `arches` that are there but empty for none at all; and in a text it finds the arch as a
  part, where the text names architectures with commas in between.  `Fits` says where it is right
  (`excluded_eq_iff`).
-/
import DentOS.Lib.Dict
import DentOS.Lib.Words
import Mathlib.Data.List.Infix

namespace DentOS.Multistrap

open PyText

/-! ## Values of a section, and how they are written -/

/-- A value of the configuration. -/
inductive Value where
  | none
  | bool (b : Bool)
  | int (i : Int)
  | text (t : Text)
  | list (vs : List Value)

/-- What the configuration raises. -/
inductive RfsError where
  | rfsError (message : Text)
  | keyError (key : Text)
  | attributeError
  | typeError
  deriving DecidableEq

/-- The options of a section. -/
abbrev Fields := Dict Text Value

/-- The sections by their names. -/
abbrev Config := Dict Text Fields

mutual
/-- `v == w`. -/
def Value.eq : Value → Value → Bool
  | .none, .none => true
  | .bool b, .bool c => b == c
  | .bool b, .int i => (if b then 1 else 0) == i
  | .int i, .bool b => i == (if b then 1 else 0)
  | .int i, .int j => i == j
  | .text s, .text t => s == t
  | .list vs, .list ws => Value.eqAll vs ws
  | _, _ => false
/-- `==` of two lists. -/
def Value.eqAll : List Value → List Value → Bool
  | [], [] => true
  | v :: vs, w :: ws => v.eq w && Value.eqAll vs ws
  | _, _ => false
end

/-- What counts as true. -/
def Value.truthy : Value → Bool
  | .none => false
  | .bool b => b
  | .int i => i ≠ 0
  | .text t => !t.isEmpty
  | .list vs => !vs.isEmpty

/-- `x in container`. -/
def pyIn (x : Value) : Value → Except RfsError Bool
  | .list vs => .ok (vs.any fun v => v.eq x)
  | .text t =>
      match x with
      | .text s => .ok (s <:+: t)
      | _ => .error .typeError
  | _ => .error .typeError

/-! ## The validation: which sections are kept -/

/-- The configuration while it is validated.  The General section is the object that `general` is, also
    where the dictionary has it no more. -/
structure State where
  /-- The sections. -/
  config : Config
  /-- The General section. -/
  general : Fields

/-- `self.config[name]`: General is the dictionary that is edited. -/
def State.lookup (s : State) (name : Text) : Option Fields :=
  (s.config name).map fun fields => if name = "General".toList then s.general else fields

/-- `del self.config[e]`. -/
def State.del (s : State) (e : Text) : State :=
  { s with config := fun name => if name = e then none else s.config name }

/-- `arches and general['arch'] not in arches`. -/
def excluded (arch arches : Option Value) : Except RfsError Bool :=
  match arches with
  | none => .ok false
  | some arches =>
      if arches.truthy then
        match arch with
        | none => .error (.keyError "arch".toList)
        | some arch => (pyIn arch arches).map (! ·)
      else .ok false

/-- The error about a section that is listed and missing. -/
def missing (e entry : Text) : RfsError :=
  .rfsError ("Section '".toList ++ e ++ "' is specified in the ".toList ++ entry ++
    " option but does not exist in the configuration.".toList)

/-- The loop over the sections of one option. -/
def sectionLoop (entry : Text) : List Text → State → List Text → Except RfsError (State × List Text)
  | [], s, sectionlist => .ok (s, sectionlist)
  | e :: es, s, sectionlist =>
      match s.lookup e with
      | none => .error (missing e entry)
      | some fields =>
          match excluded (s.general "arch".toList) (fields "arches".toList) with
          | .error err => .error err
          | .ok true => sectionLoop entry es (s.del e) sectionlist
          | .ok false => sectionLoop entry es s (sectionlist ++ [e])

/-- `general[entry]`, to be split. -/
def listOption (general : Fields) (entry : Text) : Except RfsError Text :=
  match general entry with
  | some (.text t) => .ok t
  | some _ => .error .attributeError
  | none => .error (.keyError entry)

/-- The loop over one option's list, and the list that is left. -/
def validateEntry (entry : Text) (s : State) : Except RfsError State := do
  let t ← listOption s.general entry
  let (s, sectionlist) ← sectionLoop entry (split t) s []
  pure { s with general := s.general.set entry (.text ([' '].intercalate sectionlist)) }

/-- `OnlMultistrapConfig.__validate`. -/
def validate (config : Config) : Except RfsError Config :=
  match config "General".toList with
  | none =>
      .error (.rfsError "Section 'General' is missing from the multistrap configuration.".toList)
  | some general => do
      let s ← validateEntry "debootstrap".toList ⟨config, general⟩
      let s ← validateEntry "aptsources".toList s
      pure s.lookup

/-! ## The output: sections, one behind the other -/

mutual
/-- The values in a list, flattened. -/
def Value.flat : Value → List Value
  | .list vs => (Value.sflatten vs).filter Value.truthy
  | v => [v]
/-- `onlu.sflatten`. -/
def Value.sflatten : List Value → List Value
  | [] => []
  | v :: vs => v.flat ++ Value.sflatten vs
end

/-- `" ".join(vs)`. -/
def joinTexts (vs : List Value) : Except RfsError Text := do
  let ts ← vs.mapM fun v => match v with
    | .text t => (.ok t : Except RfsError Text)
    | _ => .error .typeError
  pure ([' '].intercalate ts)

/-- A field as it is written, and the repository that it names. -/
def writeField (pathExists : Text → Bool) (k : Text) (v : Value) : Except RfsError (Text × List Text) := do
  let v ← match v with
    | .bool b => pure (.text (if b then "true".toList else "false".toList))
    | .list vs => do pure (.text (← joinTexts (Value.sflatten vs)))
    | v => pure v
  let (v, repos) ←
    if k = "source".toList then
      match v with
      | .text t =>
          if pathExists t then pure (.text ("copy:".toList ++ t ++ " ./".toList), [t]) else pure (v, [])
      | _ => .error .typeError
    else pure (v, [])
  -- packages that are a list have been joined by now
  match v with
  | .text t => pure (k ++ '=' :: t ++ ['\n'], repos)
  | .int i => pure (k ++ '=' :: strInt i ++ ['\n'], repos)
  | _ => pure (k ++ "=None\n".toList, repos)

/-- A section of the output: its name, between brackets on a line, its other lines, and an empty one. -/
structure Block where
  /-- The name of the section. -/
  name : Text
  /-- Its lines. -/
  lines : List Text

/-- The options of a section, one line each. -/
def writeFields (pathExists : Text → Bool) : List (Text × Value) → Except RfsError (List Text × List Text)
  | [] => .ok ([], [])
  | (k, v) :: fields => do
      let (line, repos) ← writeField pathExists k v
      let (lines, repos') ← writeFields pathExists fields
      pure (line :: lines, repos ++ repos')

/-- `OnlMultistrapConfig.generate_handle`: what is written, and the local repositories. -/
def generateHandle (pathExists : Text → Bool) :
    List (Text × List (Text × Value)) → Except RfsError (List Block × List Text)
  | [] => .ok ([], [])
  | (name, fields) :: sections => do
      let (lines, repos) ← writeFields pathExists fields
      let (blocks, repos') ← generateHandle pathExists sections
      pure (⟨name, lines⟩ :: blocks, repos ++ repos')

/-- An iteration over the sections, and over the fields of each. -/
structure Visits (config : Config) (sections : List (Text × List (Text × Value))) : Prop where
  nodup : (sections.map Prod.fst).Nodup
  fields : ∀ name items, (name, items) ∈ sections → ∃ fields, config name = some fields ∧ fields.Items items
  all : ∀ name fields, config name = some fields → name ∈ sections.map Prod.fst

/-! ## What the validation is for: apt and debootstrap get the sections of the architecture -/

/-- What the General section says. -/
structure Options where
  /-- The fields of the section. -/
  general : Fields
  /-- The architecture. -/
  arch : Text
  /-- The sections that are unpacked. -/
  debootstrap : Text
  /-- The sections that apt will know. -/
  aptsources : Text

/-- What the configuration gives: a General section with the arch and both lists. -/
structure Given (config : Config) (o : Options) : Prop where
  general : config "General".toList = some o.general
  arch : o.general "arch".toList = some (.text o.arch)
  debootstrap : o.general "debootstrap".toList = some (.text o.debootstrap)
  aptsources : o.general "aptsources".toList = some (.text o.aptsources)

/-- The sections of both lists. -/
def Options.listed (o : Options) : List Text := split o.debootstrap ++ split o.aptsources

/-- The architectures that `arches` names: in a text, with blanks or commas in between. -/
def archNames : Value → List Text
  | .text t => split (t.map fun c => if c = ',' then ' ' else c)
  | .list vs => vs.filterMap fun v => match v with
      | .text t => some t
      | _ => none
  | _ => []

/-- No `arches`, or the arch among them. -/
def includes (arch : Text) (arches : Option Value) : Bool :=
  match arches with
  | none => true
  | some arches => decide (arch ∈ archNames arches)

/-- A section that is there and excludes the arch. -/
def Options.excludes (o : Options) (config : Config) (e : Text) : Bool :=
  match config e with
  | none => false
  | some fields => !includes o.arch (fields "arches".toList)

/-- The list of an option afterwards. -/
def Filtered (o : Options) (config : Config) (before : Text) (after : Option Value) : Prop :=
  ∃ t, after = some (.text t) ∧ split t = (split before).filter fun e => !o.excludes config e

/-- **The validation filters by architecture, and nothing else.** -/
structure Filters (config : Config) (o : Options) : Prop where
  accepts : (∃ final, validate config = .ok final) ↔ ∀ e ∈ o.listed, (config e).isSome = true
  lists : ∀ final, validate config = .ok final → ∃ general, final "General".toList = some general ∧
    Filtered o config o.debootstrap (general "debootstrap".toList) ∧
    Filtered o config o.aptsources (general "aptsources".toList) ∧
    ∀ key, key ≠ "debootstrap".toList → key ≠ "aptsources".toList → general key = o.general key
  gone : ∀ final, validate config = .ok final → ∀ e ∈ o.listed, o.excludes config e = true → final e = none
  others : ∀ final, validate config = .ok final → ∀ name, name ≠ "General".toList →
    ¬ (name ∈ o.listed ∧ o.excludes config name = true) → final name = config name
  output : ∀ final, validate config = .ok final → ∀ pathExists sections, Visits final sections →
    ∀ blocks repos, generateHandle pathExists sections = .ok (blocks, repos) →
    ∀ e ∈ o.listed, o.excludes config e = true → ∀ b ∈ blocks, b.name ≠ e

/-- `arches` that the test is right on. -/
def Fits (arch : Text) : Value → Prop
  | .text t => t ≠ [] ∧ (arch <:+: t ↔ arch ∈ archNames (.text t))
  | .list vs => vs ≠ []
  | _ => False

/-- What the lists have to be: the test is right on each section, none that is excluded comes twice, and
    the General section is not excluded itself. -/
structure Clear (config : Config) (o : Options) : Prop where
  arches : ∀ e ∈ o.listed, ∀ fields, config e = some fields →
    ∀ arches, fields "arches".toList = some arches → Fits o.arch arches
  once : (o.listed.filter (o.excludes config)).Nodup
  general : "General".toList ∈ o.listed → o.excludes config "General".toList = false

/-! ## What ends well, step by step -/

/-- Two steps succeed one behind the other. -/
theorem bind_eq_ok {α β : Type} {x : Except RfsError α} {f : α → Except RfsError β} {b : β} :
    x.bind f = .ok b ↔ ∃ a, x = .ok a ∧ f a = .ok b := by
  cases x with
  | error err => exact iff_of_false (fun h => (by cases h)) fun ⟨a, h, _⟩ => (by cases h)
  | ok a =>
      refine ⟨fun h => ⟨a, rfl, h⟩, fun ⟨a', ha, h⟩ => ?_⟩
      cases ha
      exact h

/-! ## One loop over the names of an option -/

/-- What the loop says of a section: whether it goes, or nothing where the validation ends with it. -/
def State.verdict (s : State) (e : Text) : Option Bool :=
  (s.lookup e).bind fun fields =>
    (excluded (s.general "arch".toList) (fields "arches".toList)).toOption

/-- The section is deleted when its turn comes. -/
def State.drops (s : State) (e : Text) : Bool := s.verdict e = some true

/-- The state without some of its sections. -/
def State.delAll (s : State) (names : List Text) : State :=
  { s with config := fun name => if name ∈ names then none else s.config name }

section

variable {s : State} {e : Text} {es acc : List Text} {entry : Text}

/-- A section is found as before where nothing was done to it. -/
theorem lookup_of_config {s' : State} {name : Text} (hgeneral : s'.general = s.general)
    (hconfig : s'.config name = s.config name) : s'.lookup name = s.lookup name := by
  rw [State.lookup, State.lookup, hconfig, hgeneral]

/-- A section that is missing has no verdict. -/
theorem verdict_none {name : Text} (hconfig : s.config name = none) : s.verdict name = none := by
  rw [State.verdict, State.lookup, hconfig]
  rfl

/-- The verdicts behind deletions: none on what is gone. -/
theorem verdict_delAll (s : State) (names : List Text) (name : Text) :
    (s.delAll names).verdict name = if name ∈ names then none else s.verdict name := by
  by_cases h : name ∈ names
  · rw [if_pos h]
    exact verdict_none (if_pos h)
  · have hlookup : (s.delAll names).lookup name = s.lookup name := lookup_of_config rfl (if_neg h)
    rw [if_neg h, State.verdict, hlookup]
    rfl

/-- One deletion is a list of one. -/
theorem del_eq (s : State) (e : Text) : s.del e = s.delAll [e] := by
  rw [State.del, State.delAll]
  simp only [List.mem_singleton]

/-- Nothing is deleted. -/
theorem delAll_nil (s : State) : s.delAll [] = s := by
  rw [State.delAll]
  simp only [List.not_mem_nil, if_false]

/-- One deletion, and the others. -/
theorem delAll_del (s : State) (e : Text) (names : List Text) :
    (s.del e).delAll names = s.delAll (e :: names) := by
  rw [State.delAll, State.delAll, State.del]
  congr 1
  funext name
  by_cases hmem : name ∈ names
  · rw [if_pos hmem, if_pos (List.mem_cons_of_mem e hmem)]
  · rw [if_neg hmem]
    by_cases he : name = e
    · exact (if_pos he).trans (if_pos (he ▸ List.mem_cons_self)).symm
    · exact (if_neg he).trans (if_neg fun h => (List.mem_cons.mp h).elim he hmem).symm

/-- A verdict is that of the section's test. -/
theorem excluded_of_verdict {b : Bool} (h : s.verdict e = some b) : ∃ fields, s.lookup e = some fields ∧
    excluded (s.general "arch".toList) (fields "arches".toList) = .ok b := by
  obtain ⟨fields, hfields, hverdict⟩ := Option.bind_eq_some_iff.mp h
  refine ⟨fields, hfields, ?_⟩
  cases hex : excluded (s.general "arch".toList) (fields "arches".toList) with
  | error err =>
      rw [hex] at hverdict
      cases hverdict
  | ok b' =>
      rw [hex] at hverdict
      cases hverdict
      rfl

/-- A section that stays is appended to the list. -/
theorem sectionLoop_keep (h : s.verdict e = some false) :
    sectionLoop entry (e :: es) s acc = sectionLoop entry es s (acc ++ [e]) := by
  obtain ⟨fields, hfields, hex⟩ := excluded_of_verdict h
  rw [sectionLoop, hfields]
  simp only [hex]

/-- A section that goes is deleted. -/
theorem sectionLoop_drop (h : s.verdict e = some true) :
    sectionLoop entry (e :: es) s acc = sectionLoop entry es (s.del e) acc := by
  obtain ⟨fields, hfields, hex⟩ := excluded_of_verdict h
  rw [sectionLoop, hfields]
  simp only [hex]

/-- Without a verdict the loop raises. -/
theorem sectionLoop_stop (h : s.verdict e = none) (r : State × List Text) :
    sectionLoop entry (e :: es) s acc ≠ .ok r := by
  rw [sectionLoop]
  cases hfields : s.lookup e with
  | none => exact fun hok => (by cases hok)
  | some fields =>
      rw [State.verdict, hfields] at h
      cases hex : excluded (s.general "arch".toList) (fields "arches".toList) with
      | error err =>
          simp only [hex]
          exact fun hok => (by cases hok)
      | ok b =>
          rw [Option.bind_some, hex] at h
          cases h

/-- What the loop over sections leaves. -/
def State.loopEnd (s : State) (es acc : List Text) : State × List Text :=
  (s.delAll (es.filter s.drops), acc ++ es.filter fun e => !s.drops e)

/-- The end of the loop behind a section that stays. -/
theorem loopEnd_keep (h : s.verdict e = some false) : s.loopEnd (e :: es) acc = s.loopEnd es (acc ++ [e]) := by
  have hdrops : s.drops e = false := by
    rw [State.drops, h]
    decide
  rw [State.loopEnd, State.loopEnd, List.filter_cons_of_neg (Bool.not_eq_true _ ▸ hdrops),
    List.filter_cons_of_pos (by rw [hdrops]; rfl), List.append_assoc]
  rfl

/-- A deletion leaves the verdicts on other sections. -/
theorem verdict_del_of_ne {e' : Text} (h : e' ≠ e) : (s.del e).verdict e' = s.verdict e' := by
  rw [del_eq, verdict_delAll, if_neg fun hmem => h (List.mem_singleton.mp hmem)]

/-- A deletion leaves what becomes of other sections. -/
theorem drops_del_of_ne {e' : Text} (h : e' ≠ e) : (s.del e).drops e' = s.drops e' := by
  rw [State.drops, State.drops, verdict_del_of_ne h]

/-- The sections that go, one being gone. -/
theorem filter_drops_del (h : e ∉ es) : es.filter (s.del e).drops = es.filter s.drops :=
  List.filter_congr fun _ he' => drops_del_of_ne (ne_of_mem_of_not_mem he' h)

/-- The end of the loop behind a section that goes. -/
theorem loopEnd_drop (h : s.verdict e = some true) (hmem : e ∉ es) :
    (s.del e).loopEnd es acc = s.loopEnd (e :: es) acc := by
  have hdrops : s.drops e = true := by
    rw [State.drops, h]
    decide
  have hkeep : es.filter (fun e' => !(s.del e).drops e') = es.filter fun e' => !s.drops e' :=
    List.filter_congr fun e' he' => by rw [drops_del_of_ne (ne_of_mem_of_not_mem he' hmem)]
  rw [State.loopEnd, State.loopEnd, filter_drops_del hmem, hkeep, delAll_del, List.filter_cons_of_pos hdrops,
    List.filter_cons_of_neg (by rw [hdrops]; decide)]

/-- **The loop ends well** where there is a verdict on each section, and none that goes comes twice. -/
theorem sectionLoop_iff : ∀ {es acc : List Text} {s : State} {r : State × List Text},
    sectionLoop entry es s acc = .ok r ↔
      (∀ e ∈ es, s.verdict e ≠ none) ∧ (es.filter s.drops).Nodup ∧ r = s.loopEnd es acc
  | [], acc, s, r => by
      rw [sectionLoop, State.loopEnd, List.filter_nil, List.filter_nil, delAll_nil, List.append_nil,
        Except.ok.injEq]
      exact ⟨fun h => ⟨fun e he => absurd he List.not_mem_nil, List.nodup_nil, h.symm⟩, fun h => h.2.2.symm⟩
  | e :: es, acc, s, r => by
      cases hverdict : s.verdict e with
      | none =>
          refine iff_of_false (sectionLoop_stop hverdict r) fun h => ?_
          exact h.1 e List.mem_cons_self hverdict
      | some b =>
          have hverdicts : (∀ e' ∈ e :: es, s.verdict e' ≠ none) ↔ ∀ e' ∈ es, s.verdict e' ≠ none := by
            rw [List.forall_mem_cons, hverdict]
            exact and_iff_right (Option.some_ne_none b)
          cases b with
          | false =>
              have hdrops : ¬ s.drops e = true := by
                rw [State.drops, hverdict]
                decide
              rw [sectionLoop_keep hverdict, sectionLoop_iff, hverdicts, List.filter_cons_of_neg hdrops,
                loopEnd_keep hverdict]
          | true =>
              have hdrops : s.drops e = true := by
                rw [State.drops, hverdict]
                decide
              rw [sectionLoop_drop hverdict, sectionLoop_iff, hverdicts, List.filter_cons_of_pos hdrops,
                List.nodup_cons]
              by_cases hmem : e ∈ es
              · -- the section comes again, and is not there any more
                refine iff_of_false (fun h => h.1 e hmem ?_) fun h => ?_
                · rw [del_eq, verdict_delAll, if_pos (List.mem_singleton_self e)]
                · exact h.2.1.1 (List.mem_filter.mpr ⟨hmem, hdrops⟩)
              · have hnot : e ∉ es.filter s.drops := fun h => hmem (List.mem_filter.mp h).1
                have hall : (∀ e' ∈ es, (s.del e).verdict e' ≠ none) ↔ ∀ e' ∈ es, s.verdict e' ≠ none :=
                  forall₂_congr fun e' he' => by
                    rw [verdict_del_of_ne (ne_of_mem_of_not_mem he' hmem)]
                rw [filter_drops_del hmem, loopEnd_drop hverdict hmem, hall, and_iff_right hnot]

/-! ## One option of the General section -/

/-- What the loop over the words of an option leaves. -/
def State.entryEnd (s : State) (entry t : Text) : State :=
  { s.delAll ((split t).filter s.drops) with
    general := s.general.set entry (.text ([' '].intercalate ((split t).filter fun e => !s.drops e))) }

/-- **One option** is validated when there is a verdict on each section and none that goes comes twice. -/
theorem validateEntry_iff {t : Text} {s' : State} (ht : s.general entry = some (.text t)) :
    validateEntry entry s = .ok s' ↔ (∀ e ∈ split t, s.verdict e ≠ none) ∧
      ((split t).filter s.drops).Nodup ∧ s' = s.entryEnd entry t := by
  have hcode : validateEntry entry s = (sectionLoop entry (split t) s []).bind fun r =>
      .ok { r.1 with general := r.1.general.set entry (.text ([' '].intercalate r.2)) } := by
    rw [validateEntry, listOption, ht]
    rfl
  rw [hcode, bind_eq_ok]
  constructor
  · rintro ⟨r, hloop, hend⟩
    obtain ⟨hverdict, hnodup, rfl⟩ := sectionLoop_iff.mp hloop
    exact ⟨hverdict, hnodup, (Except.ok.inj hend).symm⟩
  · rintro ⟨hverdict, hnodup, rfl⟩
    exact ⟨_, sectionLoop_iff.mpr ⟨hverdict, hnodup, rfl⟩, rfl⟩

/-- A list of an option is not looked at for the verdicts. -/
theorem verdict_entryEnd {t : Text} (harch : entry ≠ "arch".toList) (harches : entry ≠ "arches".toList)
    (e : Text) : (s.entryEnd entry t).verdict e =
      if e ∈ (split t).filter s.drops then none else s.verdict e := by
  have hset : ∀ key, entry ≠ key → (s.entryEnd entry t).general key = s.general key :=
    fun key hkey => if_neg hkey.symm
  by_cases h : e ∈ (split t).filter s.drops
  · rw [if_pos h]
    exact verdict_none (if_pos h)
  · have hconfig : (s.entryEnd entry t).config e = s.config e := if_neg h
    rw [if_neg h, State.verdict, State.verdict, State.lookup, State.lookup, hconfig, hset _ harch]
    cases s.config e with
    | none => rfl
    | some fields =>
        rw [Option.map_some, Option.map_some, Option.bind_some, Option.bind_some]
        by_cases he : e = "General".toList
        · rw [if_pos he, if_pos he, hset _ harches]
        · rw [if_neg he, if_neg he]

end

/-! ## Both options, one behind the other -/

section

variable {config : Config} {o : Options} {e : Text}

/-- The state in front of the loops. -/
def Options.start (o : Options) (config : Config) : State := ⟨config, o.general⟩

/-- What the first loop leaves, and what both leave. -/
def Options.middle (o : Options) (config : Config) : State :=
  (o.start config).entryEnd "debootstrap".toList o.debootstrap

/-- The state behind both options. -/
def Options.finish (o : Options) (config : Config) : State :=
  (o.middle config).entryEnd "aptsources".toList o.aptsources

/-- The verdict on a section when the second option is read. -/
theorem verdict_second (e : Text) :
    (o.middle config).verdict e =
      if e ∈ (split o.debootstrap).filter (o.start config).drops then none
      else (o.start config).verdict e :=
  verdict_entryEnd (by decide) (by decide) e

/-- What went in the first loop is missing in the second; the other verdicts stand. -/
theorem filter_second (h : ∀ e ∈ split o.aptsources, e ∉ (split o.debootstrap).filter (o.start config).drops)
    (p : Bool → Bool) :
    ((split o.aptsources).filter fun e => p ((o.middle config).drops e)) =
      (split o.aptsources).filter fun e => p ((o.start config).drops e) :=
  List.filter_congr fun e he => by
    rw [State.drops, State.drops, verdict_second, if_neg (h e he)]

/-- A section of the second option is not gone where none comes twice. -/
theorem gone_of_nodup (h : (o.listed.filter (o.start config).drops).Nodup) :
    ∀ e ∈ split o.aptsources, e ∉ (split o.debootstrap).filter (o.start config).drops := by
  intro e he hmem
  rw [Options.listed, List.filter_append, List.nodup_append] at h
  exact h.2.2 e hmem e (List.mem_filter.mpr ⟨he, (List.mem_filter.mp hmem).2⟩) rfl

/-- The two loops in a row, each on its own state. -/
theorem validate_loops (h : Given config o) (final : Config) : validate config = .ok final ↔
    ((∀ e ∈ split o.debootstrap, (o.start config).verdict e ≠ none) ∧
      ((split o.debootstrap).filter (o.start config).drops).Nodup) ∧
    ((∀ e ∈ split o.aptsources, (o.middle config).verdict e ≠ none) ∧
      ((split o.aptsources).filter (o.middle config).drops).Nodup) ∧
    final = (o.finish config).lookup := by
  have hcode : validate config = (validateEntry "debootstrap".toList (o.start config)).bind fun s =>
      (validateEntry "aptsources".toList s).bind fun s => .ok s.lookup := by
    rw [validate, h.general]
    rfl
  have hfirst : ∀ s, validateEntry "debootstrap".toList (o.start config) = .ok s ↔
      (∀ e ∈ split o.debootstrap, (o.start config).verdict e ≠ none) ∧
        ((split o.debootstrap).filter (o.start config).drops).Nodup ∧ s = o.middle config :=
    fun _ => validateEntry_iff h.debootstrap
  have haptsources : (o.middle config).general "aptsources".toList = some (.text o.aptsources) :=
    h.aptsources
  have hsecond : ∀ s, validateEntry "aptsources".toList (o.middle config) = .ok s ↔
      (∀ e ∈ split o.aptsources, (o.middle config).verdict e ≠ none) ∧
        ((split o.aptsources).filter (o.middle config).drops).Nodup ∧ s = o.finish config :=
    fun _ => validateEntry_iff haptsources
  rw [hcode, bind_eq_ok]
  constructor
  · rintro ⟨s, hs, hrest⟩
    obtain ⟨hverdict, hnodup, rfl⟩ := (hfirst s).mp hs
    obtain ⟨s', hs', hfinal⟩ := bind_eq_ok.mp hrest
    obtain ⟨hverdict', hnodup', rfl⟩ := (hsecond s').mp hs'
    exact ⟨⟨hverdict, hnodup⟩, ⟨hverdict', hnodup'⟩, (Except.ok.inj hfinal).symm⟩
  · rintro ⟨⟨hverdict, hnodup⟩, ⟨hverdict', hnodup'⟩, rfl⟩
    exact ⟨_, (hfirst _).mpr ⟨hverdict, hnodup, rfl⟩,
      bind_eq_ok.mpr ⟨_, (hsecond _).mpr ⟨hverdict', hnodup', rfl⟩, rfl⟩⟩

/-- Every section of the second option has a verdict when none of them is gone. -/
theorem verdicts_second : (∀ e ∈ split o.aptsources, (o.middle config).verdict e ≠ none) ↔
    (∀ e ∈ split o.aptsources, e ∉ (split o.debootstrap).filter (o.start config).drops) ∧
      ∀ e ∈ split o.aptsources, (o.start config).verdict e ≠ none := by
  rw [← forall₂_and]
  refine forall₂_congr fun e _ => ?_
  rw [verdict_second]
  split
  · next hmem => exact iff_of_false (fun h => h rfl) fun h => h.1 hmem
  · next hmem => exact (and_iff_right hmem).symm

/-- **The validation ends well** where there is a verdict on each section, and none that goes comes twice
    in both lists. -/
theorem validate_iff (h : Given config o) (final : Config) : validate config = .ok final ↔
    (∀ e ∈ o.listed, (o.start config).verdict e ≠ none) ∧
      (o.listed.filter (o.start config).drops).Nodup ∧ final = (o.finish config).lookup := by
  rw [validate_loops h, verdicts_second]
  constructor
  · rintro ⟨⟨hverdict, hnodup⟩, ⟨⟨hgone, hverdict'⟩, hnodup'⟩, hfinal⟩
    have hsame := filter_second hgone id
    refine ⟨List.forall_mem_append.mpr ⟨hverdict, hverdict'⟩, ?_, hfinal⟩
    rw [Options.listed, List.filter_append, List.nodup_append]
    refine ⟨hnodup, hsame ▸ hnodup', fun e he e' he' heq => ?_⟩
    exact hgone e' (List.mem_filter.mp he').1 (heq ▸ he)
  · rintro ⟨hverdicts, hnodups, hfinal⟩
    obtain ⟨hverdict, hverdict'⟩ := List.forall_mem_append.mp hverdicts
    have hgone := gone_of_nodup hnodups
    have hsame := filter_second hgone id
    rw [Options.listed, List.filter_append, List.nodup_append] at hnodups
    exact ⟨⟨hverdict, hnodups.1⟩, ⟨⟨hgone, hverdict'⟩, hsame.symm ▸ hnodups.2.1⟩, hfinal⟩

/-! ## What the validation leaves of the configuration -/

/-- Words that were joined are split again. -/
theorem split_join_words {ts : List Text} (h : ∀ w ∈ ts, Word w) : split ([' '].intercalate ts) = ts := by
  rw [split_join]
  induction ts with
  | nil => rfl
  | cons w ts ih =>
      rw [List.flatMap_cons, split_of_word (h w List.mem_cons_self),
        ih fun w' hw' => h w' (List.mem_cons_of_mem w hw')]
      rfl

/-- What is left of a list is words. -/
theorem word_of_mem_filter {t : Text} {p : Text → Bool} : ∀ w ∈ (split t).filter p, Word w :=
  fun _ hw => word_of_mem_split (List.mem_filter.mp hw).1

section

variable (hnodup : (o.listed.filter (o.start config).drops).Nodup)
include hnodup

/-- The sections that are left. -/
theorem finish_config (name : Text) : (o.finish config).config name =
    if name ∈ o.listed.filter (o.start config).drops then none else config name := by
  have hsecond : (o.finish config).config name =
      if name ∈ (split o.aptsources).filter (o.start config).drops then none
      else if name ∈ (split o.debootstrap).filter (o.start config).drops then none else config name := by
    have hsame := filter_second (gone_of_nodup hnodup) id
    have hsecond : (o.finish config).config name = if name ∈ (split o.aptsources).filter
        (fun e => id ((o.middle config).drops e)) then none
      else if name ∈ (split o.debootstrap).filter (o.start config).drops then none else config name := rfl
    rw [hsecond, hsame]
    rfl
  rw [hsecond, Options.listed, List.filter_append]
  by_cases hdeb : name ∈ (split o.debootstrap).filter (o.start config).drops
  · rw [if_pos hdeb, if_pos (List.mem_append_left _ hdeb)]
    split <;> rfl
  · rw [if_neg hdeb]
    by_cases happ : name ∈ (split o.aptsources).filter (o.start config).drops
    · rw [if_pos happ, if_pos (List.mem_append_right _ happ)]
    · rw [if_neg happ, if_neg fun h => (List.mem_append.mp h).elim hdeb happ]

/-- The lists afterwards, as sections. -/
theorem finish_lists :
    (∃ t, (o.finish config).general "debootstrap".toList = some (.text t) ∧
      split t = (split o.debootstrap).filter fun e => !(o.start config).drops e) ∧
    ∃ t, (o.finish config).general "aptsources".toList = some (.text t) ∧
      split t = (split o.aptsources).filter fun e => !(o.start config).drops e := by
  have hsame := filter_second (gone_of_nodup hnodup) not
  refine ⟨⟨_, rfl, split_join_words word_of_mem_filter⟩, ⟨_, rfl, ?_⟩⟩
  rw [split_join_words word_of_mem_filter]
  exact hsame

end

/-- The other options of General are left. -/
theorem finish_others {key : Text} (hdeb : key ≠ "debootstrap".toList) (happ : key ≠ "aptsources".toList) :
    (o.finish config).general key = o.general key :=
  (if_neg happ).trans (if_neg hdeb)

/-! ## The test of a section against the architecture -/

/-- What is equal to a text. -/
theorem eq_text (v : Value) (t : Text) : v.eq (.text t) = true ↔ v = .text t := by
  cases v <;> simp [Value.eq]

/-- The arch is in a list. -/
theorem any_eq_text (arch : Text) (vs : List Value) :
    (vs.any fun v => v.eq (.text arch)) = decide (arch ∈ archNames (.list vs)) := by
  rw [Bool.eq_iff_iff, List.any_eq_true, decide_eq_true_eq, archNames, List.mem_filterMap]
  refine exists_congr fun v => and_congr_right fun _ => ?_
  rw [eq_text]
  cases v <;> simp

/-- A value that is never right. -/
theorem excluded_ne {arch : Text} {v : Value} (hfits : ¬ Fits arch v)
    (h : excluded (some (.text arch)) (some v) ≠ .ok (!includes arch (some v))) :
    excluded (some (.text arch)) (some v) = .ok (!includes arch (some v)) ↔
      ∀ w, some v = some w → Fits arch w :=
  iff_of_false h fun hall => hfits (hall v rfl)

/-- The test on a text: the arch is not a part of it. -/
theorem excluded_text (arch t : Text) (ht : t ≠ []) :
    excluded (some (.text arch)) (some (.text t)) = .ok (!decide (arch <:+: t)) := by
  have htruthy : (Value.text t).truthy = true := by
    cases t with
    | nil => exact absurd rfl ht
    | cons c cs => rfl
  rw [excluded]
  simp only [htruthy, if_true]
  rfl

/-- The test on a list: the arch is not in it. -/
theorem excluded_list (arch : Text) (vs : List Value) (hvs : vs ≠ []) :
    excluded (some (.text arch)) (some (.list vs)) = .ok (!includes arch (some (.list vs))) := by
  have htruthy : (Value.list vs).truthy = true := by
    cases vs with
    | nil => exact absurd rfl hvs
    | cons v vs => rfl
  rw [excluded]
  simp only [htruthy, if_true, pyIn, any_eq_text]
  rfl

/-- **Where the test is right.** -/
theorem excluded_eq_iff (arch : Text) (arches : Option Value) :
    excluded (some (.text arch)) arches = .ok (!includes arch arches) ↔
      ∀ v, arches = some v → Fits arch v := by
  cases arches with
  | none => exact iff_of_true rfl fun v hv => (by cases hv)
  | some v =>
      cases v with
      | none => exact excluded_ne id fun h => (by cases h)
      | bool b => exact excluded_ne id fun h => (by cases b <;> cases h)
      | int i =>
          refine excluded_ne id fun h => ?_
          by_cases hi : i = 0
          · subst hi
            cases h
          · rw [excluded] at h
            simp only [Value.truthy, decide_eq_true hi, if_true, pyIn] at h
            cases h
      | text t =>
          by_cases ht : t = []
          · subst ht
            exact excluded_ne (fun h => h.1 rfl) fun h => (by cases h)
          · rw [excluded_text arch t ht, Except.ok.injEq, Bool.not_inj_iff, includes, decide_eq_decide]
            exact ⟨fun h w hw => (by cases hw; exact ⟨ht, h⟩), fun h => (h _ rfl).2⟩
      | list vs =>
          by_cases hvs : vs = []
          · subst hvs
            exact excluded_ne (fun h => h rfl) fun h => (by cases h)
          · exact iff_of_true (excluded_list arch vs hvs) fun w hw => (by cases hw; exact hvs)

/-- A verdict at the start is the test of the section. -/
theorem verdict_start (h : Given config o) (e : Text) : (o.start config).verdict e =
    (config e).bind fun fields => (excluded (some (.text o.arch)) (fields "arches".toList)).toOption := by
  have hlookup : (o.start config).lookup e = config e := by
    rw [State.lookup]
    by_cases he : e = "General".toList
    · subst he
      simp only [if_true, Options.start, h.general, Option.map_some]
    · simp only [if_neg he, Options.start, Option.map_id']
  have harch : (o.start config).general "arch".toList = some (.text o.arch) := h.arch
  rw [State.verdict, hlookup, harch]

/-- The verdict on a section is the right one where the test is. -/
theorem verdict_eq_iff (h : Given config o) {fields : Fields} (he : config e = some fields) :
    (o.start config).verdict e = some (o.excludes config e) ↔
      ∀ arches, fields "arches".toList = some arches → Fits o.arch arches := by
  have hexcludes : o.excludes config e = !includes o.arch (fields "arches".toList) := by
    rw [Options.excludes, he]
  rw [verdict_start h, he, Option.bind_some, hexcludes, ← excluded_eq_iff]
  cases excluded (some (.text o.arch)) (fields "arches".toList) with
  | error err => exact iff_of_false (fun h => (by cases h)) fun h => (by cases h)
  | ok b => exact ⟨fun h => congrArg Except.ok (Option.some.inj h), fun h => congrArg some (Except.ok.inj h)⟩

/-- What becomes of a section is its verdict. -/
theorem drops_eq_of_verdict {b : Bool} (h : (o.start config).verdict e = some b) :
    (o.start config).drops e = b := by
  rw [State.drops, h]
  cases b <;> rfl

/-! ## What is written is what the options leave -/

/-- The blocks are named as the sections, by induction on them. -/
theorem generateHandle_names {pathExists : Text → Bool} :
    ∀ {sections : List (Text × List (Text × Value))} {blocks : List Block} {repos : List Text},
    generateHandle pathExists sections = .ok (blocks, repos) → blocks.map Block.name = sections.map Prod.fst
  | [], blocks, repos, h => by
      cases h
      rfl
  | (name, fields) :: sections, blocks, repos, h => by
      obtain ⟨⟨lines, repos₁⟩, -, hrest⟩ := bind_eq_ok.mp h
      obtain ⟨⟨blocks', repos₂⟩, hblocks, hend⟩ := bind_eq_ok.mp hrest
      cases hend
      rw [List.map_cons, List.map_cons, generateHandle_names hblocks]

/-- What is gone is not written. -/
theorem output_of_gone {final : Config} {pathExists : Text → Bool}
    {sections : List (Text × List (Text × Value))} (hvisits : Visits final sections)
    {blocks : List Block} {repos : List Text}
    (h : generateHandle pathExists sections = .ok (blocks, repos)) (hgone : final e = none) :
    ∀ b ∈ blocks, b.name ≠ e := by
  rintro b hb rfl
  have hname : b.name ∈ sections.map Prod.fst := generateHandle_names h ▸ List.mem_map_of_mem hb
  obtain ⟨⟨name, items⟩, hsection, hfst⟩ := List.mem_map.mp hname
  obtain ⟨fields, hfields, -⟩ := hvisits.fields name items hsection
  rw [← hfst, hfields] at hgone
  cases hgone

/-- What is left under each name, where the validation ends well. -/
theorem finish_lookup (h : Given config o) (hnodup : (o.listed.filter (o.start config).drops).Nodup)
    (name : Text) : (o.finish config).lookup name =
      if name ∈ o.listed.filter (o.start config).drops then none
      else if name = "General".toList then some (o.finish config).general else config name := by
  rw [State.lookup, finish_config hnodup]
  by_cases hmem : name ∈ o.listed.filter (o.start config).drops
  · rw [if_pos hmem, if_pos hmem]
    rfl
  · rw [if_neg hmem, if_neg hmem]
    by_cases he : name = "General".toList
    · subst he
      rw [h.general, if_pos rfl, Option.map_some, if_pos rfl]
    · simp only [if_neg he, Option.map_id']

/-- Where a listed section is missing the validation raises, as it should. -/
theorem filters_of_missing (h : Given config o) (hmissing : ∃ e ∈ o.listed, config e = none) :
    Filters config o := by
  obtain ⟨e, he, hnone⟩ := hmissing
  have hnever : ∀ final, validate config ≠ .ok final := by
    intro final hok
    refine ((validate_iff h final).mp hok).1 e he ?_
    rw [verdict_start h, hnone]
    rfl
  refine ⟨iff_of_false (fun ⟨final, hok⟩ => hnever final hok) fun hall => ?_,
    fun final hok => absurd hok (hnever final), fun final hok => absurd hok (hnever final),
    fun final hok => absurd hok (hnever final), fun final hok => absurd hok (hnever final)⟩
  have hsome := hall e he
  rw [hnone] at hsome
  cases hsome

/-- Where the lists are clear what is written is what they leave. -/
theorem filters_of_clear (h : Given config o) (hall : ∀ e ∈ o.listed, (config e).isSome = true)
    (hclear : Clear config o) : Filters config o := by
  have hverdict : ∀ e ∈ o.listed, (o.start config).verdict e = some (o.excludes config e) := by
    intro e he
    obtain ⟨fields, hfields⟩ := Option.isSome_iff_exists.mp (hall e he)
    exact (verdict_eq_iff h hfields).mpr (hclear.arches e he fields hfields)
  have hdrops : ∀ e ∈ o.listed, (o.start config).drops e = o.excludes config e :=
    fun e he => drops_eq_of_verdict (hverdict e he)
  have hfilter : o.listed.filter (o.start config).drops = o.listed.filter (o.excludes config) :=
    List.filter_congr hdrops
  have hnodup : (o.listed.filter (o.start config).drops).Nodup := hfilter ▸ hclear.once
  have hend : ∀ final, validate config = .ok final ↔ final = (o.finish config).lookup := by
    intro final
    rw [validate_iff h, and_iff_right hnodup]
    exact and_iff_right fun e he => by rw [hverdict e he]; exact Option.some_ne_none _
  have hkept : ∀ es : List Text, (∀ e ∈ es, e ∈ o.listed) →
      (es.filter fun e => !(o.start config).drops e) = es.filter fun e => !o.excludes config e :=
    fun es hes => List.filter_congr fun e he => by rw [hdrops e (hes e he)]
  have hgone : ∀ final, validate config = .ok final → ∀ e ∈ o.listed, o.excludes config e = true →
      final e = none := by
    intro final hok e he hexcludes
    rw [(hend final).mp hok, finish_lookup h hnodup, hfilter,
      if_pos (List.mem_filter.mpr ⟨he, hexcludes⟩)]
  refine ⟨iff_of_true ⟨_, (hend _).mpr rfl⟩ hall, fun final hok => ?_, hgone,
    fun final hok name hne hnot => ?_,
    fun final hok pathExists sections hvisits blocks repos houtput e he hexcludes =>
      output_of_gone hvisits houtput (hgone final hok e he hexcludes)⟩
  · have hgeneral : "General".toList ∉ o.listed.filter (o.start config).drops := by
      rw [hfilter]
      intro hmem
      obtain ⟨hlisted, hexcludes⟩ := List.mem_filter.mp hmem
      rw [hclear.general hlisted] at hexcludes
      cases hexcludes
    obtain ⟨⟨t, ht, hsplit⟩, ⟨t', ht', hsplit'⟩⟩ := finish_lists hnodup
    refine ⟨(o.finish config).general, ?_, ⟨t, ht, ?_⟩, ⟨t', ht', ?_⟩, fun key => finish_others⟩
    · rw [(hend final).mp hok, finish_lookup h hnodup, if_neg hgeneral, if_pos rfl]
    · rw [hsplit, hkept _ fun e he => List.mem_append_left _ he]
    · rw [hsplit', hkept _ fun e he => List.mem_append_right _ he]
  · have hmem : name ∉ o.listed.filter (o.start config).drops := by
      rw [hfilter]
      exact fun hmem => hnot (List.mem_filter.mp hmem)
    rw [(hend final).mp hok, finish_lookup h hnodup, if_neg hmem, if_neg hne]

/-- Equal lists come from equal tests. -/
theorem drops_of_filter_eq {es : List Text} {p q : Text → Bool}
    (h : (es.filter fun e => !p e) = es.filter fun e => !q e) : ∀ e ∈ es, p e = q e := by
  intro e he
  have hmem : e ∈ (es.filter fun e => !p e) ↔ e ∈ es.filter fun e => !q e := by rw [h]
  rw [List.mem_filter, List.mem_filter, and_iff_right he, and_iff_right he, ← Bool.eq_iff_iff] at hmem
  exact Bool.not_inj hmem

/-- Where that is written the lists are clear. -/
theorem clear_of_filters (h : Given config o) (hall : ∀ e ∈ o.listed, (config e).isSome = true)
    (hfilters : Filters config o) : Clear config o := by
  obtain ⟨final, hok⟩ := hfilters.accepts.mpr hall
  obtain ⟨hverdict, hnodup, hfinal⟩ := (validate_iff h final).mp hok
  obtain ⟨general, hgeneral, ⟨t, ht, hsplit⟩, ⟨t', ht', hsplit'⟩, -⟩ := hfilters.lists final hok
  rw [hfinal, finish_lookup h hnodup] at hgeneral
  have hpresent : "General".toList ∉ o.listed.filter (o.start config).drops := by
    intro hmem
    rw [if_pos hmem] at hgeneral
    cases hgeneral
  rw [if_neg hpresent, if_pos rfl] at hgeneral
  obtain ⟨⟨u, hu, husplit⟩, ⟨u', hu', husplit'⟩⟩ := finish_lists hnodup
  rw [← Option.some.inj hgeneral] at ht ht'
  cases ht.symm.trans hu
  cases ht'.symm.trans hu'
  have hdrops : ∀ e ∈ o.listed, (o.start config).drops e = o.excludes config e :=
    List.forall_mem_append.mpr ⟨drops_of_filter_eq (husplit.symm.trans hsplit),
      drops_of_filter_eq (husplit'.symm.trans hsplit')⟩
  refine ⟨fun e he fields hfields => ?_, List.filter_congr hdrops ▸ hnodup, fun hlisted => ?_⟩
  · rw [← verdict_eq_iff h hfields]
    obtain ⟨b, hb⟩ := Option.ne_none_iff_exists'.mp (hverdict e he)
    rw [hb, ← hdrops e he, drops_eq_of_verdict hb]
  · rw [← hdrops _ hlisted]
    exact Bool.eq_false_iff.mpr fun hdrop => hpresent (List.mem_filter.mpr ⟨hlisted, hdrop⟩)

end

/-- **The validation filters by architecture** exactly where a listed section is missing anyway, or the
    lists are clear. -/
theorem filters_iff (config : Config) (o : Options) (h : Given config o) :
    Filters config o ↔ (∃ e ∈ o.listed, config e = none) ∨ Clear config o := by
  by_cases hall : ∀ e ∈ o.listed, (config e).isSome = true
  · constructor
    · exact fun hfilters => Or.inr (clear_of_filters h hall hfilters)
    · rintro (⟨e, he, hnone⟩ | hclear)
      · have hsome := hall e he
        rw [hnone] at hsome
        cases hsome
      · exact filters_of_clear h hall hclear
  · have hmissing : ∃ e ∈ o.listed, config e = none := by
      push Not at hall
      obtain ⟨e, he, hnot⟩ := hall
      exact ⟨e, he, Option.not_isSome_iff_eq_none.mp hnot⟩
    exact iff_of_true (filters_of_missing h hmissing) (Or.inl hmissing)

/-- A General section for amd64. -/
def generalFields (debootstrap aptsources : Text) : Fields :=
  ((Dict.empty.set "arch".toList (.text "amd64".toList)).set "debootstrap".toList (.text debootstrap)).set
    "aptsources".toList (.text aptsources)

/-- The options of the example, with both lists. -/
def listsOf (debootstrap aptsources : Text) : Options :=
  ⟨generalFields debootstrap aptsources, "amd64".toList, debootstrap, aptsources⟩

/-- A section for other architectures. -/
def armFields : Fields := Dict.empty.set "arches".toList (.text "arm64, armel".toList)

/-- A configuration with a section for another architecture. -/
def armConfig (debootstrap aptsources : Text) : Config :=
  (Dict.empty.set "General".toList (generalFields debootstrap aptsources)).set "Arm".toList armFields

/-- Its arch. -/
theorem generalFields_arch (debootstrap aptsources : Text) :
    generalFields debootstrap aptsources "arch".toList = some (.text "amd64".toList) := by
  rw [generalFields, Dict.set_of_ne _ (by decide), Dict.set_of_ne _ (by decide), Dict.set_self]

/-- Its first list. -/
theorem generalFields_debootstrap (debootstrap aptsources : Text) :
    generalFields debootstrap aptsources "debootstrap".toList = some (.text debootstrap) := by
  rw [generalFields, Dict.set_of_ne _ (by decide), Dict.set_self]

/-- Its second list. -/
theorem generalFields_aptsources (debootstrap aptsources : Text) :
    generalFields debootstrap aptsources "aptsources".toList = some (.text aptsources) := Dict.set_self _ _ _

/-- The example gives what is needed. -/
theorem given_armConfig (debootstrap aptsources : Text) :
    Given (armConfig debootstrap aptsources) (listsOf debootstrap aptsources) where
  general := by rw [armConfig, Dict.set_of_ne _ (by decide), Dict.set_self]; rfl
  arch := generalFields_arch debootstrap aptsources
  debootstrap := generalFields_debootstrap debootstrap aptsources
  aptsources := generalFields_aptsources debootstrap aptsources

/-- Its section. -/
theorem armConfig_arm (debootstrap aptsources : Text) :
    armConfig debootstrap aptsources "Arm".toList = some armFields := Dict.set_self _ _ _

/-- Listed once, the section goes. -/
theorem filters_once : Filters (armConfig "Arm".toList []) (listsOf "Arm".toList []) := by
  have hlisted : (listsOf "Arm".toList []).listed = ["Arm".toList] := by decide
  refine (filters_iff _ _ (given_armConfig _ _)).mpr (Or.inr ⟨fun e he fields hfields arches harches => ?_,
    hlisted.symm ▸ (List.nodup_singleton _).filter _, fun h => absurd h (by rw [hlisted]; decide)⟩)
  rw [hlisted, List.mem_singleton] at he
  rw [he, armConfig_arm] at hfields
  rw [← Option.some.inj hfields, armFields, Dict.set_self] at harches
  rw [← Option.some.inj harches]
  exact ⟨by decide, by decide +kernel⟩

/-- Listed twice, it is missing. -/
theorem twice_rejected : ¬ ∀ (config : Config) (o : Options), Given config o → Filters config o := by
  intro h
  have hlisted : (listsOf "Arm".toList "Arm".toList).listed = ["Arm".toList, "Arm".toList] := by decide
  have hfilters := h _ _ (given_armConfig "Arm".toList "Arm".toList)
  obtain ⟨final, hok⟩ := hfilters.accepts.mpr fun e he => by
    rw [hlisted] at he
    have harm : e = "Arm".toList := by simpa using he
    rw [harm, armConfig_arm]
    rfl
  have hcode : (validate (armConfig "Arm".toList "Arm".toList)).toOption.isSome = false := by
    decide +kernel
  rw [hok] at hcode
  cases hcode

end DentOS.Multistrap
